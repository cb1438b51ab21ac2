/-
Task switching (`task_switch.S`, and the stack that `task.c` lays out).

`do_task_switch` pushes the callee-saved registers of the caller, stores ESP in the control block of `CURRENT_TASK`, makes its
argument the current task, and pops the registers of the new task from its stack; the struct offsets are those of the
assembly. It is modelled instruction by instruction. `task_create` writes the words that the first switch pops.

A run interleaves work of the running task, which may change every register and every byte of its own stack, the creation of
tasks, and switches. The history of a run keeps, for each task, the context it had when it last called `do_task_switch`, or
that `task_create` laid out.

- `switched`: what one call does, for any caller and any next task, itself included;
- `layOutStack_spec`: `task_create` writes inside the new stack, and leaves the initial context there;
- `switch_resumes`: in every run a switch returns in the next task with the registers saved for it, and `CURRENT_TASK`, CR3
  and ESP0 of the TSS are those of that task.

Premises: control blocks, stacks, `CURRENT_TASK` and the TSS are pairwise disjoint (`Layout`); the kernel half, where they all
are, is the same in every address space, so memory is one; a caller has 24 bytes left on its stack.
-/
import Gubos.Core.Run
import Gubos.Core.Tiling
import Gubos.Core.Cpu
import Gubos.Layout
import Gubos.Panic

namespace Gubos.TaskSwitch

open Gubos.Core

/-! ## The code -/

/-- the addresses of `CURRENT_TASK` and `tss` -/
structure Symbols where
  currentTask : ℕ
  tss : ℕ
deriving DecidableEq, Repr

/-- `do_task_switch`: the callee-saved registers go to the stack, and ESP to the control block of the current task -/
def saveContext (L : Symbols) (s : Cpu) : Cpu :=
  let s := s.cli
  -- eax = next
  let s := s.load 4 .esp .eax
  let s := s.push .ebp
  let s := s.mov .esp .ebp
  let s := s.push .ebx
  let s := s.push .esi
  let s := s.push .edi
  -- CURRENT_TASK->kernel_stack_top = ESP
  let s := s.loadSym L.currentTask .ebx
  s.store .esp 4 .ebx

/-- the next task becomes the current one: stack, ESP0 of the TSS, and CR3 unless it is the same -/
def loadTask (L : Symbols) (s : Cpu) : Cpu :=
  let s := s.storeSym .eax L.currentTask
  let s := s.load 4 .eax .esp
  let s := s.load 8 .eax .ecx
  let s := s.load 12 .eax .edx
  let s := s.lea L.tss .esi
  let s := s.store .edx 4 .esi
  let s := s.loadCr3 .ebx
  let s := s.cmp .ebx .ecx
  if s.zf then s else s.storeCr3 .ecx

/-- the callee-saved registers of the next task come from its stack, and `ret` takes its return address -/
def restoreContext (s : Cpu) : Cpu :=
  let s := s.pop .edi
  let s := s.pop .esi
  let s := s.pop .ebx
  let s := s.pop .ebp
  let s := s.sti
  s.ret

/-- `do_task_switch` -/
def doTaskSwitch (L : Symbols) (s : Cpu) : Cpu := restoreContext (loadTask L (saveContext L s))

/-- `push_uint32`: the word is stored first, then the pointer lowered -/
def pushUint32 (st : Mem × ℕ) (value : ℕ) : Mem × ℕ := (store32 st.1 st.2 value, u32 (st.2 + 2 ^ 32 - 4))

/-- what `task_create` is given and computes before it lays out the stack: the functions, the pid, CR3 and the other words of
the control block (VMM context, paging context), and the addresses of `sched_halt_or_crash` and `sched_remove` -/
structure TaskArgs where
  pid : BitVec 32
  taskFn : BitVec 32
  retAddr : BitVec 32
  cr3 : BitVec 32
  schedHaltOrCrash : BitVec 32
  schedRemove : BitVec 32
  vmmContext : BitVec 32 × BitVec 32
  pagingCtx : BitVec 32 × BitVec 32

/-- the stack of a new task: what its function finds when it returns, the function, and the registers that the first switch
restores -/
def layOutStack (mem : Mem) (kernelStackTop : ℕ) (args : TaskArgs) : Mem × ℕ :=
  let st := (mem, kernelStackTop)
  let st := pushUint32 st args.pid.toNat
  let st := pushUint32 st args.schedHaltOrCrash.toNat
  let st := pushUint32 st args.schedRemove.toNat
  let st := if args.retAddr ≠ 0 then pushUint32 st args.retAddr.toNat else st
  -- EIP, EBP, EBX, ESI
  let st := pushUint32 st args.taskFn.toNat
  let st := pushUint32 st 0
  let st := pushUint32 st 0
  let st := pushUint32 st 0
  -- EDI
  (store32 st.1 st.2 0, st.2)

/-- `*task = { .. }` -/
def writeControlBlock (mem : Mem) (task kernelStackTop : ℕ) (args : TaskArgs) : Mem :=
  let mem := store32 mem task args.pid.toNat
  let mem := store32 mem (task + 4) kernelStackTop
  let mem := store32 mem (task + 8) args.cr3.toNat
  let mem := store32 mem (task + 12) kernelStackTop
  let mem := store32 mem (task + 16) args.vmmContext.1.toNat
  let mem := store32 mem (task + 20) args.vmmContext.2.toNat
  let mem := store32 mem (task + 24) args.pagingCtx.1.toNat
  let mem := store32 mem (task + 28) args.pagingCtx.2.toNat
  store32 mem (task + 32) 0

/-- `task_create`, after the allocations: the stack with its top at `kernelStackTop`, and the control block at `task` -/
def taskCreate (mem : Mem) (task kernelStackTop : ℕ) (args : TaskArgs) : Mem :=
  let st := layOutStack mem kernelStackTop args
  writeControlBlock st.1 task st.2 args

/-- `KERNEL_STACK_SIZE` -/
def kernelStackSize : ℕ := 10 * pageSize

/-- the stack top that `alloc_kernel_stack` returns for a stack that starts at `kernelStackBottom` -/
def stackTop (kernelStackBottom : ℕ) : ℕ := kernelStackBottom + kernelStackSize - 16

/-! ## What one switch does -/

section Switch

variable (L : Symbols) (s : Cpu)

/-- the memory after the four pushes -/
def pushed : Mem :=
  let esp := s.regs .esp
  store32 (store32 (store32 (store32 s.mem (esp - 4) (s.regs .ebp)) (esp - 8) (s.regs .ebx)) (esp - 12) (s.regs .esi))
    (esp - 16) (s.regs .edi)

theorem saveContext_eq (h16 : 16 ≤ s.regs .esp) (h8 : s.regs .esp + 8 ≤ 2 ^ 32) :
    (saveContext L s).regs .eax = load32 s.mem (s.regs .esp + 4) ∧
    (saveContext L s).cr3 = s.cr3 ∧
    (saveContext L s).mem = store32 (pushed s) (u32 (load32 (pushed s) L.currentTask + 4)) (s.regs .esp - 16) := by
  have e0 : u32 (s.regs .esp + 4) = s.regs .esp + 4 := u32_of_lt (by omega)
  have e1 : u32 (s.regs .esp + 2 ^ 32 - 4) = s.regs .esp - 4 := by unfold u32; omega
  have e2 : u32 (s.regs .esp - 4 + 2 ^ 32 - 4) = s.regs .esp - 8 := by unfold u32; omega
  have e3 : u32 (s.regs .esp - 8 + 2 ^ 32 - 4) = s.regs .esp - 12 := by unfold u32; omega
  have e4 : u32 (s.regs .esp - 12 + 2 ^ 32 - 4) = s.regs .esp - 16 := by unfold u32; omega
  simp only [saveContext, pushed, Cpu.cli, Cpu.load, Cpu.push, Cpu.pushWord, Cpu.mov, Cpu.loadSym, Cpu.store, Cpu.set,
    Function.update_apply, reduceCtorEq, if_true, if_false, e0, e1, e2, e3, e4, and_self]

/-- the memory after the next task is made the current one -/
def loaded : Mem :=
  let mem := store32 s.mem L.currentTask (s.regs .eax)
  store32 mem (u32 (L.tss + 4)) (load32 mem (u32 (s.regs .eax + 12)))

theorem loadTask_eq :
    (loadTask L s).regs .esp = load32 (store32 s.mem L.currentTask (s.regs .eax)) (u32 (s.regs .eax + 4)) ∧
    (loadTask L s).cr3 = load32 (store32 s.mem L.currentTask (s.regs .eax)) (u32 (s.regs .eax + 8)) ∧
    (loadTask L s).mem = loaded L s := by
  simp only [loadTask, loaded, Cpu.storeSym, Cpu.load, Cpu.lea, Cpu.store, Cpu.loadCr3, Cpu.cmp, Cpu.storeCr3, Cpu.set,
    Function.update_apply, reduceCtorEq, if_true, if_false]
  split_ifs with hz
  · simp only [decide_eq_true_eq] at hz
    exact ⟨rfl, hz, rfl⟩
  · exact ⟨rfl, rfl, rfl⟩

/-- the registers that a suspended task gets back, and where it goes on -/
structure Context where
  esp : ℕ
  ebp : ℕ
  ebx : ℕ
  esi : ℕ
  edi : ℕ
  eip : ℕ
deriving DecidableEq, Repr

/-- the context of the running task -/
def contextOf (s : Cpu) : Context := ⟨s.regs .esp, s.regs .ebp, s.regs .ebx, s.regs .esi, s.regs .edi, s.eip⟩

/-- the context that a stack with its top at `k` holds -/
def frameAt (mem : Mem) (k : ℕ) : Context :=
  ⟨k + 20, load32 mem (k + 12), load32 mem (k + 8), load32 mem (k + 4), load32 mem k, load32 mem (k + 16)⟩

theorem restoreContext_eq (h : s.regs .esp + 20 < 2 ^ 32) :
    contextOf (restoreContext s) = frameAt s.mem (s.regs .esp) := by
  have e1 : u32 (s.regs .esp + 4) = s.regs .esp + 4 := u32_of_lt (by omega)
  have e2 : u32 (s.regs .esp + 4 + 4) = s.regs .esp + 8 := u32_of_lt (by omega)
  have e3 : u32 (s.regs .esp + 8 + 4) = s.regs .esp + 12 := u32_of_lt (by omega)
  have e4 : u32 (s.regs .esp + 12 + 4) = s.regs .esp + 16 := u32_of_lt (by omega)
  have e5 : u32 (s.regs .esp + 16 + 4) = s.regs .esp + 20 := u32_of_lt (by omega)
  simp only [restoreContext, contextOf, frameAt, Cpu.pop, Cpu.sti, Cpu.ret, Cpu.set, Function.update_apply, reduceCtorEq,
    if_true, if_false, e1, e2, e3, e4, e5]

end Switch

/-! ## Tasks in memory -/

/-- `sizeof(task_control_block_t)`, `sizeof(struct task_list)` and `sizeof(task_state_segment_t)` -/
def tcbSize : ℕ := 36
def taskListSize : ℕ := 12
def tssSize : ℕ := 108

/-- where things are: the control blocks and their stacks, `CURRENT_TASK` and the TSS, pairwise disjoint -/
structure Layout extends Symbols where
  IsTask : ℕ → Prop
  stackBottom : ℕ → ℕ
  stackSize : ℕ → ℕ
  tcb_lt : ∀ t, IsTask t → t + tcbSize < 2 ^ 32
  stack_le : ∀ t, IsTask t → stackBottom t + stackSize t ≤ 2 ^ 32
  currentTask_lt : currentTask + taskListSize < 2 ^ 32
  tss_lt : tss + tssSize < 2 ^ 32
  tcb_tcb : ∀ t u, IsTask t → IsTask u → t ≠ u → Tiling.Apart (t, tcbSize) (u, tcbSize)
  stack_stack : ∀ t u, IsTask t → IsTask u → t ≠ u →
    Tiling.Apart (stackBottom t, stackSize t) (stackBottom u, stackSize u)
  stack_tcb : ∀ t u, IsTask t → IsTask u → Tiling.Apart (stackBottom t, stackSize t) (u, tcbSize)
  currentTask_tcb : ∀ t, IsTask t → Tiling.Apart (currentTask, taskListSize) (t, tcbSize)
  currentTask_stack : ∀ t, IsTask t → Tiling.Apart (currentTask, taskListSize) (stackBottom t, stackSize t)
  tss_tcb : ∀ t, IsTask t → Tiling.Apart (tss, tssSize) (t, tcbSize)
  tss_stack : ∀ t, IsTask t → Tiling.Apart (tss, tssSize) (stackBottom t, stackSize t)
  currentTask_tss : Tiling.Apart (currentTask, taskListSize) (tss, tssSize)

/-- `task->kernel_stack_top`, `task->virtual_addr_space`, `task->esp0` -/
def kernelStackTop (mem : Mem) (task : ℕ) : ℕ := load32 mem (task + 4)
def virtualAddrSpace (mem : Mem) (task : ℕ) : ℕ := load32 mem (task + 8)
def esp0 (mem : Mem) (task : ℕ) : ℕ := load32 mem (task + 12)

/-- the context of a suspended task is on its stack -/
structure Suspended (L : Layout) (mem : Mem) (task : ℕ) (ctx : Context) : Prop where
  low : L.stackBottom task ≤ kernelStackTop mem task
  high : kernelStackTop mem task + 20 ≤ L.stackBottom task + L.stackSize task
  fits : kernelStackTop mem task + 20 < 2 ^ 32
  frame : frameAt mem (kernelStackTop mem task) = ctx

/-- the call: the argument and the return address are pushed -/
def call (s : Cpu) (next retAddr : ℕ) : Cpu := (s.pushWord next).pushWord retAddr

/-- the context of the caller: after the return the argument is still on the stack -/
def callerContext (s : Cpu) (retAddr : ℕ) : Context :=
  ⟨s.regs .esp - 4, s.regs .ebp, s.regs .ebx, s.regs .esi, s.regs .edi, retAddr⟩

/-- what a call of `do_task_switch` does when the task `old` calls it in `s` -/
structure Switched (L : Layout) (s : Cpu) (old next retAddr : ℕ) (t : Cpu) : Prop where
  frame : ∀ x, ¬ (L.stackBottom old ≤ x ∧ x < L.stackBottom old + L.stackSize old) → ¬ (old + 4 ≤ x ∧ x < old + 8) →
    ¬ (L.currentTask ≤ x ∧ x < L.currentTask + 4) → ¬ (L.tss + 4 ≤ x ∧ x < L.tss + 8) → t.mem x = s.mem x
  top : kernelStackTop t.mem old = s.regs .esp - 24
  saved : frameAt t.mem (s.regs .esp - 24) = callerContext s retAddr
  current : load32 t.mem L.currentTask = next
  tssEsp0 : load32 t.mem (L.tss + 4) = esp0 t.mem next
  cr3 : t.cr3 = virtualAddrSpace t.mem next
  restored : kernelStackTop t.mem next + 20 < 2 ^ 32 → contextOf t = frameAt t.mem (kernelStackTop t.mem next)

theorem frameAt_congr {mem mem' : Mem} {k : ℕ} (h : ∀ x, k ≤ x → x < k + 20 → mem' x = mem x) :
    frameAt mem' k = frameAt mem k := by
  unfold frameAt
  rw [load32_congr fun x h1 h2 => h x (by omega) (by omega), load32_congr fun x h1 h2 => h x (by omega) (by omega),
    load32_congr fun x h1 h2 => h x (by omega) (by omega), load32_congr fun x h1 h2 => h x (by omega) (by omega),
    load32_congr fun x h1 h2 => h x (by omega) (by omega)]

/-- the argument, the return address and the four registers, as the call and the save push them -/
def callFrame (mem : Mem) (esp next retAddr ebp ebx esi edi : ℕ) : Mem :=
  store32 (store32 (store32 (store32 (store32 (store32 mem (esp - 4) next) (esp - 8) retAddr) (esp - 12) ebp) (esp - 16) ebx)
    (esp - 20) esi) (esp - 24) edi

theorem frameAt_callFrame {mem : Mem} {esp next retAddr ebp ebx esi edi : ℕ} (hE : 24 ≤ esp) (h1 : ebp < 2 ^ 32)
    (h2 : ebx < 2 ^ 32) (h3 : esi < 2 ^ 32) (h4 : edi < 2 ^ 32) (h5 : retAddr < 2 ^ 32) :
    frameAt (callFrame mem esp next retAddr ebp ebx esi edi) (esp - 24) = ⟨esp - 4, ebp, ebx, esi, edi, retAddr⟩ := by
  obtain ⟨k, rfl⟩ : ∃ k, esp = k + 24 := ⟨esp - 24, by omega⟩
  unfold frameAt callFrame
  simp only [Nat.add_sub_cancel, show k + 24 - 4 = k + 20 from rfl, show k + 24 - 8 = k + 16 from rfl,
    show k + 24 - 12 = k + 12 from rfl, show k + 24 - 16 = k + 8 from rfl, show k + 24 - 20 = k + 4 from rfl]
  simp (disch := omega) only [load32_store32_ne, load32_store32]

theorem callFrame_of_outside {mem : Mem} {esp next retAddr ebp ebx esi edi x : ℕ} (h : x < esp - 24 ∨ esp ≤ x)
    (hE : 24 ≤ esp) : callFrame mem esp next retAddr ebp ebx esi edi x = mem x := by
  unfold callFrame
  simp (disch := omega) only [store32_of_outside]

section Call

variable {L : Layout} {s : Cpu} {old next retAddr : ℕ}

/-- the state at entry: the argument and the return address are on the stack -/
theorem call_eq (next retAddr : ℕ) (hE : 24 ≤ s.regs .esp) (hesp : s.regs .esp < 2 ^ 32) :
    (∀ r, r ≠ .esp → (call s next retAddr).regs r = s.regs r) ∧
      (call s next retAddr).regs .esp = s.regs .esp - 8 ∧
      (call s next retAddr).mem = store32 (store32 s.mem (s.regs .esp - 4) next) (s.regs .esp - 8) retAddr := by
  have e1 : u32 (s.regs .esp + 2 ^ 32 - 4) = s.regs .esp - 4 := by unfold u32; omega
  have e2 : u32 (s.regs .esp - 4 + 2 ^ 32 - 4) = s.regs .esp - 8 := by unfold u32; omega
  refine ⟨fun r hr => ?_, ?_, ?_⟩
  · simp only [call, Cpu.pushWord, Cpu.set, Function.update_apply, hr, if_false]
  · simp only [call, Cpu.pushWord, Cpu.set, Function.update_apply, if_true, e1, e2]
  · simp only [call, Cpu.pushWord, Cpu.set, Function.update_apply, if_true, e1, e2]

/-- the stack when the registers are saved -/
theorem pushed_call (next retAddr : ℕ) (hE : 24 ≤ s.regs .esp) (hesp : s.regs .esp < 2 ^ 32) :
    pushed (call s next retAddr) =
      callFrame s.mem (s.regs .esp) next retAddr (s.regs .ebp) (s.regs .ebx) (s.regs .esi) (s.regs .edi) := by
  obtain ⟨hcr, hce, hcm⟩ := call_eq next retAddr hE hesp
  unfold pushed callFrame
  rw [hcm, hce, hcr .ebp (by decide), hcr .ebx (by decide), hcr .esi (by decide), hcr .edi (by decide)]
  simp only [Nat.sub_sub, Nat.reduceAdd]

theorem switched (hold : L.IsTask old) (hnext : L.IsTask next) (hcur : load32 s.mem L.currentTask = old)
    (hret : retAddr < 2 ^ 32) (hlow : L.stackBottom old + 24 ≤ s.regs .esp)
    (hhigh : s.regs .esp ≤ L.stackBottom old + L.stackSize old) (hesp : s.regs .esp < 2 ^ 32)
    (hregs : ∀ r, r ∈ [Reg.ebp, .ebx, .esi, .edi] → s.regs r < 2 ^ 32) :
    Switched L s old next retAddr (doTaskSwitch L.toSymbols (call s next retAddr)) := by
  have hb1 := L.tcb_lt old hold
  have hb2 := L.tcb_lt next hnext
  have hb5 := L.tss_lt
  simp only [tcbSize, tssSize] at hb1 hb2 hb5
  have hE : 24 ≤ s.regs .esp := by omega
  have r1 := hregs .ebp (by simp)
  have r2 := hregs .ebx (by simp)
  have r3 := hregs .esi (by simp)
  have r4 := hregs .edi (by simp)
  obtain ⟨hcr, hce, hcm⟩ := call_eq next retAddr hE hesp
  obtain ⟨hax, _, hsm⟩ := saveContext_eq L.toSymbols (call s next retAddr) (by rw [hce]; omega) (by rw [hce]; omega)
  obtain ⟨htop, hcr3, hlm⟩ := loadTask_eq L.toSymbols (saveContext L.toSymbols (call s next retAddr))
  have hP := pushed_call next retAddr hE hesp
  set P := pushed (call s next retAddr)
  have hPcur : load32 P L.currentTask = old := by
    have a := L.currentTask_stack old hold
    simp only [Tiling.Apart, taskListSize] at a
    rw [hP, ← hcur]
    exact load32_congr fun x h1 h2 => callFrame_of_outside (by omega) hE
  have hax' : (saveContext L.toSymbols (call s next retAddr)).regs .eax = next := by
    rw [hax, hcm, hce, show s.regs .esp - 8 + 4 = s.regs .esp - 4 by omega, load32_store32_ne _ _ (by omega),
      load32_store32 _ _ (by omega)]
  have hold4 : u32 (old + 4) = old + 4 := u32_of_lt (by omega)
  have hsub : s.regs .esp - 8 - 16 = s.regs .esp - 24 := by omega
  rw [hPcur, hold4, hce, hsub] at hsm
  rw [hax', u32_of_lt (by omega), hsm] at htop hcr3
  unfold loaded at hlm
  rw [hax', hsm, u32_of_lt (by omega), u32_of_lt (by omega)] at hlm
  set Q := store32 (store32 P (old + 4) (s.regs .esp - 24)) L.currentTask next with hQ
  have hM : (doTaskSwitch L.toSymbols (call s next retAddr)).mem = store32 Q (L.tss + 4) (load32 Q (next + 12)) := hlm
  -- a word of the next control block is read before the TSS is written
  have hnextw : ∀ i ≤ 12, load32 (store32 Q (L.tss + 4) (load32 Q (next + 12))) (next + i) = load32 Q (next + i) := by
    intro i hi
    have a := L.tss_tcb next hnext
    simp only [Tiling.Apart, tcbSize, tssSize] at a
    exact load32_store32_ne _ _ (by omega)
  refine ⟨?_, ?_, ?_, ?_, ?_, ?_, ?_⟩
  · intro x h1 h2 h3 h4
    rw [hM, hQ, store32_of_outside _ _ (by omega), store32_of_outside _ _ (by omega), store32_of_outside _ _ (by omega),
      hP]
    exact callFrame_of_outside (by omega) hE
  · have a1 := L.currentTask_tcb old hold
    have a2 := L.tss_tcb old hold
    simp only [Tiling.Apart, tcbSize, taskListSize, tssSize] at a1 a2
    unfold kernelStackTop
    rw [hM, hQ, load32_store32_ne _ _ (by omega), load32_store32_ne _ _ (by omega), load32_store32 _ _ (by omega)]
  · have a1 := L.stack_tcb old old hold hold
    have a2 := L.currentTask_stack old hold
    have a3 := L.tss_stack old hold
    simp only [Tiling.Apart, tcbSize, taskListSize, tssSize] at a1 a2 a3
    unfold callerContext
    rw [← frameAt_callFrame hE r1 r2 r3 r4 hret, ← hP]
    refine frameAt_congr fun x h1 h2 => ?_
    rw [hM, hQ, store32_of_outside _ _ (by omega), store32_of_outside _ _ (by omega), store32_of_outside _ _ (by omega)]
  · have a := L.currentTask_tss
    simp only [Tiling.Apart, taskListSize, tssSize] at a
    rw [hM, hQ, load32_store32_ne _ _ (by omega), load32_store32 _ _ (by omega)]
  · unfold esp0
    rw [hM, hnextw 12 le_rfl, load32_store32 _ _ (load32_lt _ _)]
  · unfold virtualAddrSpace
    rw [hM, hnextw 8 (by decide)]
    exact hcr3
  · intro hk
    have hkt : (loadTask L.toSymbols (saveContext L.toSymbols (call s next retAddr))).regs .esp =
        kernelStackTop (doTaskSwitch L.toSymbols (call s next retAddr)).mem next := by
      unfold kernelStackTop
      rw [hM, hnextw 4 (by decide)]
      exact htop
    rw [← hkt] at hk ⊢
    exact restoreContext_eq _ hk

end Call

/-! ## A new task -/

/-- the context that `task_create` lays out: the task function, with an empty stack frame -/
def initialContext (kernelStackTop : ℕ) (args : TaskArgs) : Context :=
  ⟨(if args.retAddr ≠ 0 then kernelStackTop - 12 else kernelStackTop - 8), 0, 0, 0, 0, args.taskFn.toNat⟩

theorem pushUint32_eq {mem : Mem} {top value : ℕ} (h4 : 4 ≤ top) (hlt : top < 2 ^ 32) :
    pushUint32 (mem, top) value = (store32 mem top value, top - 4) := by
  unfold pushUint32 u32
  simp only [Prod.mk.injEq, true_and]
  omega

/-- the last five words: the function and the four registers -/
theorem frame_laid {mem : Mem} {e fn : ℕ} (h : 16 ≤ e) (hfn : fn < 2 ^ 32) :
    frameAt (store32 (store32 (store32 (store32 (store32 mem e fn) (e - 4) 0) (e - 8) 0) (e - 12) 0) (e - 16) 0)
      (e - 16) = ⟨e + 4, 0, 0, 0, 0, fn⟩ := by
  obtain ⟨k, rfl⟩ : ∃ k, e = k + 16 := ⟨e - 16, by omega⟩
  unfold frameAt
  simp only [Nat.add_sub_cancel, show k + 16 - 4 = k + 12 from rfl, show k + 16 - 8 = k + 8 from rfl,
    show k + 16 - 12 = k + 4 from rfl]
  simp (disch := omega) only [load32_store32_ne, load32_store32]

/-- the words of the new stack, with an address for the task function to use and without -/
theorem layOutStack_ret {mem : Mem} {top : ℕ} {args : TaskArgs} (hret : args.retAddr ≠ 0) (hroom : 32 ≤ top)
    (hlt : top + 4 < 2 ^ 32) :
    layOutStack mem top args = (store32 (store32 (store32 (store32 (store32 (store32 (store32 (store32 (store32 mem
      top args.pid.toNat) (top - 4) args.schedHaltOrCrash.toNat) (top - 8) args.schedRemove.toNat)
      (top - 12) args.retAddr.toNat) (top - 16) args.taskFn.toNat) (top - 16 - 4) 0) (top - 16 - 8) 0) (top - 16 - 12) 0)
      (top - 16 - 16) 0, top - 16 - 16) := by
  unfold layOutStack
  simp only [if_pos hret]
  simp (disch := omega) only [pushUint32_eq, Nat.sub_sub, Nat.reduceAdd]

theorem layOutStack_null {mem : Mem} {top : ℕ} {args : TaskArgs} (hret : ¬ args.retAddr ≠ 0) (hroom : 32 ≤ top)
    (hlt : top + 4 < 2 ^ 32) :
    layOutStack mem top args = (store32 (store32 (store32 (store32 (store32 (store32 (store32 (store32 mem
      top args.pid.toNat) (top - 4) args.schedHaltOrCrash.toNat) (top - 8) args.schedRemove.toNat)
      (top - 12) args.taskFn.toNat) (top - 12 - 4) 0) (top - 12 - 8) 0) (top - 12 - 12) 0)
      (top - 12 - 16) 0, top - 12 - 16) := by
  unfold layOutStack
  simp only [if_neg hret]
  simp (disch := omega) only [pushUint32_eq, Nat.sub_sub, Nat.reduceAdd]

/-- **The stack of a new task** holds its initial context, and is written inside its bounds only. -/
theorem layOutStack_spec {mem : Mem} {bottom top : ℕ} {args : TaskArgs} (hroom : bottom + 32 ≤ top)
    (hlt : top + 4 < 2 ^ 32) :
    bottom ≤ (layOutStack mem top args).2 ∧ (layOutStack mem top args).2 + 28 ≤ top ∧
      frameAt (layOutStack mem top args).1 (layOutStack mem top args).2 = initialContext top args ∧
      ∀ x, ¬ (bottom ≤ x ∧ x < top + 4) → (layOutStack mem top args).1 x = mem x := by
  have hfn := args.taskFn.isLt
  by_cases hret : args.retAddr ≠ 0
  · rw [layOutStack_ret hret (by omega) hlt]
    refine ⟨by simp only; omega, by simp only; omega, ?_, fun x hx => ?_⟩
    · rw [frame_laid (by omega) hfn, initialContext, if_pos hret]
      congr 1
      omega
    · simp (disch := omega) only [store32_of_outside]
  · rw [layOutStack_null hret (by omega) hlt]
    refine ⟨by simp only; omega, by simp only; omega, ?_, fun x hx => ?_⟩
    · rw [frame_laid (by omega) hfn, initialContext, if_neg hret]
      congr 1
      omega
    · simp (disch := omega) only [store32_of_outside]

theorem writeControlBlock_of_outside {mem : Mem} {task top x : ℕ} {args : TaskArgs} (h : x < task ∨ task + tcbSize ≤ x) :
    writeControlBlock mem task top args x = mem x := by
  unfold tcbSize at h
  unfold writeControlBlock
  simp (disch := omega) only [store32_of_outside]

theorem stackTop_eq (bottom : ℕ) : stackTop bottom = bottom + 40944 := by
  unfold stackTop kernelStackSize pageSize
  omega

/-- `task_create` writes the new stack and the new control block, and nothing else -/
theorem taskCreate_of_outside {mem : Mem} {task bottom x : ℕ} {args : TaskArgs} (hle : bottom + kernelStackSize ≤ 2 ^ 32)
    (hx : x < bottom ∨ bottom + kernelStackSize ≤ x) (hx' : x < task ∨ task + tcbSize ≤ x) :
    taskCreate mem task (stackTop bottom) args x = mem x := by
  have hsize : kernelStackSize = 40960 := rfl
  have htop := stackTop_eq bottom
  obtain ⟨_, _, _, hframe⟩ := @layOutStack_spec mem bottom (stackTop bottom) args (by omega) (by omega)
  unfold taskCreate
  rw [writeControlBlock_of_outside hx']
  exact hframe x (by omega)

theorem writeControlBlock_top {mem : Mem} {task top : ℕ} {args : TaskArgs} (h : top < 2 ^ 32) :
    kernelStackTop (writeControlBlock mem task top args) task = top := by
  unfold kernelStackTop writeControlBlock
  simp (disch := omega) only [load32_store32_ne, load32_store32]

/-! ## Runs -/

/-- the processor, and the history of the run: the task that runs, the tasks created so far, and for each the context it had
when it last called `do_task_switch`, or that `task_create` laid out -/
structure St where
  cpu : Cpu
  running : ℕ
  tasks : List ℕ
  saved : ℕ → Context

inductive Op where
  /-- the running task computes: any registers, any bytes on its stack -/
  | work (regs : Reg → BitVec 32) (mem : Mem)
  | create (task : ℕ) (args : TaskArgs)
  | switch (next : ℕ) (retAddr : BitVec 32)

def step (L : Layout) (s : St) : Op → Except Fault St
  | .work regs mem => .ok { s with cpu := { s.cpu with regs := fun r => (regs r).toNat, mem := mem } }
  | .create task args =>
    let top := stackTop (L.stackBottom task)
    .ok { s with
      cpu := { s.cpu with mem := taskCreate s.cpu.mem task top args }
      tasks := task :: s.tasks
      saved := Function.update s.saved task (initialContext top args) }
  | .switch next retAddr =>
    .ok ⟨doTaskSwitch L.toSymbols (call s.cpu next retAddr.toNat), next, s.tasks,
      Function.update s.saved s.running (callerContext s.cpu retAddr.toNat)⟩

/-- a task writes its own stack only, and has room on it for the call; a new task has a control block and a kernel stack of
its own -/
def Own (L : Layout) (s : St) : Op → Prop
  | .work _ mem => ∀ x, ¬ (L.stackBottom s.running ≤ x ∧ x < L.stackBottom s.running + L.stackSize s.running) →
      mem x = s.cpu.mem x
  | .create task _ => L.IsTask task ∧ task ∉ s.tasks ∧ L.stackSize task = kernelStackSize
  | .switch next _ => next ∈ s.tasks ∧ L.stackBottom s.running + 24 ≤ s.cpu.regs .esp ∧
      s.cpu.regs .esp ≤ L.stackBottom s.running + L.stackSize s.running

/-- before the first switch: one task, the current one -/
structure Boot (L : Layout) (s : St) : Prop where
  isTask : L.IsTask s.running
  tasks : s.tasks = [s.running]
  current : load32 s.cpu.mem L.currentTask = s.running
  regs : ∀ r, s.cpu.regs r < 2 ^ 32

/-- `CURRENT_TASK` is the running task, and every other task has its context on its stack -/
structure Inv (L : Layout) (s : St) : Prop where
  running_mem : s.running ∈ s.tasks
  isTask : ∀ t ∈ s.tasks, L.IsTask t
  current : load32 s.cpu.mem L.currentTask = s.running
  suspended : ∀ t ∈ s.tasks, t ≠ s.running → Suspended L s.cpu.mem t (s.saved t)
  regs : ∀ r, r ∈ [Reg.ebp, .ebx, .esi, .edi] → s.cpu.regs r < 2 ^ 32
  esp : s.cpu.regs .esp < 2 ^ 32

section Runs

variable {L : Layout} {s t : St} {u next : ℕ} {retAddr : BitVec 32} {ops : List Op}

theorem Suspended.congr {mem mem' : Mem} {ctx : Context} (h : Suspended L mem u ctx)
    (ht : ∀ x, u ≤ x → x < u + tcbSize → mem' x = mem x)
    (hs : ∀ x, L.stackBottom u ≤ x → x < L.stackBottom u + L.stackSize u → mem' x = mem x) :
    Suspended L mem' u ctx := by
  have hk : kernelStackTop mem' u = kernelStackTop mem u :=
    load32_congr fun x h1 h2 => ht x (by omega) (by unfold tcbSize; omega)
  refine ⟨by rw [hk]; exact h.low, by rw [hk]; exact h.high, by rw [hk]; exact h.fits, ?_⟩
  rw [hk, ← h.frame]
  exact frameAt_congr fun x h1 h2 => hs x (by have := h.low; omega) (by have := h.high; omega)

/-- after the switch every task has its context on its stack, the caller too -/
theorem suspended_switch (hi : Inv L s) (hC : Own L s (.switch next retAddr)) (hu : u ∈ s.tasks)
    {c : Cpu} (hsw : Switched L s.cpu s.running next retAddr.toNat c) :
    Suspended L c.mem u (Function.update s.saved s.running (callerContext s.cpu retAddr.toNat) u) := by
  obtain ⟨_, hlow, hhigh⟩ := hC
  have hut := hi.isTask u hu
  have hrt := hi.isTask _ hi.running_mem
  by_cases hur : u = s.running
  · subst hur
    rw [Function.update_self]
    have hesp := hi.esp
    refine ⟨?_, ?_, ?_, ?_⟩
    · rw [hsw.top]
      omega
    · rw [hsw.top]
      omega
    · rw [hsw.top]
      omega
    · rw [hsw.top]
      exact hsw.saved
  · rw [Function.update_of_ne hur]
    have a1 := L.stack_tcb _ _ hrt hut
    have a2 := L.stack_stack _ _ hut hrt hur
    have a3 := L.tcb_tcb _ _ hut hrt hur
    have a4 := L.stack_tcb _ _ hut hrt
    have a5 := L.currentTask_tcb u hut
    have a6 := L.currentTask_stack u hut
    have a7 := L.tss_tcb u hut
    have a8 := L.tss_stack u hut
    simp only [Tiling.Apart, tcbSize, taskListSize, tssSize] at a1 a2 a3 a4 a5 a6 a7 a8
    refine (hi.suspended u hu hur).congr (fun x h1 h2 => ?_) fun x h1 h2 => ?_
    · unfold tcbSize at h2
      exact hsw.frame x (by omega) (by omega) (by omega) (by omega)
    · exact hsw.frame x (by omega) (by omega) (by omega) (by omega)

theorem switched_of_own (hi : Inv L s) (hC : Own L s (.switch next retAddr)) :
    Switched L s.cpu s.running next retAddr.toNat (doTaskSwitch L.toSymbols (call s.cpu next retAddr.toNat)) :=
  switched (hi.isTask _ hi.running_mem) (hi.isTask _ hC.1) hi.current retAddr.isLt hC.2.1 hC.2.2 hi.esp hi.regs

/-- the registers of the next task are those saved for it -/
theorem context_switch (hi : Inv L s) (hC : Own L s (.switch next retAddr)) {c : Cpu}
    (hsw : Switched L s.cpu s.running next retAddr.toNat c) :
    contextOf c = Function.update s.saved s.running (callerContext s.cpu retAddr.toNat) next := by
  have hsus := suspended_switch hi hC hC.1 hsw
  rw [hsw.restored hsus.fits, hsus.frame]

theorem contextOf_regs {c : Cpu} {mem : Mem} {k : ℕ} (h : contextOf c = frameAt mem k) :
    ∀ r, r ∈ [Reg.ebp, .ebx, .esi, .edi] → c.regs r < 2 ^ 32 := by
  simp only [contextOf, frameAt, Context.mk.injEq] at h
  obtain ⟨_, h1, h2, h3, h4, _⟩ := h
  intro r hr
  simp only [List.mem_cons, List.not_mem_nil, or_false] at hr
  rcases hr with rfl | rfl | rfl | rfl
  · rw [h1]; exact load32_lt _ _
  · rw [h2]; exact load32_lt _ _
  · rw [h3]; exact load32_lt _ _
  · rw [h4]; exact load32_lt _ _

theorem inv_work {regs : Reg → BitVec 32} {mem : Mem} (hi : Inv L s) (hC : Own L s (.work regs mem)) :
    Inv L { s with cpu := { s.cpu with regs := fun r => (regs r).toNat, mem := mem } } := by
  have hrt := hi.isTask _ hi.running_mem
  refine ⟨hi.running_mem, hi.isTask, ?_, fun u hu hne => ?_, fun r _ => (regs r).isLt, (regs .esp).isLt⟩
  · have a := L.currentTask_stack _ hrt
    simp only [Tiling.Apart, taskListSize] at a
    rw [← hi.current]
    exact load32_congr fun x h1 h2 => hC x (by omega)
  · have hut := hi.isTask u hu
    have a1 := L.stack_tcb _ _ hrt hut
    have a2 := L.stack_stack _ _ hut hrt hne
    simp only [Tiling.Apart] at a1 a2
    exact (hi.suspended u hu hne).congr (fun x h1 h2 => hC x (by omega)) fun x h1 h2 => hC x (by omega)

/-- the invariant after a switch depends only on what the switch is specified to do -/
theorem inv_switched {c : Cpu} (hi : Inv L s) (hC : Own L s (.switch next retAddr))
    (hsw : Switched L s.cpu s.running next retAddr.toNat c) :
    Inv L ⟨c, next, s.tasks, Function.update s.saved s.running (callerContext s.cpu retAddr.toNat)⟩ := by
  have hsus := suspended_switch hi hC hC.1 hsw
  have hctx := hsw.restored hsus.fits
  refine ⟨hC.1, hi.isTask, hsw.current, fun u hu _ => suspended_switch hi hC hu hsw, contextOf_regs hctx, ?_⟩
  have hesp : c.regs .esp = _ := congrArg Context.esp hctx
  rw [hesp]
  exact hsus.fits

theorem inv_switch (hi : Inv L s) (hC : Own L s (.switch next retAddr)) :
    Inv L ⟨doTaskSwitch L.toSymbols (call s.cpu next retAddr.toNat), next, s.tasks,
      Function.update s.saved s.running (callerContext s.cpu retAddr.toNat)⟩ :=
  inv_switched hi hC (switched_of_own hi hC)

theorem inv_create {task : ℕ} {args : TaskArgs} (hi : Inv L s) (hC : Own L s (.create task args)) :
    Inv L { s with
      cpu := { s.cpu with mem := taskCreate s.cpu.mem task (stackTop (L.stackBottom task)) args }
      tasks := task :: s.tasks
      saved := Function.update s.saved task (initialContext (stackTop (L.stackBottom task)) args) } := by
  obtain ⟨htask, hnew, hsize⟩ := hC
  have hle := L.stack_le task htask
  have hsz : L.stackSize task = 40960 := hsize
  have htop := stackTop_eq (L.stackBottom task)
  obtain ⟨h1, h2, h3, _⟩ :=
    @layOutStack_spec s.cpu.mem (L.stackBottom task) (stackTop (L.stackBottom task)) args (by omega) (by omega)
  have hframe : ∀ x, (x < L.stackBottom task ∨ L.stackBottom task + L.stackSize task ≤ x) →
      (x < task ∨ task + tcbSize ≤ x) → taskCreate s.cpu.mem task (stackTop (L.stackBottom task)) args x = s.cpu.mem x :=
    fun x hx hx' => taskCreate_of_outside (hsize ▸ hle) (hsize ▸ hx) hx'
  refine ⟨List.mem_cons_of_mem _ hi.running_mem, ?_, ?_, ?_, hi.regs, hi.esp⟩
  · intro u hu
    rcases List.mem_cons.1 hu with rfl | hu
    · exact htask
    · exact hi.isTask u hu
  · have a1 := L.currentTask_stack task htask
    have a2 := L.currentTask_tcb task htask
    simp only [Tiling.Apart, taskListSize] at a1 a2
    rw [← hi.current]
    exact load32_congr fun x hx1 hx2 => hframe x (by omega) (by omega)
  · intro u hu hne
    by_cases hut : u = task
    · subst hut
      have hk : kernelStackTop (taskCreate s.cpu.mem u (stackTop (L.stackBottom u)) args) u =
          (layOutStack s.cpu.mem (stackTop (L.stackBottom u)) args).2 := writeControlBlock_top (by omega)
      have a := L.stack_tcb u u htask htask
      simp only [Tiling.Apart] at a
      simp only [Function.update_self]
      refine ⟨by rw [hk]; exact h1, by rw [hk]; omega, by rw [hk]; omega, ?_⟩
      rw [hk, ← h3]
      refine frameAt_congr fun x hx1 hx2 => writeControlBlock_of_outside ?_
      omega
    · have hu' : u ∈ s.tasks := (List.mem_cons.1 hu).resolve_left hut
      have hit := hi.isTask u hu'
      have a1 := L.stack_tcb _ _ htask hit
      have a2 := L.stack_stack _ _ hit htask hut
      have a3 := L.tcb_tcb _ _ hit htask hut
      have a4 := L.stack_tcb _ _ hit htask
      simp only [Tiling.Apart] at a1 a2 a3 a4
      simp only [Function.update_of_ne hut]
      refine (hi.suspended u hu' hne).congr (fun x hx1 hx2 => ?_) fun x hx1 hx2 => ?_
      · exact hframe x (by omega) (by omega)
      · exact hframe x (by omega) (by omega)

theorem step_inv {o : Op} (hi : Inv L s) (hC : Own L s o) (hok : step L s o = .ok t) : Inv L t := by
  cases o with
  | work regs mem =>
    cases hok
    exact inv_work hi hC
  | create task args =>
    cases hok
    exact inv_create hi hC
  | switch next retAddr =>
    cases hok
    exact inv_switch hi hC

theorem inv_boot (h : Boot L s) : Inv L s where
  running_mem := by rw [h.tasks]; simp
  isTask := fun t ht => by
    rw [h.tasks, List.mem_singleton] at ht
    rw [ht]
    exact h.isTask
  current := h.current
  suspended := fun t ht hne => by
    rw [h.tasks, List.mem_singleton] at ht
    exact absurd ht hne
  regs := fun r _ => h.regs r
  esp := h.regs .esp

/-- **A switch resumes the next task where it left off.** In every run of tasks that write their own stacks only, when
`do_task_switch` returns in the next task: ESP, EBP, EBX, ESI, EDI and the return address are those the task had when it last
called `do_task_switch`, this call included, or those `task_create` laid out; `CURRENT_TASK` is the task, CR3 its address
space and ESP0 of the TSS its `esp0`; and no control block has another address space or `esp0` than before. -/
theorem switch_resumes {s₀ : St} (h₀ : Boot L s₀) (hr : Runs (step L) (Own L) s₀ ops s)
    (hC : Own L s (.switch next retAddr)) (hok : step L s (.switch next retAddr) = .ok t) :
    contextOf t.cpu = Function.update s.saved s.running (callerContext s.cpu retAddr.toNat) next ∧
      t.saved = Function.update s.saved s.running (callerContext s.cpu retAddr.toNat) ∧
      load32 t.cpu.mem L.currentTask = next ∧
      t.cpu.cr3 = virtualAddrSpace t.cpu.mem next ∧ load32 t.cpu.mem (L.tss + 4) = esp0 t.cpu.mem next ∧
      ∀ u ∈ s.tasks, virtualAddrSpace t.cpu.mem u = virtualAddrSpace s.cpu.mem u ∧
        esp0 t.cpu.mem u = esp0 s.cpu.mem u := by
  have hi : Inv L s := hr.inv (fun _ _ _ => step_inv) (inv_boot h₀)
  have hsw := switched_of_own hi hC
  cases hok
  refine ⟨context_switch hi hC hsw, rfl, hsw.current, hsw.cr3, hsw.tssEsp0, fun u hu => ?_⟩
  have hkeep : ∀ x, u + 8 ≤ x → x < u + 16 →
      (doTaskSwitch L.toSymbols (call s.cpu next retAddr.toNat)).mem x = s.cpu.mem x := by
    have hut := hi.isTask u hu
    have hrt := hi.isTask _ hi.running_mem
    have a1 := L.stack_tcb _ _ hrt hut
    have a2 := L.currentTask_tcb u hut
    have a3 := L.tss_tcb u hut
    have a4 : u = s.running ∨ Tiling.Apart (u, tcbSize) (s.running, tcbSize) :=
      or_iff_not_imp_left.2 fun hne => L.tcb_tcb _ _ hut hrt hne
    simp only [Tiling.Apart, tcbSize, taskListSize, tssSize] at a1 a2 a3 a4
    intro x h1 h2
    exact hsw.frame x (by omega) (by omega) (by omega) (by omega)
  exact ⟨load32_congr fun x h1 h2 => hkeep x (by omega) (by omega), load32_congr fun x h1 h2 => hkeep x (by omega) (by omega)⟩

end Runs

/-! ## Two tasks -/

/-- control blocks at 0x3000 and 0x4000, with stacks at 1 MB and 2 MB -/
def twoTasks : Layout where
  currentTask := 0x1000
  tss := 0x2000
  IsTask t := t = 0x3000 ∨ t = 0x4000
  stackBottom t := if t = 0x3000 then 0x100000 else 0x200000
  stackSize _ := kernelStackSize
  tcb_lt := by rintro t (rfl | rfl) <;> decide
  stack_le := by rintro t (rfl | rfl) <;> decide
  currentTask_lt := by decide
  tss_lt := by decide
  tcb_tcb := by rintro t u (rfl | rfl) (rfl | rfl) hne <;> first | exact absurd rfl hne | (unfold Tiling.Apart; decide)
  stack_stack := by rintro t u (rfl | rfl) (rfl | rfl) hne <;> first | exact absurd rfl hne | (unfold Tiling.Apart; decide)
  stack_tcb := by rintro t u (rfl | rfl) (rfl | rfl) <;> (unfold Tiling.Apart; decide)
  currentTask_tcb := by rintro t (rfl | rfl) <;> (unfold Tiling.Apart; decide)
  currentTask_stack := by rintro t (rfl | rfl) <;> (unfold Tiling.Apart; decide)
  tss_tcb := by rintro t (rfl | rfl) <;> (unfold Tiling.Apart; decide)
  tss_stack := by rintro t (rfl | rfl) <;> (unfold Tiling.Apart; decide)
  currentTask_tss := by unfold Tiling.Apart; decide

/-- the first task runs on its stack, with 7 in all other registers -/
def booted : St where
  cpu := ⟨fun r => if r = .esp then 0x109000 else 7, 0, 0, false, false, store32 (fun _ => 0) 0x1000 0x3000⟩
  running := 0x3000
  tasks := [0x3000]
  saved _ := ⟨0, 0, 0, 0, 0, 0⟩

theorem booted_boot : Boot twoTasks booted := by
  refine ⟨Or.inl rfl, rfl, load32_store32 _ _ (by decide), fun r => ?_⟩
  cases r <;> decide

/-- a task with pid 1 and address space 0x5000 -/
def newTask : TaskArgs := ⟨1, 0x600, 0, 0x5000, 0x700, 0x800, (0, 0), (0, 0)⟩

/-- the first task creates the second and switches to it: the second starts -/
def afterFirst : St := returned booted (Runs.exec (step twoTasks) booted [.create 0x4000 newTask, .switch 0x4000 0x400])

theorem switch_resumes_first :
    ∃ t, Runs (step twoTasks) (Own twoTasks) booted [.create 0x4000 newTask, .switch 0x4000 0x400] afterFirst ∧
      step twoTasks afterFirst (.switch 0x3000 0x500) = .ok t ∧
      contextOf t.cpu = ⟨0x108FFC, 7, 7, 7, 7, 0x400⟩ ∧ load32 t.cpu.mem twoTasks.currentTask = 0x3000 := by
  have hr : Runs (step twoTasks) (Own twoTasks) booted [.create 0x4000 newTask, .switch 0x4000 0x400] afterFirst :=
    .cons ⟨Or.inr rfl, by decide, rfl⟩ rfl (.cons ⟨by decide, by decide, by decide⟩ rfl (.nil _))
  have hC : Own twoTasks afterFirst (.switch 0x3000 0x500) := ⟨by decide, by decide +kernel, by decide +kernel⟩
  obtain ⟨hctx, _, hcur, _⟩ := switch_resumes booted_boot hr hC rfl
  exact ⟨_, hr, rfl, hctx, hcur⟩

end Gubos.TaskSwitch
