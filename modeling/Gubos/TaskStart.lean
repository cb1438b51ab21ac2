/-
How a task starts and ends (`task.c`, `task_switch.S`, `init_user_mode.S`).

`task_create` fills the new stack from the top: what `sched_remove` needs when the task function returns (the pid, the return
address of its frame, and its own address), an optional word for the task function, and what the first switch pops. Three
readers have to agree with it: the pops and the `ret` of `do_task_switch`, the trampoline `init_goto_user_mode`, which takes
the word at the top of the stack as the user entry point, and the cdecl entry of `sched_remove`.

- `words_laid`: which word is where after `task_create`;
- `notStarted_step`: until it is switched to for the first time, the stack of a new task stays as it was laid out, whatever
  the other tasks do;
- `new_task_starts`: in every run, the first switch to a new task enters its function, with the words above in place.

A task function follows cdecl: when it returns, ESP is what it was at its entry, and its caller's words are untouched
(`AtReturn`). The segment registers that the trampoline loads are not modelled.
-/
import Gubos.TaskSwitch
import Gubos.Mm.Backing

namespace Gubos.TaskSwitch

open Gubos.Core

/-! ## Entering user mode -/

/-- `GDT_USER_CODE_SEGMENT | GDT_USER_RPL`, `GDT_USER_DATA_SEGMENT | GDT_USER_RPL` -/
def userCodeSelector : ℕ := 0x1B
def userDataSelector : ℕ := 0x23

/-- `USER_STACK_TOP`, `FLAGS_INT_ENABLE_FLAG` -/
def userStackTop : ℕ := 0xA0000000
def flagsIntEnableFlag : BitVec 32 := 0x200#32

/-- `orl $mask, (%esp)` -/
def orTop (s : Cpu) (mask : BitVec 32) : Cpu :=
  let esp := s.regs .esp
  { s with mem := store32 s.mem esp (BitVec.ofNat 32 (load32 s.mem esp) ||| mask).toNat }

/-- `init_goto_user_mode` up to its `iret`, when `pushf` pushes `eflags` -/
def initGotoUserMode (eflags : BitVec 32) (s : Cpu) : Cpu :=
  let s := s.cli
  -- the data selector goes to AX, and from there to DS, ES, FS and GS
  let s := s.set .eax (s.regs .eax / 65536 * 65536 + userDataSelector)
  let s := s.load 0 .esp .esi
  let s := s.pushWord userDataSelector
  let s := s.pushWord userStackTop
  let s := s.pushWord eflags.toNat
  let s := orTop s flagsIntEnableFlag
  let s := s.pushWord userCodeSelector
  s.push .esi

/-- what `iret` loads when it returns to user mode -/
structure UserContext where
  eip : ℕ
  cs : ℕ
  eflags : ℕ
  esp : ℕ
  ss : ℕ
deriving DecidableEq, Repr

/-- `iret`: the words on the stack -/
def iret (s : Cpu) : UserContext :=
  ⟨load32 s.mem (s.regs .esp), load32 s.mem (s.regs .esp + 4), load32 s.mem (s.regs .esp + 8),
    load32 s.mem (s.regs .esp + 12), load32 s.mem (s.regs .esp + 16)⟩

/-- **The trampoline goes where the top of the stack says**, with interrupts enabled, on the user stack. -/
theorem iret_initGotoUserMode (eflags : BitVec 32) (s : Cpu) (h20 : 20 ≤ s.regs .esp) (hlt : s.regs .esp < 2 ^ 32) :
    iret (initGotoUserMode eflags s) =
      ⟨load32 s.mem (s.regs .esp), userCodeSelector, (eflags ||| flagsIntEnableFlag).toNat, userStackTop,
        userDataSelector⟩ := by
  have hfl := eflags.isLt
  have hor := (eflags ||| flagsIntEnableFlag).isLt
  have hw := load32_lt s.mem (s.regs .esp)
  obtain ⟨k, hk⟩ : ∃ k, s.regs .esp = k + 20 := ⟨s.regs .esp - 20, by omega⟩
  have e0 : u32 (k + 20 + 0) = k + 20 := u32_of_lt (by omega)
  have e1 : u32 (k + 20 + 2 ^ 32 - 4) = k + 16 := by unfold u32; omega
  have e2 : u32 (k + 16 + 2 ^ 32 - 4) = k + 12 := by unfold u32; omega
  have e3 : u32 (k + 12 + 2 ^ 32 - 4) = k + 8 := by unfold u32; omega
  have e4 : u32 (k + 8 + 2 ^ 32 - 4) = k + 4 := by unfold u32; omega
  have e5 : u32 (k + 4 + 2 ^ 32 - 4) = k := by unfold u32; omega
  rw [hk] at hw ⊢
  simp only [iret, initGotoUserMode, orTop, Cpu.cli, Cpu.load, Cpu.push, Cpu.pushWord, Cpu.set, Function.update_apply,
    reduceCtorEq, if_true, if_false, hk, e0, e1, e2, e3, e4, e5, userCodeSelector, userDataSelector, userStackTop]
  simp (disch := omega) only [load32_store32_ne, load32_store32]
  simp only [BitVec.ofNat_toNat, BitVec.setWidth_eq]

/-! ## The words of a new stack -/

/-- what the task function finds on its stack, and what stands below it -/
structure WordsLaid (mem : Mem) (top : ℕ) (args : TaskArgs) : Prop where
  pid : load32 mem top = args.pid.toNat
  halt : load32 mem (top - 4) = args.schedHaltOrCrash.toNat
  remove : load32 mem (top - 8) = args.schedRemove.toNat
  entry : args.retAddr ≠ 0 → load32 mem (top - 12) = args.retAddr.toNat

theorem words_laid {mem : Mem} {top : ℕ} {args : TaskArgs} (hroom : 32 ≤ top) (hlt : top + 4 < 2 ^ 32) :
    WordsLaid (layOutStack mem top args).1 top args := by
  have h1 := args.pid.isLt
  have h2 := args.schedHaltOrCrash.isLt
  have h3 := args.schedRemove.isLt
  have h4 := args.retAddr.isLt
  by_cases hret : args.retAddr ≠ 0
  · rw [layOutStack_ret hret hroom hlt]
    refine ⟨?_, ?_, ?_, fun _ => ?_⟩ <;> simp (disch := omega) only [load32_store32_ne, load32_store32]
  · rw [layOutStack_null hret hroom hlt]
    refine ⟨?_, ?_, ?_, fun h => absurd h hret⟩ <;> simp (disch := omega) only [load32_store32_ne, load32_store32]

theorem WordsLaid.congr {mem mem' : Mem} {top : ℕ} {args : TaskArgs} (h : WordsLaid mem top args) (h12 : 12 ≤ top)
    (he : ∀ x, top - 12 ≤ x → x < top + 4 → mem' x = mem x) : WordsLaid mem' top args := by
  refine ⟨?_, ?_, ?_, fun hret => ?_⟩
  · rw [← h.pid]
    exact load32_congr fun x h1 h2 => he x (by omega) (by omega)
  · rw [← h.halt]
    exact load32_congr fun x h1 h2 => he x (by omega) (by omega)
  · rw [← h.remove]
    exact load32_congr fun x h1 h2 => he x (by omega) (by omega)
  · rw [← h.entry hret]
    exact load32_congr fun x h1 h2 => he x (by omega) (by omega)

/-- `alloc_kernel_stack` returns the top of the stack that it maps -/
theorem allocKernelStack_top {A : Allocator} {mi : KernelMeminfo} {s : Vmm.Space} {pagingCtx : Paging.PagingContext}
    {bm : Pmm.Bitmap} {mem : Paging.Tables} {k : Backing.KernelStack}
    (h : Backing.allocKernelStack A mi s pagingCtx bm mem = .ok k) (hk : k.bottom + kernelStackSize ≤ 2 ^ 32) :
    k.top = stackTop k.bottom := by
  obtain ⟨⟨pa, bm₁⟩, _, h⟩ := bind_ok.1 h
  obtain ⟨⟨heap, ctx, bottom⟩, _, h⟩ := bind_ok.1 h
  obtain ⟨⟨bm₂, mem₂, frames⟩, _, h⟩ := bind_ok.1 h
  cases h
  apply u32_of_lt
  simp only [kernelStackSize, Backing.kernelStackSize, Backing.kernelStackPageCount, pageSize] at hk ⊢
  omega

/-! ## Until the first switch -/

section Runs

variable {L : Layout} {s s₀ s₁ s₂ t : St} {task : ℕ} {args : TaskArgs} {retAddr : BitVec 32} {ops ops' : List Op} {o : Op}

/-- `task` was created and has not run: its stack is as `task_create` laid it out -/
structure NotStarted (L : Layout) (task : ℕ) (args : TaskArgs) (s : St) : Prop where
  inv : Inv L s
  created : task ∈ s.tasks
  suspended : s.running ≠ task
  words : WordsLaid s.cpu.mem (stackTop (L.stackBottom task)) args
  saved : s.saved task = initialContext (stackTop (L.stackBottom task)) args
  size : L.stackSize task = kernelStackSize

/-- operations that do not switch to `task` -/
def NotTo (L : Layout) (task : ℕ) (s : St) (o : Op) : Prop := Own L s o ∧ ∀ retAddr, o ≠ .switch task retAddr

/-- the words of a stack are inside it -/
theorem stack_words (h : L.stackSize task = kernelStackSize) {x : ℕ} (h1 : stackTop (L.stackBottom task) - 12 ≤ x)
    (h2 : x < stackTop (L.stackBottom task) + 4) :
    L.stackBottom task ≤ x ∧ x < L.stackBottom task + L.stackSize task := by
  have hsize : kernelStackSize = 40960 := rfl
  have htop := stackTop_eq (L.stackBottom task)
  omega

theorem notStarted_create (hi : Inv L s) (hC : Own L s (.create task args)) (hok : step L s (.create task args) = .ok t) :
    NotStarted L task args t := by
  have hi' := step_inv hi hC hok
  obtain ⟨htask, hnew, hsize⟩ := hC
  have hle := L.stack_le task htask
  rw [hsize] at hle
  have hsz : kernelStackSize = 40960 := rfl
  have htop := stackTop_eq (L.stackBottom task)
  have hwords : WordsLaid (taskCreate s.cpu.mem task (stackTop (L.stackBottom task)) args)
      (stackTop (L.stackBottom task)) args := by
    refine (@words_laid s.cpu.mem _ _ (by omega) (by omega)).congr (by omega) fun x h1 h2 => ?_
    have a := L.stack_tcb task task htask htask
    have hx := stack_words hsize h1 h2
    simp only [Tiling.Apart] at a
    exact writeControlBlock_of_outside (by omega)
  cases hok
  exact ⟨hi', by simp, fun he => hnew (he ▸ hi.running_mem), hwords, Function.update_self _ _ _, hsize⟩

/-- a switch changes no byte of the stack of a task that is not running -/
theorem switch_stack (hi : Inv L s) {next u x : ℕ} (hC : Own L s (.switch next retAddr)) (hu : u ∈ s.tasks)
    (hne : s.running ≠ u) (h1 : L.stackBottom u ≤ x) (h2 : x < L.stackBottom u + L.stackSize u) :
    (doTaskSwitch L.toSymbols (call s.cpu next retAddr.toNat)).mem x = s.cpu.mem x := by
  have hut := hi.isTask u hu
  have hrt := hi.isTask _ hi.running_mem
  have a1 := L.stack_stack _ _ hut hrt hne.symm
  have a2 := L.stack_tcb _ _ hut hrt
  have a3 := L.currentTask_stack u hut
  have a4 := L.tss_stack u hut
  simp only [Tiling.Apart, tcbSize, taskListSize, tssSize] at a1 a2 a3 a4
  exact (switched_of_own hi hC).frame x (by omega) (by omega) (by omega) (by omega)

/-- **A new task keeps its stack** until it is switched to. -/
theorem notStarted_step (h : NotStarted L task args s) (hC : NotTo L task s o) (hok : step L s o = .ok t) :
    NotStarted L task args t := by
  obtain ⟨hown, hnot⟩ := hC
  have hi' := step_inv h.inv hown hok
  have htask := h.inv.isTask task h.created
  have htop := stackTop_eq (L.stackBottom task)
  -- in each case the stack of the task is somewhere else than what is written
  have hkeep : ∀ mem' : Mem, (∀ x, L.stackBottom task ≤ x → x < L.stackBottom task + L.stackSize task →
      mem' x = s.cpu.mem x) → WordsLaid mem' (stackTop (L.stackBottom task)) args := by
    intro mem' he
    refine h.words.congr (by omega) fun x h1 h2 => ?_
    obtain ⟨hx1, hx2⟩ := stack_words h.size h1 h2
    exact he x hx1 hx2
  cases o with
  | work regs mem =>
    cases hok
    refine ⟨hi', h.created, h.suspended, hkeep _ fun x h1 h2 => hown x ?_, h.saved, h.size⟩
    have a := L.stack_stack _ _ htask (h.inv.isTask _ h.inv.running_mem) h.suspended.symm
    simp only [Tiling.Apart] at a
    omega
  | create u uargs =>
    cases hok
    obtain ⟨hut, hnew, husize⟩ := hown
    have hne : task ≠ u := fun he => hnew (he ▸ h.created)
    refine ⟨hi', List.mem_cons_of_mem _ h.created, h.suspended, hkeep _ fun x h1 h2 => ?_, ?_, h.size⟩
    · have a1 := L.stack_stack _ _ htask hut hne
      have a2 := L.stack_tcb _ _ htask hut
      have hle := L.stack_le u hut
      rw [husize] at a1 hle
      simp only [Tiling.Apart] at a1 a2
      exact taskCreate_of_outside hle (by omega) (by omega)
    · exact (Function.update_of_ne hne _ _).trans h.saved
  | switch next retAddr =>
    cases hok
    have hne : next ≠ task := fun he => hnot retAddr (he ▸ rfl)
    refine ⟨hi', h.created, hne, hkeep _ fun x h1 h2 => switch_stack h.inv hown h.created h.suspended h1 h2, ?_, h.size⟩
    exact (Function.update_of_ne h.suspended.symm _ _).trans h.saved

/-! ## The first switch -/

/-- the task function that was entered in `c` is about to return in `u`: ESP is what it was, and the words from there on are
untouched -/
structure AtReturn (c u : Cpu) : Prop where
  esp : u.regs .esp = c.regs .esp
  kept : ∀ x, c.regs .esp ≤ x → x < c.regs .esp + 12 → u.mem x = c.mem x

/-- a cdecl call of `sched_remove(pid)` that will return to `sched_halt_or_crash` -/
structure EntersSchedRemove (args : TaskArgs) (u : Cpu) : Prop where
  eip : u.eip = args.schedRemove.toNat
  retAddr : load32 u.mem (u.regs .esp) = args.schedHaltOrCrash.toNat
  pid : load32 u.mem (u.regs .esp + 4) = args.pid.toNat

/-- the state in which a new task starts -/
structure Starts (args : TaskArgs) (c : Cpu) : Prop where
  eip : c.eip = args.taskFn.toNat
  regs : ∀ r, r ∈ [Reg.ebp, .ebx, .esi, .edi] → c.regs r = 0
  /-- the word at the top of the stack, and where the trampoline takes it -/
  entry : args.retAddr ≠ 0 → load32 c.mem (c.regs .esp) = args.retAddr.toNat ∧
    ∀ eflags, (iret (initGotoUserMode eflags c)).eip = args.retAddr.toNat
  exit : args.retAddr = 0 → ∀ u, AtReturn c u → EntersSchedRemove args u.ret

/-- the function is entered with the context that `task_create` laid out, and the words above it in place -/
theorem starts_of_words {c : Cpu} {top : ℕ} (hctx : contextOf c = initialContext top args) (hw : WordsLaid c.mem top args)
    (hroom : 32 ≤ top) (hlt : top + 4 < 2 ^ 32) : Starts args c := by
  simp only [contextOf, initialContext, Context.mk.injEq] at hctx
  obtain ⟨hesp, hebp, hebx, hesi, hedi, heip⟩ := hctx
  refine ⟨heip, fun r hr => ?_, fun hret => ?_, fun hret u hu => ?_⟩
  · simp only [List.mem_cons, List.not_mem_nil, or_false] at hr
    rcases hr with rfl | rfl | rfl | rfl
    · exact hebp
    · exact hebx
    · exact hesi
    · exact hedi
  · rw [if_pos hret] at hesp
    have htop : load32 c.mem (c.regs .esp) = args.retAddr.toNat := by
      rw [hesp]
      exact hw.entry hret
    refine ⟨htop, fun eflags => ?_⟩
    rw [iret_initGotoUserMode eflags c (by omega) (by omega)]
    exact htop
  · rw [if_neg (not_not.2 hret)] at hesp
    have hkept : ∀ a, top - 8 ≤ a → a ≤ top → load32 u.mem a = load32 c.mem a := by
      intro a h1 h2
      exact load32_congr fun x hx1 hx2 => hu.kept x (by omega) (by omega)
    have hnext : (u.ret).regs .esp = top - 4 := by
      simp only [Cpu.ret, Cpu.set, Function.update_self, hu.esp, hesp]
      rw [u32_of_lt (by omega)]
      omega
    refine ⟨?_, ?_, ?_⟩
    · simp only [Cpu.ret, hu.esp, hesp]
      rw [hkept _ le_rfl (by omega)]
      exact hw.remove
    · rw [hnext]
      exact (hkept _ (by omega) (by omega)).trans hw.halt
    · rw [hnext, show top - 4 + 4 = top by omega]
      exact (hkept _ (by omega) le_rfl).trans hw.pid

/-- **A new task starts and ends where it should.** `task_create` writes no byte outside the `KERNEL_STACK_SIZE` bytes of the
new stack, the control block apart. In every run, whatever the tasks do between the creation and the first switch to the new
task, that switch enters `task_fn` with EBP, EBX, ESI and EDI zero. If `ret_addr` is not NULL, it is the word at the top of
the stack, and the trampoline returns to user mode there; if it is NULL, a return from `task_fn` enters `sched_remove` with
the pid as argument and `sched_halt_or_crash` as return address. -/
theorem new_task_starts (h₀ : Boot L s₀) (hr : Runs (step L) (Own L) s₀ ops s) (hC : Own L s (.create task args))
    (hcreate : step L s (.create task args) = .ok s₁) (hr' : Runs (step L) (NotTo L task) s₁ ops' s₂)
    (hC' : Own L s₂ (.switch task retAddr)) (hswitch : step L s₂ (.switch task retAddr) = .ok t) :
    (∀ mem x, ¬ (L.stackBottom task ≤ x ∧ x < L.stackBottom task + kernelStackSize) →
      (layOutStack mem (stackTop (L.stackBottom task)) args).1 x = mem x) ∧
    Starts args t.cpu := by
  have hi : Inv L s := hr.inv (fun _ _ _ => step_inv) (inv_boot h₀)
  have hns : NotStarted L task args s₂ := hr'.inv (fun _ _ _ => notStarted_step) (notStarted_create hi hC hcreate)
  have hsz : kernelStackSize = 40960 := rfl
  have hle := L.stack_le task hC.1
  have htop := stackTop_eq (L.stackBottom task)
  rw [hC.2.2] at hle
  refine ⟨fun mem x hx => ?_, ?_⟩
  · obtain ⟨_, _, _, hframe⟩ :=
      @layOutStack_spec mem (L.stackBottom task) (stackTop (L.stackBottom task)) args (by omega) (by omega)
    exact hframe x (by omega)
  · cases hswitch
    have hctx := context_switch hns.inv hC' (switched_of_own hns.inv hC')
    rw [Function.update_of_ne hns.suspended.symm, hns.saved] at hctx
    refine starts_of_words hctx (hns.words.congr (by omega) fun x h1 h2 => ?_) (by omega) (by omega)
    obtain ⟨hx1, hx2⟩ := stack_words hns.size h1 h2
    exact switch_stack hns.inv hC' hns.created hns.suspended hx1 hx2

end Runs

/-- a user task: the trampoline, and its entry point -/
def userTask : TaskArgs := ⟨2, 0x600, 0x8048000, 0x5000, 0x700, 0x800, (0, 0), (0, 0)⟩

/-- the first task creates another, and then works on its own stack -/
def created (args : TaskArgs) : St := returned booted (step twoTasks booted (.create 0x4000 args))

def worked (args : TaskArgs) : Op := .work (fun _ => 0x108000#32) (store8 (created args).cpu.mem 0x108000 5)

theorem worked_own (args : TaskArgs) : NotTo twoTasks 0x4000 (created args) (worked args) := by
  refine ⟨fun x hx => Function.update_of_ne (fun he => hx ?_) _ _, fun _ => Op.noConfusion⟩
  subst he
  have hrun : (created args).running = 0x3000 := rfl
  rw [hrun]
  exact ⟨by decide, by decide⟩

/-- a user task and a kernel task, each created, then switched to for the first time: the one goes to its entry point, and
the other returns into `sched_remove(1)` -/
theorem new_task_starts_both :
    (∃ s t, step twoTasks (created userTask) (worked userTask) = .ok s ∧
      step twoTasks s (.switch 0x4000 0x400) = .ok t ∧ t.cpu.eip = 0x600 ∧
      (iret (initGotoUserMode 2 t.cpu)).eip = 0x8048000) ∧
    ∃ s t, step twoTasks (created newTask) (worked newTask) = .ok s ∧
      step twoTasks s (.switch 0x4000 0x400) = .ok t ∧ t.cpu.eip = 0x600 ∧ EntersSchedRemove newTask t.cpu.ret := by
  have hC : ∀ args, Own twoTasks booted (.create 0x4000 args) := fun args => ⟨Or.inr rfl, by decide, rfl⟩
  obtain ⟨_, huser⟩ := new_task_starts booted_boot (.nil booted) (hC userTask) rfl
    (.cons (worked_own userTask) rfl (.nil _))
    (show Own twoTasks _ (.switch 0x4000 0x400) from ⟨by decide, by decide, by decide⟩) rfl
  obtain ⟨_, hkern⟩ := new_task_starts booted_boot (.nil booted) (hC newTask) rfl
    (.cons (worked_own newTask) rfl (.nil _))
    (show Own twoTasks _ (.switch 0x4000 0x400) from ⟨by decide, by decide, by decide⟩) rfl
  exact ⟨⟨_, _, rfl, rfl, huser.eip, (huser.entry (by decide)).2 2⟩,
    ⟨_, _, rfl, rfl, hkern.eip, hkern.exit rfl _ ⟨rfl, fun _ _ _ => rfl⟩⟩⟩

end Gubos.TaskSwitch
