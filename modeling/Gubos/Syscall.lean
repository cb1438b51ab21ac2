/-
System calls: the way into the kernel and back (`syscall/syscall_int_handler.S`, `syscall/syscall.c`, `syscall/fork.c`).

`int $80` in user mode takes ESP from the TSS and pushes SS, ESP, EFLAGS, CS and EIP there. `syscall_interrupt_handler` pushes
the registers, so that they lie in memory as a `registers_t`, calls `syscall_handler` with a pointer to them and a pointer to
what the processor pushed, and pops them again. It is modelled instruction by instruction. `syscall_handler` is any code that
returns to its caller and leaves the stack of its caller as it was, but for `regs->eax`, which `fork` writes.

- `entered_eq`, `registers_eq`: what is on the stack at the call, and what the handler reads there. `interrupt_state_t` has its
  fields in the opposite order of what the processor pushes, and `regs->ebp` and `regs->esp` are the stub's own;
- `left_eq`: the pops take back what was pushed;
- `user_syscall`: in every run of the machine, a system call of the running user task stays on the kernel stack of that task and
  returns to user mode with every register as it was, but for EAX, which is what the handler left in `regs->eax`.

`cld`, the segment registers and the selectors that `iret` checks are not modelled.
-/
import Gubos.Sched.Preemption
import Gubos.TaskStart

namespace Gubos.Syscall

open Gubos.Core
open Gubos.TaskSwitch (Symbols Layout TaskArgs UserContext iret esp0 stackTop kernelStackSize tcbSize)

/-! ## The code -/

/-- the segments and the flags of user code -/
structure UserSegments where
  cs : BitVec 32
  eflags : BitVec 32
  ss : BitVec 32

/-- an interrupt in user mode, through an interrupt gate: the stack is that of the TSS -/
def interruptFromUser (L : Symbols) (s : Cpu) (u : UserSegments) : Cpu :=
  let userEsp := s.regs .esp
  let s := s.set .esp (load32 s.mem (u32 (L.tss + 4)))
  let s := s.pushWord u.ss.toNat
  let s := s.pushWord userEsp
  let s := s.pushWord u.eflags.toNat
  let s := s.pushWord u.cs.toNat
  let s := s.pushWord s.eip
  s.cli

/-- `syscall_interrupt_handler`, up to the call -/
def pushRegisters (s : Cpu) : Cpu :=
  let s := s.push .ebp
  let s := s.mov .esp .ebp
  -- the registers_t
  let s := s.push .ebp
  let s := s.push .esp
  let s := s.push .edi
  let s := s.push .esi
  let s := s.push .edx
  let s := s.push .ecx
  let s := s.push .ebx
  let s := s.push .eax
  -- its address, and the address of the interrupt_state_t
  let s := s.leaAt 0 .esp .eax
  let s := s.push .eax
  let s := s.leaAt 4 .ebp .eax
  let s := s.push .eax
  -- "restore eax": this reads the first pointer back
  s.load 4 .esp .eax

/-- the call of `syscall_handler` -/
def callHandler (retAddr : BitVec 32) (s : Cpu) : Cpu := s.pushWord retAddr.toNat

/-- `syscall_interrupt_handler`, after the call, up to its `iret` -/
def popRegisters (s : Cpu) : Cpu :=
  let s := s.pop .eax
  let s := s.pop .eax
  let s := s.pop .eax
  let s := s.pop .ebx
  let s := s.pop .ecx
  let s := s.pop .edx
  let s := s.pop .esi
  let s := s.pop .edi
  let s := s.pop .esp
  let s := s.pop .ebp
  s.pop .ebp

/-- the state in which `syscall_handler` starts -/
def entered (L : Symbols) (retAddr : BitVec 32) (s : Cpu) (u : UserSegments) : Cpu :=
  callHandler retAddr (pushRegisters (interruptFromUser L s u))

/-- `registers_t` and `interrupt_state_t`, as they are read through a pointer -/
structure Registers where
  eax : ℕ
  ebx : ℕ
  ecx : ℕ
  edx : ℕ
  esi : ℕ
  edi : ℕ
  esp : ℕ
  ebp : ℕ
deriving DecidableEq, Repr

structure InterruptState where
  eflags : ℕ
  cs : ℕ
  eip : ℕ
deriving DecidableEq, Repr

def registersAt (m : Mem) (p : ℕ) : Registers :=
  ⟨load32 m p, load32 m (p + 4), load32 m (p + 8), load32 m (p + 12), load32 m (p + 16), load32 m (p + 20),
    load32 m (p + 24), load32 m (p + 28)⟩

def interruptStateAt (m : Mem) (p : ℕ) : InterruptState := ⟨load32 m p, load32 m (p + 4), load32 m (p + 8)⟩

/-- `fork`: `regs->eax = 0xbeef` -/
def fork (m : Mem) (regs : ℕ) : Mem := store32 m regs 0xbeef

/-! ## In and out -/

section Stub

variable {L : Symbols} {s : Cpu} {u : UserSegments} {retAddr : BitVec 32} {n : ℕ}

/-- where a push puts its word, and where the stack is after a pop -/
theorem u32_push {n b : ℕ} (h : n + b < 2 ^ 32) (k : ℕ) (hk : k + 4 ≤ b) : u32 (n + (k + 4) + 2 ^ 32 - 4) = n + k := by
  unfold u32
  omega

theorem u32_pop {n b : ℕ} (h : n + b < 2 ^ 32) (k : ℕ) (hk : k + 4 ≤ b) : u32 (n + k + 4) = n + (k + 4) :=
  u32_of_lt (by omega)

/-- the stack after the interrupt, 20 bytes below the top that the TSS has -/
theorem interruptFromUser_eq (htop : load32 s.mem (u32 (L.tss + 4)) = n + 68) (hlt : n + 68 < 2 ^ 32) :
    (interruptFromUser L s u).regs = Function.update s.regs .esp (n + 48) ∧
      (interruptFromUser L s u).mem = store32 (store32 (store32 (store32 (store32 s.mem (n + 64) u.ss.toNat)
        (n + 60) (s.regs .esp)) (n + 56) u.eflags.toNat) (n + 52) u.cs.toNat) (n + 48) s.eip := by
  have e1 : u32 (n + 68 + 2 ^ 32 - 4) = n + 64 := u32_push hlt 64 (by decide)
  have e2 : u32 (n + 64 + 2 ^ 32 - 4) = n + 60 := u32_push hlt 60 (by decide)
  have e3 : u32 (n + 60 + 2 ^ 32 - 4) = n + 56 := u32_push hlt 56 (by decide)
  have e4 : u32 (n + 56 + 2 ^ 32 - 4) = n + 52 := u32_push hlt 52 (by decide)
  have e5 : u32 (n + 52 + 2 ^ 32 - 4) = n + 48 := u32_push hlt 48 (by decide)
  constructor
  · simp only [interruptFromUser, Cpu.cli, Cpu.pushWord, Cpu.set, htop, Function.update_self, Function.update_idem, e1, e2,
      e3, e4, e5]
  · simp only [interruptFromUser, Cpu.cli, Cpu.pushWord, Cpu.set, htop, Function.update_self, e1, e2, e3, e4, e5]

/-- what the stub pushes, over the five words of the processor -/
theorem pushRegisters_eq (hesp : s.regs .esp = n + 48) (hlt : n + 48 < 2 ^ 32) :
    (pushRegisters s).regs .esp = n + 4 ∧
      (pushRegisters s).mem = store32 (store32 (store32 (store32 (store32 (store32 (store32 (store32 (store32 (store32
        (store32 s.mem (n + 44) (s.regs .ebp)) (n + 40) (n + 44)) (n + 36) (n + 40)) (n + 32) (s.regs .edi))
        (n + 28) (s.regs .esi)) (n + 24) (s.regs .edx)) (n + 20) (s.regs .ecx)) (n + 16) (s.regs .ebx))
        (n + 12) (s.regs .eax)) (n + 8) (n + 12)) (n + 4) (n + 48) := by
  have e11 : u32 (n + 12 + 0) = n + 12 := u32_of_lt (by omega)
  have e0 : u32 (n + 48 + 2 ^ 32 - 4) = n + 44 := u32_push hlt 44 (by decide)
  have e1 : u32 (n + 44 + 2 ^ 32 - 4) = n + 40 := u32_push hlt 40 (by decide)
  have e2 : u32 (n + 40 + 2 ^ 32 - 4) = n + 36 := u32_push hlt 36 (by decide)
  have e3 : u32 (n + 36 + 2 ^ 32 - 4) = n + 32 := u32_push hlt 32 (by decide)
  have e4 : u32 (n + 32 + 2 ^ 32 - 4) = n + 28 := u32_push hlt 28 (by decide)
  have e5 : u32 (n + 28 + 2 ^ 32 - 4) = n + 24 := u32_push hlt 24 (by decide)
  have e6 : u32 (n + 24 + 2 ^ 32 - 4) = n + 20 := u32_push hlt 20 (by decide)
  have e7 : u32 (n + 20 + 2 ^ 32 - 4) = n + 16 := u32_push hlt 16 (by decide)
  have e8 : u32 (n + 16 + 2 ^ 32 - 4) = n + 12 := u32_push hlt 12 (by decide)
  have e9 : u32 (n + 12 + 2 ^ 32 - 4) = n + 8 := u32_push hlt 8 (by decide)
  have e10 : u32 (n + 8 + 2 ^ 32 - 4) = n + 4 := u32_push hlt 4 (by decide)
  have e12 : u32 (n + 44 + 4) = n + 48 := u32_pop hlt 44 (by decide)
  constructor
  · simp only [pushRegisters, Cpu.push, Cpu.pushWord, Cpu.mov, Cpu.leaAt, Cpu.load, Cpu.set, Function.update_apply,
      reduceCtorEq, if_true, if_false, hesp, e0, e1, e2, e3, e4, e5, e6, e7, e8, e9, e10]
  · simp only [pushRegisters, Cpu.push, Cpu.pushWord, Cpu.mov, Cpu.leaAt, Cpu.load, Cpu.set, Function.update_apply,
      reduceCtorEq, if_true, if_false, hesp, e0, e1, e2, e3, e4, e5, e6, e7, e8, e9, e10, e11, e12]

/-- what the pops take from the stack, when the slot of ESP holds the address above it -/
theorem popRegisters_eq {d : Cpu} (hesp : d.regs .esp = n + 4) (hslot : load32 d.mem (n + 36) = n + 40)
    (hlt : n + 48 < 2 ^ 32) :
    (popRegisters d).mem = d.mem ∧ (popRegisters d).regs .esp = n + 48 ∧
      (popRegisters d).regs .eax = load32 d.mem (n + 12) ∧ (popRegisters d).regs .ebx = load32 d.mem (n + 16) ∧
      (popRegisters d).regs .ecx = load32 d.mem (n + 20) ∧ (popRegisters d).regs .edx = load32 d.mem (n + 24) ∧
      (popRegisters d).regs .esi = load32 d.mem (n + 28) ∧ (popRegisters d).regs .edi = load32 d.mem (n + 32) ∧
      (popRegisters d).regs .ebp = load32 d.mem (n + 44) := by
  have e1 : u32 (n + 4 + 4) = n + 8 := u32_pop hlt 4 (by decide)
  have e2 : u32 (n + 8 + 4) = n + 12 := u32_pop hlt 8 (by decide)
  have e3 : u32 (n + 12 + 4) = n + 16 := u32_pop hlt 12 (by decide)
  have e4 : u32 (n + 16 + 4) = n + 20 := u32_pop hlt 16 (by decide)
  have e5 : u32 (n + 20 + 4) = n + 24 := u32_pop hlt 20 (by decide)
  have e6 : u32 (n + 24 + 4) = n + 28 := u32_pop hlt 24 (by decide)
  have e7 : u32 (n + 28 + 4) = n + 32 := u32_pop hlt 28 (by decide)
  have e8 : u32 (n + 32 + 4) = n + 36 := u32_pop hlt 32 (by decide)
  have e9 : u32 (n + 40 + 4) = n + 44 := u32_pop hlt 40 (by decide)
  have e10 : u32 (n + 44 + 4) = n + 48 := u32_pop hlt 44 (by decide)
  refine ⟨rfl, ?_⟩
  simp only [popRegisters, Cpu.pop, Cpu.set, Function.update_apply, reduceCtorEq, if_true, if_false, hesp, hslot, e1, e2,
    e3, e4, e5, e6, e7, e8, e9, e10, and_self]

/-- the words on the stack when `syscall_handler` starts, from the return address up -/
structure Entered (s : Cpu) (u : UserSegments) (n : ℕ) (c : Cpu) : Prop where
  esp : c.regs .esp = n
  state : load32 c.mem (n + 4) = n + 48
  regs : load32 c.mem (n + 8) = n + 12
  eax : load32 c.mem (n + 12) = s.regs .eax
  ebx : load32 c.mem (n + 16) = s.regs .ebx
  ecx : load32 c.mem (n + 20) = s.regs .ecx
  edx : load32 c.mem (n + 24) = s.regs .edx
  esi : load32 c.mem (n + 28) = s.regs .esi
  edi : load32 c.mem (n + 32) = s.regs .edi
  slot : load32 c.mem (n + 36) = n + 40
  inner : load32 c.mem (n + 40) = n + 44
  ebp : load32 c.mem (n + 44) = s.regs .ebp
  eip : load32 c.mem (n + 48) = s.eip
  cs : load32 c.mem (n + 52) = u.cs.toNat
  eflags : load32 c.mem (n + 56) = u.eflags.toNat
  userEsp : load32 c.mem (n + 60) = s.regs .esp
  ss : load32 c.mem (n + 64) = u.ss.toNat
  frame : ∀ x, x < n ∨ n + 68 ≤ x → c.mem x = s.mem x

/-- **In.** Seventeen words are pushed, from the top of the stack that the TSS has. -/
theorem entered_eq (htop : load32 s.mem (u32 (L.tss + 4)) = n + 68) (hregs : ∀ r, s.regs r < 2 ^ 32)
    (heip : s.eip < 2 ^ 32) : Entered s u n (entered L retAddr s u) := by
  have hlt : n + 68 < 2 ^ 32 := by
    rw [← htop]
    exact load32_lt _ _
  obtain ⟨hir, him⟩ := @interruptFromUser_eq L s u n htop hlt
  set i := interruptFromUser L s u
  have hiesp : i.regs .esp = n + 48 := by rw [hir, Function.update_self]
  have hireg : ∀ r, r ≠ .esp → i.regs r = s.regs r := by
    intro r hr
    rw [hir, Function.update_of_ne hr]
  obtain ⟨hpesp, hpm⟩ := pushRegisters_eq hiesp (by omega)
  have hn : u32 (n + 4 + 2 ^ 32 - 4) = n := u32_push hlt 0 (by decide)
  have hesp : (entered L retAddr s u).regs .esp = n := by
    simp only [entered, callHandler, Cpu.pushWord, Cpu.set, Function.update_self]
    rw [hpesp, hn]
  have hmem : (entered L retAddr s u).mem = store32 (pushRegisters i).mem n retAddr.toNat := by
    simp only [entered, callHandler, Cpu.pushWord]
    rw [hpesp, hn]
  have hax := hregs .eax
  have hbx := hregs .ebx
  have hcx := hregs .ecx
  have hdx := hregs .edx
  have hsi := hregs .esi
  have hdi := hregs .edi
  have hbp := hregs .ebp
  have hsp := hregs .esp
  have hcs := u.cs.isLt
  have hfl := u.eflags.isLt
  have hss := u.ss.isLt
  rw [hpm, him, hireg .ebp (by decide), hireg .edi (by decide), hireg .esi (by decide), hireg .edx (by decide),
    hireg .ecx (by decide), hireg .ebx (by decide), hireg .eax (by decide)] at hmem
  constructor
  case esp => exact hesp
  case frame =>
    intro x hx
    rw [hmem]
    simp (disch := omega) only [store32_of_outside]
  -- every other field is a word, under the stores that came after it
  all_goals
    rw [hmem]
    simp (disch := omega) only [load32_store32_ne, load32_store32]

/-- **What `syscall_handler` reads.** `regs->eax` to `regs->edi` are the registers of the caller. `regs->esp` and `regs->ebp`
are addresses on the kernel stack; `state->eflags` is the EIP of the caller, and `state->eip` its EFLAGS. -/
theorem registers_eq {c : Cpu} (h : Entered s u n c) :
    registersAt c.mem (load32 c.mem (c.regs .esp + 8)) =
        ⟨s.regs .eax, s.regs .ebx, s.regs .ecx, s.regs .edx, s.regs .esi, s.regs .edi, n + 40, n + 44⟩ ∧
      interruptStateAt c.mem (load32 c.mem (c.regs .esp + 4)) = ⟨s.eip, u.cs.toNat, u.eflags.toNat⟩ := by
  rw [h.esp, h.regs, h.state]
  simp only [registersAt, interruptStateAt, Nat.add_assoc, Nat.reduceAdd, h.eax, h.ebx, h.ecx, h.edx, h.esi, h.edi, h.slot,
    h.inner, h.eip, h.cs, h.eflags, and_self]

/-- `syscall_handler`, called in `c`, has returned in `d`: its return address is popped, and of the words of its caller it has
written `regs->eax` at most -/
structure Handled (c d : Cpu) : Prop where
  esp : d.regs .esp = c.regs .esp + 4
  kept : ∀ x, c.regs .esp + 16 ≤ x → x < c.regs .esp + 68 → d.mem x = c.mem x

/-- the user code goes on where it was, with all registers as they were but EAX -/
structure Returned (s : Cpu) (u : UserSegments) (eax : ℕ) (v : Cpu) : Prop where
  eax : v.regs .eax = eax
  regs : ∀ r, r ≠ .eax → r ≠ .esp → v.regs r = s.regs r
  iret : iret v = ⟨s.eip, u.cs.toNat, u.eflags.toNat, s.regs .esp, u.ss.toNat⟩

/-- **Out.** -/
theorem left_eq {c d : Cpu} (h : Entered s u n c) (hd : Handled c d) (hlt : n + 48 < 2 ^ 32) :
    Returned s u (load32 d.mem (n + 12)) (popRegisters d) := by
  have hesp := hd.esp
  have hkept := hd.kept
  rw [h.esp] at hesp hkept
  have hword : ∀ a, n + 16 ≤ a → a ≤ n + 64 → load32 d.mem a = load32 c.mem a := by
    intro a h1 h2
    exact load32_congr fun x hx1 hx2 => hkept x (by omega) (by omega)
  obtain ⟨hmem, hpesp, hax, hbx, hcx, hdx, hsi, hdi, hbp⟩ :=
    popRegisters_eq hesp ((hword _ (by omega) (by omega)).trans h.slot) hlt
  refine ⟨hax, ?_, ?_⟩
  · intro r h1 h2
    cases r with
    | eax => exact absurd rfl h1
    | esp => exact absurd rfl h2
    | ebx => exact (hbx.trans (hword _ (by omega) (by omega))).trans h.ebx
    | ecx => exact (hcx.trans (hword _ (by omega) (by omega))).trans h.ecx
    | edx => exact (hdx.trans (hword _ (by omega) (by omega))).trans h.edx
    | esi => exact (hsi.trans (hword _ (by omega) (by omega))).trans h.esi
    | edi => exact (hdi.trans (hword _ (by omega) (by omega))).trans h.edi
    | ebp => exact (hbp.trans (hword _ (by omega) (by omega))).trans h.ebp
  · simp only [TaskSwitch.iret, hmem, hpesp, Nat.add_assoc, Nat.reduceAdd]
    rw [hword _ (by omega) (by omega), hword _ (by omega) (by omega), hword _ (by omega) (by omega),
      hword _ (by omega) (by omega), hword _ (by omega) (by omega), h.eip, h.cs, h.eflags, h.userEsp, h.ss]

/-- `fork` does what a handler may do, and returns 0xbeef -/
theorem fork_handled {c : Cpu} :
    Handled c { c.set .esp (c.regs .esp + 4) with mem := fork c.mem (c.regs .esp + 12) } ∧
      load32 (fork c.mem (c.regs .esp + 12)) (c.regs .esp + 12) = 0xbeef := by
  refine ⟨⟨?_, ?_⟩, load32_store32 _ _ (by decide)⟩
  · simp [Cpu.set]
  · intro x h1 _
    exact store32_of_outside _ _ (by omega)

end Stub

/-! ## System calls of running tasks -/

section Runs

variable {A : Allocator} {L : Layout} {s s₀ t : Preemption.St} {o : Preemption.Op} {ops : List Preemption.Op} {first : ℕ}
  {retAddr : BitVec 32}

/-- the TSS has the `esp0` of the running task; that of a task other than the first is in its stack, with room below it -/
structure Ready (L : Layout) (first : ℕ) (s : Preemption.St) : Prop where
  tss : load32 s.machine.cpu.mem (L.tss + 4) = esp0 s.machine.cpu.mem s.machine.running
  room : ∀ t ∈ s.machine.tasks, t ≠ first → L.stackBottom t + 68 ≤ esp0 s.machine.cpu.mem t ∧
    esp0 s.machine.cpu.mem t ≤ L.stackBottom t + L.stackSize t

/-- `esp0` of a new task is where its first context lies -/
theorem taskCreate_esp0 {mem : Mem} {task bottom : ℕ} {args : TaskArgs} (hle : bottom + kernelStackSize ≤ 2 ^ 32) :
    bottom + 68 ≤ esp0 (TaskSwitch.taskCreate mem task (stackTop bottom) args) task ∧
      esp0 (TaskSwitch.taskCreate mem task (stackTop bottom) args) task ≤ bottom + kernelStackSize := by
  have hsize : kernelStackSize = 40960 := rfl
  have htop := TaskSwitch.stackTop_eq bottom
  obtain ⟨h1, h2, _, _⟩ :=
    @TaskSwitch.layOutStack_spec mem (stackTop bottom - 32) (stackTop bottom) args (by omega) (by omega)
  have hesp0 : esp0 (TaskSwitch.taskCreate mem task (stackTop bottom) args) task =
      (TaskSwitch.layOutStack mem (stackTop bottom) args).2 := by
    simp only [esp0, TaskSwitch.taskCreate, TaskSwitch.writeControlBlock]
    simp (disch := omega) only [load32_store32_ne, load32_store32]
  rw [hesp0]
  omega

theorem ready_step (hi : Preemption.Inv L s) (hrd : Ready L first s) (hC : Preemption.Own L s o)
    (hok : Preemption.step A L s o = .ok t) : Ready L first t := by
  have hkeep : ∀ u ∈ s.machine.tasks, esp0 t.machine.cpu.mem u = esp0 s.machine.cpu.mem u := by
    intro u hu
    exact Preemption.step_word hi hC hok (k := 12) hu (by simp)
  have hroom : ∀ u ∈ s.machine.tasks, u ≠ first → L.stackBottom u + 68 ≤ esp0 t.machine.cpu.mem u ∧
      esp0 t.machine.cpu.mem u ≤ L.stackBottom u + L.stackSize u := by
    intro u hu hne
    rw [hkeep u hu]
    exact hrd.room u hu hne
  have hrun := hi.machine.running_mem
  have hrt := hi.machine.isTask _ hrun
  rcases Preemption.step_cases hi.init hok with ⟨regs, mem, m, rfl, hm, rfl⟩ | ⟨task, args, m, rfl, hm, rfl⟩ |
    ⟨task, priority, c, rfl, hc, rfl⟩ | ⟨retAddr, m, rfl, hm, rfl⟩
  · cases hm
    refine ⟨?_, hroom⟩
    have a := L.tss_stack _ hrt
    simp only [Tiling.Apart, TaskSwitch.tssSize] at a
    refine Eq.trans (load32_congr ?_) (hrd.tss.trans (hkeep _ hrun).symm)
    intro x h1 h2
    exact hC x (by omega)
  · cases hm
    obtain ⟨htask, hnew, hsize⟩ := hC
    have hle := L.stack_le task htask
    refine ⟨?_, ?_⟩
    · have a1 := L.tss_stack task htask
      have a2 := L.tss_tcb task htask
      rw [hsize] at a1 hle
      simp only [Tiling.Apart, TaskSwitch.tssSize] at a1 a2
      refine Eq.trans (load32_congr ?_) (hrd.tss.trans (hkeep _ hrun).symm)
      intro x h1 h2
      exact TaskSwitch.taskCreate_of_outside hle (by omega) (by omega)
    · intro u hu hne
      rcases List.mem_cons.1 hu with rfl | hu
      · rw [hsize] at hle ⊢
        exact taskCreate_esp0 hle
      · exact hroom u hu hne
  · exact ⟨hrd.tss, hrd.room⟩
  · cases hm
    exact ⟨(TaskSwitch.switched_of_own hi.machine (hi.own_switch hC)).tssEsp0, hroom⟩

theorem ready_init {nodes : ℕ → Sched.TaskList} {arena : Arena} {b : TaskSwitch.St} (hb : Preemption.Start L b retAddr)
    (h : Preemption.initSched A L nodes arena b retAddr = .ok s) : Ready L b.running s := by
  obtain ⟨c, hc, h⟩ := bind_ok.1 h
  obtain ⟨m, hm, h⟩ := bind_ok.1 h
  cases h
  cases hm
  refine ⟨(TaskSwitch.switched_of_own (TaskSwitch.inv_boot hb.boot) hb.room).tssEsp0, ?_⟩
  intro t ht hne
  rw [hb.boot.tasks, List.mem_singleton] at ht
  exact absurd ht hne

/-- the processor while the running task is in user mode, with any registers -/
def inUserMode (s : Preemption.St) (regs : Reg → BitVec 32) (eip : BitVec 32) : Cpu :=
  { s.machine.cpu with regs := fun r => (regs r).toNat, eip := eip.toNat }

/-- **A system call comes back where it was made.** In any state that the machine reaches from `init_sched`, let a task other
than the first run in user mode, with any registers, and make a system call. What the processor and the stub push lies in the
kernel stack of that task; `syscall_handler` finds the registers of the caller behind its pointer; and when it has returned,
whatever it did below its frame and to `regs->eax`, the user code goes on after the interrupt, on its own stack, with its
flags and all its registers as they were, EAX being what the handler left in `regs->eax`. -/
theorem user_syscall {nodes : ℕ → Sched.TaskList} {arena : Arena} {b : TaskSwitch.St} {bootAddr : BitVec 32}
    {regs : Reg → BitVec 32} {eip : BitVec 32} {u : UserSegments} {d : Cpu} (hb : Preemption.Start L b bootAddr)
    (h₀ : Preemption.initSched A L nodes arena b bootAddr = .ok s₀)
    (hr : Runs (Preemption.step A L) (Preemption.Own L) s₀ ops s) (hfirst : s.machine.running ≠ b.running)
    (hd : Handled (entered L.toSymbols retAddr (inUserMode s regs eip) u) d) :
    let c := entered L.toSymbols retAddr (inUserMode s regs eip) u
    (∀ x, ¬ (L.stackBottom s.machine.running ≤ x ∧ x < L.stackBottom s.machine.running + L.stackSize s.machine.running) →
      c.mem x = s.machine.cpu.mem x) ∧
    (∃ kernelEsp kernelEbp, registersAt c.mem (load32 c.mem (c.regs .esp + 8)) =
      ⟨(regs .eax).toNat, (regs .ebx).toNat, (regs .ecx).toNat, (regs .edx).toNat, (regs .esi).toNat, (regs .edi).toNat,
        kernelEsp, kernelEbp⟩) ∧
    interruptStateAt c.mem (load32 c.mem (c.regs .esp + 4)) = ⟨eip.toNat, u.cs.toNat, u.eflags.toNat⟩ ∧
    Returned (inUserMode s regs eip) u (load32 d.mem (c.regs .esp + 12)) (popRegisters d) := by
  intro c
  obtain ⟨hi, hrd⟩ : Preemption.Inv L s ∧ Ready L b.running s := by
    refine hr.inv (P := fun s => Preemption.Inv L s ∧ Ready L b.running s) ?_
      ⟨Preemption.inv_init hb h₀, ready_init hb h₀⟩
    rintro s o t ⟨hi, hrd⟩ hC hok
    exact ⟨Preemption.inv_step hi hC hok, ready_step hi hrd hC hok⟩
  have hrun := hi.machine.running_mem
  obtain ⟨hlow, hhigh⟩ := hrd.room _ hrun hfirst
  have hle := L.stack_le _ (hi.machine.isTask _ hrun)
  have htss := L.tss_lt
  simp only [TaskSwitch.tssSize] at htss
  -- the stack pointer that the processor loads
  obtain ⟨n, hn⟩ : ∃ n, esp0 s.machine.cpu.mem s.machine.running = n + 68 := ⟨_, (Nat.sub_add_cancel (by omega)).symm⟩
  have htop : load32 (inUserMode s regs eip).mem (u32 (L.toSymbols.tss + 4)) = n + 68 := by
    rw [u32_of_lt (by omega), ← hn]
    exact hrd.tss
  have hlt : n + 68 < 2 ^ 32 := by
    rw [← htop]
    exact load32_lt _ _
  have hent : Entered (inUserMode s regs eip) u n c := entered_eq htop (fun r => (regs r).isLt) eip.isLt
  obtain ⟨hregs, hstate⟩ := registers_eq hent
  refine ⟨?_, ⟨_, _, hregs⟩, hstate, ?_⟩
  · intro x hx
    exact hent.frame x (by omega)
  · rw [hent.esp]
    exact left_eq hent hd (by omega)

end Runs

/-! ## A call of `fork` -/

open Gubos.TaskSwitch (twoTasks booted newTask)

theorem second_runs :
    Runs (Preemption.step .top twoTasks) (Preemption.Own twoTasks) Preemption.started
      [.create 0x4000 newTask, .add 0x4000 .low, .tick 0x400, .tick 0x500] Preemption.ticked :=
  .cons ⟨Or.inr rfl, by decide, rfl⟩ rfl (.cons List.mem_cons_self rfl Preemption.ticked_run)

/-- the second task runs in user mode, with 7 in its registers -/
def user : Cpu := inUserMode Preemption.ticked (fun _ => 7) 0x8048010

def segments : UserSegments := ⟨0x1B, 0x202, 0x23⟩

def inHandler : Cpu := entered twoTasks.toSymbols 0x900 user segments

/-- `syscall_handler` returns, after `fork` -/
def forked : Cpu :=
  { inHandler.set .esp (inHandler.regs .esp + 4) with mem := fork inHandler.mem (inHandler.regs .esp + 12) }

theorem forked_handled : Handled inHandler forked := (@fork_handled inHandler).1

theorem forked_eax : load32 forked.mem (inHandler.regs .esp + 12) = 0xbeef := (@fork_handled inHandler).2

/-- the second task calls `fork`, and goes on with 0xbeef in EAX -/
theorem user_syscall_fork : ∃ eax, eax = 0xbeef ∧ Returned user segments eax (popRegisters forked) := by
  refine ⟨load32 forked.mem (inHandler.regs .esp + 12), forked_eax, ?_⟩
  have h := @user_syscall _ _ _ _ _ 0x900 _ _ _ _ (fun _ => 7) 0x8048010 segments forked Preemption.booted_start
    Preemption.init_started second_runs (by decide +kernel) forked_handled
  unfold inHandler user
  exact h.2.2.2

end Gubos.Syscall
