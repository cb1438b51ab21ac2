/-
Preemptive multitasking: the timer, the scheduler and the task switch in one machine (`interrupts/idt.c`, `sched.c`, `task.c`,
`task_switch.S`).

`timer_irq_handler` calls `sched_context_switch`: the task at the cursor of the ring is taken, the cursor moves one on, and
`do_task_switch` leaves the interrupted task for it. The state is the scheduler's ring, the processor with the tasks in
memory, and `last_pid`; a run interleaves work of the running task, `task_create`, `sched_add` and timer ticks in any order.

- `step_cases`: what one operation does;
- `inv_step`: the task the scheduler takes for the current one is the one that runs, and every task of the ring is suspended
  on its own stack;
- `resumed_within`: a task that is suspended in some state is resumed, with the registers, the stack and the address space it
  has there, at the latest when the timer has ticked once for each task of the ring and once more for each task added;
- `pids_in_order`: the pid of a task is the number of tasks created before it, modulo 2^32, and no operation changes it.

Premises: those of `TaskSwitch` (disjoint stacks and control blocks, 24 bytes left on the stack of the interrupted task). A
task is added to the ring after it was created, and nothing is removed. The ring's nodes are outside of the stacks. The
handler is one step: the timer does not interrupt itself.
-/
import Gubos.Sched.RoundRobin
import Gubos.TaskSwitch

namespace Gubos.Preemption

open Gubos.Core
open Gubos.TaskSwitch (Layout TaskArgs Context contextOf callerContext virtualAddrSpace esp0 tcbSize)

/-! ## The machine -/

structure St where
  sched : Sched.St
  machine : TaskSwitch.St
  /-- `last_pid` of `task_create` -/
  lastPid : BitVec 32
  /-- `SCHED_INIT` -/
  schedInit : Bool

inductive Op where
  /-- the running task computes, on its own stack -/
  | work (regs : Reg → BitVec 32) (mem : Mem)
  | create (task : ℕ) (args : TaskArgs)
  | add (task : ℕ) (priority : Sched.TaskPriority)
  /-- the timer interrupts the running task, which goes on at `retAddr` when it is resumed -/
  | tick (retAddr : BitVec 32)

/-- `task->pid` -/
def pidOf (s : St) (task : ℕ) : ℕ := load32 s.machine.cpu.mem task

/-- `task_create`: `pid = last_pid++`, and the stack and the control block -/
def taskCreate (L : Layout) (s : St) (task : ℕ) (args : TaskArgs) : Except Fault St := do
  let machine ← TaskSwitch.step L s.machine (.create task { args with pid := s.lastPid })
  .ok { s with machine := machine, lastPid := s.lastPid + 1 }

/-- `sched_add` of the control block at `task` -/
def schedAdd (A : Allocator) (s : St) (task : ℕ) (priority : Sched.TaskPriority) : Except Fault St := do
  let sched ← Sched.schedAdd A s.sched ⟨task, pidOf s task⟩ priority
  .ok { s with sched := sched }

/-- `sched_context_switch` -/
def schedContextSwitch (L : Layout) (s : St) (retAddr : BitVec 32) : Except Fault St := do
  let machine ← TaskSwitch.step L s.machine (.switch (Sched.selected s.sched).addr retAddr)
  .ok { s with sched := Sched.schedContextSwitch s.sched, machine := machine }

/-- `timer_irq_handler`, after it has acknowledged the interrupt -/
def timerIrqHandler (L : Layout) (s : St) (retAddr : BitVec 32) : Except Fault St :=
  if s.schedInit then schedContextSwitch L s retAddr else .ok s

def step (A : Allocator) (L : Layout) (s : St) : Op → Except Fault St
  | .work regs mem => do
    let machine ← TaskSwitch.step L s.machine (.work regs mem)
    .ok { s with machine := machine }
  | .create task args => taskCreate L s task args
  | .add task priority => schedAdd A s task priority
  | .tick retAddr => timerIrqHandler L s retAddr

/-- `init_sched`, once its task is created and `CURRENT_TASK` is that task: `b` switches to the task it is -/
def initSched (A : Allocator) (L : Layout) (nodes : ℕ → Sched.TaskList) (arena : Arena) (b : TaskSwitch.St)
    (retAddr : BitVec 32) : Except Fault St := do
  let sched ← Sched.initSched A nodes arena b.running
  let machine ← TaskSwitch.step L b (.switch b.running retAddr)
  .ok ⟨sched, machine, 1, true⟩

/-- the state in which `init_sched` makes its first switch; its task has pid 0 -/
structure Start (L : Layout) (b : TaskSwitch.St) (retAddr : BitVec 32) : Prop where
  boot : TaskSwitch.Boot L b
  room : TaskSwitch.Own L b (.switch b.running retAddr)
  pid : load32 b.cpu.mem b.running = 0

/-- a task writes its own stack only, and has room on it for the handler's call; a new task has a control block and a stack of
its own; a task is added after it was created -/
def Own (L : Layout) (s : St) : Op → Prop
  | .work regs mem => TaskSwitch.Own L s.machine (.work regs mem)
  | .create task args => TaskSwitch.Own L s.machine (.create task args)
  | .add task _ => task ∈ s.machine.tasks
  | .tick _ => L.stackBottom s.machine.running + 24 ≤ s.machine.cpu.regs .esp ∧
      s.machine.cpu.regs .esp ≤ L.stackBottom s.machine.running + L.stackSize s.machine.running

/-- the ticks and the additions of a sequence of operations -/
def ticks : List Op → ℕ
  | [] => 0
  | .tick _ :: ops => ticks ops + 1
  | _ :: ops => ticks ops

def additions : List Op → ℕ
  | [] => 0
  | .add _ _ :: ops => additions ops + 1
  | _ :: ops => additions ops

section Steps

variable {A : Allocator} {L : Layout} {s s' t : St} {o : Op}

/-- what the running machine does in one operation -/
theorem step_cases (hinit : s.schedInit = true) (h : step A L s o = .ok t) :
    (∃ regs mem m, o = .work regs mem ∧ TaskSwitch.step L s.machine (.work regs mem) = .ok m ∧
      t = { s with machine := m }) ∨
    (∃ task args m, o = .create task args ∧
      TaskSwitch.step L s.machine (.create task { args with pid := s.lastPid }) = .ok m ∧
      t = { s with machine := m, lastPid := s.lastPid + 1 }) ∨
    (∃ task priority c, o = .add task priority ∧ Sched.schedAdd A s.sched ⟨task, pidOf s task⟩ priority = .ok c ∧
      t = { s with sched := c }) ∨
    (∃ retAddr m, o = .tick retAddr ∧
      TaskSwitch.step L s.machine (.switch (Sched.selected s.sched).addr retAddr) = .ok m ∧
      t = { s with sched := Sched.schedContextSwitch s.sched, machine := m }) := by
  cases o with
  | work regs mem =>
    obtain ⟨m, hm, ht⟩ := bind_ok.1 h
    cases ht
    exact Or.inl ⟨regs, mem, m, rfl, hm, rfl⟩
  | create task args =>
    obtain ⟨m, hm, ht⟩ := bind_ok.1 h
    cases ht
    exact Or.inr (Or.inl ⟨task, args, m, rfl, hm, rfl⟩)
  | add task priority =>
    obtain ⟨c, hc, ht⟩ := bind_ok.1 h
    cases ht
    exact Or.inr (Or.inr (Or.inl ⟨task, priority, c, rfl, hc, rfl⟩))
  | tick retAddr =>
    simp only [step, timerIrqHandler, hinit, if_true] at h
    obtain ⟨m, hm, ht⟩ := bind_ok.1 h
    cases ht
    exact Or.inr (Or.inr (Or.inr ⟨retAddr, m, rfl, hm, rfl⟩))

/-! ## The scheduler and the processor agree -/

/-- every task of the ring is created; the scheduler's current task is the one that runs -/
structure Inv (L : Layout) (s : St) : Prop where
  machine : TaskSwitch.Inv L s.machine
  ring : ∃ r, Sched.Sim s.sched r ∧ ∀ u ∈ r.items, u.addr ∈ s.machine.tasks
  current : s.machine.running = s.sched.currentTask.addr
  init : s.schedInit = true

theorem Inv.selected_mem (hi : Inv L s) : (Sched.selected s.sched).addr ∈ s.machine.tasks := by
  obtain ⟨r, hs, hmem⟩ := hi.ring
  exact hmem _ (List.mem_of_getElem? hs.selected)

/-- the switch that a tick makes -/
theorem Inv.own_switch (hi : Inv L s) {retAddr : BitVec 32} (hC : Own L s (.tick retAddr)) :
    TaskSwitch.Own L s.machine (.switch (Sched.selected s.sched).addr retAddr) :=
  ⟨hi.selected_mem, hC.1, hC.2⟩

theorem schedAdd_currentTask {s s' : Sched.St} {task : Sched.Task} {priority : Sched.TaskPriority}
    (h : Sched.schedAdd A s task priority = .ok s') : s'.currentTask = s.currentTask := by
  simp only [Sched.schedAdd] at h
  split_ifs at h
  cases h
  rfl

theorem inv_step (hi : Inv L s) (hC : Own L s o) (hok : step A L s o = .ok t) : Inv L t := by
  obtain ⟨r, hsim, hmem⟩ := hi.ring
  rcases step_cases hi.init hok with ⟨regs, mem, m, rfl, hm, rfl⟩ | ⟨task, args, m, rfl, hm, rfl⟩ |
    ⟨task, priority, c, rfl, hc, rfl⟩ | ⟨retAddr, m, rfl, hm, rfl⟩
  · have hown : TaskSwitch.Own L s.machine (.work regs mem) := hC
    have hm' := TaskSwitch.step_inv hi.machine hown hm
    cases hm
    exact ⟨hm', ⟨r, hsim, hmem⟩, hi.current, hi.init⟩
  · have hown : TaskSwitch.Own L s.machine (.create task { args with pid := s.lastPid }) := hC
    have hm' := TaskSwitch.step_inv hi.machine hown hm
    cases hm
    exact ⟨hm', ⟨r, hsim, fun u hu => List.mem_cons_of_mem _ (hmem u hu)⟩, hi.current, hi.init⟩
  · refine ⟨hi.machine, ⟨_, Sched.sim_add hsim hc, fun u hu => ?_⟩, ?_, hi.init⟩
    · simp only [Rotation.step, List.mem_append, List.mem_singleton] at hu
      rcases hu with hu | rfl
      · exact hmem u hu
      · exact hC
    · exact hi.current.trans (congrArg Sched.Task.addr (schedAdd_currentTask hc).symm)
  · have hm' := TaskSwitch.step_inv hi.machine (hi.own_switch hC) hm
    cases hm
    exact ⟨hm', ⟨_, Sched.sim_switch hsim, hmem⟩, rfl, hi.init⟩

theorem inv_init {nodes : ℕ → Sched.TaskList} {arena : Arena} {b : TaskSwitch.St} {retAddr : BitVec 32}
    (hb : Start L b retAddr) (h : initSched A L nodes arena b retAddr = .ok s) : Inv L s := by
  obtain ⟨c, hc, h⟩ := bind_ok.1 h
  obtain ⟨m, hm, h⟩ := bind_ok.1 h
  have hm' := TaskSwitch.step_inv (TaskSwitch.inv_boot hb.boot) hb.room hm
  cases h
  cases hm
  refine ⟨hm', ⟨_, Sched.sim_init hc, fun u hu => ?_⟩, ?_, rfl⟩
  · rw [List.mem_singleton.1 hu, hb.boot.tasks]
    exact List.mem_singleton_self _
  · simp only [Sched.initSched] at hc
    split_ifs at hc
    cases hc
    rfl

/-! ## What a control block keeps -/

/-- the words of a control block that no operation changes: all but `kernel_stack_top` -/
def Kept (task x : ℕ) : Prop := task ≤ x ∧ x < task + tcbSize ∧ ¬ (task + 4 ≤ x ∧ x < task + 8)

theorem step_kept (hi : Inv L s) (hC : Own L s o) (hok : step A L s o = .ok t) {u x : ℕ} (hu : u ∈ s.machine.tasks)
    (hx : Kept u x) : t.machine.cpu.mem x = s.machine.cpu.mem x := by
  obtain ⟨hx1, hx2, hx3⟩ := hx
  have hut := hi.machine.isTask u hu
  have hrt := hi.machine.isTask _ hi.machine.running_mem
  have a1 := L.stack_tcb _ _ hrt hut
  simp only [Tiling.Apart] at a1
  rcases step_cases hi.init hok with ⟨regs, mem, m, rfl, hm, rfl⟩ | ⟨task, args, m, rfl, hm, rfl⟩ |
    ⟨task, priority, c, rfl, hc, rfl⟩ | ⟨retAddr, m, rfl, hm, rfl⟩
  · cases hm
    exact hC x (by omega)
  · cases hm
    obtain ⟨htask, hnew, hsize⟩ := hC
    have hne : u ≠ task := fun he => hnew (he ▸ hu)
    have a2 := L.tcb_tcb _ _ hut htask hne
    have a3 := L.stack_tcb _ _ htask hut
    have hle := L.stack_le task htask
    rw [hsize] at a3 hle
    simp only [Tiling.Apart] at a2 a3
    exact TaskSwitch.taskCreate_of_outside hle (by omega) (by omega)
  · rfl
  · cases hm
    have hsw := TaskSwitch.switched_of_own hi.machine (hi.own_switch hC)
    have a2 := L.currentTask_tcb u hut
    have a3 := L.tss_tcb u hut
    have a4 : u = s.machine.running ∨ Tiling.Apart (u, tcbSize) (s.machine.running, tcbSize) :=
      or_iff_not_imp_left.2 fun hne => L.tcb_tcb _ _ hut hrt hne
    simp only [Tiling.Apart, tcbSize, TaskSwitch.taskListSize, TaskSwitch.tssSize] at a1 a2 a3 a4 hx2
    exact hsw.frame x (by omega) (by omega) (by omega) (by omega)

/-- a word of a control block that is kept -/
theorem step_word (hi : Inv L s) (hC : Own L s o) (hok : step A L s o = .ok t) {u k : ℕ} (hu : u ∈ s.machine.tasks)
    (hk : k = 0 ∨ k = 8 ∨ k = 12) : load32 t.machine.cpu.mem (u + k) = load32 s.machine.cpu.mem (u + k) := by
  refine load32_congr fun x h1 h2 => step_kept hi hC hok hu ⟨by omega, ?_, by omega⟩
  unfold tcbSize
  omega

theorem step_tasks (hi : Inv L s) (hok : step A L s o = .ok t) {u : ℕ} (hu : u ∈ s.machine.tasks) :
    u ∈ t.machine.tasks := by
  rcases step_cases hi.init hok with ⟨regs, mem, m, rfl, hm, rfl⟩ | ⟨task, args, m, rfl, hm, rfl⟩ |
    ⟨task, priority, c, rfl, hc, rfl⟩ | ⟨retAddr, m, rfl, hm, rfl⟩
  · cases hm
    exact hu
  · cases hm
    exact List.mem_cons_of_mem _ hu
  · exact hu
  · cases hm
    exact hu

end Steps

/-! ## Every task has its turn -/

section Turns

variable {A : Allocator} {L : Layout} {s s₀ s' v : St} {ops ops' : List Op} {t : Sched.Task} {retAddr : BitVec 32}

/-- `v` is the machine just after the task at `task`, which is suspended in `s`, was resumed: its registers, its stack and the
place where it goes on are those saved for it in `s`, and `CURRENT_TASK`, CR3 and ESP0 of the TSS are those of its control
block in `s` -/
structure Resumed (L : Layout) (s v : St) (task : ℕ) : Prop where
  context : contextOf v.machine.cpu = s.machine.saved task
  current : load32 v.machine.cpu.mem L.currentTask = task
  cr3 : v.machine.cpu.cr3 = virtualAddrSpace s.machine.cpu.mem task
  tssEsp0 : load32 v.machine.cpu.mem (L.tss + 4) = esp0 s.machine.cpu.mem task

/-- a tick that selects a suspended task resumes it -/
theorem resumed_tick (hi : Inv L s) (hC : Own L s (.tick retAddr)) (hok : step A L s (.tick retAddr) = .ok v)
    (hne : (Sched.selected s.sched).addr ≠ s.machine.running) : Resumed L s v (Sched.selected s.sched).addr := by
  have hword := fun k hk => step_word hi hC hok (k := k) hi.selected_mem hk
  rcases step_cases hi.init hok with ⟨_, _, _, ho, _⟩ | ⟨_, _, _, ho, _⟩ | ⟨_, _, _, ho, _⟩ | ⟨_, m, ho, hm, rfl⟩
  · cases ho
  · cases ho
  · cases ho
  · cases ho
    cases hm
    have hown := hi.own_switch hC
    have hsw := TaskSwitch.switched_of_own hi.machine hown
    refine ⟨?_, hsw.current, ?_, ?_⟩
    · have hctx := TaskSwitch.context_switch hi.machine hown hsw
      rw [Function.update_of_ne hne] at hctx
      exact hctx
    · exact hsw.cr3.trans (hword 8 (by simp))
    · exact hsw.tssEsp0.trans (hword 12 (by simp))

/-- as long as a suspended task is not selected, it stays suspended, with the context it has -/
theorem saved_step (hi : Inv L s) {o : Op} (hok : step A L s o = .ok v) {task : ℕ} (hC : Own L s o)
    (htask : task ∈ s.machine.tasks) (hne : task ≠ s.machine.running)
    (hsel : ∀ retAddr, o = .tick retAddr → (Sched.selected s.sched).addr ≠ task) :
    v.machine.saved task = s.machine.saved task ∧ task ≠ v.machine.running := by
  rcases step_cases hi.init hok with ⟨regs, mem, m, rfl, hm, rfl⟩ | ⟨new, args, m, rfl, hm, rfl⟩ |
    ⟨new, priority, c, rfl, hc, rfl⟩ | ⟨retAddr, m, rfl, hm, rfl⟩
  · cases hm
    exact ⟨rfl, hne⟩
  · cases hm
    have hnew : task ≠ new := fun he => hC.2.1 (he ▸ htask)
    exact ⟨Function.update_of_ne hnew _ _, hne⟩
  · exact ⟨rfl, hne⟩
  · cases hm
    exact ⟨Function.update_of_ne hne _ _, (hsel retAddr rfl).symm⟩

theorem Resumed.of_step {u : St} {o : Op} {task : ℕ} (hi : Inv L s) (hC : Own L s o) (hok : step A L s o = .ok u)
    (htask : task ∈ s.machine.tasks) (hsaved : u.machine.saved task = s.machine.saved task) (h : Resumed L u v task) :
    Resumed L s v task where
  context := h.context.trans hsaved
  current := h.current
  cr3 := h.cr3.trans (step_word hi hC hok htask (by simp))
  tssEsp0 := h.tssEsp0.trans (step_word hi hC hok htask (by simp))

/-- a tick of the run, before and after which it goes on, resumes the task as it is suspended in `s` -/
def ResumedIn (A : Allocator) (L : Layout) (s : St) (ops : List Op) (s' : St) (task : ℕ) : Prop :=
  ∃ pre retAddr post u v, ops = pre ++ .tick retAddr :: post ∧ Runs (step A L) (Own L) s pre u ∧
    step A L u (.tick retAddr) = .ok v ∧ Runs (step A L) (Own L) v post s' ∧ Resumed L s v task

theorem ResumedIn.cons {u : St} {o : Op} {task : ℕ} (hi : Inv L s) (hC : Own L s o) (hok : step A L s o = .ok u)
    (htask : task ∈ s.machine.tasks) (hsaved : u.machine.saved task = s.machine.saved task)
    (h : ResumedIn A L u ops s' task) : ResumedIn A L s (o :: ops) s' task := by
  obtain ⟨pre, retAddr, post, w, v, rfl, hpre, htick, hpost, hres⟩ := h
  exact ⟨o :: pre, retAddr, post, w, v, rfl, .cons hC hok hpre, htick, hpost, hres.of_step hi hC hok htask hsaved⟩

/-- the turn of the task at index `i` comes: its wait shrinks with every tick that selects another task, and grows with
additions only -/
theorem resumedIn_of_wait {r : Rotation.Rota Sched.Task} {i : ℕ} (hr : Runs (step A L) (Own L) s ops s') (hi : Inv L s)
    (hsim : Sched.Sim s.sched r) (hitem : r.items[i]? = some t) (htask : t.addr ∈ s.machine.tasks)
    (hne : t.addr ≠ s.machine.running) (hwait : Rotation.wait r i + additions ops < ticks ops) :
    ResumedIn A L s ops s' t.addr := by
  induction hr generalizing r with
  | nil s => simp [ticks] at hwait
  | @cons s u s' o ops hC hok hrest ih =>
    have hi' := inv_step hi hC hok
    have htask' := step_tasks hi hok htask
    by_cases hsel : ∃ retAddr, o = .tick retAddr ∧ (Sched.selected s.sched).addr = t.addr
    · obtain ⟨retAddr, rfl, hsel⟩ := hsel
      refine ⟨[], retAddr, ops, s, u, rfl, .nil s, hok, hrest, ?_⟩
      rw [← hsel]
      exact resumed_tick hi hC hok (hsel ▸ hne)
    · obtain ⟨hsaved, hne'⟩ := saved_step hi hok hC htask hne fun retAddr ho he => hsel ⟨retAddr, ho, he⟩
      refine ResumedIn.cons hi hC hok htask hsaved ?_
      rcases step_cases hi.init hok with ⟨regs, mem, m, rfl, hm, rfl⟩ | ⟨new, args, m, rfl, hm, rfl⟩ |
        ⟨new, priority, c, rfl, hc, rfl⟩ | ⟨retAddr, m, rfl, hm, rfl⟩
      · exact ih hi' hsim hitem htask' hne' hwait
      · exact ih hi' hsim hitem htask' hne' hwait
      · refine ih hi' (Sched.sim_add hsim hc) (Rotation.items_getElem hitem _) htask' hne' ?_
        have hpush := Rotation.wait_push r ⟨new, pidOf s new⟩ i
        simp only [additions, ticks] at hwait
        omega
      · refine ih hi' (Sched.sim_switch hsim) (Rotation.items_getElem hitem _) htask' hne' ?_
        have hpos : i ≠ r.pos := by
          intro he
          rw [he, hsim.selected, Option.some.injEq] at hitem
          exact hsel ⟨retAddr, rfl, congrArg Sched.Task.addr hitem⟩
        have hpick := Rotation.wait_pick hsim.pos_lt (List.getElem?_eq_some_iff.1 hitem).1 hpos
        simp only [additions, ticks] at hwait
        omega

variable {nodes : ℕ → Sched.TaskList} {arena : Arena} {b : TaskSwitch.St} {l : List (ℕ × Sched.Task)}

/-- **Every task has its turn, and goes on where it was.** Let `s` be any state that the machine reaches from `init_sched` by
work of the tasks, creations, additions and ticks in any order, and let `t` be a task of the ring that is suspended in `s`.
In every continuation with as many ticks as there are tasks in the ring in `s`, and one more for each addition, one of the
ticks resumes `t` with the registers, stack pointer and return address saved for it in `s`, in its own address space. -/
theorem resumed_within (hb : Start L b retAddr) (h₀ : initSched A L nodes arena b retAddr = .ok s₀)
    (hr : Runs (step A L) (Own L) s₀ ops s) (hr' : Runs (step A L) (Own L) s ops' s') (hl : Sched.Ring s.sched l)
    (ht : t ∈ l.map Prod.snd) (hne : t.addr ≠ s.machine.running) (hticks : l.length + additions ops' ≤ ticks ops') :
    ResumedIn A L s ops' s' t.addr := by
  have hi : Inv L s := hr.inv (fun _ _ _ => inv_step) (inv_init hb h₀)
  obtain ⟨r, hsim, hmem⟩ := hi.ring
  have hitems : l.map Prod.snd = r.items := by
    obtain ⟨l', hl', hm, _⟩ := hsim
    rw [Sched.ring_unique hl hl', hm]
  rw [hitems] at ht
  obtain ⟨i, hitem⟩ := List.getElem?_of_mem ht
  have hwait := Rotation.wait_lt hsim.pos_lt (List.getElem?_eq_some_iff.1 hitem).1
  have hlen : r.items.length = l.length := by rw [← hitems, List.length_map]
  exact resumedIn_of_wait hr' hi hsim hitem (hmem t ht) hne (by omega)

end Turns

/-! ## Pids -/

section Pids

variable {A : Allocator} {L : Layout} {s s₀ t : St} {o : Op} {ops : List Op} {retAddr : BitVec 32}

/-- the pid that `task_create` writes -/
theorem taskCreate_pid (mem : Mem) (task top : ℕ) (args : TaskArgs) :
    load32 (TaskSwitch.taskCreate mem task top args) task = args.pid.toNat := by
  have hpid := args.pid.isLt
  simp only [TaskSwitch.taskCreate, TaskSwitch.writeControlBlock]
  simp (disch := omega) only [load32_store32_ne, load32_store32]

/-- the k-th task created has pid k, as far as 32 bits go, and the ring's tasks have the pids of their control blocks -/
structure Numbered (s : St) : Prop where
  order : ∀ k u, s.machine.tasks.reverse[k]? = some u → pidOf s u = k % 2 ^ 32
  next : s.lastPid.toNat = s.machine.tasks.length % 2 ^ 32
  nodup : s.machine.tasks.Nodup
  ring : ∃ r, Sched.Sim s.sched r ∧ ∀ u ∈ r.items, u.addr ∈ s.machine.tasks ∧ u.pid = pidOf s u.addr

/-- the next pid is one more, in 32 bits -/
theorem lastPid_succ (hn : Numbered s) : (s.lastPid + 1).toNat = (s.machine.tasks.length + 1) % 2 ^ 32 := by
  rw [BitVec.toNat_add, hn.next]
  simp

theorem numbered_step (hi : Inv L s) (hn : Numbered s) (hC : Own L s o) (hok : step A L s o = .ok t) : Numbered t := by
  have hpid : ∀ u ∈ s.machine.tasks, pidOf t u = pidOf s u := by
    intro u hu
    exact step_word hi hC hok (k := 0) hu (Or.inl rfl)
  have hring : ∀ r : Rotation.Rota Sched.Task,
      (∀ u ∈ r.items, u.addr ∈ s.machine.tasks ∧ u.pid = pidOf s u.addr) →
      ∀ u ∈ r.items, u.addr ∈ t.machine.tasks ∧ u.pid = pidOf t u.addr := by
    intro r hr u hu
    obtain ⟨hmem, hp⟩ := hr u hu
    exact ⟨step_tasks hi hok hmem, hp.trans (hpid _ hmem).symm⟩
  have horder : ∀ k u, s.machine.tasks.reverse[k]? = some u → pidOf t u = k % 2 ^ 32 := by
    intro k u hu
    rw [hpid u (List.mem_reverse.1 (List.mem_of_getElem? hu))]
    exact hn.order k u hu
  obtain ⟨r, hsim, hr⟩ := hn.ring
  rcases step_cases hi.init hok with ⟨regs, mem, m, rfl, hm, rfl⟩ | ⟨task, args, m, rfl, hm, rfl⟩ |
    ⟨task, priority, c, rfl, hc, rfl⟩ | ⟨retAddr, m, rfl, hm, rfl⟩
  · cases hm
    exact ⟨horder, hn.next, hn.nodup, r, hsim, hring r hr⟩
  · cases hm
    refine ⟨?_, lastPid_succ hn, List.nodup_cons.2 ⟨hC.2.1, hn.nodup⟩, r, hsim, hring r hr⟩
    intro k u hu
    simp only [List.reverse_cons] at hu
    by_cases hk : k < s.machine.tasks.reverse.length
    · rw [List.getElem?_append_left hk] at hu
      exact horder k u hu
    · -- the new task is the last of the list
      rw [List.getElem?_append_right (Nat.le_of_not_lt hk), List.length_reverse] at hu
      obtain ⟨hlt, hget⟩ := List.getElem?_eq_some_iff.1 hu
      simp only [List.length_singleton, List.length_reverse] at hlt hk
      have hke : k = s.machine.tasks.length := by omega
      simp only [List.getElem_singleton] at hget
      rw [← hget, hke, ← hn.next]
      exact taskCreate_pid _ _ _ _
  · refine ⟨horder, hn.next, hn.nodup, _, Sched.sim_add hsim hc, ?_⟩
    intro u hu
    simp only [Rotation.step, List.mem_append, List.mem_singleton] at hu
    rcases hu with hu | rfl
    · exact hr u hu
    · exact ⟨hC, rfl⟩
  · cases hm
    exact ⟨horder, hn.next, hn.nodup, _, Sched.sim_switch hsim, hring r hr⟩

theorem numbered_init {nodes : ℕ → Sched.TaskList} {arena : Arena} {b : TaskSwitch.St} (hb : Start L b retAddr)
    (h : initSched A L nodes arena b retAddr = .ok s) : Numbered s := by
  obtain ⟨c, hc, h⟩ := bind_ok.1 h
  obtain ⟨m, hm, h⟩ := bind_ok.1 h
  cases h
  cases hm
  have hrun := hb.boot.isTask
  have hsw := TaskSwitch.switched_of_own (TaskSwitch.inv_boot hb.boot) hb.room
  have hzero : load32 (TaskSwitch.doTaskSwitch L.toSymbols (TaskSwitch.call b.cpu b.running retAddr.toNat)).mem b.running =
      0 := by
    have a1 := L.stack_tcb _ _ hrun hrun
    have a2 := L.currentTask_tcb _ hrun
    have a3 := L.tss_tcb _ hrun
    simp only [Tiling.Apart, tcbSize, TaskSwitch.taskListSize, TaskSwitch.tssSize] at a1 a2 a3
    rw [← hb.pid]
    refine load32_congr ?_
    intro x h1 h2
    exact hsw.frame x (by omega) (by omega) (by omega) (by omega)
  have htasks := hb.boot.tasks
  refine ⟨?_, ?_, ?_, _, Sched.sim_init hc, ?_⟩
  · intro k u hu
    simp only [htasks, List.reverse_singleton] at hu
    obtain ⟨hlt, rfl⟩ := List.getElem?_eq_some_iff.1 hu
    simp only [List.length_singleton] at hlt
    have hk : k = 0 := by omega
    subst hk
    exact hzero
  · simp [htasks]
  · simp [htasks]
  · intro u hu
    rw [List.mem_singleton.1 hu, htasks]
    exact ⟨List.mem_singleton_self _, hzero.symm⟩

/-- **Pids count the tasks.** In every state that the machine reaches: the k-th task created, `init_sched`'s being the 0th,
has pid k modulo 2^32 in its control block, and so has its entry in the ring. While no more than 2^32 tasks have been created
no two of them have the same pid. -/
theorem pids_in_order {nodes : ℕ → Sched.TaskList} {arena : Arena} {b : TaskSwitch.St} (hb : Start L b retAddr)
    (h₀ : initSched A L nodes arena b retAddr = .ok s₀) (hr : Runs (step A L) (Own L) s₀ ops s) :
    (∀ k u, s.machine.tasks.reverse[k]? = some u → pidOf s u = k % 2 ^ 32) ∧
      (∀ l, Sched.Ring s.sched l → ∀ u ∈ l.map Prod.snd, u.addr ∈ s.machine.tasks ∧ u.pid = pidOf s u.addr) ∧
      (s.machine.tasks.length ≤ 2 ^ 32 → (s.machine.tasks.map (pidOf s)).Nodup) := by
  obtain ⟨hi, hn⟩ : Inv L s ∧ Numbered s := by
    refine hr.inv (P := fun s => Inv L s ∧ Numbered s) ?_ ⟨inv_init hb h₀, numbered_init hb h₀⟩
    rintro s o t ⟨hi, hn⟩ hC hok
    exact ⟨inv_step hi hC hok, numbered_step hi hn hC hok⟩
  refine ⟨hn.order, ?_, ?_⟩
  · intro l hl
    obtain ⟨r, ⟨l', hl', hm, _⟩, hmem⟩ := hn.ring
    rw [Sched.ring_unique hl hl', hm]
    exact hmem
  · intro hlen
    rw [← List.nodup_reverse, ← List.map_reverse, List.nodup_iff_injective_get]
    intro i j hij
    have hpid : ∀ i : Fin (s.machine.tasks.reverse.map (pidOf s)).length,
        (s.machine.tasks.reverse.map (pidOf s)).get i = i := by
      intro i
      have hi : (i : ℕ) < s.machine.tasks.reverse.length := by simpa using i.isLt
      have hlt : (i : ℕ) < 2 ^ 32 := by
        rw [List.length_reverse] at hi
        exact hi.trans_le hlen
      rw [List.get_eq_getElem, List.getElem_map, hn.order i _ (List.getElem?_eq_getElem hi), Nat.mod_eq_of_lt hlt]
    rw [hpid i, hpid j] at hij
    exact Fin.ext hij

end Pids

/-! ## Two tasks -/

open Gubos.TaskSwitch (twoTasks booted booted_boot newTask)

theorem booted_start : Start twoTasks booted 0x300 :=
  ⟨booted_boot, ⟨by decide, by decide, by decide⟩, by decide⟩

/-- the machine after `init_sched`, and after a second task was created and added -/
def started : St :=
  returned ⟨Sched.start, booted, 0, false⟩ (initSched .top twoTasks Sched.blank .empty booted 0x300)

theorem init_started : initSched .top twoTasks Sched.blank .empty booted 0x300 = .ok started := rfl

def added : St := returned started (Runs.exec (step .top twoTasks) started [.create 0x4000 newTask, .add 0x4000 .low])

theorem added_run :
    Runs (step .top twoTasks) (Own twoTasks) started [.create 0x4000 newTask, .add 0x4000 .low] added :=
  .cons ⟨Or.inr rfl, by decide, rfl⟩ rfl (.cons (List.mem_cons_self) rfl (.nil _))

def ticked : St := returned added (Runs.exec (step .top twoTasks) added [.tick 0x400, .tick 0x500])

theorem ticked_run : Runs (step .top twoTasks) (Own twoTasks) added [.tick 0x400, .tick 0x500] ticked :=
  .cons ⟨by decide +kernel, by decide +kernel⟩ rfl (.cons ⟨by decide +kernel, by decide +kernel⟩ rfl (.nil _))

theorem added_ring : Sched.Ring added.sched [(1, ⟨0x3000, 0⟩), (2, ⟨0x4000, 1⟩)] :=
  ⟨by decide +kernel, by decide +kernel, by decide, by decide +kernel⟩

/-- two ticks: the second task has had its turn -/
theorem resumed_within_second :
    ResumedIn .top twoTasks added [.tick 0x400, .tick 0x500] ticked 0x4000 :=
  resumed_within booted_start init_started added_run ticked_run added_ring (t := ⟨0x4000, 1⟩) (by simp) (by decide +kernel)
    (by decide)

/-- the second task has pid 1 -/
theorem pids_in_order_second : pidOf added 0x4000 = Sched.initPid ∧ (added.machine.tasks.map (pidOf added)).Nodup := by
  obtain ⟨horder, _, hnodup⟩ := pids_in_order booted_start init_started added_run
  exact ⟨horder 1 0x4000 rfl, hnodup (by decide)⟩

end Gubos.Preemption
