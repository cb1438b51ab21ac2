/-
How tasks leave the scheduler (`syscall/syscall.c`, `syscall/exit.c`, `task.c`).

`sched_remove` has two callers: the system call `exit`, and the return of a task function, which `task_create` makes return into
`sched_remove` with the pid of the task. Both remove the task that runs, and both go on in it when `sched_remove` returns. A run
interleaves additions, ticks, system calls of the running task and returns of its function.

- `calls_run`: such a run is a run of the ring in which every removal is of the current task;
- `settled_step`: if the running task is at the tail of the ring, the cursor is at the head. So the removals of these callers
  never leave the cursor on a removed node, though `sched_remove` does not look at the cursor;
- `departed_never_runs`: a task whose `exit` or return came back is never selected again, and `sched_remove` never comes back
  from a call with the pid of the first task or of init;
- `departure_stops_others`: after an exit or a return that came back, every tick selects the first task, until a task is added:
  the other tasks of the ring are lost with the one that left.

A run has only calls that come back: `sched_remove` spins for a task that is not at the tail (`Sched.middle_never_removed`), and
the run ends there. A task is added once, and pids are distinct (`Preemption.pids_in_order`). `fork` only sets a register of its
caller.
-/
import Gubos.Sched.Termination

namespace Gubos.Sched.Exit

open Gubos.Core

/-! ## System calls -/

/-- why a system call does not come back -/
inductive Trap where
  /-- `exit`: "init task exited" -/
  | initTaskExited
  /-- `syscall_handler`: "unknown syscall %d" -/
  | unknownSyscall (num : ℕ)
  | fault (f : Fault)
deriving DecidableEq, Repr

/-- `SYS_EXIT`, `SYS_FORK` -/
def sysExit : ℕ := 1
def sysFork : ℕ := 2

/-- a fault of the scheduler -/
def faults {α : Type} (x : Except Fault α) : Except Trap α := x.mapError .fault

theorem faults_ok {α : Type} {x : Except Fault α} {a : α} : faults x = .ok a ↔ x = .ok a := by
  cases x with
  | error e => simp [faults, Except.mapError]
  | ok b => simp [faults, Except.mapError]

/-- `exit`; `parent` is what the control blocks have as `parent` -/
def exit (parent : ℕ → ℕ) (s : St) : Except Trap St :=
  let pid := s.currentTask.pid
  if parent s.currentTask.addr = 0 then .error .initTaskExited
  else faults (schedRemove s pid)

/-- `syscall_handler`, as far as the scheduler is concerned -/
def syscallHandler (parent : ℕ → ℕ) (s : St) (syscallNum : ℕ) : Except Trap St :=
  if syscallNum = sysExit then exit parent s
  else if syscallNum = sysFork then .ok s
  else .error (.unknownSyscall syscallNum)

inductive Op where
  | add (task : Task) (priority : TaskPriority)
  | tick
  /-- a system call of the running task, with its number in EAX -/
  | syscall (num : ℕ)
  /-- the function of the running task returns, into `sched_remove` with the pid that `task_create` left on its stack -/
  | taskReturn
deriving DecidableEq, Repr

section Machine

variable (A : Allocator) (parent : ℕ → ℕ)

def step (s : St) : Op → Except Trap St
  | .add task priority => faults (schedAdd A s task priority)
  | .tick => .ok (schedContextSwitch s)
  | .syscall num => syscallHandler parent s num
  | .taskReturn => faults (schedRemove s s.currentTask.pid)

/-- what a step asks of the scheduler -/
def call (s : St) : Op → List Sched.Op
  | .add task priority => [.add task priority]
  | .tick => [.contextSwitch]
  | .syscall num => if num = sysExit then [.remove s.currentTask.pid] else []
  | .taskReturn => [.remove s.currentTask.pid]

def calls (s : St) : List Op → List Sched.Op
  | [] => []
  | o :: ops =>
    call s o ++
      match step A parent s o with
      | .ok t => calls t ops
      | .error _ => []

/-- the tasks selected by the ticks of a run -/
def selections (s : St) : List Op → List Task
  | [] => []
  | o :: ops =>
    (if o = .tick then [selected s] else []) ++
      match step A parent s o with
      | .ok t => selections t ops
      | .error _ => []

end Machine

/-- the tasks that a sequence of operations adds -/
def added : List Op → List Task
  | [] => []
  | .add task _ :: ops => task :: added ops
  | _ :: ops => added ops

/-- only the current task is removed -/
def OfCurrent (s : St) (o : Sched.Op) : Prop := ∀ pid, o = .remove pid → pid = s.currentTask.pid

section Calls

variable {A : Allocator} {parent : ℕ → ℕ} {s s' : St} {o : Op} {ops : List Op}

/-- a step asks the scheduler for one operation, or leaves it as it is -/
theorem call_step (hok : step A parent s o = .ok s') :
    (∃ c, call s o = [c] ∧ OfCurrent s c ∧ Sched.step A s c = .ok s') ∨ (call s o = [] ∧ s' = s) := by
  cases o with
  | add task priority =>
    refine Or.inl ⟨_, rfl, ?_, faults_ok.1 hok⟩
    intro pid h
    cases h
  | tick =>
    cases hok
    refine Or.inl ⟨_, rfl, ?_, rfl⟩
    intro pid h
    cases h
  | syscall num =>
    simp only [step, syscallHandler, exit] at hok
    split_ifs at hok with hexit hpar hfork
    · refine Or.inl ⟨.remove s.currentTask.pid, by simp [call, hexit], ?_, faults_ok.1 hok⟩
      intro pid h
      cases h
      rfl
    · cases hok
      exact Or.inr ⟨by simp [call, hexit], rfl⟩
  | taskReturn =>
    refine Or.inl ⟨_, rfl, ?_, faults_ok.1 hok⟩
    intro pid h
    cases h
    rfl

theorem added_call (s : St) (o : Op) : Sched.added (call s o) = added [o] := by
  cases o with
  | syscall num =>
    simp only [call]
    split_ifs <;> rfl
  | _ => rfl

theorem calls_run {C : St → Op → Prop} (hr : Runs (step A parent) C s ops s') :
    Runs (Sched.step A) OfCurrent s (calls A parent s ops) s' ∧ Sched.added (calls A parent s ops) = added ops := by
  induction hr with
  | nil s => exact ⟨.nil s, rfl⟩
  | @cons s t u o ops _ hok _ ih =>
    obtain ⟨hrun, hadd⟩ := ih
    have hcalls : calls A parent s (o :: ops) = call s o ++ calls A parent t ops := by simp only [calls, hok]
    have hnew : added (o :: ops) = added [o] ++ added ops := by cases o <;> rfl
    rw [hcalls, hnew]
    refine ⟨?_, ?_⟩
    · rcases call_step hok with ⟨c, hc, hcur, hstep⟩ | ⟨hc, rfl⟩
      · rw [hc]
        exact .cons hcur hstep hrun
      · rw [hc]
        exact hrun
    · rw [Sched.added_append, added_call, hadd]

end Calls

/-! ## The cursor, when the running task leaves -/

section Cursor

variable {A : Allocator} {s s₀ s' : St} {l : List (ℕ × Task)} {addr : ℕ} {ops : List Sched.Op} {mem : ℕ → TaskList}
  {arena : Arena}

/-- the ring with distinct pids; if the current task is at the tail, the cursor is at the head -/
structure Settled (addr : ℕ) (ops : List Sched.Op) (s : St) (l : List (ℕ × Task)) : Prop where
  onRing : OnRing addr ops s l
  cursor : s.tasksSchedHead ∈ ptrs l
  nodup : (l.map fun c => c.2.pid).Nodup
  current : s.currentTask ∈ (⟨addr, 0⟩ : Task) :: Sched.added ops
  atTail : (s.nodes s.tasksTail).task.pid = s.currentTask.pid → s.tasksSchedHead = s.tasksHead

/-- in a ring with distinct pids the pid determines the node -/
theorem Settled.node_eq (h : Settled addr ops s l) {p q : ℕ} (hp : p ∈ ptrs l) (hq : q ∈ ptrs l)
    (he : (s.nodes p).task.pid = (s.nodes q).task.pid) : p = q := by
  obtain ⟨c, hc, rfl⟩ := List.mem_map.1 hp
  obtain ⟨d, hd, rfl⟩ := List.mem_map.1 hq
  have hr := h.onRing.headed.1
  rw [hr.task_eq hc, hr.task_eq hd] at he
  exact congrArg Prod.fst (List.inj_on_of_nodup_map h.nodup hc hd he)

theorem schedAdd_tail {task : Task} {priority : TaskPriority} (h : schedAdd A s task priority = .ok s') {l' : List (ℕ × Task)}
    (hr : Ring s' (l' ++ [(s'.tasksTail, task)])) :
    (s'.nodes s'.tasksTail).task = task ∧ s'.currentTask = s.currentTask := by
  refine ⟨hr.task_eq (c := (s'.tasksTail, task)) (by simp), ?_⟩
  simp only [schedAdd] at h
  split_ifs at h
  cases h
  rfl

theorem schedRemove_currentTask {pid : ℕ} (h : schedRemove s pid = .ok s') : s'.currentTask = s.currentTask := by
  have hloop : ∀ fuel prev, schedRemoveLoop s pid fuel prev = .ok s' → s'.currentTask = s.currentTask := by
    intro fuel
    induction fuel with
    | zero =>
      intro prev hl
      cases hl
    | succ fuel ih =>
      intro prev hl
      simp only [schedRemoveLoop] at hl
      split_ifs at hl
      · cases hl
        rfl
      · cases hl
        rfl
      · exact ih _ hl
  simp only [schedRemove] at h
  split_ifs at h
  · cases h
    rfl
  · exact hloop _ _ h

/-- **One step.** Removing the current task keeps the cursor off the removed node. -/
theorem settled_step {o : Sched.Op} (h : Settled addr ops s l)
    (hnd : (0 :: (Sched.added (ops ++ [o])).map Task.pid).Nodup) (hC : OfCurrent s o) (hok : Sched.step A s o = .ok s') :
    ∃ l', Settled addr (ops ++ [o]) s' l' := by
  have hcur : CursorAtHead s o := by
    cases o with
    | remove pid =>
      intro htail
      exact h.atTail (htail.trans (hC pid rfl))
    | _ => trivial
  obtain ⟨l', h'⟩ := onRing_step h.onRing hnd hok
  obtain ⟨m, hm, hcursor⟩ := cursor_step h.onRing.headed h.cursor hcur hok
  rw [ring_unique hm.1 h'.headed.1] at hcursor
  suffices hrest : (l'.map fun c => c.2.pid).Nodup ∧ s'.currentTask ∈ (⟨addr, 0⟩ : Task) :: Sched.added (ops ++ [o]) ∧
      ((s'.nodes s'.tasksTail).task.pid = s'.currentTask.pid → s'.tasksSchedHead = s'.tasksHead) from
    ⟨l', h', hcursor, hrest.1, hrest.2.1, hrest.2.2⟩
  have hring := h'.headed.1
  rcases headed_step h.onRing.headed hok with
    ⟨t, p, rfl, hl', hc, _⟩ | ⟨rfl, hl', rfl⟩ | ⟨t, pre, u, rfl, hu, rfl, ht, hl', hc, hh⟩
  · rw [ring_unique hring hl'.1]
    obtain ⟨htail, hsame⟩ := schedAdd_tail hok hl'.1
    simp only [Sched.added_append, Sched.added, List.map_append, List.map_cons, List.map_nil, List.nodup_cons,
      List.mem_append, List.mem_singleton, not_or, List.nodup_append] at hnd
    -- the pid of the new task is none of those before it
    have hnew : ∀ u ∈ (⟨addr, 0⟩ : Task) :: Sched.added ops, u.pid ≠ t.pid := by
      intro u hu
      rcases List.mem_cons.1 hu with rfl | hu
      · exact hnd.1.2
      · exact hnd.2.2.2 u.pid (List.mem_map_of_mem hu) t.pid rfl
    refine ⟨?_, ?_, ?_⟩
    · rw [List.map_append, List.nodup_append]
      refine ⟨h.nodup, by simp, ?_⟩
      intro a ha b hb
      obtain ⟨c, hcl, rfl⟩ := List.mem_map.1 ha
      simp only [List.map_cons, List.map_nil, List.mem_singleton] at hb
      rw [hb]
      exact hnew _ (h.onRing.mem c hcl)
    · rw [hsame, Sched.added_append, ← List.cons_append]
      exact List.mem_append_left _ h.current
    · intro he
      rw [htail, hsame] at he
      exact absurd he.symm (hnew _ h.current)
  · rw [ring_unique hring hl'.1]
    refine ⟨h.nodup, ?_, ?_⟩
    · obtain ⟨c, hcl, he⟩ := List.mem_map.1 h.cursor
      have hsel : selected s = c.2 := by
        rw [selected, ← he]
        exact h.onRing.headed.1.task_eq hcl
      simp only [schedContextSwitch, hsel, Sched.added_append, Sched.added, List.append_nil]
      exact h.onRing.mem c hcl
    · intro he
      have htail : s.tasksTail ∈ ptrs l := by
        obtain ⟨pre, t, rfl⟩ := h.onRing.headed.1.eq_snoc
        simp
      have hnode := h.node_eq htail h.cursor he
      simp only [schedContextSwitch, ← hnode]
      exact h.onRing.headed.1.tail_next
  · rw [ring_unique hring hl'.1]
    have hsame := schedRemove_currentTask hok
    have hpid := hC u.pid rfl
    refine ⟨by simp, ?_, ?_⟩
    · rw [hsame]
      simpa [Sched.added_append, Sched.added] using h.current
    · intro he
      have htail : (s'.nodes s'.tasksTail).task = t := by
        have hlast := hl'.1.last
        simp only [ptrs_cons, ptrs_nil, List.getLast?_singleton, Option.some.injEq] at hlast
        rw [← hlast]
        exact hl'.1.task_eq (c := (s.tasksHead, t)) (by simp)
      rw [htail, hsame, ht, ← hpid] at he
      exact absurd he.symm hu

theorem settled_run (h₀ : initSched A mem arena addr = .ok s₀) (hr : Runs (Sched.step A) OfCurrent s₀ ops s)
    (hnd : (0 :: (Sched.added ops).map Task.pid).Nodup) : ∃ l, Settled addr ops s l := by
  have hrun : (0 :: (Sched.added ops).map Task.pid).Nodup → ∃ l, Settled addr ops s l := by
    refine hr.inv_trace (p := [])
      (P := fun ops s => (0 :: (Sched.added ops).map Task.pid).Nodup → ∃ l, Settled addr ops s l) ?_ ?_
    · intro ops s o s' ih hC hok hnd
      obtain ⟨l, hl⟩ := ih (by
        rw [Sched.added_append, List.map_append, ← List.cons_append] at hnd
        exact (List.nodup_append.1 hnd).1)
      exact settled_step hl hnd hC hok
    · intro _
      have hcur : s₀.currentTask = ⟨addr, 0⟩ := by
        simp only [initSched] at h₀
        split_ifs at h₀
        cases h₀
        rfl
      refine ⟨_, ⟨headed_init h₀, by simp [Sched.added], by simp, by simp⟩, ?_, by simp, ?_, ?_⟩
      · simp [(ring_init h₀).2]
      · simp [hcur]
      · intro _
        exact (ring_init h₀).2
  exact hrun hnd

end Cursor

/-! ## Runs -/

section Runs

variable {A : Allocator} {parent : ℕ → ℕ} {s s₀ s₁ s₂ : St} {addr : ℕ} {ops ops₂ : List Op} {mem : ℕ → TaskList}
  {arena : Arena}

/-- the pids of the tasks that exit or return in a run -/
def departures (A : Allocator) (parent : ℕ → ℕ) (s : St) (ops : List Op) : List ℕ :=
  (calls A parent s ops).filterMap fun
    | .remove pid => some pid
    | _ => none

theorem mem_departures {pid : ℕ} : pid ∈ departures A parent s ops ↔ .remove pid ∈ calls A parent s ops := by
  simp only [departures, List.mem_filterMap]
  constructor
  · rintro ⟨c, hc, he⟩
    cases c with
    | remove p =>
      simp only [Option.some.injEq] at he
      exact he ▸ hc
    | _ => simp at he
  · intro h
    exact ⟨_, h, rfl⟩

/-- a removal that returned is neither of the first task nor of init -/
theorem remove_returned {C : St → Sched.Op → Prop} {l : List Sched.Op} {pid : ℕ} (hr : Runs (Sched.step A) C s l s₁)
    (hp : .remove pid ∈ l) : pid ≠ 0 ∧ pid ≠ initPid := by
  induction hr with
  | nil s => simp at hp
  | @cons s t u o ops _ hok _ ih =>
    rcases List.mem_cons.1 hp with rfl | hp
    · simp only [Sched.step, schedRemove] at hok
      split_ifs at hok with h
      · exact not_or.1 h
      · exact not_or.1 h
    · exact ih hp

/-- **A task that left never runs again.** From `init_sched`, for any interleaving of additions, ticks, system calls and returns
of task functions that all come back, with distinct pids: the cursor is at a live node of the ring, and the task it selects is
none of those that exited or returned. These are neither the first task nor init. -/
theorem departed_never_runs (h₀ : initSched A mem arena addr = .ok s₀)
    (hr : Runs (step A parent) (fun _ _ => True) s₀ ops s) (hnd : (0 :: (added ops).map Task.pid).Nodup) :
    (∃ l, Ring s l ∧ s.tasksSchedHead ∈ ptrs l) ∧ s.tasksSchedHead ∈ s.arena.live ∧
      ∀ pid ∈ departures A parent s₀ ops, (selected s).pid ≠ pid ∧ pid ≠ 0 ∧ pid ≠ initPid := by
  obtain ⟨hrun, hadd⟩ := calls_run hr
  rw [← hadd] at hnd
  obtain ⟨l, hl⟩ := settled_run h₀ hrun hnd
  have hring := hl.onRing.headed.1
  refine ⟨⟨l, hring, hl.cursor⟩, hring.live _ hl.cursor, ?_⟩
  intro pid hp
  have hcall := mem_departures.1 hp
  obtain ⟨c, hc, he⟩ := List.mem_map.1 hl.cursor
  have hsel : selected s = c.2 := by
    rw [selected, ← he]
    exact hring.task_eq hc
  rw [hsel]
  exact ⟨hl.onRing.kept c hc pid hcall, remove_returned hrun hcall⟩

/-- no task is added -/
def NoAddition (_ : St) (o : Op) : Prop := ∀ task priority, o ≠ .add task priority

/-- the first task alone is in the ring, and the cursor is there -/
structure Alone (addr : ℕ) (s : St) : Prop where
  ring : Ring s [(s.tasksHead, ⟨addr, 0⟩)]
  cursor : s.tasksSchedHead = s.tasksHead

theorem Alone.selected (h : Alone addr s) : selected s = ⟨addr, 0⟩ := by
  rw [Sched.selected, h.cursor]
  exact h.ring.task_eq (c := (s.tasksHead, ⟨addr, 0⟩)) (by simp)

/-- nothing can be removed from a ring of one -/
theorem Alone.not_removed (h : Alone addr s) {pid : ℕ} (hok : schedRemove s pid = .ok s₁) : False := by
  obtain ⟨⟨pre, u, hrest, _⟩, _⟩ := ring_remove h.ring rfl hok
  simp at hrest

theorem Alone.step {o : Op} (h : Alone addr s) (hC : NoAddition s o) (hok : step A parent s o = .ok s₁) : Alone addr s₁ := by
  rcases call_step hok with ⟨c, hc, _, hstep⟩ | ⟨_, rfl⟩
  · cases c with
    | add task priority =>
      cases o with
      | add task' priority' => exact absurd rfl (hC task' priority')
      | tick => simp [call] at hc
      | syscall num =>
        simp only [call] at hc
        split_ifs at hc
        simp at hc
      | taskReturn => simp [call] at hc
    | contextSwitch =>
      cases hstep
      have hnext : (s.nodes s.tasksHead).next = s.tasksHead := h.ring.closed.2.2.2
      refine ⟨ring_switch h.ring, ?_⟩
      simp only [schedContextSwitch, h.cursor]
      exact hnext
    | remove pid => exact (h.not_removed hstep).elim
  · exact h

theorem Alone.run (h : Alone addr s) (hr : Runs (Exit.step A parent) NoAddition s ops s₁) :
    Alone addr s₁ ∧ ∀ t ∈ selections A parent s ops, t = ⟨addr, 0⟩ := by
  induction hr with
  | nil s => exact ⟨h, by simp [selections]⟩
  | @cons s t u o ops hC hok _ ih =>
    obtain ⟨hend, hsel⟩ := ih (h.step hC hok)
    refine ⟨hend, ?_⟩
    intro x hx
    simp only [selections, hok, List.mem_append] at hx
    rcases hx with hx | hx
    · split_ifs at hx
      · rw [List.mem_singleton.1 hx]
        exact h.selected
      · simp at hx
    · exact hsel x hx

/-- **One departure stops all other tasks.** In any state reached from `init_sched`, let the running task exit, or its function
return, and let `sched_remove` come back. The ring is then the first task alone, and as long as no task is added every tick
selects the first task, whatever other tasks were in the ring. -/
theorem departure_stops_others {o : Op} (h₀ : initSched A mem arena addr = .ok s₀)
    (hr : Runs (step A parent) (fun _ _ => True) s₀ ops s) (hnd : (0 :: (added ops).map Task.pid).Nodup)
    (ho : o = .syscall sysExit ∨ o = .taskReturn) (hok : step A parent s o = .ok s₁)
    (hr₂ : Runs (step A parent) NoAddition s₁ ops₂ s₂) :
    Ring s₂ [(s₂.tasksHead, ⟨addr, 0⟩)] ∧ ∀ t ∈ selections A parent s₁ ops₂, t = ⟨addr, 0⟩ := by
  obtain ⟨hrun, hadd⟩ := calls_run hr
  rw [← hadd] at hnd
  obtain ⟨l, hl⟩ := settled_run h₀ hrun hnd
  have hrem : schedRemove s s.currentTask.pid = .ok s₁ := by
    rcases ho with rfl | rfl
    · simp only [step, syscallHandler, exit, if_true] at hok
      split_ifs at hok
      exact faults_ok.1 hok
    · exact faults_ok.1 hok
  obtain ⟨hring, t, rest, rfl, ht⟩ := hl.onRing.headed
  obtain ⟨⟨pre, u, rfl, hu⟩, _, hring', hh, hc⟩ := ring_remove hring ht hrem
  -- the task with pid 0 is the first one
  have htask : t = ⟨addr, 0⟩ := by
    have hm := hl.onRing.mem (s.tasksHead, t) (by simp)
    rcases List.mem_cons.1 hm with he | hm
    · exact he
    · rw [List.nodup_cons] at hnd
      exact absurd (List.mem_map_of_mem (f := Task.pid) hm) (by rw [ht]; exact hnd.1)
  have hcursor : s.tasksSchedHead = s.tasksHead := by
    apply hl.atTail
    rw [hring.task_eq (c := (s.tasksTail, u)) (by simp)]
    exact hu
  subst htask
  have halone : Alone addr s₁ := ⟨by rw [hh]; exact hring', by rw [hc, hh, hcursor]⟩
  obtain ⟨hend, hsel⟩ := halone.run hr₂
  exact ⟨hend.ring, hsel⟩

/-- init and a child of it are added, and the timer ticks until the child runs -/
def untilChild : List Op := [.add (task 1) .low, .add (task 2) .low, .tick, .tick, .tick]

/-- only the child has a parent -/
def parents : ℕ → ℕ := fun addr => if addr = (task 2).addr then (task 1).addr else 0

def afterOps (ops : List Op) : St := returned start (Runs.exec (step .top parents) start ops)

/-- the child exits: it is not selected again -/
theorem departed_never_runs_child :
    departures .top parents start (untilChild ++ [.syscall sysExit, .tick]) = [2] ∧
      (selected (afterOps (untilChild ++ [.syscall sysExit, .tick]))).pid ≠ 2 := by
  have hr : Runs (step .top parents) (fun _ _ => True) start (untilChild ++ [.syscall sysExit, .tick])
      (afterOps (untilChild ++ [.syscall sysExit, .tick])) := .of_exec (by decide) rfl
  exact ⟨by decide, ((departed_never_runs init_start hr (by decide)).2.2 2 (by decide)).1⟩

instance (s : St) : ∀ o, Decidable (NoAddition s o)
  | .add task priority => .isFalse fun h => h task priority rfl
  | .tick => .isTrue fun _ _ => Op.noConfusion
  | .syscall _ => .isTrue fun _ _ => Op.noConfusion
  | .taskReturn => .isTrue fun _ _ => Op.noConfusion

/-- the child exits: init, which did not, is not selected again either -/
theorem departure_stops_others_init :
    ∃ s₁ s₂, step .top parents (afterOps untilChild) (.syscall sysExit) = .ok s₁ ∧
      Runs (step .top parents) NoAddition s₁ [.tick, .tick, .tick] s₂ ∧
      ∀ t ∈ selections .top parents s₁ [.tick, .tick, .tick], t = task 0 := by
  have hr : Runs (step .top parents) (fun _ _ => True) start untilChild (afterOps untilChild) := .of_exec (by decide) rfl
  have hok : step .top parents (afterOps untilChild) (.syscall sysExit) =
      .ok (afterOps (untilChild ++ [.syscall sysExit])) := rfl
  have hr₂ : Runs (step .top parents) NoAddition (afterOps (untilChild ++ [.syscall sysExit])) [.tick, .tick, .tick]
      (afterOps (untilChild ++ [.syscall sysExit, .tick, .tick, .tick])) := .of_exec (by decide) rfl
  exact ⟨_, _, hok, hr₂, (departure_stops_others init_start hr (by decide) (Or.inl rfl) hok hr₂).2⟩

end Runs

end Gubos.Sched.Exit
