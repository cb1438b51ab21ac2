/-
`sched_add` and the timer (`kernel/sched.c`, `kernel/kernel.c`).

`kernel_main` adds its tasks after `SCHED_INIT` is set and with interrupts enabled, and `sched_add` takes no lock: the timer can
interrupt it between any two of its statements, and `sched_context_switch` then reads a ring that is being changed. Here a call
of `sched_add` is taken statement by statement, and any number of ticks may come in between.

- `statements_eq_add`: four statements in a row are `Sched.schedAdd`;
- `at_step`: at every point the ring that a tick reads is a rotation. The new task becomes part of it with the statement
  `tasks_tail->next = new_tasks`, and neither earlier nor later;
- `interrupted_add`: over whole runs the ticks select what the rotation picks, no task is lost or selected before it is linked,
  and between two calls the ring is the list of all tasks added so far;
- `overlapping_calls_lose_a_task`: this needs that the calls do not overlap. If a second task calls `sched_add` before the
  first one has moved `tasks_tail`, a task can be lost.

The statements are those of the source, in its order. One task makes the calls, one after the other.
-/
import Gubos.Sched.RoundRobin

namespace Gubos.Sched.Interrupted

open Gubos.Core

/-! ## `sched_add`, statement by statement -/

/-- `task`, `priority` and `new_tasks` of a call under way -/
structure Frame where
  task : Task
  priority : TaskPriority
  newTasks : ℕ
deriving DecidableEq, Repr

/-- the statement that comes next: the call, `*new_tasks = ..`, `tasks_tail->next = new_tasks`, `tasks_tail = new_tasks` -/
inductive Phase where
  | idle
  | allocated (f : Frame)
  | written (f : Frame)
  | linked (f : Frame)
deriving DecidableEq, Repr

structure St where
  sched : Sched.St
  phase : Phase
  /-- the calls that are still to be made -/
  calls : List (Task × TaskPriority)

/-- `*new_tasks = { .next = tasks_tail->next, .task = task, .priority = priority }` -/
def writeNode (s : Sched.St) (f : Frame) : Except Fault Sched.St :=
  if f.newTasks = 0 then .error .nullDereference
  else .ok (setNode s f.newTasks ⟨f.task, f.priority, (s.nodes s.tasksTail).next⟩)

/-- `tasks_tail->next = new_tasks` -/
def linkNode (s : Sched.St) (f : Frame) : Sched.St :=
  setNode s s.tasksTail { s.nodes s.tasksTail with next := f.newTasks }

/-- `tasks_tail = new_tasks` -/
def advanceTail (s : Sched.St) (f : Frame) : Sched.St := { s with tasksTail := f.newTasks }

inductive Op where
  /-- the task that makes the calls executes its next statement -/
  | statement
  | tick
deriving DecidableEq, Repr

def statement (A : Allocator) (s : St) : Except Fault St :=
  match s.phase, s.calls with
  | .idle, [] => .ok s
  | .idle, (task, priority) :: calls =>
    let (newTasks, arena) := s.sched.arena.alloc A
    .ok ⟨{ s.sched with arena := arena }, .allocated ⟨task, priority, newTasks⟩, calls⟩
  | .allocated f, _ => do
    let sched ← writeNode s.sched f
    .ok { s with sched := sched, phase := .written f }
  | .written f, _ => .ok { s with sched := linkNode s.sched f, phase := .linked f }
  | .linked f, _ => .ok { s with sched := advanceTail s.sched f, phase := .idle }

def step (A : Allocator) (s : St) : Op → Except Fault St
  | .statement => statement A s
  | .tick => .ok { s with sched := schedContextSwitch s.sched }

/-- the tasks selected by the ticks of a run -/
def selections (A : Allocator) (s : St) : List Op → List Task
  | [] => []
  | o :: ops =>
    (if o = .tick then [selected s.sched] else []) ++
      match step A s o with
      | .ok t => selections A t ops
      | .error _ => []

/-- what a step is for the rotation: a tick picks, and the link pushes -/
def act (s : St) : Op → List (Rotation.Act Task)
  | .tick => [.pick]
  | .statement =>
    match s.phase with
    | .written f => [.push f.task]
    | _ => []

def acts (A : Allocator) (s : St) : List Op → List (Rotation.Act Task)
  | [] => []
  | o :: ops =>
    act s o ++
      match step A s o with
      | .ok t => acts A t ops
      | .error _ => []

/-- the tasks of the calls that have not linked their node yet -/
def toLink (s : St) : List Task :=
  (match s.phase with
    | .allocated f => [f.task]
    | .written f => [f.task]
    | _ => []) ++ s.calls.map Prod.fst

/-! ## Without interruptions -/

variable {A : Allocator}

/-- **Four statements are one call.** -/
theorem statements_eq_add (s : Sched.St) (task : Task) (priority : TaskPriority) (calls : List (Task × TaskPriority)) :
    Runs.exec (step A) ⟨s, .idle, (task, priority) :: calls⟩ [.statement, .statement, .statement, .statement] =
      (schedAdd A s task priority).bind fun t => .ok ⟨t, .idle, calls⟩ := by
  by_cases hp : (s.arena.alloc A).1 = 0
  · simp [Runs.exec, step, statement, writeNode, schedAdd, Except.bind, bind, hp]
  · simp [Runs.exec, step, statement, writeNode, linkNode, advanceTail, schedAdd, Except.bind, bind, hp]

/-! ## What a tick finds -/

/-- a node outside the ring can be written -/
theorem sim_setNode {s : Sched.St} {r : Rotation.Rota Task} {p : ℕ} (h : Sim s r) (hp : p ∉ s.arena.live)
    (n : TaskList) : Sim (setNode s p n) r := by
  obtain ⟨l, hr, hi, hc⟩ := h
  have hne : ∀ q ∈ ptrs l, q ≠ p := fun q hq he => hp (he ▸ hr.live q hq)
  refine ⟨l, ⟨hr.closed.congr ?_, hr.last, hr.nodup, hr.live⟩, hi, hc⟩
  intro q hq
  simp [cell, setNode, hne q hq]

/-- where the ring stands when the call has come so far: until the link the new node is not in it, and its block was given out
by `kmalloc` in `arena`; after the link the new node is the last one, though `tasks_tail` is not there yet -/
def At (A : Allocator) (s : St) (r : Rotation.Rota Task) : Prop :=
  match s.phase with
  | .idle => Sim s.sched r
  | .allocated f => ∃ arena : Arena, arena.alloc A = (f.newTasks, s.sched.arena) ∧
      Sim { s.sched with arena := arena } r
  | .written f => f.newTasks ≠ 0 ∧
      s.sched.nodes f.newTasks = ⟨f.task, f.priority, (s.sched.nodes s.sched.tasksTail).next⟩ ∧
      ∃ arena : Arena, arena.alloc A = (f.newTasks, s.sched.arena) ∧ Sim { s.sched with arena := arena } r
  | .linked f => Sim { s.sched with tasksTail := f.newTasks } r

variable {s s' : St} {r : Rotation.Rota Task} {o : Op} {ops : List Op}

/-- the scheduler selects the item at the position, whatever the call under way has done -/
theorem At.selected (h : At A s r) : r.items[r.pos]? = some (selected s.sched) := by
  obtain ⟨sched, phase, calls⟩ := s
  cases phase with
  | idle => exact Sim.selected h
  | allocated f =>
    obtain ⟨arena, _, hsim⟩ := h
    exact hsim.selected
  | written f =>
    obtain ⟨_, _, arena, _, hsim⟩ := h
    exact hsim.selected
  | linked f =>
    have hsim : Sim { sched with tasksTail := f.newTasks } r := h
    exact hsim.selected

theorem at_tick (h : At A s r) : At A { s with sched := schedContextSwitch s.sched } (Rotation.step r .pick) := by
  obtain ⟨sched, phase, calls⟩ := s
  cases phase with
  | idle => exact sim_switch h
  | allocated f =>
    obtain ⟨arena, halloc, hsim⟩ := h
    exact ⟨arena, halloc, sim_switch hsim⟩
  | written f =>
    obtain ⟨hp, hnode, arena, halloc, hsim⟩ := h
    exact ⟨hp, hnode, arena, halloc, sim_switch hsim⟩
  | linked f => exact sim_switch h

/-- the new node is written: it is not in the ring -/
theorem at_write {sched sched' : Sched.St} {f : Frame} {calls : List (Task × TaskPriority)}
    (h : At A ⟨sched, .allocated f, calls⟩ r) (hok : writeNode sched f = .ok sched') :
    At A ⟨sched', .written f, calls⟩ r := by
  obtain ⟨arena, halloc, hsim⟩ := h
  simp only [writeNode] at hok
  split_ifs at hok with hp
  cases hok
  have hfresh : f.newTasks ∉ arena.live := by
    have := arena.alloc_fresh A (by rw [halloc]; exact hp)
    rwa [halloc] at this
  have htail : sched.tasksTail ≠ f.newTasks := by
    obtain ⟨l, hr, _, _⟩ := hsim
    obtain ⟨pre, t, rfl⟩ := hr.eq_snoc
    intro he
    exact hfresh (he ▸ hr.live sched.tasksTail (by simp))
  refine ⟨hp, ?_, arena, halloc, sim_setNode (s := { sched with arena := arena }) hsim hfresh _⟩
  simp [setNode, htail]

/-- the link makes the new node the last one -/
theorem at_link {sched : Sched.St} {f : Frame} {calls : List (Task × TaskPriority)}
    (h : At A ⟨sched, .written f, calls⟩ r) :
    At A ⟨linkNode sched f, .linked f, calls⟩ (Rotation.step r (.push f.task)) := by
  obtain ⟨hp, hnode, arena, halloc, hsim⟩ := h
  -- the whole call, made on the ring as it is now, would write the same node again
  have hadd : schedAdd A { sched with arena := arena } f.task f.priority =
      .ok { linkNode sched f with tasksTail := f.newTasks } := by
    simp only [schedAdd, halloc, hp, if_false]
    have hsame : setNode sched f.newTasks ⟨f.task, f.priority, (sched.nodes sched.tasksTail).next⟩ = sched := by
      simp only at hnode
      rw [← hnode, setNode, Function.update_eq_self]
    simp only [setNode] at hsame
    simp only [setNode, linkNode, Except.ok.injEq, Sched.St.mk.injEq, and_true]
    have hnodes := congrArg Sched.St.nodes hsame
    simp only at hnodes
    rw [hnodes]
  exact sim_add hsim hadd

/-- **One step.** The ring that a tick reads goes on as the rotation does. -/
theorem at_step (h : At A s r) (hok : step A s o = .ok s') : At A s' (Rotation.run r (act s o)) := by
  cases o with
  | tick =>
    cases hok
    exact at_tick h
  | statement =>
    obtain ⟨sched, phase, calls⟩ := s
    cases phase with
    | idle =>
      cases calls with
      | nil =>
        cases hok
        exact h
      | cons c calls =>
        cases hok
        exact ⟨sched.arena, rfl, h⟩
    | allocated f =>
      obtain ⟨t, ht, hok⟩ := bind_ok.1 hok
      cases hok
      exact at_write h ht
    | written f =>
      cases hok
      exact at_link h
    | linked f =>
      cases hok
      exact h

/-- the tasks that are linked or to be linked stay the same, in the same order -/
theorem toLink_step (hok : step A s o = .ok s') :
    (Rotation.run r (act s o)).items ++ toLink s' = r.items ++ toLink s := by
  cases o with
  | tick =>
    cases hok
    rfl
  | statement =>
    obtain ⟨sched, phase, calls⟩ := s
    cases phase with
    | idle =>
      cases calls with
      | nil =>
        cases hok
        rfl
      | cons c calls =>
        cases hok
        rfl
    | allocated f =>
      obtain ⟨t, _, hok⟩ := bind_ok.1 hok
      cases hok
      rfl
    | written f =>
      cases hok
      simp [act, toLink, Rotation.run, Rotation.step]
    | linked f =>
      cases hok
      rfl

/-! ## Runs -/

theorem rotation_run_append (r : Rotation.Rota Task) (l l' : List (Rotation.Act Task)) :
    Rotation.run r (l ++ l') = Rotation.run (Rotation.run r l) l' := by
  simp [Rotation.run, List.foldl_append]

theorem at_run {C : St → Op → Prop} (hr : Runs (step A) C s ops s') (h : At A s r) :
    At A s' (Rotation.run r (acts A s ops)) ∧ selections A s ops = Rotation.picks r (acts A s ops) ∧
      (Rotation.run r (acts A s ops)).items ++ toLink s' = r.items ++ toLink s := by
  induction hr generalizing r with
  | nil s => exact ⟨h, rfl, rfl⟩
  | @cons s t u o ops _ hok _ ih =>
    obtain ⟨h1, h2, h3⟩ := ih (at_step h hok)
    have hacts : acts A s (o :: ops) = act s o ++ acts A t ops := by
      simp only [acts, hok]
    have hsel : selections A s (o :: ops) =
        (if o = .tick then [selected s.sched] else []) ++ selections A t ops := by
      simp only [selections, hok]
    rw [hacts, rotation_run_append]
    refine ⟨h1, ?_, h3.trans (toLink_step hok)⟩
    rw [hsel, h2]
    cases o with
    | tick => simp [act, Rotation.picks, Rotation.run, h.selected]
    | statement =>
      obtain ⟨sched, phase, calls⟩ := s
      cases phase <;> simp [act, Rotation.picks, Rotation.run]

variable {mem : ℕ → TaskList} {arena : Arena} {addr : ℕ} {s₀ : Sched.St} {calls : List (Task × TaskPriority)}

/-- **`sched_add` is atomic for the timer.** From `init_sched`, let one task call `sched_add` for the tasks of `calls`, in this
order, and let the timer tick any number of times between any two statements. The ticks select what a rotation picks to which
a task is pushed when its node is linked; at every point of a run, in the middle of a call too, the task that the next tick
selects is one that is linked; no task is lost, added twice or out of order; and between two calls the ring is the list of the
tasks added so far, with the cursor in it. -/
theorem interrupted_add (h₀ : initSched A mem arena addr = .ok s₀)
    (hr : Runs (step A) (fun _ _ => True) ⟨s₀, .idle, calls⟩ ops s) :
    let r := Rotation.run ⟨[⟨addr, 0⟩], 0⟩ (acts A ⟨s₀, .idle, calls⟩ ops)
    selections A ⟨s₀, .idle, calls⟩ ops = Rotation.picks ⟨[⟨addr, 0⟩], 0⟩ (acts A ⟨s₀, .idle, calls⟩ ops) ∧
      selected s.sched ∈ r.items ∧
      r.items ++ toLink s = ⟨addr, 0⟩ :: calls.map Prod.fst ∧
      (s.phase = .idle → ∃ l, Ring s.sched l ∧ l.map Prod.snd = r.items ∧ s.sched.tasksSchedHead ∈ ptrs l) := by
  intro r
  obtain ⟨hat, hsel, hall⟩ := at_run hr (r := ⟨[⟨addr, 0⟩], 0⟩) (show At A ⟨s₀, .idle, calls⟩ _ from sim_init h₀)
  refine ⟨hsel, List.mem_of_getElem? hat.selected, ?_, ?_⟩
  · exact hall
  · intro hidle
    simp only [At, hidle] at hat
    obtain ⟨l, hl, hm, hc⟩ := hat
    exact ⟨l, hl, hm, List.mem_of_getElem? hc⟩

/-- two calls, and a tick after every statement -/
def twoCalls : List (Task × TaskPriority) := [(task 2, .low), (task 3, .low)]

def everyStatement : List Op := (List.replicate 8 [Op.statement, Op.tick]).flatten

def afterCalls : St := returned ⟨start, .idle, twoCalls⟩ (Runs.exec (step .top) ⟨start, .idle, twoCalls⟩ everyStatement)

/-- the third tick is the first that finds task 2 linked, and the fourth selects it -/
theorem interrupted_add_two :
    selections .top ⟨start, .idle, twoCalls⟩ everyStatement =
        [task 0, task 0, task 0, task 2, task 0, task 2, task 0, task 2] ∧
      ∃ l, Ring afterCalls.sched l ∧ l.map Prod.snd = [task 0, task 2, task 3] := by
  have hr : Runs (step .top) (fun _ _ => True) ⟨start, .idle, twoCalls⟩ everyStatement afterCalls :=
    .of_exec (by decide) rfl
  obtain ⟨hsel, _, hall, hidle⟩ := interrupted_add init_start hr
  obtain ⟨l, hl, hm, _⟩ := hidle rfl
  refine ⟨hsel.trans (by decide), l, hl, hm.trans ?_⟩
  have hnone : toLink afterCalls = [] := rfl
  rw [hnone, List.append_nil] at hall
  exact hall

/-- two frames of calls that overlap -/
def first : Frame := ⟨task 2, .low, 2⟩
def second : Frame := ⟨task 3, .low, 3⟩

/-- both nodes are written; the second call links its node before the first does, and the calls end one after the other -/
def overlapped : Sched.St :=
  let s := returned start (writeNode start first)
  let s := returned start (writeNode s second)
  let s := linkNode s second
  let s := linkNode s first
  let s := advanceTail s first
  advanceTail s second

/-- **Overlapping calls lose a task.** The ring is left with the first two tasks, `tasks_tail` is the node of the third, which
nothing links to, and the three pointers are no ring any more. -/
theorem overlapping_calls_lose_a_task :
    Seg (cell overlapped) overlapped.tasksHead [(1, task 0), (2, task 2)] overlapped.tasksHead ∧
      overlapped.tasksTail = 3 ∧ ¬ ∃ l, Ring overlapped l := by
  have hseg : Seg (cell overlapped) overlapped.tasksHead [(1, task 0), (2, task 2)] overlapped.tasksHead := by decide
  refine ⟨hseg, rfl, ?_⟩
  rintro ⟨l, hr⟩
  obtain ⟨t, rest, rfl⟩ := hr.eq_cons
  have hnd := hr.nodup
  simp only [ptrs_cons, List.nodup_cons] at hnd
  have hrest : rest = [(2, task 2)] := Seg.unique hr.closed.2.2.2 hseg.2.2.2 hnd.1 (by decide)
  have hlast := hr.last
  have htwo : (2 : ℕ) = 3 := by
    rw [hrest] at hlast
    exact Option.some.inj hlast
  exact absurd htwo (by decide)

end Gubos.Sched.Interrupted
