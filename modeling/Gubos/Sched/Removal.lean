/-
What `sched_remove` does to the ring and to the cursor, over whole runs.

The abstract ring (`ringSpec`) is a queue: `sched_add` puts a task at the end, `sched_remove(pid)` takes out the task with
that pid and keeps the others in order. `Kept s s' pid` is this for one call.

- `sched_remove_keeps_ring`: in every run whose removals of the tail all happen in a ring of exactly two tasks, the ring
  in memory is the abstract one; and from any reachable state a removal that returns keeps the other tasks if and only if
  the ring has exactly two tasks.
- `removal_loses_a_task`: in a ring of three, removing the tail makes the middle task disappear.
- `exited_task_never_runs`: in every run whose removals of the tail all happen while the cursor is at the head, the cursor
  is at a node of the ring, and the task it selects is not one that was removed.
- `removed_task_selected`: with the cursor at the tail, the removed task is selected by the next switch.

`sched_remove` repairs neither the link of the node before the tail nor `tasks_sched_head`.
-/
import Gubos.Sched.Ring

namespace Gubos.Sched

open Gubos.Core

variable {A : Allocator} {s s₀ s' : St} {l l' : List (ℕ × Task)} {pid addr : ℕ} {ops : List Op}
  {mem : ℕ → TaskList} {arena : Arena}

/-! ## The abstract ring -/

def specStep (q : List Task) : Op → List Task
  | .add task _ => q ++ [task]
  | .contextSwitch => q
  | .remove pid => q.filter (fun t => t.pid ≠ pid)

/-- the tasks that should be in the ring, in the order they were added -/
def ringSpec (t₀ : Task) (ops : List Op) : List Task := ops.foldl specStep [t₀]

theorem ringSpec_snoc (t₀ : Task) (ops : List Op) (o : Op) : ringSpec t₀ (ops ++ [o]) = specStep (ringSpec t₀ ops) o := by
  simp [ringSpec, List.foldl_append]

/-- the ring after the removal of `pid` has exactly the other tasks, in the same order -/
def Kept (s s' : St) (pid : ℕ) : Prop :=
  ∃ l l', Ring s l ∧ Ring s' l' ∧ l'.map Prod.snd = (l.map Prod.snd).filter (fun t => t.pid ≠ pid)

/-- the ring has exactly two tasks: the node after the head is the tail -/
def TwoTasks (s : St) : Prop := (s.nodes s.tasksHead).next = s.tasksTail ∧ s.tasksHead ≠ s.tasksTail

/-- the tail is removed only from a ring of two -/
def TailOfTwo (s : St) : Op → Prop
  | .remove pid => (s.nodes s.tasksTail).task.pid = pid → TwoTasks s
  | _ => True

/-! ## Reachable rings are headed by the first task -/

/-- a ring whose head is the task with pid 0 -/
def Headed (s : St) (l : List (ℕ × Task)) : Prop :=
  Ring s l ∧ ∃ t rest, l = (s.tasksHead, t) :: rest ∧ t.pid = 0

theorem headed_init (h : initSched A mem arena addr = .ok s) : Headed s [(s.tasksHead, ⟨addr, 0⟩)] :=
  ⟨(ring_init h).1, _, _, rfl, rfl⟩

/-- one step of the ring: what is at the end, and the cursor -/
theorem headed_step {o : Op} (hl : Headed s l) (h : step A s o = .ok s') :
    (∃ t p, o = .add t p ∧ Headed s' (l ++ [(s'.tasksTail, t)]) ∧ s'.tasksSchedHead = s.tasksSchedHead ∧
      s'.tasksHead = s.tasksHead) ∨
    (o = .contextSwitch ∧ Headed s' l ∧ s' = schedContextSwitch s) ∨
    (∃ t pre u, o = .remove u.pid ∧ u.pid ≠ 0 ∧ l = (s.tasksHead, t) :: (pre ++ [(s.tasksTail, u)]) ∧ t.pid = 0 ∧
      Headed s' [(s.tasksHead, t)] ∧ s'.tasksSchedHead = s.tasksSchedHead ∧ s'.tasksHead = s.tasksHead) := by
  obtain ⟨hr, t, rest, rfl, ht⟩ := hl
  cases o with
  | add task p =>
    obtain ⟨hr', hh, hc⟩ := ring_add hr h
    exact Or.inl ⟨task, p, rfl, ⟨hr', t, _, by rw [hh]; rfl, ht⟩, hc, hh⟩
  | contextSwitch =>
    cases h
    exact Or.inr (Or.inl ⟨rfl, ⟨ring_switch hr, t, rest, rfl, ht⟩, rfl⟩)
  | remove pid =>
    obtain ⟨⟨pre, u, rfl, rfl⟩, hp, hr', hh, hc⟩ := ring_remove hr ht h
    exact Or.inr (Or.inr ⟨t, pre, u, rfl, hp, rfl, ht, ⟨hr', t, [], by rw [hh], ht⟩, hc, hh⟩)

theorem headed_run {C : St → Op → Prop} (h₀ : initSched A mem arena addr = .ok s₀) (hr : Runs (step A) C s₀ ops s) :
    ∃ l, Headed s l := by
  refine hr.inv (P := fun s => ∃ l, Headed s l) ?_ ⟨_, headed_init h₀⟩
  rintro s o t ⟨l, hl⟩ - hok
  rcases headed_step hl hok with ⟨_, _, _, h, _⟩ | ⟨_, h, _⟩ | ⟨_, _, _, _, _, _, _, h, _⟩ <;> exact ⟨_, h⟩

/-- the nodes between the head and the tail, when the node after the head is the tail -/
theorem Ring.between_eq_nil {t u : Task} {pre : List (ℕ × Task)}
    (hr : Ring s ((s.tasksHead, t) :: (pre ++ [(s.tasksTail, u)]))) (h2 : TwoTasks s) : pre = [] := by
  cases pre with
  | nil => rfl
  | cons c pre =>
    have hc : (s.nodes s.tasksHead).next = c.1 := hr.closed.2.2.2.1
    have hnd := hr.nodup
    simp only [List.cons_append, ptrs_cons, ptrs_append, ptrs_nil, List.nodup_cons, List.mem_append,
      List.mem_singleton, not_or] at hnd
    exact absurd (hc.symm.trans h2.1) hnd.2.1.2

/-! ## Losing no task -/

/-- **A removal that returns keeps the other tasks iff the ring has two tasks.** -/
theorem kept_iff (hl : Headed s l) (hnd : (l.map fun c => c.2.pid).Nodup) (h : schedRemove s pid = .ok s') :
    Kept s s' pid ↔ TwoTasks s := by
  have hr := hl.1
  rcases headed_step (A := Allocator.top) hl (o := .remove pid) h with
    ⟨_, _, ho, _⟩ | ⟨ho, _⟩ | ⟨t, pre, u, ho, hu, rfl, ht, hh', hc, he⟩
  · cases ho
  · cases ho
  cases ho
  constructor
  · rintro ⟨l₁, l₂, h1, h2, hmap⟩
    rw [ring_unique h1 hr, ring_unique h2 hh'.1] at hmap
    -- the filtered list is the head alone, so no task stands between the head and the tail
    have hpre : pre = [] := by
      cases pre with
      | nil => rfl
      | cons c pre =>
        simp only [List.map_cons, List.cons_append, List.map_append, List.nodup_cons, List.mem_append, List.map_nil,
          List.mem_cons, not_or] at hnd
        have hcu : c.2.pid ≠ u.pid := hnd.2.1.2.1
        simp [ht, Ne.symm hu, hcu] at hmap
    subst hpre
    have hne : s.tasksHead ≠ s.tasksTail := by
      have := hr.nodup
      simpa using this
    exact ⟨hr.closed.2.2.2.1, hne⟩
  · intro h2
    have hpre := Ring.between_eq_nil hr h2
    subst hpre
    refine ⟨_, _, hr, hh'.1, ?_⟩
    simp [ht, Ne.symm hu]

theorem ringSpec_run (h₀ : initSched A mem arena addr = .ok s₀) (hr : Runs (step A) TailOfTwo s₀ ops s) :
    ∃ l, Headed s l ∧ l.map Prod.snd = ringSpec ⟨addr, 0⟩ ops := by
  refine hr.inv_trace (p := []) (P := fun ops s => ∃ l, Headed s l ∧ l.map Prod.snd = ringSpec ⟨addr, 0⟩ ops)
    ?_ ⟨_, headed_init h₀, rfl⟩
  rintro ops s o s' ⟨l, hl, hm⟩ hC hok
  rw [ringSpec_snoc]
  rcases headed_step hl hok with ⟨t, p, rfl, h', _⟩ | ⟨rfl, h', _⟩ | ⟨t, pre, u, rfl, hu, rfl, ht, h', _⟩
  · exact ⟨_, h', by simp [specStep, hm]⟩
  · exact ⟨_, h', by simp [specStep, hm]⟩
  · have hu' : (s.nodes s.tasksTail).task = u := hl.1.task_eq (c := (s.tasksTail, u)) (by simp)
    have hpre := Ring.between_eq_nil hl.1 (hC (by rw [hu']))
    subst hpre
    refine ⟨_, h', ?_⟩
    rw [← hm]
    simp [specStep, ht, Ne.symm hu]

/-- **The ring loses no task, exactly as long as the tail is removed only from a ring of two.** In every run whose
removals of the tail happen in a ring of two tasks, following `next` from `tasks_head` visits exactly the tasks added and
not removed, in the order they were added. From any reachable state, whatever happened before, a removal that returns
keeps the other tasks of the ring if and only if there were two tasks in it. -/
theorem sched_remove_keeps_ring (h₀ : initSched A mem arena addr = .ok s₀) :
    (∀ ops s, Runs (step A) TailOfTwo s₀ ops s → ∃ l, Ring s l ∧ l.map Prod.snd = ringSpec ⟨addr, 0⟩ ops) ∧
    (∀ ops s s' l pid, Runs (step A) (fun _ _ => True) s₀ ops s → Ring s l → (l.map fun c => c.2.pid).Nodup →
      schedRemove s pid = .ok s' → (Kept s s' pid ↔ TwoTasks s)) := by
  constructor
  · intro ops s hr
    obtain ⟨l, hl, hm⟩ := ringSpec_run h₀ hr
    exact ⟨l, hl.1, hm⟩
  · intro ops s s' l pid hr hl hnd h
    obtain ⟨l₁, hl₁⟩ := headed_run h₀ hr
    rw [ring_unique hl hl₁.1] at hnd
    exact kept_iff hl₁ hnd h

/-- memory before anything is written -/
def blank : ℕ → TaskList := fun _ => ⟨⟨0, 0⟩, .low, 0⟩

def task (pid : ℕ) : Task := ⟨100 + pid, pid⟩

/-- the scheduler after `init_sched`, and after some operations more -/
def start : St := returned ⟨blank, .empty, 0, 0, 0, task 0⟩ (initSched .top blank .empty 100)

theorem init_start : initSched .top blank .empty 100 = .ok start := rfl

def after (ops : List Op) : St := returned start (Runs.exec (step .top) start ops)

instance (s : St) : Decidable (TwoTasks s) := inferInstanceAs (Decidable (_ ∧ _))

instance (s : St) : ∀ o, Decidable (TailOfTwo s o)
  | .add _ _ => .isTrue trivial
  | .contextSwitch => .isTrue trivial
  | .remove pid => inferInstanceAs (Decidable ((s.nodes s.tasksTail).task.pid = pid → TwoTasks s))

/-- a ring of two, from which the tail is removed: the first task is left -/
theorem sched_remove_keeps_ring_of_two :
    Runs (step .top) TailOfTwo start [.add (task 2) .low, .contextSwitch, .remove 2]
        (after [.add (task 2) .low, .contextSwitch, .remove 2]) ∧
      ∃ l, Ring (after [.add (task 2) .low, .contextSwitch, .remove 2]) l ∧ l.map Prod.snd = [task 0] := by
  have hr : Runs (step .top) TailOfTwo start [.add (task 2) .low, .contextSwitch, .remove 2]
      (after [.add (task 2) .low, .contextSwitch, .remove 2]) := .of_exec (by decide) rfl
  exact ⟨hr, (sched_remove_keeps_ring init_start).1 _ _ hr⟩

/-- **A task is lost.** In the ring 0, 2, 3 the removal of task 3, at the tail, returns, and task 2 is gone too. -/
theorem removal_loses_a_task :
    ∃ s s' l, Runs (step .top) (fun _ _ => True) start [.add (task 2) .low, .add (task 3) .low] s ∧
      Ring s l ∧ l.map Prod.snd = [task 0, task 2, task 3] ∧ schedRemove s 3 = .ok s' ∧ ¬ Kept s s' 3 := by
  refine ⟨after [.add (task 2) .low, .add (task 3) .low],
    after [.add (task 2) .low, .add (task 3) .low, .remove 3], [(1, task 0), (2, task 2), (3, task 3)],
    .of_exec (by decide) rfl, ?_, rfl, rfl, fun hk => ?_⟩
  · exact ⟨by decide, by decide, by decide, by decide⟩
  · have hr : Ring (after [.add (task 2) .low, .add (task 3) .low]) [(1, task 0), (2, task 2), (3, task 3)] :=
      ⟨by decide, by decide, by decide, by decide⟩
    have h2 := (kept_iff ⟨hr, task 0, [(2, task 2), (3, task 3)], rfl, rfl⟩ (by decide) rfl).1 hk
    exact absurd h2 (by decide)

/-! ## The cursor -/

/-- the tail is removed only while the cursor is at the head -/
def CursorAtHead (s : St) : Op → Prop
  | .remove pid => (s.nodes s.tasksTail).task.pid = pid → s.tasksSchedHead = s.tasksHead
  | _ => True

theorem Ring.next_mem (hr : Ring s l) {p : ℕ} (hp : p ∈ ptrs l) : (s.nodes p).next ∈ ptrs l := by
  obtain ⟨c, hc, rfl⟩ := List.mem_map.1 hp
  obtain ⟨i, hi⟩ := List.getElem?_of_mem hc
  have hn : (s.nodes c.1).next = (l[i + 1]?.map Prod.fst).getD s.tasksHead := hr.closed.next_eq hi
  rw [hn]
  cases hl : l[i + 1]? with
  | none =>
    obtain ⟨t, rest, rfl⟩ := hr.eq_cons
    simp
  | some d => simpa using mem_ptrs (List.mem_of_getElem? hl)

/-- the cursor stays in the ring -/
theorem cursor_step {o : Op} (hl : Headed s l) (hcur : s.tasksSchedHead ∈ ptrs l) (hC : CursorAtHead s o)
    (hok : step A s o = .ok s') : ∃ l', Headed s' l' ∧ s'.tasksSchedHead ∈ ptrs l' := by
  rcases headed_step hl hok with ⟨t, p, _, h', hc, _⟩ | ⟨_, h', rfl⟩ | ⟨t, pre, u, rfl, hu, rfl, ht, h', hc, _⟩
  · refine ⟨_, h', ?_⟩
    rw [hc, ptrs_append]
    exact List.mem_append_left _ hcur
  · exact ⟨l, h', hl.1.next_mem hcur⟩
  · have hut : (s.nodes s.tasksTail).task = u := hl.1.task_eq (c := (s.tasksTail, u)) (by simp)
    have hhead : s.tasksSchedHead = s.tasksHead := hC (by rw [hut])
    exact ⟨_, h', by simp [hc, hhead]⟩

theorem cursor_run (h₀ : initSched A mem arena addr = .ok s₀) (hr : Runs (step A) CursorAtHead s₀ ops s) :
    ∃ l, Headed s l ∧ s.tasksSchedHead ∈ ptrs l := by
  refine hr.inv (P := fun s => ∃ l, Headed s l ∧ s.tasksSchedHead ∈ ptrs l) ?_ ⟨_, headed_init h₀, ?_⟩
  · rintro s o s' ⟨l, hl, hcur⟩ hC hok
    exact cursor_step hl hcur hC hok
  · simp [(ring_init h₀).2]

/-- the tasks of the ring were added in the run and not removed -/
structure OnRing (addr : ℕ) (ops : List Op) (s : St) (l : List (ℕ × Task)) : Prop where
  headed : Headed s l
  mem : ∀ c ∈ l, c.2 ∈ (⟨addr, 0⟩ : Task) :: added ops
  kept : ∀ c ∈ l, ∀ pid, .remove pid ∈ ops → c.2.pid ≠ pid
  past : ∀ pid, .remove pid ∈ ops → pid ∈ (added ops).map Task.pid

theorem onRing_step {o : Op} (h : OnRing addr ops s l) (hnd : (0 :: (added (ops ++ [o])).map Task.pid).Nodup)
    (hok : step A s o = .ok s') : ∃ l', OnRing addr (ops ++ [o]) s' l' := by
  rcases headed_step h.headed hok with
    ⟨t, p, rfl, h', _⟩ | ⟨rfl, h', rfl⟩ | ⟨t, pre, u, rfl, hu, rfl, ht, h', _⟩
  · simp only [added_append, added, List.map_append, List.map_cons, List.map_nil, List.nodup_cons, List.mem_append,
      List.mem_singleton, List.nodup_append, not_or] at hnd
    -- the pid of the new task is not one of those removed before
    have hnew : ∀ pid, Op.remove pid ∈ ops → t.pid ≠ pid := fun pid hp e =>
      hnd.2.2.2 pid (h.past pid hp) t.pid rfl e.symm
    refine ⟨_, h', ?_, ?_, ?_⟩
    · intro c hc'
      simp only [List.mem_append, List.mem_singleton] at hc'
      simp only [added_append, added, List.mem_cons, List.mem_append]
      rcases hc' with hc' | rfl
      · have := h.mem c hc'
        rw [List.mem_cons] at this
        tauto
      · simp
    · intro c hc' pid hp
      simp only [List.mem_append, List.mem_singleton, reduceCtorEq, or_false] at hc' hp
      rcases hc' with hc' | rfl
      · exact h.kept c hc' pid hp
      · exact hnew pid hp
    · intro pid hp
      simp only [List.mem_append, List.mem_singleton, reduceCtorEq, or_false] at hp
      simp only [added_append, List.map_append, List.mem_append]
      exact Or.inl (h.past pid hp)
  · refine ⟨l, h', ?_, ?_, ?_⟩
    · simpa [added_append, added] using h.mem
    · simpa using h.kept
    · simpa [added_append, added] using h.past
  · refine ⟨_, h', ?_, ?_, ?_⟩
    · intro c hc'
      simp only [List.mem_singleton] at hc'
      subst hc'
      simpa [added_append, added] using h.mem (s.tasksHead, t) (by simp)
    · intro c hc' pid hp
      simp only [List.mem_singleton] at hc'
      simp only [List.mem_append, List.mem_singleton, Op.remove.injEq] at hp
      subst hc'
      rcases hp with hp | rfl
      · exact h.kept (s.tasksHead, t) (by simp) pid hp
      · simp only [ht]; exact Ne.symm hu
    · intro pid hp
      simp only [List.mem_append, List.mem_singleton, Op.remove.injEq] at hp
      simp only [added_append, added, List.append_nil]
      rcases hp with hp | rfl
      · exact h.past pid hp
      · have hm := h.mem (s.tasksTail, u) (by simp)
        simp only [List.mem_cons] at hm
        rcases hm with rfl | hm
        · exact absurd rfl hu
        · exact List.mem_map_of_mem hm

theorem onRing_run {C : St → Op → Prop} (h₀ : initSched A mem arena addr = .ok s₀) (hr : Runs (step A) C s₀ ops s)
    (hnd : (0 :: (added ops).map Task.pid).Nodup) : ∃ l, OnRing addr ops s l := by
  revert hnd
  refine hr.inv_trace (p := [])
    (P := fun ops s => (0 :: (added ops).map Task.pid).Nodup → ∃ l, OnRing addr ops s l) ?_ ?_
  · intro ops s o s' ih _ hok hnd
    obtain ⟨l, hl⟩ := ih (by
      rw [added_append, List.map_append, ← List.cons_append] at hnd
      exact (List.nodup_append.1 hnd).1)
    exact onRing_step hl hnd hok
  · intro _
    exact ⟨_, headed_init h₀, by simp [added], by simp, by simp⟩

/-- **An exited task never runs again, as long as the tail is removed only while the cursor is at the head.** In every
state of such a run the cursor is at a live node of the ring, and, with a pid for each task added, the task it selects is
none of those removed before. -/
theorem exited_task_never_runs (h₀ : initSched A mem arena addr = .ok s₀) (hr : Runs (step A) CursorAtHead s₀ ops s) :
    s.tasksSchedHead ∈ s.arena.live ∧ (∃ l, Ring s l ∧ s.tasksSchedHead ∈ ptrs l) ∧
      ((0 :: (added ops).map Task.pid).Nodup → ∀ pid, .remove pid ∈ ops → (selected s).pid ≠ pid) := by
  obtain ⟨l, hl, hcur⟩ := cursor_run h₀ hr
  refine ⟨hl.1.live _ hcur, ⟨l, hl.1, hcur⟩, fun hnd pid hp => ?_⟩
  obtain ⟨l', hl'⟩ := onRing_run h₀ hr hnd
  obtain rfl := ring_unique hl'.headed.1 hl.1
  obtain ⟨c, hc, he⟩ := List.mem_map.1 hcur
  have hsel : selected s = c.2 := by rw [selected, ← he]; exact hl.1.task_eq hc
  rw [hsel]
  exact hl'.kept c hc pid hp

instance (s : St) : ∀ o, Decidable (CursorAtHead s o)
  | .add _ _ => .isTrue trivial
  | .contextSwitch => .isTrue trivial
  | .remove pid => inferInstanceAs (Decidable ((s.nodes s.tasksTail).task.pid = pid → s.tasksSchedHead = s.tasksHead))

/-- the cursor has gone round to the head when task 2 is removed: task 2 is not selected -/
theorem exited_task_never_runs_round :
    Runs (step .top) CursorAtHead start [.add (task 2) .low, .contextSwitch, .contextSwitch, .remove 2]
        (after [.add (task 2) .low, .contextSwitch, .contextSwitch, .remove 2]) ∧
      (selected (after [.add (task 2) .low, .contextSwitch, .contextSwitch, .remove 2])).pid ≠ 2 := by
  have hr : Runs (step .top) CursorAtHead start [.add (task 2) .low, .contextSwitch, .contextSwitch, .remove 2]
      (after [.add (task 2) .low, .contextSwitch, .contextSwitch, .remove 2]) := .of_exec (by decide) rfl
  exact ⟨hr, (exited_task_never_runs init_start hr).2.2 (by decide) 2 (by decide)⟩

/-- **A removed task is selected.** Task 2 is added and the first task is selected, so the cursor is at task 2; task 2 is
removed, and the next switch selects the freed node and the removed task. -/
theorem removed_task_selected :
    ∃ s s', Runs (step .top) (fun _ _ => True) start [.add (task 2) .low, .contextSwitch] s ∧
      schedRemove s 2 = .ok s' ∧ s'.tasksSchedHead ∉ s'.arena.live ∧ selected s' = task 2 ∧
      (schedContextSwitch s').currentTask = task 2 :=
  ⟨after [.add (task 2) .low, .contextSwitch], after [.add (task 2) .low, .contextSwitch, .remove 2],
    .of_exec (by decide) rfl, rfl, by decide, by decide, by decide⟩

end Gubos.Sched
