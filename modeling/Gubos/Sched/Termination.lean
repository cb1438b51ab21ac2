/-
When `sched_remove` ends (`kernel/sched.c`).

The search of `sched_remove` is a `do ... while` loop that sets `task = tasks_tail->next` in every round, and not
`task = task->next`. So every round looks at the head, and the loop ends in its first round or never.

- `schedRemoveLoop_diverges`: with another task than the one looked for at the head, and the tail elsewhere, no number of
  rounds is enough;
- `remove_ends_iff`: on every list built by `init_sched` and `sched_add`, `sched_remove(pid)` ends as it should if and only
  if no task was added, or the task added last has that pid;
- `middle_never_removed`: in the ring 0, 2, 3 the removal of 2 does not end.
-/
import Gubos.Sched.Removal

namespace Gubos.Sched

open Gubos.Core

variable {A : Allocator} {s s₀ s' : St} {l : List (ℕ × Task)} {pid addr : ℕ} {ops : List Op} {mem : ℕ → TaskList}
  {arena : Arena}

/-- what `sched_remove(pid)` has to do when the list is `l`: end with no task of that pid in the ring, or panic when there was
none -/
structure Removes (s : St) (l : List (ℕ × Task)) (pid : ℕ) : Prop where
  unlinked : (∃ c ∈ l, c.2.pid = pid) → ∃ s' l', schedRemove s pid = .ok s' ∧ Ring s' l' ∧ ∀ c ∈ l', c.2.pid ≠ pid
  absent : (∀ c ∈ l, c.2.pid ≠ pid) → schedRemove s pid = .error (.panic (.taskNotFound pid))

/-- operations that build a list: no task is removed -/
def Builds (_ : St) (o : Op) : Prop := ∀ pid, o ≠ .remove pid

/-! ## The loop -/

/-- **The loop makes no progress.** Every round is at the head. -/
theorem schedRemoveLoop_diverges (hr : Ring s l) (hh : (s.nodes s.tasksHead).task.pid ≠ pid) (hne : s.tasksHead ≠ s.tasksTail)
    (fuel prev : ℕ) : schedRemoveLoop s pid fuel prev = .error .diverges := by
  induction fuel generalizing prev with
  | zero => rfl
  | succ fuel ih =>
    rw [schedRemoveLoop]
    simp only [hr.tail_next]
    rw [if_neg hh, if_pos hne]
    exact ih s.tasksHead

/-- with the tail at the head, it ends after one round -/
theorem schedRemoveLoop_alone (hr : Ring s l) (hh : (s.nodes s.tasksHead).task.pid ≠ pid) (he : s.tasksHead = s.tasksTail)
    (fuel prev : ℕ) : schedRemoveLoop s pid (fuel + 1) prev = .error (.panic (.taskNotFound pid)) := by
  rw [schedRemoveLoop]
  simp only [hr.tail_next]
  rw [if_neg hh, if_neg (not_not.2 he)]

section Headed

variable {t : Task} {rest : List (ℕ × Task)}

/-- a task that is not at the tail: the search starts -/
theorem schedRemove_search (hpid : pid ≠ 0) (hinit : pid ≠ initPid) (htail : (s.nodes s.tasksTail).task.pid ≠ pid) :
    schedRemove s pid = schedRemoveLoop s pid (s.arena.live.length + 2) s.tasksTail := by
  rw [schedRemove, if_neg (not_or.2 ⟨hpid, hinit⟩)]
  simp only
  rw [if_neg htail]

/-- the ring is the head alone, and the task looked for is another -/
theorem removes_alone (hr : Ring s [(s.tasksHead, t)]) (ht : t.pid = 0) (hpid : pid ≠ 0) (hinit : pid ≠ initPid) :
    Removes s [(s.tasksHead, t)] pid := by
  have hhead : (s.nodes s.tasksHead).task = t := hr.task_eq List.mem_cons_self
  have hne : (s.nodes s.tasksHead).task.pid ≠ pid := by
    rw [hhead, ht]
    exact hpid.symm
  have htail : s.tasksHead = s.tasksTail := by simpa using hr.last
  constructor
  · rintro ⟨c, hc, hcp⟩
    rw [List.mem_singleton.1 hc] at hcp
    exact absurd (ht.symm.trans hcp) hpid.symm
  · intro _
    rw [schedRemove_search hpid hinit (htail ▸ hne)]
    exact schedRemoveLoop_alone hr hne htail _ _

/-- the task looked for is at the tail: the ring that is left is the head alone -/
theorem removes_tail {pre : List (ℕ × Task)} {u : Task}
    (hr : Ring s ((s.tasksHead, t) :: (pre ++ [(s.tasksTail, u)]))) (ht : t.pid = 0) (hpid : pid ≠ 0)
    (hinit : pid ≠ initPid) (hu : u.pid = pid) : Removes s ((s.tasksHead, t) :: (pre ++ [(s.tasksTail, u)])) pid := by
  have htask : (s.nodes s.tasksTail).task = u := hr.task_eq (c := (s.tasksTail, u)) (by simp)
  obtain ⟨s', hok⟩ : ∃ s', schedRemove s pid = .ok s' := by
    rw [schedRemove, if_neg (not_or.2 ⟨hpid, hinit⟩)]
    simp only
    rw [if_pos (by rw [htask, hu])]
    exact ⟨_, rfl⟩
  constructor
  · intro _
    obtain ⟨_, _, hr', _⟩ := ring_remove hr ht hok
    refine ⟨s', _, hok, hr', fun c hc => ?_⟩
    rw [List.mem_singleton.1 hc]
    exact fun he => hpid (he.symm.trans ht)
  · intro habs
    exact absurd hu (habs (s.tasksTail, u) (by simp))

/-- the task looked for is neither at the tail nor at the head: `sched_remove` does not end -/
theorem schedRemove_diverges {pre : List (ℕ × Task)} {u : Task}
    (hr : Ring s ((s.tasksHead, t) :: (pre ++ [(s.tasksTail, u)]))) (ht : t.pid = 0) (hpid : pid ≠ 0)
    (hinit : pid ≠ initPid) (hu : u.pid ≠ pid) : schedRemove s pid = .error .diverges := by
  have hhead : (s.nodes s.tasksHead).task = t := hr.task_eq List.mem_cons_self
  have htask : (s.nodes s.tasksTail).task = u := hr.task_eq (c := (s.tasksTail, u)) (by simp)
  have hne : s.tasksHead ≠ s.tasksTail := by
    have hnd := hr.nodup
    simp only [ptrs_cons, ptrs_append, ptrs_nil, List.nodup_cons, List.mem_append, List.mem_singleton, not_or] at hnd
    exact hnd.1.2
  rw [schedRemove_search hpid hinit (by rwa [htask])]
  apply schedRemoveLoop_diverges hr _ hne
  rw [hhead, ht]
  exact hpid.symm

/-- **One call**, in a ring headed by the task with pid 0: it does what it should if and only if the head is alone, or the
task is at the tail. -/
theorem removes_iff (hr : Ring s ((s.tasksHead, t) :: rest)) (ht : t.pid = 0) (hpid : pid ≠ 0) (hinit : pid ≠ initPid) :
    Removes s ((s.tasksHead, t) :: rest) pid ↔ rest = [] ∨ ∃ c, rest.getLast? = some c ∧ c.2.pid = pid := by
  rcases List.eq_nil_or_concat' rest with rfl | ⟨pre, c, rfl⟩
  · exact ⟨fun _ => Or.inl rfl, fun _ => removes_alone hr ht hpid hinit⟩
  · have hc : c.1 = s.tasksTail := by
      have hptrs : ptrs ((s.tasksHead, t) :: (pre ++ [c])) = ptrs ((s.tasksHead, t) :: pre) ++ [c.1] := by simp
      have hlast := hr.last
      rw [hptrs, List.getLast?_concat] at hlast
      exact Option.some.inj hlast
    obtain ⟨p, u⟩ := c
    simp only at hc
    subst hc
    constructor
    · intro hrem
      by_contra hno
      have hu : u.pid ≠ pid := fun he => hno (Or.inr ⟨_, List.getLast?_concat, he⟩)
      have hdiv := schedRemove_diverges hr ht hpid hinit hu
      by_cases hin : ∃ c ∈ (s.tasksHead, t) :: (pre ++ [(s.tasksTail, u)]), c.2.pid = pid
      · obtain ⟨s', _, hok, _⟩ := hrem.unlinked hin
        rw [hdiv] at hok
        cases hok
      · have herr := hrem.absent fun c hc he => hin ⟨c, hc, he⟩
        rw [hdiv] at herr
        cases herr
    · rintro (hnil | ⟨c, hc, hcp⟩)
      · simp at hnil
      · rw [List.getLast?_concat] at hc
        cases hc
        exact removes_tail hr ht hpid hinit hcp

end Headed

/-! ## Every list built -/

/-- the list built: the first task, then the tasks added, in order -/
theorem builds_run (h₀ : initSched A mem arena addr = .ok s₀) (hr : Runs (step A) Builds s₀ ops s) :
    ∃ l, Headed s l ∧ l.map Prod.snd = ⟨addr, 0⟩ :: added ops := by
  refine hr.inv_trace (p := []) (P := fun ops s => ∃ l, Headed s l ∧ l.map Prod.snd = ⟨addr, 0⟩ :: added ops)
    ?_ ⟨_, headed_init h₀, rfl⟩
  rintro ops s o s' ⟨l, hl, hm⟩ hC hok
  rcases headed_step hl hok with ⟨t, p, rfl, h', _⟩ | ⟨rfl, h', _⟩ | ⟨_, _, u, ho, _⟩
  · exact ⟨_, h', by simp [added_append, added, hm]⟩
  · exact ⟨_, h', by simp [added_append, added, hm]⟩
  · exact absurd ho (hC u.pid)

/-- **When `sched_remove` ends.** On every list built by `init_sched` and any number of `sched_add` calls, and for every pid
other than 0 and `INIT_PID`, `sched_remove(pid)` ends, with the task unlinked or with a panic when there is none, if and only
if no task was added, or the task added last has that pid. -/
theorem remove_ends_iff (h₀ : initSched A mem arena addr = .ok s₀) (hr : Runs (step A) Builds s₀ ops s) (hpid : pid ≠ 0)
    (hinit : pid ≠ initPid) :
    ∃ l, Ring s l ∧ l.map Prod.snd = ⟨addr, 0⟩ :: added ops ∧
      (Removes s l pid ↔ added ops = [] ∨ ∃ t, (added ops).getLast? = some t ∧ t.pid = pid) := by
  obtain ⟨l, ⟨hring, t, rest, rfl, ht⟩, hm⟩ := builds_run h₀ hr
  have hrest : rest.map Prod.snd = added ops := (List.cons.inj hm).2
  refine ⟨_, hring, hm, ?_⟩
  rw [removes_iff hring ht hpid hinit, ← hrest]
  simp only [List.map_eq_nil_iff, List.getLast?_map, Option.map_eq_some_iff]
  constructor
  · rintro (hnil | ⟨c, hc, hcp⟩)
    · exact Or.inl hnil
    · exact Or.inr ⟨c.2, ⟨c, hc, rfl⟩, hcp⟩
  · rintro (hnil | ⟨_, ⟨c, hc, rfl⟩, hcp⟩)
    · exact Or.inl hnil
    · exact Or.inr ⟨c, hc, hcp⟩

/-- tasks 2 and 3 are added -/
def build : List Op := [.add (task 2) .low, .add (task 3) .low]

theorem build_run : Runs (step .top) Builds start build (after build) :=
  .cons (fun _ => Op.noConfusion) rfl (.cons (fun _ => Op.noConfusion) rfl (.nil _))

/-- the ring is 0, 2, 3: the removal of 3 ends, and the removals of 2 and of 4 do not -/
theorem remove_ends_iff_build :
    ∃ l, Ring (after build) l ∧ l.map Prod.snd = [task 0, task 2, task 3] ∧ Removes (after build) l 3 ∧
      ¬ Removes (after build) l 2 ∧ ¬ Removes (after build) l 4 := by
  obtain ⟨l, hr, hm, h3⟩ := remove_ends_iff init_start build_run (show 3 ≠ 0 by decide) (by decide)
  obtain ⟨l₂, hr₂, _, h2⟩ := remove_ends_iff init_start build_run (show 2 ≠ 0 by decide) (by decide)
  obtain ⟨l₄, hr₄, _, h4⟩ := remove_ends_iff init_start build_run (show 4 ≠ 0 by decide) (by decide)
  rw [ring_unique hr₂ hr] at h2
  rw [ring_unique hr₄ hr] at h4
  refine ⟨l, hr, hm, h3.2 (Or.inr ⟨task 3, rfl, rfl⟩), fun h => ?_, fun h => ?_⟩
  · simpa [build, added, task] using h2.1 h
  · simpa [build, added, task] using h4.1 h

/-- **A task in the middle is never removed.** In the ring 0, 2, 3 the loop of `sched_remove(2)` does not end, however many
rounds it is given, though task 2 is in the ring. -/
theorem middle_never_removed :
    Ring (after build) [(1, task 0), (2, task 2), (3, task 3)] ∧
      (∀ fuel prev, schedRemoveLoop (after build) 2 fuel prev = .error .diverges) ∧
      schedRemove (after build) 2 = .error .diverges ∧
      ¬ Removes (after build) [(1, task 0), (2, task 2), (3, task 3)] 2 := by
  have hr : Ring (after build) [(1, task 0), (2, task 2), (3, task 3)] := ⟨by decide, by decide, by decide, by decide⟩
  have hdiv : schedRemove (after build) 2 = .error .diverges := rfl
  refine ⟨hr, schedRemoveLoop_diverges hr (by decide) (by decide), hdiv, fun h => ?_⟩
  obtain ⟨s', _, hok, _⟩ := h.unlinked ⟨(2, task 2), by simp, rfl⟩
  rw [hdiv] at hok
  cases hok

end Gubos.Sched
