/-
The scheduler's ring of tasks (`kernel/sched.c`).

The tasks form a circular singly linked list of `struct task_list` nodes with three pointers into it: `tasks_head`,
`tasks_tail` and the cursor `tasks_sched_head` that `sched_context_switch` advances. The model keeps the nodes in memory:
`nodes p` is what is at address `p`, also after `kfree(p)`, and `arena` says which nodes are handed out.

`Ring s l` says that following `next` from `tasks_head` visits exactly the nodes `l`, each once, comes back to
`tasks_head`, and that the last node visited is `tasks_tail`.

- `ring_init`, `ring_add`, `ring_switch`: the ring after `init_sched`, `sched_add`, `sched_context_switch`;
- `ring_remove`: a call of `sched_remove` that returns has removed the task at the tail, and has left the head alone in
  the ring. `sched_remove` at the tail takes `tasks_tail->next`, which is the head, for the node before the tail; its
  search loop reads `tasks_tail->next` in every round and so never gets past the head;
- `ring_unique`: the memory determines the ring.

Not modelled: locking, and the register switch behind `sched_switch_task`, which appears here only as the change of
`CURRENT_TASK.task`.
-/
import Gubos.Core.Run
import Gubos.Core.Heap
import Gubos.Panic

namespace Gubos.Sched

open Gubos.Core

/-! ## Model -/

/-- a task control block: where it is, and its pid -/
structure Task where
  addr : ℕ
  pid : ℕ
deriving DecidableEq, Repr

inductive TaskPriority where
  | low
deriving DecidableEq, Repr

/-- `struct task_list` -/
structure TaskList where
  task : Task
  priority : TaskPriority
  next : ℕ
deriving DecidableEq, Repr

structure St where
  nodes : ℕ → TaskList
  arena : Arena
  tasksHead : ℕ
  tasksTail : ℕ
  tasksSchedHead : ℕ
  /-- `CURRENT_TASK.task` -/
  currentTask : Task

/-- `INIT_PID` -/
def initPid : ℕ := 1

def setNode (s : St) (p : ℕ) (n : TaskList) : St := { s with nodes := Function.update s.nodes p n }

def kfree (s : St) (p : ℕ) : St := { s with arena := s.arena.free p }

/-- `init_sched`, on memory `mem`. Its task is the first one `task_create` makes, so its pid is 0; `addr` is where its
control block is. -/
def initSched (A : Allocator) (mem : ℕ → TaskList) (arena : Arena) (addr : ℕ) : Except Fault St :=
  let task : Task := ⟨addr, 0⟩
  let (p, arena') := arena.alloc A
  if p = 0 then .error .nullDereference
  else .ok ⟨Function.update mem p ⟨task, .low, p⟩, arena', p, p, p, task⟩

/-- `sched_add` -/
def schedAdd (A : Allocator) (s : St) (task : Task) (priority : TaskPriority) : Except Fault St :=
  let (p, arena') := s.arena.alloc A
  if p = 0 then .error .nullDereference
  else
    let s₁ := setNode { s with arena := arena' } p ⟨task, priority, (s.nodes s.tasksTail).next⟩
    let s₂ := setNode s₁ s₁.tasksTail { s₁.nodes s₁.tasksTail with next := p }
    .ok { s₂ with tasksTail := p }

/-- the `do ... while` loop of `sched_remove`; every round looks at `tasks_tail->next` -/
def schedRemoveLoop (s : St) (pid : ℕ) : ℕ → ℕ → Except Fault St
  | 0, _ => .error .diverges
  | fuel + 1, prev =>
    let task := (s.nodes s.tasksTail).next
    if (s.nodes task).task.pid = pid then
      let s₁ := setNode s prev { s.nodes prev with next := (s.nodes task).next }
      let s₂ := if task = s₁.tasksHead then { s₁ with tasksHead := (s₁.nodes task).next } else s₁
      .ok (kfree s₂ task)
    else if task ≠ s.tasksTail then schedRemoveLoop s pid fuel task
    else .error (.panic (.taskNotFound pid))

/-- `sched_remove`. A round of the loop changes nothing but `prev`, so more rounds than nodes are only reached when the
loop does not end. -/
def schedRemove (s : St) (pid : ℕ) : Except Fault St :=
  if pid = 0 ∨ pid = initPid then .error (.panic (.cannotRemoveTask pid))
  else
    let task := s.tasksTail
    if (s.nodes task).task.pid = pid then
      let s₁ := { s with tasksTail := (s.nodes s.tasksTail).next }
      let s₂ := setNode s₁ s₁.tasksHead { s₁.nodes s₁.tasksHead with next := s₁.tasksTail }
      .ok (kfree s₂ task)
    else schedRemoveLoop s pid (s.arena.live.length + 2) task

/-- the task `sched_context_switch` switches to -/
def selected (s : St) : Task := (s.nodes s.tasksSchedHead).task

/-- `sched_context_switch` -/
def schedContextSwitch (s : St) : St :=
  { s with tasksSchedHead := (s.nodes s.tasksSchedHead).next, currentTask := selected s }

inductive Op where
  | add (task : Task) (priority : TaskPriority)
  | contextSwitch
  | remove (pid : ℕ)
deriving DecidableEq, Repr

def step (A : Allocator) (s : St) : Op → Except Fault St
  | .add task priority => schedAdd A s task priority
  | .contextSwitch => .ok (schedContextSwitch s)
  | .remove pid => schedRemove s pid

/-- the tasks a sequence of operations adds, in order -/
def added : List Op → List Task
  | [] => []
  | .add task _ :: ops => task :: added ops
  | _ :: ops => added ops

theorem added_append (l l' : List Op) : added (l ++ l') = added l ++ added l' := by
  induction l with
  | nil => rfl
  | cons o l ih => cases o <;> simp [added, ih]

/-! ## The ring -/

/-- what the ring sees of a node: its task and the next node -/
def cell (s : St) (p : ℕ) : Task × ℕ := ((s.nodes p).task, (s.nodes p).next)

/-- following `next` from `tasks_head` visits the nodes `l`, each once, and comes back, `tasks_tail` being the last -/
structure Ring (s : St) (l : List (ℕ × Task)) : Prop where
  closed : Seg (cell s) s.tasksHead l s.tasksHead
  last : (ptrs l).getLast? = some s.tasksTail
  nodup : (ptrs l).Nodup
  live : ∀ p ∈ ptrs l, p ∈ s.arena.live

variable {A : Allocator} {s s' : St} {l l' : List (ℕ × Task)} {pid : ℕ}

/-- a ring is the head followed by the rest -/
theorem Ring.eq_cons (h : Ring s l) : ∃ t rest, l = (s.tasksHead, t) :: rest := by
  cases l with
  | nil => have := h.last; simp at this
  | cons c rest =>
    have hc : s.tasksHead = c.1 := h.closed.1
    exact ⟨c.2, rest, by rw [hc]⟩

/-- a ring is a list of nodes followed by the tail -/
theorem Ring.eq_snoc (h : Ring s l) : ∃ pre t, l = pre ++ [(s.tasksTail, t)] := by
  have hne : l ≠ [] := by rintro rfl; have := h.last; simp at this
  have hl := h.last
  rw [ptrs, List.getLast?_map, List.getLast?_eq_some_getLast hne] at hl
  simp only [Option.map_some, Option.some.injEq] at hl
  refine ⟨l.dropLast, (l.getLast hne).2, ?_⟩
  rw [← hl, Prod.mk.eta, List.dropLast_append_getLast]

theorem Ring.tail_next (h : Ring s l) : (s.nodes s.tasksTail).next = s.tasksHead := by
  obtain ⟨pre, t, rfl⟩ := h.eq_snoc
  obtain ⟨m, _, h2⟩ := seg_append.1 h.closed
  exact h2.2.2.2

theorem Ring.task_eq (h : Ring s l) {c : ℕ × Task} (hc : c ∈ l) : (s.nodes c.1).task = c.2 := h.closed.contents c hc

theorem ring_unique (h : Ring s l) (h' : Ring s l') : l = l' := by
  obtain ⟨t, rest, rfl⟩ := h.eq_cons
  obtain ⟨t', rest', rfl⟩ := h'.eq_cons
  have ht : t = t' := (h.task_eq List.mem_cons_self).symm.trans (h'.task_eq List.mem_cons_self)
  have hn := h.nodup
  have hn' := h'.nodup
  simp only [ptrs_cons, List.nodup_cons] at hn hn'
  rw [Seg.unique h.closed.2.2.2 h'.closed.2.2.2 hn.1 hn'.1, ht]

theorem ring_init {mem : ℕ → TaskList} {arena : Arena} {addr : ℕ} (h : initSched A mem arena addr = .ok s) :
    Ring s [(s.tasksHead, ⟨addr, 0⟩)] ∧ s.tasksSchedHead = s.tasksHead := by
  simp only [initSched] at h
  split_ifs at h with hp
  cases h
  refine ⟨⟨⟨rfl, hp, by simp [cell], by simp [cell]⟩, rfl, by simp, ?_⟩, rfl⟩
  simp [Arena.alloc_live A arena hp]

theorem ring_add {task : Task} {priority : TaskPriority} (hr : Ring s l) (h : schedAdd A s task priority = .ok s') :
    Ring s' (l ++ [(s'.tasksTail, task)]) ∧ s'.tasksHead = s.tasksHead ∧ s'.tasksSchedHead = s.tasksSchedHead := by
  simp only [schedAdd] at h
  split_ifs at h with hp
  cases h
  set p := (s.arena.alloc A).1
  have hlive : (s.arena.alloc A).2.live = p :: s.arena.live := Arena.alloc_live A s.arena hp
  have hpl : p ∉ ptrs l := fun hm => Arena.alloc_fresh A s.arena hp (hr.live p hm)
  obtain ⟨pre, t, rfl⟩ := hr.eq_snoc
  have hnd := hr.nodup
  simp only [ptrs_append, ptrs_cons, ptrs_nil, List.mem_append, List.mem_singleton, not_or, List.nodup_append,
    List.mem_singleton, ne_eq] at hpl hnd
  obtain ⟨m, hpre, hm, hz, ht, hback⟩ := seg_append.1 hr.closed
  simp only at hm hz ht
  refine ⟨⟨?_, ?_, ?_, ?_⟩, rfl, rfl⟩
  · -- the nodes before the tail are untouched; the tail points to the new node, and the new node to the head
    simp only [setNode]
    refine seg_append.2 ⟨p, seg_append.2 ⟨m, ?_, hm, hz, ?_, ?_⟩, rfl, hp, ?_, ?_⟩
    · refine hpre.congr fun a ha => ?_
      have hat : a ≠ s.tasksTail := fun e => hnd.2.2 a ha _ rfl e
      have hap : a ≠ p := fun e => hpl.1 (e ▸ ha)
      simp [cell, hat, hap]
    · simpa [cell, Ne.symm hpl.2] using ht
    · simp [cell]
    · simp [cell, hpl.2]
    · simp only [cell, Function.update_of_ne hpl.2, Function.update_self]
      exact hr.tail_next
  · simp
  · simp only [ptrs_append, ptrs_cons, ptrs_nil]
    have h1 : (ptrs pre ++ [s.tasksTail]).Nodup := by simpa using hr.nodup
    refine List.nodup_append.2 ⟨h1, by simp, ?_⟩
    intro a ha b hb e
    simp only [List.mem_singleton] at hb
    rcases List.mem_append.1 ha with ha | ha
    · exact hpl.1 (hb ▸ e ▸ ha)
    · simp only [List.mem_singleton] at ha
      exact hpl.2 (by rw [← hb, ← e, ha])
  · intro a ha
    simp only [setNode, hlive, List.mem_cons]
    rw [ptrs_append, List.mem_append] at ha
    rcases ha with ha | ha
    · exact Or.inr (hr.live a ha)
    · exact Or.inl (by simpa using ha)

theorem ring_switch (hr : Ring s l) : Ring (schedContextSwitch s) l := ⟨hr.closed, hr.last, hr.nodup, hr.live⟩

/-- when the task looked for is neither at the tail nor at the head, the loop of `sched_remove` does not return -/
theorem schedRemoveLoop_ne_ok (hr : Ring s l) (hh : (s.nodes s.tasksHead).task.pid ≠ pid) (fuel prev : ℕ) :
    schedRemoveLoop s pid fuel prev ≠ .ok s' := by
  induction fuel generalizing prev with
  | zero => simp [schedRemoveLoop]
  | succ fuel ih =>
    simp only [schedRemoveLoop, hr.tail_next, if_neg hh]
    split_ifs
    · exact ih _
    · simp

/-- **What a returned removal did.** In a ring headed by the task with pid 0, `sched_remove` returns only if the task is
at the tail; the ring it leaves is the head alone. -/
theorem ring_remove {t : Task} {rest : List (ℕ × Task)} (hr : Ring s ((s.tasksHead, t) :: rest)) (h0 : t.pid = 0)
    (h : schedRemove s pid = .ok s') :
    (∃ pre u, rest = pre ++ [(s.tasksTail, u)] ∧ u.pid = pid) ∧ pid ≠ 0 ∧
      Ring s' [(s.tasksHead, t)] ∧ s'.tasksHead = s.tasksHead ∧ s'.tasksSchedHead = s.tasksSchedHead := by
  have ht : (s.nodes s.tasksHead).task = t := hr.task_eq List.mem_cons_self
  simp only [schedRemove] at h
  split_ifs at h with hpid htail
  · have hp0 : pid ≠ 0 := fun e => hpid (Or.inl e)
    -- the head has pid 0, so the tail is another node
    have hne : s.tasksTail ≠ s.tasksHead := by
      intro e
      rw [e, ht, h0] at htail
      exact hp0 htail.symm
    have hsplit : ∃ pre u, rest = pre ++ [(s.tasksTail, u)] ∧ u.pid = pid := by
      obtain ⟨pre, u, hpre⟩ := hr.eq_snoc
      cases pre with
      | nil => simp only [List.nil_append, List.cons.injEq, Prod.mk.injEq] at hpre; exact absurd hpre.1.1.symm hne
      | cons c pre =>
        simp only [List.cons_append, List.cons.injEq] at hpre
        have hu : (s.nodes s.tasksTail).task = u := hr.task_eq (c := (s.tasksTail, u)) (by simp [hpre.2])
        exact ⟨pre, u, hpre.2, by rw [← htail, hu]⟩
    refine ⟨hsplit, hp0, ?_⟩
    have hhz : s.tasksHead ≠ 0 := hr.closed.2.1
    have hlive : s.tasksHead ∈ s.arena.live := hr.live _ (by simp)
    cases h
    refine ⟨⟨⟨rfl, hhz, ?_, ?_⟩, ?_, by simp, ?_⟩, rfl, rfl⟩
    · simpa [cell, setNode, kfree] using ht
    · simp [cell, setNode, kfree, hr.tail_next]
    · simp [setNode, kfree, hr.tail_next]
    · intro p hp
      simp only [ptrs_cons, ptrs_nil, List.mem_singleton] at hp
      subst hp
      simpa [setNode, kfree, Arena.free] using (List.mem_erase_of_ne (Ne.symm hne)).2 hlive
  · have hp0 : pid ≠ 0 := fun e => hpid (Or.inl e)
    exact absurd h (schedRemoveLoop_ne_ok hr (by rw [ht, h0]; exact Ne.symm hp0) _ _)

end Gubos.Sched
