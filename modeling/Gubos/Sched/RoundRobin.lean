/-
Round-robin without removals.

`Sim s r` relates the scheduler to a rotation (`Core.Rotation`): the tasks of the ring in order are the items, and the
cursor `tasks_sched_head` is the node at the position. `sched_add` is a push, since it links the new node between the tail
and the head, and `sched_context_switch` is a pick. The cursor is moved when a task is selected, not when the next one is
asked for, so a task added just after the tail was selected waits for the next round.

- `sim_step`, `sim_run`: the scheduler refines the rotation, and selects what the rotation picks;
- `round_robin`: the ring is the circular list of all tasks in the order they were added; between two consecutive
  selections of one task, every other task that was in the ring at the first is selected exactly once, and every task
  added in between at most once.
-/
import Gubos.Sched.Removal
import Gubos.Core.Rotation

namespace Gubos.Sched

open Gubos.Core

variable {A : Allocator} {s s₀ s₁ s₂ s' : St} {addr : ℕ} {ops ops₁ ops₂ : List Op} {mem : ℕ → TaskList} {arena : Arena}

/-- the tasks selected by the switches of a sequence of operations -/
def selections (A : Allocator) (s : St) : List Op → List Task
  | [] => []
  | o :: ops =>
    (if o = .contextSwitch then [selected s] else []) ++
      match step A s o with
      | .ok t => selections A t ops
      | .error _ => []

/-- the operation is not a removal -/
def NoRemoval (_ : St) (o : Op) : Prop := ∀ pid, o ≠ .remove pid

/-- the actions of the rotation that a sequence of operations without removals stands for -/
def acts : List Op → List (Rotation.Act Task)
  | [] => []
  | .add task _ :: ops => .push task :: acts ops
  | .contextSwitch :: ops => .pick :: acts ops
  | .remove _ :: ops => acts ops

/-- the ring is the list of items, and the cursor is at the position -/
def Sim (s : St) (r : Rotation.Rota Task) : Prop :=
  ∃ l, Ring s l ∧ l.map Prod.snd = r.items ∧ (ptrs l)[r.pos]? = some s.tasksSchedHead

theorem Sim.pos_lt {r : Rotation.Rota Task} (h : Sim s r) : r.pos < r.items.length := by
  obtain ⟨l, _, hi, hc⟩ := h
  have := (List.getElem?_eq_some_iff.1 hc).1
  rw [ptrs, List.length_map] at this
  rw [← hi, List.length_map]
  exact this

/-- the scheduler selects the item at the position -/
theorem Sim.selected {r : Rotation.Rota Task} (h : Sim s r) : r.items[r.pos]? = some (selected s) := by
  obtain ⟨l, hr, hi, hc⟩ := h
  rw [ptrs, List.getElem?_map, Option.map_eq_some_iff] at hc
  obtain ⟨c, hc, he⟩ := hc
  rw [← hi, List.getElem?_map, hc, Option.map_some, Sched.selected, ← he, hr.task_eq (List.mem_of_getElem? hc)]

theorem sim_init (h : initSched A mem arena addr = .ok s) : Sim s ⟨[⟨addr, 0⟩], 0⟩ :=
  ⟨_, (ring_init h).1, rfl, by simp [(ring_init h).2]⟩

theorem sim_add {r : Rotation.Rota Task} {task : Task} {priority : TaskPriority} (h : Sim s r)
    (hok : schedAdd A s task priority = .ok s') : Sim s' (Rotation.step r (.push task)) := by
  obtain ⟨l, hr, hi, hc⟩ := h
  obtain ⟨hr', _, hcur⟩ := ring_add hr hok
  refine ⟨_, hr', by simp [Rotation.step, hi], ?_⟩
  simp only [Rotation.step]
  rw [ptrs_append, List.getElem?_append_left (List.getElem?_eq_some_iff.1 hc).1, hcur]
  exact hc

theorem sim_switch {r : Rotation.Rota Task} (h : Sim s r) : Sim (schedContextSwitch s) (Rotation.step r .pick) := by
  have hpos := h.pos_lt
  obtain ⟨l, hr, hi, hc⟩ := h
  refine ⟨l, ring_switch hr, hi, ?_⟩
  have hlen : r.items.length = l.length := by rw [← hi, List.length_map]
  rw [ptrs, List.getElem?_map, Option.map_eq_some_iff] at hc
  obtain ⟨c, hc, he⟩ := hc
  have hn : (s.nodes s.tasksSchedHead).next = (l[r.pos + 1]?.map Prod.fst).getD s.tasksHead := by
    rw [← he]; exact hr.closed.next_eq hc
  simp only [schedContextSwitch, Rotation.step, hn, ptrs, List.getElem?_map, hlen]
  rw [hlen] at hpos
  -- the node after the tail is the head
  by_cases hl : r.pos + 1 < l.length
  · rw [Nat.mod_eq_of_lt hl, List.getElem?_eq_getElem hl]
    rfl
  · have hz : r.pos + 1 = l.length := by omega
    obtain ⟨t, rest, rfl⟩ := hr.eq_cons
    rw [hz, Nat.mod_self, List.getElem?_eq_none le_rfl]
    rfl

theorem sim_run {r : Rotation.Rota Task} (hr : Runs (step A) NoRemoval s ops s') (h : Sim s r) :
    Sim s' (Rotation.run r (acts ops)) ∧ selections A s ops = Rotation.picks r (acts ops) := by
  induction hr generalizing r with
  | nil s => exact ⟨h, rfl⟩
  | @cons s t u o ops hC hok _ ih =>
    cases o with
    | add task p =>
      obtain ⟨h1, h2⟩ := ih (sim_add h hok)
      refine ⟨h1, ?_⟩
      simp only [selections, hok, acts, Rotation.picks, h2]
      rfl
    | contextSwitch =>
      cases hok
      obtain ⟨h1, h2⟩ := ih (sim_switch h)
      refine ⟨h1, ?_⟩
      simp only [selections, step, acts, Rotation.picks, h2, h.selected]
      rfl
    | remove pid => exact absurd rfl (hC pid)

theorem run_acts_items (r : Rotation.Rota Task) (ops : List Op) :
    (Rotation.run r (acts ops)).items = r.items ++ added ops := by
  induction ops generalizing r with
  | nil => simp [acts, added, Rotation.run]
  | cons o ops ih =>
    cases o with
    | add task p =>
      have h := ih (Rotation.step r (.push task))
      simpa [acts, added, Rotation.run, Rotation.step] using h
    | contextSwitch => exact ih (Rotation.step r .pick)
    | remove pid => exact ih r

/-- **Round-robin.** After any adds and switches the ring is the circular list of all tasks in the order they were added.
Let `s₁` be a reachable state, let the switch in `s₁` select a task, and let `s₂` be the first later state whose switch
selects it again. In between, every other task that was in the ring at `s₁` is selected exactly once, and every task added
in between at most once. -/
theorem round_robin (h₀ : initSched A mem arena addr = .ok s₀) (hr₁ : Runs (step A) NoRemoval s₀ ops₁ s₁)
    (hr₂ : Runs (step A) NoRemoval (schedContextSwitch s₁) ops₂ s₂)
    (hnd : ((⟨addr, 0⟩ : Task) :: added (ops₁ ++ ops₂)).Nodup) :
    (∃ l, Ring s₁ l ∧ l.map Prod.snd = (⟨addr, 0⟩ : Task) :: added ops₁) ∧
    (selected s₂ = selected s₁ → selected s₁ ∉ selections A (schedContextSwitch s₁) ops₂ →
      (∀ y ∈ (⟨addr, 0⟩ : Task) :: added ops₁, y ≠ selected s₁ →
        (selections A (schedContextSwitch s₁) ops₂).count y = 1) ∧
      ∀ y ∈ added ops₂, (selections A (schedContextSwitch s₁) ops₂).count y ≤ 1) := by
  obtain ⟨hs₁, _⟩ := sim_run hr₁ (sim_init h₀)
  have hi₁ := run_acts_items ⟨[⟨addr, 0⟩], 0⟩ ops₁
  set r₁ := Rotation.run ⟨[⟨addr, 0⟩], 0⟩ (acts ops₁)
  obtain ⟨hs₂, hsel⟩ := sim_run hr₂ (sim_switch hs₁)
  have hi₂ := run_acts_items (Rotation.step r₁ .pick) ops₂
  have hitems : (Rotation.run (Rotation.step r₁ .pick) (acts ops₂)).items =
      (⟨addr, 0⟩ : Task) :: added (ops₁ ++ ops₂) := by
    rw [hi₂]
    simp only [Rotation.step, hi₁, added_append, List.cons_append, List.nil_append]
  refine ⟨?_, fun hagain hnot => ?_⟩
  · obtain ⟨l, hl, hi, _⟩ := hs₁
    exact ⟨l, hl, hi.trans hi₁⟩
  · have hnext := hs₂.selected
    rw [hagain] at hnext
    rw [hsel] at hnot ⊢
    obtain ⟨m, hm, hperm⟩ := Rotation.picks_between r₁ (acts ops₂) (selected s₁) hs₁.pos_lt hs₁.selected hnot hnext
      (by rw [hitems]; exact hnd)
    rw [hitems] at hperm
    have hnd' := hnd.sublist (List.take_sublist m _)
    constructor
    · intro y hy hne
      have hmem : y ∈ ((⟨addr, 0⟩ : Task) :: added (ops₁ ++ ops₂)).take m := by
        have hpre : ((⟨addr, 0⟩ : Task) :: added ops₁) <+: ((⟨addr, 0⟩ : Task) :: added (ops₁ ++ ops₂)).take m := by
          rw [List.prefix_take_iff, added_append]
          refine ⟨⟨added ops₂, rfl⟩, ?_⟩
          rw [hi₁] at hm
          exact hm
        exact hpre.subset hy
      have hc := hperm.count_eq y
      rw [List.count_cons_of_ne (Ne.symm hne), List.count_eq_one_of_mem hnd' hmem] at hc
      exact hc
    · intro y _
      calc (Rotation.picks (Rotation.step r₁ .pick) (acts ops₂)).count y
          ≤ (selected s₁ :: Rotation.picks (Rotation.step r₁ .pick) (acts ops₂)).count y := List.count_le_count_cons
        _ = (((⟨addr, 0⟩ : Task) :: added (ops₁ ++ ops₂)).take m).count y := hperm.count_eq y
        _ ≤ 1 := List.nodup_iff_count_le_one.1 hnd' y

instance : ∀ s o, Decidable (NoRemoval s o)
  | _, .add _ _ => .isTrue fun _ => by simp
  | _, .contextSwitch => .isTrue fun _ => by simp
  | _, .remove pid => .isFalse fun h => h pid rfl

/-- tasks 0 and 2 in the ring, task 3 added after task 2 has been selected: the cursor is already at the head, and task 3
waits for the next round -/
theorem round_robin_late_add :
    selected (after [.add (task 2) .low, .contextSwitch]) = task 2 ∧
    selections .top (schedContextSwitch (after [.add (task 2) .low, .contextSwitch]))
      [.add (task 3) .low, .contextSwitch] = [task 0] ∧
    (selections .top (schedContextSwitch (after [.add (task 2) .low, .contextSwitch]))
      [.add (task 3) .low, .contextSwitch]).count (task 0) = 1 := by
  refine ⟨by decide, by decide, ?_⟩
  have hr₁ : Runs (step .top) NoRemoval start [.add (task 2) .low, .contextSwitch]
      (after [.add (task 2) .low, .contextSwitch]) := .of_exec (by decide) rfl
  have hr₂ : Runs (step .top) NoRemoval (schedContextSwitch (after [.add (task 2) .low, .contextSwitch]))
      [.add (task 3) .low, .contextSwitch]
      (after [.add (task 2) .low, .contextSwitch, .contextSwitch, .add (task 3) .low, .contextSwitch]) :=
    .of_exec (by decide) rfl
  have h := round_robin init_start hr₁ hr₂ (by decide)
  exact (h.2 (by decide) (by decide)).1 (task 0) (by decide) (by decide)

end Gubos.Sched
