/-
Rotation: a list of items and a position that goes round it.

`pick` takes the item at the position and moves the position one on, back to the front after the last item. `push` puts a
new item at the end and leaves the position where it is, so a position that has already gone back to the front does not
meet the new item in this round.

Result `picks_between`: between two consecutive picks of one item, the items picked are, up to order and together with
that item, the first `m` items of the list, for some `m` not less than the length of the list at the first pick. Nothing
about the order of pushes and picks is assumed.

`wait r i` is the number of picks before the item at index `i` has its turn: less than the length of the list, one less after
a pick of another item, and at most one more after a push.
-/
import Mathlib.Tactic

namespace Gubos.Core.Rotation

variable {α : Type}

structure Rota (α : Type) where
  items : List α
  pos : ℕ

inductive Act (α : Type) where
  | push (x : α)
  | pick

def step (r : Rota α) : Act α → Rota α
  | .push x => ⟨r.items ++ [x], r.pos⟩
  | .pick => ⟨r.items, (r.pos + 1) % r.items.length⟩

def run (r : Rota α) (as : List (Act α)) : Rota α := as.foldl step r

/-- the items picked by a sequence of actions -/
def picks (r : Rota α) : List (Act α) → List α
  | [] => []
  | .push x :: as => picks (step r (.push x)) as
  | .pick :: as => r.items[r.pos]?.toList ++ picks (step r .pick) as

/-- the items picked since the pick at position `i` of a list of length `n`: the position has not gone back to the front
yet, or it has, when the list had length `m` -/
inductive Since (i n : ℕ) (r : Rota α) (ps : List α) : Prop
  | ahead (hi : i < r.pos) (hpos : r.pos < r.items.length) (hn : n ≤ r.items.length)
      (hps : ps = (r.items.take r.pos).drop (i + 1))
  | behind (hpos : r.pos ≤ i) (m : ℕ) (hi : i < m) (hn : n ≤ m) (hm : m ≤ r.items.length)
      (hps : ps = (r.items.take m).drop (i + 1) ++ r.items.take r.pos)

theorem since_first (r : Rota α) (h : r.pos < r.items.length) : Since r.pos r.items.length (step r .pick) [] := by
  by_cases hl : r.pos + 1 < r.items.length
  · refine .ahead ?_ ?_ le_rfl ?_ <;> simp only [step, Nat.mod_eq_of_lt hl]
    · exact Nat.lt_succ_self _
    · exact hl
    · rw [List.drop_of_length_le (by simp)]
  · have he : r.pos + 1 = r.items.length := by omega
    refine .behind ?_ r.items.length h le_rfl le_rfl ?_ <;> simp only [step, he, Nat.mod_self]
    · exact Nat.zero_le _
    · simp

theorem since_push {i n : ℕ} {r : Rota α} {ps : List α} (h : Since i n r ps) (x : α) :
    Since i n (step r (.push x)) ps := by
  cases h with
  | ahead hi hpos hn hps =>
    refine .ahead hi ?_ ?_ ?_ <;> simp only [step, List.length_append, List.length_singleton]
    · omega
    · omega
    · rw [List.take_append_of_le_length hpos.le]; exact hps
  | behind hpos m hi hn hm hps =>
    refine .behind hpos m hi hn ?_ ?_ <;> simp only [step, List.length_append, List.length_singleton]
    · omega
    · rw [List.take_append_of_le_length hm, List.take_append_of_le_length (by omega)]; exact hps

theorem since_pick {i n : ℕ} {r : Rota α} {ps : List α} {x y : α} (h : Since i n r ps) (hx : r.items[i]? = some x)
    (hy : r.items[r.pos]? = some y) (hne : y ≠ x) : Since i n (step r .pick) (ps ++ [y]) := by
  cases h with
  | ahead hi hpos hn hps =>
    have hps' : ps ++ [y] = (r.items.take (r.pos + 1)).drop (i + 1) := by
      rw [List.take_add_one, hy, List.drop_append_of_le_length (by simp; omega), hps]
      rfl
    by_cases hl : r.pos + 1 < r.items.length
    · refine .ahead ?_ ?_ hn ?_ <;> simp only [step, Nat.mod_eq_of_lt hl]
      · omega
      · exact hl
      · exact hps'
    · have he : r.pos + 1 = r.items.length := by omega
      refine .behind ?_ r.items.length (by omega) hn le_rfl ?_ <;> simp only [step, he, Nat.mod_self]
      · exact Nat.zero_le _
      · rw [hps', he]; simp
  | behind hpos m hi hn hm hps =>
    have hlt : r.pos < i := by
      rcases Nat.lt_or_ge r.pos i with h | h
      · exact h
      · have he : r.pos = i := by omega
        rw [he, hx] at hy
        exact absurd (Option.some.inj hy).symm hne
    have hmod : (r.pos + 1) % r.items.length = r.pos + 1 := Nat.mod_eq_of_lt (by omega)
    refine .behind ?_ m hi hn hm ?_ <;> simp only [step, hmod]
    · exact hlt
    · rw [List.take_add_one, hy, hps, List.append_assoc]
      rfl

theorem pos_lt {r : Rota α} (h : r.pos < r.items.length) (a : Act α) : (step r a).pos < (step r a).items.length := by
  cases a with
  | push x => simp only [step, List.length_append, List.length_singleton]; omega
  | pick => exact Nat.mod_lt _ (by omega)

theorem items_getElem {r : Rota α} {i : ℕ} {x : α} (h : r.items[i]? = some x) (a : Act α) :
    (step r a).items[i]? = some x := by
  cases a with
  | push y =>
    have hi := (List.getElem?_eq_some_iff.1 h).1
    simp only [step]
    rw [List.getElem?_append_left hi]
    exact h
  | pick => exact h

theorem since_run {i n : ℕ} {x : α} (as : List (Act α)) (r : Rota α) (ps : List α) (h : Since i n r ps)
    (hpos : r.pos < r.items.length) (hx : r.items[i]? = some x) (hnot : x ∉ picks r as) :
    Since i n (run r as) (ps ++ picks r as) ∧ (run r as).items[i]? = some x ∧
      (run r as).pos < (run r as).items.length := by
  induction as generalizing r ps with
  | nil => simpa [run, picks] using ⟨h, hx, hpos⟩
  | cons a as ih =>
    cases a with
    | push y => exact ih _ ps (since_push h y) (pos_lt hpos _) (items_getElem hx _) hnot
    | pick =>
      obtain ⟨y, hy⟩ : ∃ y, r.items[r.pos]? = some y := ⟨_, List.getElem?_eq_getElem hpos⟩
      simp only [picks, hy, Option.toList_some, List.singleton_append, List.mem_cons, not_or] at hnot ⊢
      have h' := ih (step r .pick) (ps ++ [y]) (since_pick h hx hy (fun e => hnot.1 e.symm)) (pos_lt hpos _)
        (items_getElem hx _) hnot.2
      rw [List.append_assoc] at h'
      exact h'

/-- **One round.** Between the pick of `x` at position `r.pos` and the next pick of `x`, the items picked are, together
with `x`, exactly the first `m` items of the list, where `m` is at least its length at the first pick. -/
theorem picks_between (r : Rota α) (as : List (Act α)) (x : α) (hpos : r.pos < r.items.length)
    (hx : r.items[r.pos]? = some x) (hnot : x ∉ picks (step r .pick) as)
    (hnext : (run (step r .pick) as).items[(run (step r .pick) as).pos]? = some x)
    (hnd : (run (step r .pick) as).items.Nodup) :
    ∃ m, r.items.length ≤ m ∧
      (x :: picks (step r .pick) as).Perm ((run (step r .pick) as).items.take m) := by
  obtain ⟨hs, hxi, hlt⟩ := since_run as (step r .pick) [] (since_first r hpos) (pos_lt hpos _)
    (items_getElem hx _) hnot
  set r' := run (step r .pick) as
  set ps := picks (step r .pick) as
  have hii : r'.pos = r.pos := by
    have hi := (List.getElem?_eq_some_iff.1 hxi)
    have hj := (List.getElem?_eq_some_iff.1 hnext)
    exact (List.Nodup.getElem_inj_iff hnd).1 (hj.2.trans hi.2.symm)
  cases hs with
  | ahead hi _ _ _ => omega
  | behind _ m hi hn hm hps =>
    refine ⟨m, hn, ?_⟩
    have hsplit : r'.items.take m = r'.items.take r.pos ++ (x :: (r'.items.take m).drop (r.pos + 1)) := by
      have hget : (r'.items.take m)[r.pos]? = some x := by rw [List.getElem?_take_of_lt hi]; exact hxi
      obtain ⟨hlen, he⟩ := List.getElem?_eq_some_iff.1 hget
      calc r'.items.take m = (r'.items.take m).take r.pos ++ (r'.items.take m).drop r.pos :=
            (List.take_append_drop _ _).symm
        _ = _ := by rw [List.take_take, min_eq_left hi.le, List.drop_eq_getElem_cons hlen, he]
    rw [List.nil_append] at hps
    rw [hsplit, hps, hii]
    refine List.Perm.trans (List.Perm.cons x List.perm_append_comm) ?_
    exact List.perm_middle.symm

/-! ## Waiting for a turn -/

/-- the number of picks before the item at index `i` is picked, if nothing is pushed -/
def wait (r : Rota α) (i : ℕ) : ℕ := if r.pos ≤ i then i - r.pos else r.items.length - r.pos + i

theorem wait_lt {r : Rota α} {i : ℕ} (hpos : r.pos < r.items.length) (hi : i < r.items.length) :
    wait r i < r.items.length := by
  unfold wait
  split_ifs <;> omega

theorem wait_push (r : Rota α) (x : α) (i : ℕ) : wait (step r (.push x)) i ≤ wait r i + 1 := by
  simp only [wait, step, List.length_append, List.length_singleton]
  split_ifs <;> omega

theorem wait_pick {r : Rota α} {i : ℕ} (hpos : r.pos < r.items.length) (hi : i < r.items.length) (hne : i ≠ r.pos) :
    wait (step r .pick) i + 1 = wait r i := by
  have hlen : (step r .pick).items.length = r.items.length := rfl
  by_cases hl : r.pos + 1 < r.items.length
  · have hp : (step r .pick).pos = r.pos + 1 := Nat.mod_eq_of_lt hl
    unfold wait
    rw [hp, hlen]
    split_ifs <;> omega
  · have hp : (step r .pick).pos = 0 := by
      have he : r.pos + 1 = r.items.length := by omega
      simp only [step, he, Nat.mod_self]
    unfold wait
    rw [hp, hlen]
    split_ifs <;> omega

end Gubos.Core.Rotation
