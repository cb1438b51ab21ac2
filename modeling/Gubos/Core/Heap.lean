/-
Linked cells handed out by an allocator.

A pointer is a natural number and NULL is 0. The memory a module works on is a total function from pointers to cells: a
cell that has been freed, or never written, still has contents, and a dangling pointer reads them. What is handed out at
the moment is the list `live` of an `Arena`.

- `Allocator`: any allocator, as its clients see it. The n-th request gets NULL or a 32-bit address that is not live, so a
  freed block may be handed out again. Nothing is said about the contents of a new block, nor when a request is answered with
  NULL (`Answers`).
- `Arena.serve`: a list of requests, one after the other. `Allocator.replay` gives recorded answers again: a concrete heap is an
  allocator in this sense when the answers of its runs can be replayed (`Arena.alloc_replay`).
- `Seg rd p l q`: following the links of the reader `rd` from `p` visits exactly the cells `l` and ends at `q`.
  `Seg rd p l 0` is a NULL-terminated list and `Seg rd p l p` a ring.
- `scan rd stop fuel p prev`: the loop that follows the links to the first cell at which `stop` holds.
- `readList rd fuel p`: the cells a list in a concrete memory has.

The lemmas cut segments (`seg_append`), move them to a changed memory (`Seg.congr`) and show that the memory determines
the segment (`Seg.unique`).
-/
import Gubos.Panic

namespace Gubos.Core

/-- an allocator: the answer to the n-th request, when `live` is handed out, is NULL or a block that is not live -/
structure Allocator where
  pick : ℕ → List ℕ → ℕ
  pick_lt : ∀ n live, pick n live < 2 ^ 32
  fresh : ∀ n live, pick n live ≠ 0 → pick n live ∉ live

/-- the blocks handed out, and the number of requests made so far -/
structure Arena where
  live : List ℕ
  calls : ℕ
  live_lt : ∀ p ∈ live, p < 2 ^ 32
deriving DecidableEq, Repr

namespace Arena

/-- nothing is handed out -/
def empty : Arena := ⟨[], 0, fun _ hp => absurd hp List.not_mem_nil⟩

/-- the answer to the next request, and the arena after it -/
def alloc (A : Allocator) (a : Arena) : ℕ × Arena :=
  let p := A.pick a.calls a.live
  (p, {
    live := if p = 0 then a.live else p :: a.live
    calls := a.calls + 1
    live_lt := by
      intro q hq
      split_ifs at hq
      · exact a.live_lt q hq
      · rcases List.mem_cons.1 hq with rfl | hq
        · exact A.pick_lt _ _
        · exact a.live_lt q hq })

def free (a : Arena) (p : ℕ) : Arena where
  live := a.live.erase p
  calls := a.calls
  live_lt := fun q hq => a.live_lt q (List.mem_of_mem_erase hq)

theorem alloc_fresh (A : Allocator) (a : Arena) (h : (a.alloc A).1 ≠ 0) : (a.alloc A).1 ∉ a.live :=
  A.fresh _ _ h

theorem alloc_live (A : Allocator) (a : Arena) (h : (a.alloc A).1 ≠ 0) :
    (a.alloc A).2.live = (a.alloc A).1 :: a.live := by
  simp only [alloc] at h ⊢
  rw [if_neg h]

/-- the block of an answer, if it is not NULL -/
def given (p : ℕ) : List ℕ := if p = 0 then [] else [p]

theorem alloc_live_eq (A : Allocator) (a : Arena) : (a.alloc A).2.live = given (a.alloc A).1 ++ a.live := by
  by_cases h : (a.alloc A).1 = 0
  · have hnull : given (a.alloc A).1 = [] := if_pos h
    rw [hnull, List.nil_append]
    simp only [alloc] at h ⊢
    rw [if_pos h]
  · have hblock : given (a.alloc A).1 = [(a.alloc A).1] := if_neg h
    rw [hblock, a.alloc_live A h, List.singleton_append]

/-- the answers to `n` requests, one after the other -/
def answers (A : Allocator) : ℕ → Arena → List ℕ
  | 0, _ => []
  | n + 1, a => (a.alloc A).1 :: answers A n (a.alloc A).2

/-- there are no more distinct blocks than 32-bit addresses -/
theorem length_le (a : Arena) {l : List ℕ} (hnd : l.Nodup) (hl : ∀ p ∈ l, p ∈ a.live) : l.length ≤ 2 ^ 32 := by
  have hsub : l ⊆ List.range (2 ^ 32) := fun p hp => List.mem_range.2 (a.live_lt p (hl p hp))
  have hle := (hnd.subperm hsub).length_le
  rwa [List.length_range] at hle

end Arena

/-- an allocator that hands out the block after the highest live one, and so reuses a freed block at the top -/
def Allocator.top : Allocator where
  pick _ live := if live.foldr max 0 + 1 < 2 ^ 32 then live.foldr max 0 + 1 else 0
  pick_lt _ live := by
    split_ifs with h
    · exact h
    · exact Nat.two_pow_pos 32
  fresh _ live h0 hm := by
    have hle : ∀ l : List ℕ, ∀ x ∈ l, x ≤ l.foldr max 0 := fun l => by
      induction l with
      | nil => simp
      | cons a l ih =>
        intro x hx
        simp only [List.foldr_cons]
        rcases List.mem_cons.1 hx with rfl | hx
        · exact le_max_left _ _
        · exact (ih x hx).trans (le_max_right _ _)
    have := hle live _ hm
    split_ifs at this h0
    · omega
    · exact absurd rfl h0

/-- requests are answered while fewer than `n` blocks are live -/
def Allocator.Answers (A : Allocator) (n : ℕ) : Prop := ∀ i live, live.length < n → A.pick i live ≠ 0

/-- an allocator that hands out the lowest block that is not live -/
def Allocator.lowest : Allocator where
  pick _ live := match ((List.range (live.length + 1)).map (· + 1)).find? (· ∉ live) with
    | some p => if p < 2 ^ 32 then p else 0
    | none => 0
  pick_lt _ live := by
    split
    · split_ifs with h
      · exact h
      · exact Nat.two_pow_pos 32
    · exact Nat.two_pow_pos 32
  fresh _ live h0 := by
    split at h0
    next p hfind =>
      split_ifs at h0 with h
      · have hp := List.find?_some hfind
        rw [if_pos h]
        exact of_decide_eq_true hp
      · exact absurd rfl h0
    next => exact absurd rfl h0

theorem Allocator.lowest_answers : Allocator.lowest.Answers (2 ^ 32 - 1) := by
  intro i live hlen
  unfold Allocator.lowest
  dsimp only
  split
  next p hfind =>
    obtain ⟨k, hk, rfl⟩ := List.mem_map.1 (List.mem_of_find?_eq_some hfind)
    have := List.mem_range.1 hk
    rw [if_pos (by omega)]
    exact Nat.succ_ne_zero k
  next hfind =>
    -- there are more candidates than live blocks
    exfalso
    have hsub : (List.range (live.length + 1)).map (· + 1) ⊆ live := fun p hp =>
      not_not.1 fun hp' => List.find?_eq_none.1 hfind p hp (decide_eq_true hp')
    have hnd : ((List.range (live.length + 1)).map (· + 1)).Nodup :=
      List.nodup_range.map fun a b hab => Nat.succ.inj hab
    have hle := (hnd.subperm hsub).length_le
    rw [List.length_map, List.length_range] at hle
    omega

/-- what a client asks of an allocator -/
inductive Request where
  | alloc
  | free (p : ℕ)
deriving DecidableEq, Repr

/-- the answers to a list of requests, and the arena after them -/
def Arena.serve (A : Allocator) : Arena → List Request → List ℕ × Arena
  | a, [] => ([], a)
  | a, .alloc :: reqs => ((a.alloc A).1 :: (serve A (a.alloc A).2 reqs).1, (serve A (a.alloc A).2 reqs).2)
  | a, .free p :: reqs => serve A (a.free p) reqs

/-- an allocator that gives the answers of a script, and NULL where the script would hand out a live block -/
def Allocator.replay (script : List ℕ) : Allocator where
  pick n live := if script.getD n 0 < 2 ^ 32 ∧ script.getD n 0 ∉ live then script.getD n 0 else 0
  pick_lt n live := by
    split_ifs with h
    · exact h.1
    · exact Nat.two_pow_pos 32
  fresh n live h0 := by
    split_ifs at h0 with h
    · rw [if_pos h]
      exact h.2
    · exact absurd rfl h0

/-- an answer that is fresh when its turn comes is given -/
theorem Arena.alloc_replay {script : List ℕ} {a : Arena} {p : ℕ} {rest : List ℕ} (hs : script.drop a.calls = p :: rest)
    (hp : p < 2 ^ 32) (hfresh : p ≠ 0 → p ∉ a.live) : (a.alloc (Allocator.replay script)).1 = p := by
  have hget : script.getD a.calls 0 = p := by
    have h0 := congrArg (fun l => l[0]?) hs
    simp only [List.getElem?_drop, Nat.add_zero, List.getElem?_cons_zero] at h0
    rw [List.getD_eq_getElem?_getD, h0, Option.getD_some]
  simp only [Arena.alloc, Allocator.replay, hget]
  by_cases h0 : p = 0
  · subst h0
    split_ifs <;> rfl
  · exact if_pos ⟨hp, hfresh h0⟩

variable {β : Type}

/-- following the links of `rd` from `p` visits the cells `l` (pointer, contents), none of them NULL, and ends at `q` -/
def Seg (rd : ℕ → β × ℕ) : ℕ → List (ℕ × β) → ℕ → Prop
  | p, [], q => p = q
  | p, c :: l, q => p = c.1 ∧ c.1 ≠ 0 ∧ (rd c.1).1 = c.2 ∧ Seg rd (rd c.1).2 l q

/-- the pointer of the last cell, or `p` if there is none -/
def lastPtr (p : ℕ) (l : List (ℕ × β)) : ℕ := (l.getLast?.map Prod.fst).getD p

instance decSeg [DecidableEq β] (rd : ℕ → β × ℕ) : ∀ p l q, Decidable (Seg rd p l q)
  | p, [], q => inferInstanceAs (Decidable (p = q))
  | p, c :: l, q =>
    haveI := decSeg rd (rd c.1).2 l q
    inferInstanceAs (Decidable (p = c.1 ∧ c.1 ≠ 0 ∧ (rd c.1).1 = c.2 ∧ Seg rd (rd c.1).2 l q))

/-- the pointers of a list of cells -/
def ptrs (l : List (ℕ × β)) : List ℕ := l.map Prod.fst

variable {rd rd' : ℕ → β × ℕ} {p q r : ℕ} {c : ℕ × β} {l l₁ l₂ : List (ℕ × β)}

/-- the loop over a list from `p` on: the first cell at which `stop` holds, or NULL, and the cell before it -/
def scan (rd : ℕ → β × ℕ) (stop : β → Bool) : ℕ → ℕ → ℕ → Except Fault (ℕ × ℕ)
  | 0, _, _ => .error .diverges
  | fuel + 1, p, prev =>
    if p = 0 ∨ stop (rd p).1 then .ok (p, prev) else scan rd stop fuel (rd p).2 p

/-- the cells from `p` on, as far as they go -/
def readList (rd : ℕ → β × ℕ) : ℕ → ℕ → List (ℕ × β)
  | 0, _ => []
  | fuel + 1, p => if p = 0 then [] else (p, (rd p).1) :: readList rd fuel (rd p).2

@[simp] theorem ptrs_nil : ptrs ([] : List (ℕ × β)) = [] := rfl
@[simp] theorem ptrs_cons : ptrs (c :: l) = c.1 :: ptrs l := rfl
@[simp] theorem ptrs_append : ptrs (l₁ ++ l₂) = ptrs l₁ ++ ptrs l₂ := List.map_append

@[simp] theorem lastPtr_nil : lastPtr p ([] : List (ℕ × β)) = p := rfl

@[simp] theorem lastPtr_snoc : lastPtr p (l ++ [c]) = c.1 := by simp [lastPtr]

theorem lastPtr_cons : lastPtr p (c :: l) = lastPtr c.1 l := by
  rcases List.eq_nil_or_concat' l with rfl | ⟨l, d, rfl⟩
  · rfl
  · rw [← List.cons_append, lastPtr_snoc, lastPtr_snoc]

theorem mem_ptrs (h : c ∈ l) : c.1 ∈ ptrs l := List.mem_map_of_mem h

@[simp] theorem seg_nil : Seg rd p [] q ↔ p = q := Iff.rfl

theorem seg_cons : Seg rd p (c :: l) q ↔ p = c.1 ∧ c.1 ≠ 0 ∧ (rd c.1).1 = c.2 ∧ Seg rd (rd c.1).2 l q := Iff.rfl

theorem seg_append : Seg rd p (l₁ ++ l₂) q ↔ ∃ m, Seg rd p l₁ m ∧ Seg rd m l₂ q := by
  induction l₁ generalizing p with
  | nil => simp
  | cons c l₁ ih =>
    simp only [List.cons_append, seg_cons, ih]
    constructor
    · rintro ⟨h1, h2, h3, m, h4, h5⟩; exact ⟨m, ⟨h1, h2, h3, h4⟩, h5⟩
    · rintro ⟨m, ⟨h1, h2, h3, h4⟩, h5⟩; exact ⟨h1, h2, h3, m, h4, h5⟩

/-- a segment survives any change of memory outside its cells -/
theorem Seg.congr (h : Seg rd p l q) (he : ∀ a ∈ ptrs l, rd' a = rd a) : Seg rd' p l q := by
  induction l generalizing p with
  | nil => exact h
  | cons c l ih =>
    obtain ⟨h1, h2, h3, h4⟩ := h
    have hc : rd' c.1 = rd c.1 := he c.1 (by simp)
    refine ⟨h1, h2, by rw [hc]; exact h3, ?_⟩
    rw [hc]
    exact ih h4 (fun a ha => he a (by simp [ha]))

theorem Seg.ne_zero (h : Seg rd p l q) : 0 ∉ ptrs l := by
  induction l generalizing p with
  | nil => simp
  | cons c l ih =>
    obtain ⟨_, h2, _, h4⟩ := h
    simp only [ptrs_cons, List.mem_cons, not_or]
    exact ⟨fun h0 => h2 h0.symm, ih h4⟩

theorem Seg.contents (h : Seg rd p l q) : ∀ c ∈ l, (rd c.1).1 = c.2 := by
  induction l generalizing p with
  | nil => simp
  | cons c l ih =>
    obtain ⟨_, _, h3, h4⟩ := h
    intro d hd
    rcases List.mem_cons.1 hd with rfl | hd
    · exact h3
    · exact ih h4 d hd

/-- the last link of a segment is changed, and nothing before it -/
theorem Seg.relink {q' : ℕ} (h : Seg rd p (l ++ [c]) q) (he : ∀ a ∈ ptrs l, rd' a = rd a) (hc : rd' c.1 = (c.2, q')) :
    Seg rd' p (l ++ [c]) q' := by
  obtain ⟨m, h1, h2, h3, _, _⟩ := seg_append.1 h
  refine seg_append.2 ⟨m, h1.congr he, h2, h3, ?_, ?_⟩
  · rw [hc]
  · rw [hc, seg_nil]

/-- the contents of one cell change -/
theorem Seg.set {b : β} (h : Seg rd p (l₁ ++ c :: l₂) q) (hc : rd' c.1 = (b, (rd c.1).2))
    (he : ∀ a ∈ ptrs (l₁ ++ l₂), rd' a = rd a) : Seg rd' p (l₁ ++ (c.1, b) :: l₂) q := by
  obtain ⟨m, h1, rfl, h2, _, h4⟩ := seg_append.1 h
  refine seg_append.2 ⟨c.1, h1.congr fun a ha => he a (by simp [ha]), rfl, h2, by rw [hc], ?_⟩
  rw [hc]
  exact h4.congr fun a ha => he a (by simp [ha])

/-- a cell is linked after another, whose contents may change -/
theorem Seg.insertAfter {b : β} {d : ℕ × β} (h : Seg rd p (l₁ ++ c :: l₂) q) (hd0 : d.1 ≠ 0) (hc : rd' c.1 = (b, d.1))
    (hd : rd' d.1 = (d.2, (rd c.1).2)) (he : ∀ a ∈ ptrs (l₁ ++ l₂), rd' a = rd a) :
    Seg rd' p (l₁ ++ (c.1, b) :: d :: l₂) q := by
  obtain ⟨m, h1, rfl, h2, _, h4⟩ := seg_append.1 h
  refine seg_append.2 ⟨c.1, h1.congr fun a ha => he a (by simp [ha]), rfl, h2, by rw [hc], ?_⟩
  rw [hc]
  refine ⟨rfl, hd0, by rw [hd], ?_⟩
  rw [hd]
  exact h4.congr fun a ha => he a (by simp [ha])

/-- a cell is unlinked: the one before it takes its link -/
theorem Seg.unlink {d : ℕ × β} (h : Seg rd p (l₁ ++ d :: c :: l₂) q) (hd : rd' d.1 = (d.2, (rd c.1).2))
    (he : ∀ a ∈ ptrs (l₁ ++ l₂), rd' a = rd a) : Seg rd' p (l₁ ++ d :: l₂) q := by
  obtain ⟨m, h1, rfl, h2, _, h4⟩ := seg_append.1 h
  obtain ⟨_, _, _, h5⟩ := h4
  refine seg_append.2 ⟨d.1, h1.congr fun a ha => he a (by simp [ha]), rfl, h2, by rw [hd], ?_⟩
  rw [hd]
  exact h5.congr fun a ha => he a (by simp [ha])

/-- the link of the i-th cell is the pointer of the next one, or the stop after the last -/
theorem Seg.next_eq (h : Seg rd p l q) {i : ℕ} (hi : l[i]? = some c) :
    (rd c.1).2 = (l[i + 1]?.map Prod.fst).getD q := by
  induction l generalizing p i with
  | nil => simp at hi
  | cons d l ih =>
    obtain ⟨_, _, _, h4⟩ := h
    cases i with
    | zero =>
      simp only [List.getElem?_cons_zero, Option.some.injEq] at hi
      subst hi
      cases l with
      | nil => simpa using h4
      | cons e l => simpa using h4.1
    | succ i => simpa using ih h4 (by simpa using hi)

/-- what a loop over a list returns: the cells before are passed, and the list is cut there -/
theorem scan_spec {stop : β → Bool} {fuel prev pr : ℕ} (h : Seg rd p l 0) (hs : scan rd stop fuel p prev = .ok (q, pr)) :
    ∃ l₁ l₂, l = l₁ ++ l₂ ∧ (∀ c ∈ l₁, stop c.2 = false) ∧ pr = lastPtr prev l₁ ∧
      ((q = 0 ∧ l₂ = []) ∨ ∃ c l₃, l₂ = c :: l₃ ∧ q = c.1 ∧ stop c.2 = true) := by
  induction l generalizing p prev fuel with
  | nil =>
    cases fuel with
    | zero => cases hs
    | succ fuel =>
      rw [scan, if_pos (Or.inl (seg_nil.1 h))] at hs
      cases hs
      exact ⟨[], [], rfl, by simp, rfl, Or.inl ⟨seg_nil.1 h, rfl⟩⟩
  | cons c l ih =>
    cases fuel with
    | zero => cases hs
    | succ fuel =>
      obtain ⟨rfl, h2, h3, h4⟩ := h
      rw [scan, h3] at hs
      by_cases hstop : stop c.2 = true
      · rw [if_pos (Or.inr hstop)] at hs
        cases hs
        exact ⟨[], c :: l, rfl, by simp, rfl, Or.inr ⟨c, l, rfl, rfl, hstop⟩⟩
      · rw [if_neg (not_or.2 ⟨h2, hstop⟩)] at hs
        obtain ⟨l₁, l₂, rfl, hl₁, hpr, hq⟩ := ih h4 hs
        refine ⟨c :: l₁, l₂, rfl, fun d hd => ?_, by rw [hpr, lastPtr_cons], hq⟩
        rcases List.mem_cons.1 hd with rfl | hd
        · simpa using hstop
        · exact hl₁ d hd

/-- a loop over a list that is shorter than its rounds returns -/
theorem scan_returns {stop : β → Bool} {fuel prev : ℕ} (h : Seg rd p l 0) (hfuel : l.length < fuel) :
    ∃ r, scan rd stop fuel p prev = .ok r := by
  induction l generalizing p prev fuel with
  | nil =>
    cases fuel with
    | zero => cases hfuel
    | succ fuel => exact ⟨_, by rw [scan, if_pos (Or.inl (seg_nil.1 h))]⟩
  | cons c l ih =>
    cases fuel with
    | zero => cases hfuel
    | succ fuel =>
      rw [scan]
      split_ifs with hstop
      · exact ⟨_, rfl⟩
      · obtain ⟨rfl, _, _, h4⟩ := h
        exact ih h4 (Nat.lt_of_succ_lt_succ hfuel)

/-- two segments from one pointer to one stop, which neither visits, are the same -/
theorem Seg.unique (h₁ : Seg rd p l₁ q) (h₂ : Seg rd p l₂ q) (hq₁ : q ∉ ptrs l₁) (hq₂ : q ∉ ptrs l₂) : l₁ = l₂ := by
  induction l₁ generalizing p l₂ with
  | nil =>
    cases l₂ with
    | nil => rfl
    | cons c l₂ =>
      rw [seg_nil] at h₁
      exact absurd (h₁.symm.trans h₂.1) (fun h => hq₂ (by simp [h]))
  | cons c l₁ ih =>
    cases l₂ with
    | nil =>
      rw [seg_nil] at h₂
      exact absurd (h₂.symm.trans h₁.1) (fun h => hq₁ (by simp [h]))
    | cons d l₂ =>
      obtain ⟨a1, _, a3, a4⟩ := h₁
      obtain ⟨b1, _, b3, b4⟩ := h₂
      have hcd : c.1 = d.1 := a1.symm.trans b1
      have hc : c = d := Prod.ext hcd (by rw [← a3, ← b3, hcd])
      subst hc
      simp only [ptrs_cons, List.mem_cons, not_or] at hq₁ hq₂
      rw [ih a4 b4 hq₁.2 hq₂.2]

end Gubos.Core
