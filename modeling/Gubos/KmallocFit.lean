/-
Which requests the kernel heap can meet (`kmalloc.c`).

A region of `sz` bytes fits a request of `n` bytes when `sz = n`, or when there is room for another header, `sz > n + 8`.
`kmalloc` adds the 8 in 32 bits: a request of 2^32 - 8 bytes or more wraps to a number below 8, and then a region that is
far too small is taken for one that fits.

- `kmalloc_first_fit_iff`: in every run whose requests do not wrap into a region, `kmalloc` takes the first region that fits
  in exact arithmetic, or returns NULL when there is none, if and only if its own request does not wrap into one;
- `wrapped_request`: right after `kmalloc_init`, a request of 2^32 - 8 bytes is answered with a block.
-/
import Gubos.Kmalloc

namespace Gubos.Kmalloc

open Gubos.Core

/-! ## Exact and 32-bit fits -/

/-- a region of `sz` bytes fits a request of `n` bytes, in exact arithmetic -/
def FitsExactly (n sz : ℕ) : Prop := sz = n ∨ n + 8 < sz

instance (n sz : ℕ) : Decidable (FitsExactly n sz) := inferInstanceAs (Decidable (sz = n ∨ n + 8 < sz))

/-- what a request of `n` bytes has to do when `free` is on the free list: NULL exactly when no region fits, and else the
payload of the first that does, with the `n` bytes inside it -/
structure FirstFit (h : Heap) (free : List (ℕ × ℕ)) (n : ℕ) : Prop where
  null : (∃ h', kmalloc h n = .ok (h', 0)) ↔ ∀ c ∈ free, ¬ FitsExactly n c.2
  first : ∀ pre c post, free = pre ++ c :: post → (∀ d ∈ pre, ¬ FitsExactly n d.2) → FitsExactly n c.2 →
    ∃ h', kmalloc h n = .ok (h', c.1 + headerSize) ∧ n ≤ c.2

/-- `n + 8` does not wrap, or wraps to a number that no region on the list exceeds -/
def NoWrap (free : List (ℕ × ℕ)) (n : ℕ) : Prop := n + 8 < 2 ^ 32 ∨ ∀ c ∈ free, c.2 ≤ n + 8 - 2 ^ 32

/-- clients whose requests do not wrap into a region, who free what they own and write inside their blocks -/
def Careful (s : St) : Op → Prop
  | .alloc n => n < 2 ^ 32 ∧ ∀ free, Seg (header s.heap.mem) s.heap.kmallocHead free 0 → NoWrap free n
  | .free addr => Client s (.free addr)
  | .write addr v => Client s (.write addr v)

variable {h : Heap} {free live : List (ℕ × ℕ)} {n : ℕ}

theorem fits_iff (hn : n + 8 < 2 ^ 32) (sz : ℕ) : Fits n sz ↔ FitsExactly n sz := by
  have hu : u32 (n + headerSize) = n + 8 := u32_of_lt hn
  unfold Fits FitsExactly
  rw [hu]

theorem wrapped (hn : n < 2 ^ 32) (hw : 2 ^ 32 ≤ n + 8) : u32 (n + headerSize) = n + 8 - 2 ^ 32 := by
  unfold u32 headerSize
  omega

/-- a region is too small for a request that wraps -/
theorem not_fitsExactly (hi : HeapInv h free live) (hw : 2 ^ 32 ≤ n + 8) : ∀ c ∈ free, ¬ FitsExactly n c.2 := by
  intro c hc hfit
  have hb := hi.bounds (List.mem_append_left live hc)
  rcases hfit with he | hlt
  · omega
  · omega

/-! ## One request -/

/-- the search for a request that wraps finds nothing, as long as no region exceeds what it wraps to -/
theorem kmalloc_wrapped (hi : HeapInv h free live) (hn : n < 2 ^ 32) (hw : 2 ^ 32 ≤ n + 8)
    (hsmall : ∀ c ∈ free, c.2 ≤ n + 8 - 2 ^ 32) : kmalloc h n = .ok (h, 0) := by
  rcases kmalloc_cases hi n with ⟨_, hok⟩ | ⟨pre, c, post, rfl, _, hfit, _⟩
  · exact hok
  · have hb := hi.bounds (c := c) (by simp)
    have hle := hsmall c (by simp)
    unfold Fits at hfit
    rw [wrapped hn hw] at hfit
    omega

/-- whole or split, the payload of the region is returned -/
theorem take_snd (h : Heap) (n : ℕ) (c : ℕ × ℕ) (prevRegion : ℕ) : (take h n c prevRegion).2 = payload c.1 := by
  unfold take
  split_ifs with he
  · rfl
  · rfl

/-- and takes the first region that does -/
theorem kmalloc_wrapped_taken (hi : HeapInv h free live) (hn : n < 2 ^ 32) (hw : 2 ^ 32 ≤ n + 8)
    (hlarge : ∃ c ∈ free, n + 8 - 2 ^ 32 < c.2) : ∃ h' p, kmalloc h n = .ok (h', p) ∧ p ≠ 0 := by
  obtain ⟨d, hd, hlt⟩ := hlarge
  rcases kmalloc_cases hi n with ⟨hall, _⟩ | ⟨pre, c, post, rfl, _, _, hok⟩
  · refine absurd (Or.inr ?_) (hall d hd)
    rw [wrapped hn hw]
    exact hlt
  · have hb := hi.bounds (c := c) (by simp)
    have hpay : payload c.1 = c.1 + headerSize := u32_of_lt (by unfold headerSize; omega)
    refine ⟨(take h n c (lastPtr 0 pre)).1, (take h n c (lastPtr 0 pre)).2, hok, ?_⟩
    rw [take_snd, hpay]
    exact Nat.succ_ne_zero _

/-- the first region that fits is determined -/
theorem find_first {pre : List (ℕ × ℕ)} {c : ℕ × ℕ} (post : List (ℕ × ℕ)) (hpre : ∀ d ∈ pre, ¬ FitsExactly n d.2)
    (hfit : FitsExactly n c.2) : (pre ++ c :: post).find? (fun d => decide (FitsExactly n d.2)) = some c :=
  List.find?_eq_some_iff_append.2 ⟨by simpa using hfit, pre, post, rfl, by simpa using hpre⟩

/-- a request that does not wrap takes the first region that fits -/
theorem firstFit_of_lt (hi : HeapInv h free live) (hn : n + 8 < 2 ^ 32) : FirstFit h free n := by
  have hfits := fits_iff hn
  rcases kmalloc_fits hi hn with ⟨hall, hok⟩ | ⟨pre, c, post, h', free', rfl, hpre, hfit, hok, _⟩
  · refine ⟨⟨fun _ c hc hf => hall c hc ((hfits _).2 hf), fun _ => ⟨h, hok⟩⟩, ?_⟩
    rintro pre c post rfl _ hf
    exact absurd ((hfits _).2 hf) (hall c (by simp))
  · refine ⟨⟨?_, fun hall => absurd ((hfits _).1 hfit) (hall c (by simp))⟩, ?_⟩
    · rintro ⟨h₀, h0⟩
      rw [hok] at h0
      cases h0
    · intro pre' c' post' he hpre' hfit'
      have hfind := find_first post (fun d hd hf => hpre d hd ((hfits _).2 hf)) ((hfits _).1 hfit)
      rw [he, find_first post' hpre' hfit'] at hfind
      cases hfind
      refine ⟨h', hok, ?_⟩
      rcases hfit' with heq | hlt
      · exact heq.ge
      · omega

/-- **One request**: it takes the first region that fits in exact arithmetic if and only if it does not wrap into one. -/
theorem firstFit_iff (hi : HeapInv h free live) (hn : n < 2 ^ 32) : FirstFit h free n ↔ NoWrap free n := by
  rcases Nat.lt_or_ge (n + 8) (2 ^ 32) with hlt | hw
  · exact ⟨fun _ => Or.inl hlt, fun _ => firstFit_of_lt hi hlt⟩
  · have hnone := not_fitsExactly hi hw
    constructor
    · intro hfirst
      by_contra hno
      obtain ⟨h', p, hok, hp⟩ := kmalloc_wrapped_taken hi hn hw (by unfold NoWrap at hno; push Not at hno; exact hno.2)
      obtain ⟨h₀, hnull⟩ := hfirst.null.2 hnone
      rw [hok] at hnull
      cases hnull
      exact hp rfl
    · intro hno
      have hsmall : ∀ c ∈ free, c.2 ≤ n + 8 - 2 ^ 32 := hno.resolve_left (not_lt.2 hw)
      refine ⟨⟨fun _ => hnone, fun _ => ⟨h, kmalloc_wrapped hi hn hw hsmall⟩⟩, ?_⟩
      rintro pre c post rfl _ hf
      exact absurd hf (hnone c (by simp))

/-! ## Every run -/

theorem step_careful {s t : St} {o : Op} {free : List (ℕ × ℕ)} (hi : HeapInv s.heap free s.live) (hC : Careful s o)
    (hok : step s o = .ok t) : ∃ free', HeapInv t.heap free' t.live := by
  cases o with
  | alloc n =>
    obtain ⟨hn, hno⟩ := hC
    obtain ⟨⟨h', p⟩, hk, he⟩ := bind_ok.1 hok
    cases he
    rcases Nat.lt_or_ge (n + 8) (2 ^ 32) with hlt | hw
    · rcases kmalloc_fits hi hlt with ⟨_, hnull⟩ | ⟨_, c, _, _, free', _, _, _, hr, hi'⟩
      · rw [hnull] at hk
        cases hk
        exact ⟨free, hi⟩
      · rw [hr] at hk
        cases hk
        exact ⟨free', hi'⟩
    · rw [kmalloc_wrapped hi hn hw ((hno free hi.links).resolve_left (not_lt.2 hw))] at hk
      cases hk
      exact ⟨free, hi⟩
  | free addr => exact step_heapInv hi (o := .free addr) hC hok
  | write addr v => exact step_heapInv hi (o := .write addr v) hC hok

theorem careful_of_client {s : St} {o : Op} (h : Client s o) : Careful s o := by
  cases o with
  | alloc n =>
    have hn : n ≤ 0x03000000 := h
    exact ⟨by omega, fun free _ => Or.inl (by omega)⟩
  | free addr => exact h
  | write addr v => exact h

theorem careful_inv {mem : Mem} {ops : List Op} {s : St} (hr : Runs step Careful ⟨kmallocInit mem, []⟩ ops s) :
    ∃ free, HeapInv s.heap free s.live :=
  hr.inv (P := fun s => ∃ free, HeapInv s.heap free s.live) (fun _ _ _ ⟨_, hi⟩ hC hok => step_careful hi hC hok)
    ⟨_, heapInv_init mem⟩

/-- **When `kmalloc` succeeds exactly when a region fits.** In every run after `kmalloc_init` whose requests do not wrap into
a region, the free list is what following the links from `KMALLOC_HEAD` visits, and a request of `n` bytes takes the first
region on it that fits in exact arithmetic, and NULL when there is none, if and only if `n + 8` does not wrap, or no region
exceeds what it wraps to. -/
theorem kmalloc_first_fit_iff {mem : Mem} {ops : List Op} {s : St} (hr : Runs step Careful ⟨kmallocInit mem, []⟩ ops s) :
    ∃ free, Seg (header s.heap.mem) s.heap.kmallocHead free 0 ∧
      ∀ n < 2 ^ 32, FirstFit s.heap free n ↔ NoWrap free n := by
  obtain ⟨free, hi⟩ := careful_inv hr
  exact ⟨free, hi.links, fun n hn => firstFit_iff hi hn⟩

/-- after two blocks were taken, one freed and one taken again, 100 bytes are found, and a request for 2^32 - 8 bytes is answered
as it should be only if the free regions are empty -/
theorem kmalloc_first_fit_iff_reuse :
    Runs step Careful ⟨kmallocInit fun _ => 0, []⟩ reuse reused ∧
      ∃ free, Seg (header reused.heap.mem) reused.heap.kmallocHead free 0 ∧ FirstFit reused.heap free 100 ∧
        (FirstFit reused.heap free 0xFFFFFFF8 ↔ ∀ c ∈ free, c.2 = 0) := by
  have hc : Runs step Client start reuse reused := .of_exec (by decide +kernel) rfl
  have hr : Runs step Careful ⟨kmallocInit fun _ => 0, []⟩ reuse reused := hc.mono fun _ _ => careful_of_client
  obtain ⟨free, hseg, hiff⟩ := kmalloc_first_fit_iff hr
  refine ⟨hr, free, hseg, (hiff 100 (by decide)).2 (Or.inl (by decide)), ?_⟩
  rw [hiff 0xFFFFFFF8 (by decide)]
  simp [NoWrap]

/-- **A wrapped request is answered.** Right after `kmalloc_init` no region fits 2^32 - 8 bytes, and `kmalloc` returns a
block. -/
theorem wrapped_request :
    Seg (header start.heap.mem) start.heap.kmallocHead [(0xE0000000, 0x2FFFFF8)] 0 ∧
      ¬ FitsExactly 0xFFFFFFF8 0x2FFFFF8 ∧ (∃ h, kmalloc start.heap 0xFFFFFFF8 = .ok (h, 0xE0000008)) ∧
      ¬ FirstFit start.heap [(0xE0000000, 0x2FFFFF8)] 0xFFFFFFF8 := by
  have hi : HeapInv start.heap [(0xE0000000, 0x2FFFFF8)] [] := heapInv_init fun _ => 0
  have hnot : ¬ FitsExactly 0xFFFFFFF8 0x2FFFFF8 := by
    unfold FitsExactly
    decide
  have hok : ∃ h, kmalloc start.heap 0xFFFFFFF8 = .ok (h, 0xE0000008) := by
    rcases kmalloc_cases hi 0xFFFFFFF8 with ⟨hall, _⟩ | ⟨pre, c, post, he, _, _, hok⟩
    · exact absurd (Or.inr (by decide)) (hall (0xE0000000, 0x2FFFFF8) (by simp))
    · have hc : c = (0xE0000000, 0x2FFFFF8) := by
        have hmem : c ∈ [(0xE0000000, 0x2FFFFF8)] := he ▸ (by simp)
        simpa using hmem
      subst hc
      exact ⟨_, hok⟩
  refine ⟨hi.links, hnot, hok, fun hf => ?_⟩
  obtain ⟨h, hok⟩ := hok
  obtain ⟨h₀, hnull⟩ := hf.null.2 (by simpa using hnot)
  rw [hok] at hnull
  cases hnull

end Gubos.Kmalloc
