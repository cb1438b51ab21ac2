/-
Which page the physical page allocator hands out, and which pages come back.

`pmm_alloc_page` is meant to hand out the lowest free page, so a freed page is handed out again as soon as all lower pages
are in use. That needs `pmm_free_page` to clear the bit of its page. It shifts by the page number instead of by the number of
the bit in its byte; the i386 takes the count modulo 32, and the mask is cut to a byte, so three frees out of four clear
nothing.

- `alloc_lowest`: with a clear bit among the first 2^20, the lowest page is returned and only its bit is set; the inner loop
  ends after at most 7 shifts;
- `free_exact_iff`: a free is exact, and its page comes back, if and only if the page number is below 8 modulo 32;
- `page_eight_leaks`: freeing page 8 changes nothing, and the page is not handed out again.
-/
import Gubos.Mm.Pmm

namespace Gubos.Pmm

open Gubos.Core

/-! ## The lowest page -/

/-- the inner loop of `pmm_alloc_page` on `entry` ends after `n` shifts: bit 0 is set before each of them, and clear then -/
structure ShiftsOut (entry : BitVec 8) (n : ℕ) : Prop where
  before : ∀ k < n, (entry >>> k).getLsbD 0 = true
  after : (entry >>> n).getLsbD 0 = false

theorem getLsbD_shifted (entry : BitVec 8) (k : ℕ) : (entry >>> k).getLsbD 0 = entry.getLsbD k := by
  rw [BitVec.getLsbD_ushiftRight, Nat.add_zero]

/-- any number of rounds past `n` gives the same count, so the 8 rounds of the model cut nothing off -/
theorem allocBit_of_shiftsOut {entry : BitVec 8} {n : ℕ} (h : ShiftsOut entry n) {fuel : ℕ} (hn : n < fuel) :
    allocBit fuel entry = n := by
  rcases Nat.lt_trichotomy (allocBit fuel entry) n with hlt | heq | hgt
  · have hset := h.before _ hlt
    rw [getLsbD_shifted, allocBit_clear fuel entry (by omega)] at hset
    cases hset
  · exact heq
  · have hclear := h.after
    rw [getLsbD_shifted, allocBit_below fuel entry n hgt] at hclear
    cases hclear

/-- the bits of a byte up to the first clear one are the rounds of the inner loop -/
theorem shiftsOut_of_lowest {bm : Bitmap} {q : ℕ} (hclear : used bm q = false) (hbelow : ∀ p < q, used bm p = true) :
    ShiftsOut (bm (q / 8)) (q % 8) := by
  constructor
  · intro k hk
    have hp := hbelow (q / 8 * 8 + k) (by omega)
    have hdiv : (q / 8 * 8 + k) / 8 = q / 8 := by omega
    have hmod : (q / 8 * 8 + k) % 8 = k := by omega
    unfold used at hp
    rw [hdiv, hmod] at hp
    rw [getLsbD_shifted]
    exact hp
  · rw [getLsbD_shifted]
    exact hclear

/-- **The lowest page is handed out.** With a clear bit among the first 2^20, `pmm_alloc_page` returns the address of the
smallest page whose bit is clear, sets that bit and no other, and its inner loop ends after at most 7 shifts, however many
rounds it is given. -/
theorem alloc_lowest (bm : Bitmap) (h : ∃ q < 2 ^ 20, used bm q = false) :
    ∃ q bm', used bm q = false ∧ (∀ p < q, used bm p = true) ∧ pmmAllocPage bm = .ok (q * pageSize, bm') ∧
      (∀ p, used bm' p = (used bm p || decide (p = q))) ∧
      ∃ n ≤ 7, ShiftsOut (bm (q / 8)) n ∧ ∀ fuel > n, allocBit fuel (bm (q / 8)) = n := by
  obtain ⟨p, hp, hfree⟩ := h
  rcases allocPage_spec bm with ⟨q, bm', _, hclear, hbelow, hok, hset⟩ | ⟨hall, _⟩
  · have hq : q ≤ p := by
      by_contra hlt
      rw [hbelow p (by omega)] at hfree
      cases hfree
    have haddr : u32 (q * pageSize) = q * pageSize := u32_of_lt (by unfold pageSize; omega)
    have hshifts := shiftsOut_of_lowest hclear hbelow
    rw [haddr] at hok
    exact ⟨q, bm', hclear, hbelow, hok, hset, q % 8, by omega, hshifts, fun fuel hn => allocBit_of_shiftsOut hshifts hn⟩
  · rw [hall p (by omega)] at hfree
    cases hfree

theorem alloc_lowest_someUsed :
    ∃ q bm', used someUsed q = false ∧ (∀ p < q, used someUsed p = true) ∧
      pmmAllocPage someUsed = .ok (q * pageSize, bm') ∧ (∀ p, used bm' p = (used someUsed p || decide (p = q))) ∧
      ∃ n ≤ 7, ShiftsOut (someUsed (q / 8)) n ∧ ∀ fuel > n, allocBit fuel (someUsed (q / 8)) = n :=
  alloc_lowest someUsed ⟨8, by decide, by decide⟩

/-! ## Freed pages -/

/-- operations that leave the page at `addr` alone: allocations that return another page, and frees of other pages -/
def Elsewhere (addr : ℕ) (s : St) : Op → Prop
  | .alloc => ∀ bm, pmmAllocPage s.bitmap ≠ .ok (addr, bm)
  | .free a => a / pageSize ≠ addr / pageSize

/-- what freeing the page at `addr` has to do -/
structure FreedExactly (bm : Bitmap) (addr : ℕ) : Prop where
  /-- its bit is cleared, and no other bit changes -/
  bit : ∀ q, used (pmmFreePage bm addr) q = (used bm q && !decide (q = addr / pageSize))
  /-- after any operations elsewhere, if all lower pages are in use, the next allocation returns it -/
  again : ∀ held ops s, Runs step (Elsewhere addr) ⟨pmmFreePage bm addr, held⟩ ops s →
    (∀ p < addr / pageSize, used s.bitmap p = true) → ∃ bm', pmmAllocPage s.bitmap = .ok (addr, bm')

/-- an allocation that finds page `q` clear and all lower pages in use returns `q` -/
theorem alloc_eq {bm : Bitmap} {q : ℕ} (hq : q < 2 ^ 20) (hclear : used bm q = false) (hbelow : ∀ p < q, used bm p = true) :
    ∃ bm', pmmAllocPage bm = .ok (q * pageSize, bm') := by
  rcases allocPage_spec bm with ⟨r, bm', _, hr, hlow, hok, _⟩ | ⟨hall, _⟩
  · have hrq : r = q := by
      rcases Nat.lt_trichotomy r q with hlt | heq | hgt
      · rw [hbelow r hlt] at hr
        cases hr
      · exact heq
      · rw [hlow q hgt] at hclear
        cases hclear
    subst hrq
    rw [u32_of_lt (by unfold pageSize; omega)] at hok
    exact ⟨bm', hok⟩
  · rw [hall q (by omega)] at hclear
    cases hclear

/-- an operation elsewhere leaves a clear bit clear -/
theorem step_elsewhere {addr : ℕ} {s t : St} {o : Op} (hal : addr % pageSize = 0) (hlt : addr < 2 ^ 32)
    (hclear : used s.bitmap (addr / pageSize) = false) (hC : Elsewhere addr s o) (hok : step s o = .ok t) :
    used t.bitmap (addr / pageSize) = false := by
  cases o with
  | alloc =>
    obtain ⟨⟨a, bm⟩, ha, he⟩ := bind_ok.1 hok
    cases he
    have hmul : addr / pageSize * pageSize = addr := Nat.div_mul_cancel (Nat.dvd_of_mod_eq_zero hal)
    rcases allocPage_spec s.bitmap with ⟨q, _, _, _, _, hq, hset⟩ | ⟨_, herr⟩
    · rw [hq] at ha
      cases ha
      have hne : addr / pageSize ≠ q := by
        intro he
        apply hC bm
        rw [hq, ← he, hmul, u32_of_lt hlt]
      simp only [hset, hclear, hne, decide_false, Bool.or_self]
    · rw [herr] at ha
      cases ha
  | free a =>
    cases hok
    simp only [freePage_used, hclear, Bool.false_and]

/-- a page whose bit was cleared comes back -/
theorem comes_back {bm : Bitmap} {addr : ℕ} {held : List ℕ} {ops : List Op} {s : St} (hal : addr % pageSize = 0)
    (hlt : addr < 2 ^ 32) (hclear : used (pmmFreePage bm addr) (addr / pageSize) = false)
    (hr : Runs step (Elsewhere addr) ⟨pmmFreePage bm addr, held⟩ ops s)
    (hbelow : ∀ p < addr / pageSize, used s.bitmap p = true) : ∃ bm', pmmAllocPage s.bitmap = .ok (addr, bm') := by
  have hs : used s.bitmap (addr / pageSize) = false :=
    hr.inv (P := fun s => used s.bitmap (addr / pageSize) = false)
      (fun _ _ _ hclear hC hok => step_elsewhere hal hlt hclear hC hok) hclear
  obtain ⟨bm', hok⟩ := alloc_eq (by unfold pageSize; omega) hs hbelow
  rw [Nat.div_mul_cancel (Nat.dvd_of_mod_eq_zero hal)] at hok
  exact ⟨bm', hok⟩

/-- **When freeing is exact.** For every bitmap and every page-aligned address whose bit is set, the free clears that bit and
no other, and the page is handed out again once all lower pages are in use, if and only if the page number is below 8
modulo 32. -/
theorem free_exact_iff (bm : Bitmap) (addr : ℕ) (hal : addr % pageSize = 0) (hlt : addr < 2 ^ 32)
    (hused : used bm (addr / pageSize) = true) : FreedExactly bm addr ↔ addr / pageSize % 32 < 8 := by
  constructor
  · intro h
    have hbit := h.bit (addr / pageSize)
    rw [freePage_used, hused] at hbit
    simpa using hbit
  · intro hmod
    have hbit : ∀ q, used (pmmFreePage bm addr) q = (used bm q && !decide (q = addr / pageSize)) := by
      intro q
      rw [freePage_used]
      simp only [hmod, and_true]
    refine ⟨hbit, fun held ops s hr hbelow => comes_back hal hlt ?_ hr hbelow⟩
    rw [hbit]
    simp

/-- pages 0 to 8 are in use -/
def nineUsed : Bitmap := fun i => if i = 0 then bitmapEntryMask else if i = 1 then 1#8 else 0#8

theorem free_exact_iff_nineUsed : FreedExactly nineUsed 0x7000 ∧ ¬ FreedExactly nineUsed 0x8000 :=
  ⟨(free_exact_iff nineUsed 0x7000 (by decide) (by decide) (by decide)).2 (by decide),
    fun h => absurd ((free_exact_iff nineUsed 0x8000 (by decide) (by decide) (by decide)).1 h) (by decide)⟩

/-- **Page 8 leaks.** Its bit stays set when it is freed, and with all lower pages in use the next allocation returns
page 9. -/
theorem page_eight_leaks :
    used nineUsed 8 = true ∧ used (pmmFreePage nineUsed 0x8000) 8 = true ∧
      (∀ p < 8, used (pmmFreePage nineUsed 0x8000) p = true) ∧
      (∃ bm, pmmAllocPage (pmmFreePage nineUsed 0x8000) = .ok (0x9000, bm)) ∧ ¬ FreedExactly nineUsed 0x8000 := by
  have hset : used (pmmFreePage nineUsed 0x8000) 8 = true := by decide
  have hlow : ∀ p < 8, used (pmmFreePage nineUsed 0x8000) p = true := by decide
  refine ⟨by decide, hset, hlow, ?_, fun h => ?_⟩
  · refine alloc_eq (q := 9) (by decide) (by decide) fun p hp => ?_
    rcases Nat.lt_succ_iff_lt_or_eq.1 hp with hp | rfl
    · exact hlow p hp
    · exact hset
  · have hbit := h.bit 8
    rw [hset] at hbit
    exact absurd hbit (by decide)

end Gubos.Pmm
