/-
Allocation trees in order, and lookups in them (`add_allocation`, `vmm_find_allocation` in `mm/vmm.c`).

As long as records are only added, and no two of them overlap, the tree is a search tree of intervals (`Ordered`): every record
is on the side of every other that its addresses are on. A lookup of any address then ends at the record that contains it.
There is one exception. `vmm_find_allocation` computes the end of a record in 32 bits, and the end of a record with the last
page of the address space is 0, so that the record contains nothing.

- `Ordered.find`, `find_none`: what a lookup finds in a tree in order;
- `lookup_exact`: after any insertions, an address is looked up correctly if and only if it is not in a record that ends at 2^32;
- `last_page_not_found`: a record for the last page.
-/
import Gubos.Core.IntervalTree
import Gubos.Mm.LookupTree

namespace Gubos.Vmm

open Gubos.Core Gubos.Paging

/-- where the addresses of a record end -/
def VmmAllocation.upper (a : VmmAllocation) : ℕ := a.virtualAddr + a.pageCount * pageSize

/-- the address is one of the record's -/
def Contains (a : VmmAllocation) (x : ℕ) : Prop := a.virtualAddr ≤ x ∧ x < a.upper

/-- records left of a node end before it, and records right of it start after it -/
def Ordered (t : BinaryTree (ℕ × VmmAllocation)) : Prop := Spread VmmAllocation.virtualAddr VmmAllocation.upper t

instance (a : VmmAllocation) (x : ℕ) : Decidable (Contains a x) := inferInstanceAs (Decidable (_ ∧ _))

instance (t : BinaryTree (ℕ × VmmAllocation)) : Decidable (Ordered t) := decSpread _ _ t

/-! ## Lookups -/

section Find

variable {t t' : BinaryTree (ℕ × VmmAllocation)} {c : ℕ × VmmAllocation} {a : VmmAllocation} {x : ℕ}

theorem le_upper (a : VmmAllocation) : a.virtualAddr ≤ a.upper := Nat.le_add_right _ _

theorem endOf_le_upper (a : VmmAllocation) : endOf a ≤ a.upper := Nat.mod_le _ _

/-- a lookup stops at a record that contains the address and does not end at 2^32 -/
theorem findDir_stop_iff (hfits : 0 < a.pageCount → a.upper ≤ 2 ^ 32) :
    findDir x a = .stop ↔ Contains a x ∧ a.upper < 2 ^ 32 := by
  rw [findDir_stop]
  constructor
  · rintro ⟨hle, hlt⟩
    have hcount : 0 < a.pageCount := by
      by_contra h0
      have hdead : Dead a := dead_of_empty (Nat.eq_zero_of_not_pos h0)
      exact absurd (hlt.trans_le hdead) (not_lt.2 hle)
    have hne : a.upper ≠ 2 ^ 32 := by
      intro he
      have hzero : endOf a = 0 := by
        unfold endOf u32
        unfold VmmAllocation.upper at he
        rw [he]
        rfl
      omega
    exact ⟨⟨hle, hlt.trans_le (endOf_le_upper a)⟩, lt_of_le_of_ne (hfits hcount) hne⟩
  · rintro ⟨⟨hle, hlt⟩, hend⟩
    have hu : endOf a = a.upper := u32_of_lt hend
    rw [hu]
    exact ⟨hle, hlt⟩

/-- **A record in order is found.** -/
theorem Ordered.find (ht : Ordered t) (hc : c ∈ cells t) (hx : Contains c.2 x) (hend : c.2.upper < 2 ^ 32) :
    descend (findDir x) t = some c := by
  have hstop : findDir x c.2 = .stop := (findDir_stop_iff fun _ => hend.le).2 ⟨hx, hend⟩
  have hleft : ∀ d : VmmAllocation, c.2.upper ≤ d.virtualAddr → findDir x d = .left := fun d hd =>
    findDir_left (hx.2.trans_le hd)
  have hright : ∀ d : VmmAllocation, d.upper ≤ c.2.virtualAddr → findDir x d = .right := fun d hd =>
    findDir_right (((le_upper d).trans hd).trans hx.1) (((endOf_le_upper d).trans hd).trans hx.1)
  obtain ⟨d, hd, heq | hle⟩ := ht.descend hc hstop hleft fun d hd => by rw [hright d hd]; decide
  · rw [hd, heq]
  · have hdir := hright d.2 hle
    rw [(descend_some hd).2] at hdir
    cases hdir

/-- an address that is in no record is not found, nor is one in a record that ends at 2^32 -/
theorem find_none (hfits : ∀ c ∈ cells t, 0 < c.2.pageCount → c.2.upper ≤ 2 ^ 32)
    (hx : ∀ c ∈ cells t, Contains c.2 x → c.2.upper = 2 ^ 32) : descend (findDir x) t = none := by
  refine descend_none fun c hc hstop => ?_
  obtain ⟨hin, hend⟩ := (findDir_stop_iff (hfits c hc)).1 hstop
  exact absurd (hx c hc hin) hend.ne

/-- **A record is added** that overlaps no other; one that is empty is not put where another starts. -/
theorem Ordered.insertLeaf {p : ℕ} (ht : Ordered t)
    (hapart : ∀ d ∈ cells t, d.2.upper ≤ a.virtualAddr ∨ a.virtualAddr < d.2.virtualAddr ∧ a.upper ≤ d.2.virtualAddr) :
    Ordered (insertLeaf (insertDir a.virtualAddr) (p, a) t) := by
  refine Spread.insertLeaf ht (fun d hd hdir => ?_) fun d hd hdir => ?_
  · unfold insertDir at hdir
    split_ifs at hdir with hleft
    refine ((hapart d hd).resolve_left fun hle => ?_).2
    have := le_upper d.2
    omega
  · unfold insertDir at hdir
    split_ifs at hdir with hleft
    · exact absurd rfl hdir
    · exact (hapart d hd).resolve_right fun hlt => hleft hlt.1

theorem Ordered.grown (ht : Ordered t) (hg : Grown t a t')
    (hroot : ∀ c tl tr, t = .node c tl tr → c.2.pageCount = 0 → tl = .nil ∧ tr = .nil)
    (hapart : ∀ d ∈ cells t, d.2.upper ≤ a.virtualAddr ∨ a.virtualAddr < d.2.virtualAddr ∧ a.upper ≤ d.2.virtualAddr) :
    Ordered t' := by
  cases hg with
  | @root c tl tr hnode hc =>
    obtain ⟨rfl, rfl⟩ := hroot c tl tr hnode hc
    exact spread_leaf _
  | leaf _ _ => exact ht.insertLeaf hapart

/-- a record with pages that ends before another starts before it -/
theorem lt_of_upper_le {d : VmmAllocation} (ha : 0 < a.pageCount) (h : a.upper ≤ d.virtualAddr) : a.virtualAddr < d.virtualAddr :=
  (Nat.lt_add_of_pos_right (Nat.mul_pos ha (by decide))).trans_le h

end Find

/-! ## Trees that are built -/

/-- `add_allocation` of one record after the other -/
def addAllocations (A : Allocator) (ctx : VmmContext) (as : List VmmAllocation) (h : Heap) : Except Fault Heap :=
  as.foldlM (fun h a => addAllocation A h ctx a) h

/-- not empty, page-aligned, inside the address space, which they may fill to its end, and disjoint -/
structure RangesOk (as : List VmmAllocation) : Prop where
  nonempty : ∀ a ∈ as, 0 < a.pageCount
  aligned : ∀ a ∈ as, a.virtualAddr % pageSize = 0
  fits : ∀ a ∈ as, a.upper ≤ 2 ^ 32
  apart : as.Pairwise fun a b => a.upper ≤ b.virtualAddr ∨ b.upper ≤ a.virtualAddr

/-- the lookup returns the record that contains the address, and the zero record if and only if there is none -/
def FindsExactly (h : Heap) (ctx : VmmContext) (as : List VmmAllocation) (x : ℕ) : Prop :=
  ∃ d, vmmFindAllocation h ctx x = .ok d ∧ (∀ a ∈ as, Contains a x → d = a) ∧
    (d = ⟨0, 0, 0, 0⟩ ↔ ∀ a ∈ as, ¬ Contains a x)

/-- a tree with exactly these records, in order; without any, there is an empty root -/
structure Built (h : Heap) (ctx : VmmContext) (as : List VmmAllocation) (t : BinaryTree (ℕ × VmmAllocation)) : Prop where
  rep : Rep h ctx [] t
  ordered : Ordered t
  records : (∃ r, t = .node (r, ⟨0, 0, 0, 0⟩) .nil .nil) ∧ as = [] ∨ ∀ c ∈ cells t, c.2 ∈ as
  has : ∀ a ∈ as, ∃ c ∈ cells t, c.2 = a

section Build

variable {A : Allocator} {h h₀ h₁ : Heap} {ctx : VmmContext} {as done : List VmmAllocation} {a : VmmAllocation}
  {t : BinaryTree (ℕ × VmmAllocation)} {x : ℕ}

theorem built_empty (hok : createEmptyCtx A h₀ = .ok (h, ctx)) : ∃ t, Built h ctx [] t := by
  obtain ⟨r, hr⟩ := createEmptyCtx_rep hok
  exact ⟨_, hr, spread_leaf _, Or.inl ⟨⟨r, rfl⟩, rfl⟩, fun a ha => absurd ha List.not_mem_nil⟩

/-- **One insertion.** -/
theorem Built.add (hb : Built h ctx done t) (hdone : ∀ d ∈ done, 0 < d.pageCount) (ha : 0 < a.pageCount)
    (hapart : ∀ d ∈ done, d.upper ≤ a.virtualAddr ∨ a.upper ≤ d.virtualAddr) (hok : addAllocation A h ctx a = .ok h₁) :
    ∃ t', Built h₁ ctx (a :: done) t' := by
  obtain ⟨t', hr, hgrown, _⟩ := addAllocation_spec hb.rep hok
  refine ⟨t', hr, ?_, Or.inr fun c hc => ?_, fun d hd => ?_⟩
  · rcases hb.records with ⟨⟨r, rfl⟩, _⟩ | hrec
    · cases hgrown with
      | @root c tl tr hnode _ =>
        cases hnode
        exact spread_leaf _
      | leaf _ hfull => exact absurd rfl (hfull _ _ _ rfl)
    · refine hb.ordered.grown hgrown (fun c tl tr hnode hc => ?_)
        fun d hd => (hapart _ (hrec d hd)).imp_right fun h => ⟨lt_of_upper_le ha h, h⟩
      have hmem : c ∈ cells t := by
        rw [hnode]
        exact List.mem_cons_self
      exact absurd hc (hdone _ (hrec c hmem)).ne'
  · rcases hgrown.mem c hc with rfl | hold
    · exact List.mem_cons_self
    · rcases hb.records with ⟨⟨r, rfl⟩, rfl⟩ | hrec
      · -- the empty root took the record
        cases hgrown with
        | @root c' tl tr hnode _ =>
          cases hnode
          rw [List.mem_singleton.1 hc]
          exact List.mem_cons_self
        | leaf _ hfull => exact absurd rfl (hfull _ _ _ rfl)
      · exact List.mem_cons_of_mem _ (hrec c hold)
  · rcases List.mem_cons.1 hd with rfl | hd
    · exact hgrown.has
    · obtain ⟨c, hc, rfl⟩ := hb.has d hd
      have hcount := hdone _ hd
      cases hgrown with
      | @root c' tl tr hnode hc' =>
        subst hnode
        rcases List.mem_cons.1 hc with rfl | hc
        · exact absurd hc' hcount.ne'
        · exact ⟨c, List.mem_cons_of_mem _ hc, rfl⟩
      | leaf _ _ => exact ⟨c, (cells_insertLeaf _ _ _).mem_iff.2 (List.mem_cons_of_mem _ hc), rfl⟩

/-- **All insertions.** -/
theorem Built.addAll (hb : Built h ctx done t) (has : RangesOk (as.reverse ++ done)) (hok : addAllocations A ctx as h = .ok h₁) :
    ∃ t', Built h₁ ctx (as.reverse ++ done) t' := by
  induction as generalizing h done t with
  | nil =>
    cases hok
    exact ⟨t, hb⟩
  | cons a as ih =>
    obtain ⟨h₂, hadd, hok⟩ := bind_ok.1 hok
    rw [List.reverse_cons, List.append_assoc, List.singleton_append] at has ⊢
    have hmem : ∀ d ∈ a :: done, d ∈ as.reverse ++ a :: done := fun d hd => List.mem_append_right _ hd
    have hapart := (List.pairwise_append.1 has.apart).2.1
    obtain ⟨t₂, hb₂⟩ := hb.add (fun d hd => has.nonempty d (hmem d (List.mem_cons_of_mem _ hd)))
      (has.nonempty a (hmem a List.mem_cons_self)) (fun d hd => ((List.pairwise_cons.1 hapart).1 d hd).symm) hadd
    exact ih hb₂ has hok

theorem RangesOk.perm {bs : List VmmAllocation} (has : RangesOk as) (hp : as.Perm bs) : RangesOk bs where
  nonempty := fun a ha => has.nonempty a (hp.mem_iff.2 ha)
  aligned := fun a ha => has.aligned a (hp.mem_iff.2 ha)
  fits := fun a ha => has.fits a (hp.mem_iff.2 ha)
  apart := (hp.pairwise_iff fun h => h.symm).1 has.apart

/-- two ranges with an address in common are one -/
theorem RangesOk.eq_of_contains (has : RangesOk as) {b : VmmAllocation} (ha : a ∈ as) (hb : b ∈ as) (hax : Contains a x)
    (hbx : Contains b x) : a = b := by
  by_contra hne
  have : Std.Symm fun a b : VmmAllocation => a.upper ≤ b.virtualAddr ∨ b.upper ≤ a.virtualAddr := ⟨fun _ _ h => h.symm⟩
  have hapart := has.apart.forall ha hb hne
  unfold Contains at hax hbx
  omega

/-- what a lookup answers -/
theorem Built.find_eq (hb : Built h ctx as t) (has : RangesOk as) :
    (∃ a ∈ as, Contains a x ∧ a.upper < 2 ^ 32 ∧ vmmFindAllocation h ctx x = .ok a) ∨
      (∀ a ∈ as, Contains a x → a.upper = 2 ^ 32) ∧ vmmFindAllocation h ctx x = .ok ⟨0, 0, 0, 0⟩ := by
  by_cases hin : ∃ a ∈ as, Contains a x ∧ a.upper < 2 ^ 32
  · obtain ⟨a, ha, hx, hend⟩ := hin
    obtain ⟨c, hc, rfl⟩ := hb.has a ha
    refine Or.inl ⟨c.2, ha, hx, hend, ?_⟩
    rw [vmmFindAllocation_eq hb.rep, hb.ordered.find hc hx hend]
    rfl
  · have hlast : ∀ a ∈ as, Contains a x → a.upper = 2 ^ 32 := fun a ha hx =>
      le_antisymm (has.fits a ha) (not_lt.1 fun hlt => hin ⟨a, ha, hx, hlt⟩)
    have hcell : ∀ c ∈ cells t, c.2.pageCount = 0 ∨ c.2 ∈ as := by
      intro c hc
      rcases hb.records with ⟨⟨r, rfl⟩, _⟩ | hrec
      · rw [List.mem_singleton.1 hc]
        exact Or.inl rfl
      · exact Or.inr (hrec c hc)
    refine Or.inr ⟨hlast, ?_⟩
    rw [vmmFindAllocation_eq hb.rep, find_none (fun c hc hpos => ?_) fun c hc hx => ?_]
    · rfl
    · exact has.fits _ ((hcell c hc).resolve_left hpos.ne')
    · refine hlast _ ((hcell c hc).resolve_left fun h0 => ?_) hx
      unfold Contains VmmAllocation.upper at hx
      rw [h0] at hx
      omega

/-- **Lookups.** After any insertions of ranges that do not overlap, in any order, the lookup of an address is exact if and
only if no range that contains the address ends at 2^32. -/
theorem lookup_exact (hempty : createEmptyCtx A h₀ = .ok (h₁, ctx)) (has : RangesOk as)
    (hbuild : addAllocations A ctx as h₁ = .ok h) :
    FindsExactly h ctx as x ↔ ∀ a ∈ as, Contains a x → a.upper < 2 ^ 32 := by
  obtain ⟨t₀, hb₀⟩ := built_empty hempty
  have hperm : as.Perm (as.reverse ++ []) := by
    rw [List.append_nil]
    exact as.reverse_perm.symm
  have has' := has.perm hperm
  obtain ⟨t, hb⟩ := hb₀.addAll has' hbuild
  have hmem : ∀ a, a ∈ as.reverse ++ [] ↔ a ∈ as := fun a => hperm.mem_iff.symm
  constructor
  · rintro ⟨d, hd, hsome, hzero⟩ a ha hx
    rcases hb.find_eq (x := x) has' with ⟨b, hb', hbx, hend, _⟩ | ⟨_, hfind⟩
    · rwa [has.eq_of_contains ha ((hmem b).1 hb') hx hbx]
    · -- the zero record is no range
      rw [hfind] at hd
      cases hd
      have := has.nonempty a ha
      rw [← hsome a ha hx] at this
      exact absurd this (lt_irrefl 0)
  · intro hend
    rcases hb.find_eq (x := x) has' with ⟨b, hb', hbx, _, hfind⟩ | ⟨hlast, hfind⟩
    · have hbas := (hmem b).1 hb'
      refine ⟨b, hfind, fun a ha hx => has.eq_of_contains hbas ha hbx hx, fun h0 => ?_, fun hnone => ?_⟩
      · have := has.nonempty b hbas
        rw [h0] at this
        exact absurd this (lt_irrefl 0)
      · exact absurd hbx (hnone b hbas)
    · have hout : ∀ a ∈ as, ¬ Contains a x := fun a ha hx => (hend a ha hx).ne (hlast a ((hmem a).2 ha) hx)
      exact ⟨_, hfind, fun a ha hx => absurd hx (hout a ha), iff_of_true rfl hout⟩

end Build

/-! ### Concrete trees -/

section Concrete

/-- three ranges, the first added in the middle of the other two -/
def threeRanges : List VmmAllocation :=
  [⟨0x400000, 0x800000, 2, 7⟩, ⟨0x100000, 0x900000, 1, 7⟩, ⟨0xC0000000, 0, 256, 3⟩]

/-- the last page of the address space -/
def lastPage : List VmmAllocation := [⟨0xFFFFF000, 0x900000, 1, 3⟩]

/-- an address space without records, and one with them -/
def emptySpace : Heap × VmmContext := returned (emptyHeap, ⟨0, 0⟩) (createEmptyCtx .top emptyHeap)

def built (as : List VmmAllocation) : Heap := returned emptyHeap (addAllocations .top emptySpace.2 as emptySpace.1)

theorem emptySpace_eq : createEmptyCtx .top emptyHeap = .ok emptySpace := rfl

instance (as : List VmmAllocation) : Decidable (RangesOk as) :=
  decidable_of_iff ((∀ a ∈ as, 0 < a.pageCount) ∧ (∀ a ∈ as, a.virtualAddr % pageSize = 0) ∧ (∀ a ∈ as, a.upper ≤ 2 ^ 32) ∧
      as.Pairwise fun a b => a.upper ≤ b.virtualAddr ∨ b.upper ≤ a.virtualAddr)
    ⟨fun ⟨h1, h2, h3, h4⟩ => ⟨h1, h2, h3, h4⟩, fun h => ⟨h.nonempty, h.aligned, h.fits, h.apart⟩⟩

theorem lookup_exact_second_page :
    RangesOk threeRanges ∧ addAllocations .top emptySpace.2 threeRanges emptySpace.1 = .ok (built threeRanges) ∧
      FindsExactly (built threeRanges) emptySpace.2 threeRanges 0x401234 := by
  have hok : RangesOk threeRanges := by decide
  have hbuild : addAllocations .top emptySpace.2 threeRanges emptySpace.1 = .ok (built threeRanges) :=
    eq_returned _ (by decide +kernel)
  exact ⟨hok, hbuild, (lookup_exact emptySpace_eq hok hbuild).2 (by decide)⟩

/-- **The last page of the address space is not found.** -/
theorem last_page_not_found :
    RangesOk lastPage ∧ createEmptyCtx .top emptyHeap = .ok emptySpace ∧
      addAllocations .top emptySpace.2 lastPage emptySpace.1 = .ok (built lastPage) ∧
      vmmFindAllocation (built lastPage) emptySpace.2 0xFFFFF000 = .ok ⟨0, 0, 0, 0⟩ ∧
      ¬ FindsExactly (built lastPage) emptySpace.2 lastPage 0xFFFFF000 := by
  have hzero : vmmFindAllocation (built lastPage) emptySpace.2 0xFFFFF000 = .ok ⟨0, 0, 0, 0⟩ := by decide +kernel
  refine ⟨by decide, emptySpace_eq, eq_returned _ (by decide +kernel), hzero, ?_⟩
  rintro ⟨d, hd, _, hiff⟩
  rw [hzero] at hd
  cases hd
  exact hiff.1 rfl _ List.mem_cons_self (by decide)

end Concrete

end Gubos.Vmm
