/-
Which requests `vmm_unmap_pages` accepts, and what it leaves of an allocation (`mm/vmm.c`).

The first pages of an allocation are unmapped in place: the record is shifted. Two things go wrong there.
- The page count is compared with the ADDRESS of the record, where its page count is meant. So any count below the address is
  accepted, and the count of the record wraps below zero; and a count above it is not, however many pages there are.
- `physical_addr` is not moved together with `virtual_addr`. So the pages that remain are translated to the frames of the pages
  that were unmapped.

Results:
- `shape_kept`: the list and the tree survive any calls that return, whatever the areas and the records are;
- `rejects_iff`: in every state that is reached, exactly which requests are decided as they should;
- `count_wraps`: two pages of an allocation of one page;
- `translation_kept_iff`: the translation of what remains is kept only where the node found is an empty one in front of the allocation;
- `remainder_at_first_frame`: one of two pages.

Premise: where a node is removed, its parent link is right.
-/
import Gubos.Mm.Conservation
import Gubos.Mm.OrderedTree
import Gubos.Mm.Totality

namespace Gubos.Vmm

open Gubos.Core Gubos.Paging

/-! ## Calls of any kind -/

/-- page counts have 32 bits, and a node that is removed has a right parent link -/
def Regular (s : Space) : Call → Prop
  | .map _ _ pageCount _ => pageCount < 2 ^ 32
  | .unmap virtualAddr pageCount => pageCount = virtualAddr → ∀ t, TreeAt s.heap.node s.ctx.allocations t →
      ∀ c ∈ descend (startDir virtualAddr) t, ParentOk s.heap s.ctx t c.1

/-- a list and a tree in cells of their own; nothing is said about the areas and the records -/
structure Kept (s : Space) (l : List (ℕ × Area)) (t : BinaryTree (ℕ × VmmAllocation)) : Prop where
  rep : Rep s.heap s.ctx l t
  counts : ∀ c ∈ cells t, c.2.pageCount < 2 ^ 32

section Kept

variable {A : Allocator} {mi : KernelMeminfo} {s s' : Space} {l : List (ℕ × Area)} {t t' : BinaryTree (ℕ × VmmAllocation)}
  {c : ℕ × VmmAllocation} {va pa n flags r : ℕ} {h h' h₀ : Heap} {ctx ctx' : VmmContext} {es : List AddrSpaceEntry}

/-- the record found is shifted, or its node removed -/
inductive Unmapped (t : BinaryTree (ℕ × VmmAllocation)) (va n : ℕ) (c : ℕ × VmmAllocation) :
    BinaryTree (ℕ × VmmAllocation) → Prop
  | shifted (hlt : n < va) : Unmapped t va n c (t.map (setCell c.1 (shrunk c.2 n)))
  | removed (heq : n = va) : Unmapped t va n c (removeCell c.1 t)

/-- **Unmapping**, whatever the areas and the records are. -/
theorem unmap_kept (hr : Rep s.heap s.ctx l t) (hreg : Regular s (.unmap va n)) (hok : step A mi s (.unmap va n) = .ok s') :
    ∃ c l' t', descend (startDir va) t = some c ∧ c.2.virtualAddr = va ∧ Unmapped t va n c t' ∧ Rep s'.heap s'.ctx l' t' := by
  obtain ⟨c, h₁, ctx₁, hfound, hcva, hadd, hcases⟩ := unmap_cases hr hok
  obtain ⟨l', hr₁, _⟩ := addFreeBlocks_frame hr hadd
  rcases hcases with ⟨hlt, hshift⟩ | ⟨heq, hremove⟩
  · exact ⟨c, l', _, hfound, hcva, .shifted hlt, (hshift l' hr₁).1⟩
  · exact ⟨c, l', _, hfound, hcva, .removed heq, hremove (hreg heq t hr.tree c hfound) l' hr₁⟩

/-- where the records come from -/
theorem Unmapped.mem (hu : Unmapped t va n c t') (hnd : (ptrs (cells t)).Nodup) (hc : c ∈ cells t) {d : ℕ × VmmAllocation}
    (hd : d ∈ cells t') : d ∈ cells t ∧ d ≠ c ∨ n < va ∧ d = (c.1, shrunk c.2 n) := by
  cases hu with
  | shifted hlt =>
    rw [cells_map] at hd
    obtain ⟨e, he, rfl⟩ := List.mem_map.1 hd
    unfold setCell
    split_ifs with hec
    · exact Or.inr ⟨hlt, rfl⟩
    · exact Or.inl ⟨he, fun h => hec (congrArg Prod.fst h)⟩
  | removed _ =>
    have hperm := cells_removeCell hnd hc
    have hnd' : (ptrs (c :: cells (removeCell c.1 t))).Nodup := (hperm.map Prod.fst).nodup_iff.2 hnd
    rw [ptrs_cons, List.nodup_cons] at hnd'
    refine Or.inl ⟨mem_cells_removeCell hd, ?_⟩
    rintro rfl
    exact hnd'.1 (mem_ptrs hd)

theorem kept_step {o : Call} (hk : ∃ l t, Kept s l t) (hreg : Regular s o) (hok : step A mi s o = .ok s') :
    ∃ l t, Kept s' l t := by
  obtain ⟨l, t, hr, hcounts⟩ := hk
  cases o with
  | map va pa n flags =>
    obtain ⟨⟨h', ctx', r⟩, hmap, hok⟩ := bind_ok.1 hok
    cases hok
    obtain ⟨_, _, _, l', t', hr', hgrown, _⟩ := map_frame hr hmap
    refine ⟨l', t', hr', fun c hc => ?_⟩
    rcases hgrown.mem c hc with he | hc
    · rw [he]
      exact hreg
    · exact hcounts c hc
  | unmap va n =>
    obtain ⟨c, l', t', hfound, _, hu, hr'⟩ := unmap_kept hr hreg hok
    refine ⟨l', t', hr', fun d hd => ?_⟩
    rcases hu.mem hr.nodup_tree (descend_some hfound).1 hd with ⟨hd, _⟩ | ⟨_, rfl⟩
    · exact hcounts d hd
    · exact Nat.mod_lt _ (Nat.two_pow_pos 32)

theorem mapAddrSpace_kept (hes : ∀ e ∈ es, e.pageCount < 2 ^ 32) (hk : ∃ l t, Kept ⟨h, ctx⟩ l t)
    (hok : mapAddrSpace A mi es h ctx = .ok (h', ctx')) : ∃ l t, Kept ⟨h', ctx'⟩ l t := by
  induction es generalizing h ctx with
  | nil =>
    cases hok
    exact hk
  | cons e es ih =>
    obtain ⟨⟨h₁, ctx₁, r⟩, hmap, hok⟩ := bind_ok.1 hok
    refine ih (fun f hf => hes f (List.mem_cons_of_mem _ hf)) ?_ hok
    have hstep : step A mi ⟨h, ctx⟩ (.map e.virtualStart e.physicalStart e.pageCount e.flags) = .ok ⟨h₁, ctx₁⟩ :=
      bind_ok.2 ⟨_, hmap, rfl⟩
    have hreg : Regular ⟨h, ctx⟩ (.map e.virtualStart e.physicalStart e.pageCount e.flags) := hes e List.mem_cons_self
    exact kept_step hk hreg hstep

theorem newContext_kept (hes : ∀ e ∈ es, e.pageCount < 2 ^ 32) (hok : vmmNewContext A mi es h₀ = .ok (h, ctx)) :
    ∃ l t, Kept ⟨h, ctx⟩ l t := by
  obtain ⟨⟨h₁, ctx₁⟩, hempty, hok⟩ := bind_ok.1 hok
  obtain ⟨⟨h₂, ctx₂⟩, huser, hok⟩ := bind_ok.1 hok
  obtain ⟨⟨h₃, ctx₃⟩, hkernel, hok⟩ := bind_ok.1 hok
  obtain ⟨r, hr₁⟩ := createEmptyCtx_rep hempty
  obtain ⟨l₂, hr₂, _⟩ := addFreeBlocks_frame hr₁ huser
  obtain ⟨l₃, hr₃, _⟩ := addFreeBlocks_frame hr₂ hkernel
  refine mapAddrSpace_kept hes ⟨l₃, _, hr₃, fun c hc => ?_⟩ hok
  rw [List.mem_singleton.1 hc]
  exact Nat.two_pow_pos 32

/-- **The list and the tree survive** any calls that return. -/
theorem shape_kept {ops : List Call} (hes : ∀ e ∈ es, e.pageCount < 2 ^ 32) (hnew : vmmNewContext A mi es h₀ = .ok (h, ctx))
    (hrun : Runs (step A mi) Regular ⟨h, ctx⟩ ops s) : ∃ l t, Kept s l t :=
  hrun.inv (P := fun s => ∃ l t, Kept s l t) (fun _ _ _ hk hreg hok => kept_step hk hreg hok) (newContext_kept hes hnew)

end Kept

/-! ## Accepting and rejecting -/

/-- an allocation with so many pages or more starts at the address -/
def HasPages (t : BinaryTree (ℕ × VmmAllocation)) (va n : ℕ) : Prop :=
  ∃ c ∈ cells t, c.2.virtualAddr = va ∧ n ≤ c.2.pageCount

/-- the call fails if and only if no allocation has the pages, and no record has more pages after it than before -/
structure RejectsBad (A : Allocator) (mi : KernelMeminfo) (s : Space) (t : BinaryTree (ℕ × VmmAllocation)) (va n : ℕ) :
    Prop where
  panics : (∃ e, step A mi s (.unmap va n) = .error e) ↔ ¬ HasPages t va n
  counts : ∀ s' t', step A mi s (.unmap va n) = .ok s' → TreeAt s'.heap.node s'.ctx.allocations t' →
    ∀ c' ∈ cells t', ∃ c ∈ cells t, c.1 = c'.1 ∧ c'.2.pageCount ≤ c.2.pageCount

/-- what the comparison with the address comes to: below it, the node found has the pages; at it, the node found has a left child
exactly if an allocation has the pages; and above it, or if no node is found, none has -/
def DecidedRight (s : Space) (t : BinaryTree (ℕ × VmmAllocation)) (va n : ℕ) : Prop :=
  match descend (startDir va) t with
  | none => ¬ HasPages t va n
  | some c =>
    if n < va then n ≤ c.2.pageCount
    else if n = va then ((s.heap.nodes c.1).left ≠ 0 ↔ HasPages t va n)
    else ¬ HasPages t va n

section Reject

variable {A : Allocator} {mi : KernelMeminfo} {s s' : Space} {l : List (ℕ × Area)} {t t' : BinaryTree (ℕ × VmmAllocation)}
  {c : ℕ × VmmAllocation} {va n : ℕ} {h h' h₀ : Heap} {ctx ctx' : VmmContext} {es : List AddrSpaceEntry}

/-- what an unmap decides -/
theorem unmap_ok_iff (hr : Rep s.heap s.ctx l t) (halloc : (s.heap.arena.alloc A).1 ≠ 0) (hva : va % pageSize = 0)
    (hreg : Regular s (.unmap va n)) :
    (∃ s', step A mi s (.unmap va n) = .ok s') ↔
      ∃ c, descend (startDir va) t = some c ∧ (n < va ∨ n = va ∧ (s.heap.nodes c.1).left ≠ 0) := by
  obtain ⟨h₁, ctx₁, hadd, hcall⟩ := @unmapPages_eq A mi s.heap s.ctx l t va n hr halloc hva
  obtain ⟨hnodes, hroot⟩ := addFreeBlocks_nodes hadd
  obtain ⟨l₁, hr₁, _⟩ := addFreeBlocks_frame hr hadd
  have hstep : (∃ s', step A mi s (.unmap va n) = .ok s') ↔ ∃ r, vmmUnmapPages A mi s.heap s.ctx va n = .ok r := by
    constructor
    · rintro ⟨s', hok⟩
      obtain ⟨r, hr, _⟩ := bind_ok.1 hok
      exact ⟨r, hr⟩
    · rintro ⟨r, hr⟩
      exact ⟨_, bind_ok.2 ⟨r, hr, rfl⟩⟩
  rw [hstep, hcall]
  cases hfound : descend (startDir va) t with
  | none => exact iff_of_false (fun ⟨r, hok⟩ => by cases hok) fun ⟨c, hc, _⟩ => by cases hc
  | some c =>
    obtain ⟨hc, hstop⟩ := descend_some hfound
    have hcva : (h₁.nodes c.1).alloc.virtualAddr = va := by
      have hcontents : (s.heap.nodes c.1).alloc = c.2 := hr.tree.contents _ hc
      rw [hnodes, hcontents]
      exact startDir_stop.1 hstop
    have hsome : ∀ P : ℕ × VmmAllocation → Prop, (∃ d, some c = some d ∧ P d) ↔ P c := fun P =>
      ⟨fun ⟨d, hd, hP⟩ => Option.some.inj hd ▸ hP, fun hP => ⟨c, rfl, hP⟩⟩
    rw [hsome]
    dsimp only
    unfold shrinkAllocation
    dsimp only
    rw [hcva]
    by_cases hlt : n < va
    · rw [if_pos hlt]
      exact iff_of_true ⟨_, rfl⟩ (Or.inl hlt)
    rw [if_neg hlt]
    by_cases heq : n = va
    · rw [if_pos heq]
      have hpar : ParentOk h₁ ctx₁ t c.1 := by
        have hpar := hreg heq t hr.tree c hfound
        unfold ParentOk at hpar ⊢
        rw [hnodes, hroot]
        exact hpar
      rw [removeAllocation_returns_iff hr₁ hc hpar hr₁.length_lt, hnodes]
      exact ⟨fun hleft => Or.inr ⟨heq, hleft⟩, fun hor => (hor.resolve_left hlt).2⟩
    · rw [if_neg heq]
      exact iff_of_false (fun ⟨r, hok⟩ => by cases hok) fun hor => hor.elim hlt fun hand => heq hand.1

/-- the count of a record does not wrap exactly if it has the pages -/
theorem shrunk_count_le (hn : 1 ≤ n) (hn32 : n < 2 ^ 32) (hc : c.2.pageCount < 2 ^ 32) :
    (shrunk c.2 n).pageCount ≤ c.2.pageCount ↔ n ≤ c.2.pageCount := by
  unfold shrunk u32
  dsimp only
  omega

/-- the records after a call that returns -/
theorem Kept.after (hk : Kept s l t) (hreg : Regular s (.unmap va n)) (hfound : descend (startDir va) t = some c)
    (hok : step A mi s (.unmap va n) = .ok s') (ht' : TreeAt s'.heap.node s'.ctx.allocations t') : Unmapped t va n c t' := by
  obtain ⟨d, l₁, t₁, hd, _, hu, hr₁⟩ := unmap_kept hk.rep hreg hok
  obtain rfl := hr₁.tree.unique ht'
  obtain rfl := Option.some.inj (hfound.symm.trans hd)
  exact hu

/-- a count below the address is accepted, so the node found must have the pages -/
theorem Kept.request_below (hk : Kept s l t) (halloc : (s.heap.arena.alloc A).1 ≠ 0) (hva : va % pageSize = 0) (hn : 1 ≤ n)
    (hn32 : n < 2 ^ 32) (hreg : Regular s (.unmap va n)) (hfound : descend (startDir va) t = some c) (hlt : n < va) :
    RejectsBad A mi s t va n ↔ n ≤ c.2.pageCount := by
  obtain ⟨hc, hstop⟩ := descend_some hfound
  have hnd := hk.rep.nodup_tree
  have hreturns : ∃ s', step A mi s (.unmap va n) = .ok s' := (unmap_ok_iff hk.rep halloc hva hreg).2 ⟨c, hfound, Or.inl hlt⟩
  have hcount := shrunk_count_le hn hn32 (hk.counts c hc)
  constructor
  · intro hrej
    obtain ⟨s', hs'⟩ := hreturns
    obtain ⟨d, l₁, t₁, hd, _, hu, hr₁⟩ := unmap_kept hk.rep hreg hs'
    obtain rfl := Option.some.inj (hfound.symm.trans hd)
    cases hu with
    | removed heq => exact absurd heq hlt.ne
    | shifted _ =>
      have hmem : (c.1, shrunk c.2 n) ∈ cells (t.map (setCell c.1 (shrunk c.2 n))) := by
        rw [cells_map]
        exact List.mem_map.2 ⟨c, hc, if_pos rfl⟩
      obtain ⟨d, hd, hdc, hle⟩ := hrej.counts s' _ hs' hr₁.tree _ hmem
      obtain rfl := List.inj_on_of_nodup_map hnd hd hc hdc
      exact hcount.1 hle
  · intro hle
    refine ⟨iff_of_false (fun he => error_iff.1 he hreturns) (not_not.2 ⟨c, hc, startDir_stop.1 hstop, hle⟩), ?_⟩
    intro s' t' hs' ht' c' hc'
    rcases (hk.after hreg hfound hs' ht').mem hnd hc hc' with ⟨hold, _⟩ | ⟨_, rfl⟩
    · exact ⟨c', hold, rfl, le_rfl⟩
    · exact ⟨c, hc, rfl, hcount.2 hle⟩

/-- any other count is accepted only if it is the address and the node found has a left child; and no record changes -/
theorem Kept.request_above (hk : Kept s l t) (halloc : (s.heap.arena.alloc A).1 ≠ 0) (hva : va % pageSize = 0)
    (hreg : Regular s (.unmap va n)) (hfound : descend (startDir va) t = some c) (hlt : ¬ n < va) :
    RejectsBad A mi s t va n ↔ (n = va ∧ (s.heap.nodes c.1).left ≠ 0 ↔ HasPages t va n) := by
  have hc := (descend_some hfound).1
  have hreturns : (∃ s', step A mi s (.unmap va n) = .ok s') ↔ n = va ∧ (s.heap.nodes c.1).left ≠ 0 := by
    rw [unmap_ok_iff hk.rep halloc hva hreg, hfound]
    constructor
    · rintro ⟨d, hd, hor⟩
      obtain rfl := Option.some.inj hd
      exact hor.resolve_left hlt
    · exact fun hand => ⟨c, rfl, Or.inr hand⟩
  rw [← hreturns]
  constructor
  · intro hrej
    exact not_iff_not.1 (error_iff.symm.trans hrej.panics)
  · intro h
    refine ⟨error_iff.trans (not_congr h), fun s' t' hs' ht' c' hc' => ?_⟩
    rcases (hk.after hreg hfound hs' ht').mem hk.rep.nodup_tree hc hc' with ⟨hold, _⟩ | ⟨hlt', _⟩
    · exact ⟨c', hold, rfl, le_rfl⟩
    · exact absurd hlt' hlt

/-- **One request.** -/
theorem Kept.request_iff (hk : Kept s l t) (halloc : (s.heap.arena.alloc A).1 ≠ 0) (hva : va % pageSize = 0) (hn : 1 ≤ n)
    (hn32 : n < 2 ^ 32) (hreg : Regular s (.unmap va n)) : RejectsBad A mi s t va n ↔ DecidedRight s t va n := by
  unfold DecidedRight
  cases hfound : descend (startDir va) t with
  | none =>
    have hfails : ¬ ∃ s', step A mi s (.unmap va n) = .ok s' := by
      rw [unmap_ok_iff hk.rep halloc hva hreg, hfound]
      exact fun ⟨c, hc, _⟩ => by cases hc
    refine ⟨fun hrej => hrej.panics.1 (error_iff.2 hfails), fun hno => ⟨iff_of_true (error_iff.2 hfails) hno, fun s' _ hs' => ?_⟩⟩
    exact absurd ⟨s', hs'⟩ hfails
  | some c =>
    dsimp only
    by_cases hlt : n < va
    · rw [if_pos hlt]
      exact hk.request_below halloc hva hn hn32 hreg hfound hlt
    · rw [if_neg hlt, hk.request_above halloc hva hreg hfound hlt]
      by_cases heq : n = va
      · rw [if_pos heq, and_iff_right heq]
      · rw [if_neg heq]
        exact ⟨fun h hp => heq (h.2 hp).1, fun h => iff_of_false (fun hand => heq hand.1) h⟩

end Reject

/-! ### Concrete requests -/

section ConcreteRequests

instance (t : BinaryTree (ℕ × VmmAllocation)) (va n : ℕ) : Decidable (HasPages t va n) :=
  inferInstanceAs (Decidable (∃ c ∈ cells t, c.2.virtualAddr = va ∧ n ≤ c.2.pageCount))

instance (s : Space) (t : BinaryTree (ℕ × VmmAllocation)) (va n : ℕ) : Decidable (DecidedRight s t va n) :=
  match hd : descend (startDir va) t with
  | none => decidable_of_iff (¬ HasPages t va n) (by unfold DecidedRight; rw [hd])
  | some c => decidable_of_iff (if n < va then n ≤ c.2.pageCount
      else if n = va then ((s.heap.nodes c.1).left ≠ 0 ↔ HasPages t va n) else ¬ HasPages t va n)
      (by unfold DecidedRight; rw [hd])

/-- one page is mapped -/
def onePage : List Call := [.map 0x400000 0x800000 1 7]

def afterOnePage : Space := returned ⟨fresh.1, fresh.2⟩ (Runs.exec (step .top .atOneMegabyte) ⟨fresh.1, fresh.2⟩ onePage)

theorem afterOnePage_run : Runs (step .top .atOneMegabyte) Regular ⟨fresh.1, fresh.2⟩ onePage afterOnePage := by
  have hstep : step .top .atOneMegabyte ⟨fresh.1, fresh.2⟩ (.map 0x400000 0x800000 1 7) = .ok afterOnePage :=
    eq_returned ⟨fresh.1, fresh.2⟩ (by decide +kernel)
  have hreg : Regular ⟨fresh.1, fresh.2⟩ (.map 0x400000 0x800000 1 7) := (by decide : 1 < 2 ^ 32)
  exact .cons hreg hstep (.nil _)

theorem afterOnePage_tree : TreeAt afterOnePage.heap.node afterOnePage.ctx.allocations (treeOf afterOnePage) := by
  decide +kernel

/-- the page and the one after it are unmapped -/
def afterTooMany : Space := returned afterOnePage (step .top .atOneMegabyte afterOnePage (.unmap 0x400000 2))

end ConcreteRequests

/-! ## What remains of an allocation -/

/-- every page that remains of `a` is found, with the flags and the frame that `a` gives it -/
def KeepsTranslation (s' : Space) (a : VmmAllocation) (n : ℕ) : Prop :=
  ∀ k, n ≤ k → k < a.pageCount → ∃ d, vmmFindAllocation s'.heap s'.ctx (a.virtualAddr + k * pageSize) = .ok d ∧
    Contains d (a.virtualAddr + k * pageSize) ∧ d.flags = a.flags ∧
    d.physicalAddr + (a.virtualAddr + k * pageSize - d.virtualAddr) = a.physicalAddr + k * pageSize

/-- the search of `vmm_unmap_pages` stops at an empty node before it comes to the allocation -/
def EmptyFound (t : BinaryTree (ℕ × VmmAllocation)) (va : ℕ) : Prop :=
  ∃ c, descend (startDir va) t = some c ∧ c.2.pageCount = 0

/-- the pages that are to remain are looked up correctly before the call -/
def FoundBefore (s : Space) (a : VmmAllocation) (n : ℕ) : Prop :=
  ∀ k, n ≤ k → k < a.pageCount → vmmFindAllocation s.heap s.ctx (a.virtualAddr + k * pageSize) = .ok a

/-- a node that is removed is not an empty one, and has a right parent link -/
def Removable (s : Space) (t : BinaryTree (ℕ × VmmAllocation)) (va n : ℕ) : Prop :=
  n = va → ∀ c ∈ descend (startDir va) t, 0 < c.2.pageCount ∧ ParentOk s.heap s.ctx t c.1

section Translation

variable {A : Allocator} {mi : KernelMeminfo} {s s' : Space} {l : List (ℕ × Area)} {t : BinaryTree (ℕ × VmmAllocation)}
  {c e : ℕ × VmmAllocation} {va n x : ℕ} {h h₀ : Heap} {ctx : VmmContext} {es : List AddrSpaceEntry}

theorem Contains.count_ne {a : VmmAllocation} (h : Contains a x) : a.pageCount ≠ 0 := by
  intro h0
  unfold Contains VmmAllocation.upper at h
  rw [h0] at h
  omega

theorem shrunk_addr {a : VmmAllocation} (hfits : a.virtualAddr + n * pageSize < 2 ^ 32) :
    (shrunk a n).virtualAddr = a.virtualAddr + n * pageSize := by
  unfold shrunk
  dsimp only
  rw [Nat.mul_comm pageSize n]
  exact u32_of_lt hfits

/-- an empty node that is shifted is passed by lookups of the pages after it as before -/
theorem descend_shift_empty (hnd : (ptrs (cells t)).Nodup) (hc : c ∈ cells t) (hempty : c.2.pageCount = 0)
    (hfits : c.2.virtualAddr + n * pageSize < 2 ^ 32) (hx : c.2.virtualAddr + n * pageSize ≤ x) :
    descend (findDir x) (t.map (setCell c.1 (shrunk c.2 n))) = descend (findDir x) t := by
  obtain ⟨tl, tr, hsub, _⟩ := subtreeAt_spec hnd hc
  have haddr := shrunk_addr hfits
  have hle : c.2.virtualAddr ≤ (shrunk c.2 n).virtualAddr := by
    rw [haddr]
    exact Nat.le_add_right _ _
  have hendc : endOf c.2 ≤ (shrunk c.2 n).virtualAddr := le_trans (dead_of_empty hempty) hle
  have hn : n ≤ 2 ^ 32 := by
    simp only [pageSize] at hfits
    omega
  have hdead : Dead (shrunk c.2 n) := by
    unfold Dead
    rw [endOf_shrunk c.2 hn]
    exact hendc
  rw [map_setCell_eq hnd hsub]
  refine descend_replaceAt hnd (mem_ptrs hc) ?_
  rw [hsub]
  exact descend_shift hdead hendc hle (Or.inr (haddr ▸ hx))

/-- **One request.** -/
theorem Inv.translation_iff (hi : Inv s l t) (he : e ∈ cells t) (hn : 1 ≤ n) (hnm : n < e.2.pageCount)
    (hrem : Removable s t e.2.virtualAddr n) (hok : step A mi s (.unmap e.2.virtualAddr n) = .ok s') :
    KeepsTranslation s' e.2 n ↔ EmptyFound t e.2.virtualAddr ∧ FoundBefore s e.2 n := by
  have hfits := (hi.records e he).fits (by omega)
  have hreg : Regular s (.unmap e.2.virtualAddr n) := by
    intro heq t₁ ht₁ c hc
    obtain rfl := hi.rep.tree.unique ht₁
    exact (hrem heq c hc).2
  obtain ⟨c, l', t', hfound, hcva, hu, hr'⟩ := unmap_kept hi.rep hreg hok
  have hc := (descend_some hfound).1
  have hnd := hi.rep.nodup_tree
  have hlow : e.2.virtualAddr + n * pageSize < 2 ^ 32 := by
    simp only [pageSize] at hfits ⊢
    omega
  -- the pages that remain are in the allocation
  have hin : ∀ k, k < e.2.pageCount → Contains e.2 (e.2.virtualAddr + k * pageSize) := by
    intro k hk
    unfold Contains VmmAllocation.upper
    simp only [pageSize]
    omega
  by_cases hempty : c.2.pageCount = 0
  · -- an empty node moves on, and the lookups are those before the call
    have hsame : ∀ k, n ≤ k → k < e.2.pageCount →
        vmmFindAllocation s'.heap s'.ctx (e.2.virtualAddr + k * pageSize) =
          vmmFindAllocation s.heap s.ctx (e.2.virtualAddr + k * pageSize) := by
      intro k hnk hk
      cases hu with
      | removed heq => exact absurd hempty (hrem heq c hfound).1.ne'
      | shifted _ =>
        rw [vmmFindAllocation_eq hr', vmmFindAllocation_eq hi.rep, descend_shift_empty hnd hc hempty (hcva ▸ hlow)]
        rw [hcva]
        exact Nat.add_le_add_left (Nat.mul_le_mul_right _ hnk) _
    refine ⟨fun hkeep => ⟨⟨c, hfound, hempty⟩, fun k hnk hk => ?_⟩, fun hcond k hnk hk => ?_⟩
    · obtain ⟨d, hd, hcont, _, _⟩ := hkeep k hnk hk
      rw [hsame k hnk hk] at hd
      obtain ⟨p, hp⟩ := descend_of_found hi.rep hcont.count_ne hd
      rw [hd]
      rw [hi.record_unique he (descend_some hp).1 (hin k hk) hcont]
    · refine ⟨e.2, (hsame k hnk hk).trans (hcond.2 k hnk hk), hin k hk, rfl, ?_⟩
      rw [Nat.add_sub_cancel_left]
  · -- the node is the allocation's own
    have hce : c = e := by
      refine hi.record_unique hc he (x := e.2.virtualAddr) ⟨hcva.le, ?_⟩ ⟨le_rfl, ?_⟩
      · simp only [pageSize]
        omega
      · simp only [pageSize]
        omega
    subst hce
    refine iff_of_false (fun hkeep => ?_) ?_
    · obtain ⟨d, hd, hcont, _, htrans⟩ := hkeep n le_rfl hnm
      obtain ⟨p, hp⟩ := descend_of_found hr' hcont.count_ne hd
      rcases hu.mem hnd hc (descend_some hp).1 with ⟨hg, hgc⟩ | ⟨_, hshrunk⟩
      · exact hgc (hi.record_unique hg hc hcont (hin n hnm))
      · -- the physical address is the one of the first page that was unmapped
        obtain rfl : d = shrunk c.2 n := congrArg Prod.snd hshrunk
        have hpa : c.2.physicalAddr = c.2.physicalAddr + n * pageSize := by
          rw [shrunk_addr hlow, Nat.sub_self] at htrans
          exact htrans
        simp only [pageSize] at hpa
        omega
    · rintro ⟨⟨d, hd, hd0⟩, _⟩
      obtain rfl := Option.some.inj (hfound.symm.trans hd)
      exact hempty hd0

/-- **What remains of an allocation.** In every state that is reached without the branches that lose or duplicate pages, the
translation of the pages that remain is kept if and only if the node found is an empty one, and the pages were looked up correctly
before. -/
theorem translation_kept_iff {ops : List Call} (h0 : 0 < mi.higherHalfBase) (hal : mi.higherHalfBase % pageSize = 0)
    (hes : AddrSpaceOk mi es) (hnew : vmmNewContext A mi es h₀ = .ok (h, ctx))
    (hrun : Runs (step A mi) (fun s o => CallOk s o ∧ Sound mi s o) ⟨h, ctx⟩ ops s)
    (ht : TreeAt s.heap.node s.ctx.allocations t) (he : e ∈ cells t) (hn : 1 ≤ n) (hnm : n < e.2.pageCount)
    (hrem : Removable s t e.2.virtualAddr n) (hok : step A mi s (.unmap e.2.virtualAddr n) = .ok s') :
    KeepsTranslation s' e.2 n ↔ EmptyFound t e.2.virtualAddr ∧ FoundBefore s e.2 n := by
  obtain ⟨l, t₁, hi⟩ := hrun.inv (P := fun s => ∃ l t, Inv s l t)
    (fun s o s' hi hC hok => step_inv hi hC.1 hC.2 hok) (newContext_inv h0 hal hes hnew)
  obtain rfl := hi.rep.tree.unique ht
  exact hi.translation_iff he hn hnm hrem hok

end Translation

/-! ### Concrete allocations -/

section ConcreteAllocations

/-- a page and an allocation of two pages after it are mapped, and the page is unmapped: its node is in front of the allocation -/
def pageBefore : List Call := [.map 0x400000 0x800000 1 7, .map 0x401000 0x900000 2 7, .unmap 0x400000 1]

def afterPageBefore : Space :=
  returned ⟨fresh.1, fresh.2⟩ (Runs.exec (step .top .atOneMegabyte) ⟨fresh.1, fresh.2⟩ pageBefore)

/-- the first page of the allocation is unmapped -/
def afterFirstPage : Space := returned afterPageBefore (step .top .atOneMegabyte afterPageBefore (.unmap 0x401000 1))

/-- two pages are mapped, and the first of them is unmapped -/
def twoAtOnce : List Call := [.map 0x400000 0x800000 2 7]

def afterTwoAtOnce : Space :=
  returned ⟨fresh.1, fresh.2⟩ (Runs.exec (step .top .atOneMegabyte) ⟨fresh.1, fresh.2⟩ twoAtOnce)

def afterFirstOfTwo : Space := returned afterTwoAtOnce (step .top .atOneMegabyte afterTwoAtOnce (.unmap 0x400000 1))

/-- the record of `n` pages at an address -/
def recordAt (s : Space) (va n : ℕ) : ℕ × VmmAllocation :=
  ((cells (treeOf s)).find? fun c => c.2.virtualAddr = va ∧ c.2.pageCount = n).getD (0, ⟨0, 0, 0, 0⟩)

theorem translation_kept_iff_page_before :
    (recordAt afterPageBefore 0x401000 2).2 = ⟨0x401000, 0x900000, 2, 7⟩ ∧
      step .top .atOneMegabyte afterPageBefore (.unmap 0x401000 1) = .ok afterFirstPage ∧
      KeepsTranslation afterFirstPage ⟨0x401000, 0x900000, 2, 7⟩ 1 := by
  have hrec : (recordAt afterPageBefore 0x401000 2).2 = ⟨0x401000, 0x900000, 2, 7⟩ := by decide +kernel
  have hrun : Runs (step .top .atOneMegabyte) (fun s o => CallOk s o ∧ Sound .atOneMegabyte s o) ⟨fresh.1, fresh.2⟩ pageBefore
      afterPageBefore := run_of_checked (.of_exec (by decide +kernel) rfl)
  have hok : step .top .atOneMegabyte afterPageBefore (.unmap 0x401000 1) = .ok afterFirstPage :=
    eq_returned afterPageBefore (by decide +kernel)
  have htree : TreeAt afterPageBefore.heap.node afterPageBefore.ctx.allocations (treeOf afterPageBefore) := by decide +kernel
  have hmem : recordAt afterPageBefore 0x401000 2 ∈ cells (treeOf afterPageBefore) := by decide +kernel
  have hempty : ∃ c ∈ descend (startDir 0x401000) (treeOf afterPageBefore), c.2.pageCount = 0 := by decide +kernel
  have hiff := translation_kept_iff (A := .top) (n := 1) (by decide) (by decide) entries_ok fresh_eq hrun htree hmem
    le_rfl (by rw [hrec]; decide) (by rw [hrec]; exact fun heq => absurd heq (by decide)) (by rw [hrec]; exact hok)
  rw [hrec] at hiff
  refine ⟨hrec, hok, hiff.2 ⟨hempty, fun k h1 h2 => ?_⟩⟩
  obtain rfl : k = 1 := le_antisymm (Nat.le_of_lt_succ h2) h1
  decide +kernel

/-- **The second of two pages** is translated to the frame of the first, once that is unmapped. -/
theorem remainder_at_first_frame :
    AddrSpaceOk .atOneMegabyte entries ∧ vmmNewContext .top .atOneMegabyte entries emptyHeap = .ok fresh ∧
      Runs (step .top .atOneMegabyte) (fun s o => CallOk s o ∧ Sound .atOneMegabyte s o) ⟨fresh.1, fresh.2⟩ twoAtOnce
        afterTwoAtOnce ∧
      (recordAt afterTwoAtOnce 0x400000 2).2 = ⟨0x400000, 0x800000, 2, 7⟩ ∧
      step .top .atOneMegabyte afterTwoAtOnce (.unmap 0x400000 1) = .ok afterFirstOfTwo ∧
      vmmFindAllocation afterFirstOfTwo.heap afterFirstOfTwo.ctx 0x401000 = .ok ⟨0x401000, 0x800000, 1, 7⟩ ∧
      ¬ KeepsTranslation afterFirstOfTwo ⟨0x400000, 0x800000, 2, 7⟩ 1 := by
  have hfind : vmmFindAllocation afterFirstOfTwo.heap afterFirstOfTwo.ctx 0x401000 = .ok ⟨0x401000, 0x800000, 1, 7⟩ := by
    decide +kernel
  refine ⟨entries_ok, fresh_eq, run_of_checked (.of_exec (by decide +kernel) rfl), by decide +kernel,
    eq_returned afterTwoAtOnce (by decide +kernel), hfind, fun hkeep => ?_⟩
  obtain ⟨d, hd, _, _, htrans⟩ := hkeep 1 le_rfl (by decide)
  have hd' : d = ⟨0x401000, 0x800000, 1, 7⟩ := Except.ok.inj (hd.symm.trans hfind)
  rw [hd'] at htrans
  exact absurd htrans (by decide)

end ConcreteAllocations

end Gubos.Vmm
