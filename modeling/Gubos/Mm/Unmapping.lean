/-
Unmapping a whole allocation, as `vmm_find_allocation` sees it.

After `vmm_unmap_pages` of a whole allocation no address of it is found, and every other address is found as before. That
is so in every run of calls in which
- the free list stays right, as for page conservation: a block that fits a request exactly starts at the requested address,
  and a range that is returned is not merged with a block that it does not continue;
- nothing is mapped while the root of the tree is empty and has children (the root then takes a record that belongs elsewhere);
- where the range to unmap ends at 2^32, so that the address of the node wraps to 0, the node found has exactly its pages and
  no pages are allocated below it in the tree;
- where `page_count` is the address itself, so that the node is removed, the node found has exactly its pages and a parent link
  that is right.
In particular the node found may be an empty one that an earlier unmap has left at the address: lookups do not see that. The
same premises as for page conservation. The allocations are the ones mapped and not yet unmapped, kept beside the state.

- `map_held`, `unmap_held`: one call keeps the invariant, and an unmap changes lookups as it should;
- `unmap_exact`: so in every such run;
- `exact_fit_overlaps`: a request in the middle of a block that fits exactly gets an allocation that overlaps the next one.
-/
import Gubos.Mm.LookupTree

namespace Gubos.Vmm

open Gubos.Core Gubos.Paging

/-! ## Calls and their condition -/

/-- an address space, and the allocations that were made and not unmapped yet -/
structure Used where
  space : Space
  live : List Area

def useStep (A : Allocator) (mi : KernelMeminfo) (u : Used) : Call → Except Fault Used
  | .map virtualAddr physicalAddr pageCount flags => do
    let (heap, ctx, addr) ← vmmMapPages A mi u.space.heap u.space.ctx virtualAddr physicalAddr pageCount flags
    .ok ⟨⟨heap, ctx⟩, ⟨addr, pageCount⟩ :: u.live⟩
  | .unmap virtualAddr pageCount => do
    let space ← step A mi u.space (.unmap virtualAddr pageCount)
    .ok ⟨space, u.live.erase ⟨virtualAddr, pageCount⟩⟩

/-- what callers do: map one page or more, anywhere or at a page; unmap whole allocations -/
def WholeOk (u : Used) : Call → Prop
  | .map virtualAddr _ pageCount _ => 1 ≤ pageCount ∧ virtualAddr % pageSize = 0
  | .unmap virtualAddr pageCount => ⟨virtualAddr, pageCount⟩ ∈ u.live

/-- an empty root has no children -/
def RootOk : BinaryTree (ℕ × VmmAllocation) → Prop
  | .nil => True
  | .node c l r => c.2.pageCount = 0 → l = .nil ∧ r = .nil

/-- the nodes below the root -/
def belowRoot : BinaryTree (ℕ × VmmAllocation) → List (ℕ × VmmAllocation)
  | .nil => []
  | .node _ l r => cells l ++ cells r

/-- the node found can be moved to address 0, or removed, if the call does that -/
def MoveOk (s : Space) (t : BinaryTree (ℕ × VmmAllocation)) (virtualAddr pageCount : ℕ) : Prop :=
  ∀ c ∈ descend (startDir virtualAddr) t,
    (pageCount < virtualAddr → virtualAddr + pageCount * pageSize = 2 ^ 32 →
      c.2.pageCount = pageCount ∧ ∀ d ∈ belowRoot (subtreeAt c.1 t), d.2.pageCount = 0) ∧
    (pageCount = virtualAddr → c.2.pageCount = pageCount ∧ ParentOk s.heap s.ctx t c.1)

/-- the call takes none of the branches that go wrong, given the list and the tree -/
def ExactAt (mi : KernelMeminfo) (s : Space) (l : List (ℕ × Area)) (t : BinaryTree (ℕ × VmmAllocation)) : Call → Prop
  | .map virtualAddr _ pageCount flags => FitOk mi l virtualAddr pageCount flags ∧ RootOk t
  | .unmap virtualAddr pageCount =>
      MergeOk mi (before virtualAddr l).getLast? (after virtualAddr l).head? virtualAddr pageCount ∧
      MoveOk s t virtualAddr pageCount

/-- the call takes none of the branches that go wrong -/
def Exact (mi : KernelMeminfo) (s : Space) (o : Call) : Prop := ∀ l t, Shape s l t → ExactAt mi s l t o

/-- no address of the range is found, and every other is found as before -/
def UnmapsExactly (s s' : Space) (virtualAddr pageCount : ℕ) : Prop :=
  ∀ x < 2 ^ 32,
    (virtualAddr ≤ x ∧ x < virtualAddr + pageCount * pageSize → vmmFindAllocation s'.heap s'.ctx x = .ok ⟨0, 0, 0, 0⟩) ∧
    (¬ (virtualAddr ≤ x ∧ x < virtualAddr + pageCount * pageSize) →
      vmmFindAllocation s'.heap s'.ctx x = vmmFindAllocation s.heap s.ctx x)

/-! ## The invariant -/

/-- free pages and allocations share out the pages; the live nodes `M` of the tree hold allocations, and the tree is tame -/
structure Held (u : Used) (l : List (ℕ × Area)) (t : BinaryTree (ℕ × VmmAllocation)) (M : Set ℕ) : Prop where
  rep : Rep u.space.heap u.space.ctx l t
  free : FreeOk l
  areas : ∀ a ∈ u.live, AreaOk a
  pages : ∀ x, freeCover l x + Tiling.cover (u.live.map span) x = Tiling.hit (0, 2 ^ 20) x
  holds : ∀ d ∈ cells t, d.1 ∈ M → ⟨d.2.virtualAddr, d.2.pageCount⟩ ∈ u.live
  unique : ∀ d ∈ cells t, ∀ e ∈ cells t, d.1 ∈ M → e.1 ∈ M → d.2.virtualAddr = e.2.virtualAddr → d = e
  tame : Tame M 0 t

section Apart

variable {u : Used} {l : List (ℕ × Area)} {t : BinaryTree (ℕ × VmmAllocation)} {M : Set ℕ} {a b : Area} {c : ℕ × Area}

/-- an allocation shares no page with the free list or with the other allocations -/
theorem Held.hits (hi : Held u l t M) (ha : a ∈ u.live) (x : ℕ) :
    freeCover l x + Tiling.hit (span a) x + Tiling.cover ((u.live.erase a).map span) x ≤ 1 := by
  have hperm : Tiling.cover (u.live.map span) x = Tiling.hit (span a) x + Tiling.cover ((u.live.erase a).map span) x := by
    rw [Tiling.cover_perm ((List.perm_cons_erase ha).map span), List.map_cons, Tiling.cover_cons]
  have := (hi.pages x).trans_le Tiling.hit_le_one
  omega

/-- an allocation is apart from the free blocks -/
theorem Held.apart_free (hi : Held u l t M) (ha : a ∈ u.live) (hc : c ∈ l) :
    c.2.virtualAddr + c.2.pageCount * pageSize ≤ a.virtualAddr ∨ a.virtualAddr + a.pageCount * pageSize ≤ c.2.virtualAddr := by
  have hcok := hi.free.area c hc
  refine apart_of_spans hcok.aligned (hi.areas a ha).aligned ?_
  refine Tiling.apart_of_hits hcok.nonempty (hi.areas a ha).nonempty fun x => ?_
  have hle : Tiling.hit (span c.2) x ≤ freeCover l x := Tiling.hit_le_cover (List.mem_map_of_mem hc)
  have := hi.hits ha x
  omega

/-- an allocation is apart from the others -/
theorem Held.apart_erase (hi : Held u l t M) (ha : a ∈ u.live) (hb : b ∈ u.live.erase a) :
    b.virtualAddr + b.pageCount * pageSize ≤ a.virtualAddr ∨ a.virtualAddr + a.pageCount * pageSize ≤ b.virtualAddr := by
  have hbok := hi.areas b (List.mem_of_mem_erase hb)
  refine apart_of_spans hbok.aligned (hi.areas a ha).aligned ?_
  refine Tiling.apart_of_hits hbok.nonempty (hi.areas a ha).nonempty fun x => ?_
  have hle : Tiling.hit (span b) x ≤ Tiling.cover ((u.live.erase a).map span) x :=
    Tiling.hit_le_cover (List.mem_map_of_mem hb)
  have := hi.hits ha x
  omega

/-- an allocation is determined by its address -/
theorem Held.eq_of_addr (hi : Held u l t M) (ha : a ∈ u.live) (hb : b ∈ u.live) (hab : b.virtualAddr = a.virtualAddr) :
    b = a := by
  by_contra hne
  have ha0 : 0 < a.pageCount * pageSize := Nat.mul_pos (hi.areas a ha).nonempty (by decide)
  have hb0 : 0 < b.pageCount * pageSize := Nat.mul_pos (hi.areas b hb).nonempty (by decide)
  have := hi.apart_erase ha ((List.mem_erase_of_ne hne).2 hb)
  omega

end Apart

/-! ## One call -/

section Map

variable {A : Allocator} {mi : KernelMeminfo} {u : Used} {h h' : Heap} {ctx ctx' : VmmContext} {l : List (ℕ × Area)}
  {t t' : BinaryTree (ℕ × VmmAllocation)} {M : Set ℕ} {va pa n flags r x : ℕ} {a : VmmAllocation} {live : List Area}

theorem endOf_le (a : VmmAllocation) : endOf a ≤ a.virtualAddr + a.pageCount * pageSize := Nat.mod_le _ _

theorem rootOk_leaf (c : ℕ × VmmAllocation) : RootOk (.node c .nil .nil) := fun _ => ⟨rfl, rfl⟩

theorem rootOk_insertLeaf {p : ℕ} (hroot : ∀ c tl tr, t = .node c tl tr → c.2.pageCount ≠ 0) :
    RootOk (insertLeaf (insertDir a.virtualAddr) (p, a) t) := by
  cases t with
  | nil => exact rootOk_leaf _
  | node c tl tr =>
    have hc := hroot c tl tr rfl
    unfold insertLeaf
    split
    · exact fun h0 => absurd h0 hc
    · exact fun h0 => absurd h0 hc

theorem Grown.rootOk (hg : Grown t a t') (ha : a.pageCount ≠ 0) : RootOk t' := by
  cases hg with
  | root _ _ => exact fun h0 => absurd h0 ha
  | leaf _ hroot => exact rootOk_insertLeaf hroot

/-- the next record takes the place of an empty root, also one without pages -/
theorem Grown.rootOk_kept (hg : Grown t a t') (ht : RootOk t) : RootOk t' := by
  cases hg with
  | @root c tl tr htree hc =>
    subst htree
    exact fun _ => ht hc
  | leaf _ hroot => exact rootOk_insertLeaf hroot

/-- mapping does not change what was found -/
theorem Grown.found_old {d : ℕ × VmmAllocation} (hg : Grown t a t') (hroot : RootOk t)
    (hd : descend (findDir x) t = some d) : descend (findDir x) t' = some d := by
  cases hg with
  | @root c tl tr htree hc =>
    -- the root is empty and the only node
    subst htree
    obtain ⟨rfl, rfl⟩ := hroot hc
    obtain ⟨hmem, hstop⟩ := descend_some hd
    rw [List.mem_singleton.1 hmem] at hstop
    exact absurd hstop (dead_ne_stop (dead_of_empty hc))
  | leaf _ _ => exact descend_insertLeaf hd

/-- a new record is found at its address -/
theorem Grown.found_new (hg : Grown t a t') (hnone : descend (findDir a.virtualAddr) t = none)
    (hend : a.virtualAddr < endOf a) : ∃ p, descend (findDir a.virtualAddr) t' = some (p, a) := by
  cases hg with
  | @root c tl tr htree hc =>
    have hstop : findDir a.virtualAddr a = .stop := findDir_stop.2 ⟨le_rfl, hend⟩
    exact ⟨c.1, by simp only [descend, hstop]⟩
  | @leaf p _ _ => exact ⟨p, descend_newLeaf hnone hend⟩

/-- a new allocation is apart from the live ones, and its node is live -/
theorem Grown.tame (hg : Grown t a t') (hroot : RootOk t) (ht : Tame M 0 t)
    (hholds : ∀ d ∈ cells t, d.1 ∈ M → ⟨d.2.virtualAddr, d.2.pageCount⟩ ∈ live)
    (hunique : ∀ d ∈ cells t, ∀ e ∈ cells t, d.1 ∈ M → e.1 ∈ M → d.2.virtualAddr = e.2.virtualAddr → d = e)
    (hpos : ∀ b ∈ live, b.virtualAddr ≠ a.virtualAddr)
    (hapart : ∀ b ∈ live, a.virtualAddr < b.virtualAddr → a.virtualAddr + a.pageCount * pageSize ≤ b.virtualAddr) :
    ∃ M', (∀ d ∈ cells t', d.1 ∈ M' → ⟨d.2.virtualAddr, d.2.pageCount⟩ ∈ (⟨a.virtualAddr, a.pageCount⟩ : Area) :: live) ∧
      (∀ d ∈ cells t', ∀ e ∈ cells t', d.1 ∈ M' → e.1 ∈ M' → d.2.virtualAddr = e.2.virtualAddr → d = e) ∧ Tame M' 0 t' := by
  cases hg with
  | @root c tl tr htree hc =>
    -- the root is the only node
    subst htree
    obtain ⟨rfl, rfl⟩ := hroot hc
    refine ⟨{c.1}, fun d hd _ => ?_, fun d hd e he _ _ _ => ?_, Or.inl rfl, ?_, ?_, fun _ => ⟨?_, ?_⟩, trivial,
      fun _ => trivial, fun _ => trivial⟩
    · rw [List.mem_singleton.1 hd]
      exact List.mem_cons_self
    · rw [List.mem_singleton.1 hd, List.mem_singleton.1 he]
    all_goals exact fun d hd => absurd hd List.not_mem_nil
  | @leaf p hp _ =>
    have hmem : ∀ {d}, d ∈ cells (insertLeaf (insertDir a.virtualAddr) (p, a) t) → d = (p, a) ∨ d ∈ cells t :=
      fun hd => List.mem_cons.1 ((cells_insertLeaf _ _ _).mem_iff.1 hd)
    have hold : ∀ {d}, d ∈ cells t → d.1 ∈ insert p M → d.1 ∈ M :=
      fun hd hm => hm.resolve_left fun e => hp (e ▸ mem_ptrs hd)
    refine ⟨insert p M, fun d hd hm => ?_, fun d hd e he hdm hem hde => ?_, ht.addLeaf hp fun g hg hgm hlt => ?_⟩
    · rcases hmem hd with rfl | hd
      · exact List.mem_cons_self
      · exact List.mem_cons_of_mem _ (hholds d hd (hold hd hm))
    · rcases hmem hd with rfl | hd
      · rcases hmem he with rfl | he
        · rfl
        · exact absurd hde.symm (hpos _ (hholds e he (hold he hem)))
      · rcases hmem he with rfl | he
        · exact absurd hde (hpos _ (hholds d hd (hold hd hdm)))
        · exact hunique d hd e he (hold hd hdm) (hold he hem) hde
    · exact (endOf_le a).trans (hapart _ (hholds g hg hgm) hlt)

/-- a record without pages is of no allocation, and no lookup stops at it -/
theorem Grown.tame_empty (hg : Grown t a t') (ha : a.pageCount = 0) (hroot : RootOk t) (ht : Tame M 0 t)
    (hholds : ∀ d ∈ cells t, d.1 ∈ M → ⟨d.2.virtualAddr, d.2.pageCount⟩ ∈ live)
    (hunique : ∀ d ∈ cells t, ∀ e ∈ cells t, d.1 ∈ M → e.1 ∈ M → d.2.virtualAddr = e.2.virtualAddr → d = e) :
    ∃ M', (∀ d ∈ cells t', d.1 ∈ M' → ⟨d.2.virtualAddr, d.2.pageCount⟩ ∈ live) ∧
      (∀ d ∈ cells t', ∀ e ∈ cells t', d.1 ∈ M' → e.1 ∈ M' → d.2.virtualAddr = e.2.virtualAddr → d = e) ∧ Tame M' 0 t' := by
  cases hg with
  | @root c tl tr htree hc =>
    subst htree
    obtain ⟨rfl, rfl⟩ := hroot hc
    refine ⟨∅, fun d _ hm => absurd hm (Set.notMem_empty _), fun d _ e _ hm => absurd hm (Set.notMem_empty _), ?_⟩
    exact tame_of_dead fun d hd => ⟨Set.notMem_empty _, dead_of_empty (by rw [List.mem_singleton.1 hd]; exact ha)⟩
  | @leaf p hp _ =>
    have hold : ∀ {d}, d ∈ cells (insertLeaf (insertDir a.virtualAddr) (p, a) t) → d.1 ∈ M \ {p} → d ∈ cells t ∧ d.1 ∈ M := by
      intro d hd hm
      rcases List.mem_cons.1 ((cells_insertLeaf _ _ _).mem_iff.1 hd) with rfl | hd
      · exact absurd rfl hm.2
      · exact ⟨hd, hm.1⟩
    have hsame : Tame (M \ {p}) 0 t :=
      ht.congr fun d hd => ⟨fun hm => hm.1, fun hm => ⟨hm, fun e => hp (Set.mem_singleton_iff.1 e ▸ mem_ptrs hd)⟩⟩
    refine ⟨M \ {p}, fun d hd hm => hholds d (hold hd hm).1 (hold hd hm).2, fun d hd e he hdm hem => ?_,
      hsame.addDead (fun hm => hm.2 rfl) (dead_of_empty ha)⟩
    exact hunique d (hold hd hdm).1 e (hold he hem).1 (hold hd hdm).2 (hold he hem).2

/-- **Mapping.** -/
theorem map_held (hi : Held ⟨⟨h, ctx⟩, live⟩ l t M) (hn : 1 ≤ n) (hva : va % pageSize = 0) (hfit : FitOk mi l va n flags)
    (hroot : RootOk t) (hok : vmmMapPages A mi h ctx va pa n flags = .ok (h', ctx', r)) :
    ∃ l₁ c l₂ m t' M', l = l₁ ++ c :: l₂ ∧ Cut c.2 r n m ∧ (va ≠ 0 → r = va) ∧ Grown t ⟨r, pa, n, flags⟩ t' ∧
      Held ⟨⟨h', ctx'⟩, ⟨r, n⟩ :: live⟩ (l₁ ++ m ++ l₂) t' M' := by
  obtain ⟨l₁, c, l₂, m, t', rfl, hcut, haddr, hrep, hgrown⟩ := map_cases hi.rep hi.free hva hfit hok
  have hnew : AreaOk ⟨r, n⟩ := ⟨hcut.aligned, hn, hcut.upper.trans (hi.free.area c (by simp)).fits⟩
  have hpages : ∀ x, freeCover (l₁ ++ m ++ l₂) x + Tiling.cover (((⟨r, n⟩ : Area) :: live).map span) x =
      Tiling.hit (0, 2 ^ 20) x := by
    intro x
    have h1 := hi.pages x
    have h2 := hcut.pages x
    simp only [freeCover_append, freeCover_cons, List.map_cons, Tiling.cover_cons] at h1 ⊢
    omega
  -- the new allocation shares no page with the others
  have hapart : ∀ b ∈ live, b.virtualAddr + b.pageCount * pageSize ≤ r ∨ r + n * pageSize ≤ b.virtualAddr := by
    intro b hb
    have hbok := hi.areas b hb
    refine apart_of_spans hbok.aligned hnew.aligned (Tiling.apart_of_hits hbok.nonempty hn fun x => ?_)
    have h1 := (hpages x).trans_le Tiling.hit_le_one
    have h2 : Tiling.hit (span b) x ≤ Tiling.cover (live.map span) x := Tiling.hit_le_cover (List.mem_map_of_mem hb)
    simp only [List.map_cons, Tiling.cover_cons] at h1
    omega
  have hn0 : 0 < n * pageSize := Nat.mul_pos hn (by decide)
  obtain ⟨M', hholds, hunique, htame⟩ := hgrown.tame hroot hi.tame hi.holds hi.unique
    (fun b hb he => by
      have hb0 : 0 < b.pageCount * pageSize := Nat.mul_pos (hi.areas b hb).nonempty (by decide)
      have := hapart b hb
      dsimp only at he
      omega)
    (fun b hb hlt => by
      have := hapart b hb
      dsimp only at hlt ⊢
      omega)
  refine ⟨l₁, c, l₂, m, t', M', rfl, hcut, haddr, hgrown, hrep,
    hi.free.refine hcut.ok hcut.inside, fun a ha => ?_, hpages, hholds, hunique, htame⟩
  rcases List.mem_cons.1 ha with rfl | ha
  · exact hnew
  · exact hi.areas a ha

/-- **Mapping no page.** The free pages stay, and so do the allocations. -/
theorem map_held_empty (hi : Held ⟨⟨h, ctx⟩, live⟩ l t M) (hva : va % pageSize = 0) (hfit : FitOk mi l va 0 flags)
    (hroot : RootOk t) (hok : vmmMapPages A mi h ctx va pa 0 flags = .ok (h', ctx', r)) :
    ∃ l₁ c l₂ m t' M', l = l₁ ++ c :: l₂ ∧ Cut c.2 r 0 m ∧ (va ≠ 0 → r = va) ∧ Grown t ⟨r, pa, 0, flags⟩ t' ∧
      Held ⟨⟨h', ctx'⟩, live⟩ (l₁ ++ m ++ l₂) t' M' := by
  obtain ⟨l₁, c, l₂, m, t', rfl, hcut, haddr, hrep, hgrown⟩ := map_cases hi.rep hi.free hva hfit hok
  obtain ⟨M', hholds, hunique, htame⟩ := hgrown.tame_empty rfl hroot hi.tame hi.holds hi.unique
  refine ⟨l₁, c, l₂, m, t', M', rfl, hcut, haddr, hgrown, hrep, hi.free.refine hcut.ok hcut.inside, hi.areas, fun x => ?_,
    hholds, hunique, htame⟩
  have hempty : Tiling.hit (span ⟨r, 0⟩) x = 0 := hit_empty (a := ⟨r, pa, 0, flags⟩) rfl
  have hcover := @Cut.cover l₁ l₂ c 0 r m hcut x
  rw [hempty, Nat.add_zero] at hcover
  rw [hcover]
  exact hi.pages x

end Map

/-- the nodes that are live after the allocation at `va` is unmapped -/
def stillLive (M : Set ℕ) (t : BinaryTree (ℕ × VmmAllocation)) (va : ℕ) : Set ℕ :=
  {q | q ∈ M ∧ ∀ d ∈ cells t, d.1 = q → d.2.virtualAddr ≠ va}

/-- the subtree at the node found is replaced by `s`: nothing live goes but the allocation, and only lookups in it change -/
structure Moved (M : Set ℕ) (t : BinaryTree (ℕ × VmmAllocation)) (va n : ℕ) (c : ℕ × VmmAllocation)
    (s : BinaryTree (ℕ × VmmAllocation)) : Prop where
  nodes : ∀ d ∈ cells s, d ∈ cells (subtreeAt c.1 t) ∨ d.1 ∉ stillLive M t va ∧ Dead d.2 ∧
    ∀ g ∈ cells t, g.1 ∈ stillLive M t va → va < g.2.virtualAddr → d.2.virtualAddr ≤ g.2.virtualAddr
  tame : ∀ b, Tame M b (subtreeAt c.1 t) → Tame (stillLive M t va) b s
  same : ∀ x, ¬ (va ≤ x ∧ x < va + n * pageSize) → descend (findDir x) s = descend (findDir x) (subtreeAt c.1 t)

section Unmap

variable {A : Allocator} {mi : KernelMeminfo} {u u' : Used} {h' : Heap} {ctx' : VmmContext} {l l' : List (ℕ × Area)}
  {t s tl tr : BinaryTree (ℕ × VmmAllocation)} {M : Set ℕ} {va n x : ℕ} {c d : ℕ × VmmAllocation}

/-- a node that is live no more had the allocation -/
theorem addr_of_dropped (hnd : (ptrs (cells t)).Nodup) (hd : d ∈ cells t) (hm : d.1 ∈ M) (hm' : d.1 ∉ stillLive M t va) :
    d.2.virtualAddr = va := by
  by_contra hne
  refine hm' ⟨hm, fun e he hed => ?_⟩
  rw [List.inj_on_of_nodup_map hnd he hd hed]
  exact hne

/-- a node that is still live holds another allocation -/
theorem Held.other (hi : Held u l t M) (hd : d ∈ cells t) (hm : d.1 ∈ stillLive M t va) :
    ⟨d.2.virtualAddr, d.2.pageCount⟩ ∈ u.live.erase ⟨va, n⟩ := by
  refine (List.mem_erase_of_ne fun he => ?_).2 (hi.holds d hd hm.1)
  exact hm.2 d hd rfl (congrArg Area.virtualAddr he)

/-- a live node at the address holds the allocation -/
theorem Held.count_eq (hi : Held u l t M) (hlive : ⟨va, n⟩ ∈ u.live) (hd : d ∈ cells t) (hm : d.1 ∈ M)
    (hva : d.2.virtualAddr = va) : d.2.pageCount = n :=
  congrArg Area.pageCount (hi.eq_of_addr hlive (hi.holds d hd hm) hva)

/-- a lookup finds an allocation that contains the address -/
theorem Held.found (hi : Held u l t M) (hd : descend (findDir x) t = some d) :
    d ∈ cells t ∧ d.1 ∈ M ∧ ⟨d.2.virtualAddr, d.2.pageCount⟩ ∈ u.live ∧ d.2.virtualAddr ≤ x ∧
      x < d.2.virtualAddr + d.2.pageCount * pageSize := by
  obtain ⟨hmem, hstop⟩ := descend_some hd
  have hm := hi.tame.found_live (Nat.zero_le x) hd
  obtain ⟨h1, h2⟩ := findDir_stop.1 hstop
  exact ⟨hmem, hm, hi.holds d hmem hm, h1, h2.trans_le (endOf_le d.2)⟩

/-- an address in no allocation is not found -/
theorem Held.lookup_none (hi : Held u l t M)
    (hx : ∀ a ∈ u.live, x < a.virtualAddr ∨ a.virtualAddr + a.pageCount * pageSize ≤ x) :
    descend (findDir x) t = none := by
  cases hd : descend (findDir x) t with
  | none => rfl
  | some d =>
    obtain ⟨_, _, hlive, h1, h2⟩ := hi.found hd
    have h3 := hx _ hlive
    dsimp only at h3
    omega

/-- the node found moves to the end of the range -/
theorem moved_shift (hi : Held u l t M) (hlive : ⟨va, n⟩ ∈ u.live) (hfound : descend (startDir va) t = some c)
    (hsubt : subtreeAt c.1 t = .node c tl tr) (hbelow : ∀ d ∈ cells tl ++ cells tr, d ∈ cells t ∧ d ≠ c)
    (hend : va + n * pageSize < 2 ^ 32) : Moved M t va n c (.node (c.1, shrunk c.2 n) tl tr) := by
  obtain ⟨hva, hlast⟩ := hi.tame.found_end (Nat.zero_le va) hfound
  have hc := (descend_some hfound).1
  have hok := hi.areas _ hlive
  have hn20 := hok.pageCount_le
  have hcM : c.1 ∉ stillLive M t va := fun hm => hm.2 c hc rfl hva
  have haddr : (shrunk c.2 n).virtualAddr = va + n * pageSize := by
    unfold shrunk
    rw [hva, Nat.mul_comm pageSize]
    exact u32_of_lt hend
  have hle : va ≤ va + n * pageSize := Nat.le_add_right _ _
  have hendc : endOf c.2 ≤ va + n * pageSize := by
    rcases hlast with hm | hlast
    · have h1 := endOf_le c.2
      rw [hva, hi.count_eq hlive hc hm hva] at h1
      exact h1
    · exact hlast.trans hle
  have hdead : Dead (shrunk c.2 n) := by
    unfold Dead
    rw [endOf_shrunk _ (hn20.trans (by decide)), haddr]
    exact hendc
  -- the allocations above the address start behind the range
  have hfar : ∀ g ∈ cells t, g.1 ∈ stillLive M t va → va ≤ g.2.virtualAddr → va + n * pageSize ≤ g.2.virtualAddr := by
    intro g hg hm hge
    have hother := hi.other (n := n) hg hm
    have h1 := hi.apart_erase hlive hother
    have h2 : 0 < g.2.pageCount * pageSize :=
      Nat.mul_pos (hi.areas _ (List.mem_of_mem_erase hother)).nonempty (by decide)
    dsimp only at h1
    omega
  refine ⟨fun d hd => ?_, fun b ht => ?_, fun x hx => ?_⟩
  · rcases List.mem_cons.1 hd with rfl | hd
    · refine Or.inr ⟨hcM, hdead, fun g hg hm hlt => ?_⟩
      dsimp only
      rw [haddr]
      exact hfar g hg hm hlt.le
    · rw [hsubt]
      exact Or.inl (List.mem_cons_of_mem _ hd)
  · rw [hsubt] at ht
    refine ht.shift (fun q hq => hq.1) hcM (fun d hd hm hm' => ?_) hdead ?_ fun d hd hm hge => ?_
    · have hd := (hbelow d hd).1
      have hdva := addr_of_dropped hi.rep.nodup_tree hd hm hm'
      have h1 := endOf_le d.2
      rw [hdva, hi.count_eq hlive hd hm hdva] at h1
      rw [hva, haddr]
      exact ⟨hdva, h1⟩
    · rw [hva, haddr]
      exact hle
    · rw [hva] at hge
      rw [haddr]
      exact hfar d (hbelow d (List.mem_append_right _ hd)).1 hm hge
  · rw [hsubt]
    refine descend_shift hdead ?_ ?_ ?_
    · rw [haddr]
      exact hendc
    · rw [hva, haddr]
      exact hle
    · rw [hva, haddr]
      omega

/-- the node found moves to address 0, and no pages are allocated below it -/
theorem moved_wrap (hi : Held u l t M) (hfound : descend (startDir va) t = some c)
    (hsubt : subtreeAt c.1 t = .node c tl tr) (hbelow : ∀ d ∈ cells tl ++ cells tr, d ∈ cells t ∧ d ≠ c)
    (hend : va + n * pageSize = 2 ^ 32) (hcount : c.2.pageCount = n)
    (hempty : ∀ d ∈ cells tl ++ cells tr, d.2.pageCount = 0) : Moved M t va n c (.node (c.1, shrunk c.2 n) tl tr) := by
  obtain ⟨hva, _⟩ := hi.tame.found_end (Nat.zero_le va) hfound
  have hcM : c.1 ∉ stillLive M t va := fun hm => hm.2 c (descend_some hfound).1 rfl hva
  have haddr : (shrunk c.2 n).virtualAddr = 0 := by
    unfold shrunk u32
    dsimp only
    rw [hva, Nat.mul_comm pageSize, hend]
    rfl
  have hendc : endOf c.2 = 0 := by
    unfold endOf u32
    rw [hva, hcount, hend]
    rfl
  have hdead : Dead (shrunk c.2 n) := by
    apply dead_of_empty
    unfold shrunk u32
    dsimp only
    rw [hcount, Nat.add_sub_cancel_left]
    rfl
  refine ⟨fun d hd => ?_, fun b _ => tame_of_dead fun d hd => ?_, fun x _ => ?_⟩
  · rcases List.mem_cons.1 hd with rfl | hd
    · refine Or.inr ⟨hcM, hdead, fun g _ _ _ => ?_⟩
      dsimp only
      rw [haddr]
      exact Nat.zero_le _
    · rw [hsubt]
      exact Or.inl (List.mem_cons_of_mem _ hd)
  · rcases List.mem_cons.1 hd with rfl | hd
    · exact ⟨hcM, hdead⟩
    · refine ⟨fun hm => ?_, dead_of_empty (hempty d hd)⟩
      exact (hi.areas _ (hi.holds d (hbelow d hd).1 hm.1)).nonempty.ne' (hempty d hd)
  · rw [hsubt]
    refine descend_dead (fun d hd => dead_of_empty (hempty d hd)) ?_ hdead
    unfold Dead
    rw [hendc]
    exact Nat.zero_le _

/-- the node found is removed -/
theorem moved_remove (hi : Held u l t M) (hlive : ⟨va, va⟩ ∈ u.live) (hfound : descend (startDir va) t = some c)
    (hsubt : subtreeAt c.1 t = .node c tl tr) (hbelow : ∀ d ∈ cells tl ++ cells tr, d ∈ cells t ∧ d ≠ c)
    (hcount : c.2.pageCount = va) : Moved M t va va c (hangRight tr tl) := by
  obtain ⟨hva, hlast⟩ := hi.tame.found_end (Nat.zero_le va) hfound
  have hc := (descend_some hfound).1
  have hok := hi.areas _ hlive
  -- the end of the range is not 2^32, which is no multiple of 4097
  have hendc : endOf c.2 = va + va * pageSize := by
    unfold endOf
    rw [hva, hcount]
    refine u32_of_lt ?_
    have h1 := hok.fits
    simp only [pageSize] at h1 ⊢
    omega
  have hcM : c.1 ∈ M := by
    refine hlast.resolve_right fun hle => ?_
    have h1 := hok.nonempty
    rw [hendc] at hle
    simp only [pageSize] at h1 hle
    omega
  have hmem : ∀ d ∈ cells (hangRight tr tl), d ∈ cells tl ++ cells tr := fun d hd =>
    (cells_hangRight tr tl).mem_iff.1 hd
  refine ⟨fun d hd => ?_, fun b ht => ?_, fun x hx => ?_⟩
  · rw [hsubt]
    exact Or.inl (List.mem_cons_of_mem _ (hmem d hd))
  · rw [hsubt] at ht
    refine ht.remove hcM (fun q hq => hq.1) fun d hd hm => ?_
    by_contra hm'
    obtain ⟨hdt, hne⟩ := hbelow d hd
    have hdva := addr_of_dropped hi.rep.nodup_tree hdt hm hm'
    exact hne (hi.unique d hdt c hc hm hcM (hdva.trans hva.symm))
  · obtain ⟨b, ht⟩ : ∃ b, Tame M b (.node c tl tr) := hsubt ▸ hi.tame.below
    rw [hsubt]
    refine descend_remove ht hcM ?_
    rw [hva, hendc]
    omega

/-- **The change of the tree is one of an unmap.** -/
theorem Moved.held (hmoved : Moved M t va n c s) (hi : Held u l t M) (hlive : ⟨va, n⟩ ∈ u.live)
    (hfound : descend (startDir va) t = some c) (hrep : Rep h' ctx' l' (replaceAt c.1 s t)) (hf : FreeOk l')
    (hcover : ∀ x, freeCover l' x = freeCover l x + Tiling.hit (span ⟨va, n⟩) x) :
    Held ⟨⟨h', ctx'⟩, u.live.erase ⟨va, n⟩⟩ l' (replaceAt c.1 s t) (stillLive M t va) ∧
      UnmapsExactly u.space ⟨h', ctx'⟩ va n := by
  have hnd := hi.rep.nodup_tree
  have hsub : stillLive M t va ⊆ M := fun q hq => hq.1
  -- the nodes that are still live were there
  have hold : ∀ d ∈ cells (replaceAt c.1 s t), d.1 ∈ stillLive M t va → d ∈ cells t := by
    intro d hd hm
    rcases mem_cells_replaceAt hd with hd | hd
    · exact hd
    · rcases hmoved.nodes d hd with hd | ⟨hnot, _⟩
      · exact cells_subtreeAt_subset d hd
      · exact absurd hm hnot
  have hheld : Held ⟨⟨h', ctx'⟩, u.live.erase ⟨va, n⟩⟩ l' (replaceAt c.1 s t) (stillLive M t va) := by
    refine ⟨hrep, hf, fun a ha => hi.areas a (List.mem_of_mem_erase ha), fun x => ?_, fun d hd hm => ?_,
      fun d hd e he hdm hem => ?_, ?_⟩
    · have h1 := hi.pages x
      rw [Tiling.cover_perm ((List.perm_cons_erase hlive).map span), List.map_cons, Tiling.cover_cons] at h1
      have h2 := hcover x
      dsimp only
      omega
    · exact hi.other (hold d hd hm) hm
    · exact hi.unique d (hold d hd hdm) e (hold e he hem) hdm.1 hem.1
    · exact hi.tame.replace hnd hfound hsub (fun d hd hm hm' => addr_of_dropped hnd hd hm hm') hmoved.nodes hmoved.tame
  refine ⟨hheld, fun x _ => ⟨fun hx => ?_, fun hx => ?_⟩⟩
  · rw [vmmFindAllocation_eq hrep, hheld.lookup_none fun a ha => ?_]
    · rfl
    · have := hi.apart_erase hlive ha
      dsimp only at this
      omega
  · rw [vmmFindAllocation_eq hi.rep, vmmFindAllocation_eq hrep,
      descend_replaceAt hnd (mem_ptrs (descend_some hfound).1) (hmoved.same x hx)]

/-- **Unmapping.** -/
theorem unmap_held (hi : Held u l t M) (hlive : ⟨va, n⟩ ∈ u.live)
    (hmerge : MergeOk mi (before va l).getLast? (after va l).head? va n) (hmove : MoveOk u.space t va n)
    (hok : useStep A mi u (.unmap va n) = .ok u') :
    (∃ l' t' M', Held u' l' t' M') ∧ UnmapsExactly u.space u'.space va n := by
  obtain ⟨s', hstep, hok⟩ := bind_ok.1 hok
  cases hok
  have harea := hi.areas _ hlive
  have hnd := hi.rep.nodup_tree
  obtain ⟨c, h₁, ctx₁, hfound, hva, hadd, hcases⟩ := unmap_cases hi.rep hstep
  obtain ⟨l', hrep₁, hf, hcover⟩ :=
    addFreeBlocks_spec hi.rep hi.free harea (fun d hd => hi.apart_free hlive hd) hmerge hadd
  obtain ⟨tl, tr, hsubt, hbelow⟩ := subtreeAt_spec hnd (descend_some hfound).1
  obtain ⟨hwrap, hremove⟩ := hmove c hfound
  -- which subtree the node found is replaced by
  obtain ⟨s, hmoved, hrep⟩ : ∃ s, Moved M t va n c s ∧ Rep s'.heap s'.ctx l' (replaceAt c.1 s t) := by
    rcases hcases with ⟨hlt, hrep⟩ | ⟨rfl, hrep⟩
    · have hrep := (hrep l' hrep₁).1
      rw [map_setCell_eq hnd hsubt] at hrep
      by_cases hend : va + n * pageSize = 2 ^ 32
      · obtain ⟨hcount, hempty⟩ := hwrap hlt hend
        rw [hsubt] at hempty
        exact ⟨_, moved_wrap hi hfound hsubt hbelow hend hcount hempty, hrep⟩
      · have hend' : va + n * pageSize < 2 ^ 32 := lt_of_le_of_ne harea.fits hend
        exact ⟨_, moved_shift hi hlive hfound hsubt hbelow hend', hrep⟩
    · obtain ⟨hcount, hpar⟩ := hremove rfl
      have hrep := hrep hpar l' hrep₁
      rw [removeCell_eq hnd hsubt] at hrep
      exact ⟨_, moved_remove hi hlive hfound hsubt hbelow hcount, hrep⟩
  obtain ⟨hheld, hexact⟩ := hmoved.held hi hlive hfound hrep hf hcover
  exact ⟨⟨l', _, _, hheld⟩, hexact⟩

end Unmap

/-! ## Runs -/

/-- the allocation that `vmm_new_context` makes for an entry of `ADDR_SPACE` -/
def entryArea (e : AddrSpaceEntry) : Area := ⟨e.virtualStart, e.pageCount⟩

/-- the entries that have pages, in the order of their allocations -/
def mappedEntries (es : List AddrSpaceEntry) : List AddrSpaceEntry := es.filter fun e => e.pageCount ≠ 0

/-- a new address space and its allocations -/
def newlyUsed (es : List AddrSpaceEntry) (h : Heap) (ctx : VmmContext) : Used :=
  ⟨⟨h, ctx⟩, (mappedEntries es.reverse).map entryArea⟩

section Runs

variable {A : Allocator} {mi : KernelMeminfo} {es : List AddrSpaceEntry} {h₀ h : Heap} {ctx : VmmContext} {u u' : Used}
  {va n : ℕ}

/-- one call keeps the invariant -/
theorem step_held {o : Call} (hi : ∃ l t M, Held u l t M) (hwhole : WholeOk u o) (hexact : Exact mi u.space o)
    (hok : useStep A mi u o = .ok u') : ∃ l t M, Held u' l t M := by
  obtain ⟨l, t, M, hi⟩ := hi
  have hat := hexact l t ⟨hi.rep.list, hi.rep.tree⟩
  cases o with
  | map va pa n flags =>
    obtain ⟨⟨h', ctx', r⟩, hmap, hok⟩ := bind_ok.1 hok
    cases hok
    obtain ⟨_, _, _, _, _, _, _, _, _, _, hheld⟩ := map_held hi hwhole.1 hwhole.2 hat.1 hat.2 hmap
    exact ⟨_, _, _, hheld⟩
  | unmap va n => exact (unmap_held hi hwhole hat.1 hat.2 hok).1

/-- in a blank address space every page is free, and the root is empty -/
theorem held_blank {s : Space} {l : List (ℕ × Area)} {r : ℕ}
    (hr : Rep s.heap s.ctx l (.node (r, ⟨0, 0, 0, 0⟩) .nil .nil)) (hb : Blank mi l) :
    Held ⟨s, []⟩ l (.node (r, ⟨0, 0, 0, 0⟩) .nil .nil) ∅ where
  rep := hr
  free := hb.free
  areas := fun a ha => absurd ha List.not_mem_nil
  pages := fun x => (Nat.add_zero _).trans (hb.pages x)
  holds := fun d _ hm => absurd hm (Set.notMem_empty _)
  unique := fun d _ e _ hm _ => absurd hm (Set.notMem_empty _)
  tame := tame_of_dead fun d hd => ⟨Set.notMem_empty _, dead_of_empty (by rw [List.mem_singleton.1 hd])⟩

theorem mappedEntries_cons {e : AddrSpaceEntry} (hn : e.pageCount ≠ 0) : mappedEntries (e :: es) = e :: mappedEntries es :=
  List.filter_cons_of_pos (decide_eq_true hn)

theorem mappedEntries_empty {e : AddrSpaceEntry} (hn : e.pageCount = 0) : mappedEntries (e :: es) = mappedEntries es :=
  List.filter_cons_of_neg (by simp [hn])

theorem newContext_held (h0 : 0 < mi.higherHalfBase) (hal : mi.higherHalfBase % pageSize = 0) (hes : AddrSpaceOk mi es)
    (hnew : vmmNewContext A mi es h₀ = .ok (h, ctx)) : ∃ l t M, Held (newlyUsed es h ctx) l t M := by
  have hind := newContext_ind (P := fun s l done => ∃ t M, RootOk t ∧ Held ⟨s, (mappedEntries done).map entryArea⟩ l t M)
    (fun s l _ ⟨_, _, _, hi⟩ => hi.free) (fun s l r hr hb => ⟨_, ∅, rootOk_leaf _, held_blank hr hb⟩) ?_ h0 hal hes hnew
  · obtain ⟨l, t, M, _, hi⟩ := hind
    exact ⟨l, t, M, hi⟩
  intro h ctx h' ctx' r l e done hP _ hva hva0 hfit hmap
  obtain ⟨t, M, hroot, hi⟩ := hP
  by_cases hn : e.pageCount = 0
  · rw [hn] at hfit hmap ⊢
    obtain ⟨l₁, c, l₂, m, t', M', hl, hcut, haddr, hgrown, hi'⟩ := map_held_empty hi hva hfit hroot hmap
    rw [haddr hva0] at hcut
    rw [mappedEntries_empty hn]
    exact ⟨l₁, c, l₂, m, hl, hcut, t', M', hgrown.rootOk_kept hroot, hi'⟩
  · obtain ⟨l₁, c, l₂, m, t', M', hl, hcut, haddr, hgrown, hi'⟩ := map_held hi (Nat.pos_of_ne_zero hn) hva hfit hroot hmap
    rw [haddr hva0] at hcut hi'
    rw [mappedEntries_cons hn]
    exact ⟨l₁, c, l₂, m, hl, hcut, t', M', hgrown.rootOk_kept hroot, hi'⟩

/-- **Unmapping is exact.** In every run of map calls and unmaps of whole allocations that take none of the branches that go
wrong, from a new address space on, one more such unmap makes exactly the addresses of its allocation unknown. -/
theorem unmap_exact {ops : List Call} (h0 : 0 < mi.higherHalfBase) (hal : mi.higherHalfBase % pageSize = 0)
    (hes : AddrSpaceOk mi es) (hnew : vmmNewContext A mi es h₀ = .ok (h, ctx))
    (hrun : Runs (useStep A mi) (fun u o => WholeOk u o ∧ Exact mi u.space o) (newlyUsed es h ctx) ops u)
    (hlive : ⟨va, n⟩ ∈ u.live) (hexact : Exact mi u.space (.unmap va n))
    (hok : useStep A mi u (.unmap va n) = .ok u') : UnmapsExactly u.space u'.space va n := by
  obtain ⟨l, t, M, hi⟩ := hrun.inv (P := fun u => ∃ l t M, Held u l t M)
    (fun u o u' hi hC hok => step_held hi hC.1 hC.2 hok) (newContext_held h0 hal hes hnew)
  obtain ⟨hmerge, hmove⟩ := hexact l t ⟨hi.rep.list, hi.rep.tree⟩
  exact (unmap_held hi hlive hmerge hmove hok).2

end Runs

/-! ### Concrete runs -/

section Concrete

instance : ∀ t, Decidable (RootOk t)
  | .nil => .isTrue trivial
  | .node c .nil .nil => .isTrue (rootOk_leaf c)
  | .node c (.node _ _ _) _ => decidable_of_iff (c.2.pageCount ≠ 0) ⟨fun h h0 => absurd h0 h, fun h h0 => nomatch (h h0).1⟩
  | .node c .nil (.node _ _ _) => decidable_of_iff (c.2.pageCount ≠ 0) ⟨fun h h0 => absurd h0 h, fun h h0 => nomatch (h h0).2⟩

instance (s : Space) (t : BinaryTree (ℕ × VmmAllocation)) (va n : ℕ) : Decidable (MoveOk s t va n) :=
  inferInstanceAs (Decidable (∀ c ∈ descend (startDir va) t,
    (n < va → va + n * pageSize = 2 ^ 32 → c.2.pageCount = n ∧ ∀ d ∈ belowRoot (subtreeAt c.1 t), d.2.pageCount = 0) ∧
    (n = va → c.2.pageCount = n ∧ ParentOk s.heap s.ctx t c.1)))

instance (mi : KernelMeminfo) (s : Space) (l : List (ℕ × Area)) (t : BinaryTree (ℕ × VmmAllocation)) :
    ∀ o, Decidable (ExactAt mi s l t o)
  | .map va _ n flags => inferInstanceAs (Decidable (FitOk mi l va n flags ∧ RootOk t))
  | .unmap va n => inferInstanceAs (Decidable (MergeOk mi (before va l).getLast? (after va l).head? va n ∧ MoveOk s t va n))

instance (u : Used) : ∀ o, Decidable (WholeOk u o)
  | .map va _ n _ => inferInstanceAs (Decidable (1 ≤ n ∧ va % pageSize = 0))
  | .unmap va n => inferInstanceAs (Decidable (⟨va, n⟩ ∈ u.live))

theorem exact_of_checked {mi : KernelMeminfo} {s : Space} {o : Call} (hs : Shape s (listOf s) (treeOf s))
    (hc : ExactAt mi s (listOf s) (treeOf s) o) : Exact mi s o := by
  intro l t hlt
  obtain ⟨rfl, rfl⟩ := hlt.unique hs
  exact hc

def freshlyUsed : Used := newlyUsed entries fresh.1 fresh.2

/-- the state after some calls on a new address space -/
def afterCalls (ops : List Call) : Used := returned freshlyUsed (Runs.exec (useStep .top .atOneMegabyte) freshlyUsed ops)

/-- two adjacent pages are mapped one after the other, and the first is unmapped -/
def firstUnmapped : List Call := [.map 0x400000 0x800000 1 7, .map 0x401000 0x900000 1 7, .unmap 0x400000 1]

/-- the second page is unmapped: the call finds the empty node of the first -/
theorem unmap_exact_adjacent :
    ∃ u', useStep .top .atOneMegabyte (afterCalls firstUnmapped) (.unmap 0x401000 1) = .ok u' ∧
      UnmapsExactly (afterCalls firstUnmapped).space u'.space 0x401000 1 := by
  have hr : Runs (useStep .top .atOneMegabyte) (fun u o => WholeOk u o ∧ Shape u.space (listOf u.space) (treeOf u.space) ∧
      ExactAt .atOneMegabyte u.space (listOf u.space) (treeOf u.space) o) freshlyUsed firstUnmapped
      (afterCalls firstUnmapped) := .of_exec (by decide +kernel) (eq_returned _ (by decide +kernel))
  refine ⟨_, eq_returned freshlyUsed (by decide +kernel), ?_⟩
  exact unmap_exact (by decide) (by decide) entries_ok fresh_eq
    (hr.mono fun u o hC => ⟨hC.1, exact_of_checked hC.2.1 hC.2.2⟩) (by decide +kernel)
    (exact_of_checked (by decide +kernel) (by decide +kernel)) (eq_returned freshlyUsed (by decide +kernel))

/-- two pages are free between two allocations, and two pages are asked for from the second of them on -/
def overlapping : List Call := [.map 0x400000 0x800000 1 7, .map 0x403000 0x900000 1 7, .map 0x402000 0xA00000 2 7]

/-- **The allocation overlaps the one after it.** The two pages fit the free block exactly, so that the last page of the new
allocation is the page at 0x403000; when that one is unmapped, the address is found in the new allocation. -/
theorem exact_fit_overlaps :
    AddrSpaceOk .atOneMegabyte entries ∧ vmmNewContext .top .atOneMegabyte entries emptyHeap = .ok fresh ∧
    Runs (useStep .top .atOneMegabyte) WholeOk freshlyUsed overlapping (afterCalls overlapping) ∧
    ⟨0x403000, 1⟩ ∈ (afterCalls overlapping).live ∧
    ∃ u', useStep .top .atOneMegabyte (afterCalls overlapping) (.unmap 0x403000 1) = .ok u' ∧
      vmmFindAllocation u'.space.heap u'.space.ctx 0x403000 = .ok ⟨0x402000, 0xA00000, 2, 7⟩ ∧
      ¬ UnmapsExactly (afterCalls overlapping).space u'.space 0x403000 1 := by
  have hr : Runs (useStep .top .atOneMegabyte) WholeOk freshlyUsed overlapping (afterCalls overlapping) :=
    .of_exec (by decide +kernel) (eq_returned _ (by decide +kernel))
  refine ⟨entries_ok, fresh_eq, hr, by decide +kernel, _, eq_returned freshlyUsed (by decide +kernel), ?_, fun hexact => ?_⟩
  · decide +kernel
  · have hzero := (hexact 0x403000 (by decide)).1 (by decide)
    exact absurd hzero (by decide +kernel)

end Concrete

end Gubos.Vmm
