/-
Many address spaces on one heap (`vmm_new_context`, `vmm_clone_context` and the calls on contexts in `mm/vmm.c`).

The contexts of all tasks have their free lists and trees in the kernel heap, in between each other's cells. `SpaceValue` says what
one call does to one of them. Here calls on any number of contexts come in any order.

- `cloneContext_follows`: a clone is a copy of the value;
- `step_follows`: one call on one context;
- `spaces_are_values`: so every run gives the answers that it gives on values, where a clone is a copy and a call changes the value
  of its own context only;
- `others_unseen`: and the answers to the calls on one context do not depend on the calls on the others.

Premises: memory that has not been a node of a tree has NULL in the links of a node, as `clone_allocations` does not write all of
them; and no call unmaps as many pages as its address says, which would remove a node.
-/
import Gubos.Mm.SpaceValue

namespace Gubos.Spaces

open Gubos.Core Gubos.Paging Gubos.Vmm

/-! ## Clones -/

/-- a child is not copied if a request for one of its nodes is answered with NULL -/
def FailsChild (A : Allocator) (s : BinaryTree (ℕ × VmmAllocation)) : Prop :=
  ∀ link fuel h orig q, (cells s).length < fuel → ToCopy h orig q s → 0 ∈ ptrs (cells (copyOf A s h.arena).1) →
    cloneChild A (cloneAllocationTree A fuel) link h orig q = .error .nullDereference

section Clone

variable {A : Allocator} {h h' : Heap} {ctx : VmmContext} {bs : List (ℕ × Area)}
  {t l r : BinaryTree (ℕ × VmmAllocation)} {c : ℕ × VmmAllocation} {orig prev current q fuel : ℕ} {m : Member}

theorem cloneAllocationTree_null (hl : FailsChild A l) (hr : FailsChild A r)
    (hfuel : (cells l).length + (cells r).length < fuel) (hs : ToCopy h orig q (.node c l r))
    (h0 : 0 ∈ ptrs (cells (copyOf A l h.arena).1) ∨ 0 ∈ ptrs (cells (copyOf A r (copyOf A l h.arena).2).1)) :
    cloneAllocationTree A (fuel + 1) h orig q = .error .nullDereference := by
  obtain ⟨htree, hlive, hq, hapart⟩ := hs
  obtain ⟨rfl, hc0, hrec, hleft, hright⟩ := htree
  simp only [ptrs_cells_node, List.mem_cons, List.mem_append, not_or] at hlive hapart
  obtain ⟨hqc, hql, hqr⟩ := hapart
  let h₁ := h.setNode q { h.nodes q with alloc := (h.nodes c.1).alloc }
  have hne₁ : ∀ {p}, p ≠ q → h₁.nodes p = h.nodes p := fun hp => setNode_nodes_of_ne _ hp
  have hl₁ : ToCopy h₁ (h₁.nodes c.1).left q l := by
    rw [hne₁ (Ne.symm hqc)]
    refine ToCopy.frame ⟨hleft, fun p hp => hlive p (Or.inr (Or.inl hp)), hq, hql⟩ (fun p hp => hne₁ ?_) fun p hp => hp
    exact fun he => hql (he ▸ hp)
  rw [cloneAllocationTree, if_neg hc0]
  by_cases hl0 : 0 ∈ ptrs (cells (copyOf A l h.arena).1)
  · have hfail := hl (fun n p => { n with left := p }) fuel h₁ _ q (by omega) hl₁ hl0
    change cloneChild A (cloneAllocationTree A fuel) (fun n p => { n with left := p }) h₁ (h₁.nodes c.1).left q >>= _ = _
    rw [hfail]
    rfl
  · -- the left subtree is copied, and its nodes are other ones
    have hr0 := h0.resolve_left hl0
    have hout := handedOut_copyOf hl0
    obtain ⟨h₂, hok₂, hleft₂⟩ := cloneChild_spec l (fun n p => { n with left := p }) fuel h₁ _ q (by omega) hl₁ hl0
    have hne₂ : ∀ {p}, p ∈ h.arena.live → p ≠ q → h₂.nodes p = h.nodes p := fun hp hpq =>
      (hleft₂.frame _ hpq fun hmem => hout.fresh _ hmem hp).trans (hne₁ hpq)
    have hr₂ : ToCopy h₂ (h₂.nodes c.1).right q r := by
      rw [hne₂ (hlive c.1 (Or.inl rfl)) (Ne.symm hqc)]
      refine ToCopy.frame ⟨hright, fun p hp => hlive p (Or.inr (Or.inr hp)), hq, hqr⟩
        (fun p hp => hne₂ (hlive p (Or.inr (Or.inr hp))) ?_) fun p hp => ?_
      · exact fun he => hqr (he ▸ hp)
      · rw [hleft₂.arena]
        exact (hout.live p).2 (Or.inr hp)
    have harena : h₂.arena = (copyOf A l h.arena).2 := hleft₂.arena
    have hfail := hr (fun n p => { n with right := p }) fuel h₂ _ q (by omega) hr₂ (harena ▸ hr0)
    change cloneChild A (cloneAllocationTree A fuel) (fun n p => { n with left := p }) h₁ (h₁.nodes c.1).left q >>= _ = _
    rw [hok₂, ok_bind]
    exact hfail

theorem kmallocNode_null (hp : (h.arena.alloc A).1 = 0) : h.kmallocNode A = .error .nullDereference := by
  unfold Heap.kmallocNode
  dsimp only
  rw [if_pos hp]

/-- by induction on the tree of the child -/
theorem cloneChild_null (t : BinaryTree (ℕ × VmmAllocation)) : FailsChild A t := by
  induction t with
  | nil =>
    intro link fuel h orig q _ _ h0
    exact absurd h0 List.not_mem_nil
  | node c l r ihl ihr =>
    intro link fuel h orig q hfuel hs h0
    obtain ⟨fuel, rfl⟩ : ∃ k, fuel = k + 1 := Nat.exists_eq_succ_of_ne_zero (by omega)
    have horig : orig ≠ 0 := hs.tree.1 ▸ hs.tree.2.1
    unfold cloneChild
    rw [if_pos horig]
    by_cases hp0 : (h.arena.alloc A).1 = 0
    · rw [kmallocNode_null hp0]
      rfl
    · rw [kmallocNode_ok hp0, ok_bind]
      simp only [copyOf, ptrs_cells_node, List.mem_cons, List.mem_append] at h0
      have hp := h.arena.alloc_fresh A hp0
      have hlive : ∀ {x}, x ∈ (h.arena.alloc A).2.live ↔ x = (h.arena.alloc A).1 ∨ x ∈ h.arena.live := by
        rw [h.arena.alloc_live A hp0]
        exact List.mem_cons
      have hlen : (cells l).length + (cells r).length < fuel := by
        simp only [cells_node, List.length_cons, List.length_append] at hfuel
        omega
      refine cloneAllocationTree_null ihl ihr hlen ⟨hs.tree.congr fun x hx => ?_, fun x hx => hlive.2 (Or.inr (hs.live x hx)),
        hlive.2 (Or.inl rfl), fun hmem => hp (hs.live _ hmem)⟩ (h0.resolve_left (Ne.symm hp0))
      have hxp : x ≠ (h.arena.alloc A).1 := fun he => hp (he ▸ hs.live x hx)
      have hxq : x ≠ q := fun he => hs.apart (he ▸ hx)
      unfold Heap.node
      rw [setNode_nodes_of_ne _ hxp, setNode_nodes_of_ne _ hxq]

theorem cloneAllocations_null (hr : Rep h ctx bs t) (h0 : 0 ∈ ptrs (cells (copyOf A t h.arena).1)) :
    cloneAllocations A h ctx.allocations = .error .nullDereference := by
  cases t with
  | nil => exact absurd h0 List.not_mem_nil
  | node c l r =>
    have hroot : ctx.allocations ≠ 0 := hr.tree.1 ▸ hr.tree.2.1
    have hsize := hr.length_lt
    have hold : ∀ x ∈ ptrs (cells (.node c l r)), x ∈ h.arena.live := fun x hx => hr.live x (List.mem_append_right _ hx)
    unfold cloneAllocations
    rw [if_neg hroot]
    by_cases hp0 : (h.arena.alloc A).1 = 0
    · rw [kmallocNode_null hp0]
      rfl
    · rw [kmallocNode_ok hp0, ok_bind]
      simp only [copyOf, ptrs_cells_node, List.mem_cons, List.mem_append] at h0
      have hlive : ∀ {x}, x ∈ (h.arena.alloc A).2.live ↔ x = (h.arena.alloc A).1 ∨ x ∈ h.arena.live := by
        rw [h.arena.alloc_live A hp0]
        exact List.mem_cons
      have hs : ToCopy { h with arena := (h.arena.alloc A).2 } ctx.allocations (h.arena.alloc A).1 (.node c l r) :=
        ⟨hr.tree, fun x hx => hlive.2 (Or.inr (hold x hx)), hlive.2 (Or.inl rfl),
          fun hmem => h.arena.alloc_fresh A hp0 (hold _ hmem)⟩
      have hlen : (cells l).length + (cells r).length < 2 ^ 32 := by
        simp only [cells_node, List.length_cons, List.length_append, rounds] at hsize
        omega
      have hfail := cloneAllocationTree_null (cloneChild_null l) (cloneChild_null r) hlen hs (h0.resolve_left (Ne.symm hp0))
      unfold rounds
      dsimp only
      rw [hfail]
      rfl

/-- a request that is answered with NULL ends in a write through it, if a node is to be copied there -/
theorem cloneFreeBlocksLoop_fails (hs : ToClone h orig prev current bs) (hfuel : bs.length < fuel)
    (h0 : 0 ∈ ptrs (copyList A current bs h.arena).1) :
    cloneFreeBlocksLoop A fuel h orig prev current = .error .nullDereference := by
  induction bs generalizing h orig prev current fuel with
  | nil => exact absurd h0 List.not_mem_nil
  | cons c bs ih =>
    have horig : orig ≠ 0 := hs.list.1 ▸ hs.list.2.1
    obtain ⟨fuel, rfl⟩ : ∃ k, fuel = k + 1 := Nat.exists_eq_succ_of_ne_zero (by omega)
    by_cases hcurrent : current = 0
    · rw [cloneFreeBlocksLoop, if_pos horig, if_pos hcurrent]
    · simp only [copyList, ptrs_cons, List.mem_cons] at h0
      obtain ⟨harena, hblock⟩ := @kmallocBlock_cloneRound A h orig prev current
      rw [cloneFreeBlocksLoop_succ horig hcurrent, hblock]
      apply ih (hs.next hcurrent) (Nat.lt_of_succ_lt_succ hfuel)
      rw [harena]
      exact h0.resolve_left (Ne.symm hcurrent)

theorem cloneFreeBlocksLoop_nodes (hok : cloneFreeBlocksLoop A fuel h orig prev current = .ok h') : h'.nodes = h.nodes := by
  induction fuel generalizing h orig prev current with
  | zero => cases hok
  | succ fuel ih =>
    by_cases horig : orig = 0
    · rw [cloneFreeBlocksLoop, if_neg (not_not.2 horig)] at hok
      cases hok
      rfl
    · by_cases hcurrent : current = 0
      · rw [cloneFreeBlocksLoop, if_pos horig, if_pos hcurrent] at hok
        cases hok
      · rw [cloneFreeBlocksLoop_succ horig hcurrent] at hok
        exact (ih hok).trans (@cloneRound_nodes h orig prev current)

theorem cloneFreeBlocks_eq (horig : orig ≠ 0) : cloneFreeBlocks A h orig =
    (cloneFreeBlocksLoop A rounds (h.kmallocBlock A).1 orig 0 (h.arena.alloc A).1 >>= fun h' => .ok (h', (h.arena.alloc A).1)) := by
  unfold cloneFreeBlocks
  rw [if_neg horig]
  rfl

/-- the free list is cloned, and no tree node is touched -/
theorem cloneFreeBlocks_follows (hr : Rep h ctx bs t) :
    Follows OutOfHeap (fun x (_ : Unit) => ∃ l', ListClone h bs x.1 x.2 l' ∧ x.1.nodes = h.nodes ∧
        ∀ q ∈ ptrs l' ++ h.arena.live, q ∈ x.1.arena.live)
      (cloneFreeBlocks A h ctx.freeBlocks) (.ok ()) := by
  have hl : FreeList h ctx bs := @Rep.freeList h ctx bs t ctx.allocations hr
  by_cases hroot : ctx.freeBlocks = 0
  · unfold cloneFreeBlocks
    rw [if_pos hroot]
    have hnil : bs = [] := by
      cases bs with
      | nil => rfl
      | cons c bs => exact absurd hroot (hl.list.1 ▸ hl.list.2.1)
    subst hnil
    refine .ok ⟨[], ⟨rfl, rfl, List.nodup_nil, ?_, fun _ _ => ⟨rfl, rfl⟩⟩, rfl, fun q hq => hq⟩
    intro q hq
    exact absurd hq List.not_mem_nil
  · by_cases h0 : 0 ∈ ptrs (copyList A (h.arena.alloc A).1 bs (h.arena.alloc A).2).1
    · have hfail := cloneFreeBlocksLoop_fails (FreeList.toClone (A := A) hl) hl.length_lt h0
      rw [cloneFreeBlocks_eq hroot, hfail]
      exact .fails _ rfl
    · have hne : bs ≠ [] := by
        rintro rfl
        exact hroot hl.list
      obtain ⟨h₁, p, l', hok, hclone, _, hlive, _⟩ := cloneFreeBlocks_spec hl hne copyList_answers h0
      have hnodes : h₁.nodes = h.nodes := by
        rw [cloneFreeBlocks_eq hroot] at hok
        obtain ⟨h₂, hloop, hok⟩ := bind_ok.1 hok
        obtain ⟨rfl, _⟩ := Prod.mk.inj (Except.ok.inj hok)
        have hsame : h₂.nodes = (h.kmallocBlock A).1.nodes := cloneFreeBlocksLoop_nodes hloop
        exact hsame
      rw [hok]
      exact .ok ⟨l', hclone, hnodes, fun q hq => hlive.mem_iff.2 (List.mem_append_right _ hq)⟩

/-- the links of a node are NULL in memory that is not handed out -/
def CleanLinks (h : Heap) : Prop := ∀ p ∉ h.arena.live, (h.nodes p).left = 0 ∧ (h.nodes p).right = 0

theorem nullLinks_of_forall {nodes : ℕ → VmmAllocationTree} (hnull : ∀ p ∈ ptrs (cells t), (nodes p).left = 0 ∧ (nodes p).right = 0) :
    NullLinks nodes t := by
  induction t with
  | nil => trivial
  | node c l r ihl ihr =>
    simp only [ptrs_cells_node, List.mem_cons, List.mem_append] at hnull
    obtain ⟨hleft, hright⟩ := hnull c.1 (Or.inl rfl)
    exact ⟨fun _ => hleft, fun _ => hright, ihl fun p hp => hnull p (Or.inr (Or.inl hp)),
      ihr fun p hp => hnull p (Or.inr (Or.inr hp))⟩

/-- **A clone** is a copy of the value, in new cells. -/
theorem cloneContext_follows (hm : m.In h) (hclean : CleanLinks h) :
    Follows OutOfHeap (fun x y => ∃ m', m'.ctx = x.2 ∧ m'.value = y ∧ Moves h .none x.1 m')
      (vmmCloneContext A h m.ctx) (.ok m.value) := by
  refine (cloneFreeBlocks_follows hm).bind_left ?_
  rintro ⟨h₁, p⟩ ⟨l', hclone, hnodes₁, hlive₁⟩
  have hmore : ∀ q ∈ h.arena.live, q ∈ h₁.arena.live := fun q hq => hlive₁ q (List.mem_append_right _ hq)
  have hr₁ : Rep h₁ m.ctx m.blocks m.nodes := hclone.rep hmore hm
  by_cases h0 : 0 ∈ ptrs (cells (copyOf A m.nodes h₁.arena).1)
  · dsimp only
    rw [cloneAllocations_null hr₁ h0]
    exact .fails _ rfl
  obtain ⟨h₂, hok, harena, hblocks, hcopied, hframe⟩ := cloneAllocations_spec hr₁ h0
  dsimp only
  rw [hok, ok_bind]
  have hout := handedOut_copyOf h0
  have hnew : ∀ q ∈ ptrs (cells (copyOf A m.nodes h₁.arena).1), q ∉ h.arena.live := fun q hq hmem =>
    hout.fresh q hq (hmore q hmem)
  have hnull : NullLinks h₁.nodes (copyOf A m.nodes h₁.arena).1 := by
    apply nullLinks_of_forall
    intro q hq
    rw [hnodes₁]
    exact hclean q (hnew q hq)
  have hlive₂ : ∀ q, q ∈ h₂.arena.live ↔ q ∈ ptrs (cells (copyOf A m.nodes h₁.arena).1) ∨ q ∈ h₁.arena.live := by
    rw [harena]
    exact hout.live
  have hlist : ∀ q ∈ ptrs l', q ∈ h₁.arena.live := fun q hq => hlive₁ q (List.mem_append_left _ hq)
  refine .ok ⟨⟨⟨_, p⟩, l', (copyOf A m.nodes h₁.arena).1⟩, rfl, ?_, ⟨?_, (hcopied.treeAt hnull h0).1, ?_, ?_⟩, ⟨?_, ?_, ?_, ?_⟩, ?_, ?_⟩
  · unfold Member.value
    dsimp only
    rw [hclone.areas]
    exact congrArg (SpaceValue.mk _) copyOf_records
  · refine hclone.copy.congr fun q _ => ?_
    unfold Heap.block
    rw [hblocks]
  · refine List.nodup_append.2 ⟨hclone.nodup, hout.nodup, fun q hq q' hq' he => ?_⟩
    exact hout.fresh q' hq' (he ▸ hlist q hq)
  · intro q hq
    rcases List.mem_append.1 hq with hq | hq
    · exact (hlive₂ q).2 (Or.inr (hlist q hq))
    · exact (hlive₂ q).2 (Or.inl hq)
  · intro q hq _
    rw [hblocks]
    exact (hclone.original q hq).1
  · intro q hq _
    rw [hframe q fun hmem => hnew q hmem hq, hnodes₁]
  · exact fun q hq _ => (hlive₂ q).2 (Or.inr (hmore q hq))
  · intro q hq
    rcases List.mem_append.1 hq with hq | hq
    · exact Or.inr (hclone.fresh q hq)
    · exact Or.inr (hnew q hq)
  · intro q hq
    rw [hframe q hq, hnodes₁]
  · exact fun q hq => absurd hq List.not_mem_nil

end Clone

/-! ## The machine -/

/-- a call on a context -/
inductive Request where
  | map (virtualAddr physicalAddr pageCount flags : ℕ)
  | unmap (virtualAddr pageCount : ℕ)
  | find (virtualAddr : ℕ)
deriving DecidableEq, Repr

inductive Answer where
  | addr (virtualAddr : ℕ)
  | unmapped
  | record (alloc : VmmAllocation)
  | context (i : ℕ)
  | noContext
deriving DecidableEq, Repr

/-- `vmm_new_context`, `vmm_clone_context`, or a call on the context of this number -/
inductive Op where
  | new
  | clone (i : ℕ)
  | call (i : ℕ) (r : Request)
deriving DecidableEq, Repr

/-- the heap, and the contexts in the order in which they were made -/
structure St where
  heap : Heap
  contexts : List VmmContext

section Code

variable (A : Allocator) (mi : KernelMeminfo) (es : List AddrSpaceEntry)

def request (h : Heap) (ctx : VmmContext) : Request → Except Fault ((Heap × VmmContext) × Answer)
  | .map virtualAddr physicalAddr pageCount flags => do
    let (h, ctx, addr) ← vmmMapPages A mi h ctx virtualAddr physicalAddr pageCount flags
    .ok ((h, ctx), .addr addr)
  | .unmap virtualAddr pageCount => do
    let (h, ctx) ← vmmUnmapPages A mi h ctx virtualAddr pageCount
    .ok ((h, ctx), .unmapped)
  | .find virtualAddr => do
    let alloc ← vmmFindAllocation h ctx virtualAddr
    .ok ((h, ctx), .record alloc)

def step (s : St) : Op → Except Fault (St × Answer)
  | .new => do
    let (heap, ctx) ← vmmNewContext A mi es s.heap
    .ok (⟨heap, s.contexts ++ [ctx]⟩, .context s.contexts.length)
  | .clone i =>
    match s.contexts[i]? with
    | none => .ok (s, .noContext)
    | some ctx => do
      let (heap, clone) ← vmmCloneContext A s.heap ctx
      .ok (⟨heap, s.contexts ++ [clone]⟩, .context s.contexts.length)
  | .call i r =>
    match s.contexts[i]? with
    | none => .ok (s, .noContext)
    | some ctx => do
      let ((heap, ctx), a) ← request A mi s.heap ctx r
      .ok (⟨heap, s.contexts.set i ctx⟩, a)

/-- a call on a value -/
def valueRequest (v : SpaceValue) : Request → Except Fault (SpaceValue × Answer)
  | .map virtualAddr physicalAddr pageCount flags => do
    let (v, addr) ← v.mapPages mi virtualAddr physicalAddr pageCount flags
    .ok (v, .addr addr)
  | .unmap virtualAddr pageCount => do
    let v ← v.unmapPages mi virtualAddr pageCount
    .ok (v, .unmapped)
  | .find virtualAddr => .ok (v, .record (v.findAllocation virtualAddr))

/-- the same machine on values: a clone is a copy -/
def valueStep (vs : List SpaceValue) : Op → Except Fault (List SpaceValue × Answer)
  | .new => do
    let v ← newContext mi es
    .ok (vs ++ [v], .context vs.length)
  | .clone i =>
    match vs[i]? with
    | none => .ok (vs, .noContext)
    | some v => .ok (vs ++ [v], .context vs.length)
  | .call i r =>
    match vs[i]? with
    | none => .ok (vs, .noContext)
    | some v => do
      let (v, a) ← valueRequest mi v r
      .ok (vs.set i v, a)

end Code

/-- the call does not remove a node -/
def KeepsNodes : Op → Prop
  | .call _ (.unmap virtualAddr pageCount) => pageCount ≠ virtualAddr
  | _ => True

instance : ∀ o, Decidable (KeepsNodes o)
  | .new => .isTrue trivial
  | .clone _ => .isTrue trivial
  | .call _ (.map _ _ _ _) => .isTrue trivial
  | .call _ (.unmap virtualAddr pageCount) => inferInstanceAs (Decidable (pageCount ≠ virtualAddr))
  | .call _ (.find _) => .isTrue trivial

/-! ## Spaces in one heap -/

def Apart (m m' : Member) : Prop := ∀ p ∈ m.own, p ∉ m'.own

/-- the spaces are in the heap, each in cells of its own; memory that is in no tree has NULL links -/
structure Held (h : Heap) (ms : List Member) : Prop where
  members : ∀ m ∈ ms, m.In h
  apart : ms.Pairwise Apart
  clean : ∀ p, (∀ m ∈ ms, p ∉ ptrs (cells m.nodes)) → (h.nodes p).left = 0 ∧ (h.nodes p).right = 0

/-- the contexts lead to spaces with these values -/
def Holds (s : St) (vs : List SpaceValue) : Prop :=
  ∃ ms : List Member, s.contexts = ms.map Member.ctx ∧ vs = ms.map Member.value ∧ Held s.heap ms

section Held

variable {A : Allocator} {mi : KernelMeminfo} {es : List AddrSpaceEntry} {h h' : Heap} {m m' : Member} {ms ms' : List Member}
  {s t t' : St} {vs : List SpaceValue} {i : ℕ} {o : Op} {ops ops' pre : List Op} {as as' pas : List Answer}

theorem Apart.symm (ha : Apart m m') : Apart m' m := fun p hp' hp => ha p hp hp'

theorem Held.perm (hh : Held h ms) (hp : ms.Perm ms') : Held h ms' where
  members := fun m hm => hh.members m (hp.mem_iff.2 hm)
  apart := hh.apart.perm hp fun ha => ha.symm
  clean := fun p hfree => hh.clean p fun m hm => hfree m (hp.mem_iff.1 hm)

/-- memory that is not handed out is in no tree -/
theorem Held.cleanLinks (hh : Held h ms) : CleanLinks h := by
  intro p hp
  refine hh.clean p fun m hm hmem => hp ?_
  exact (hh.members m hm).live p (List.mem_append_right _ hmem)

/-- no space takes no room -/
theorem Held.none (hh : Held h ms) : Held h (.none :: ms) where
  members := by
    intro m hm
    rcases List.mem_cons.1 hm with rfl | hm
    · exact ⟨rfl, rfl, List.nodup_nil, fun p hp => absurd hp List.not_mem_nil⟩
    · exact hh.members m hm
  apart := List.pairwise_cons.2 ⟨fun _ _ p hp => absurd hp List.not_mem_nil, hh.apart⟩
  clean := fun p hfree => hh.clean p fun m hm => hfree m (List.mem_cons_of_mem _ hm)

/-- **One space moves**, and the others stay. -/
theorem Held.moves (hh : Held h (m :: ms)) (hm : Moves h m h' m') : Held h' (m' :: ms) := by
  obtain ⟨hapart, hrest⟩ := List.pairwise_cons.1 hh.apart
  have hothers : ∀ k ∈ ms, k.In h' ∧ ∀ p ∈ k.own, p ∉ m'.own := fun k hk =>
    (hh.members k (List.mem_cons_of_mem _ hk)).frame hm.frame (hapart k hk).symm
  refine ⟨fun k hk => ?_, List.pairwise_cons.2 ⟨fun k hk => (hothers k hk).2 |> Apart.symm, hrest⟩, fun p hfree => ?_⟩
  · rcases List.mem_cons.1 hk with rfl | hk
    · exact hm.rep
    · exact (hothers k hk).1
  · have hp' : p ∉ ptrs (cells m'.nodes) := hfree m' List.mem_cons_self
    rw [hm.nodes p hp']
    refine hh.clean p fun k hk => ?_
    rcases List.mem_cons.1 hk with rfl | hk
    · exact fun hp => hp' (hm.grows p hp)
    · exact hfree k (List.mem_cons_of_mem _ hk)

theorem Held.add (hh : Held h ms) (hm : Moves h .none h' m') : Held h' (ms ++ [m']) :=
  (hh.none.moves hm).perm (List.perm_append_singleton m' ms).symm

theorem Held.set (hh : Held h ms) (hi : ms[i]? = some m) (hm : Moves h m h' m') : Held h' (ms.set i m') := by
  obtain ⟨hlt, rfl⟩ := List.getElem?_eq_some_iff.1 hi
  have hout : (ms[i] :: ms.eraseIdx i).Perm ms := List.getElem_cons_eraseIdx_perm hlt
  have hback : (m' :: ms.eraseIdx i).Perm (ms.set i m') := by
    have hlt' : i < (ms.set i m').length := by rwa [List.length_set]
    have hperm := List.getElem_cons_eraseIdx_perm hlt'
    rwa [List.getElem_set_self, List.eraseIdx_set_eq] at hperm
  exact ((hh.perm hout.symm).moves hm).perm hback

/-! ## Runs -/

/-- a call on one space -/
theorem request_follows {r : Request} (hm : m.In h) (hkeep : KeepsNodes (.call i r)) :
    Follows OutOfHeap (fun x y => (∃ m', m'.ctx = x.1.2 ∧ m'.value = y.1 ∧ Moves h m x.1.1 m') ∧ x.2 = y.2)
      (request A mi h m.ctx r) (valueRequest mi m.value r) := by
  cases r with
  | map va pa n flags =>
    refine (map_follows hm).bind ?_
    rintro ⟨h', ctx', r⟩ ⟨v, r'⟩ ⟨hr, hm'⟩
    exact .ok ⟨hm', congrArg Answer.addr hr⟩
  | unmap va n =>
    refine (unmap_follows hm hkeep).bind ?_
    rintro ⟨h', ctx'⟩ v hm'
    exact .ok ⟨hm', rfl⟩
  | find x =>
    simp only [request, find_follows hm]
    exact .ok ⟨⟨m, rfl, rfl, .refl hm⟩, rfl⟩

/-- **One step** of the machine on the heap follows the machine on values. -/
theorem step_follows (hs : Holds s vs) (hkeep : KeepsNodes o) :
    Follows OutOfHeap (fun x y => Holds x.1 y.1 ∧ x.2 = y.2) (step A mi es s o) (valueStep mi es vs o) := by
  obtain ⟨ms, hctxs, rfl, hheld⟩ := hs
  have hlength : s.contexts.length = (ms.map Member.value).length := by rw [hctxs, List.length_map, List.length_map]
  -- what a new space adds
  have hadd : ∀ {heap ctx m'}, m'.ctx = ctx → Moves s.heap .none heap m' →
      Holds ⟨heap, s.contexts ++ [ctx]⟩ (ms.map Member.value ++ [m'.value]) := by
    rintro heap ctx m' rfl hm'
    refine ⟨ms ++ [m'], ?_, ?_, hheld.add hm'⟩
    · rw [List.map_append, hctxs]
      rfl
    · rw [List.map_append]
      rfl
  cases o with
  | new =>
    refine newContext_follows.bind ?_
    rintro ⟨heap, ctx⟩ v ⟨m', hctx, rfl, hm'⟩
    exact .ok ⟨hadd hctx hm', congrArg Answer.context hlength⟩
  | clone i =>
    simp only [step, valueStep, hctxs, List.getElem?_map]
    cases hi : ms[i]? with
    | none => exact .ok ⟨⟨ms, hctxs, rfl, hheld⟩, rfl⟩
    | some m =>
      have hm : m.In s.heap := hheld.members m (List.mem_of_getElem? hi)
      refine (cloneContext_follows hm hheld.cleanLinks).bind_left ?_
      rintro ⟨heap, ctx⟩ ⟨m', hctx, hvalue, hm'⟩
      rw [Option.map_some, ← hctxs, ← hvalue, hlength]
      exact .ok ⟨hadd hctx hm', rfl⟩
  | call i r =>
    simp only [step, valueStep, hctxs, List.getElem?_map]
    cases hi : ms[i]? with
    | none => exact .ok ⟨⟨ms, hctxs, rfl, hheld⟩, rfl⟩
    | some m =>
      have hm : m.In s.heap := hheld.members m (List.mem_of_getElem? hi)
      refine (request_follows hm hkeep).bind ?_
      rintro ⟨⟨heap, ctx⟩, a⟩ ⟨v, b⟩ ⟨⟨m', rfl, rfl, hm'⟩, rfl⟩
      refine .ok ⟨⟨ms.set i m', ?_, ?_, hheld.set hi hm'⟩, rfl⟩
      · exact List.map_set.symm
      · exact List.map_set.symm

/-- an empty heap -/
theorem holds_nil (hclean : ∀ p, (h.nodes p).left = 0 ∧ (h.nodes p).right = 0) : Holds ⟨h, []⟩ [] :=
  ⟨[], rfl, rfl, fun _ hm => absurd hm List.not_mem_nil, List.Pairwise.nil, fun p _ => hclean p⟩

theorem run_follows (A : Allocator) (mi : KernelMeminfo) (es : List AddrSpaceEntry) (hs : Holds s vs) (hkeep : ∀ o ∈ ops, KeepsNodes o) :
    Follows OutOfHeap (fun x y => Holds x.1 y.1 ∧ x.2 = y.2)
      (respond (step A mi es) s ops) (respond (valueStep mi es) vs ops) :=
  Follows.respond (C := KeepsNodes) (fun _ _ _ hs ho => step_follows hs ho) hs hkeep

/-- **Address spaces are values.** Let contexts be made, cloned, and called in any number and order, all on one heap. Then every run
ends as it does on values, where a clone is a copy and a call changes the value of its own context only: with the same answers to
all calls, or with the same panic, unless `kmalloc` has no block left. -/
theorem spaces_are_values (hclean : ∀ p, (h.nodes p).left = 0 ∧ (h.nodes p).right = 0) (hkeep : ∀ o ∈ ops, KeepsNodes o) :
    Follows OutOfHeap (fun x y => Holds x.1 y.1 ∧ x.2 = y.2)
      (respond (step A mi es) ⟨h, []⟩ ops) (respond (valueStep mi es) [] ops) :=
  run_follows A mi es (holds_nil hclean) hkeep

/-- a space and its clone, both with an allocation at 0x400000; a page of the first is unmapped again -/
def twoTasks : List Op :=
  [.new, .clone 0, .call 0 (.map 0x400000 0x800000 2 7), .call 1 (.find 0x400000), .call 1 (.map 0x400000 0x900000 1 7),
    .call 0 (.unmap 0x400000 1), .call 0 (.find 0x401000), .call 1 (.find 0x400000)]

/-- the clone has no allocation there before it makes one, and keeps it -/
theorem spaces_are_values_two :
    ∃ s, respond (step .top .atOneMegabyte entries) ⟨emptyHeap, []⟩ twoTasks = .ok (s, [.context 0, .context 1, .addr 0x400000,
      .record ⟨0, 0, 0, 0⟩, .addr 0x400000, .unmapped, .record ⟨0x401000, 0x800000, 1, 7⟩, .record ⟨0x400000, 0x900000, 1, 7⟩]) := by
  have hok := eq_returned (x := respond (step .top .atOneMegabyte entries) ⟨emptyHeap, []⟩ twoTasks) (⟨emptyHeap, []⟩, [])
    (by decide +kernel)
  have hrun : Follows OutOfHeap (fun x y => Holds x.1 y.1 ∧ x.2 = y.2)
      (respond (step .top .atOneMegabyte entries) ⟨emptyHeap, []⟩ twoTasks)
      (respond (valueStep .atOneMegabyte entries) [] twoTasks) := spaces_are_values (fun _ => ⟨rfl, rfl⟩) (by decide)
  rw [hok] at hrun
  obtain ⟨⟨vs, as⟩, hvalues, _, has⟩ := hrun.returns
  have hanswers : (returned ([], []) (respond (valueStep .atOneMegabyte entries) [] twoTasks)).2 = [.context 0, .context 1,
      .addr 0x400000, .record ⟨0, 0, 0, 0⟩, .addr 0x400000, .unmapped, .record ⟨0x401000, 0x800000, 1, 7⟩,
      .record ⟨0x400000, 0x900000, 1, 7⟩] := by decide +kernel
  rw [hvalues] at hanswers
  refine ⟨_, hok.trans (congrArg Except.ok (Prod.ext rfl ?_))⟩
  exact has.trans hanswers

/-- the calls on context `i` -/
def callOn (i : ℕ) : Op → Option Request
  | .call j r => if j = i then some r else none
  | _ => none

/-- a value is a part of the machine that is touched by its own calls only -/
theorem value_part (mi : KernelMeminfo) (es : List AddrSpaceEntry) (i : ℕ) :
    Part (valueStep mi es) (valueRequest mi) (fun vs v => vs[i]? = some v) (callOn i) where
  acts := by
    intro vs vs' v o r a hv ho hstep
    cases o with
    | new => cases ho
    | clone j => cases ho
    | call j q =>
      obtain ⟨rfl, rfl⟩ : j = i ∧ q = r := by
        simp only [callOn] at ho
        split_ifs at ho with hj
        exact ⟨hj, Option.some.inj ho⟩
      simp only [valueStep, hv] at hstep
      obtain ⟨⟨v', b⟩, hcall, hstep⟩ := bind_ok.1 hstep
      cases hstep
      refine ⟨v', hcall, List.getElem?_set_self ?_⟩
      exact (List.getElem?_eq_some_iff.1 hv).1
  idle := by
    intro vs vs' v o a hv ho hstep
    have happend : ∀ w : SpaceValue, (vs ++ [w])[i]? = some v := fun w => by
      rw [List.getElem?_append_left (List.getElem?_eq_some_iff.1 hv).1]
      exact hv
    cases o with
    | new =>
      obtain ⟨w, _, hstep⟩ := bind_ok.1 hstep
      cases hstep
      exact happend w
    | clone j =>
      simp only [valueStep] at hstep
      cases hj : vs[j]? with
      | none =>
        rw [hj] at hstep
        cases hstep
        exact hv
      | some w =>
        rw [hj] at hstep
        cases hstep
        exact happend w
    | call j q =>
      have hne : j ≠ i := by
        rintro rfl
        simp [callOn] at ho
      simp only [valueStep] at hstep
      cases hj : vs[j]? with
      | none =>
        rw [hj] at hstep
        cases hstep
        exact hv
      | some w =>
        rw [hj] at hstep
        obtain ⟨⟨w', b⟩, _, hstep⟩ := bind_ok.1 hstep
        cases hstep
        exact (List.getElem?_set_ne hne).trans hv

/-- the answers to the calls on one context are those that its value gives alone -/
theorem own_answers {v : SpaceValue} (hs : Holds s vs) (hv : vs[i]? = some v) (hkeep : ∀ o ∈ ops, KeepsNodes o)
    (hok : respond (step A mi es) s ops = .ok (t, as)) :
    ∃ v', respond (valueRequest mi) v (ops.filterMap (callOn i)) = .ok (v', ownAnswers (callOn i) ops as) := by
  have hrun := run_follows A mi es hs hkeep
  rw [hok] at hrun
  obtain ⟨⟨vs', as'⟩, hvalues, _, rfl⟩ := hrun.returns
  obtain ⟨v', hown, _⟩ := (value_part mi es i).respond hv hvalues
  exact ⟨v', hown⟩

/-- **What one task sees of its space.** From any state that is reached, take two runs in which the calls on context `i` are the
same, in the same order. Whatever else is done in each of the two runs (calls on other contexts, clones, new contexts), if both
return then the calls on context `i` have the same answers. -/
theorem others_unseen (hclean : ∀ p, (h.nodes p).left = 0 ∧ (h.nodes p).right = 0) (hpre : ∀ o ∈ pre, KeepsNodes o)
    (hs : respond (step A mi es) ⟨h, []⟩ pre = .ok (s, pas)) (hi : i < s.contexts.length) (hkeep : ∀ o ∈ ops, KeepsNodes o)
    (hkeep' : ∀ o ∈ ops', KeepsNodes o) (hsame : ops.filterMap (callOn i) = ops'.filterMap (callOn i))
    (hok : respond (step A mi es) s ops = .ok (t, as)) (hok' : respond (step A mi es) s ops' = .ok (t', as')) :
    ownAnswers (callOn i) ops as = ownAnswers (callOn i) ops' as' := by
  have hstart := run_follows A mi es (holds_nil hclean) hpre
  rw [hs] at hstart
  obtain ⟨⟨vs, _⟩, _, hholds, _⟩ := hstart.returns
  obtain ⟨v, hv⟩ : ∃ v, vs[i]? = some v := by
    obtain ⟨ms, hctxs, rfl, _⟩ := hholds
    rw [hctxs, List.length_map] at hi
    exact ⟨_, List.getElem?_eq_getElem (by rwa [List.length_map])⟩
  obtain ⟨w, hrun⟩ := own_answers hholds hv hkeep hok
  obtain ⟨w', hrun'⟩ := own_answers hholds hv hkeep' hok'
  rw [hsame, hrun'] at hrun
  exact (congrArg Prod.snd (Except.ok.inj hrun)).symm

/-- a task maps a page and looks it up, alone and with the other task at work in between -/
def alone : List Op := [.call 1 (.map 0 0x900000 1 7), .call 1 (.find 0x5000)]

def between : List Op :=
  [.call 0 (.map 0x400000 0x800000 2 7), .call 1 (.map 0 0x900000 1 7), .clone 0, .call 0 (.unmap 0x400000 2), .call 1 (.find 0x5000)]

def cloned : St × List Answer :=
  returned (⟨emptyHeap, []⟩, []) (respond (step .top .atOneMegabyte entries) ⟨emptyHeap, []⟩ [.new, .clone 0])

def answersTo (ops : List Op) : List Answer :=
  (returned (cloned.1, []) (respond (step .top .atOneMegabyte entries) cloned.1 ops)).2

theorem others_unseen_second : ownAnswers (callOn 1) alone (answersTo alone) = ownAnswers (callOn 1) between (answersTo between) := by
  have hpre : respond (step .top .atOneMegabyte entries) ⟨emptyHeap, []⟩ [.new, .clone 0] = .ok (cloned.1, cloned.2) :=
    eq_returned (⟨emptyHeap, []⟩, []) (by decide +kernel)
  have halone : respond (step .top .atOneMegabyte entries) cloned.1 alone = .ok (_, answersTo alone) :=
    eq_returned (cloned.1, []) (by decide +kernel)
  have hbetween : respond (step .top .atOneMegabyte entries) cloned.1 between = .ok (_, answersTo between) :=
    eq_returned (cloned.1, []) (by decide +kernel)
  exact others_unseen (i := 1) (fun _ => ⟨rfl, rfl⟩) (by decide) hpre (by decide +kernel) (by decide) (by decide) (by decide)
    halone hbetween

end Held

end Gubos.Spaces
