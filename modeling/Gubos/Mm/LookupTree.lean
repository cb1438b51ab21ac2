/-
Lookups in an allocation tree that is no longer in order.

`vmm_unmap_pages` moves the address of a node in place and leaves the node, empty. A later unmap may find such a node instead
of the one that holds the allocation: the node moves on, its page count wraps below 0, and the allocation's own node stays
with its record. So three kinds of nodes are in a tree: live ones, whose record is an allocation; dead ones, at which no lookup
stops; and stale ones, which no lookup of their addresses reaches, since a dead node above them has moved past them.

- `Tame M b t`: what every tree has, with the live nodes `M`; `b` is the address up to which dead nodes above have moved;
- `Tame.found_live`: a lookup stops at live nodes only;
- `Tame.addLeaf`, `Tame.addDead`, `Tame.replace`, `Tame.shift`, `Tame.remove`: the changes of a tree keep this;
- `descend_shift`, `descend_dead`, `descend_remove`: and lookups of other addresses end as before.
-/
import Gubos.Mm.Calls

namespace Gubos.Vmm

open Gubos.Core Gubos.Paging

/-! ## Lookup -/

section Find

variable {h : Heap} {ctx : VmmContext} {l : List (ℕ × Area)} {t : BinaryTree (ℕ × VmmAllocation)}
  {a : VmmAllocation} {x : ℕ}

/-- there are fewer nodes than 32-bit addresses -/
theorem Rep.length_lt (hr : Rep h ctx l t) : (cells t).length < rounds := by
  have hlive : ∀ p ∈ ptrs (cells t), p ∈ h.arena.live := fun p hp => hr.live p (List.mem_append_right _ hp)
  calc (cells t).length = (ptrs (cells t)).length := (List.length_map _).symm
    _ ≤ 2 ^ 32 := h.arena.length_le hr.nodup_tree hlive
    _ < rounds := Nat.lt_succ_self _

/-- what a lookup gives: the record found, or a zero one -/
def found : Option (ℕ × VmmAllocation) → VmmAllocation
  | none => ⟨0, 0, 0, 0⟩
  | some c => c.2

/-- **Lookup returns.** -/
theorem vmmFindAllocation_eq (hr : Rep h ctx l t) (x : ℕ) :
    vmmFindAllocation h ctx x = .ok (found (descend (findDir x) t)) := by
  obtain ⟨pr, hw⟩ : ∃ pr, Core.walk h.node (findDir x) rounds ctx.allocations 0 =
      .ok (((descend (findDir x) t).map Prod.fst).getD 0, pr) := walk_eq hr.tree hr.length_lt
  unfold vmmFindAllocation
  rw [hw]
  cases hd : descend (findDir x) t with
  | none => rfl
  | some c =>
    have hc := (descend_some hd).1
    have hc0 : c.1 ≠ 0 := fun h0 => hr.tree.ne_zero (h0 ▸ mem_ptrs hc)
    have hc2 : (h.nodes c.1).alloc = c.2 := hr.tree.contents c hc
    change Except.ok (if c.1 = 0 then _ else (h.nodes c.1).alloc) = _
    rw [if_neg hc0, hc2]
    rfl

/-- a record that is found with pages is found in the tree -/
theorem descend_of_found {d : VmmAllocation} (hr : Rep h ctx l t) (hd : d.pageCount ≠ 0)
    (hfound : vmmFindAllocation h ctx x = .ok d) : ∃ p, descend (findDir x) t = some (p, d) := by
  rw [vmmFindAllocation_eq hr] at hfound
  cases hdesc : descend (findDir x) t with
  | none =>
    rw [hdesc] at hfound
    cases hfound
    exact absurd rfl hd
  | some c =>
    rw [hdesc] at hfound
    cases hfound
    exact ⟨c.1, rfl⟩

/-- the end of a record, as a lookup computes it -/
def endOf (a : VmmAllocation) : ℕ := u32 (a.virtualAddr + a.pageCount * pageSize)

/-- no lookup stops at the record -/
def Dead (a : VmmAllocation) : Prop := endOf a ≤ a.virtualAddr

/-- a record ends where it did, whatever pages are unmapped from its start -/
theorem endOf_shrunk (a : VmmAllocation) {n : ℕ} (hn : n ≤ 2 ^ 32) : endOf (shrunk a n) = endOf a := by
  unfold endOf shrunk u32
  simp only [pageSize]
  omega

theorem findDir_stop : findDir x a = .stop ↔ a.virtualAddr ≤ x ∧ x < endOf a := by
  unfold findDir insertDir endOf
  split_ifs with h1 h2
  · exact iff_of_true rfl h1
  · exact iff_of_false nofun h1
  · exact iff_of_false nofun h1

theorem findDir_left (h : x < a.virtualAddr) : findDir x a = .left := by
  unfold findDir insertDir
  rw [if_neg (by omega), if_pos h]

theorem findDir_right (h : a.virtualAddr ≤ x) (hend : endOf a ≤ x) : findDir x a = .right := by
  unfold findDir insertDir
  unfold endOf at hend
  rw [if_neg (by omega), if_neg (by omega)]

theorem dead_of_empty (h : a.pageCount = 0) : Dead a := by
  unfold Dead endOf
  rw [h, Nat.zero_mul, Nat.add_zero]
  exact Nat.mod_le _ _

end Find

/-! ## Tame trees -/

/-- live nodes are where a search for their address looks for them; what is left of a live node ends below it and what is
right of it is dead or not below it; and every other node is dead, or ends below a dead node that it is right of -/
def Tame (M : Set ℕ) : ℕ → BinaryTree (ℕ × VmmAllocation) → Prop
  | _, .nil => True
  | b, .node c l r =>
    (c.1 ∈ M ∨ Dead c.2 ∨ endOf c.2 ≤ b) ∧
    (∀ d ∈ cells l, d.1 ∈ M → d.2.virtualAddr < c.2.virtualAddr) ∧
    (∀ d ∈ cells r, d.1 ∈ M → c.2.virtualAddr ≤ d.2.virtualAddr) ∧
    (c.1 ∈ M → (∀ d ∈ cells l, d.2.virtualAddr ≤ c.2.virtualAddr ∧ endOf d.2 ≤ c.2.virtualAddr) ∧
      ∀ d ∈ cells r, Dead d.2 ∨ c.2.virtualAddr ≤ d.2.virtualAddr) ∧
    Tame M b l ∧ (c.1 ∈ M → Tame M b r) ∧ (c.1 ∉ M → Tame M (max b c.2.virtualAddr) r)

section Tame

variable {M M' : Set ℕ} {b b' va n x p : ℕ} {t l r s : BinaryTree (ℕ × VmmAllocation)} {c d : ℕ × VmmAllocation}
  {a : VmmAllocation}

/-- **A lookup stops at live nodes only.** -/
theorem Tame.found_live (ht : Tame M b t) (hb : b ≤ x) (hd : descend (findDir x) t = some d) : d.1 ∈ M := by
  induction t generalizing b with
  | nil => cases hd
  | node c l r ihl ihr =>
    obtain ⟨h1, _, _, _, hl, hr, hr'⟩ := ht
    unfold descend at hd
    cases hdir : findDir x c.2 with
    | stop =>
      rw [hdir] at hd
      cases hd
      obtain ⟨hle, hlt⟩ := findDir_stop.1 hdir
      rcases h1 with h1 | h1 | h1
      · exact h1
      · exact absurd (hlt.trans_le h1) (not_lt.2 hle)
      · exact absurd (hlt.trans_le h1) (not_lt.2 hb)
    | left =>
      rw [hdir] at hd
      exact ihl hl hb hd
    | right =>
      rw [hdir] at hd
      by_cases hc : c.1 ∈ M
      · exact ihr (hr hc) hb hd
      · -- the lookup is past the dead node
        have hge : c.2.virtualAddr ≤ x := by
          by_contra hlt
          rw [findDir_left (not_le.1 hlt)] at hdir
          cases hdir
        exact ihr (hr' hc) (max_le hb hge) hd

/-- nodes stop being live, and the bound grows -/
theorem Tame.drop (ht : Tame M b t) (hsub : M' ⊆ M) (hb : b ≤ b')
    (hdrop : ∀ d ∈ cells t, d.1 ∈ M → d.1 ∉ M' → Dead d.2 ∨ endOf d.2 ≤ b') : Tame M' b' t := by
  induction t generalizing b b' with
  | nil => trivial
  | node c l r ihl ihr =>
    obtain ⟨h1, h2, h3, h4, hl, hr, hr'⟩ := ht
    simp only [cells_node, List.mem_cons, List.mem_append] at hdrop
    refine ⟨?_, fun d hd hm => h2 d hd (hsub hm), fun d hd hm => h3 d hd (hsub hm), fun hm => h4 (hsub hm),
      ihl hl hb fun d hd => hdrop d (Or.inr (Or.inl hd)),
      fun hm => ihr (hr (hsub hm)) hb fun d hd => hdrop d (Or.inr (Or.inr hd)), fun hm => ?_⟩
    · by_cases hm' : c.1 ∈ M'
      · exact Or.inl hm'
      · refine Or.inr ?_
        rcases h1 with h1 | h1 | h1
        · exact hdrop c (Or.inl rfl) h1 hm'
        · exact Or.inl h1
        · exact Or.inr (h1.trans hb)
    · have hdrop' : ∀ d ∈ cells r, d.1 ∈ M → d.1 ∉ M' → Dead d.2 ∨ endOf d.2 ≤ max b' c.2.virtualAddr :=
        fun d hd hm hm' => (hdrop d (Or.inr (Or.inr hd)) hm hm').imp_right fun h => h.trans (le_max_left _ _)
      by_cases hc : c.1 ∈ M
      · exact ihr (hr hc) (hb.trans (le_max_left _ _)) hdrop'
      · exact ihr (hr' hc) (max_le_max hb le_rfl) hdrop'

/-- a tree without live nodes at which no lookup stops -/
theorem tame_of_dead (h : ∀ d ∈ cells t, d.1 ∉ M ∧ Dead d.2) : Tame M b t := by
  induction t generalizing b with
  | nil => trivial
  | node c l r ihl ihr =>
    simp only [cells_node, List.mem_cons, List.mem_append] at h
    have hc := h c (Or.inl rfl)
    have hl : ∀ d ∈ cells l, d.1 ∉ M ∧ Dead d.2 := fun d hd => h d (Or.inr (Or.inl hd))
    have hr : ∀ d ∈ cells r, d.1 ∉ M ∧ Dead d.2 := fun d hd => h d (Or.inr (Or.inr hd))
    exact ⟨Or.inr (Or.inl hc.2), fun d hd hm => absurd hm (hl d hd).1, fun d hd hm => absurd hm (hr d hd).1,
      fun hm => absurd hm hc.1, ihl hl, fun hm => absurd hm hc.1, fun _ => ihr hr⟩

/-- only the nodes of the tree matter -/
theorem Tame.congr (ht : Tame M b t) (h : ∀ d ∈ cells t, d.1 ∈ M' ↔ d.1 ∈ M) : Tame M' b t := by
  induction t generalizing b with
  | nil => trivial
  | node c l r ihl ihr =>
    obtain ⟨h1, h2, h3, h4, hl, hr, hr'⟩ := ht
    simp only [cells_node, List.mem_cons, List.mem_append] at h
    have hc := h c (Or.inl rfl)
    have hil : ∀ d ∈ cells l, d.1 ∈ M' ↔ d.1 ∈ M := fun d hd => h d (Or.inr (Or.inl hd))
    have hir : ∀ d ∈ cells r, d.1 ∈ M' ↔ d.1 ∈ M := fun d hd => h d (Or.inr (Or.inr hd))
    exact ⟨h1.imp_left hc.2, fun d hd hm => h2 d hd ((hil d hd).1 hm), fun d hd hm => h3 d hd ((hir d hd).1 hm),
      fun hm => h4 (hc.1 hm), ihl hl hil, fun hm => ihr (hr (hc.1 hm)) hir,
      fun hm => ihr (hr' fun hm' => hm (hc.2 hm')) hir⟩

/-- **A new live leaf.** -/
theorem Tame.addLeaf (ht : Tame M b t) (hp : p ∉ ptrs (cells t))
    (hend : ∀ g ∈ cells t, g.1 ∈ M → a.virtualAddr < g.2.virtualAddr → endOf a ≤ g.2.virtualAddr) :
    Tame (insert p M) b (insertLeaf (insertDir a.virtualAddr) (p, a) t) := by
  induction t generalizing b with
  | nil =>
    refine ⟨Or.inl (Set.mem_insert _ _), ?_, ?_, fun _ => ⟨?_, ?_⟩, trivial, fun _ => trivial, fun _ => trivial⟩
    all_goals exact fun d hd => absurd hd List.not_mem_nil
  | node c l r ihl ihr =>
    obtain ⟨h1, h2, h3, h4, hl, hr, hr'⟩ := ht
    simp only [cells_node, ptrs_cons, ptrs_append, List.mem_cons, List.mem_append, not_or] at hp hend
    obtain ⟨hpc, hpl, hpr⟩ := hp
    -- the nodes that were there are live as before
    have hold : ∀ {d : ℕ × VmmAllocation}, d.1 ≠ p → (d.1 ∈ insert p M ↔ d.1 ∈ M) := fun hne =>
      ⟨fun hm => hm.resolve_left hne, Or.inr⟩
    have hc : c.1 ∈ insert p M ↔ c.1 ∈ M := hold (Ne.symm hpc)
    have hnl : ∀ d ∈ cells l, d.1 ≠ p := fun d hd e => hpl (e ▸ mem_ptrs hd)
    have hnr : ∀ d ∈ cells r, d.1 ≠ p := fun d hd e => hpr (e ▸ mem_ptrs hd)
    have hkl : ∀ {b}, Tame M b l → Tame (insert p M) b l := fun h => h.congr fun d hd => hold (hnl d hd)
    have hkr : ∀ {b}, Tame M b r → Tame (insert p M) b r := fun h => h.congr fun d hd => hold (hnr d hd)
    unfold insertLeaf
    by_cases hlt : a.virtualAddr < c.2.virtualAddr
    · have hdir : insertDir a.virtualAddr c.2 = .left := if_pos hlt
      have hmem : ∀ {d}, d ∈ cells (insertLeaf (insertDir a.virtualAddr) (p, a) l) → d = (p, a) ∨ d ∈ cells l :=
        fun hd => List.mem_cons.1 ((cells_insertLeaf _ _ _).mem_iff.1 hd)
      rw [hdir]
      refine ⟨h1.imp_left Or.inr, fun d hd hm => ?_, fun d hd hm => h3 d hd ((hold (hnr d hd)).1 hm), fun hm => ?_,
        ihl hl hpl fun g hg => hend g (Or.inr (Or.inl hg)), fun hm => hkr (hr (hc.1 hm)),
        fun hm => hkr (hr' fun hm' => hm (hc.2 hm'))⟩
      · rcases hmem hd with rfl | hd
        · exact hlt
        · exact h2 d hd ((hold (hnl d hd)).1 hm)
      · obtain ⟨h5, h6⟩ := h4 (hc.1 hm)
        refine ⟨fun d hd => ?_, h6⟩
        rcases hmem hd with rfl | hd
        · exact ⟨hlt.le, hend c (Or.inl rfl) (hc.1 hm) hlt⟩
        · exact h5 d hd
    · have hdir : insertDir a.virtualAddr c.2 = .right := if_neg hlt
      have hmem : ∀ {d}, d ∈ cells (insertLeaf (insertDir a.virtualAddr) (p, a) r) → d = (p, a) ∨ d ∈ cells r :=
        fun hd => List.mem_cons.1 ((cells_insertLeaf _ _ _).mem_iff.1 hd)
      have ihr' : ∀ {b}, Tame M b r → Tame (insert p M) b (insertLeaf (insertDir a.virtualAddr) (p, a) r) :=
        fun h => ihr h hpr fun g hg => hend g (Or.inr (Or.inr hg))
      rw [hdir]
      refine ⟨h1.imp_left Or.inr, fun d hd hm => h2 d hd ((hold (hnl d hd)).1 hm), fun d hd hm => ?_, fun hm => ?_,
        hkl hl, fun hm => ihr' (hr (hc.1 hm)), fun hm => ihr' (hr' fun hm' => hm (hc.2 hm'))⟩
      · rcases hmem hd with rfl | hd
        · exact not_lt.1 hlt
        · exact h3 d hd ((hold (hnr d hd)).1 hm)
      · obtain ⟨h5, h6⟩ := h4 (hc.1 hm)
        refine ⟨h5, fun d hd => ?_⟩
        rcases hmem hd with rfl | hd
        · exact Or.inr (not_lt.1 hlt)
        · exact h6 d hd

/-- **A new leaf at which no lookup stops.** -/
theorem Tame.addDead (ht : Tame M b t) (hp : p ∉ M) (ha : Dead a) :
    Tame M b (insertLeaf (insertDir a.virtualAddr) (p, a) t) := by
  induction t generalizing b with
  | nil => exact tame_of_dead fun d hd => by rw [List.mem_singleton.1 hd]; exact ⟨hp, ha⟩
  | node c l r ihl ihr =>
    obtain ⟨h1, h2, h3, h4, hl, hr, hr'⟩ := ht
    unfold insertLeaf
    by_cases hlt : a.virtualAddr < c.2.virtualAddr
    · have hdir : insertDir a.virtualAddr c.2 = .left := if_pos hlt
      have hmem : ∀ {d}, d ∈ cells (insertLeaf (insertDir a.virtualAddr) (p, a) l) → d = (p, a) ∨ d ∈ cells l :=
        fun hd => List.mem_cons.1 ((cells_insertLeaf _ _ _).mem_iff.1 hd)
      rw [hdir]
      refine ⟨h1, fun d hd hm => ?_, h3, fun hm => ⟨fun d hd => ?_, (h4 hm).2⟩, ihl hl, hr, hr'⟩
      · rcases hmem hd with rfl | hd
        · exact absurd hm hp
        · exact h2 d hd hm
      · rcases hmem hd with rfl | hd
        · exact ⟨hlt.le, le_trans ha hlt.le⟩
        · exact (h4 hm).1 d hd
    · have hdir : insertDir a.virtualAddr c.2 = .right := if_neg hlt
      have hmem : ∀ {d}, d ∈ cells (insertLeaf (insertDir a.virtualAddr) (p, a) r) → d = (p, a) ∨ d ∈ cells r :=
        fun hd => List.mem_cons.1 ((cells_insertLeaf _ _ _).mem_iff.1 hd)
      rw [hdir]
      refine ⟨h1, h2, fun d hd hm => ?_, fun hm => ⟨(h4 hm).1, fun d hd => ?_⟩, hl, fun hm => ihr (hr hm),
        fun hm => ihr (hr' hm)⟩
      · rcases hmem hd with rfl | hd
        · exact absurd hm hp
        · exact h3 d hd hm
      · rcases hmem hd with rfl | hd
        · exact Or.inl ha
        · exact (h4 hm).2 d hd

theorem Tame.below (ht : Tame M b t) : ∃ b', Tame M b' (subtreeAt p t) := by
  induction t generalizing b with
  | nil => exact ⟨b, trivial⟩
  | node g l r ihl ihr =>
    obtain ⟨_, _, _, _, hl, hr, hr'⟩ := id ht
    rw [subtreeAt]
    split_ifs
    · exact ⟨b, ht⟩
    · exact ihl hl
    · by_cases hg : g.1 ∈ M
      · exact ihr (hr hg)
      · exact ihr (hr' hg)

/-- a node that an unmap finds is live, or ends at its address -/
theorem Tame.found_end (ht : Tame M b t) (hb : b ≤ va) (hfound : descend (startDir va) t = some c) :
    c.2.virtualAddr = va ∧ (c.1 ∈ M ∨ endOf c.2 ≤ va) := by
  induction t generalizing b with
  | nil => cases hfound
  | node g l r ihl ihr =>
    obtain ⟨h1, _, _, _, hl, hr, hr'⟩ := ht
    unfold descend startDir insertDir at hfound
    by_cases heq : va = g.2.virtualAddr
    · rw [if_pos heq] at hfound
      cases hfound
      refine ⟨heq.symm, h1.imp_right fun h => ?_⟩
      rcases h with h | h
      · exact heq ▸ h
      · exact h.trans hb
    rw [if_neg heq] at hfound
    by_cases hlt : va < g.2.virtualAddr
    · rw [if_pos hlt] at hfound
      exact ihl hl hb hfound
    · rw [if_neg hlt] at hfound
      by_cases hg : g.1 ∈ M
      · exact ihr (hr hg) hb hfound
      · exact ihr (hr' hg) (max_le hb (not_lt.1 hlt)) hfound

/-- **A change at the node that an unmap finds.** The nodes above it see only that what is new there is dead, and does not
pass the live nodes above the address. -/
theorem Tame.replace (ht : Tame M b t) (hnd : (ptrs (cells t)).Nodup) (hfound : descend (startDir va) t = some c)
    (hsub : M' ⊆ M) (hdrop : ∀ d ∈ cells t, d.1 ∈ M → d.1 ∉ M' → d.2.virtualAddr = va)
    (hcells : ∀ d ∈ cells s, d ∈ cells (subtreeAt c.1 t) ∨
      d.1 ∉ M' ∧ Dead d.2 ∧ ∀ g ∈ cells t, g.1 ∈ M' → va < g.2.virtualAddr → d.2.virtualAddr ≤ g.2.virtualAddr)
    (hs : ∀ b', Tame M b' (subtreeAt c.1 t) → Tame M' b' s) : Tame M' b (replaceAt c.1 s t) := by
  induction t generalizing b with
  | nil => cases hfound
  | node g l r ihl ihr =>
    simp only [cells_node, ptrs_cons, ptrs_append, List.nodup_cons, List.nodup_append, List.mem_append, not_or] at hnd
    obtain ⟨⟨hgl, hgr⟩, hndl, hndr, hlr⟩ := hnd
    by_cases heq : va = g.2.virtualAddr
    · -- the node itself
      have hstop : startDir va g.2 = .stop := if_pos heq
      unfold descend at hfound
      rw [hstop] at hfound
      cases hfound
      rw [subtreeAt, if_pos rfl] at hs
      rw [replaceAt, if_pos rfl]
      exact hs b ht
    obtain ⟨h1, h2, h3, h4, hl, hr, hr'⟩ := ht
    simp only [cells_node, List.mem_cons, List.mem_append] at hdrop
    have hg : g.1 ∈ M' ↔ g.1 ∈ M := ⟨fun hm => hsub hm, fun hm => by
      by_contra hm'
      exact heq (hdrop g (Or.inl rfl) hm hm').symm⟩
    have h1' : g.1 ∈ M' ∨ Dead g.2 ∨ endOf g.2 ≤ b := h1.imp_left hg.2
    have hdir : startDir va g.2 = insertDir va g.2 := if_neg heq
    unfold descend at hfound
    rw [hdir] at hfound
    by_cases hlt : va < g.2.virtualAddr
    · -- the node is on the left
      have hleft : insertDir va g.2 = .left := if_pos hlt
      rw [hleft] at hfound
      have hcl := mem_ptrs (descend_some hfound).1
      have hne : g.1 ≠ c.1 := fun e => hgl (e ▸ hcl)
      have hsubt : subtreeAt c.1 (.node g l r) = subtreeAt c.1 l := by rw [subtreeAt, if_neg hne, if_pos hcl]
      rw [hsubt] at hcells hs
      rw [replaceAt, if_neg hne, replaceAt_of_notMem fun hm => hlr _ hcl _ hm rfl]
      have hnew : ∀ d ∈ cells (replaceAt c.1 s l), d ∈ cells l ∨ d.1 ∉ M' ∧ Dead d.2 ∧
          ∀ g' ∈ cells (.node g l r), g'.1 ∈ M' → va < g'.2.virtualAddr → d.2.virtualAddr ≤ g'.2.virtualAddr := by
        intro d hd
        rcases mem_cells_replaceAt hd with hd | hd
        · exact Or.inl hd
        · exact (hcells d hd).imp_left (cells_subtreeAt_subset d)
      have hkr : ∀ {b}, Tame M b r → Tame M' b r := fun h => h.drop hsub le_rfl fun d hd hm hm' => by
        have := h3 d hd hm
        have := hdrop d (Or.inr (Or.inr hd)) hm hm'
        omega
      refine ⟨h1', fun d hd hm => ?_, fun d hd hm => h3 d hd (hsub hm), fun hm => ⟨fun d hd => ?_, (h4 (hg.1 hm)).2⟩,
        ihl hl hndl hfound (fun d hd => hdrop d (Or.inr (Or.inl hd))) (fun d hd => ?_) hs,
        fun hm => hkr (hr (hg.1 hm)), fun hm => hkr (hr' fun hm' => hm (hg.2 hm'))⟩
      · rcases hnew d hd with hd | ⟨hm', _⟩
        · exact h2 d hd (hsub hm)
        · exact absurd hm hm'
      · rcases hnew d hd with hd | ⟨_, hdead, hbelow⟩
        · exact (h4 (hg.1 hm)).1 d hd
        · have hle := hbelow g (by simp) hm hlt
          exact ⟨hle, le_trans hdead hle⟩
      · exact (hcells d hd).imp_right fun hd' => ⟨hd'.1, hd'.2.1, fun g' hg' => hd'.2.2 g' (by simp [hg'])⟩
    · -- the node is on the right
      have hright : insertDir va g.2 = .right := if_neg hlt
      rw [hright] at hfound
      have hcr := mem_ptrs (descend_some hfound).1
      have hne : g.1 ≠ c.1 := fun e => hgr (e ▸ hcr)
      have hcl : c.1 ∉ ptrs (cells l) := fun hm => hlr _ hm _ hcr rfl
      have hsubt : subtreeAt c.1 (.node g l r) = subtreeAt c.1 r := by rw [subtreeAt, if_neg hne, if_neg hcl]
      rw [hsubt] at hcells hs
      rw [replaceAt, if_neg hne, replaceAt_of_notMem hcl]
      have hnew : ∀ d ∈ cells (replaceAt c.1 s r), d ∈ cells r ∨ d.1 ∉ M' ∧ Dead d.2 := by
        intro d hd
        rcases mem_cells_replaceAt hd with hd | hd
        · exact Or.inl hd
        · exact (hcells d hd).imp (cells_subtreeAt_subset d) fun hd' => ⟨hd'.1, hd'.2.1⟩
      have ihr' : ∀ {b}, Tame M b r → Tame M' b (replaceAt c.1 s r) := fun h =>
        ihr h hndr hfound (fun d hd => hdrop d (Or.inr (Or.inr hd)))
          (fun d hd => (hcells d hd).imp_right fun hd' => ⟨hd'.1, hd'.2.1, fun g' hg' => hd'.2.2 g' (by simp [hg'])⟩) hs
      have hkl : Tame M' b l := hl.drop hsub le_rfl fun d hd hm hm' => by
        have := h2 d hd hm
        have := hdrop d (Or.inr (Or.inl hd)) hm hm'
        omega
      refine ⟨h1', fun d hd hm => h2 d hd (hsub hm), fun d hd hm => ?_, fun hm => ⟨(h4 (hg.1 hm)).1, fun d hd => ?_⟩,
        hkl, fun hm => ihr' (hr (hg.1 hm)), fun hm => ihr' (hr' fun hm' => hm (hg.2 hm'))⟩
      · rcases hnew d hd with hd | ⟨hm', _⟩
        · exact h3 d hd (hsub hm)
        · exact absurd hm hm'
      · rcases hnew d hd with hd | ⟨_, hdead⟩
        · exact (h4 (hg.1 hm)).2 d hd
        · exact Or.inl hdead

/-- the record of the node moves past the range -/
theorem Tame.shift (ht : Tame M b (.node c l r)) (hsub : M' ⊆ M) (hc : c.1 ∉ M')
    (hdrop : ∀ d ∈ cells l ++ cells r, d.1 ∈ M → d.1 ∉ M' →
      d.2.virtualAddr = c.2.virtualAddr ∧ endOf d.2 ≤ a.virtualAddr)
    (hdead : Dead a) (hle : c.2.virtualAddr ≤ a.virtualAddr)
    (hfar : ∀ d ∈ cells r, d.1 ∈ M' → c.2.virtualAddr ≤ d.2.virtualAddr → a.virtualAddr ≤ d.2.virtualAddr) :
    Tame M' b (.node (c.1, a) l r) := by
  obtain ⟨_, h2, h3, _, hl, hr, hr'⟩ := ht
  have hdropr : ∀ d ∈ cells r, d.1 ∈ M → d.1 ∉ M' → Dead d.2 ∨ endOf d.2 ≤ max b a.virtualAddr := fun d hd hm hm' =>
    Or.inr ((hdrop d (List.mem_append_right _ hd) hm hm').2.trans (le_max_right _ _))
  refine ⟨Or.inr (Or.inl hdead), fun d hd hm => (h2 d hd (hsub hm)).trans_le hle,
    fun d hd hm => hfar d hd hm (h3 d hd (hsub hm)), fun hm => absurd hm hc, hl.drop hsub le_rfl fun d hd hm hm' => ?_,
    fun hm => absurd hm hc, fun _ => ?_⟩
  · -- what is left of the node has a lower address
    have := h2 d hd hm
    have := (hdrop d (List.mem_append_left _ hd) hm hm').1
    omega
  · by_cases hcM : c.1 ∈ M
    · exact (hr hcM).drop hsub (le_max_left _ _) hdropr
    · exact (hr' hcM).drop hsub (max_le_max le_rfl hle) hdropr

/-- the right subtree is hung at the right end of the left one -/
theorem Tame.hang (hl : Tame M b l) (hr : Tame M b r) (h1 : ∀ d ∈ cells l, d.2.virtualAddr ≤ va)
    (h2 : ∀ d ∈ cells r, Dead d.2 ∨ va ≤ d.2.virtualAddr) (h3 : ∀ d ∈ cells r, d.1 ∈ M → va ≤ d.2.virtualAddr) :
    Tame M b (hangRight r l) := by
  induction l generalizing b with
  | nil => exact hr
  | node g l₁ l₂ _ ih =>
    obtain ⟨k1, k2, k3, k4, kl, kr, kr'⟩ := hl
    simp only [cells_node, List.mem_cons, List.mem_append] at h1
    have hg := h1 g (Or.inl rfl)
    have hmem : ∀ {d}, d ∈ cells (hangRight r l₂) → d ∈ cells l₂ ∨ d ∈ cells r := fun hd =>
      List.mem_append.1 ((cells_hangRight r l₂).mem_iff.1 hd)
    have ih' : ∀ {b'}, b ≤ b' → Tame M b' l₂ → Tame M b' (hangRight r l₂) := fun hb h =>
      ih h (hr.drop subset_rfl hb fun d _ hm hm' => absurd hm hm') fun d hd => h1 d (Or.inr (Or.inr hd))
    refine ⟨k1, k2, fun d hd hm => ?_, fun hm => ⟨(k4 hm).1, fun d hd => ?_⟩, kl, fun hm => ih' le_rfl (kr hm),
      fun hm => ih' (le_max_left _ _) (kr' hm)⟩
    · rcases hmem hd with hd | hd
      · exact k3 d hd hm
      · exact hg.trans (h3 d hd hm)
    · rcases hmem hd with hd | hd
      · exact (k4 hm).2 d hd
      · exact (h2 d hd).imp_right hg.trans

/-- a live node is taken out -/
theorem Tame.remove (ht : Tame M b (.node c l r)) (hc : c.1 ∈ M) (hsub : M' ⊆ M)
    (hdrop : ∀ d ∈ cells l ++ cells r, d.1 ∈ M → d.1 ∈ M') : Tame M' b (hangRight r l) := by
  obtain ⟨_, _, h3, h4, hl, hr, _⟩ := ht
  obtain ⟨h5, h6⟩ := h4 hc
  have hl' : Tame M' b l :=
    hl.drop hsub le_rfl fun d hd hm hm' => absurd (hdrop d (List.mem_append_left _ hd) hm) hm'
  have hr' : Tame M' b r :=
    (hr hc).drop hsub le_rfl fun d hd hm hm' => absurd (hdrop d (List.mem_append_right _ hd) hm) hm'
  exact hl'.hang hr' (fun d hd => (h5 d hd).1) h6 fun d hd hm => h3 d hd (hsub hm)

/-! ## Lookups of other addresses -/

theorem dead_ne_stop (h : Dead a) : findDir x a ≠ .stop := by
  intro hstop
  obtain ⟨h1, h2⟩ := findDir_stop.1 hstop
  exact absurd (h2.trans_le h) (not_lt.2 h1)

/-- a node moves past a range that does not contain the address -/
theorem descend_shift (hdead : Dead a) (hend : endOf c.2 ≤ a.virtualAddr) (hle : c.2.virtualAddr ≤ a.virtualAddr)
    (hx : x < c.2.virtualAddr ∨ a.virtualAddr ≤ x) :
    descend (findDir x) (.node (c.1, a) l r) = descend (findDir x) (.node c l r) := by
  unfold descend
  dsimp only
  rcases hx with hx | hx
  · rw [findDir_left hx, findDir_left (hx.trans_le hle)]
  · rw [findDir_right hx (le_trans hdead hx), findDir_right (hle.trans hx) (hend.trans hx)]

/-- no lookup stops at or below the node -/
theorem descend_dead (h : ∀ d ∈ cells l ++ cells r, Dead d.2) (hc : Dead c.2) (hdead : Dead a) :
    descend (findDir x) (.node (c.1, a) l r) = descend (findDir x) (.node c l r) := by
  have hnone : ∀ {d : ℕ × VmmAllocation}, Dead d.2 → descend (findDir x) (.node d l r) = none := by
    intro d hd
    refine descend_none fun e he => ?_
    rcases List.mem_cons.1 he with rfl | he
    · exact dead_ne_stop hd
    · exact dead_ne_stop (h e he)
  rw [hnone hc, hnone (d := (c.1, a)) hdead]

/-- a live node that does not contain the address is taken out -/
theorem descend_remove (ht : Tame M b (.node c l r)) (hc : c.1 ∈ M) (hx : x < c.2.virtualAddr ∨ endOf c.2 ≤ x) :
    descend (findDir x) (hangRight r l) = descend (findDir x) (.node c l r) := by
  obtain ⟨_, _, _, h4, _⟩ := ht
  obtain ⟨h5, h6⟩ := h4 hc
  by_cases hlt : x < c.2.virtualAddr
  · -- nothing in the right subtree is found
    have hnone : descend (findDir x) r = none := by
      refine descend_none fun d hd hstop => ?_
      rcases h6 d hd with hdead | hge
      · exact dead_ne_stop hdead hstop
      · exact absurd (hge.trans (findDir_stop.1 hstop).1) (not_le.2 hlt)
    have hnode : descend (findDir x) (.node c l r) = descend (findDir x) l := by
      simp only [descend, findDir_left hlt]
    rw [hnode]
    have hhang : descend (findDir x) (hangRight r l) = descend (findDir x) l ∨
        descend (findDir x) l = none ∧ descend (findDir x) (hangRight r l) = descend (findDir x) r := descend_hangRight r l
    rcases hhang with hsame | ⟨hl, hr⟩
    · exact hsame
    · rw [hr, hl, hnone]
  · -- the lookup passes the whole left subtree
    have hge := not_lt.1 hlt
    have hnode : descend (findDir x) (.node c l r) = descend (findDir x) r := by
      simp only [descend, findDir_right hge (hx.resolve_left hlt)]
    rw [hnode]
    refine descend_hangRight_right r fun d hd => ?_
    obtain ⟨h7, h8⟩ := h5 d (rightSpine_subset d hd)
    exact findDir_right (h7.trans hge) (h8.trans hge)

/-- a new leaf is found at its address, if no other record was -/
theorem descend_newLeaf (hnone : descend (findDir a.virtualAddr) t = none) (hend : a.virtualAddr < endOf a) :
    descend (findDir a.virtualAddr) (insertLeaf (insertDir a.virtualAddr) (p, a) t) = some (p, a) := by
  induction t with
  | nil =>
    have hstop : findDir a.virtualAddr a = .stop := findDir_stop.2 ⟨le_rfl, hend⟩
    simp only [insertLeaf, descend, hstop]
  | node c l r ihl ihr =>
    unfold descend at hnone
    unfold insertLeaf
    by_cases hlt : a.virtualAddr < c.2.virtualAddr
    · have hdir : insertDir a.virtualAddr c.2 = .left := if_pos hlt
      rw [findDir_left hlt] at hnone
      simp only [hdir, descend, findDir_left hlt]
      exact ihl hnone
    · have hdir : insertDir a.virtualAddr c.2 = .right := if_neg hlt
      have hright : findDir a.virtualAddr c.2 = .right := by
        unfold findDir at hnone ⊢
        split_ifs at hnone ⊢
        exact hdir
      rw [hright] at hnone
      simp only [hdir, descend, hright]
      exact ihr hnone

theorem startDir_of_ne (h : va ≠ a.virtualAddr) : startDir va a = insertDir va a := if_neg h

/-- a record that is not on the way of a search is found once it is inserted -/
theorem descend_start_newLeaf (hnone : descend (startDir a.virtualAddr) t = none) :
    descend (startDir a.virtualAddr) (insertLeaf (insertDir a.virtualAddr) (p, a) t) = some (p, a) := by
  induction t with
  | nil =>
    have hstop : startDir a.virtualAddr a = .stop := if_pos rfl
    simp only [insertLeaf, descend, hstop]
  | node c l r ihl ihr =>
    unfold descend at hnone
    by_cases heq : a.virtualAddr = c.2.virtualAddr
    · have hstop : startDir a.virtualAddr c.2 = .stop := if_pos heq
      rw [hstop] at hnone
      cases hnone
    have hdir := startDir_of_ne heq
    unfold insertLeaf
    by_cases hlt : a.virtualAddr < c.2.virtualAddr
    · have hleft : insertDir a.virtualAddr c.2 = .left := if_pos hlt
      rw [hdir, hleft] at hnone
      simp only [hleft, descend, hdir]
      exact ihl hnone
    · have hright : insertDir a.virtualAddr c.2 = .right := if_neg hlt
      rw [hdir, hright] at hnone
      simp only [hright, descend, hdir]
      exact ihr hnone

/-- so a record that was added is found at its address, or one that was there before -/
theorem Grown.start_found {t' : BinaryTree (ℕ × VmmAllocation)} (hg : Grown t a t') :
    ∃ c, descend (startDir a.virtualAddr) t' = some c := by
  cases hg with
  | @root c tl tr _ _ =>
    have hstop : startDir a.virtualAddr a = .stop := if_pos rfl
    exact ⟨(c.1, a), by simp only [descend, hstop]⟩
  | @leaf p _ _ =>
    cases hfound : descend (startDir a.virtualAddr) t with
    | none => exact ⟨(p, a), descend_start_newLeaf hfound⟩
    | some c => exact ⟨c, descend_insertLeaf hfound⟩

end Tame

end Gubos.Vmm
