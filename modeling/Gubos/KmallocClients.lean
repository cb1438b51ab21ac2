/-
What the clients of the kernel heap rely on (`kmalloc.c`).

The scheduler and the virtual memory manager use `kmalloc` and `kfree` as an allocator: an answer is NULL or a block that
nobody holds, and what is stored in a block stays there. Neither is checked at run time, and the allocator keeps its own
headers between the blocks. Both are shown here for every run of clients that free what they own and write inside their
blocks.

- `step_kept`: one operation leaves a block that it does not free with its owner, and its bytes as they were but for a byte
  that the operation writes;
- `block_kept`: so do all operations, in any order: a byte of a live block is what its owner wrote there last;
- `kmalloc_refines`: the answers of a run are those of an `Allocator`, at every point of the run, and the blocks held are its
  arena. What is proved of the scheduler's ring and the memory manager's tree for every `Allocator` is so proved for this heap;
- `never_coalesced`: what they cannot rely on. `kfree` does not merge neighbours, so the regions only get finer in every run: once
  every region is smaller than a request, the request is answered with NULL for ever, also when everything was freed.
-/
import Gubos.Kmalloc

namespace Gubos.Kmalloc

open Gubos.Core

/-! ## What the heap does not write -/

section Frame

variable {h : Heap} {free live pre post : List (ℕ × ℕ)} {c d : ℕ × ℕ} {n q x : ℕ}

/-- `x` is a byte of the block `c` -/
def InBlock (c : ℕ × ℕ) (x : ℕ) : Prop := c.1 + headerSize ≤ x ∧ x < c.1 + headerSize + c.2

instance (c : ℕ × ℕ) (x : ℕ) : Decidable (InBlock c x) :=
  inferInstanceAs (Decidable (c.1 + headerSize ≤ x ∧ x < c.1 + headerSize + c.2))

/-- a link is written in a header -/
theorem setLink_mem (hx : ∀ e ∈ pre, x < e.1 ∨ e.1 + 8 ≤ x) : (setLink h (lastPtr 0 pre) q).mem x = h.mem x := by
  unfold setLink
  split_ifs with hp
  · rfl
  · rcases List.eq_nil_or_concat' pre with rfl | ⟨pre, e, rfl⟩
    · exact absurd rfl hp
    · rw [lastPtr_snoc]
      have he := hx e (by simp)
      exact store32_of_outside _ _ (by omega)

/-- a byte of a live block is in no other region -/
theorem HeapInv.outside (hi : HeapInv h free live) (hd : d ∈ live) (hx : InBlock d x) (hc : c ∈ free ++ live) (hne : c ≠ d) :
    x < c.1 ∨ c.1 + 8 + c.2 ≤ x := by
  have hap := hi.apart hc (List.mem_append_right _ hd) hne
  unfold InBlock headerSize at hx
  omega

/-- a free region is not a live block -/
theorem HeapInv.free_ne (hi : HeapInv h free live) (hc : c ∈ free) (hd : d ∈ live) : c ≠ d := by
  rintro rfl
  have hnd := hi.nodup
  rw [ptrs_append, List.nodup_append] at hnd
  exact hnd.2.2 _ (mem_ptrs hc) _ (mem_ptrs hd) rfl

theorem HeapInv.outside_free (hi : HeapInv h free live) (hd : d ∈ live) (hx : InBlock d x) :
    ∀ c ∈ free, x < c.1 ∨ c.1 + 8 + c.2 ≤ x :=
  fun _ hc => hi.outside hd hx (List.mem_append_left _ hc) (hi.free_ne hc hd)

/-- taking a region writes in free regions only -/
theorem take_frame (hi : HeapInv h (pre ++ c :: post) live) (hfit : c.2 = n ∨ n + 8 < c.2) (hd : d ∈ live) (hx : InBlock d x) :
    (take h n c (lastPtr 0 pre)).1.mem x = h.mem x := by
  have hout := hi.outside_free hd hx
  have hpre : ∀ e ∈ pre, x < e.1 ∨ e.1 + 8 ≤ x := by
    intro e he
    have := hout e (by simp [he])
    omega
  have hc := hout c (by simp)
  unfold take
  split_ifs with hexact
  · exact setLink_mem hpre
  · have hlt : n + 8 < c.2 := hfit.resolve_left hexact
    have hsz : size h.mem c.1 = c.2 := hi.links.contents c (by simp)
    have hb := hi.bounds (c := c) (by simp)
    rw [takeSplit_eq hsz (by omega) hlt]
    -- the three writes of a split: the size of `c`, the link to the rest, the header of the rest
    calc (setSize (setLink ⟨splitMem h.mem c n, h.kmallocHead⟩ (lastPtr 0 pre) (rest c n).1).mem c.1 n) x
        = (setLink ⟨splitMem h.mem c n, h.kmallocHead⟩ (lastPtr 0 pre) (rest c n).1).mem x :=
          store32_of_outside _ _ (by omega)
      _ = splitMem h.mem c n x := setLink_mem hpre
      _ = setSize h.mem (rest c n).1 (rest c n).2 x := store32_of_outside _ _ (by unfold rest; omega)
      _ = h.mem x := store32_of_outside _ _ (by unfold rest; omega)

/-- `kmalloc` leaves the live blocks alone -/
theorem kmalloc_frame {h' : Heap} {p : ℕ} (hi : HeapInv h free live) (hn : n ≤ kernelHeapSize) (hok : kmalloc h n = .ok (h', p))
    (hd : d ∈ live) (hx : InBlock d x) : h'.mem x = h.mem x := by
  rcases kmalloc_cases hi n with ⟨_, hnull⟩ | ⟨pre, c, post, rfl, _, hfit, htake⟩
  · rw [hnull] at hok
    cases hok
    rfl
  · have hu : u32 (n + headerSize) = n + 8 := u32_of_lt (by unfold kernelHeapSize at hn; unfold headerSize; omega)
    rw [Fits, hu] at hfit
    rw [htake] at hok
    have heq : take h n c (lastPtr 0 pre) = (h', p) := Except.ok.inj hok
    have hframe := take_frame hi hfit hd hx
    rwa [heq] at hframe

/-- `kfree` writes in the header of the block it frees -/
theorem kfree_frame (hi : HeapInv h free live) (hc : c ∈ live) (hd : d ∈ live) (hne : c.1 ≠ d.1) (hx : InBlock d x) :
    (kfree h (c.1 + headerSize)).mem x = h.mem x := by
  have hout := hi.outside hd hx (List.mem_append_right _ hc) (fun he => hne (congrArg Prod.fst he))
  have hb := hi.bounds (List.mem_append_right free hc)
  have hreg : u32 (c.1 + headerSize + 2 ^ 32 - headerSize) = c.1 := by
    unfold u32 headerSize
    omega
  unfold kfree
  simp only [hreg]
  exact store32_of_outside _ _ (by omega)

end Frame

/-! ## A block stays with its owner -/

/-- the byte at `x` after an operation of the clients -/
def stored (x : ℕ) (v : UInt8) : Op → UInt8
  | .write addr w => if x = addr then w else v
  | _ => v

/-- one operation: a block that is not freed stays live, and only a client writes in it -/
theorem step_kept {s t : St} {o : Op} {free : List (ℕ × ℕ)} {d : ℕ × ℕ} (hi : HeapInv s.heap free s.live) (hC : Client s o)
    (hok : step s o = .ok t) (hd : d ∈ s.live) (hne : o ≠ .free (d.1 + headerSize)) :
    d ∈ t.live ∧ ∀ x, InBlock d x → t.heap.mem x = stored x (s.heap.mem x) o := by
  cases o with
  | alloc n =>
    obtain ⟨⟨h', p⟩, hk, he⟩ := bind_ok.1 hok
    cases he
    refine ⟨?_, fun x hx => kmalloc_frame hi hC hk hd hx⟩
    dsimp only
    split_ifs
    · exact hd
    · exact List.mem_cons_of_mem _ hd
  | free addr =>
    cases hok
    obtain ⟨c, hc, rfl⟩ := hC
    have hcd : c.1 ≠ d.1 := fun he => hne (by rw [he])
    refine ⟨?_, fun x hx => kfree_frame hi hc hd hcd hx⟩
    refine (List.mem_eraseP_of_neg ?_).2 hd
    simpa [headerSize] using hcd.symm
  | write addr w =>
    cases hok
    refine ⟨hd, fun x _ => ?_⟩
    simp only [stored, store8, Function.update_apply]

/-- **A block stays with its owner.** In every run after `kmalloc_init`: a block that is held and not freed is held at the end,
whatever else is allocated, freed and written, and each of its bytes is the one written there last, or the one it had. -/
theorem block_kept {mem : Mem} {ops ops' : List Op} {s t : St} {c : ℕ × ℕ}
    (hr : Runs step Client ⟨kmallocInit mem, []⟩ ops s) (hc : c ∈ s.live) (hr' : Runs step Client s ops' t)
    (hfree : Op.free (c.1 + headerSize) ∉ ops') :
    c ∈ t.live ∧ ∀ x, InBlock c x → t.heap.mem x = ops'.foldl (stored x) (s.heap.mem x) := by
  obtain ⟨free, hi⟩ : ∃ free, HeapInv s.heap free s.live :=
    hr.inv (P := fun s => ∃ free, HeapInv s.heap free s.live) (fun _ _ _ ⟨_, hi⟩ hC hok => step_heapInv hi hC hok)
      ⟨_, heapInv_init mem⟩
  clear hr
  induction hr' generalizing free with
  | nil s => exact ⟨hc, fun x _ => rfl⟩
  | cons hC hok _ ih =>
    rw [List.mem_cons, not_or] at hfree
    obtain ⟨hlive, hbytes⟩ := step_kept hi hC hok hc (Ne.symm hfree.1)
    obtain ⟨free', hi'⟩ := step_heapInv hi hC hok
    obtain ⟨hend, hlast⟩ := ih hlive hfree.2 free' hi'
    refine ⟨hend, fun x hx => ?_⟩
    rw [hlast x hx, hbytes x hx, List.foldl_cons]

/-- one client has a block and has written in it -/
def owner : List Op := [.alloc 16, .write 0xE0000008 7]

/-- another client takes a block, writes in it, frees it and takes one that is split -/
def others : List Op := [.alloc 8, .write 0xE0000020 9, .free 0xE0000020, .alloc 64]

theorem block_kept_others :
    ∃ s t, Runs step Client start owner s ∧ Runs step Client s others t ∧ (0xE0000000, 16) ∈ t.live ∧
      t.heap.mem 0xE0000008 = 7 := by
  have hr : Runs step Client start owner (returned start (Runs.exec step start owner)) := .of_exec (by decide +kernel) rfl
  have hr' : Runs step Client (returned start (Runs.exec step start owner)) others
      (returned start (Runs.exec step (returned start (Runs.exec step start owner)) others)) :=
    .of_exec (by decide +kernel) rfl
  obtain ⟨hlive, hbytes⟩ := block_kept (c := (0xE0000000, 16)) hr (by decide +kernel) hr' (by simp [others, headerSize])
  exact ⟨_, _, hr, hr', hlive, (hbytes 0xE0000008 (by decide)).trans (by decide +kernel)⟩

/-! ## The heap is an allocator -/

/-- what an operation asks of an allocator -/
def request : Op → List Request
  | .alloc _ => [.alloc]
  | .free addr => [.free addr]
  | .write _ _ => []

/-- the pointer that an operation returns -/
def answer (s : St) : Op → List ℕ
  | .alloc n => match kmalloc s.heap n with
    | .ok (_, p) => [p]
    | .error _ => []
  | _ => []

/-- the pointers that `kmalloc` returns in a run -/
def pointers : St → List Op → List ℕ
  | _, [] => []
  | s, o :: ops => answer s o ++ match step s o with
    | .ok t => pointers t ops
    | .error _ => []

theorem pointers_cons {s t : St} {o : Op} (ops : List Op) (hok : step s o = .ok t) :
    pointers s (o :: ops) = answer s o ++ pointers t ops := by
  rw [pointers, hok]

/-- the blocks held, as their holders know them -/
def held (s : St) : List ℕ := s.live.map fun c => c.1 + headerSize

theorem pointers_append {s t : St} {ops ops' : List Op} (hr : Runs step Client s ops t) :
    pointers s (ops ++ ops') = pointers s ops ++ pointers t ops' := by
  induction hr with
  | nil s => rfl
  | cons hC hok _ ih =>
    rw [List.cons_append, pointers_cons _ hok, pointers_cons _ hok, ih, List.append_assoc]

/-- freeing the pointer of a block takes the block from the list -/
theorem held_free (s : St) (addr : ℕ) :
    (s.live.eraseP fun c => c.1 + headerSize = addr).map (fun c => c.1 + headerSize) = (held s).erase addr := by
  unfold held
  rw [List.erase_eq_eraseP', List.eraseP_map]
  congr 1

/-- one run from a state that is in step with an arena: the script has its answers next, and they are replayed -/
theorem serve_run {s t : St} {ops : List Op} {script : List ℕ} (hr : Runs step Client s ops t) :
    ∀ (free : List (ℕ × ℕ)) (a : Arena) (more : List ℕ), HeapInv s.heap free s.live → a.live = held s →
      script.drop a.calls = pointers s ops ++ more →
      (a.serve (Allocator.replay script) (ops.flatMap request)).1 = pointers s ops ∧
        (a.serve (Allocator.replay script) (ops.flatMap request)).2.live = held t := by
  induction hr with
  | nil s =>
    intro free a more _ ha _
    exact ⟨rfl, ha⟩
  | @cons s u t o ops hC hok _ ih =>
    intro free a more hi ha hscript
    obtain ⟨free', hi'⟩ := step_heapInv hi hC hok
    rw [pointers_cons _ hok] at hscript ⊢
    rw [List.flatMap_cons]
    cases o with
    | alloc n =>
      obtain ⟨⟨h', p⟩, hk, he⟩ := bind_ok.1 hok
      have hans : answer s (.alloc n) = [p] := by rw [answer, hk]
      rw [hans, List.singleton_append] at hscript ⊢
      -- the answer is NULL or the pointer of a block that no live block overlaps
      have hp : p < 2 ^ 32 ∧ (p ≠ 0 → p ∉ held s) ∧ held u = Arena.given p ++ held s := by
        cases he
        rcases kmalloc_spec hi hC with ⟨_, hnull⟩ | ⟨h'', r, free'', hr, hi''⟩
        · rw [hnull] at hk
          cases hk
          exact ⟨Nat.two_pow_pos 32, fun h0 => absurd rfl h0, rfl⟩
        · rw [hr] at hk
          cases hk
          have hb := hi''.bounds (c := (r, n)) (by simp)
          refine ⟨by unfold headerSize; omega, fun _ hm => ?_, ?_⟩
          · obtain ⟨c, hc, hcr⟩ := List.mem_map.1 hm
            have hnd := hi''.nodup
            rw [ptrs_append, List.nodup_append] at hnd
            refine (List.nodup_cons.1 hnd.2.1).1 ?_
            have hm : c.1 ∈ ptrs s.live := mem_ptrs hc
            rwa [Nat.add_right_cancel hcr] at hm
          · simp [held, Arena.given, headerSize]
      have hanswer : (a.alloc (Allocator.replay script)).1 = p :=
        Arena.alloc_replay hscript hp.1 fun h0 => ha ▸ hp.2.1 h0
      have hlive : (a.alloc (Allocator.replay script)).2.live = held u := by
        rw [Arena.alloc_live_eq, hanswer, ha, hp.2.2]
      have hdrop : script.drop (a.alloc (Allocator.replay script)).2.calls = pointers u ops ++ more := by
        have htail := congrArg List.tail hscript
        rwa [List.tail_drop] at htail
      obtain ⟨hptrs, hend⟩ := ih free' _ more hi' hlive hdrop
      have hcons : ∀ reqs, (a.serve (Allocator.replay script) (.alloc :: reqs)).1 =
          p :: ((a.alloc (Allocator.replay script)).2.serve (Allocator.replay script) reqs).1 := by
        intro reqs
        rw [Arena.serve, hanswer]
      refine ⟨?_, hend⟩
      exact (hcons _).trans (congrArg (p :: ·) hptrs)
    | free addr =>
      have hlive : (a.free addr).live = held u := by
        cases hok
        exact (congrArg (fun l => l.erase addr) ha).trans (held_free s addr).symm
      exact ih free' _ more hi' hlive hscript
    | write addr v =>
      have hlive : a.live = held u := by
        cases hok
        exact ha
      exact ih free' a more hi' hlive hscript

/-- **The heap is an allocator.** For every run after `kmalloc_init` there is one allocator that, given the same requests,
returns at every point of the run the pointers that `kmalloc` returned and has the blocks handed out that the clients hold. -/
theorem kmalloc_refines {mem : Mem} {ops : List Op} {s : St} (hr : Runs step Client ⟨kmallocInit mem, []⟩ ops s) :
    ∃ A : Allocator, ∀ pre post u, ops = pre ++ post → Runs step Client ⟨kmallocInit mem, []⟩ pre u →
      (Arena.empty.serve A (pre.flatMap request)).1 = pointers ⟨kmallocInit mem, []⟩ pre ∧
        (Arena.empty.serve A (pre.flatMap request)).2.live = held u := by
  refine ⟨Allocator.replay (pointers ⟨kmallocInit mem, []⟩ ops), ?_⟩
  rintro pre post u rfl hpre
  refine serve_run hpre _ Arena.empty (pointers u post) (heapInv_init mem) rfl ?_
  exact pointers_append hpre

theorem kmalloc_refines_reuse :
    ∃ A : Allocator, (Arena.empty.serve A (reuse.flatMap request)).1 = [0xE0000008, 0xE0000020, 0xE0000008] ∧
      (Arena.empty.serve A (reuse.flatMap request)).2.live = [0xE0000008, 0xE0000020] := by
  have hr : Runs step Client start reuse reused := .of_exec (by decide +kernel) rfl
  obtain ⟨A, hA⟩ := kmalloc_refines hr
  obtain ⟨h1, h2⟩ := hA reuse [] reused (List.append_nil _).symm hr
  exact ⟨A, h1.trans (by decide +kernel), h2.trans (by decide +kernel)⟩

/-! ## Fragments -/

/-- every region of `l'` is in a region of `l` -/
def Finer (l' l : List (ℕ × ℕ)) : Prop := ∀ c ∈ l', ∃ d ∈ l, d.1 ≤ c.1 ∧ c.1 + c.2 ≤ d.1 + d.2

section Finer

variable {l l' l'' : List (ℕ × ℕ)} {h h' : Heap} {free live : List (ℕ × ℕ)} {n p : ℕ}

theorem finer_of_subset (h : l' ⊆ l) : Finer l' l := fun c hc => ⟨c, h hc, le_rfl, le_rfl⟩

theorem Finer.trans (h₂ : Finer l'' l') (h₁ : Finer l' l) : Finer l'' l := by
  intro c hc
  obtain ⟨d, hd, hdc, hcd⟩ := h₂ c hc
  obtain ⟨e, he, hed, hde⟩ := h₁ d hd
  exact ⟨e, he, hed.trans hdc, hcd.trans hde⟩

/-- the regions after a request: all as they were, or one of them split -/
theorem kmalloc_finer (hi : HeapInv h free live) (hn : n ≤ kernelHeapSize) (hok : kmalloc h n = .ok (h', p)) :
    ∃ free', HeapInv h' free' (if p = 0 then live else (p - headerSize, n) :: live) ∧
      Finer (free' ++ if p = 0 then live else (p - headerSize, n) :: live) (free ++ live) := by
  rcases kmalloc_cases hi n with ⟨_, hnull⟩ | ⟨pre, c, post, rfl, _, hfit, htake⟩
  · rw [hnull] at hok
    cases hok
    exact ⟨free, hi, finer_of_subset (List.Subset.refl _)⟩
  · have hbound := hi.bounds (c := c) (by simp)
    have hpay : payload c.1 = c.1 + headerSize := u32_of_lt (by unfold headerSize; omega)
    have hne : c.1 + headerSize ≠ 0 := by unfold headerSize; omega
    rw [htake, take] at hok
    split_ifs at hok with he
    · cases hok
      rw [hpay, if_neg hne, Nat.add_sub_cancel, ← he]
      refine ⟨pre ++ post, heapInv_exact hi, finer_of_subset fun d hd => ?_⟩
      simp only [List.mem_append, List.mem_cons] at hd ⊢
      tauto
    · have hlt : n + 8 < c.2 := by
        have hu : u32 (n + headerSize) = n + 8 := u32_of_lt (by unfold headerSize; unfold kernelHeapSize at hn; omega)
        rw [← hu]
        exact hfit.resolve_left he
      obtain ⟨hfst, rfl⟩ := Prod.mk.inj (Except.ok.inj hok)
      subst hfst
      rw [hpay, if_neg hne, Nat.add_sub_cancel]
      refine ⟨pre ++ rest c n :: post, heapInv_split hi hlt, fun d hd => ?_⟩
      have hc : c ∈ (pre ++ c :: post) ++ live := by simp
      have hcases : d = rest c n ∨ d = (c.1, n) ∨ d ∈ (pre ++ c :: post) ++ live := by
        simp only [List.mem_append, List.mem_cons] at hd ⊢
        tauto
      rcases hcases with rfl | rfl | hd
      · refine ⟨c, hc, ?_, ?_⟩ <;> simp only [rest] <;> omega
      · exact ⟨c, hc, le_rfl, by dsimp only; omega⟩
      · exact ⟨d, hd, le_rfl, le_rfl⟩

/-- one operation splits a region or leaves them all as they were -/
theorem step_finer {s t : St} {o : Op} (hi : HeapInv s.heap free s.live) (hC : Client s o) (hok : step s o = .ok t) :
    ∃ free', HeapInv t.heap free' t.live ∧ Finer (free' ++ t.live) (free ++ s.live) := by
  cases o with
  | alloc n =>
    obtain ⟨⟨h', p⟩, hk, he⟩ := bind_ok.1 hok
    cases he
    exact kmalloc_finer hi hC hk
  | free addr =>
    cases hok
    obtain ⟨c, hc, rfl⟩ := hC
    obtain ⟨d, pre, post, hpre, hd, hlive, her⟩ :=
      List.exists_of_eraseP (p := fun d : ℕ × ℕ => decide (d.1 + headerSize = c.1 + headerSize)) hc (by simp)
    have hdc : d.1 = c.1 := by simpa using hd
    rw [hlive] at hi
    have hfreed := heapInv_kfree hi
    rw [hdc] at hfreed
    refine ⟨d :: free, ?_, finer_of_subset fun e he => ?_⟩
    · simp only [her]
      exact hfreed
    · simp only [her] at he
      rw [hlive]
      simp only [List.mem_append, List.mem_cons] at he ⊢
      tauto
  | write addr v =>
    cases hok
    obtain ⟨c, hc, h1, h2⟩ := hC
    exact ⟨free, heapInv_write hi v hc h1 h2, finer_of_subset (List.Subset.refl _)⟩

theorem run_finer {s t : St} {ops : List Op} (hi : HeapInv s.heap free s.live) (hr : Runs step Client s ops t) :
    ∃ free', HeapInv t.heap free' t.live ∧ Finer (free' ++ t.live) (free ++ s.live) := by
  induction hr generalizing free with
  | nil s => exact ⟨free, hi, finer_of_subset (List.Subset.refl _)⟩
  | cons hC hok _ ih =>
    obtain ⟨free', hi', hfiner⟩ := step_finer hi hC hok
    obtain ⟨free'', hi'', hfiner'⟩ := ih hi'
    exact ⟨free'', hi'', hfiner'.trans hfiner⟩

/-- **Freed regions are never merged.** In every run after `kmalloc_init`, whatever is allocated, freed and written from some state
on: each region, free or live, is inside one region of that state. So a request that is larger than every region of that
state is answered with NULL ever after, also when all blocks have been freed. -/
theorem never_coalesced {mem : Mem} {ops ops' : List Op} {s t : St} (hr : Runs step Client ⟨kmallocInit mem, []⟩ ops s)
    (hfree : Seg (header s.heap.mem) s.heap.kmallocHead free 0) (hr' : Runs step Client s ops' t) :
    ∃ free', Seg (header t.heap.mem) t.heap.kmallocHead free' 0 ∧ Finer (free' ++ t.live) (free ++ s.live) ∧
      ∀ n ≤ kernelHeapSize, (∀ c ∈ free ++ s.live, c.2 < n) → kmalloc t.heap n = .ok (t.heap, 0) := by
  obtain ⟨free₀, hi⟩ : ∃ free, HeapInv s.heap free s.live :=
    hr.inv (P := fun s => ∃ free, HeapInv s.heap free s.live) (fun _ _ _ ⟨_, hi⟩ hC hok => step_heapInv hi hC hok)
      ⟨_, heapInv_init mem⟩
  obtain rfl := hfree.unique hi.links hfree.ne_zero hi.links.ne_zero
  obtain ⟨free', hi', hfiner⟩ := run_finer hi hr'
  refine ⟨free', hi'.links, hfiner, fun n hn hsmall => ?_⟩
  rcases kmalloc_cases hi' n with ⟨_, hnull⟩ | ⟨pre, c, post, rfl, _, hfit, _⟩
  · exact hnull
  · -- a region that fits would be inside a smaller one
    obtain ⟨d, hd, hdc, hcd⟩ := hfiner c (by simp)
    have hdn := hsmall d hd
    have hu : u32 (n + headerSize) = n + 8 := u32_of_lt (by unfold headerSize; unfold kernelHeapSize at hn; omega)
    unfold Fits at hfit
    rw [hu] at hfit
    omega

/-- two blocks of 16 MB, in a heap of 48 MB -/
def twoLarge : List Op := [.alloc 0x1000000, .alloc 0x1000000]

def withTwoLarge : St := returned start (Runs.exec step start twoLarge)

/-- both are freed -/
def bothFreed : St :=
  returned withTwoLarge (Runs.exec step withTwoLarge [.free 0xE0000008, .free 0xE1000010])

/-- the heap is free again, and one byte more than 16 MB cannot be had any more -/
theorem never_coalesced_two : bothFreed.live = [] ∧ (∃ h, kmalloc start.heap 0x1000001 = .ok (h, 0xE0000008)) ∧
    kmalloc bothFreed.heap 0x1000001 = .ok (bothFreed.heap, 0) := by
  have hr : Runs step Client ⟨kmallocInit fun _ => 0, []⟩ twoLarge withTwoLarge := .of_exec (by decide +kernel) rfl
  have hr' : Runs step Client withTwoLarge [.free 0xE0000008, .free 0xE1000010] bothFreed := .of_exec (by decide +kernel) rfl
  have hfree : Seg (header withTwoLarge.heap.mem) withTwoLarge.heap.kmallocHead [(0xE2000010, 0xFFFFE8)] 0 := by decide +kernel
  obtain ⟨_, _, _, hnull⟩ := never_coalesced hr hfree hr'
  refine ⟨by decide +kernel, ?_, hnull 0x1000001 (by decide) (by decide +kernel)⟩
  exact ⟨_, eq_returned_pair (start.heap, 0) (by decide +kernel) (by decide +kernel)⟩

end Finer

end Gubos.Kmalloc
