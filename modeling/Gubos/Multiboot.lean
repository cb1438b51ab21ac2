/-
Walking the multiboot2 tags (`multiboot2.c`, and its use in `kernel.c`).

A tag list is a sequence of records of variable length, each at a multiple of 8, ended by a tag of type END. The kernel finds
its modules with a cursor: `multiboot_get_next_module` returns the next MODULE tag and moves the cursor past it, and leaves it
on the END tag when there is none. `multiboot_framebuffer_info` starts from the first tag.

Both are modelled a second time with a check before every read of a tag, to say that nothing past the END tag is read.

- `nextModule_spec`: one call, from any tag of the list: what is left to enumerate is what was left before, less what was
  returned;
- `modules_enumerated`: the i-th call returns the i-th MODULE tag, and NULL once there are no more; the framebuffer tag is the
  first of its type; and nothing past the END tag is read.
-/
import Gubos.Core.Checked
import Gubos.Mm.Reserved

namespace Gubos.Multiboot

open Gubos.Core Gubos.Pmm

/-! ## The code -/

/-- is the tag of type `MULTIBOOT_TAG_TYPE_MODULE`? -/
def isModule (mem : Mem) (tag : ℕ) : Bool := load32 mem tag = 3

/-- `advance_tag` -/
def advanceTag (mem : Mem) (tag : ℕ) : ℕ := nextTag mem tag

/-- the loop of `multiboot_get_next_module`: the module, or NULL, and the cursor -/
def nextModuleLoop (mem : Mem) : ℕ → ℕ → Except Fault (ℕ × ℕ)
  | 0, _ => .error .diverges
  | fuel + 1, tag =>
    if tagType mem tag = .end then .ok (0, tag)
    else if isModule mem tag then .ok (tag, advanceTag mem tag)
    else nextModuleLoop mem fuel (advanceTag mem tag)

/-- `multiboot_get_next_module`. There are 2^32 places for the cursor, so a longer loop is in a circle. -/
def multibootGetNextModule (mem : Mem) (tag : ℕ) : Except Fault (ℕ × ℕ) := nextModuleLoop mem (2 ^ 32) tag

/-- what `k` calls return, each from where the one before left the cursor -/
def getModules (mem : Mem) : ℕ → ℕ → Except Fault (List ℕ)
  | 0, _ => .ok []
  | k + 1, tag => do
    let (module, tag) ← multibootGetNextModule mem tag
    let modules ← getModules mem k tag
    .ok (module :: modules)

/-! ## The same with its reads checked -/

/-- the loop, when no byte from `limit` on may be read -/
def nextModuleLoopChecked (mem : Mem) (limit : ℕ) : ℕ → ℕ → Except (Checked Fault) (ℕ × ℕ)
  | 0, _ => .error (.fault .diverges)
  | fuel + 1, tag => do
    -- (*tag)->type
    check limit tag 4
    if tagType mem tag = .end then .ok (0, tag)
    else if isModule mem tag then do
      -- (*tag)->size
      check limit (tag + 4) 4
      .ok (tag, advanceTag mem tag)
    else do
      check limit (tag + 4) 4
      nextModuleLoopChecked mem limit fuel (advanceTag mem tag)

def getModulesChecked (mem : Mem) (limit : ℕ) : ℕ → ℕ → Except (Checked Fault) (List ℕ)
  | 0, _ => .ok []
  | k + 1, tag => do
    let (module, tag) ← nextModuleLoopChecked mem limit (2 ^ 32) tag
    let modules ← getModulesChecked mem limit k tag
    .ok (module :: modules)

def findTagChecked (mem : Mem) (limit : ℕ) (ty : TagType) : ℕ → ℕ → Except (Checked Fault) ℕ
  | 0, _ => .error (.fault .diverges)
  | fuel + 1, tag => do
    check limit tag 4
    if tagType mem tag = .end ∨ tagType mem tag = ty then .ok tag
    else do
      check limit (tag + 4) 4
      findTagChecked mem limit ty fuel (nextTag mem tag)

def framebufferInfoChecked (mem : Mem) (limit multibootInfo : ℕ) : Except (Checked Fault) ℕ := do
  let tag ← findTagChecked mem limit .framebuffer (2 ^ 32) (u32 (multibootInfo + 8))
  .ok (if tagType mem tag = .framebuffer then tag else 0)

section Walk

variable {mem : Mem} {limit fuel a tag t k info : ℕ} {ts : List ℕ} {ty : TagType}

/-- a checked loop that returned did what the loop does -/
theorem nextModule_of_checked {r : ℕ × ℕ} (h : nextModuleLoopChecked mem limit fuel tag = .ok r) :
    nextModuleLoop mem fuel tag = .ok r := by
  induction fuel generalizing tag with
  | zero => cases h
  | succ fuel ih =>
    have h := check_bind_ok h
    unfold nextModuleLoop
    split_ifs at h ⊢
    · cases h
      rfl
    · have h := check_bind_ok h
      cases h
      rfl
    · exact ih (check_bind_ok h)

theorem getModules_of_checked {modules : List ℕ} (h : getModulesChecked mem limit k tag = .ok modules) :
    getModules mem k tag = .ok modules := by
  induction k generalizing tag modules with
  | zero =>
    cases h
    rfl
  | succ k ih =>
    obtain ⟨⟨module, tag'⟩, hnext, h⟩ := bind_ok.1 h
    obtain ⟨rest, hrest, h⟩ := bind_ok.1 h
    cases h
    exact bind_ok.2 ⟨(module, tag'), nextModule_of_checked hnext, bind_ok.2 ⟨rest, ih hrest, rfl⟩⟩

theorem findTag_of_checked (h : findTagChecked mem limit ty fuel tag = .ok t) : findTag mem ty fuel tag = .ok t := by
  induction fuel generalizing tag with
  | zero => cases h
  | succ fuel ih =>
    have h := check_bind_ok h
    unfold findTag
    split_ifs at h ⊢
    · cases h
      rfl
    · exact ih (check_bind_ok h)

theorem framebufferInfo_of_checked (h : framebufferInfoChecked mem limit info = .ok t) :
    multibootFramebufferInfo mem info = .ok t := by
  obtain ⟨tag, hfind, h⟩ := bind_ok.1 h
  cases h
  exact bind_ok.2 ⟨tag, findTag_of_checked hfind, rfl⟩

/-! ## The list -/

/-- the END tag of the list that starts at `a` -/
def endTag (mem : Mem) : ℕ → List ℕ → ℕ
  | a, [] => a
  | a, _ :: ts => endTag mem (a + (tagSize mem a + 7) / 8 * 8) ts

/-- the first tag starts before the END tag, and each is 8 bytes or longer -/
theorem TagsAt.end_ge (h : TagsAt mem a ts) : a + 8 * ts.length ≤ endTag mem a ts := by
  induction ts generalizing a with
  | nil => exact le_rfl
  | cons b ts ih =>
    obtain ⟨rfl, _, hsize, _, hrest⟩ := h
    have hle := ih hrest
    simp only [endTag, List.length_cons]
    omega

theorem TagsAt.end_lt (h : TagsAt mem a ts) (ha : a < 2 ^ 32) : endTag mem a ts < 2 ^ 32 := by
  induction ts generalizing a with
  | nil => exact ha
  | cons b ts ih =>
    obtain ⟨rfl, _, _, hlt, hrest⟩ := h
    exact ih hrest hlt

/-- the loops have rounds enough -/
theorem TagsAt.length_lt (h : TagsAt mem a ts) (ha : a < 2 ^ 32) : ts.length < 2 ^ 32 := by
  have hge := TagsAt.end_ge h
  have hlt := TagsAt.end_lt h ha
  omega

theorem TagsAt.nextTag_eq (h : TagsAt mem a (t :: ts)) :
    nextTag mem a = a + (tagSize mem a + 7) / 8 * 8 ∧ TagsAt mem (nextTag mem a) ts ∧
      endTag mem (nextTag mem a) ts = endTag mem a (t :: ts) := by
  obtain ⟨_, _, _, hlt, hrest⟩ := h
  have hnext : nextTag mem a = a + (tagSize mem a + 7) / 8 * 8 := by
    unfold nextTag
    rw [u32_of_lt (show tagSize mem a + 7 < 2 ^ 32 by omega), u32_of_lt hlt]
  rw [hnext]
  exact ⟨rfl, hrest, rfl⟩

/-! ## One call -/

/-- **One call.** From the tags `ts` it returns the first MODULE tag and leaves the cursor after it, or returns NULL and
leaves the cursor on the END tag; it reads nothing past the END tag. -/
theorem nextModule_spec (h : TagsAt mem a ts) (hfuel : ts.length < fuel) (hlimit : endTag mem a ts + 8 ≤ limit) :
    ∃ module tag post, nextModuleLoopChecked mem limit fuel a = .ok (module, tag) ∧ TagsAt mem tag post ∧
      endTag mem tag post = endTag mem a ts ∧ post.length ≤ ts.length ∧
      ((module = 0 ∧ ts.filter (isModule mem) = [] ∧ post = []) ∨
        ts.filter (isModule mem) = module :: post.filter (isModule mem)) := by
  induction ts generalizing a fuel with
  | nil =>
    obtain ⟨fuel, rfl⟩ : ∃ f, fuel = f + 1 := ⟨fuel - 1, by omega⟩
    refine ⟨0, a, [], ?_, h, rfl, le_rfl, Or.inl ⟨rfl, rfl, rfl⟩⟩
    have hend : tagType mem a = .end := h
    unfold endTag at hlimit
    rw [nextModuleLoopChecked, check_bind (by omega), if_pos hend]
  | cons b ts ih =>
    obtain ⟨fuel, rfl⟩ : ∃ f, fuel = f + 1 := ⟨fuel - 1, by omega⟩
    obtain ⟨hnext, hrest, hend⟩ := TagsAt.nextTag_eq h
    have hge := TagsAt.end_ge h
    obtain ⟨rfl, hne, _⟩ := h
    rw [List.length_cons] at hge hfuel
    rw [nextModuleLoopChecked, check_bind (by omega), if_neg hne]
    by_cases hmod : isModule mem b = true
    · rw [if_pos hmod, check_bind (by omega)]
      refine ⟨b, nextTag mem b, ts, rfl, hrest, hend, by simp, Or.inr ?_⟩
      rw [List.filter_cons_of_pos hmod]
    · rw [if_neg hmod, check_bind (by omega), List.filter_cons_of_neg hmod]
      obtain ⟨module, tag, post, hok, htags, he, hlen, hcase⟩ := ih hrest (Nat.lt_of_succ_lt_succ hfuel) (hend ▸ hlimit)
      exact ⟨module, tag, post, hok, htags, he.trans hend, hlen.trans (Nat.le_succ _), hcase⟩

/-- what `k` calls return -/
theorem getModules_spec (h : TagsAt mem a ts) (hlen : ts.length < 2 ^ 32) (hlimit : endTag mem a ts + 8 ≤ limit) (k : ℕ) :
    getModulesChecked mem limit k a = .ok ((List.range k).map fun i => (ts.filter (isModule mem)).getD i 0) := by
  induction k generalizing a ts with
  | zero => rfl
  | succ k ih =>
    obtain ⟨module, tag, post, hok, htags, hend, hle, hcase⟩ := nextModule_spec h hlen hlimit
    refine bind_ok.2 ⟨(module, tag), hok, bind_ok.2 ⟨_, ih htags (by omega) (hend ▸ hlimit), ?_⟩⟩
    rw [List.range_succ_eq_map, List.map_cons, List.map_map]
    rcases hcase with ⟨rfl, hnil, rfl⟩ | hcons
    · simp [hnil, Function.comp_def]
    · rw [hcons]
      rfl

/-- the search for a tag of a type ends at the first, or at the END tag -/
theorem findTag_checked (h : TagsAt mem a ts) (hfuel : ts.length < fuel) (hlimit : endTag mem a ts + 8 ≤ limit) :
    findTagChecked mem limit ty fuel a =
      .ok ((ts.find? fun t => decide (tagType mem t = ty)).getD (endTag mem a ts)) := by
  induction ts generalizing a fuel with
  | nil =>
    obtain ⟨fuel, rfl⟩ : ∃ f, fuel = f + 1 := ⟨fuel - 1, by omega⟩
    have hend : tagType mem a = .end := h
    unfold endTag at hlimit
    rw [findTagChecked, check_bind (by omega), if_pos (.inl hend)]
    rfl
  | cons b ts ih =>
    obtain ⟨fuel, rfl⟩ : ∃ f, fuel = f + 1 := ⟨fuel - 1, by omega⟩
    obtain ⟨hnext, hrest, hend⟩ := TagsAt.nextTag_eq h
    have hge := TagsAt.end_ge h
    obtain ⟨rfl, hne, _⟩ := h
    rw [List.length_cons] at hge hfuel
    rw [findTagChecked, check_bind (by omega)]
    by_cases hty : tagType mem b = ty
    · rw [if_pos (.inr hty), List.find?_cons_of_pos (by simpa using hty)]
      rfl
    · rw [if_neg (not_or.2 ⟨hne, hty⟩), check_bind (by omega), List.find?_cons_of_neg (by simpa using hty),
        ih hrest (by omega) (hend ▸ hlimit), hend]

theorem TagsAt.end_type (h : TagsAt mem a ts) : tagType mem (endTag mem a ts) = .end := by
  induction ts generalizing a with
  | nil => exact h
  | cons b ts ih => exact ih h.2.2.2.2

/-- `multiboot_framebuffer_info` returns the first framebuffer tag, or NULL -/
theorem framebufferInfo_spec (h : TagsAt mem (info + 8) ts) (hinfo : info + 8 < 2 ^ 32)
    (hlimit : endTag mem (info + 8) ts + 8 ≤ limit) :
    framebufferInfoChecked mem limit info =
      .ok ((ts.find? fun t => decide (tagType mem t = .framebuffer)).getD 0) := by
  have hfind := @findTag_checked mem limit (2 ^ 32) (info + 8) ts .framebuffer h (TagsAt.length_lt h hinfo) hlimit
  have hend := TagsAt.end_type h
  unfold framebufferInfoChecked
  rw [u32_of_lt hinfo, hfind]
  refine congrArg Except.ok ?_
  cases hfirst : ts.find? fun t => decide (tagType mem t = .framebuffer) with
  | none => rw [Option.getD_none, Option.getD_none, hend, if_neg (by decide)]
  | some t =>
    have ht : tagType mem t = .framebuffer := by simpa using List.find?_some hfirst
    rw [Option.getD_some, Option.getD_some, if_pos ht]

/-! ## All calls -/

/-- **Module enumeration.** From the first tag, any number of calls returns the MODULE tags in their order and then NULLs; the
framebuffer tag is the first of its type, or NULL if there is none; and the END tag is the last that is read. -/
theorem modules_enumerated (h : TagsAt mem (info + 8) ts) (hinfo : info + 8 < 2 ^ 32) :
    (∀ k, getModules mem k (info + 8) = .ok ((List.range k).map fun i => (ts.filter (isModule mem)).getD i 0)) ∧
    (∀ t ∈ ts, t ≠ 0) ∧
    multibootFramebufferInfo mem info = .ok ((ts.find? fun t => decide (tagType mem t = .framebuffer)).getD 0) ∧
    (multibootFramebufferInfo mem info = .ok 0 ↔ ∀ t ∈ ts, tagType mem t ≠ .framebuffer) ∧
    (∀ k, InBounds (getModulesChecked mem (endTag mem (info + 8) ts + 8) k (info + 8))) ∧
    InBounds (framebufferInfoChecked mem (endTag mem (info + 8) ts + 8) info) := by
  have hlen := TagsAt.length_lt h hinfo
  have hmods := getModules_spec h hlen le_rfl
  have hfb := framebufferInfo_spec h hinfo le_rfl
  have hnonzero : ∀ t ∈ ts, t ≠ 0 := fun t ht => by
    have hge := (TagsAt.bounds h ht).1
    omega
  refine ⟨fun k => getModules_of_checked (hmods k), hnonzero, framebufferInfo_of_checked hfb, ?_,
    fun k => hmods k ▸ inBounds_ok, hfb ▸ inBounds_ok⟩
  rw [framebufferInfo_of_checked hfb]
  cases hfirst : ts.find? fun t => decide (tagType mem t = .framebuffer) with
  | none =>
    have hnone : ∀ t ∈ ts, tagType mem t ≠ .framebuffer := by simpa using List.find?_eq_none.1 hfirst
    exact ⟨fun _ => hnone, fun _ => rfl⟩
  | some t =>
    have ht : tagType mem t = .framebuffer := by simpa using List.find?_some hfirst
    have hmem := List.mem_of_find?_eq_some hfirst
    refine ⟨fun h0 => absurd (Except.ok.inj h0) (hnonzero t hmem), fun hall => absurd ht (hall t hmem)⟩

/-- a module, a boot command line of 12 bytes, another module, and a framebuffer tag -/
def twoModules : Mem :=
  ofWords [88, 0,
    3, 16, 0x200000, 0x201000,
    1, 12, 0, 0,
    3, 16, 0x300000, 0x301000,
    8, 32, 0xB8000, 0, 160, 80, 25, 0,
    0, 8]

theorem modules_enumerated_two :
    getModules twoModules 4 8 = .ok [8, 40, 0, 0] ∧ multibootFramebufferInfo twoModules 0 = .ok 56 := by
  have h := modules_enumerated (show TagsAt twoModules (0 + 8) [8, 24, 40, 56] by decide) (by decide)
  exact ⟨(h.1 4).trans (by decide), h.2.2.1.trans (by decide)⟩

end Walk

end Gubos.Multiboot
