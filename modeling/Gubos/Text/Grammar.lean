/-
The formats that `vprintk` accepts.

A format is a sequence of items: a character other than `%`, or a conversion, `%` with at most one flag and a specifier. Every
format is a sequence of items followed by nothing or by a malformed conversion, a `%` that starts no conversion (`Parse`), in
one way only.

- `Parse.exists`, `Parse.unique`: a format is taken apart in exactly one way;
- `specifier_spec`, `specifier_malformed`: what the `switch` does at a specifier, and where there is none;
- `Pending.round`, `vprintkLoop_spec`: what one round of the loop preserves, and the loop by induction over its rounds;
- `vprintk_console`: on the console a call is one string, the text of its items;
- `vprintk_accepts`: `vprintk` ends, stays within the format and its buffer, takes the arguments of the conversions before the
  first malformed one, and returns the length if there is none, `-EINVAL` otherwise.

Premises: the format has no NUL but the one at its end and is shorter than 2^31, and the arguments have the types the
conversions ask for (`Matches`).
-/
import Gubos.Text.Vprintk

namespace Gubos.Text

open Gubos.Core Gubos.Tty

/-! ## The grammar -/

inductive Flag where
  | hash | minus | plus | space | zero
deriving DecidableEq, Repr

instance : Fintype Flag := ⟨{.hash, .minus, .plus, .space, .zero}, fun flag => by cases flag <;> decide⟩

def Flag.byte : Flag → UInt8
  | .hash => chr '#'
  | .minus => chr '-'
  | .plus => chr '+'
  | .space => chr ' '
  | .zero => chr '0'

inductive Spec where
  | percent | d | i | u | x | X | c | s | lld | lli | llu | llx | llX
deriving DecidableEq, Repr

instance : Fintype Spec :=
  ⟨{.percent, .d, .i, .u, .x, .X, .c, .s, .lld, .lli, .llu, .llx, .llX}, fun spec => by cases spec <;> decide⟩

def Spec.text : Spec → List UInt8
  | .percent => [chr '%']
  | .d => [chr 'd']
  | .i => [chr 'i']
  | .u => [chr 'u']
  | .x => [chr 'x']
  | .X => [chr 'X']
  | .c => [chr 'c']
  | .s => [chr 's']
  | .lld => [chr 'l', chr 'l', chr 'd']
  | .lli => [chr 'l', chr 'l', chr 'i']
  | .llu => [chr 'l', chr 'l', chr 'u']
  | .llx => [chr 'l', chr 'l', chr 'x']
  | .llX => [chr 'l', chr 'l', chr 'X']

/-- a conversion, with its flag if it has one -/
def convText (flag : Option Flag) (spec : Spec) : List UInt8 := chr '%' :: (flag.toList.map Flag.byte ++ spec.text)

inductive Item where
  | char (c : UInt8)
  | conv (flag : Option Flag) (spec : Spec)
deriving DecidableEq, Repr

def Item.text : Item → List UInt8
  | .char c => [c]
  | .conv flag spec => convText flag spec

/-- a `%` does not stand for itself -/
def Item.Ok : Item → Prop
  | .char c => c ≠ chr '%'
  | .conv _ _ => True

/-- the formats of the grammar -/
def InGrammar (fmt : List UInt8) : Prop := ∃ items : List Item, (∀ item ∈ items, item.Ok) ∧ fmt = items.flatMap Item.text

/-- a `%` that starts no conversion -/
def Malformed (rest : List UInt8) : Prop :=
  (∃ tail, rest = chr '%' :: tail) ∧ ∀ flag spec, ¬ convText flag spec <+: rest

/-- the items before the first malformed conversion, and the rest of the format from there on -/
structure Parse (fmt : List UInt8) (items : List Item) (rest : List UInt8) : Prop where
  ok : ∀ item ∈ items, item.Ok
  eq : fmt = items.flatMap Item.text ++ rest
  stop : rest = [] ∨ Malformed rest

/-! ## Arguments and their texts -/

/-- what a specifier takes: nothing, a word of 32 or of 64 bits, or a string -/
inductive Kind where
  | none | word | dword | str
deriving DecidableEq, Repr

def Spec.kind : Spec → Kind
  | .percent => .none
  | .d | .i | .u | .x | .X | .c => .word
  | .lld | .lli | .llu | .llx | .llX => .dword
  | .s => .str

/-- the arguments are those the conversions ask for, in their order; a string has a NUL -/
def Matches : List Item → List Arg → Prop
  | [], args => args = []
  | .char _ :: items, args => Matches items args
  | .conv _ spec :: items, args =>
    match spec.kind, args with
    | .none, args => Matches items args
    | .word, .word _ :: args => Matches items args
    | .dword, .dword _ :: args => Matches items args
    | .str, .str bytes :: args => 0 ∈ bytes ∧ Matches items args
    | _, _ => False

/-- the prefix for `#` -/
def hashText (flag : Option Flag) : List UInt8 := if flag = some .hash then [chr '0', chr 'x'] else []

/-- the text of an argument. Only the 32-bit `X` is in upper case, and the digits of `llu` come from `uitoa`. -/
def Spec.output (flag : Option Flag) : Spec → Arg → List UInt8
  | .d, .word w | .i, .word w => itoaText (w.signExtend 64)
  | .u, .word w => itoaText (w.setWidth 64)
  | .x, .word w => hashText flag ++ hexText (w.setWidth 64)
  | .X, .word w => hashText flag ++ (hexText (w.setWidth 64)).map toupper
  | .c, .word w => [UInt8.ofBitVec (w.setWidth 8)]
  | .s, .str bytes => bytes.takeWhile (· ≠ 0)
  | .lld, .dword w | .lli, .dword w => itoaText w
  | .llu, .dword w => uitoaText w
  | .llx, .dword w | .llX, .dword w => hashText flag ++ hexText w
  | _, _ => []

/-- the text of all items -/
def printed : List Item → List Arg → List UInt8
  | [], _ => []
  | .char c :: items, args => c :: printed items args
  | .conv _ .percent :: items, args => chr '%' :: printed items args
  | .conv flag spec :: items, arg :: args => spec.output flag arg ++ printed items args
  | .conv _ _ :: _, [] => []

/-! ## Taking a format apart -/

theorem Flag.byte_injective : Function.Injective Flag.byte := by decide

theorem Spec.text_prefix_free : ∀ {spec spec' : Spec}, spec.text <+: spec'.text → spec = spec' := by decide

/-- no letter is a flag -/
theorem Spec.text_head (spec : Spec) : ∃ c rest, spec.text = c :: rest ∧ ∀ flag : Flag, flag.byte ≠ c := by
  cases spec <;> exact ⟨_, _, rfl, by decide⟩

/-- no conversion is the beginning of another -/
theorem convText_prefix_free (flag flag' : Option Flag) (spec spec' : Spec) (h : convText flag spec <+: convText flag' spec') :
    flag = flag' ∧ spec = spec' := by
  have htail := (List.cons_prefix_cons.1 h).2
  cases flag with
  | none =>
    cases flag' with
    | none => exact ⟨rfl, Spec.text_prefix_free htail⟩
    | some flag' =>
      obtain ⟨c, rest, hc, hflag⟩ := spec.text_head
      rw [hc] at htail
      exact absurd (List.cons_prefix_cons.1 htail).1.symm (hflag flag')
  | some flag =>
    cases flag' with
    | none =>
      obtain ⟨c, rest, hc, hflag⟩ := spec'.text_head
      rw [hc] at htail
      exact absurd (List.cons_prefix_cons.1 htail).1 (hflag flag)
    | some flag' =>
      obtain ⟨hflag, hspec⟩ := List.cons_prefix_cons.1 htail
      exact ⟨congrArg some (Flag.byte_injective hflag), Spec.text_prefix_free hspec⟩

theorem Item.text_ne_nil (item : Item) : item.text ≠ [] := by
  cases item <;> simp [Item.text, convText]

/-- two items that a format begins with are the same -/
theorem Item.unique {item item' : Item} {t t' : List UInt8} (hok : item.Ok) (hok' : item'.Ok)
    (h : item.text ++ t = item'.text ++ t') : item = item' := by
  cases item with
  | char c =>
    cases item' with
    | char c' => rw [(List.cons.inj h).1]
    | conv flag' spec' => exact absurd (List.cons.inj h).1 hok
  | conv flag spec =>
    cases item' with
    | char c' => exact absurd (List.cons.inj h).1.symm hok'
    | conv flag' spec' =>
      have hpre : convText flag spec <+: convText flag spec ++ t := List.prefix_append _ _
      have hpre' : convText flag' spec' <+: convText flag spec ++ t := ⟨t', h.symm⟩
      rcases List.prefix_or_prefix_of_prefix hpre hpre' with hle | hle
      · obtain ⟨rfl, rfl⟩ := convText_prefix_free _ _ _ _ hle
        rfl
      · obtain ⟨rfl, rfl⟩ := convText_prefix_free _ _ _ _ hle
        rfl

/-- no item begins a rest -/
theorem stop_not_item {rest t : List UInt8} {item : Item} (hok : item.Ok) (hstop : rest = [] ∨ Malformed rest) :
    rest ≠ item.text ++ t := by
  rintro rfl
  rcases hstop with hnil | ⟨⟨tail, htail⟩, hnone⟩
  · exact item.text_ne_nil (List.append_eq_nil_iff.1 hnil).1
  · cases item with
    | char c => exact hok (List.cons.inj htail).1
    | conv flag spec => exact hnone flag spec (List.prefix_append _ _)

theorem Parse.unique {fmt rest rest' : List UInt8} {items items' : List Item} (h : Parse fmt items rest)
    (h' : Parse fmt items' rest') : items = items' ∧ rest = rest' := by
  induction items generalizing fmt items' with
  | nil =>
    have heq := h.eq
    rw [List.flatMap_nil, List.nil_append] at heq
    subst heq
    cases items' with
    | nil => exact ⟨rfl, h'.eq⟩
    | cons item items' =>
      have heq' := h'.eq
      rw [List.flatMap_cons, List.append_assoc] at heq'
      exact absurd heq' (stop_not_item (h'.ok item List.mem_cons_self) h.stop)
  | cons item items ih =>
    have heq := h.eq
    rw [List.flatMap_cons, List.append_assoc] at heq
    cases items' with
    | nil =>
      have heq' := h'.eq
      rw [List.flatMap_nil, List.nil_append] at heq'
      exact absurd (heq'.symm.trans heq) (stop_not_item (h.ok item List.mem_cons_self) h'.stop)
    | cons item' items' =>
      have heq' := h'.eq
      rw [List.flatMap_cons, List.append_assoc] at heq'
      obtain rfl := Item.unique (h.ok item List.mem_cons_self) (h'.ok item' List.mem_cons_self) (heq.symm.trans heq')
      have hrest := List.append_cancel_left (heq.symm.trans heq')
      have hp : Parse (items.flatMap Item.text ++ rest) items rest :=
        ⟨fun i hi => h.ok i (List.mem_cons_of_mem _ hi), rfl, h.stop⟩
      have hp' : Parse (items.flatMap Item.text ++ rest) items' rest' :=
        ⟨fun i hi => h'.ok i (List.mem_cons_of_mem _ hi), hrest, h'.stop⟩
      obtain ⟨rfl, rfl⟩ := ih hp hp'
      exact ⟨rfl, rfl⟩

theorem Parse.nil : Parse [] [] [] := ⟨by simp, rfl, .inl rfl⟩

/-- an item in front -/
theorem Parse.cons {fmt rest : List UInt8} {items : List Item} {item : Item} (hok : item.Ok) (h : Parse fmt items rest) :
    Parse (item.text ++ fmt) (item :: items) rest := by
  refine ⟨?_, by rw [List.flatMap_cons, List.append_assoc, ← h.eq], h.stop⟩
  intro i hi
  rcases List.mem_cons.1 hi with rfl | hi
  · exact hok
  · exact h.ok i hi

theorem Parse.exists (fmt : List UInt8) : ∃ items rest, Parse fmt items rest := by
  induction hn : fmt.length using Nat.strong_induction_on generalizing fmt with
  | _ n ih =>
    -- an item in front leaves a shorter format
    have hfront : ∀ item : Item, item.Ok → ∀ t, fmt = item.text ++ t → ∃ items rest, Parse fmt items rest := by
      rintro item hok t rfl
      have hpos := List.length_pos_of_ne_nil item.text_ne_nil
      rw [List.length_append] at hn
      obtain ⟨items, rest, h⟩ := ih t.length (by omega) t rfl
      exact ⟨item :: items, rest, h.cons hok⟩
    match fmt with
    | [] => exact ⟨[], [], .nil⟩
    | c :: tail =>
      by_cases hc : c = chr '%'
      · subst hc
        by_cases hconv : ∃ flag spec, convText flag spec <+: chr '%' :: tail
        · obtain ⟨flag, spec, t, ht⟩ := hconv
          exact hfront (.conv flag spec) trivial t ht.symm
        · refine ⟨[], chr '%' :: tail, by simp, rfl, .inr ⟨⟨tail, rfl⟩, ?_⟩⟩
          intro flag spec h
          exact hconv ⟨flag, spec, h⟩
      · exact hfront (.char c) hc tail rfl

theorem Parse.inGrammar_iff {fmt rest : List UInt8} {items : List Item} (h : Parse fmt items rest) :
    rest = [] ↔ InGrammar fmt := by
  constructor
  · rintro rfl
    exact ⟨items, h.ok, by rw [h.eq, List.append_nil]⟩
  · rintro ⟨items', hok, heq⟩
    exact (h.unique ⟨hok, by rw [List.append_nil, heq], .inl rfl⟩).2

/-! ## One specifier -/

/-- the buffer is as long as before, the arguments `params` are left, and `text` was printed -/
def Prints (color : UInt8) (st : St) (i : ℕ) (params : List Arg) (text : List UInt8) (x : Except Err Flow) : Prop :=
  ∃ buf : List UInt8, buf.length = st.formattedArg.length ∧ x = .ok (.on ⟨i, params, buf, st.out ++ inColor color text⟩)

section Pieces

variable {color : UInt8} {fmt pre post : List UInt8} {st : St} {params : List Arg} {flag : Option Flag} {text : List UInt8}
  {routine : BitVec 64 → List UInt8 → Except Err (List UInt8)}

/-- what `formatted_arg` holds is printed -/
theorem printArg_withText {room : List UInt8} {i : ℕ} {out : Out} (htext : 0 ∉ text) :
    printArg color ⟨i, params, withText text room, out⟩ =
      .ok (.on ⟨i, params, withText text room, out ++ inColor color text⟩) :=
  printString_spec htext

theorem putWord_spec {convert : BitVec 32 → BitVec 64} {w : BitVec 32} (hst : st.params = .word w :: params)
    (hroutine : routine (convert w) st.formattedArg = .ok (withText text st.formattedArg)) :
    putWord routine convert st = .ok (.on { st with params, formattedArg := withText text st.formattedArg }) := by
  unfold putWord
  rw [hst, vaWord, ok_bind]
  dsimp only
  rw [hroutine, ok_bind]

theorem putLong_spec {w : BitVec 64} (hst : st.params = .dword w :: params)
    (hroutine : routine w st.formattedArg = .ok (withText text st.formattedArg)) :
    putLong routine st = .ok (.on { st with params, formattedArg := withText text st.formattedArg }) := by
  unfold putLong
  rw [hst, vaDword, ok_bind]
  dsimp only
  rw [hroutine, ok_bind]

theorem printHash_spec : printHash color (decide (flag = some .hash)) st =
    .ok (.on { st with out := st.out ++ inColor color (hashText flag) }) := by
  unfold printHash hashText
  split_ifs with hhash hflag hflag
  · exact @printOrRet_spec color [] [chr '0', chr 'x'] [0] 0 st (by decide) rfl
  · exact absurd (of_decide_eq_true hhash) hflag
  · exact absurd (decide_eq_true hflag) hhash
  · simp [inColor]

theorem upperIf_same {c : UInt8} (hread : (read fmt st.i : Except Err UInt8) = .ok c) (hc : c ≠ chr 'X') :
    upperIf fmt st = .ok (.on st) := by
  unfold upperIf
  rw [hread, ok_bind, if_neg hc]

theorem upperIf_upper {room : List UInt8} (hread : (read fmt st.i : Except Err UInt8) = .ok (chr 'X')) (htext : 0 ∉ text)
    (hst : st.formattedArg = withText text room) :
    upperIf fmt st = .ok (.on { st with formattedArg := withText (text.map toupper) room }) := by
  unfold upperIf
  rw [hread, ok_bind, if_pos rfl, hst, strupper_withText htext, ok_bind]

theorem inColor_append (color : UInt8) (a b : List UInt8) : inColor color (a ++ b) = inColor color a ++ inColor color b :=
  List.map_append

/-- a number is written and printed -/
theorem prints_number {put : St → Except Err Flow} (hbuf : st.formattedArg.length = 256)
    (htext : 0 ∉ text ∧ text.length ≤ 20)
    (hput : put st = .ok (.on { st with params, formattedArg := withText text st.formattedArg })) :
    Prints color st st.i params text (andThen (put st) (printArg color)) := by
  refine ⟨withText text st.formattedArg, withText_length (by omega), ?_⟩
  rw [hput, andThen_on, printArg_withText htext.1]

/-- a hexadecimal number, after its prefix, and in upper case or not -/
theorem prints_hex (upper : List UInt8 → List UInt8) {put : St → Except Err Flow} {value : BitVec 64}
    (hbuf : st.formattedArg.length = 256)
    (hput : ∀ out, put { st with out } =
      .ok (.on { st with params, formattedArg := withText (hexText value) st.formattedArg, out }))
    (hupper : ∀ out, upperIf fmt { st with params, formattedArg := withText (hexText value) st.formattedArg, out } =
      .ok (.on { st with params, formattedArg := withText (upper (hexText value)) st.formattedArg, out }))
    (hfits : 0 ∉ upper (hexText value) ∧ (upper (hexText value)).length = (hexText value).length) :
    Prints color st st.i params (hashText flag ++ upper (hexText value))
      (andThen (andThen (andThen (printHash color (decide (flag = some .hash)) st) put) (upperIf fmt)) (printArg color)) := by
  have hlen := (hexText_fits value).2
  refine ⟨withText (upper (hexText value)) st.formattedArg, withText_length (by omega), ?_⟩
  rw [printHash_spec, andThen_on, hput, andThen_on, hupper, andThen_on, printArg_withText hfits.1, inColor_append,
    List.append_assoc]

end Pieces

section Switch

variable {color : UInt8} {fmt pre post : List UInt8} {st : St} {params : List Arg} {flag : Option Flag} {spec : Spec} {len : ℕ}

theorem specifier_percent (hfmt : fmt = pre ++ Spec.percent.text ++ post) (hi : st.i = pre.length) :
    Prints color st st.i st.params [chr '%'] (specifier color fmt len (decide (flag = some .hash)) st) := by
  refine ⟨st.formattedArg, rfl, ?_⟩
  subst hfmt
  unfold specifier
  rw [read_at (List.append_assoc _ _ _) hi, ok_bind, if_pos rfl]
  exact @printOrRet_spec color pre [chr '%'] post st.i st (by decide) hi

theorem specifier_word {w : BitVec 32} (hkind : spec.kind = .word) (hfmt : fmt = pre ++ spec.text ++ post)
    (hi : st.i = pre.length) (hbuf : st.formattedArg.length = 256) (hst : st.params = .word w :: params) :
    Prints color st st.i params (spec.output flag (.word w)) (specifier color fmt len (decide (flag = some .hash)) st) := by
  have hread : ∀ c, spec.text = [c] → (read fmt st.i : Except Err UInt8) = .ok c := by
    intro c hc
    rw [hc, List.append_assoc] at hfmt
    exact read_at hfmt hi
  have hroom : 20 < st.formattedArg.length := by omega
  unfold specifier
  cases spec with
  | d | i =>
    rw [hread _ rfl, ok_bind, if_neg (by decide), if_pos (by decide)]
    exact prints_number hbuf (itoaText_fits _) (putWord_spec hst (itoa_spec hroom))
  | u =>
    rw [hread _ rfl, ok_bind, if_neg (by decide), if_neg (by decide), if_pos (by decide)]
    exact prints_number hbuf (itoaText_fits _) (putWord_spec hst (itoa_spec hroom))
  | x =>
    rw [hread _ rfl, ok_bind, if_neg (by decide), if_neg (by decide), if_neg (by decide), if_pos (by decide)]
    refine prints_hex id hbuf (fun out => ?_) (fun out => ?_) ⟨(hexText_fits _).1, rfl⟩
    · exact putWord_spec hst (uitoaHex_spec (lt_trans (by decide) hroom))
    · exact upperIf_same (hread _ rfl) (by decide)
  | X =>
    rw [hread _ rfl, ok_bind, if_neg (by decide), if_neg (by decide), if_neg (by decide), if_pos (by decide)]
    refine prints_hex (List.map toupper) hbuf (fun out => ?_) (fun out => ?_)
      ⟨toupper_no_nul (hexText_fits _).1, List.length_map _⟩
    · exact putWord_spec hst (uitoaHex_spec (lt_trans (by decide) hroom))
    · exact upperIf_upper (hread _ rfl) (hexText_fits _).1 rfl
  | c =>
    refine ⟨st.formattedArg, rfl, ?_⟩
    rw [hread _ rfl, ok_bind, if_neg (by decide), if_neg (by decide), if_neg (by decide), if_neg (by decide),
      if_neg (by decide), if_pos rfl]
    unfold putCharArg
    rw [hst, vaWord, ok_bind]
    rfl
  | percent | s | lld | lli | llu | llx | llX => cases hkind

/-- the 64-bit specifiers; after `ll` the index stays on the first `l`, so that no `X` is seen there -/
theorem longSpecifier_spec {w : BitVec 64} {c : UInt8} (hkind : spec.kind = .dword) (htext : spec.text = [chr 'l', chr 'l', c])
    (hfmt : fmt = pre ++ spec.text ++ post) (hi : st.i = pre.length) (hbuf : st.formattedArg.length = 256)
    (hst : st.params = .dword w :: params) :
    Prints color st (st.i + 2) params (spec.output flag (.dword w))
      (longSpecifier color fmt (decide (flag = some .hash)) st) := by
  have hread : (read fmt (st.i + 2) : Except Err UInt8) = .ok c := by
    refine @read_at _ _ (pre ++ [chr 'l', chr 'l']) post c _ _ ?_ (by simp [hi])
    rw [hfmt, htext]
    simp
  have hfirst : (read fmt st.i : Except Err UInt8) = .ok (chr 'l') := by
    refine @read_at _ _ pre (chr 'l' :: c :: post) (chr 'l') _ _ ?_ hi
    rw [hfmt, htext]
    simp
  have hroom : 20 < st.formattedArg.length := by omega
  -- the index is moved after the text is printed
  have hmove : ∀ {text : List UInt8} {x : Except Err Flow}, Prints color st st.i params text (andThen x (printArg color)) →
      Prints color st (st.i + 2) params text
        (andThen (andThen x (printArg color)) fun st => .ok (.on { st with i := st.i + 2 })) := by
    rintro text x ⟨buf, hlen, hx⟩
    exact ⟨buf, hlen, by rw [hx, andThen_on]⟩
  unfold longSpecifier
  rw [hread, ok_bind]
  dsimp only
  apply hmove
  cases spec with
  | lld | lli =>
    cases htext
    rw [if_pos (by decide)]
    exact prints_number hbuf (itoaText_fits _) (putLong_spec hst (itoa_spec hroom))
  | llu =>
    cases htext
    rw [if_neg (by decide), if_pos (by decide)]
    exact prints_number hbuf (uitoaText_fits _) (putLong_spec hst (uitoa_spec hroom))
  | llx | llX =>
    cases htext
    rw [if_neg (by decide), if_neg (by decide), if_pos (by decide)]
    refine prints_hex id hbuf (fun out => ?_) (fun out => ?_) ⟨(hexText_fits _).1, rfl⟩
    · exact putLong_spec hst (uitoaHex_spec (lt_trans (by decide) hroom))
    · exact upperIf_same hfirst (by decide)
  | percent | d | i | u | x | X | c | s => cases hkind

theorem specifier_dword {w : BitVec 64} (hkind : spec.kind = .dword) (hfmt : fmt = pre ++ spec.text ++ post)
    (hi : st.i = pre.length) (hlen : pre.length + spec.text.length ≤ len) (hlt : len < 2 ^ 31)
    (hbuf : st.formattedArg.length = 256) (hst : st.params = .dword w :: params) :
    Prints color st (st.i + 2) params (spec.output flag (.dword w))
      (specifier color fmt len (decide (flag = some .hash)) st) := by
  obtain ⟨c, htext⟩ : ∃ c, spec.text = [chr 'l', chr 'l', c] := by
    cases spec with
    | lld | lli | llu | llx | llX => exact ⟨_, rfl⟩
    | percent | d | i | u | x | X | c | s => cases hkind
  have hfirst : (read fmt st.i : Except Err UInt8) = .ok (chr 'l') := by
    refine @read_at _ _ pre (chr 'l' :: c :: post) (chr 'l') _ _ ?_ hi
    rw [hfmt, htext]
    simp
  have hsecond : (read fmt (st.i + 1) : Except Err UInt8) = .ok (chr 'l') := by
    refine @read_at _ _ (pre ++ [chr 'l']) (c :: post) (chr 'l') _ _ ?_ (by simp [hi])
    rw [hfmt, htext]
    simp
  have hlong : isLong fmt len st.i = .ok true := by
    have hlen3 : pre.length + 3 ≤ len := by simpa [htext] using hlen
    unfold isLong u32
    rw [if_pos (by omega), hsecond]
    rfl
  unfold specifier
  rw [hfirst, ok_bind, if_neg (by decide), if_neg (by decide), if_neg (by decide), if_neg (by decide), if_pos rfl, hlong,
    ok_bind, if_pos rfl]
  exact longSpecifier_spec hkind htext hfmt hi hbuf hst

theorem specifier_str {bytes : List UInt8} (hfmt : fmt = pre ++ Spec.s.text ++ post) (hi : st.i = pre.length)
    (hnul : 0 ∈ bytes) (hst : st.params = .str bytes :: params) :
    Prints color st st.i params (Spec.s.output flag (.str bytes))
      (specifier color fmt len (decide (flag = some .hash)) st) := by
  refine ⟨st.formattedArg, rfl, ?_⟩
  -- the bytes up to the first NUL
  obtain ⟨text, more, rfl, htext⟩ := List.eq_append_cons_of_mem hnul
  have htake : Spec.s.output flag (.str (text ++ 0 :: more)) = text := by
    have hpos : ∀ c ∈ text, decide (c ≠ 0) = true := fun c hc => decide_eq_true fun h => htext (h ▸ hc)
    calc (text ++ 0 :: more).takeWhile (· ≠ 0) = text ++ (0 :: more).takeWhile (· ≠ 0) := List.takeWhile_append_of_pos hpos
      _ = text := by rw [List.takeWhile_cons_of_neg (by decide), List.append_nil]
  subst hfmt
  unfold specifier
  rw [read_at (List.append_assoc _ _ _) hi, ok_bind, if_neg (by decide), if_neg (by decide), if_neg (by decide),
    if_neg (by decide), if_neg (by decide), if_neg (by decide), if_pos rfl, htake]
  unfold printStrArg
  rw [hst, vaStr, ok_bind]
  exact printString_spec htext

theorem printed_conv {items : List Item} {arg : Arg} {args : List Arg} (hkind : spec.kind ≠ .none) :
    printed (.conv flag spec :: items) (arg :: args) = spec.output flag arg ++ printed items args := by
  cases spec with
  | percent => exact absurd rfl hkind
  | d | i | u | x | X | c | s | lld | lli | llu | llx | llX => rfl

/-- **One specifier.** It takes the arguments that it matches, and prints their text. -/
theorem specifier_spec {items : List Item} {used extra : List Arg} (hmatch : Matches (.conv flag spec :: items) used)
    (hst : st.params = used ++ extra) (hfmt : fmt = pre ++ spec.text ++ post) (hi : st.i = pre.length)
    (hlen : pre.length + spec.text.length ≤ len) (hlt : len < 2 ^ 31) (hbuf : st.formattedArg.length = 256) :
    ∃ used' text, Matches items used' ∧ printed (.conv flag spec :: items) used = text ++ printed items used' ∧
      Prints color st (st.i + (spec.text.length - 1)) (used' ++ extra) text
        (specifier color fmt len (decide (flag = some .hash)) st) := by
  unfold Matches at hmatch
  have hlength : spec.kind ≠ .dword → spec.text.length - 1 = 0 := by
    cases spec <;> decide
  cases hkind : spec.kind with
  | none =>
    obtain rfl : spec = .percent := by
      cases spec with
      | percent => rfl
      | d | i | u | x | X | c | s | lld | lli | llu | llx | llX => cases hkind
    exact ⟨used, [chr '%'], hmatch, rfl, hst ▸ specifier_percent hfmt hi⟩
  | word =>
    rw [hkind] at hmatch
    match used, hmatch with
    | .word w :: used, hmatch =>
      refine ⟨used, _, hmatch, printed_conv (by rw [hkind]; decide), ?_⟩
      rw [hlength (by rw [hkind]; decide)]
      exact specifier_word hkind hfmt hi hbuf hst
  | dword =>
    rw [hkind] at hmatch
    match used, hmatch with
    | .dword w :: used, hmatch =>
      have hthree : spec.text.length - 1 = 2 := by
        cases spec with
        | lld | lli | llu | llx | llX => rfl
        | percent | d | i | u | x | X | c | s => cases hkind
      refine ⟨used, _, hmatch, printed_conv (by rw [hkind]; decide), ?_⟩
      rw [hthree]
      exact specifier_dword hkind hfmt hi hlen hlt hbuf hst
  | str =>
    rw [hkind] at hmatch
    obtain rfl : spec = .s := by
      cases spec with
      | s => rfl
      | percent | d | i | u | x | X | c | lld | lli | llu | llx | llX => cases hkind
    match used, hmatch with
    | .str bytes :: used, ⟨hnul, hmatch⟩ => exact ⟨used, _, hmatch, rfl, specifier_str hfmt hi hnul hst⟩

/-! ## No specifier -/

/-- the five bytes that can end a 64-bit specifier -/
theorem longSpecifier_malformed {c : UInt8} {flags : Bool} (hread : (read fmt (st.i + 2) : Except Err UInt8) = .ok c)
    (hbad : ∀ spec : Spec, spec.text ≠ [chr 'l', chr 'l', c]) : longSpecifier color fmt flags st = .ok (.einval st) := by
  have hd : ¬ (c = chr 'd' ∨ c = chr 'i') := by
    rintro (rfl | rfl)
    · exact hbad .lld rfl
    · exact hbad .lli rfl
  have hu : c ≠ chr 'u' := by
    rintro rfl
    exact hbad .llu rfl
  have hx : ¬ (c = chr 'x' ∨ c = chr 'X') := by
    rintro (rfl | rfl)
    · exact hbad .llx rfl
    · exact hbad .llX rfl
  unfold longSpecifier
  rw [hread, ok_bind, if_neg hd, if_neg hu, if_neg hx]
  rfl

/-- after one `l` there are two more bytes, the first an `l`, or the code sees that there are not -/
theorem isLong_spec {t : List UInt8} {i : ℕ} (hfmt : fmt = pre ++ chr 'l' :: t ++ [0]) (hi : i = pre.length)
    (hpre : 1 ≤ pre.length) (hlen : len = pre.length + (chr 'l' :: t).length) (hlt : len < 2 ^ 31) :
    isLong fmt len i = .ok false ∨
      isLong fmt len i = .ok true ∧ ∃ c t', t = chr 'l' :: c :: t' ∧ (read fmt (i + 2) : Except Err UInt8) = .ok c := by
  rw [List.length_cons] at hlen
  unfold isLong u32
  split_ifs with hin
  · obtain ⟨a, b, t', rfl⟩ : ∃ a b t', t = a :: b :: t' := by
      match t with
      | [] => exact absurd hin (by rw [List.length_nil] at hlen; omega)
      | [_] => exact absurd hin (by rw [List.length_singleton] at hlen; omega)
      | a :: b :: t' => exact ⟨a, b, t', rfl⟩
    have hnext : (read fmt (i + 1) : Except Err UInt8) = .ok a :=
      @read_at _ _ (pre ++ [chr 'l']) (b :: t' ++ [0]) a _ _ (by simp [hfmt]) (by simp [hi])
    rw [hnext, ok_bind]
    by_cases ha : a = chr 'l'
    · refine .inr ⟨by rw [decide_eq_true ha], b, t', by rw [ha], ?_⟩
      exact @read_at _ _ (pre ++ [chr 'l', a]) (t' ++ [0]) b _ _ (by simp [hfmt]) (by simp [hi])
    · exact .inl (by rw [decide_eq_false ha])
  · exact .inl rfl

/-- where no specifier starts, the `switch` leaves with an error and does nothing else -/
theorem specifier_malformed {t : List UInt8} {flags : Bool} (hfmt : fmt = pre ++ t ++ [0]) (hi : st.i = pre.length)
    (hpre : 1 ≤ pre.length) (hlen : len = pre.length + t.length) (hlt : len < 2 ^ 31) (hbad : ∀ spec : Spec, ¬ spec.text <+: t) :
    specifier color fmt len flags st = .ok (.einval st) := by
  unfold specifier
  match t with
  | [] =>
    rw [List.append_nil] at hfmt
    rw [read_at hfmt hi, ok_bind, if_neg (by decide), if_neg (by decide), if_neg (by decide), if_neg (by decide),
      if_neg (by decide), if_neg (by decide), if_neg (by decide)]
  | c :: t =>
    -- a specifier of one byte
    have hone : ∀ spec : Spec, spec.text ≠ [c] := by
      intro spec h
      exact hbad spec (h ▸ ⟨t, rfl⟩)
    have hd : ¬ (c = chr 'd' ∨ c = chr 'i') := by
      rintro (rfl | rfl)
      · exact hone .d rfl
      · exact hone .i rfl
    have hx : ¬ (c = chr 'x' ∨ c = chr 'X') := by
      rintro (rfl | rfl)
      · exact hone .x rfl
      · exact hone .X rfl
    have hpercent : c ≠ chr '%' := by
      rintro rfl
      exact hone .percent rfl
    have hu : c ≠ chr 'u' := by
      rintro rfl
      exact hone .u rfl
    have hc : c ≠ chr 'c' := by
      rintro rfl
      exact hone .c rfl
    have hs : c ≠ chr 's' := by
      rintro rfl
      exact hone .s rfl
    rw [read_at (hfmt.trans (List.append_assoc _ _ _)) hi, ok_bind, if_neg hpercent, if_neg hd, if_neg hu, if_neg hx]
    by_cases hl : c = chr 'l'
    · subst hl
      rw [if_pos rfl]
      rcases isLong_spec hfmt hi hpre hlen hlt with hlong | ⟨hlong, c, t', rfl, hread⟩
      · rw [hlong, ok_bind]
        rfl
      · rw [hlong, ok_bind, if_pos rfl]
        apply longSpecifier_malformed hread
        intro spec h
        exact hbad spec (h ▸ ⟨t', rfl⟩)
    · rw [if_neg hl, if_neg hc, if_neg hs]

/-! ## From the `%` on -/

theorem Flag.isFlag_byte (flag : Flag) : isFlag flag.byte = true := by
  cases flag <;> decide

theorem Flag.hash_iff (flag : Flag) : decide (flag.byte = chr '#') = decide (some flag = some Flag.hash) := by
  cases flag <;> decide

/-- a flag is the byte of one -/
theorem exists_flag {c : UInt8} (hc : isFlag c = true) : ∃ flag : Flag, flag.byte = c := by
  unfold isFlag at hc
  rcases of_decide_eq_true hc with rfl | rfl | rfl | rfl | rfl
  · exact ⟨.hash, rfl⟩
  · exact ⟨.minus, rfl⟩
  · exact ⟨.plus, rfl⟩
  · exact ⟨.space, rfl⟩
  · exact ⟨.zero, rfl⟩

/-- the `%` and the flag, if there is one, are skipped -/
theorem conversion_flag {c : UInt8} {tail : List UInt8}
    (hfmt : fmt = pre ++ chr '%' :: (flag.toList.map Flag.byte ++ c :: tail)) (hi : st.i = pre.length)
    (hlen : pre.length + flag.toList.length < len) (hc : flag = none → isFlag c = false) :
    conversion color fmt len st =
      andThen (specifier color fmt len (decide (flag = some .hash)) { st with i := pre.length + flag.toList.length + 1 })
        fun st => .ok (.on { st with i := st.i + 1 }) := by
  unfold conversion
  rw [if_neg (by omega)]
  cases flag with
  | none =>
    have hnot : isFlag c = false := hc rfl
    have hhash : decide (c = chr '#') = false := by
      apply decide_eq_false
      rintro rfl
      exact absurd hnot (by decide)
    have hread : (read fmt (st.i + 1) : Except Err UInt8) = .ok c :=
      @read_at _ _ (pre ++ [chr '%']) tail c _ _ (by simp [hfmt]) (by simp [hi])
    rw [hread, ok_bind]
    dsimp only
    rw [hnot, if_neg Bool.false_ne_true, if_neg (by omega), hhash, hi]
    rfl
  | some flag =>
    have hread : (read fmt (st.i + 1) : Except Err UInt8) = .ok flag.byte :=
      @read_at _ _ (pre ++ [chr '%']) (c :: tail) flag.byte _ _ (by simp [hfmt]) (by simp [hi])
    rw [Option.toList_some, List.length_singleton] at hlen ⊢
    rw [hread, ok_bind]
    dsimp only
    rw [flag.isFlag_byte, if_pos rfl, if_neg (by omega), flag.hash_iff, hi]

theorem Spec.text_cons (spec : Spec) : ∃ c t, spec.text = c :: t ∧ isFlag c = false := by
  cases spec <;> exact ⟨_, _, rfl, by decide⟩

/-- **One conversion.** -/
theorem conversion_spec {items : List Item} {used extra : List Arg} (hmatch : Matches (.conv flag spec :: items) used)
    (hst : st.params = used ++ extra) (hfmt : fmt = pre ++ convText flag spec ++ post) (hi : st.i = pre.length)
    (hlen : pre.length + (convText flag spec).length ≤ len) (hlt : len < 2 ^ 31) (hbuf : st.formattedArg.length = 256) :
    ∃ used' text, Matches items used' ∧ printed (.conv flag spec :: items) used = text ++ printed items used' ∧
      Prints color st (pre.length + (convText flag spec).length) (used' ++ extra) text (conversion color fmt len st) := by
  obtain ⟨c, t, htext, hc⟩ := spec.text_cons
  have hlength : (convText flag spec).length = flag.toList.length + spec.text.length + 1 := by
    simp [convText]
  have hpos : spec.text.length = t.length + 1 := by rw [htext, List.length_cons]
  obtain ⟨used', text, hmatch', hprinted, buf, hbuf', hspec⟩ :=
    @specifier_spec color fmt (pre ++ chr '%' :: flag.toList.map Flag.byte) post
      { st with i := pre.length + flag.toList.length + 1 } flag spec len items used extra hmatch hst
      (by simp [hfmt, convText]) (by simp; omega) (by simp; omega) hlt hbuf
  refine ⟨used', text, hmatch', hprinted, buf, hbuf', ?_⟩
  rw [conversion_flag (c := c) (by rw [hfmt, convText, htext]; simp; rfl) hi (by omega) fun _ => hc, hspec, andThen_on]
  dsimp only
  rw [show pre.length + flag.toList.length + 1 + (spec.text.length - 1) + 1 = pre.length + (convText flag spec).length by
    omega]

/-- **A malformed conversion.** Nothing is taken and nothing printed. -/
theorem conversion_malformed {rest : List UInt8} (hbad : Malformed rest) (hfmt : fmt = pre ++ rest ++ [0])
    (hi : st.i = pre.length) (hlen : len = pre.length + rest.length) (hlt : len < 2 ^ 31) :
    ∃ i, conversion color fmt len st = .ok (.einval { st with i }) := by
  obtain ⟨⟨tail, rfl⟩, hnone⟩ := hbad
  rw [List.length_cons] at hlen
  -- the flag, if the first byte is one, and what is after it
  obtain ⟨flag, t, rfl, hc⟩ : ∃ (flag : Option Flag) (t : List UInt8), tail = flag.toList.map Flag.byte ++ t ∧
      (flag = none → ∀ c t', t = c :: t' → isFlag c = false) := by
    match tail with
    | [] => exact ⟨none, [], rfl, fun _ c t' h => absurd h (by simp)⟩
    | c :: tail =>
      cases hflag : isFlag c with
      | false => exact ⟨none, c :: tail, rfl, fun _ c' t' h => (List.cons.inj h).1 ▸ hflag⟩
      | true =>
        obtain ⟨flag, rfl⟩ := exists_flag hflag
        exact ⟨some flag, tail, rfl, fun h => by cases h⟩
  obtain ⟨c, tail, htail, hnot⟩ : ∃ c tail, t ++ [0] = c :: tail ∧ (flag = none → isFlag c = false) := by
    match t, hc with
    | [], _ => exact ⟨0, [], rfl, fun _ => by decide⟩
    | c :: t, hc => exact ⟨c, t ++ [0], rfl, fun h => hc h c t rfl⟩
  have hspecs : ∀ spec : Spec, ¬ spec.text <+: t := by
    rintro spec ⟨post, rfl⟩
    exact hnone flag spec ⟨post, by simp [convText]⟩
  rw [List.length_append, List.length_map] at hlen
  have hflag := @conversion_flag color fmt pre st flag len c tail (by rw [hfmt, ← htail]; simp) hi (by omega) hnot
  have hspec := @specifier_malformed color fmt (pre ++ chr '%' :: flag.toList.map Flag.byte)
    { st with i := pre.length + flag.toList.length + 1 } len t (decide (flag = some .hash)) (by rw [hfmt]; simp)
    (by simp; omega) (by simp; omega) (by simp; omega) hlt hspecs
  exact ⟨_, by rw [hflag, hspec, andThen_einval]⟩

end Switch

/-! ## The loop -/

section Rounds

variable {color : UInt8} {fmt pre lits post : List UInt8} {st : St} {len fuel : ℕ}

theorem skipLiteral_spec {c : UInt8} {i : ℕ} (hfmt : fmt = pre ++ lits ++ c :: post) (hi : i = pre.length)
    (hlits : ∀ x ∈ lits, x ≠ chr '%') (hlen : pre.length + lits.length ≤ len)
    (hstop : c = chr '%' ∨ pre.length + lits.length = len) (hfuel : lits.length < fuel) :
    skipLiteral fmt len fuel i = .ok (pre.length + lits.length) := by
  induction lits generalizing pre fuel i with
  | nil =>
    obtain ⟨fuel, rfl⟩ : ∃ f, fuel = f + 1 := ⟨fuel - 1, by omega⟩
    rw [List.append_nil] at hfmt
    rw [List.length_nil, Nat.add_zero] at hstop ⊢
    unfold skipLiteral
    split_ifs with hin
    · rw [read_at hfmt hi, ok_bind, if_neg (not_not.2 (hstop.resolve_right (by omega))), hi, Nat.add_zero]
    · rw [hi, Nat.add_zero]
  | cons x lits ih =>
    obtain ⟨fuel, rfl⟩ : ∃ f, fuel = f + 1 := ⟨fuel - 1, by omega⟩
    rw [List.length_cons] at hlen hstop hfuel ⊢
    have hx := hlits x List.mem_cons_self
    have hread : (read fmt i : Except Err UInt8) = .ok x := read_at (hfmt.trans (List.append_assoc _ _ _)) hi
    have hnext := @ih (pre ++ [x]) fuel (i + 1) (by simp [hfmt]) (by simp [hi])
      (fun y hy => hlits y (List.mem_cons_of_mem x hy)) (by simp; omega) (hstop.imp_right fun h => by simp; omega) (by omega)
    rw [skipLiteral, if_pos (by omega), hread, ok_bind, if_pos hx, hnext, List.length_append, List.length_singleton,
      Nat.add_assoc, Nat.add_comm 1]

/-- a round prints the characters up to the next `%`, and goes on from there -/
theorem vprintkRound_eq {c : UInt8} (hfmt : fmt = pre ++ lits ++ c :: post) (hi : st.i = pre.length)
    (hlits : ∀ x ∈ lits, x ≠ chr '%') (hnul : 0 ∉ lits) (hlen : pre.length + lits.length ≤ len)
    (hstop : c = chr '%' ∨ pre.length + lits.length = len) :
    vprintkRound color fmt len st =
      if c = chr '%' then conversion color fmt len
        { st with i := (pre ++ lits).length, out := st.out ++ inColor color lits }
      else .ok (.on { st with i := (pre ++ lits).length, out := st.out ++ inColor color lits }) := by
  have hprint : printLiteral color fmt st.i (pre.length + lits.length) st.out = .ok (st.out ++ inColor color lits) := by
    unfold printLiteral
    split_ifs with hgt
    · rw [hi, Nat.add_sub_cancel_left, hfmt, print_spec hnul rfl]
      rfl
    · have hempty : lits = [] := List.length_eq_zero_iff.1 (by omega)
      rw [hempty]
      simp [inColor]
  have hread : (read fmt (pre ++ lits).length : Except Err UInt8) = .ok c := read_at hfmt rfl
  unfold vprintkRound
  rw [skipLiteral_spec hfmt hi hlits hlen hstop (by omega), ok_bind, hprint, ok_bind, ← List.length_append, hread, ok_bind]

end Rounds

/-! ## The whole format -/

section Whole

variable {lits : List UInt8} {tail : List Item} {args : List Arg}

/-- the items are a run of characters, and then nothing or a conversion -/
theorem leading_chars (items : List Item) : ∃ (lits : List UInt8) (tail : List Item), items = lits.map Item.char ++ tail ∧
    (tail = [] ∨ ∃ flag spec tail', tail = .conv flag spec :: tail') := by
  induction items with
  | nil => exact ⟨[], [], rfl, .inl rfl⟩
  | cons item items ih =>
    cases item with
    | char c =>
      obtain ⟨lits, tail, rfl, htail⟩ := ih
      exact ⟨c :: lits, tail, rfl, htail⟩
    | conv flag spec => exact ⟨[], _, rfl, .inr ⟨flag, spec, items, rfl⟩⟩

theorem matches_chars : Matches (lits.map Item.char ++ tail) args ↔ Matches tail args := by
  induction lits with
  | nil => rfl
  | cons c lits ih => exact ih

theorem printed_chars : printed (lits.map Item.char ++ tail) args = lits ++ printed tail args := by
  induction lits with
  | nil => rfl
  | cons c lits ih => exact congrArg (c :: ·) ih

theorem text_chars : (lits.map Item.char ++ tail).flatMap Item.text = lits ++ tail.flatMap Item.text := by
  induction lits with
  | nil => rfl
  | cons c lits ih => exact congrArg (c :: ·) ih

theorem Parse.of_tail {fmt rest : List UInt8} {items : List Item} (h : Parse fmt (items ++ tail) rest) :
    Parse (tail.flatMap Item.text ++ rest) tail rest :=
  ⟨fun item hi => h.ok item (List.mem_append_right _ hi), rfl, h.stop⟩

variable {color : UInt8} {fmt pre sfx rest : List UInt8} {items : List Item} {used extra : List Arg} {out : Out} {st : St}
  {len fuel : ℕ}

/-- **The invariant.** The index is at the start of an item, `pre` is before it and the items and `rest` after it; the
arguments left begin with those of the items, and the text of the items is what is missing from `out`. -/
structure Pending (color : UInt8) (fmt rest : List UInt8) (len : ℕ) (extra : List Arg) (out : Out) (pre sfx : List UInt8)
    (items : List Item) (used : List Arg) (st : St) : Prop where
  parse : Parse sfx items rest
  noNul : 0 ∉ sfx
  fmt_eq : fmt = pre ++ sfx ++ [0]
  len_eq : len = pre.length + sfx.length
  index : st.i = pre.length
  params : st.params = used ++ extra
  args : Matches items used
  buffer : st.formattedArg.length = 256
  text : st.out ++ inColor color (printed items used) = out

/-- a round at a run of characters -/
theorem Pending.round_eq (h : Pending color fmt rest len extra out pre sfx (lits.map Item.char ++ tail) used st) {c : UInt8}
    {post : List UInt8} (hrest : tail.flatMap Item.text ++ rest ++ [0] = c :: post) (hstop : c = chr '%' ∨ sfx = lits) :
    vprintkRound color fmt len st =
      if c = chr '%' then conversion color fmt len
        { st with i := (pre ++ lits).length, out := st.out ++ inColor color lits }
      else .ok (.on { st with i := (pre ++ lits).length, out := st.out ++ inColor color lits }) := by
  have hsfx : sfx = lits ++ (tail.flatMap Item.text ++ rest) := by rw [h.parse.eq, text_chars, List.append_assoc]
  have hlits : ∀ x ∈ lits, x ≠ chr '%' := fun x hx =>
    h.parse.ok (.char x) (List.mem_append_left _ (List.mem_map_of_mem hx))
  have hnul : 0 ∉ lits := fun h0 => h.noNul (hsfx ▸ List.mem_append_left _ h0)
  have hlen : pre.length + lits.length ≤ len := by
    rw [h.len_eq, hsfx, List.length_append]
    omega
  have hfmt : fmt = pre ++ lits ++ c :: post := by
    rw [h.fmt_eq, hsfx, ← hrest]
    simp
  exact vprintkRound_eq hfmt h.index hlits hnul hlen (hstop.imp_right fun heq => by rw [h.len_eq, heq])

/-- only characters are left: the next round is at the end of the format -/
theorem Pending.round_chars (h : Pending color fmt [] len extra out pre sfx (lits.map Item.char ++ []) used st) :
    ∃ st', vprintkRound color fmt len st = .ok (.on st') ∧ Pending color fmt [] len extra out (pre ++ sfx) [] [] used st' := by
  have hsfx : sfx = lits := by
    rw [h.parse.eq, text_chars, List.flatMap_nil, List.append_nil, List.append_nil]
  have hround := h.round_eq (c := 0) rfl (.inr hsfx)
  subst hsfx
  rw [if_neg (by decide)] at hround
  refine ⟨_, hround, Parse.nil, by simp, by rw [h.fmt_eq, List.append_nil], ?_, rfl, h.params, matches_chars.1 h.args,
    h.buffer, ?_⟩
  · rw [h.len_eq, List.length_append, List.length_nil, Nat.add_zero]
  · rw [← h.text, printed_chars, inColor_append, List.append_assoc]

/-- a malformed conversion comes next: the round leaves with an error -/
theorem Pending.round_malformed (h : Pending color fmt rest len extra out pre sfx (lits.map Item.char ++ []) used st)
    (hbad : Malformed rest) (hlt : len < 2 ^ 31) :
    ∃ st', vprintkRound color fmt len st = .ok (.einval st') ∧ st'.params = extra ∧ st'.out = out := by
  have hsfx : sfx = lits ++ rest := by rw [h.parse.eq, text_chars, List.flatMap_nil, List.append_nil]
  obtain ⟨bad, hrest⟩ := hbad.1
  have hnext : [].flatMap Item.text ++ rest ++ [0] = chr '%' :: (bad ++ [0]) := by
    rw [hrest]
    rfl
  have hround := h.round_eq hnext (.inl rfl)
  obtain ⟨i, hconv⟩ := @conversion_malformed color fmt (pre ++ lits)
    { st with i := (pre ++ lits).length, out := st.out ++ inColor color lits } len rest hbad
    (by rw [h.fmt_eq, hsfx]; simp) rfl (by rw [h.len_eq, hsfx]; simp; omega) hlt
  rw [if_pos rfl, hconv] at hround
  obtain rfl : used = [] := matches_chars.1 h.args
  refine ⟨_, hround, h.params, ?_⟩
  rw [← h.text, printed_chars, printed, List.append_nil]

/-- a conversion comes next: the round is over after it -/
theorem Pending.round_conv {flag : Option Flag} {spec : Spec}
    (h : Pending color fmt rest len extra out pre sfx (lits.map Item.char ++ .conv flag spec :: tail) used st) (hlt : len < 2 ^ 31) :
    ∃ used' st', vprintkRound color fmt len st = .ok (.on st') ∧
      Pending color fmt rest len extra out (pre ++ lits ++ convText flag spec) (tail.flatMap Item.text ++ rest) tail used' st' := by
  have hsfx : sfx = lits ++ convText flag spec ++ (tail.flatMap Item.text ++ rest) := by
    rw [h.parse.eq, text_chars, List.flatMap_cons]
    simp [Item.text]
  have hlen : len = (pre ++ lits ++ convText flag spec).length + (tail.flatMap Item.text ++ rest).length := by
    rw [h.len_eq, hsfx]
    simp only [List.length_append]
    omega
  have hnext : (Item.conv flag spec :: tail).flatMap Item.text ++ rest ++ [0] =
      chr '%' :: (flag.toList.map Flag.byte ++ spec.text ++ (tail.flatMap Item.text ++ rest ++ [0])) := by
    simp [Item.text, convText]
  have hround := h.round_eq hnext (.inl rfl)
  obtain ⟨used', text, hmatch, hprinted, buf, hbuf, hconv⟩ :=
    @conversion_spec color fmt (pre ++ lits) (tail.flatMap Item.text ++ rest ++ [0])
      { st with i := (pre ++ lits).length, out := st.out ++ inColor color lits } flag spec len tail used extra
      (matches_chars.1 h.args) h.params (by rw [h.fmt_eq, hsfx]; simp) rfl
      (by rw [hlen]; simp only [List.length_append]; omega) hlt h.buffer
  rw [if_pos rfl, hconv] at hround
  have hparse : Parse (tail.flatMap Item.text ++ rest) tail rest :=
    @Parse.of_tail tail _ rest [.conv flag spec] h.parse.of_tail
  refine ⟨used', _, hround, hparse, ?_, ?_, hlen, ?_, rfl, hmatch, hbuf.trans h.buffer, ?_⟩
  · intro h0
    exact h.noNul (hsfx ▸ List.mem_append_right _ h0)
  · rw [h.fmt_eq, hsfx]
    simp
  · exact List.length_append.symm
  · rw [← h.text, printed_chars, hprinted, inColor_append, inColor_append]
    simp only [List.append_assoc]

/-- **One round.** It leaves with an error at a malformed conversion, and goes on with a shorter rest otherwise. -/
theorem Pending.round (h : Pending color fmt rest len extra out pre sfx items used st) (hne : sfx ≠ []) (hlt : len < 2 ^ 31) :
    (rest ≠ [] ∧ ∃ st', vprintkRound color fmt len st = .ok (.einval st') ∧ st'.params = extra ∧ st'.out = out) ∨
      ∃ pre' sfx' items' used' st', vprintkRound color fmt len st = .ok (.on st') ∧
        Pending color fmt rest len extra out pre' sfx' items' used' st' ∧ sfx'.length < sfx.length := by
  have hpos := List.length_pos_of_ne_nil hne
  obtain ⟨lits, tail, rfl, htail⟩ := leading_chars items
  rcases htail with rfl | ⟨flag, spec, tail, rfl⟩
  · rcases h.parse.stop with rfl | hbad
    · obtain ⟨st', hround, h'⟩ := h.round_chars
      exact .inr ⟨_, _, _, _, st', hround, h', hpos⟩
    · obtain ⟨bad, hrest⟩ := hbad.1
      exact .inl ⟨by rw [hrest]; simp, h.round_malformed hbad hlt⟩
  · obtain ⟨used', st', hround, h'⟩ := h.round_conv hlt
    refine .inr ⟨_, _, _, used', st', hround, h', ?_⟩
    have hlen := h.len_eq
    have hlen' := h'.len_eq
    have hconv : 0 < (convText flag spec).length := by simp [convText]
    simp only [List.length_append] at hlen'
    rw [List.length_append]
    omega

/-- a length below 2^31 is itself as an `int` -/
theorem int_of_len (h : len < 2 ^ 31) : (BitVec.ofNat 32 len).toInt = len := by
  rw [BitVec.toInt_ofNat']
  norm_num at h ⊢
  rw [Int.bmod_eq_of_le] <;> omega

/-- **The loop**, by induction over its rounds. -/
theorem vprintkLoop_spec (h : Pending color fmt rest len extra out pre sfx items used st) (hlt : len < 2 ^ 31)
    (hfuel : sfx.length < fuel) :
    vprintkLoop color fmt len fuel st = .ok ⟨if rest = [] then len else -einval, extra, out⟩ := by
  induction fuel generalizing pre sfx items used st with
  | zero => omega
  | succ fuel ih =>
    have hlen := h.len_eq
    have hindex := h.index
    unfold vprintkLoop
    by_cases hne : sfx = []
    · subst hne
      obtain ⟨rfl, rfl⟩ := h.parse.unique Parse.nil
      obtain rfl : used = [] := h.args
      rw [List.length_nil] at hlen
      rw [if_neg (by omega), int_of_len hlt, if_pos rfl, h.params, ← h.text]
      simp [printed, inColor]
    · have hpos := List.length_pos_of_ne_nil hne
      rw [if_pos (by omega)]
      rcases h.round hne hlt with ⟨hrest, st', hround, hparams, hout⟩ | ⟨_, _, _, _, st', hround, h', hshort⟩
      · rw [hround, ok_bind, if_neg hrest, ← hparams, ← hout]
      · rw [hround, ok_bind]
        exact ih h' (by omega)

/-- a format that was taken apart -/
theorem vprintk_spec (logLevel : UInt8) {formattedArg : List UInt8} (hparse : Parse fmt items rest) (hnul : 0 ∉ fmt)
    (hlen : fmt.length < 2 ^ 31) (hmatch : Matches items used) (hbuf : formattedArg.length = 256) :
    vprintk logLevel (fmt ++ [0]) (used ++ extra) formattedArg =
      .ok ⟨if rest = [] then fmt.length else -einval, extra, inColor (logLevelToVgaColor logLevel) (printed items used)⟩ := by
  have hstrlen := @strlen_spec [] fmt [] 0 hnul rfl
  rw [List.nil_append] at hstrlen
  unfold vprintk
  rw [hstrlen, ok_bind]
  have hstart : Pending (logLevelToVgaColor logLevel) (fmt ++ [0]) rest fmt.length extra
      (inColor (logLevelToVgaColor logLevel) (printed items used)) [] fmt items used ⟨0, used ++ extra, formattedArg, []⟩ :=
    ⟨hparse, hnul, rfl, (Nat.zero_add _).symm, rfl, rfl, hmatch, hbuf, rfl⟩
  exact vprintkLoop_spec hstart hlen (Nat.lt_succ_self _)

/-- on the console, `vprintk` is one `tty_puts` of the text of the items -/
theorem vprintk_console (fb : Framebuffer) (t : Tty.St) (logLevel : UInt8) {formattedArg : List UInt8}
    (hparse : Parse fmt items rest) (hnul : 0 ∉ fmt) (hlen : fmt.length < 2 ^ 31) (hmatch : Matches items used)
    (hbuf : formattedArg.length = 256) :
    ∃ r, vprintk logLevel (fmt ++ [0]) (used ++ extra) formattedArg = .ok r ∧
      console fb t r.out = ttyPuts fb t (printed items used) (logLevelToVgaColor logLevel) :=
  ⟨_, vprintk_spec logLevel hparse hnul hlen hmatch hbuf, console_inColor fb t _ _⟩

/-- **What `vprintk` accepts.** A format is a sequence of items up to its end or its first malformed conversion, and the
first if and only if it is in the grammar. With arguments that match the items, `vprintk` ends without reading past the NUL
of the format or storing outside its buffer, returns the length of the format or `-EINVAL`, and has taken the arguments of
the items and no others. -/
theorem vprintk_accepts (logLevel : UInt8) {fmt formattedArg : List UInt8} (hnul : 0 ∉ fmt) (hlen : fmt.length < 2 ^ 31)
    (hbuf : formattedArg.length = 256) :
    (∃ items rest, Parse fmt items rest) ∧ ∀ items rest, Parse fmt items rest → (rest = [] ↔ InGrammar fmt) ∧
      ∀ used extra, Matches items used →
        vprintk logLevel (fmt ++ [0]) (used ++ extra) formattedArg =
          .ok ⟨if rest = [] then fmt.length else -einval, extra,
            inColor (logLevelToVgaColor logLevel) (printed items used)⟩ := by
  refine ⟨Parse.exists fmt, fun items rest hparse => ⟨hparse.inGrammar_iff, fun used extra hmatch => ?_⟩⟩
  exact vprintk_spec logLevel hparse hnul hlen hmatch hbuf

/-- `a%c%ll` takes one argument, prints `aA`, and is refused at the end -/
theorem vprintk_accepts_truncated :
    ¬ InGrammar [chr 'a', chr '%', chr 'c', chr '%', chr 'l', chr 'l'] ∧
      vprintk 0 [chr 'a', chr '%', chr 'c', chr '%', chr 'l', chr 'l', 0] [.word 65, .word 66] (List.replicate 256 7) =
        .ok ⟨-1, [.word 66], inColor (logLevelToVgaColor 0) [chr 'a', chr 'A']⟩ := by
  have hbad : Malformed [chr '%', chr 'l', chr 'l'] := ⟨⟨[chr 'l', chr 'l'], rfl⟩, by decide +kernel⟩
  have hparse : Parse [chr 'a', chr '%', chr 'c', chr '%', chr 'l', chr 'l'] [.char (chr 'a'), .conv none .c]
      [chr '%', chr 'l', chr 'l'] := by
    refine ⟨?_, rfl, .inr hbad⟩
    intro item hitem
    rcases List.mem_cons.1 hitem with rfl | hitem
    · show chr 'a' ≠ chr '%'
      decide
    · rw [List.mem_singleton.1 hitem]
      trivial
  have h := (@vprintk_accepts 0 _ (List.replicate 256 7) (by decide) (by decide) List.length_replicate).2 _ _ hparse
  exact ⟨fun hin => absurd (h.1.2 hin) (by decide), h.2 [.word 65] [.word 66] rfl⟩

end Whole

end Gubos.Text
