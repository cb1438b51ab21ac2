/-
The kernel's printf (`printk.c`).

`vprintk` walks over the format with an index. A run of characters other than `%` is printed as it is; after a `%` the next
characters are looked at one by one, and the argument they ask for is taken from the list. A number is first written to a
buffer of 256 bytes, `formatted_arg`, that is not initialised.

The format is the list of its bytes with its NUL, and nothing after it: a read past the NUL stops the computation, and so does
a store outside `formatted_arg`. An argument is a word of 32 bits, one of 64 bits, or the bytes from a pointer on. What is
printed is the list of the characters given to `tty_puts`, each with the colour of the log level.

- `console_inColor`: what is printed in one colour is put on the console as one string;
- `print_spec`: `print` prints a run of bytes without a NUL as it is;
- `printString_spec`: a string is printed up to its NUL.
-/
import Gubos.Text.Itoa
import Gubos.Tty

namespace Gubos.Text

open Gubos.Core Gubos.Tty

/-! ## The code -/

/-- `EINVAL` -/
def einval : ℤ := 1

/-- `VGA_COLOR_BLACK`, `VGA_COLOR_RED`, `VGA_COLOR_BROWN` -/
def vgaColorBlack : UInt8 := 0
def vgaColorRed : UInt8 := 4
def vgaColorBrown : UInt8 := 6

/-- `log_level_to_vga_color`, of `PRINTK_DEBUG`, `PRINTK_INFO`, `PRINTK_WARN`, `PRINTK_ERROR` and the rest -/
def logLevelToVgaColor (logLevel : UInt8) : UInt8 :=
  if logLevel = 0 then vgaEntryColor vgaColorLightGrey vgaColorLightBlue
  else if logLevel = 1 then vgaEntryColor vgaColorBlack vgaColorLightBlue
  else if logLevel = 2 then vgaEntryColor vgaColorBrown vgaColorLightBlue
  else if logLevel = 3 then vgaEntryColor vgaColorRed vgaColorLightBlue
  else vgaEntryColor vgaColorBlack vgaColorLightBlue

/-- an argument: an `int` or `unsigned int`, a `long long` or `unsigned long long`, or a `char *` -/
inductive Arg where
  | word (w : BitVec 32)
  | dword (w : BitVec 64)
  | str (bytes : List UInt8)
deriving DecidableEq, Repr

/-- `va_arg`, of the three kinds -/
def vaWord : List Arg → Except Err (BitVec 32 × List Arg)
  | .word w :: params => .ok (w, params)
  | _ => .error (.fault .argument)

def vaDword : List Arg → Except Err (BitVec 64 × List Arg)
  | .dword w :: params => .ok (w, params)
  | _ => .error (.fault .argument)

def vaStr : List Arg → Except Err (List UInt8 × List Arg)
  | .str bytes :: params => .ok (bytes, params)
  | _ => .error (.fault .argument)

/-- the characters printed, with their colours -/
abbrev Out := List (UInt8 × UInt8)

/-- `putchar` -/
def putchar (color : UInt8) (out : Out) (c : UInt8) : Out := out ++ [(c, color)]

/-- the loop of `print`, which prints a NUL before it stops at it -/
def printLoop (color : UInt8) (data : List UInt8) (start length : ℕ) : ℕ → ℕ → Out → Except Err (ℕ × Out)
  | 0, _, _ => .error (.fault .diverges)
  | fuel + 1, i, out =>
    if i < length then do
      let c ← read data (start + i)
      if c ≠ 0 then printLoop color data start length fuel (i + 1) (putchar color out c)
      else .ok (i, putchar color out c)
    else .ok (i, out)

/-- `print`, of `length` bytes from `start` on -/
def print (color : UInt8) (data : List UInt8) (start length : ℕ) (out : Out) : Except Err (ℕ × Out) :=
  printLoop color data start length (length + 1) 0 out

/-- the variables of `vprintk` -/
structure St where
  i : ℕ
  params : List Arg
  formattedArg : List UInt8
  out : Out
deriving DecidableEq, Repr

/-- where a piece of the code goes: on, or to `return -EINVAL` -/
inductive Flow where
  | on (st : St)
  | einval (st : St)
deriving DecidableEq, Repr

/-- one piece of the code after another -/
def andThen (x : Except Err Flow) (f : St → Except Err Flow) : Except Err Flow := do
  match ← x with
  | .on st => f st
  | .einval st => .ok (.einval st)

/-- `PRINT_OR_RET` -/
def printOrRet (color : UInt8) (data : List UInt8) (start length : ℕ) (st : St) : Except Err Flow := do
  let (n, out) ← print color data start length st.out
  if n ≠ length then .ok (.einval { st with out }) else .ok (.on { st with out })

/-- `PRINT_OR_RET(color, s, strlen(s))` -/
def printString (color : UInt8) (s : List UInt8) (st : St) : Except Err Flow := do
  let length ← strlen s 0
  printOrRet color s 0 length st

/-- the same of `formatted_arg` -/
def printArg (color : UInt8) (st : St) : Except Err Flow := printString color st.formattedArg st

/-- `if (flags & PRINTK_FLAGS_HASH) PRINT_OR_RET(color, "0x", 2)` -/
def printHash (color : UInt8) (flags : Bool) (st : St) : Except Err Flow :=
  if flags then printOrRet color [chr '0', chr 'x', 0] 0 2 st else .ok (.on st)

/-- `if (fmt[i] == 'X') strupper(formatted_arg)` -/
def upperIf (fmt : List UInt8) (st : St) : Except Err Flow := do
  let c ← read fmt st.i
  if c = chr 'X' then do
    let formattedArg ← strupper st.formattedArg 0
    .ok (.on { st with formattedArg })
  else .ok (.on st)

/-- a 32-bit argument is converted to 64 bits and written to `formatted_arg` -/
def putWord (routine : BitVec 64 → List UInt8 → Except Err (List UInt8)) (convert : BitVec 32 → BitVec 64) (st : St) :
    Except Err Flow := do
  let (w, params) ← vaWord st.params
  let formattedArg ← routine (convert w) st.formattedArg
  .ok (.on { st with params, formattedArg })

/-- `itoa(va_arg(params, int), formatted_arg)` -/
def putInt (st : St) : Except Err Flow := putWord itoa (BitVec.signExtend 64) st

/-- `itoa(va_arg(params, unsigned int), formatted_arg)` -/
def putUnsigned (st : St) : Except Err Flow := putWord itoa (BitVec.setWidth 64) st

/-- `uitoa_hex(va_arg(params, unsigned int), formatted_arg)` -/
def putHex (st : St) : Except Err Flow := putWord uitoaHex (BitVec.setWidth 64) st

/-- a 64-bit argument is written to `formatted_arg` -/
def putLong (routine : BitVec 64 → List UInt8 → Except Err (List UInt8)) (st : St) : Except Err Flow := do
  let (w, params) ← vaDword st.params
  let formattedArg ← routine w st.formattedArg
  .ok (.on { st with params, formattedArg })

/-- `putchar(color, va_arg(params, int))` -/
def putCharArg (color : UInt8) (st : St) : Except Err Flow := do
  let (w, params) ← vaWord st.params
  .ok (.on { st with params, out := putchar color st.out (UInt8.ofBitVec (w.setWidth 8)) })

/-- `str_arg = va_arg(params, char *); PRINT_OR_RET(color, str_arg, strlen(str_arg))` -/
def printStrArg (color : UInt8) (st : St) : Except Err Flow := do
  let (strArg, params) ← vaStr st.params
  printString color strArg { st with params }

/-- the inner `switch`, after `ll`; `fmt[i]` is the first `l` -/
def longSpecifier (color : UInt8) (fmt : List UInt8) (flags : Bool) (st : St) : Except Err Flow := do
  let c ← read fmt (st.i + 2)
  let arg :=
    if c = chr 'd' ∨ c = chr 'i' then putLong itoa st
    else if c = chr 'u' then putLong uitoa st
    else if c = chr 'x' ∨ c = chr 'X' then
      andThen (andThen (printHash color flags st) (putLong uitoaHex)) (upperIf fmt)
    else .ok (.einval st)
  andThen (andThen arg (printArg color)) fun st => .ok (.on { st with i := st.i + 2 })

/-- `i < len - 2 && fmt[i + 1] == 'l'` -/
def isLong (fmt : List UInt8) (len i : ℕ) : Except Err Bool :=
  if i < u32 (len + (2 ^ 32 - 2)) then do
    let c ← read fmt (i + 1)
    .ok (c = chr 'l')
  else .ok false

/-- the `switch` over the specifier at `fmt[i]` -/
def specifier (color : UInt8) (fmt : List UInt8) (len : ℕ) (flags : Bool) (st : St) : Except Err Flow := do
  let c ← read fmt st.i
  if c = chr '%' then printOrRet color fmt st.i 1 st
  else if c = chr 'd' ∨ c = chr 'i' then andThen (putInt st) (printArg color)
  else if c = chr 'u' then andThen (putUnsigned st) (printArg color)
  else if c = chr 'x' ∨ c = chr 'X' then
    andThen (andThen (andThen (printHash color flags st) putHex) (upperIf fmt)) (printArg color)
  else if c = chr 'l' then do
    let long ← isLong fmt len st.i
    if long then longSpecifier color fmt flags st else .ok (.einval st)
  else if c = chr 'c' then putCharArg color st
  else if c = chr 's' then printStrArg color st
  else .ok (.einval st)

/-- the flags that are skipped -/
def isFlag (c : UInt8) : Bool := c = chr '#' ∨ c = chr '-' ∨ c = chr '+' ∨ c = chr ' ' ∨ c = chr '0'

/-- from the `%` at `fmt[i]` to the end of the round -/
def conversion (color : UInt8) (fmt : List UInt8) (len : ℕ) (st : St) : Except Err Flow :=
  if st.i = len then .ok (.einval st)
  else do
    let c ← read fmt (st.i + 1)
    let flags := c = chr '#'
    let i := if isFlag c then st.i + 1 else st.i
    if i = len then .ok (.einval { st with i })
    else andThen (specifier color fmt len flags { st with i := i + 1 }) fun st => .ok (.on { st with i := st.i + 1 })

/-- `while (i < len && fmt[i] != '%') ++i` -/
def skipLiteral (fmt : List UInt8) (len : ℕ) : ℕ → ℕ → Except Err ℕ
  | 0, _ => .error (.fault .diverges)
  | fuel + 1, i =>
    if i < len then do
      let c ← read fmt i
      if c ≠ chr '%' then skipLiteral fmt len fuel (i + 1) else .ok i
    else .ok i

/-- `if (i > start) print(color, fmt + start, i - start)`; how much was printed is not looked at -/
def printLiteral (color : UInt8) (fmt : List UInt8) (start i : ℕ) (out : Out) : Except Err Out :=
  if i > start then do
    let (_, out) ← print color fmt start (i - start) out
    .ok out
  else .ok out

/-- the body of the loop of `vprintk` -/
def vprintkRound (color : UInt8) (fmt : List UInt8) (len : ℕ) (st : St) : Except Err Flow := do
  let i ← skipLiteral fmt len (len + 1) st.i
  let out ← printLiteral color fmt st.i i st.out
  let c ← read fmt i
  if c = chr '%' then conversion color fmt len { st with i, out } else .ok (.on { st with i, out })

/-- what `vprintk` returned, the arguments it has not taken, and what it printed -/
structure Result where
  ret : ℤ
  params : List Arg
  out : Out
deriving DecidableEq, Repr

/-- the loop of `vprintk`; `len` is returned as an `int` -/
def vprintkLoop (color : UInt8) (fmt : List UInt8) (len : ℕ) : ℕ → St → Except Err Result
  | 0, _ => .error (.fault .diverges)
  | fuel + 1, st =>
    if st.i < len then do
      match ← vprintkRound color fmt len st with
      | .on st => vprintkLoop color fmt len fuel st
      | .einval st => .ok ⟨-einval, st.params, st.out⟩
    else .ok ⟨(BitVec.ofNat 32 len).toInt, st.params, st.out⟩

/-- `vprintk`; `formattedArg` is what was in the buffer -/
def vprintk (logLevel : UInt8) (fmt : List UInt8) (params : List Arg) (formattedArg : List UInt8) : Except Err Result := do
  let len ← strlen fmt 0
  vprintkLoop (logLevelToVgaColor logLevel) fmt len (len + 1) ⟨0, params, formattedArg, []⟩

/-! ## Printing -/

/-- a text in one colour -/
def inColor (color : UInt8) (text : List UInt8) : Out := text.map fun c => (c, color)

/-- what `putchar` does on the console: one `tty_puts` for each character -/
def console (fb : Framebuffer) (t : Tty.St) (out : Out) : Tty.St := out.foldl (fun t c => ttyPuts fb t [c.1] c.2) t

/-- a text that is printed character by character is on the console as if it had been put there at once -/
theorem console_inColor (fb : Framebuffer) (t : Tty.St) (color : UInt8) (text : List UInt8) :
    console fb t (inColor color text) = ttyPuts fb t text color := by
  unfold console inColor ttyPuts
  rw [List.foldl_map]
  rfl

theorem printLoop_spec {color : UInt8} {pre text post : List UInt8} {start length fuel i : ℕ} {out : Out}
    (htext : 0 ∉ text) (hi : start + i = pre.length) (hlen : length = i + text.length) (hfuel : text.length < fuel) :
    printLoop color (pre ++ text ++ post) start length fuel i out = .ok (length, out ++ inColor color text) := by
  induction text generalizing pre fuel i out with
  | nil =>
    obtain ⟨fuel, rfl⟩ : ∃ f, fuel = f + 1 := ⟨fuel - 1, by omega⟩
    rw [List.length_nil, Nat.add_zero] at hlen
    rw [printLoop, if_neg (by omega), hlen]
    simp [inColor]
  | cons c text ih =>
    obtain ⟨fuel, rfl⟩ : ∃ f, fuel = f + 1 := ⟨fuel - 1, by omega⟩
    have hc : c ≠ 0 := fun h => htext (h ▸ List.mem_cons_self)
    have hrest : 0 ∉ text := fun h => htext (List.mem_cons_of_mem c h)
    have happ : pre ++ c :: text ++ post = pre ++ [c] ++ text ++ post := by simp
    rw [List.length_cons] at hlen hfuel
    rw [printLoop, if_pos (by omega), read_at (List.append_assoc _ _ _) hi, ok_bind, if_pos hc, happ,
      ih hrest (by rw [List.length_append, List.length_singleton]; omega) (by omega) (by omega)]
    simp [inColor, putchar]

theorem print_spec {color : UInt8} {pre text post : List UInt8} {start : ℕ} {out : Out} (htext : 0 ∉ text)
    (hstart : start = pre.length) :
    print color (pre ++ text ++ post) start text.length out = .ok (text.length, out ++ inColor color text) :=
  printLoop_spec htext hstart (Nat.zero_add _).symm (Nat.lt_succ_self _)

theorem printOrRet_spec {color : UInt8} {pre text post : List UInt8} {start : ℕ} {st : St} (htext : 0 ∉ text)
    (hstart : start = pre.length) :
    printOrRet color (pre ++ text ++ post) start text.length st =
      .ok (.on { st with out := st.out ++ inColor color text }) := by
  unfold printOrRet
  rw [print_spec htext hstart, ok_bind]
  exact if_neg (not_not.2 rfl)

/-- a string is printed up to its NUL -/
theorem printString_spec {color : UInt8} {text post : List UInt8} {st : St} (htext : 0 ∉ text) :
    printString color (text ++ 0 :: post) st = .ok (.on { st with out := st.out ++ inColor color text }) := by
  have hlen := @strlen_spec [] text post 0 htext rfl
  rw [List.nil_append] at hlen
  unfold printString
  rw [hlen, ok_bind]
  exact @printOrRet_spec color [] text (0 :: post) 0 st htext rfl

@[simp] theorem andThen_on (st : St) (f : St → Except Err Flow) : andThen (.ok (.on st)) f = f st := rfl

@[simp] theorem andThen_einval (st : St) (f : St → Except Err Flow) : andThen (.ok (.einval st)) f = .ok (.einval st) := rfl

end Gubos.Text
