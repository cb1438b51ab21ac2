/-
The kernel's log, and its last message (`printk.c`, `panic.c`).

`printk` and its variants for each log level print through `vprintk`, and what it prints goes to the console character by
character. `panic` prints a banner, then the file and the line, then the message, in the colour of an error, and halts with
interrupts off: nothing is printed after it.

- `printk_spec`: a call returns the length of its format or `-EINVAL`, and on the console it is one string, its text;
- `printkAll_spec`: any sequence of calls is the sequence of their texts;
- `panic_spec`: a panic is one string;
- `panic_on_screen`: after `tty_init`, any calls and a panic the screen shows the last rows of the texts of the calls and of the
  panic.

A message carries that its arguments have the types its conversions ask for (`Message`). The code cannot check that: `printk` and
`panic` are variadic. A format may be malformed, and its text is then what comes before the first malformed conversion.
-/
import Gubos.Text.Grammar

namespace Gubos.Text

open Gubos.Core Gubos.Tty

/-! ## The code -/

/-- `PRINTK_DEBUG`, `PRINTK_INFO`, `PRINTK_WARN`, `PRINTK_ERROR` -/
def printkDebugLevel : UInt8 := 0
def printkInfoLevel : UInt8 := 1
def printkWarnLevel : UInt8 := 2
def printkErrorLevel : UInt8 := 3

section Code

variable (fb : Framebuffer)

/-- `printk`, with what it returns; `formattedArg` is what was in the buffer of `vprintk` -/
def printk (t : Tty.St) (logLevel : UInt8) (fmt : List UInt8) (params : List Arg) (formattedArg : List UInt8) :
    Except Err (ℤ × Tty.St) := do
  let r ← vprintk logLevel fmt params formattedArg
  .ok (r.ret, console fb t r.out)

/-- `printk_debug`, `printk_info`, `printk_warn`, `printk_err` -/
def printkDebug (t : Tty.St) := printk fb t printkDebugLevel
def printkInfo (t : Tty.St) := printk fb t printkInfoLevel
def printkWarn (t : Tty.St) := printk fb t printkWarnLevel
def printkErr (t : Tty.St) := printk fb t printkErrorLevel

/-- the first and the last line of `PANIC_MESSAGE` -/
def panicRule : List UInt8 := List.replicate 38 (chr '=') ++ [chr '\n']

/-- the peaks on the two sides of its middle line -/
def panicPeaks : List UInt8 := (List.replicate 7 [chr '/', chr '\\']).flatten

/-- `PANIC_MESSAGE` -/
def panicMessage : List UInt8 :=
  panicRule ++ (chr ' ' :: panicPeaks ++ [' ', 'p', 'a', 'n', 'i', 'c', ' '].map chr ++ panicPeaks ++ [chr '\n']) ++ panicRule

/-- `panic`, up to its `cli`; `file` and `fmt` have their NUL, and each call of `vprintk` has a buffer of its own. The last one is
not through `printk_err`, which would need the arguments one by one. -/
def panic (t : Tty.St) (file : List UInt8) (line : BitVec 32) (fmt : List UInt8) (params : List Arg)
    (formattedArgs : Fin 3 → List UInt8) : Except Err Tty.St := do
  let banner ← printkErr fb t (['%', 's'].map chr ++ [0]) [.str (panicMessage ++ [0])] (formattedArgs 0)
  let place ← printkErr fb banner.2 (['%', 's', ':', '%', 'd', ':', ' '].map chr ++ [0]) [.str file, .word line]
    (formattedArgs 1)
  let message ← printk fb place.2 printkErrorLevel fmt params (formattedArgs 2)
  .ok message.2

end Code

/-! ## One call -/

/-- a format and the arguments given with it; the conversions find arguments of the types they ask for -/
structure Message where
  fmt : List UInt8
  items : List Item
  rest : List UInt8
  used : List Arg
  extra : List Arg
  noNul : 0 ∉ fmt
  short : fmt.length < 2 ^ 31
  parse : Parse fmt items rest
  args : Matches items used

/-- what is printed -/
def Message.text (msg : Message) : List UInt8 := printed msg.items msg.used

/-- what `vprintk` returns -/
def Message.ret (msg : Message) : ℤ := if msg.rest = [] then msg.fmt.length else -einval

section One

variable {fb : Framebuffer} {t : Tty.St} {formattedArg : List UInt8}

/-- **One call.** It returns, and on the console it is one string. -/
theorem printk_spec (msg : Message) (logLevel : UInt8) (hbuf : formattedArg.length = 256) :
    printk fb t logLevel (msg.fmt ++ [0]) (msg.used ++ msg.extra) formattedArg =
      .ok (msg.ret, ttyPuts fb t msg.text (logLevelToVgaColor logLevel)) := by
  unfold printk
  rw [vprintk_spec logLevel msg.parse msg.noNul msg.short msg.args hbuf, ok_bind, console_inColor]
  rfl

theorem ttyPuts_append (fb : Framebuffer) (t : Tty.St) (a b : List UInt8) (color : UInt8) :
    ttyPuts fb t (a ++ b) color = ttyPuts fb (ttyPuts fb t a color) b color :=
  List.foldl_append

end One

/-! ## Any calls -/

/-- a call of `printk`, or of one of its variants, and what the buffer of `vprintk` holds -/
structure Call extends Message where
  logLevel : UInt8
  formattedArg : List UInt8
  buffer : formattedArg.length = 256

/-- what the call puts on the console -/
def Call.shown (call : Call) : List UInt8 × UInt8 := (call.text, logLevelToVgaColor call.logLevel)

/-- some calls, one after another -/
def printkAll (fb : Framebuffer) (t : Tty.St) (calls : List Call) : Except Err Tty.St :=
  calls.foldlM (fun t call => do
    let r ← printk fb t call.logLevel (call.fmt ++ [0]) (call.used ++ call.extra) call.formattedArg
    .ok r.2) t

/-- **Any calls**, by induction over them. -/
theorem printkAll_spec (fb : Framebuffer) (t : Tty.St) (calls : List Call) :
    printkAll fb t calls = .ok ((calls.map Call.shown).foldl (fun t call => ttyPuts fb t call.1 call.2) t) := by
  induction calls generalizing t with
  | nil => rfl
  | cons call calls ih =>
    have hcall := @printk_spec fb t _ call.toMessage call.logLevel call.buffer
    have hnext := ih (ttyPuts fb t call.shown.1 call.shown.2)
    unfold printkAll at hnext ⊢
    rw [List.foldlM_cons, hcall, ok_bind]
    exact hnext

/-- strings on the console after `tty_init`, by induction on their number -/
theorem shows_textOf (fb : Framebuffer) (m : ℕ → UInt16) (calls : List (List UInt8 × UInt8)) :
    Shows fb (calls.foldl (fun t call => ttyPuts fb t call.1 call.2) (ttyInit fb m)) (textOf fb.width calls) := by
  induction calls using List.reverseRecOn with
  | nil => exact init_shows fb m
  | append_singleton calls call ih =>
    unfold textOf at ih ⊢
    rw [List.foldl_append, List.foldl_append]
    exact puts_shows ih call.1 call.2

/-! ## A panic -/

/-- what a panic prints: the banner, the place, and the message -/
def panicText (file : List UInt8) (line : BitVec 32) (text : List UInt8) : List UInt8 :=
  panicMessage ++ (file ++ [chr ':'] ++ itoaText (line.signExtend 64) ++ [chr ':', chr ' ']) ++ text

/-- a string is printed up to its NUL -/
theorem takeWhile_noNul {text : List UInt8} (h : 0 ∉ text) : (text ++ [0]).takeWhile (· ≠ 0) = text := by
  have hall : ∀ c ∈ text, decide (c ≠ 0) = true := fun c hc => decide_eq_true fun h0 => h (h0 ▸ hc)
  rw [List.takeWhile_append_of_pos hall]
  exact List.append_nil text

theorem noNul_panicMessage : 0 ∉ panicMessage := by decide

/-- `"%s"` -/
def bannerMessage : Message where
  fmt := ['%', 's'].map chr
  items := [.conv none .s]
  rest := []
  used := [.str (panicMessage ++ [0])]
  extra := []
  noNul := by decide
  short := by decide
  parse := ⟨by simp [Item.Ok], rfl, .inl rfl⟩
  args := ⟨by simp, rfl⟩

theorem bannerMessage_text : bannerMessage.text = panicMessage := by
  have h : bannerMessage.text = (panicMessage ++ [0]).takeWhile (· ≠ 0) ++ [] := rfl
  rw [h, takeWhile_noNul noNul_panicMessage, List.append_nil]

/-- `"%s:%d: "` -/
def placeMessage (file : List UInt8) (line : BitVec 32) : Message where
  fmt := ['%', 's', ':', '%', 'd', ':', ' '].map chr
  items := [.conv none .s, .char (chr ':'), .conv none .d, .char (chr ':'), .char (chr ' ')]
  rest := []
  used := [.str (file ++ [0]), .word line]
  extra := []
  noNul := by decide
  short := by decide
  parse := by
    refine ⟨?_, rfl, .inl rfl⟩
    simp only [List.forall_mem_cons, Item.Ok, true_and]
    exact ⟨by decide, by decide, by decide, fun _ h => absurd h List.not_mem_nil⟩
  args := ⟨by simp, rfl⟩

theorem placeMessage_text {file : List UInt8} (hfile : 0 ∉ file) (line : BitVec 32) :
    (placeMessage file line).text = file ++ [chr ':'] ++ itoaText (line.signExtend 64) ++ [chr ':', chr ' '] := by
  have h : (placeMessage file line).text =
      (file ++ [0]).takeWhile (· ≠ 0) ++ (chr ':' :: (itoaText (line.signExtend 64) ++ [chr ':', chr ' '])) := rfl
  rw [h, takeWhile_noNul hfile]
  simp

/-- **A panic** puts its text on the console. -/
theorem panic_spec (fb : Framebuffer) (t : Tty.St) {file : List UInt8} (hfile : 0 ∉ file) (line : BitVec 32) (msg : Message)
    {formattedArgs : Fin 3 → List UInt8} (hbuf : ∀ i, (formattedArgs i).length = 256) :
    panic fb t (file ++ [0]) line (msg.fmt ++ [0]) (msg.used ++ msg.extra) formattedArgs =
      .ok (ttyPuts fb t (panicText file line msg.text) (logLevelToVgaColor printkErrorLevel)) := by
  have hbanner := @printk_spec fb t _ bannerMessage printkErrorLevel (hbuf 0)
  have hplace := fun t => @printk_spec fb t _ (placeMessage file line) printkErrorLevel (hbuf 1)
  have hmessage := fun t => @printk_spec fb t _ msg printkErrorLevel (hbuf 2)
  rw [bannerMessage_text] at hbanner
  rw [placeMessage_text hfile] at hplace
  have hfirst : printkErr fb t (['%', 's'].map chr ++ [0]) [.str (panicMessage ++ [0])] (formattedArgs 0) = _ := hbanner
  have hsecond : ∀ t, printkErr fb t (['%', 's', ':', '%', 'd', ':', ' '].map chr ++ [0]) [.str (file ++ [0]), .word line]
      (formattedArgs 1) = _ := hplace
  unfold panic
  rw [hfirst, ok_bind, hsecond, ok_bind, hmessage, ok_bind]
  dsimp only
  rw [panicText, ttyPuts_append fb t (panicMessage ++ _) msg.text, ttyPuts_append fb t panicMessage]

/-- **A panic on the screen.** After `tty_init`, any calls of `printk` and a panic, the screen is the window on the texts of
the calls and of the panic, each in the colour of its level. -/
theorem panic_on_screen (fb : Framebuffer) (m : ℕ → UInt16) (calls : List Call) (file : List UInt8) (hfile : 0 ∉ file)
    (line : BitVec 32) (msg : Message) (formattedArgs : Fin 3 → List UInt8) (hbuf : ∀ i, (formattedArgs i).length = 256) :
    ∃ t t', printkAll fb (ttyInit fb m) calls = .ok t ∧
      panic fb t (file ++ [0]) line (msg.fmt ++ [0]) (msg.used ++ msg.extra) formattedArgs = .ok t' ∧
      Shows fb t (textOf fb.width (calls.map Call.shown)) ∧
      Shows fb t' (textOf fb.width
        (calls.map Call.shown ++ [(panicText file line msg.text, logLevelToVgaColor printkErrorLevel)])) := by
  refine ⟨_, _, printkAll_spec fb _ calls, panic_spec fb _ hfile line msg hbuf, shows_textOf fb m _, ?_⟩
  have h := shows_textOf fb m (calls.map Call.shown ++ [(panicText file line msg.text, logLevelToVgaColor printkErrorLevel)])
  rw [List.foldl_append, List.foldl_cons, List.foldl_nil] at h
  exact h

/-- 80 columns and 25 rows -/
def textMode : Framebuffer := ⟨80, 25, by norm_num, by norm_num, by norm_num⟩

/-- `"a%c\n"`, of the letter `A` -/
def letterMessage : Message where
  fmt := ['a', '%', 'c', '\n'].map chr
  items := [.char (chr 'a'), .conv none .c, .char (chr '\n')]
  rest := []
  used := [.word 65]
  extra := []
  noNul := by decide
  short := by decide
  parse := by
    refine ⟨?_, rfl, .inl rfl⟩
    simp only [List.forall_mem_cons, Item.Ok, true_and]
    exact ⟨by decide, by decide, fun _ h => absurd h List.not_mem_nil⟩
  args := rfl

/-- `"%d!"`, of -2 -/
def numberMessage : Message where
  fmt := ['%', 'd', '!'].map chr
  items := [.conv none .d, .char (chr '!')]
  rest := []
  used := [.word (-2)]
  extra := []
  noNul := by decide
  short := by decide
  parse := by
    refine ⟨?_, rfl, .inl rfl⟩
    simp only [List.forall_mem_cons, Item.Ok, true_and]
    exact ⟨by decide, fun _ h => absurd h List.not_mem_nil⟩
  args := rfl

/-- a warning, and then a panic at line 195 of a file -/
theorem panic_on_screen_line195 :
    ∃ t t', printkAll textMode (ttyInit textMode fun _ => 0)
        [⟨letterMessage, printkWarnLevel, List.replicate 256 7, List.length_replicate⟩] = .ok t ∧
      panic textMode t (['v', 'm', 'm', '.', 'c'].map chr ++ [0]) 195 (['%', 'd', '!'].map chr ++ [0]) [.word (-2)]
        (fun _ => List.replicate 256 7) = .ok t' ∧
      Shows textMode t' (textOf 80 [(['a', 'A', '\n'].map chr, vgaEntryColor vgaColorBrown vgaColorLightBlue),
        (panicMessage ++ ['v', 'm', 'm', '.', 'c', ':', '1', '9', '5', ':', ' ', '-', '2', '!'].map chr,
          vgaEntryColor vgaColorRed vgaColorLightBlue)]) := by
  obtain ⟨t, t', hcalls, hpanic, -, hshows⟩ := panic_on_screen textMode (fun _ => 0)
    [⟨letterMessage, printkWarnLevel, List.replicate 256 7, List.length_replicate⟩] (['v', 'm', 'm', '.', 'c'].map chr)
    (by decide) 195 numberMessage (fun _ => List.replicate 256 7) fun _ => List.length_replicate
  have htext : panicText (['v', 'm', 'm', '.', 'c'].map chr) 195 numberMessage.text =
      panicMessage ++ ['v', 'm', 'm', '.', 'c', ':', '1', '9', '5', ':', ' ', '-', '2', '!'].map chr := by
    decide +kernel
  rw [htext] at hshows
  exact ⟨t, t', hcalls, hpanic, hshows⟩

end Gubos.Text
