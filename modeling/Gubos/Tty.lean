/-
The text console (`arch/i386/tty.c`, `vga.c`).

A character is written at the cursor; at the end of a row, and at a newline, the cursor goes to the next row, and on the last
row the whole screen is moved up by one instead, cell by cell.

- `scroll_cells`: what moving the screen does;
- `puts_shows`: a character, and so a string, keeps the screen the window on the text written;
- `console_refines`: after `tty_init` and any strings the screen shows the last rows of the text, the cursor is at its end,
  and no cell outside the framebuffer was written.

`vga_memory` is the array of 16-bit cells; `reach` is one more than the largest index that was written, and is not in the
source. Indices are 32-bit.

Premise: the framebuffer is not empty and lies in the 32-bit address space (`Framebuffer`).
-/
import Gubos.Core.Bytes
import Gubos.Core.Loop
import Gubos.Core.Screen

namespace Gubos.Tty

open Gubos.Core

/-! ## The code -/

/-- `vga_entry_color`, `vga_entry` -/
def vgaEntryColor (fg bg : UInt8) : UInt8 := fg ||| bg <<< 4
def vgaEntry (c color : UInt8) : UInt16 := c.toUInt16 ||| color.toUInt16 <<< 8

/-- `VGA_COLOR_LIGHT_GREY`, `VGA_COLOR_LIGHT_BLUE` -/
def vgaColorLightGrey : UInt8 := 7
def vgaColorLightBlue : UInt8 := 9

/-- `default_tty_color`: grey text on a blue background -/
def defaultTtyColor : UInt8 := vgaEntryColor vgaColorLightGrey vgaColorLightBlue

/-- `framebuf_width` and `framebuf_height`, in cells of two bytes -/
structure Framebuffer where
  width : ℕ
  height : ℕ
  width_pos : 1 ≤ width
  height_pos : 1 ≤ height
  fits : 2 * (width * height) ≤ 2 ^ 32
deriving DecidableEq, Repr

structure VgaMemory where
  cells : ℕ → UInt16
  reach : ℕ

def VgaMemory.store (m : VgaMemory) (index : ℕ) (entry : UInt16) : VgaMemory :=
  ⟨Function.update m.cells index entry, max m.reach (index + 1)⟩

structure St where
  row : ℕ
  column : ℕ
  memory : VgaMemory

section Code

variable (fb : Framebuffer)

/-- `y * framebuf_width + x` -/
def indexOf (y x : ℕ) : ℕ := u32 (y * fb.width + x)

/-- a row of blanks -/
def clearRow (m : VgaMemory) (y : ℕ) : VgaMemory :=
  (List.range fb.width).foldl (fun m x => m.store (indexOf fb y x) (vgaEntry 32 defaultTtyColor)) m

/-- the inner loop of `tty_adjust_row`: row `y` becomes the one below it -/
def copyRow (m : VgaMemory) (y : ℕ) : VgaMemory :=
  (List.range fb.width).foldl (fun m x => m.store (indexOf fb y x) (m.cells (indexOf fb (y + 1) x))) m

/-- `tty_adjust_row` -/
def ttyAdjustRow (t : St) : St :=
  let ttyRow := u32 (t.row + 1)
  if ttyRow = fb.height then
    let m := (List.range (fb.height - 1)).foldl (copyRow fb) t.memory
    let m := clearRow fb m (fb.height - 1)
    { t with row := fb.height - 1, memory := m }
  else { t with row := ttyRow }

/-- `tty_adjust_indices` -/
def ttyAdjustIndices (t : St) : St :=
  let ttyColumn := u32 (t.column + 1)
  if ttyColumn = fb.width then ttyAdjustRow fb { t with column := 0 } else { t with column := ttyColumn }

/-- `tty_putchar` -/
def ttyPutchar (t : St) (c ttyColor : UInt8) : St :=
  ttyAdjustIndices fb { t with memory := t.memory.store (indexOf fb t.row t.column) (vgaEntry c ttyColor) }

/-- `tty_init`, before which nothing was written to the framebuffer `m` -/
def ttyInit (m : ℕ → UInt16) : St := ⟨0, 0, (List.range fb.height).foldl (clearRow fb) ⟨m, 0⟩⟩

/-- the body of the loop of `tty_puts` -/
def ttyPutsChar (ttyColor : UInt8) (t : St) (c : UInt8) : St :=
  if c = 10 then { ttyAdjustRow fb t with column := 0 } else ttyPutchar fb t c ttyColor

/-- `tty_puts` -/
def ttyPuts (t : St) (str : List UInt8) (ttyColor : UInt8) : St := str.foldl (ttyPutsChar fb ttyColor) t

end Code

/-! ## Cells -/

/-- the character and the colour of a cell -/
def cellOf (entry : UInt16) : UInt8 × UInt8 := (entry.toUInt8, (entry >>> 8).toUInt8)

theorem cellOf_vgaEntry (c color : UInt8) : cellOf (vgaEntry c color) = (c, color) := by
  have hlow : (vgaEntry c color).toUInt8 = c := by
    unfold vgaEntry
    apply UInt8.eq_of_toBitVec_eq
    apply BitVec.eq_of_getLsbD_eq
    intro i hi
    simp [hi]
  have hhigh : (vgaEntry c color >>> 8).toUInt8 = color := by
    unfold vgaEntry
    apply UInt8.eq_of_toBitVec_eq
    apply BitVec.eq_of_getLsbD_eq
    intro i hi
    simp only [UInt16.toBitVec_toUInt8]
    interval_cases i <;> simp
  unfold cellOf
  rw [hlow, hhigh]

/-- a space in the default colour -/
def blankCell : UInt8 × UInt8 := (32, defaultTtyColor)

section Loops

variable {fb : Framebuffer} {m : VgaMemory} {y x : ℕ}

theorem row_end (hy : y < fb.height) : y * fb.width + fb.width ≤ fb.width * fb.height := by
  calc y * fb.width + fb.width = (y + 1) * fb.width := (Nat.succ_mul y fb.width).symm
    _ ≤ fb.height * fb.width := Nat.mul_le_mul_right _ hy
    _ = fb.width * fb.height := Nat.mul_comm _ _

/-- an index inside the framebuffer does not wrap -/
theorem indexOf_eq (hy : y < fb.height) (hx : x < fb.width) : indexOf fb y x = y * fb.width + x := by
  have h1 := row_end hy
  have h2 := fb.fits
  exact u32_of_lt (by omega)

/-- an index names one cell -/
theorem index_inj {y' x' : ℕ} (hx : x < fb.width) (hx' : x' < fb.width) (h : y * fb.width + x = y' * fb.width + x') :
    y = y' ∧ x = x' := by
  have hrow : ∀ a b, b < fb.width → (a * fb.width + b) / fb.width = a := by
    intro a b hb
    rw [Nat.mul_comm, Nat.mul_add_div (Nat.zero_lt_of_lt hx), Nat.div_eq_of_lt hb, Nat.add_zero]
  have hy : y = y' := by rw [← hrow y x hx, h, hrow y' x' hx']
  subst hy
  exact ⟨rfl, Nat.add_left_cancel h⟩

/-- **A loop over one row.** Cell `i` of the row gets `v i`, if that is what the loop reads while it has changed cells of the
row only. -/
theorem row_loop (hy : y < fb.height) {val : VgaMemory → ℕ → UInt16} {v : ℕ → UInt16}
    (hval : ∀ m', (∀ i, ¬ (y * fb.width ≤ i ∧ i < y * fb.width + fb.width) → m'.cells i = m.cells i) →
      ∀ x < fb.width, val m' x = v (y * fb.width + x)) :
    (∀ i, ((List.range fb.width).foldl (fun m x => m.store (indexOf fb y x) (val m x)) m).cells i =
      if y * fb.width ≤ i ∧ i < y * fb.width + fb.width then v i else m.cells i) ∧
    (m.reach ≤ fb.width * fb.height →
      ((List.range fb.width).foldl (fun m x => m.store (indexOf fb y x) (val m x)) m).reach ≤ fb.width * fb.height) := by
  have hend := row_end hy
  refine @foldl_range_inv _ (fun m x => VgaMemory.store m (indexOf fb y x) (val m x)) fb.width (fun n m' =>
    (∀ i, m'.cells i = if y * fb.width ≤ i ∧ i < y * fb.width + n then v i else m.cells i) ∧
      (m.reach ≤ fb.width * fb.height → m'.reach ≤ fb.width * fb.height)) m ?_ ?_
  · refine ⟨fun i => ?_, fun h => h⟩
    rw [if_neg (by omega)]
  · intro x hx m' ⟨hcells, hreach⟩
    have hv := hval m' (fun i hi => by rw [hcells i, if_neg (by omega)]) x hx
    rw [indexOf_eq hy hx, hv]
    refine ⟨fun i => ?_, fun h => ?_⟩
    · unfold VgaMemory.store
      dsimp only
      by_cases hi : i = y * fb.width + x
      · rw [hi, Function.update_self, if_pos (by omega)]
      · rw [Function.update_of_ne hi, hcells i]
        have hiff : (y * fb.width ≤ i ∧ i < y * fb.width + (x + 1)) ↔ (y * fb.width ≤ i ∧ i < y * fb.width + x) := by omega
        simp only [hiff]
    · have := hreach h
      unfold VgaMemory.store
      dsimp only
      omega

theorem clearRow_cells (hy : y < fb.height) (i : ℕ) : (clearRow fb m y).cells i =
    if y * fb.width ≤ i ∧ i < y * fb.width + fb.width then vgaEntry 32 defaultTtyColor else m.cells i :=
  (row_loop hy (v := fun _ => vgaEntry 32 defaultTtyColor) fun _ _ _ _ => rfl).1 i

theorem clearRow_reach (hy : y < fb.height) (hm : m.reach ≤ fb.width * fb.height) :
    (clearRow fb m y).reach ≤ fb.width * fb.height :=
  (row_loop hy (v := fun _ => vgaEntry 32 defaultTtyColor) fun _ _ _ _ => rfl).2 hm

/-- the row below is not changed while it is copied -/
theorem copyRow_reads (hy : y + 1 < fb.height) (m' : VgaMemory)
    (hsame : ∀ i, ¬ (y * fb.width ≤ i ∧ i < y * fb.width + fb.width) → m'.cells i = m.cells i) (x : ℕ) (hx : x < fb.width) :
    m'.cells (indexOf fb (y + 1) x) = m.cells (y * fb.width + x + fb.width) := by
  have he : (y + 1) * fb.width + x = y * fb.width + x + fb.width := by
    rw [Nat.succ_mul]
    omega
  rw [indexOf_eq hy hx, he]
  exact hsame _ (by omega)

theorem copyRow_cells (hy : y + 1 < fb.height) (i : ℕ) : (copyRow fb m y).cells i =
    if y * fb.width ≤ i ∧ i < y * fb.width + fb.width then m.cells (i + fb.width) else m.cells i :=
  (row_loop (Nat.lt_of_succ_lt hy) (v := fun i => m.cells (i + fb.width)) (copyRow_reads hy)).1 i

theorem copyRow_reach (hy : y + 1 < fb.height) (hm : m.reach ≤ fb.width * fb.height) :
    (copyRow fb m y).reach ≤ fb.width * fb.height :=
  (row_loop (Nat.lt_of_succ_lt hy) (v := fun i => m.cells (i + fb.width)) (copyRow_reads hy)).2 hm

/-- **Scrolling.** Every row but the last becomes the row below it. -/
theorem scroll_cells (m : VgaMemory) :
    (∀ i, ((List.range (fb.height - 1)).foldl (copyRow fb) m).cells i =
      if i < (fb.height - 1) * fb.width then m.cells (i + fb.width) else m.cells i) ∧
    (m.reach ≤ fb.width * fb.height →
      ((List.range (fb.height - 1)).foldl (copyRow fb) m).reach ≤ fb.width * fb.height) := by
  refine @foldl_range_inv _ (copyRow fb) (fb.height - 1) (fun n m' =>
    (∀ i, m'.cells i = if i < n * fb.width then m.cells (i + fb.width) else m.cells i) ∧
      (m.reach ≤ fb.width * fb.height → m'.reach ≤ fb.width * fb.height)) m ?_ ?_
  · refine ⟨fun i => ?_, fun h => h⟩
    rw [Nat.zero_mul, if_neg (Nat.not_lt_zero i)]
  · intro y hy m' ⟨hcells, hreach⟩
    have hy' : y + 1 < fb.height := by omega
    refine ⟨fun i => ?_, fun h => copyRow_reach hy' (hreach h)⟩
    rw [copyRow_cells hy', Nat.succ_mul, hcells i, hcells (i + fb.width)]
    generalize y * fb.width = a
    have := fb.width_pos
    by_cases h1 : a ≤ i ∧ i < a + fb.width
    · rw [if_pos h1, if_neg (by omega), if_pos h1.2]
    · rw [if_neg h1]
      have hiff : i < a ↔ i < a + fb.width := by omega
      simp only [hiff]

/-- the loops of `tty_init` -/
theorem init_cells (m : ℕ → UInt16) :
    (∀ i < fb.height * fb.width, (ttyInit fb m).memory.cells i = vgaEntry 32 defaultTtyColor) ∧
      (ttyInit fb m).memory.reach ≤ fb.width * fb.height := by
  refine @foldl_range_inv _ (clearRow fb) fb.height (fun n m' =>
    (∀ i < n * fb.width, m'.cells i = vgaEntry 32 defaultTtyColor) ∧ m'.reach ≤ fb.width * fb.height) ⟨m, 0⟩ ?_ ?_
  · refine ⟨fun i hi => ?_, Nat.zero_le _⟩
    rw [Nat.zero_mul] at hi
    exact absurd hi (Nat.not_lt_zero i)
  · intro y hy m' ⟨hcells, hreach⟩
    refine ⟨fun i hi => ?_, clearRow_reach hy hreach⟩
    rw [Nat.succ_mul] at hi
    rw [clearRow_cells hy]
    split_ifs with h
    · rfl
    · exact hcells i (by omega)

end Loops

/-! ## The screen shows the text -/

/-- a line break in the text, or a character -/
def writeChar (w : ℕ) (text : Text (UInt8 × UInt8)) (c : UInt8 × UInt8) : Text (UInt8 × UInt8) :=
  if c.1 = 10 then text.newRow else text.put w c

/-- the text of some strings, each in its colour -/
def textOf (w : ℕ) (calls : List (List UInt8 × UInt8)) : Text (UInt8 × UInt8) :=
  calls.foldl (fun text call => (call.1.map fun c => (c, call.2)).foldl (writeChar w) text) .empty

/-- the cursor is on the last row shown, and every cell is that of the text, or blank -/
structure ShowsRows (fb : Framebuffer) (t : St) (rows : List (List (UInt8 × UInt8))) : Prop where
  row : t.row + 1 = min rows.length fb.height
  cells : ∀ y < fb.height, ∀ x < fb.width,
    cellOf (t.memory.cells (y * fb.width + x)) = (window fb.height rows y x).getD blankCell
  reach : t.memory.reach ≤ fb.width * fb.height

/-- and the cursor is behind the last character -/
structure Shows (fb : Framebuffer) (t : St) (text : Text (UInt8 × UInt8)) : Prop extends ShowsRows fb t text.rows where
  column : t.column = text.current.length
  room : text.current.length < fb.width

section Steps

variable {fb : Framebuffer} {t : St} {rows : List (List (UInt8 × UInt8))} {text : Text (UInt8 × UInt8)}

/-- `tty_adjust_row` starts a new row -/
theorem adjustRow_shows (h : ShowsRows fb t rows) : ShowsRows fb (ttyAdjustRow fb t) (rows ++ [[]]) := by
  have hrow := h.row
  have hpos := fb.height_pos
  have hwpos := fb.width_pos
  have hh : fb.height < 2 ^ 32 := by
    have := fb.fits
    have : fb.height ≤ fb.width * fb.height := Nat.le_mul_of_pos_left _ hwpos
    omega
  have hlen : (rows ++ [[]]).length = rows.length + 1 := List.length_append
  unfold ttyAdjustRow
  dsimp only
  rw [u32_of_lt (by omega)]
  by_cases hlast : t.row + 1 = fb.height
  · -- the screen is full
    rw [if_pos hlast]
    have hge : fb.height ≤ rows.length := by omega
    obtain ⟨hscroll, hreach⟩ := @scroll_cells fb t.memory
    refine ⟨?_, fun y hy x hx => ?_, clearRow_reach (by omega) (hreach h.reach)⟩
    · rw [hlen]
      dsimp only
      omega
    · dsimp only
      rw [clearRow_cells (by omega), hscroll]
      obtain ⟨k, hk⟩ : ∃ k, fb.height = k + 1 := ⟨fb.height - 1, by omega⟩
      have hsub : fb.height - 1 = k := by omega
      rw [hsub]
      rcases Nat.lt_or_ge y k with hyk | hyk
      · -- a row that has one below it
        have hmul : (y + 1) * fb.width ≤ k * fb.width := Nat.mul_le_mul_right _ hyk
        have he : (y + 1) * fb.width + x = y * fb.width + x + fb.width := by
          rw [Nat.succ_mul]
          omega
        rw [Nat.succ_mul] at hmul
        rw [if_neg (by omega), if_pos (by omega), window_newRow_scroll hge (by omega), ← h.cells (y + 1) (by omega) x hx, he]
      · obtain rfl : y = k := by omega
        rw [if_pos (by omega), window_newRow_last hge (by omega), cellOf_vgaEntry]
        rfl
  · rw [if_neg hlast]
    have hlt : rows.length < fb.height := by omega
    refine ⟨?_, fun y hy x hx => ?_, h.reach⟩
    · rw [hlen]
      dsimp only
      omega
    · rw [window_newRow hlt]
      exact h.cells y hy x hx

theorem adjustRow_column (t : St) : (ttyAdjustRow fb t).column = t.column := by
  unfold ttyAdjustRow
  dsimp only
  split_ifs
  · rfl
  · rfl

/-- where the cursor is in its row does not show -/
theorem ShowsRows.setColumn (h : ShowsRows fb t rows) (column : ℕ) : ShowsRows fb { t with column := column } rows :=
  ⟨h.row, h.cells, h.reach⟩

/-- a character is stored behind the last one -/
theorem store_shows (h : Shows fb t text) (c color : UInt8) :
    ShowsRows fb { t with memory := t.memory.store (indexOf fb t.row t.column) (vgaEntry c color) }
      (text.finished ++ [text.current ++ [(c, color)]]) := by
  have hrow := h.row
  have hroom := h.room
  rw [Text.length_rows] at hrow
  have hy : t.row < fb.height := by omega
  have hend := row_end hy
  rw [h.column, indexOf_eq hy hroom]
  refine ⟨?_, fun y hy' x hx => ?_, ?_⟩
  · rw [List.length_append, List.length_singleton]
    exact hrow
  · unfold VgaMemory.store
    dsimp only
    by_cases he : y = t.row ∧ x = text.current.length
    · rw [he.1, he.2, Function.update_self, cellOf_vgaEntry, window_put_self (c, color) hrow]
      rfl
    · have hne : y * fb.width + x ≠ t.row * fb.width + text.current.length := by
        intro heq
        exact he (index_inj hx hroom heq)
      have hput : y + 1 ≠ min (text.finished.length + 1) fb.height ∨ x ≠ text.current.length := by
        rw [← hrow]
        omega
      rw [Function.update_of_ne hne, window_put_ne (c, color) hput hy']
      exact h.cells y hy' x hx
  · have := h.reach
    unfold VgaMemory.store
    dsimp only
    omega

/-- **One character.** -/
theorem putsChar_shows (h : Shows fb t text) (color c : UInt8) :
    Shows fb (ttyPutsChar fb color t c) (writeChar fb.width text (c, color)) := by
  have hwpos := fb.width_pos
  have hw : fb.width < 2 ^ 32 := by
    have := fb.fits
    have : fb.width ≤ fb.width * fb.height := Nat.le_mul_of_pos_right _ fb.height_pos
    omega
  have hroom := h.room
  unfold ttyPutsChar writeChar
  dsimp only
  by_cases hnl : c = 10
  · rw [if_pos hnl, if_pos hnl]
    have hrows := adjustRow_shows h.toShowsRows
    exact { row := hrows.row, cells := hrows.cells, reach := hrows.reach, column := rfl, room := hwpos }
  · rw [if_neg hnl, if_neg hnl]
    have hstore := store_shows h c color
    unfold ttyPutchar ttyAdjustIndices Text.put
    dsimp only
    have hcol : u32 (t.column + 1) = text.current.length + 1 := by
      rw [h.column]
      exact u32_of_lt (by omega)
    rw [hcol, List.length_append, List.length_singleton]
    by_cases hfull : text.current.length + 1 = fb.width
    · rw [if_pos hfull, if_pos hfull]
      have hrows := adjustRow_shows (hstore.setColumn 0)
      exact { row := hrows.row, cells := hrows.cells, reach := hrows.reach, column := adjustRow_column _, room := hwpos }
    · rw [if_neg hfull, if_neg hfull]
      have hrows := hstore.setColumn (text.current.length + 1)
      refine { row := hrows.row, cells := hrows.cells, reach := hrows.reach, column := ?_, room := ?_ }
      · dsimp only
        rw [List.length_append, List.length_singleton]
      · dsimp only
        rw [List.length_append, List.length_singleton]
        omega

/-- **A string.** -/
theorem puts_shows (h : Shows fb t text) (str : List UInt8) (color : UInt8) :
    Shows fb (ttyPuts fb t str color) ((str.map fun c => (c, color)).foldl (writeChar fb.width) text) := by
  unfold ttyPuts
  induction str generalizing t text with
  | nil => exact h
  | cons c str ih => exact ih (putsChar_shows h color c)

theorem init_shows (fb : Framebuffer) (m : ℕ → UInt16) : Shows fb (ttyInit fb m) .empty := by
  have hpos := fb.height_pos
  obtain ⟨hcells, hreach⟩ := @init_cells fb m
  refine { row := ?_, cells := fun y hy x hx => ?_, reach := hreach, column := rfl, room := fb.width_pos }
  · exact (Nat.min_eq_left hpos).symm
  · have hend := row_end hy
    rw [Nat.mul_comm fb.width] at hend
    rw [hcells _ (by omega), cellOf_vgaEntry]
    -- the text has one row, and it is empty
    have hnone : window fb.height (Text.empty : Text (UInt8 × UInt8)).rows y x = none := by
      have h1 : (Text.empty : Text (UInt8 × UInt8)).rows.length - fb.height = 0 := by
        rw [Text.length_rows]
        exact Nat.sub_eq_zero_of_le hpos
      rw [window_eq, h1, Nat.zero_add]
      cases y with
      | zero => rfl
      | succ y => rfl
    rw [hnone]
    rfl

end Steps

/-- **Console refinement.** After `tty_init` and any strings in any colours, let `R` be the rows of the text written: the screen
shows the last `min |R| height` of them from the top, each cell with its character and colour and every other cell blank in
the default colour; the cursor is on the last of them, behind its last character; and no cell outside the framebuffer was
written. -/
theorem console_refines (fb : Framebuffer) (m : ℕ → UInt16) (calls : List (List UInt8 × UInt8)) :
    let t := calls.foldl (fun t call => ttyPuts fb t call.1 call.2) (ttyInit fb m)
    let R := (textOf fb.width calls).rows
    (∀ y < fb.height, ∀ x < fb.width,
      cellOf (t.memory.cells (y * fb.width + x)) =
        ((R.drop (R.length - min R.length fb.height))[y]?.bind fun row => row[x]?).getD blankCell) ∧
    t.row = min R.length fb.height - 1 ∧ t.column = (textOf fb.width calls).current.length ∧
    t.memory.reach ≤ fb.width * fb.height := by
  intro t R
  have hshows : Shows fb t (textOf fb.width calls) := by
    unfold t textOf
    generalize hinit : ttyInit fb m = t₀
    have h := init_shows fb m
    rw [hinit] at h
    generalize Text.empty = text at h
    clear hinit
    induction calls generalizing t₀ text with
    | nil => exact h
    | cons call calls ih => exact ih _ _ (puts_shows h call.1 call.2)
  have hdrop : R.length - min R.length fb.height = R.length - fb.height := by omega
  refine ⟨fun y hy x hx => ?_, ?_, hshows.column, hshows.reach⟩
  · rw [hdrop]
    exact hshows.cells y hy x hx
  · have : t.row + 1 = min R.length fb.height := hshows.row
    omega

end Gubos.Tty
