import Knos.Lib.Align
import Knos.Printk.Console

/-!
# Cells of the screen

A screen of `columns` by `rows` characters, as large as numbers of 32 bits can describe it.
The cursor stands at a cell (`OnCell`), and every move of the cursor, with the checks behind
it, places it at another one: a character at the next cell, a newline at the first cell of the
row below, a backspace at the cell before. The first and the last cell of the screen are
neighbours, so going on and going back undo each other everywhere (`Cells.prev_next`).
-/

namespace Knos.Printk

open Knos.Bytes Knos.Stack

/-! ## §1  Cells -/

structure Cells where
  columns : ℕ
  rows : ℕ
  columns_pos : 0 < columns
  rows_pos : 0 < rows
  width_lt : 8 * columns < 2 ^ 31
  height_lt : 16 * rows < 2 ^ 31

namespace Cells

variable (cells : Cells) {cell : ℕ × ℕ}

structure Has (cell : ℕ × ℕ) : Prop where
  column_lt : cell.1 < cells.columns
  row_lt : cell.2 < cells.rows

/-- The first cell of the row below. -/
def down (cell : ℕ × ℕ) : ℕ × ℕ := if cell.2 + 1 < cells.rows then (0, cell.2 + 1) else (0, 0)

/-- The cell behind a character. -/
def next (cell : ℕ × ℕ) : ℕ × ℕ :=
  if cell.1 + 1 < cells.columns then (cell.1 + 1, cell.2) else cells.down cell

/-- The cell before. -/
def prev (cell : ℕ × ℕ) : ℕ × ℕ :=
  if 0 < cell.1 then (cell.1 - 1, cell.2)
  else if 0 < cell.2 then (cells.columns - 1, cell.2 - 1)
  else (cells.columns - 1, cells.rows - 1)

theorem down_has : cells.Has (cells.down cell) := by
  unfold down
  split_ifs with h
  · exact ⟨cells.columns_pos, h⟩
  · exact ⟨cells.columns_pos, cells.rows_pos⟩

variable {cells}

theorem Has.next (h : cells.Has cell) : cells.Has (cells.next cell) := by
  unfold Cells.next
  split_ifs with hlast
  · exact ⟨hlast, h.row_lt⟩
  · exact cells.down_has

theorem Has.prev (h : cells.Has cell) : cells.Has (cells.prev cell) := by
  have hcol := h.column_lt
  have hrow := h.row_lt
  unfold Cells.prev
  split_ifs
  · exact ⟨by show cell.1 - 1 < _; omega, hrow⟩
  · exact ⟨by show cells.columns - 1 < _; omega, by show cell.2 - 1 < _; omega⟩
  · exact ⟨by show cells.columns - 1 < _; omega, by show cells.rows - 1 < _; omega⟩

/-- **Going back undoes going on**, at the line ends and at the bottom of the screen as well. -/
theorem prev_next (h : cells.Has cell) : cells.prev (cells.next cell) = cell := by
  obtain ⟨column, row⟩ := cell
  have hcol : column < cells.columns := h.column_lt
  have hrow : row < cells.rows := h.row_lt
  unfold next
  by_cases hlast : column + 1 < cells.columns
  · rw [if_pos hlast]
    exact if_pos (Nat.succ_pos column)
  · have hcolumn : cells.columns - 1 = column := by omega
    unfold down
    rw [if_neg hlast]
    by_cases hbottom : row + 1 < cells.rows
    · rw [if_pos hbottom]
      show (cells.columns - 1, row) = _
      rw [hcolumn]
    · have hrow' : cells.rows - 1 = row := by omega
      rw [if_neg hbottom]
      show (cells.columns - 1, cells.rows - 1) = _
      rw [hcolumn, hrow']

theorem iterate_prev_next (h : cells.Has cell) (k : ℕ) :
    cells.prev^[k] (cells.next^[k] cell) = cell := by
  induction k generalizing cell with
  | zero => rfl
  | succ k ih =>
      rw [Function.iterate_succ_apply' cells.prev, Function.iterate_succ_apply cells.next, ih h.next,
        prev_next h]

theorem Has.iterate_next (h : cells.Has cell) (k : ℕ) : cells.Has (cells.next^[k] cell) := by
  induction k generalizing cell with
  | zero => exact h
  | succ k ih => exact ih h.next

end Cells

/-! ## §2  Positions -/

/-- The position with its cursor moved to a cell. -/
def Position.place (pos : Position) (cell : ℕ × ℕ) : Position :=
  { pos with xPosition := 8 * cell.1, yPosition := 16 * cell.2 }

/-- The position structure of the screen, with the cursor at a cell. -/
structure OnCell (cells : Cells) (pos : Position) (cell : ℕ × ℕ) : Prop where
  xResolution_eq : pos.xResolution = 8 * cells.columns
  yResolution_eq : pos.yResolution = 16 * cells.rows
  xCharSize_eq : pos.xCharSize = 8
  yCharSize_eq : pos.yCharSize = 16
  has : cells.Has cell
  x_eq : pos.xPosition = 8 * cell.1
  y_eq : pos.yPosition = 16 * cell.2

section Moves

variable {cells : Cells} {pos : Position} {cell cell' : ℕ × ℕ}

theorem Position.place_place : (pos.place cell).place cell' = pos.place cell' := rfl

theorem place_eq {x y : ℤ} (hx : x = 8 * cell.1) (hy : y = 16 * cell.2) :
    ({ pos with xPosition := x, yPosition := y } : Position) = pos.place cell := by
  rw [hx, hy]
  rfl

theorem OnCell.place_self (h : OnCell cells pos cell) : pos.place cell = pos :=
  (place_eq h.x_eq h.y_eq).symm

theorem OnCell.place (h : OnCell cells pos cell) (h' : cells.Has cell') :
    OnCell cells (pos.place cell') cell' where
  xResolution_eq := h.xResolution_eq
  yResolution_eq := h.yResolution_eq
  xCharSize_eq := h.xCharSize_eq
  yCharSize_eq := h.yCharSize_eq
  has := h'
  x_eq := rfl
  y_eq := rfl

/-- A cursor on the screen passes the checks unchanged. -/
theorem OnCell.boundaryCheck_eq (h : OnCell cells pos cell) : pos.boundaryCheck = pos := by
  have hcol := h.has.column_lt
  have hrow := h.has.row_lt
  have hx : ¬ pos.xResolution ≤ pos.xPosition := by
    rw [h.xResolution_eq, h.x_eq]
    omega
  have hy : ¬ pos.yResolution ≤ pos.yPosition := by
    rw [h.yResolution_eq, h.y_eq]
    omega
  unfold Position.boundaryCheck
  simp only [if_neg hx, if_neg hy]

/-- A newline, and the check of the bottom edge. -/
theorem OnCell.newline_check (h : OnCell cells pos cell) :
    pos.newline.boundaryCheck = pos.place (cells.down cell) := by
  have hheight := cells.height_lt
  have hrow := h.has.row_lt
  have hy : pos.newline.yPosition = 16 * (cell.2 + 1 : ℕ) := by
    show int32 (pos.yPosition + pos.yCharSize) = _
    rw [h.y_eq, h.yCharSize_eq, int32_eq (by omega) (by omega)]
    omega
  have hx : ¬ pos.newline.xResolution ≤ pos.newline.xPosition := by
    show ¬ pos.xResolution ≤ 0
    rw [h.xResolution_eq]
    have := cells.columns_pos
    omega
  have hyRes : pos.newline.yResolution = 16 * cells.rows := h.yResolution_eq
  unfold Position.boundaryCheck Cells.down
  simp only [if_neg hx]
  by_cases hlast : cell.2 + 1 < cells.rows
  · rw [if_pos hlast, if_neg (by rw [hy, hyRes]; omega)]
    exact place_eq rfl hy
  · rw [if_neg hlast, if_pos (by rw [hy, hyRes]; omega)]
    exact place_eq rfl rfl

/-- A character, and the checks of both edges. -/
theorem OnCell.advance_check (h : OnCell cells pos cell) :
    pos.advance.boundaryCheck = pos.place (cells.next cell) := by
  have hwidth := cells.width_lt
  have hcol := h.has.column_lt
  have hx : pos.advance.xPosition = 8 * (cell.1 + 1 : ℕ) := by
    show int32 (pos.xPosition + pos.xCharSize) = _
    rw [h.x_eq, h.xCharSize_eq, int32_eq (by omega) (by omega)]
    omega
  have hxRes : pos.advance.xResolution = 8 * cells.columns := h.xResolution_eq
  unfold Cells.next
  by_cases hlast : cell.1 + 1 < cells.columns
  · have hplace : pos.advance = pos.place (cell.1 + 1, cell.2) := place_eq hx h.y_eq
    have hnext : OnCell cells (pos.place (cell.1 + 1, cell.2)) (cell.1 + 1, cell.2) :=
      h.place ⟨hlast, h.has.row_lt⟩
    rw [if_pos hlast, hplace, hnext.boundaryCheck_eq]
  · -- at the right edge a character is a newline
    have hedge : pos.advance.boundaryCheck = pos.newline.boundaryCheck := by
      have hzero : ¬ pos.newline.xResolution ≤ pos.newline.xPosition := by
        show ¬ pos.xResolution ≤ 0
        rw [h.xResolution_eq]
        omega
      have hover : pos.advance.xResolution ≤ pos.advance.xPosition := by
        rw [hx, hxRes]
        omega
      unfold Position.boundaryCheck
      simp only [if_pos hover, if_neg hzero]
      rfl
    rw [if_neg hlast, hedge, h.newline_check]

theorem OnCell.backspace_eq (h : OnCell cells pos cell) :
    pos.backspace = pos.place (cells.prev cell) := by
  have hwidth := cells.width_lt
  have hheight := cells.height_lt
  have hcol := h.has.column_lt
  have hrow := h.has.row_lt
  have hx : int32 (pos.xPosition - pos.xCharSize) = 8 * cell.1 - 8 := by
    rw [h.x_eq, h.xCharSize_eq, int32_eq (by omega) (by omega)]
  have hxLast : int32 (pos.xResolution - pos.xCharSize) = 8 * (cells.columns - 1 : ℕ) := by
    rw [h.xResolution_eq, h.xCharSize_eq, int32_eq (by omega) (by omega)]
    omega
  have hy : int32 (pos.yPosition - pos.yCharSize) = 16 * cell.2 - 16 := by
    rw [h.y_eq, h.yCharSize_eq, int32_eq (by omega) (by omega)]
  have hyLast : int32 (pos.yResolution - pos.yCharSize) = 16 * (cells.rows - 1 : ℕ) := by
    rw [h.yResolution_eq, h.yCharSize_eq, int32_eq (by omega) (by omega)]
    omega
  unfold Position.backspace Cells.prev
  simp only [hx, hxLast, hy, hyLast]
  by_cases hleft : 0 < cell.1
  · rw [if_pos hleft, if_neg (by omega)]
    exact place_eq (by omega) h.y_eq
  · rw [if_neg hleft, if_pos (by omega)]
    by_cases htop : 0 < cell.2
    · rw [if_pos htop, if_neg (by omega)]
      exact place_eq rfl (by omega)
    · rw [if_neg htop, if_pos (by omega)]
      exact place_eq rfl rfl

/-- A text with its terminator in `printk_buf`. -/
theorem storeBehind_of_le {written : List Byte} (h : written.length ≤ 4096) :
    pos.storeBehind written = pos := by
  unfold Position.storeBehind
  rw [List.getElem?_eq_none h]

/-- The terminator behind a full `printk_buf` rounds the width down to a multiple of 256. -/
theorem OnCell.storeBehind_full (h : OnCell cells pos cell) {text : List Byte}
    (hlength : text.length = 4096) : pos.storeBehind (text ++ [0]) =
      { pos with xResolution := (8 * cells.columns / 256 * 256 : ℕ) } := by
  have hwidth := cells.width_lt
  have hbehind : (text ++ [0])[4096]? = some (0 : Byte) := by
    rw [← hlength]
    exact List.getElem?_concat_length
  have hmask : (BitVec.ofInt 32 pos.xResolution &&& ~~~0xff#32).toNat =
      8 * cells.columns / 256 * 256 := by
    have hnat : (BitVec.ofInt 32 pos.xResolution).toNat = 8 * cells.columns := by
      rw [h.xResolution_eq, show (8 : ℤ) * cells.columns = ((8 * cells.columns : ℕ) : ℤ) by push_cast; rfl,
        BitVec.ofInt_natCast, BitVec.toNat_ofNat, Nat.mod_eq_of_lt (by omega)]
    rw [BitVec.toNat_and, hnat]
    exact Align.and_mask (k := 8) (w := 32) (by omega) (by decide)
  have hzero : BitVec.ofInt 32 pos.xResolution &&& ~~~0xff#32 ||| (0 : Byte).setWidth 32 =
      BitVec.ofInt 32 pos.xResolution &&& ~~~0xff#32 := BitVec.or_zero
  unfold Position.storeBehind
  rw [hbehind]
  dsimp only
  rw [hzero, BitVec.toInt_eq_toNat_of_lt (by rw [hmask]; omega), hmask]

theorem OnCell.storeBehind_of_dvd (h : OnCell cells pos cell) {text : List Byte}
    (hlength : text.length = 4096) (hdvd : 256 ∣ 8 * cells.columns) :
    pos.storeBehind (text ++ [0]) = pos := by
  have hsame : ((8 * cells.columns / 256 * 256 : ℕ) : ℤ) = pos.xResolution := by
    rw [h.xResolution_eq, Nat.div_mul_cancel hdvd]
    push_cast
    rfl
  rw [h.storeBehind_full hlength, hsame]

/-- The columns to the next stop. -/
theorem OnCell.tabLine_eq (h : OnCell cells pos cell) : pos.tabLine = 8 - (cell.1 % 8 : ℕ) := by
  have hwidth := cells.width_lt
  have hcol := h.has.column_lt
  have hchar : pos.xPosition.tdiv pos.xCharSize = cell.1 := by
    rw [h.x_eq, h.xCharSize_eq, Int.mul_tdiv_cancel_left _ (by decide)]
  have hmask : (BitVec.ofInt 32 ((cell.1 : ℤ) + 8) &&& ~~~7#32).toNat = (cell.1 + 8) / 8 * 8 := by
    have hnat : (BitVec.ofInt 32 ((cell.1 : ℤ) + 8)).toNat = cell.1 + 8 := by
      rw [show (cell.1 : ℤ) + 8 = ((cell.1 + 8 : ℕ) : ℤ) by omega, BitVec.ofInt_natCast,
        BitVec.toNat_ofNat, Nat.mod_eq_of_lt (by omega)]
    rw [BitVec.toNat_and, hnat]
    exact Align.and_mask (k := 3) (w := 32) (by omega) (by decide)
  unfold Position.tabLine
  rw [hchar]
  show (BitVec.ofInt 32 ((cell.1 : ℤ) + 8) &&& ~~~7#32).toInt - cell.1 = _
  rw [BitVec.toInt_eq_toNat_of_lt (by rw [hmask]; omega), hmask]
  omega

end Moves

end Knos.Printk
