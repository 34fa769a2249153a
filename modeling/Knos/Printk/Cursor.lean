import Knos.Printk.Cells

/-!
# The cursor stays on the screen

With a frame buffer of 32-bit length a glyph that is drawn at a cell stays inside it
(`AtCell.stores_inside`). Every round of the loop leaves the cursor at a cell and draws at
cells only (`Screen.OnGrid`), so this holds of a whole text, and the loop comes to an end.
-/

namespace Knos.Printk

open Knos.Bytes Knos.Stack

/-! ## §1  Cells -/

/-- A screen whose frame buffer has a 32-bit length. -/
structure Grid extends Cells where
  fits : 8 * columns * (16 * rows) * 4 < 2 ^ 31

/-- The position structure of a screen, with the length of its frame buffer. -/
structure AtCell (grid : Grid) (pos : Position) (cell : ℕ × ℕ) : Prop
    extends OnCell grid.toCells pos cell where
  length_eq : pos.frameBufferLength = 8 * grid.columns * (16 * grid.rows) * 4

section Moves

variable {grid : Grid} {pos : Position} {cell cell' : ℕ × ℕ}

theorem AtCell.place (h : AtCell grid pos cell) (h' : grid.Has cell') :
    AtCell grid (pos.place cell') cell' := ⟨h.toOnCell.place h', h.length_eq⟩

/-- A newline, and the check of the bottom edge. -/
theorem AtCell.newline_check (h : AtCell grid pos cell) :
    AtCell grid pos.newline.boundaryCheck (grid.down cell) := by
  rw [h.toOnCell.newline_check]
  exact h.place grid.down_has

/-- A character, and the checks of both edges. -/
theorem AtCell.advance_check (h : AtCell grid pos cell) :
    AtCell grid pos.advance.boundaryCheck (grid.next cell) := by
  rw [h.toOnCell.advance_check]
  exact h.place h.has.next

theorem AtCell.backspace (h : AtCell grid pos cell) :
    AtCell grid pos.backspace (grid.prev cell) := by
  rw [h.backspace_eq]
  exact h.place h.has.prev

end Moves

/-! ## §2  Pixels -/

section Pixels

variable {grid : Grid} {pos : Position} {cell : ℕ × ℕ} {i j : ℕ}

/-- A pixel of a glyph is a pixel of the screen, and no product wraps around. -/
theorem AtCell.pixelOffset_eq (h : AtCell grid pos cell) (hi : i < 16) (hj : j < 8) :
    pixelOffset pos i j =
        (((16 * cell.2 + i) * (8 * grid.columns) + (8 * cell.1 + j)) * 4 : ℕ) ∧
      ((16 * cell.2 + i) * (8 * grid.columns) + (8 * cell.1 + j)) * 4 + 4 ≤
        pos.frameBufferLength := by
  have hfits := grid.fits
  have hcol := h.has.column_lt
  have hrow := h.has.row_lt
  have hlast : (16 * cell.2 + i + 1) * (8 * grid.columns) ≤ 16 * grid.rows * (8 * grid.columns) :=
    Nat.mul_le_mul_right _ (by omega)
  rw [Nat.add_mul, Nat.one_mul, Nat.mul_comm (16 * grid.rows)] at hlast
  have hwidth := grid.width_lt
  have hheight := grid.height_lt
  have hy : int32 (pos.yPosition + i) = (16 * cell.2 + i : ℕ) := by
    rw [h.y_eq, int32_eq (by omega) (by omega)]
    push_cast
    rfl
  have hline : int32 (((16 * cell.2 + i : ℕ) : ℤ) * pos.xResolution) =
      ((16 * cell.2 + i) * (8 * grid.columns) : ℕ) := by
    rw [h.xResolution_eq, show ((16 * cell.2 + i : ℕ) : ℤ) * (8 * grid.columns) =
      (((16 * cell.2 + i) * (8 * grid.columns) : ℕ) : ℤ) by push_cast; rfl]
    exact int32_eq (by omega) (by omega)
  have hx : int32 (pos.xPosition + j) = (8 * cell.1 + j : ℕ) := by
    rw [h.x_eq, int32_eq (by omega) (by omega)]
    push_cast
    rfl
  unfold pixelOffset
  rw [hy, hline, hx, int32_eq (x := _ * 4) (by omega) (by omega),
    int32_eq (x := _ * 4) (by omega) (by omega), h.length_eq]
  constructor
  · push_cast
    omega
  · omega

/-- **A glyph drawn at a cell** stays inside the frame buffer. -/
theorem AtCell.stores_inside {g : Glyph} (h : AtCell grid g.pos cell)
    (fontAscii : Byte → ℕ → Byte) :
    ∀ st ∈ g.stores fontAscii, 0 ≤ st.offset ∧ st.offset + 4 ≤ g.pos.frameBufferLength := by
  intro st hst
  unfold Glyph.stores at hst
  simp only [List.mem_flatMap, List.mem_map, List.mem_range] at hst
  obtain ⟨i, hi, j, hj, rfl⟩ := hst
  obtain ⟨heq, hle⟩ := h.pixelOffset_eq hi hj
  show 0 ≤ pixelOffset g.pos i j ∧ pixelOffset g.pos i j + 4 ≤ _
  rw [heq]
  omega

end Pixels

/-! ## §3  The loop -/

/-- The cursor and every glyph are at a cell. -/
structure Screen.OnGrid (grid : Grid) (s : Screen) : Prop where
  cursor : ∃ cell, AtCell grid s.pos cell
  drawn : ∀ g ∈ s.drawn, ∃ cell, AtCell grid g.pos cell

section Loop

variable {grid : Grid} {s : Screen} {charColor bgColor : Color} {buf : List Byte} {d : Drawing}

theorem Screen.OnGrid.putColorChar (h : s.OnGrid grid) (font : Byte) :
    (s.putColorChar charColor bgColor font).OnGrid grid := by
  refine ⟨h.cursor, fun g hg => ?_⟩
  rcases List.mem_append.mp hg with hg | hg
  · exact h.drawn g hg
  · rw [List.mem_singleton.mp hg]
    exact h.cursor

/-- A glyph, and the cursor behind it. -/
theorem Screen.OnGrid.advance_check (h : s.OnGrid grid) (font : Byte) :
    Screen.OnGrid grid { s.putColorChar charColor bgColor font with
      pos := s.pos.advance.boundaryCheck } := by
  obtain ⟨cell, hcell⟩ := h.cursor
  exact ⟨⟨_, hcell.advance_check⟩, (h.putColorChar font).drawn⟩

/-- **One round** keeps everything on the grid, whichever branch it takes. -/
theorem drawRound_onGrid (h : d.screen.OnGrid grid) :
    (drawRound charColor bgColor buf d).screen.OnGrid grid := by
  unfold drawRound drawBranch
  by_cases hline : 0 < d.line
  · simp only [if_pos hline]
    exact h.advance_check _
  · simp only [if_neg hline]
    obtain ⟨cell, hcell⟩ := h.cursor
    split_ifs with hnewline hback htab
    · exact ⟨⟨_, hcell.newline_check⟩, h.drawn⟩
    · have hmoved : Screen.OnGrid grid { d.screen with pos := d.screen.pos.backspace } :=
        ⟨⟨_, hcell.backspace⟩, h.drawn⟩
      have hput := @Screen.OnGrid.putColorChar grid _ charColor bgColor hmoved (chr ' ')
      refine ⟨⟨grid.prev cell, ?_⟩, hput.drawn⟩
      show AtCell grid d.screen.pos.backspace.boundaryCheck (grid.prev cell)
      rw [hcell.backspace.boundaryCheck_eq]
      exact hcell.backspace
    · exact h.advance_check _
    · exact h.advance_check _

theorem drawLoop_onGrid {i : ℤ} {fuel : ℕ} (h : d.screen.OnGrid grid) :
    (drawLoop charColor bgColor buf i fuel d).2.screen.OnGrid grid := by
  induction fuel generalizing d with
  | zero => exact h
  | succ fuel ih =>
      unfold drawLoop
      split_ifs with hmore
      · exact ih (drawRound_onGrid h)
      · exact h

/-- What a round does to the counters: a tab in progress takes one of its columns, any other
round one character of the text, and a tab then has fewer than eight columns left. -/
theorem drawRound_counters (h : d.screen.OnGrid grid) (hline : 0 ≤ d.line) :
    0 < d.line ∧ (drawRound charColor bgColor buf d).line = d.line - 1 ∧
        (drawRound charColor bgColor buf d).count = d.count ∨
      d.line = 0 ∧ 0 ≤ (drawRound charColor bgColor buf d).line ∧
        (drawRound charColor bgColor buf d).line ≤ 7 ∧
          (drawRound charColor bgColor buf d).count = d.count + 1 := by
  obtain ⟨cell, hcell⟩ := h.cursor
  have htabLine := hcell.tabLine_eq
  unfold drawRound drawBranch
  rcases lt_or_ge 0 d.line with hpos | hzero
  · refine Or.inl ⟨hpos, ?_⟩
    simp only [if_pos hpos]
    exact ⟨rfl, sub_add_cancel d.count 1⟩
  · refine Or.inr ⟨le_antisymm hzero hline, ?_⟩
    simp only [if_neg (not_lt.mpr hzero)]
    split_ifs with hnewline hback htab
    · exact ⟨hline, by show d.line ≤ 7; omega, rfl⟩
    · exact ⟨hline, by show d.line ≤ 7; omega, rfl⟩
    · refine ⟨?_, ?_, rfl⟩
      · show 0 ≤ d.screen.pos.tabLine - 1
        omega
      · show d.screen.pos.tabLine - 1 ≤ 7
        omega
    · exact ⟨hline, by show d.line ≤ 7; omega, rfl⟩

/-- **The loop comes to an end.** -/
theorem drawLoop_ok {i : ℤ} {fuel : ℕ} (h : d.screen.OnGrid grid) (hline : 0 ≤ d.line)
    (hcount : d.count ≤ i) (hfuel : 8 * (i - d.count) + d.line < fuel) :
    (drawLoop charColor bgColor buf i fuel d).1 = .ok () := by
  induction fuel generalizing d with
  | zero => exact absurd hfuel (by push_cast; omega)
  | succ fuel ih =>
      unfold drawLoop
      split_ifs with hmore
      · have hgrid := @drawRound_onGrid grid charColor bgColor buf d h
        rcases @drawRound_counters grid charColor bgColor buf d h hline with
          ⟨hpos, hl, hc⟩ | ⟨hzero, hlow, hhigh, hc⟩
        · exact ih hgrid (by omega) (by omega) (by push_cast at hfuel; omega)
        · exact ih hgrid hlow (by omega) (by push_cast at hfuel; omega)
      · rfl

end Loop

section Text

variable {grid : Grid} {s : Screen} {fg bg : Color}

theorem drawText_onGrid {buf : List Byte} {i : ℤ} (h : s.OnGrid grid) :
    (drawText fg bg buf i s).2.OnGrid grid := by
  have hloop := @drawLoop_onGrid grid fg bg buf ⟨0, 0, s⟩ i (8 * i.toNat + 1) h
  unfold drawText
  generalize drawLoop fg bg buf i (8 * i.toNat + 1) ⟨0, 0, s⟩ = run at hloop ⊢
  rcases run with ⟨⟨fault⟩ | ⟨⟩, d⟩
  · exact hloop
  · exact hloop

/-- Drawing adds no fault of its own. -/
theorem drawText_ok {buf : List Byte} {i : ℤ} (h : s.OnGrid grid) :
    (drawText fg bg buf i s).1 = .ok i := by
  have hloop : (drawLoop fg bg buf i (8 * i.toNat + 1) ⟨0, 0, s⟩).1 = .ok () := by
    rcases lt_or_ge i 0 with hneg | hpos
    · -- nothing to draw
      have hdone : ¬ ((0 : ℤ) < i ∨ (0 : ℤ) ≠ 0) := by omega
      unfold drawLoop
      rw [if_neg hdone]
    · refine @drawLoop_ok grid fg bg buf ⟨0, 0, s⟩ i (8 * i.toNat + 1) h (le_refl (0 : ℤ)) hpos ?_
      show 8 * (i - 0) + 0 < ((8 * i.toNat + 1 : ℕ) : ℤ)
      omega
  unfold drawText
  generalize drawLoop fg bg buf i (8 * i.toNat + 1) ⟨0, 0, s⟩ = run at hloop ⊢
  rcases run with ⟨⟨fault⟩ | ⟨⟩, d⟩
  · cases hloop
  · rfl

end Text

/-! ## §4  The first screen -/

/-- A mode with whole characters and a frame buffer of 32-bit length. -/
structure WholeCharacters (info : VbeInfo) : Prop where
  width_pos : 0 < info.xResolution.toNat
  width_dvd : 8 ∣ info.xResolution.toNat
  height_pos : 0 < info.yResolution.toNat
  height_dvd : 16 ∣ info.yResolution.toNat
  fits : info.xResolution.toNat * info.yResolution.toNat * 4 < 2 ^ 31

/-- The screen of a mode. -/
def WholeCharacters.grid {info : VbeInfo} (h : WholeCharacters info) : Grid where
  columns := info.xResolution.toNat / 8
  rows := info.yResolution.toNat / 16
  columns_pos := Nat.div_pos (Nat.le_of_dvd h.width_pos h.width_dvd) (by decide)
  rows_pos := Nat.div_pos (Nat.le_of_dvd h.height_pos h.height_dvd) (by decide)
  width_lt := by
    rw [Nat.mul_div_cancel' h.width_dvd]
    exact Nat.lt_trans info.xResolution.isLt (by decide)
  height_lt := by
    rw [Nat.mul_div_cancel' h.height_dvd]
    exact Nat.lt_trans info.yResolution.isLt (by decide)
  fits := by
    rw [Nat.mul_div_cancel' h.width_dvd, Nat.mul_div_cancel' h.height_dvd]
    exact h.fits

/-- The length of the frame buffer is computed without wrapping around. -/
theorem WholeCharacters.length_init {info : VbeInfo} (h : WholeCharacters info) :
    (initVbeInfo info).frameBufferLength =
      info.xResolution.toNat * info.yResolution.toNat * 4 := by
  have hfits := h.fits
  unfold initVbeInfo
  dsimp only
  rw [← Nat.cast_mul, int32_eq (x := ((info.xResolution.toNat * info.yResolution.toNat : ℕ) : ℤ))
    (by omega) (by omega), int32_eq (by omega) (by omega)]
  rw [show ((info.xResolution.toNat * info.yResolution.toNat : ℕ) : ℤ) * 4 =
    ((info.xResolution.toNat * info.yResolution.toNat * 4 : ℕ) : ℤ) by push_cast; rfl,
    BitVec.ofInt_natCast, BitVec.toNat_ofNat, Nat.mod_eq_of_lt (by omega)]

theorem atCell_init {info : VbeInfo} (h : WholeCharacters info) :
    AtCell h.grid (initVbeInfo info) (0, 0) where
  xResolution_eq := by
    show (info.xResolution.toNat : ℤ) = 8 * ((info.xResolution.toNat / 8 : ℕ) : ℤ)
    have := h.width_dvd
    omega
  yResolution_eq := by
    show (info.yResolution.toNat : ℤ) = 16 * ((info.yResolution.toNat / 16 : ℕ) : ℤ)
    have := h.height_dvd
    omega
  xCharSize_eq := rfl
  yCharSize_eq := rfl
  length_eq := by
    have hwidth : 8 * h.grid.columns = info.xResolution.toNat := Nat.mul_div_cancel' h.width_dvd
    have hheight : 16 * h.grid.rows = info.yResolution.toNat := Nat.mul_div_cancel' h.height_dvd
    rw [h.length_init, hwidth, hheight]
  has := ⟨h.grid.columns_pos, h.grid.rows_pos⟩
  x_eq := rfl
  y_eq := rfl

/-- The mode that the loader looks for. -/
def loaderMode : VbeInfo := ⟨1024, 768, 32⟩

theorem wholeCharacters_loaderMode : WholeCharacters loaderMode := by
  constructor <;> decide

/-- A kernel with a font of blanks. -/
def blankKernel : Kernel := ⟨0x100000, by decide, fun _ _ => 0⟩

end Knos.Printk
