import Knos.Lib.Blocks
import Knos.Printk.Cursor

/-!
# What is on the screen

The glyphs of a run are drawn over each other, pixel by pixel, at offsets into the frame
buffer. What is left is a screen of characters: each cell shows the glyph that was drawn there
last, and a cell where none was drawn is as it was (`peek_picture`).
-/

namespace Knos.Printk

open Knos.Bytes Knos.Stack

/-! ## §1  What moving the cursor keeps -/

/-- A property of the position structure that depends neither on the cursor nor on the width. -/
def Steady (P : Position → Prop) : Prop :=
  ∀ (pos : Position) (width x y : ℤ), P pos →
    P { pos with xResolution := width, xPosition := x, yPosition := y }

/-- The structure has the property, and had it whenever a glyph was drawn. -/
structure Screen.All (P : Position → Prop) (s : Screen) : Prop where
  cursor : P s.pos
  drawn : ∀ g ∈ s.drawn, P g.pos

section Steady

variable {P : Position → Prop} {s : Screen} {pos : Position} {fg bg : Color} {buf : List Byte}
  {d : Drawing} {kernel : Kernel}

theorem Steady.advance (hP : Steady P) (h : P pos) : P pos.advance :=
  hP pos pos.xResolution (int32 (pos.xPosition + pos.xCharSize)) pos.yPosition h

theorem Steady.newline (hP : Steady P) (h : P pos) : P pos.newline :=
  hP pos pos.xResolution 0 (int32 (pos.yPosition + pos.yCharSize)) h

theorem Steady.backspace (hP : Steady P) (h : P pos) : P pos.backspace := by
  unfold Position.backspace
  dsimp only
  split_ifs
  · exact hP pos pos.xResolution _ _ h
  · exact hP pos pos.xResolution _ _ h
  · exact hP pos pos.xResolution _ pos.yPosition h

theorem Steady.boundaryCheck (hP : Steady P) (h : P pos) : P pos.boundaryCheck := by
  unfold Position.boundaryCheck
  have hline : P (if pos.xResolution ≤ pos.xPosition then pos.newline else pos) := by
    split_ifs
    · exact hP.newline h
    · exact h
  dsimp only
  generalize (if pos.xResolution ≤ pos.xPosition then pos.newline else pos) = pos' at hline ⊢
  split_ifs
  · exact hP pos' pos'.xResolution pos'.xPosition 0 hline
  · exact hline

theorem Steady.storeBehind (hP : Steady P) (written : List Byte) (h : P pos) :
    P (pos.storeBehind written) := by
  unfold Position.storeBehind
  split
  · exact h
  · exact hP pos _ pos.xPosition pos.yPosition h

theorem Screen.All.putColorChar (h : s.All P) (font : Byte) : (s.putColorChar fg bg font).All P := by
  refine ⟨h.cursor, fun g hg => ?_⟩
  rcases List.mem_append.mp hg with hg | hg
  · exact h.drawn g hg
  · rw [List.mem_singleton.mp hg]
    exact h.cursor

theorem drawBranch_all (hP : Steady P) (h : d.screen.All P) :
    (drawBranch fg bg buf d).screen.All P := by
  unfold drawBranch labelTab
  dsimp only
  split_ifs with hline hnewline hback htab
  · exact ⟨hP.advance h.cursor, (h.putColorChar _).drawn⟩
  · exact ⟨hP.newline h.cursor, h.drawn⟩
  · have hmoved : Screen.All P { d.screen with pos := d.screen.pos.backspace } :=
      ⟨hP.backspace h.cursor, h.drawn⟩
    exact hmoved.putColorChar _
  · exact ⟨hP.advance h.cursor, (h.putColorChar _).drawn⟩
  · exact ⟨hP.advance h.cursor, (h.putColorChar _).drawn⟩

theorem drawLoop_all (hP : Steady P) {i : ℤ} {fuel : ℕ} (h : d.screen.All P) :
    (drawLoop fg bg buf i fuel d).2.screen.All P := by
  induction fuel generalizing d with
  | zero => exact h
  | succ fuel ih =>
      unfold drawLoop
      split_ifs with hmore
      · have hbranch := @drawBranch_all P fg bg buf d hP h
        exact ih ⟨hP.boundaryCheck hbranch.cursor, hbranch.drawn⟩
      · exact h

theorem drawText_all (hP : Steady P) {i : ℤ} (h : s.All P) : (drawText fg bg buf i s).2.All P := by
  have hloop := @drawLoop_all P fg bg buf ⟨0, 0, s⟩ hP i (8 * i.toNat + 1) h
  unfold drawText
  generalize drawLoop fg bg buf i (8 * i.toNat + 1) ⟨0, 0, s⟩ = run at hloop ⊢
  rcases run with ⟨⟨fault⟩ | ⟨⟩, d⟩
  · exact hloop
  · exact hloop

variable {memory : Memory} {fmt tag : List Byte} {args : ℕ → Word}

theorem vcolorPrintk_all (hP : Steady P) (h : s.All P) :
    (vcolorPrintk kernel fg bg memory fmt args s).2.All P := by
  unfold vcolorPrintk
  cases vsnprintf kernel.printkBuf memory fmt args with
  | error fault => exact h
  | ok o =>
      have hstored : Screen.All P { s with pos := s.pos.storeBehind o.written } :=
        ⟨hP.storeBehind o.written h.cursor, h.drawn⟩
      dsimp only
      split_ifs with hover
      · exact drawText_all hP hstored
      · exact drawText_all hP hstored

theorem logkImpl_all (hP : Steady P) (h : s.All P) :
    (logkImpl kernel fg bg tag memory fmt args s).2.All P := by
  have htag := @vcolorPrintk_all P s fg bg kernel memory tag args hP h
  unfold logkImpl
  generalize vcolorPrintk kernel fg bg memory tag args s = tagRun at htag ⊢
  rcases tagRun with ⟨fault | tagRet, s₁⟩
  · exact htag
  · have hbody := @vcolorPrintk_all P s₁ fg bg kernel memory fmt args hP htag
    dsimp only
    generalize vcolorPrintk kernel fg bg memory fmt args s₁ = bodyRun at hbody ⊢
    rcases bodyRun with ⟨fault | bodyRet, s₂⟩
    · exact hbody
    · exact hbody

theorem PrintCall.run_all (hP : Steady P) (call : PrintCall) (h : s.All P) :
    (call.run kernel s).2.All P := by
  unfold PrintCall.run
  cases call.function with
  | colorPrintk fg bg => exact vcolorPrintk_all hP h
  | printk => exact vcolorPrintk_all hP h
  | _ => exact logkImpl_all hP h

/-- **A steady property** holds in every run. -/
theorem printCalls_all (hP : Steady P) (calls : List PrintCall) (h : s.All P) :
    (printCalls kernel calls s).All P := by
  induction calls generalizing s with
  | nil => exact h
  | cons call calls ih =>
      have hcall := @PrintCall.run_all P s kernel hP call h
      unfold printCalls
      generalize call.run kernel s = run at hcall ⊢
      rcases run with ⟨fault | ret, s'⟩
      · exact hcall
      · exact ih hcall

end Steady

/-! ## §2  Pixels of a glyph -/

/-- The color of a pixel. -/
def Glyph.pixel (fontAscii : Byte → ℕ → Byte) (g : Glyph) (i j : ℕ) : Color :=
  if fontAscii g.font i &&& (0x80#8 >>> j) ≠ 0 then g.charColor else g.bgColor

/-- The cell that a glyph is drawn at. -/
def Glyph.cell (g : Glyph) : ℕ × ℕ := (g.pos.xPosition.toNat / 8, g.pos.yPosition.toNat / 16)

/-- Where a pixel lies in a frame buffer of this width. -/
def pixelAddress (width x y : ℕ) : ℕ := 4 * (y * width + x)

/-- Two pixels share no byte. -/
theorem pixels_apart {width x y x' y' : ℕ} (hx : x < width) (hx' : x' < width)
    (hne : x ≠ x' ∨ y ≠ y') : pixelAddress width x y + 4 ≤ pixelAddress width x' y' ∨
      pixelAddress width x' y' + 4 ≤ pixelAddress width x y := by
  unfold pixelAddress
  rcases Nat.lt_trichotomy y y' with hlt | rfl | hlt
  · have hrow : (y + 1) * width ≤ y' * width := Nat.mul_le_mul_right width hlt
    rw [Nat.add_one_mul] at hrow
    omega
  · omega
  · have hrow : (y' + 1) * width ≤ y * width := Nat.mul_le_mul_right width hlt
    rw [Nat.add_one_mul] at hrow
    omega

/-- A pixel of the screen lies in the frame buffer. -/
theorem pixelAddress_le {width height x y : ℕ} (hx : x < width) (hy : y < height) :
    pixelAddress width x y + 4 ≤ width * height * 4 := by
  have hrow : (y + 1) * width ≤ height * width := Nat.mul_le_mul_right width hy
  rw [Nat.add_one_mul, Nat.mul_comm height] at hrow
  unfold pixelAddress
  omega

/-- The pixels of a glyph, at offsets into a frame buffer of this width. -/
def Glyph.picture (fontAscii : Byte → ℕ → Byte) (width : ℕ) (g : Glyph) : List (Block Byte) :=
  (List.range 16).flatMap fun i => (List.range 8).map fun j =>
    (pixelAddress width (8 * g.cell.1 + j) (16 * g.cell.2 + i), leBytes 4 (g.pixel fontAscii i j).toNat)

section Picture

variable {grid : Grid} {fontAscii : Byte → ℕ → Byte} {g : Glyph} {width x y base : ℕ}
  {drawn : List Glyph} {ram : Store Byte}

theorem AtCell.cell_eq {cell : ℕ × ℕ} (h : AtCell grid g.pos cell) : g.cell = cell := by
  unfold Glyph.cell
  rw [h.x_eq, h.y_eq]
  refine Prod.ext ?_ ?_
  · show (8 * (cell.1 : ℤ)).toNat / 8 = cell.1
    omega
  · show (16 * (cell.2 : ℤ)).toNat / 16 = cell.2
    omega

theorem mem_picture {b : Block Byte} : b ∈ g.picture fontAscii width ↔ ∃ i < 16, ∃ j < 8,
    b = (pixelAddress width (8 * g.cell.1 + j) (16 * g.cell.2 + i),
      leBytes 4 (g.pixel fontAscii i j).toNat) := by
  unfold Glyph.picture
  simp only [List.mem_flatMap, List.mem_map, List.mem_range]
  constructor
  · rintro ⟨i, hi, j, hj, rfl⟩
    exact ⟨i, hi, j, hj, rfl⟩
  · rintro ⟨i, hi, j, hj, rfl⟩
    exact ⟨i, hi, j, hj, rfl⟩

/-- The glyph that was drawn at a cell last. -/
def shown (drawn : List Glyph) (cell : ℕ × ℕ) : Option Glyph :=
  drawn.reverse.find? fun g => g.cell = cell

theorem shown_append (drawn : List Glyph) (g : Glyph) (cell : ℕ × ℕ) :
    shown (drawn ++ [g]) cell = if g.cell = cell then some g else shown drawn cell := by
  unfold shown
  rw [List.reverse_append, List.reverse_singleton, List.singleton_append, List.find?_cons]
  by_cases hcell : g.cell = cell
  · rw [if_pos hcell, decide_eq_true hcell]
  · rw [if_neg hcell, decide_eq_false hcell]

/-- A pixel of the cell that the glyph is drawn at. -/
theorem peek_glyph_self (hcell : g.cell = (x / 8, y / 16)) (hwidth : 8 * (x / 8) + 8 ≤ width) :
    peek (pokes ram ((g.picture fontAscii width).map (Block.shift base)))
      (base + pixelAddress width x y) 4 = leBytes 4 (g.pixel fontAscii (y % 16) (x % 8)).toNat := by
  have hx : 8 * g.cell.1 + x % 8 = x := by
    rw [hcell]
    exact Nat.div_add_mod x 8
  have hy : 16 * g.cell.2 + y % 16 = y := by
    rw [hcell]
    exact Nat.div_add_mod y 16
  have hmem : (pixelAddress width x y, leBytes 4 (g.pixel fontAscii (y % 16) (x % 8)).toNat) ∈
      g.picture fontAscii width :=
    mem_picture.mpr ⟨y % 16, Nat.mod_lt y (by decide), x % 8, Nat.mod_lt x (by decide), by rw [hx, hy]⟩
  refine peek_shifted_of_mem hmem fun b hb => ?_
  obtain ⟨i, hi, j, hj, rfl⟩ := mem_picture.mp hb
  by_cases hsame : i = y % 16 ∧ j = x % 8
  · obtain ⟨rfl, rfl⟩ := hsame
    rw [hx, hy]
    exact Or.inl rfl
  · right
    have hfirst : g.cell.1 = x / 8 := congrArg Prod.fst hcell
    have hapart := @pixels_apart width x y (8 * g.cell.1 + j) (16 * g.cell.2 + i) (by omega)
      (by omega) (by omega)
    unfold Block.Apart
    dsimp only
    rw [length_leBytes, length_leBytes]
    exact hapart

/-- A pixel of another cell. -/
theorem peek_glyph_of_ne (hcell : g.cell ≠ (x / 8, y / 16)) (hx : x < width)
    (hwidth : 8 * g.cell.1 + 8 ≤ width) :
    peek (pokes ram ((g.picture fontAscii width).map (Block.shift base)))
      (base + pixelAddress width x y) 4 = peek ram (base + pixelAddress width x y) 4 := by
  refine peek_shifted_of_apart fun b hb => ?_
  obtain ⟨i, hi, j, hj, rfl⟩ := mem_picture.mp hb
  have hne : x ≠ 8 * g.cell.1 + j ∨ y ≠ 16 * g.cell.2 + i := by
    by_contra hsame
    refine hcell (Prod.ext ?_ ?_)
    · show g.cell.1 = x / 8
      omega
    · show g.cell.2 = y / 16
      omega
  rw [length_leBytes]
  exact pixels_apart hx (by omega) hne

/-- **The picture.** Every pixel belongs to the glyph that was drawn at its cell last. -/
theorem peek_picture {columns : ℕ} (hdrawn : ∀ g ∈ drawn, g.cell.1 < columns) (hx : x < 8 * columns) :
    peek (pokes ram ((drawn.flatMap (Glyph.picture fontAscii (8 * columns))).map (Block.shift base)))
        (base + pixelAddress (8 * columns) x y) 4 =
      match shown drawn (x / 8, y / 16) with
      | some g => leBytes 4 (g.pixel fontAscii (y % 16) (x % 8)).toNat
      | none => peek ram (base + pixelAddress (8 * columns) x y) 4 := by
  induction drawn using List.reverseRecOn with
  | nil => rfl
  | append_singleton drawn g ih =>
      have hg : g.cell.1 < columns := hdrawn g (List.mem_append_right _ List.mem_cons_self)
      have ih := ih fun g hg => hdrawn g (List.mem_append_left _ hg)
      rw [List.flatMap_append, List.map_append, pokes_append, List.flatMap_singleton, shown_append]
      by_cases hcell : g.cell = (x / 8, y / 16)
      · rw [if_pos hcell]
        exact peek_glyph_self hcell (by omega)
      · rw [if_neg hcell, peek_glyph_of_ne hcell hx (by omega), ih]

end Picture

end Knos.Printk
