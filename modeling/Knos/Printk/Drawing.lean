import Knos.Printk.Cursor
import Knos.Printk.Formats
import Knos.Printk.Room

/-!
# Drawing a text

The loop of `vcolor_printk` jumps into the branch of the tab from the top of a round, with the
counter set back, until the columns of the tab are drawn. What it draws is what a plain fold
over the text draws, which takes every character once (`drawText_eq_foldl`).

A character and a backspace undo each other, so a text of characters with as many backspaces
behind it leaves the cursor where it was (`backspaces_return`), as long as `printk_buf` holds
the text.
-/

namespace Knos.Printk

open Knos.Bytes Knos.Stack Knos.Pieces

/-! ## §1  The plain fold -/

/-- A glyph at the cursor, and the cursor behind it. -/
def Screen.drawGlyph (charColor bgColor : Color) (font : Byte) (s : Screen) : Screen :=
  let s := s.putColorChar charColor bgColor font
  { s with pos := s.pos.advance.boundaryCheck }

/-- The columns up to the next stop of the tabulator. -/
def Position.tabSpaces (pos : Position) : ℕ := 8 - (pos.xPosition / pos.xCharSize).toNat % 8

/-- One character of the text. -/
def plainChar (charColor bgColor : Color) (s : Screen) (c : Byte) : Screen :=
  if c = 0x0a then { s with pos := s.pos.newline.boundaryCheck }
  else if c = 0x08 then
    let s := { s with pos := s.pos.backspace }
    let s := s.putColorChar charColor bgColor (chr ' ')
    { s with pos := s.pos.boundaryCheck }
  else if c = 0x09 then (Screen.drawGlyph charColor bgColor (chr ' '))^[s.pos.tabSpaces] s
  else s.drawGlyph charColor bgColor c

section Fold

variable {cells : Cells} {cell : ℕ × ℕ} {charColor bgColor : Color} {s : Screen}

theorem pos_drawGlyph (h : OnCell cells s.pos cell) (font : Byte) :
    (s.drawGlyph charColor bgColor font).pos = s.pos.place (cells.next cell) := h.advance_check

theorem OnCell.drawGlyph (h : OnCell cells s.pos cell) (font : Byte) :
    OnCell cells (s.drawGlyph charColor bgColor font).pos (cells.next cell) := by
  rw [pos_drawGlyph h]
  exact h.place h.has.next

theorem OnCell.drawSpaces (h : OnCell cells s.pos cell) (n : ℕ) :
    OnCell cells ((Screen.drawGlyph charColor bgColor (chr ' '))^[n] s).pos
      (cells.next^[n] cell) := by
  induction n generalizing s cell with
  | zero => exact h
  | succ n ih => exact ih (h.drawGlyph _)

/-- Every character leaves the cursor at a cell. -/
theorem OnCell.plainChar (h : OnCell cells s.pos cell) (c : Byte) :
    ∃ cell', OnCell cells (plainChar charColor bgColor s c).pos cell' := by
  unfold Printk.plainChar
  split_ifs
  · rw [h.newline_check]
    exact ⟨_, h.place cells.down_has⟩
  · have hback : OnCell cells s.pos.backspace (cells.prev cell) := by
      rw [h.backspace_eq]
      exact h.place h.has.prev
    refine ⟨cells.prev cell, ?_⟩
    show OnCell cells s.pos.backspace.boundaryCheck _
    rw [hback.boundaryCheck_eq]
    exact hback
  · exact ⟨_, h.drawSpaces _⟩
  · exact ⟨_, h.drawGlyph _⟩

theorem OnCell.tabSpaces_eq (h : OnCell cells s.pos cell) : s.pos.tabSpaces = 8 - cell.1 % 8 := by
  unfold Position.tabSpaces
  rw [h.x_eq, h.xCharSize_eq, Int.mul_ediv_cancel_left _ (by decide), Int.toNat_natCast]

/-- What the loop computes with a mask. -/
theorem OnCell.tabLine_eq_tabSpaces (h : OnCell cells s.pos cell) :
    s.pos.tabLine = s.pos.tabSpaces := by
  rw [h.tabLine_eq, h.tabSpaces_eq]
  omega

end Fold

/-! ## §2  The loop -/

section Loop

variable {cells : Cells} {cell : ℕ × ℕ} {charColor bgColor : Color} {buf : List Byte} {i : ℤ}

/-- A round of a tab in progress stays at its character. -/
theorem drawRound_tab (count : ℤ) (n : ℕ) (s : Screen) :
    drawRound charColor bgColor buf ⟨count, (n + 1 : ℕ), s⟩ =
      ⟨count, n, s.drawGlyph charColor bgColor (chr ' ')⟩ := by
  have hpos : (0 : ℤ) < ((n + 1 : ℕ) : ℤ) := by omega
  unfold drawRound drawBranch
  simp only [if_pos hpos]
  unfold labelTab
  dsimp only
  rw [sub_add_cancel, show ((n + 1 : ℕ) : ℤ) - 1 = n by omega]
  rfl

/-- The columns that a tab has left are drawn before the loop goes on. -/
theorem drawLoop_tab (n fuel : ℕ) (count : ℤ) (s : Screen) :
    drawLoop charColor bgColor buf i (fuel + n) ⟨count, n, s⟩ =
      drawLoop charColor bgColor buf i fuel
        ⟨count, 0, (Screen.drawGlyph charColor bgColor (chr ' '))^[n] s⟩ := by
  induction n generalizing s with
  | zero => rfl
  | succ n ih =>
      have hmore : count < i ∨ ((n + 1 : ℕ) : ℤ) ≠ 0 := Or.inr (by omega)
      rw [← Nat.add_assoc, drawLoop, if_pos hmore, drawRound_tab, ih, Function.iterate_succ_apply]

/-- A round whose character is no tab. -/
theorem drawRound_plain {s : Screen} {count : ℤ} {c : Byte} (hc : buf.getD count.toNat 0 = c)
    (htab : c ≠ 0x09) : drawRound charColor bgColor buf ⟨count, 0, s⟩ =
      ⟨count + 1, 0, plainChar charColor bgColor s c⟩ := by
  unfold drawRound drawBranch plainChar
  simp only [lt_irrefl, if_false, hc, if_neg htab]
  split_ifs with hnewline hback
  · rfl
  · rfl
  · rfl

/-- **A round takes a character**, and leaves less than eight columns of a tab behind. -/
theorem drawRound_char {s : Screen} (h : OnCell cells s.pos cell) {count : ℕ} {c : Byte}
    (hc : buf.getD count 0 = c) :
    ∃ (n : ℕ) (s' : Screen), n ≤ 7 ∧
      drawRound charColor bgColor buf ⟨count, 0, s⟩ = ⟨count + 1, n, s'⟩ ∧
        (Screen.drawGlyph charColor bgColor (chr ' '))^[n] s' = plainChar charColor bgColor s c := by
  have hchar : buf.getD (count : ℤ).toNat 0 = c := hc
  by_cases htab : c = 0x09
  · subst htab
    have hspaces := h.tabSpaces_eq
    have hsucc : s.pos.tabSpaces = (s.pos.tabSpaces - 1) + 1 := by omega
    refine ⟨s.pos.tabSpaces - 1, s.drawGlyph charColor bgColor (chr ' '), by omega, ?_, ?_⟩
    · unfold drawRound drawBranch labelTab
      simp only [lt_irrefl, if_false, hchar, if_neg (show ¬ (0x09 : Byte) = 0x0a by decide),
        if_neg (show ¬ (0x09 : Byte) = 0x08 by decide), if_true]
      rw [h.tabLine_eq_tabSpaces,
        show (s.pos.tabSpaces : ℤ) - 1 = (s.pos.tabSpaces - 1 : ℕ) by omega]
      rfl
    · rw [← Function.iterate_succ_apply, Nat.succ_eq_add_one, ← hsucc]
      rfl
  · exact ⟨0, _, by omega, drawRound_plain hchar htab, rfl⟩

/-- The loop from a place in the text on, with fuel for eight rounds a character. -/
theorem drawLoop_eq_foldl (pre text rest : List Byte) {s : Screen} (h : OnCell cells s.pos cell)
    {fuel : ℕ} (hfuel : 8 * text.length < fuel) :
    drawLoop charColor bgColor (pre ++ (text ++ rest)) (pre.length + text.length : ℕ) fuel
        ⟨pre.length, 0, s⟩ =
      (.ok (), ⟨(pre.length + text.length : ℕ), 0, text.foldl (plainChar charColor bgColor) s⟩) := by
  induction text generalizing pre s cell fuel with
  | nil =>
      obtain ⟨fuel, rfl⟩ : ∃ n, fuel = n + 1 := ⟨fuel - 1, by omega⟩
      have hdone :
          ¬ ((pre.length : ℤ) < (pre.length + ([] : List Byte).length : ℕ) ∨ (0 : ℤ) ≠ 0) := by
        rw [List.length_nil]
        omega
      rw [drawLoop, if_neg hdone]
      rfl
  | cons c text ih =>
      rw [List.length_cons] at hfuel
      have hget : (pre ++ (c :: text ++ rest)).getD pre.length 0 = c := by
        rw [List.getD_append_right _ _ _ _ le_rfl, Nat.sub_self]
        rfl
      obtain ⟨n, s', hn, hround, hspaces⟩ :=
        @drawRound_char cells cell charColor bgColor _ s h _ c hget
      obtain ⟨cell', hcell'⟩ := @OnCell.plainChar cells cell charColor bgColor s h c
      obtain ⟨fuel, rfl⟩ : ∃ m, fuel = m + n + 1 := ⟨fuel - n - 1, by omega⟩
      have hmore : (pre.length : ℤ) < (pre.length + (c :: text).length : ℕ) ∨ (0 : ℤ) ≠ 0 := by
        rw [List.length_cons]
        exact Or.inl (by omega)
      have hrest := ih (pre ++ [c]) hcell' (show 8 * text.length < fuel by omega)
      have hlength : (pre ++ [c]).length + text.length = pre.length + (c :: text).length := by
        rw [List.length_append, List.length_singleton, List.length_cons]
        omega
      rw [hlength, List.append_assoc, List.singleton_append] at hrest
      rw [drawLoop, if_pos hmore, hround, drawLoop_tab, hspaces, List.foldl_cons, ← hrest,
        List.length_append, List.length_singleton]
      rfl

theorem drawText_plain {s : Screen} (h : OnCell cells s.pos cell) (text rest : List Byte) :
    drawText charColor bgColor (text ++ rest) text.length s =
      (.ok text.length, text.foldl (plainChar charColor bgColor) s) := by
  have hloop := @drawLoop_eq_foldl cells cell charColor bgColor [] text rest s h
    (8 * text.length + 1) (Nat.lt_succ_self _)
  simp only [List.length_nil, Nat.zero_add, List.nil_append, Nat.cast_zero] at hloop
  unfold drawText
  rw [Int.toNat_natCast, hloop]

/-- **The loop draws what the plain fold draws**, and comes to an end. -/
theorem drawText_eq_foldl {s : Screen} (h : OnCell cells s.pos cell) (text rest : List Byte) :
    drawText charColor bgColor (text ++ rest) text.length s =
      (.ok text.length, text.foldl (plainChar charColor bgColor) s) :=
  drawText_plain h text rest

end Loop

/-- A tab that begins in the first column and one that ends the text. -/
theorem drawText_eq_foldl_tabs :
    drawText WHITE BLACK ([0x09, chr 'a', 0x09] ++ [0]) 3 ⟨initVbeInfo loaderMode, []⟩ =
      (.ok 3, [0x09, chr 'a', 0x09].foldl (plainChar WHITE BLACK) ⟨initVbeInfo loaderMode, []⟩) :=
  drawText_eq_foldl (atCell_init wholeCharacters_loaderMode).toOnCell [0x09, chr 'a', 0x09] [0]

/-! ## §3  Calls -/

section Calls

variable {cells : Cells} {cell : ℕ × ℕ} {fg bg : Color} {s : Screen}

/-- A text that is shorter than `printk_buf` is drawn as a whole. -/
theorem vcolorPrintk_of_fits (h : OnCell cells s.pos cell) (kernel : Kernel) (memory : Memory)
    (fmt : List Byte) (args : ℕ → Word)
    (hfits : (rendering memory (fmt ++ [0]) args).length < 4096) :
    vcolorPrintk kernel fg bg memory (fmt ++ [0]) args s =
      (.ok (rendering memory (fmt ++ [0]) args).length,
        (rendering memory (fmt ++ [0]) args).foldl (plainChar fg bg) s) := by
  obtain ⟨counts, hok, -⟩ := vsnprintf_of_fits kernel.printkBuf memory fmt args hfits
  have hret : (finish kernel.printkBuf ⟨rendering memory (fmt ++ [0]) args, counts⟩).ret =
      (rendering memory (fmt ++ [0]) args).length := by
    rw [← int32_of_lt (show (rendering memory (fmt ++ [0]) args).length < 2 ^ 31 by omega)]
    exact if_pos hfits
  have hroom : ¬ kernel.printkBuf.size ≤
      (BitVec.ofInt 64 ((rendering memory (fmt ++ [0]) args).length : ℤ)).toNat := by
    show ¬ 4096 ≤ _
    rw [BitVec.ofInt_natCast, BitVec.toNat_ofNat]
    omega
  have hbehind : s.pos.storeBehind
      (finish kernel.printkBuf ⟨rendering memory (fmt ++ [0]) args, counts⟩).written = s.pos := by
    refine storeBehind_of_le ?_
    show (rendering memory (fmt ++ [0]) args ++ [0]).length ≤ 4096
    rw [List.length_append]
    exact hfits
  unfold vcolorPrintk
  rw [hok]
  dsimp only
  rw [hbehind, hret, if_neg hroom]
  exact drawText_plain h _ _

/-! ### Characters and backspaces -/

/-- No newline, backspace or tab. -/
def Ordinary (c : Byte) : Prop := c ≠ 0x0a ∧ c ≠ 0x08 ∧ c ≠ 0x09

instance (c : Byte) : Decidable (Ordinary c) := inferInstanceAs (Decidable (_ ∧ _))

theorem plainChar_of_ordinary {c : Byte} (hc : Ordinary c) :
    plainChar fg bg s c = s.drawGlyph fg bg c := by
  unfold plainChar
  rw [if_neg hc.1, if_neg hc.2.1, if_neg hc.2.2]

theorem pos_foldl_ordinary {text : List Byte} (htext : ∀ c ∈ text, Ordinary c)
    (h : OnCell cells s.pos cell) :
    (text.foldl (plainChar fg bg) s).pos = s.pos.place (cells.next^[text.length] cell) := by
  induction text generalizing s cell with
  | nil => exact h.place_self.symm
  | cons c text ih =>
      rw [List.forall_mem_cons] at htext
      rw [List.foldl_cons, plainChar_of_ordinary htext.1, ih htext.2 (h.drawGlyph c),
        pos_drawGlyph h, Position.place_place]
      rfl

theorem pos_backspace (h : OnCell cells s.pos cell) :
    (plainChar fg bg s 0x08).pos = s.pos.place (cells.prev cell) := by
  show s.pos.backspace.boundaryCheck = _
  rw [h.backspace_eq, (h.place h.has.prev).boundaryCheck_eq]

theorem pos_foldl_backspaces (k : ℕ) (h : OnCell cells s.pos cell) :
    ((List.replicate k 0x08).foldl (plainChar fg bg) s).pos = s.pos.place (cells.prev^[k] cell) := by
  induction k generalizing s cell with
  | zero => exact h.place_self.symm
  | succ k ih =>
      have hback := @pos_backspace cells cell fg bg s h
      have hcell : OnCell cells (plainChar fg bg s 0x08).pos (cells.prev cell) := by
        rw [hback]
        exact h.place h.has.prev
      rw [List.replicate_succ, List.foldl_cons, ih hcell, hback, Position.place_place]
      rfl

/-- What characters and some backspaces make of the cursor. -/
theorem pos_foldl_text {text : List Byte} (htext : ∀ c ∈ text, Ordinary c) (k : ℕ)
    (h : OnCell cells s.pos cell) :
    ((text ++ List.replicate k 0x08).foldl (plainChar fg bg) s).pos =
      s.pos.place (cells.prev^[k] (cells.next^[text.length] cell)) := by
  have hfold := @pos_foldl_ordinary cells cell fg bg s text htext h
  have hcell : OnCell cells (text.foldl (plainChar fg bg) s).pos
      (cells.next^[text.length] cell) := by
    rw [hfold]
    exact h.place (h.has.iterate_next _)
  rw [List.foldl_append, pos_foldl_backspaces k hcell, hfold, Position.place_place]

/-- **As many backspaces as characters** leave the cursor where it was: in the loop whatever
their number, in a call as long as `printk_buf` holds them. -/
theorem backspaces_return {text : List Byte} (h : OnCell cells s.pos cell)
    (htext : ∀ c ∈ text, Ordinary c) :
    (∀ rest, (drawText fg bg (text ++ List.replicate text.length 0x08 ++ rest)
        (text ++ List.replicate text.length 0x08).length s).2.pos = s.pos) ∧
      ∀ kernel memory fmt args, rendering memory (fmt ++ [0]) args =
          text ++ List.replicate text.length 0x08 → 2 * text.length ≤ 4095 →
        (vcolorPrintk kernel fg bg memory (fmt ++ [0]) args s).2.pos = s.pos := by
  have hfold :
      ((text ++ List.replicate text.length 0x08).foldl (plainChar fg bg) s).pos = s.pos := by
    rw [pos_foldl_text htext _ h, Cells.iterate_prev_next h.has, h.place_self]
  constructor
  · intro rest
    rw [drawText_plain h]
    exact hfold
  · intro kernel memory fmt args hrendering hshort
    have hlength : (rendering memory (fmt ++ [0]) args).length < 4096 := by
      rw [hrendering, List.length_append, List.length_replicate]
      omega
    rw [vcolorPrintk_of_fits h kernel memory fmt args hlength, hrendering]
    exact hfold

end Calls

/-- Two characters from the last cell of the screen on, and two backspaces. -/
theorem backspaces_return_corner :
    (drawText WHITE BLACK ([chr 'a', chr 'b'] ++ [0x08, 0x08] ++ [0]) 4
        ⟨(initVbeInfo loaderMode).place (127, 47), []⟩).2.pos =
          (initVbeInfo loaderMode).place (127, 47) ∧
      (vcolorPrintk blankKernel WHITE BLACK emptyMemory
        ([chr 'a', chr 'b', 0x08, 0x08] ++ [0]) (sameArgs 0)
        ⟨(initVbeInfo loaderMode).place (127, 47), []⟩).2.pos =
          (initVbeInfo loaderMode).place (127, 47) :=
  have hcorner : OnCell wholeCharacters_loaderMode.grid.toCells
      ((initVbeInfo loaderMode).place (127, 47)) (127, 47) :=
    (atCell_init wholeCharacters_loaderMode).toOnCell.place ⟨by decide, by decide⟩
  have htext : ∀ c ∈ [chr 'a', chr 'b'], Ordinary c := by decide
  ⟨(backspaces_return hcorner htext).1 [0],
    (backspaces_return hcorner htext).2 blankKernel emptyMemory [chr 'a', chr 'b', 0x08, 0x08]
      (sameArgs 0) (by decide +kernel) (by decide)⟩

/-! ### A text that does not fit -/

section Literals

theorem piecesOf_literals (text : List Byte) : piecesOf (literalFields text) = singles text := by
  induction text with
  | nil => rfl
  | cons c text ih =>
      show [[c]] ++ piecesOf (literalFields text) = _
      rw [ih]
      rfl

theorem not_overruns_literals (b : Buffer) (offset : ℕ) (text : List Byte) :
    ¬ Overruns b offset (literalFields text) := by
  induction text generalizing offset with
  | nil => exact id
  | cons c text ih =>
      rintro ⟨-, hwraps | hrest⟩
      · exact hwraps
      · exact ih _ hrest

variable {text : List Byte} (htext : ∀ c ∈ text, c ≠ 0 ∧ c ≠ chr '%')

include htext

theorem fieldsOf_literals (memory : Memory) (args : ℕ → Word) :
    fieldsOf memory (text ++ [0]) args = literalFields text := by
  unfold fieldsOf
  rw [List.length_append, List.length_singleton, Nat.add_assoc,
    fieldsFrom_literals memory args htext]
  exact List.append_nil _

/-- Of a text that is as long as `printk_buf` the last character is not drawn, and its terminator
is stored behind the buffer. -/
theorem vcolorPrintk_of_full (kernel : Kernel) (memory : Memory) (args : ℕ → Word) {fg bg : Color}
    (s : Screen) (hlength : text.length = 4096) :
    (vcolorPrintk kernel fg bg memory (text ++ [0]) args s).2 =
      (drawText fg bg (text ++ [0]) 4095 { s with pos := s.pos.storeBehind (text ++ [0]) }).2 := by
  have hover : ¬ Overruns kernel.printkBuf 0 (fieldsOf memory (text ++ [0]) args) := by
    rw [fieldsOf_literals htext]
    exact not_overruns_literals _ _ _
  obtain ⟨counts, hok, -⟩ := vsnprintf_of_roomy kernel.printkBuf memory text args
    (show 1 ≤ 4096 by decide) hover
  rw [fieldsOf_literals htext, piecesOf_literals, fill_singles,
    List.take_of_length_le (show text.length ≤ kernel.printkBuf.size from hlength.le)] at hok
  have hret : (finish kernel.printkBuf ⟨text, counts⟩).ret = 4095 := by
    show (if text.length < 4096 then _ else int32 (int32 4096 - 1)) = _
    rw [if_neg (by omega)]
    decide
  have hroom : ¬ kernel.printkBuf.size ≤ (BitVec.ofInt 64 4095).toNat :=
    (by decide : ¬ 4096 ≤ (BitVec.ofInt 64 4095).toNat)
  unfold vcolorPrintk
  rw [hok]
  dsimp only
  rw [hret, if_neg hroom]
  rfl

end Literals

/-- 2048 characters and as many backspaces. -/
def manyBackspaces : List Byte := List.replicate 2048 (chr 'a') ++ List.replicate 2048 0x08

/-- The last of 2048 backspaces is cut off. -/
theorem backspaces_cut_off :
    (vcolorPrintk blankKernel WHITE BLACK emptyMemory (manyBackspaces ++ [0]) (sameArgs 0)
      ⟨initVbeInfo loaderMode, []⟩).2.pos ≠ initVbeInfo loaderMode := by
  have hinit := (atCell_init wholeCharacters_loaderMode).toOnCell
  have hliteral : ∀ c ∈ manyBackspaces, c ≠ 0 ∧ c ≠ chr '%' := by
    intro c hc
    rcases List.mem_append.mp hc with hc | hc
    · rw [List.eq_of_mem_replicate hc]
      decide
    · rw [List.eq_of_mem_replicate hc]
      decide
  have hordinary : ∀ c ∈ List.replicate 2048 (chr 'a'), Ordinary c := by
    intro c hc
    rw [List.eq_of_mem_replicate hc]
    exact ⟨by decide, by decide, by decide⟩
  have hsplit : manyBackspaces =
      (List.replicate 2048 (chr 'a') ++ List.replicate 2047 0x08) ++ [0x08] := by
    unfold manyBackspaces
    rw [List.append_assoc, ← List.replicate_succ']
  have hlength : manyBackspaces.length = 4096 := by
    unfold manyBackspaces
    rw [List.length_append, List.length_replicate, List.length_replicate]
  have hshown : (4095 : ℤ) =
      (List.replicate 2048 (chr 'a') ++ List.replicate 2047 0x08).length := by
    rw [List.length_append, List.length_replicate, List.length_replicate]
    rfl
  have hcell : wholeCharacters_loaderMode.grid.prev^[2047]
      (wholeCharacters_loaderMode.grid.next^[2048] (0, 0)) = (1, 0) := by
    rw [Function.iterate_succ_apply _ 2047, Cells.iterate_prev_next hinit.has.next]
    decide
  -- the width of this screen is a multiple of 256, so the terminator changes nothing
  rw [vcolorPrintk_of_full hliteral blankKernel emptyMemory (sameArgs 0) _ hlength,
    hinit.storeBehind_of_dvd hlength (by decide), hsplit, hshown, List.append_assoc _ [0x08],
    drawText_plain hinit,
    pos_foldl_text hordinary 2047 hinit, List.length_replicate, hcell]
  intro h
  exact absurd (congrArg Position.xPosition h) (show ¬ (8 * ((1 : ℕ) : ℤ) = 0) by decide)

end Knos.Printk
