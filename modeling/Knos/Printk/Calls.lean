import Knos.Printk.Drawing

/-!
# Sequences of calls

As long as `printk_buf` holds every text that is printed, every glyph of a run is drawn at a
cell of the screen. A longer text stores its terminator into the width. This changes nothing
exactly where the width is a multiple of 256 (`glyphs_placed_iff`). On every other screen a
backspace at the first cell and then such a text draw a glyph behind the right edge, and on
one that is narrower than 256 pixels a glyph may leave the frame buffer.
-/

namespace Knos.Printk

open Knos.Bytes Knos.Stack Knos.Pieces

/-! ## §1  Calls that keep the width -/

/-- `printk_buf` holds the text and its terminator. -/
def PrintCall.Fits (call : PrintCall) : Prop :=
  (rendering call.memory call.fmt call.args).length < 4096

section Calls

variable {grid : Grid} {kernel : Kernel} {s : Screen} {fg bg : Color} {tag fmt : List Byte}
  {memory : Memory} {args : ℕ → Word}

/-- What `vsnprintf` stores behind the buffer changes nothing, if it is stored at all. -/
theorem OnCell.storeBehind_written {cells : Cells} {cell : ℕ × ℕ} (h : OnCell cells s.pos cell)
    {o : Output} (ho : vsnprintf kernel.printkBuf memory fmt args = .ok o)
    (hkeeps : 256 ∣ 8 * cells.columns ∨ (rendering memory fmt args).length < 4096) :
    s.pos.storeBehind o.written = s.pos := by
  obtain ⟨-, counts, rfl⟩ :=
    stored_of_returns kernel.printkBuf memory fmt args (show 1 ≤ 4096 by decide) ho
  have hlength := length_fill_rendering memory fmt args 4096
  show s.pos.storeBehind (fill 4096 (piecesOf (fieldsOf memory fmt args)) ++ [0]) = s.pos
  rcases Nat.lt_or_ge (rendering memory fmt args).length 4096 with hshort | hfull
  · refine storeBehind_of_le ?_
    rw [List.length_append, List.length_singleton, hlength]
    omega
  · exact h.storeBehind_of_dvd (by omega) (hkeeps.resolve_right (by omega))

/-- Such a call draws its text where the cursor is. -/
theorem vcolorPrintk_of_keeps (h : s.OnGrid grid)
    (hkeeps : 256 ∣ 8 * grid.columns ∨ (rendering memory fmt args).length < 4096) {o : Output}
    (ho : vsnprintf kernel.printkBuf memory fmt args = .ok o) :
    ∃ text i, vcolorPrintk kernel fg bg memory fmt args s = drawText fg bg text i s := by
  obtain ⟨cell, hcell⟩ := h.cursor
  unfold vcolorPrintk
  rw [ho]
  dsimp only
  rw [hcell.storeBehind_written ho hkeeps]
  split_ifs with hover
  · exact ⟨_, _, rfl⟩
  · exact ⟨_, _, rfl⟩

theorem vcolorPrintk_onGrid (h : s.OnGrid grid)
    (hkeeps : 256 ∣ 8 * grid.columns ∨ (rendering memory fmt args).length < 4096) :
    (vcolorPrintk kernel fg bg memory fmt args s).2.OnGrid grid := by
  cases ho : vsnprintf kernel.printkBuf memory fmt args with
  | error fault =>
      unfold vcolorPrintk
      rw [ho]
      exact h
  | ok o =>
      obtain ⟨text, i, hdraw⟩ := vcolorPrintk_of_keeps h hkeeps ho
      rw [hdraw]
      exact drawText_onGrid h

/-- It ends with a fault only where `vsnprintf` does. -/
theorem vcolorPrintk_ok (h : s.OnGrid grid)
    (hkeeps : 256 ∣ 8 * grid.columns ∨ (rendering memory fmt args).length < 4096) {o : Output}
    (ho : vsnprintf kernel.printkBuf memory fmt args = .ok o) :
    ∃ i, (vcolorPrintk kernel fg bg memory fmt args s).1 = .ok i := by
  obtain ⟨text, i, hdraw⟩ := vcolorPrintk_of_keeps h hkeeps ho
  rw [hdraw]
  exact ⟨_, drawText_ok h⟩

theorem logkImpl_onGrid (h : s.OnGrid grid) (htag : (rendering memory tag args).length < 4096)
    (hkeeps : 256 ∣ 8 * grid.columns ∨ (rendering memory fmt args).length < 4096) :
    (logkImpl kernel fg bg tag memory fmt args s).2.OnGrid grid := by
  have htagged := @vcolorPrintk_onGrid grid kernel s fg bg tag memory args h (Or.inr htag)
  unfold logkImpl
  generalize vcolorPrintk kernel fg bg memory tag args s = tagRun at htagged ⊢
  rcases tagRun with ⟨fault | tagRet, s₁⟩
  · exact htagged
  · have hbody := @vcolorPrintk_onGrid grid kernel s₁ fg bg fmt memory args htagged hkeeps
    dsimp only
    generalize vcolorPrintk kernel fg bg memory fmt args s₁ = bodyRun at hbody ⊢
    rcases bodyRun with ⟨fault | bodyRet, s₂⟩
    · exact hbody
    · exact hbody

/-- A tag has seven characters. -/
theorem length_rendering_tag (text : List Byte) (htext : ∀ c ∈ text, c ≠ 0 ∧ c ≠ chr '%')
    (hlength : text.length = 7) : (rendering memory (text ++ [0]) args).length < 4096 := by
  have hrendering : rendering memory (text ++ [0]) args = text := by
    unfold rendering
    rw [fieldsOf_literals htext, piecesOf_literals, flatten_singles]
  rw [hrendering, hlength]
  decide

theorem PrintCall.run_onGrid (call : PrintCall) (h : s.OnGrid grid)
    (hkeeps : 256 ∣ 8 * grid.columns ∨ call.Fits) : (call.run kernel s).2.OnGrid grid := by
  unfold PrintCall.run
  cases call.function with
  | colorPrintk fg bg => exact vcolorPrintk_onGrid h hkeeps
  | printk => exact vcolorPrintk_onGrid h hkeeps
  | logk =>
      exact logkImpl_onGrid h (length_rendering_tag infoTag.dropLast (by decide) rfl) hkeeps
  | warnk =>
      exact logkImpl_onGrid h (length_rendering_tag warnTag.dropLast (by decide) rfl) hkeeps
  | errk =>
      exact logkImpl_onGrid h (length_rendering_tag errTag.dropLast (by decide) rfl) hkeeps
  | fatalk =>
      exact logkImpl_onGrid h (length_rendering_tag fatalTag.dropLast (by decide) rfl) hkeeps

theorem printCalls_onGrid (calls : List PrintCall) (h : s.OnGrid grid)
    (hkeeps : 256 ∣ 8 * grid.columns ∨ ∀ call ∈ calls, call.Fits) :
    (printCalls kernel calls s).OnGrid grid := by
  induction calls generalizing s with
  | nil => exact h
  | cons call calls ih =>
      rw [List.forall_mem_cons] at hkeeps
      have hcall := @PrintCall.run_onGrid grid kernel s call h (hkeeps.imp_right And.left)
      unfold printCalls
      generalize call.run kernel s = run at hcall ⊢
      rcases run with ⟨fault | ret, s'⟩
      · exact hcall
      · exact ih hcall (hkeeps.imp_right And.right)

end Calls

/-! ## §2  Glyphs on the screen -/

/-- The glyph is drawn at a place of the character grid, and the width and the height that the
position structure has then are no larger than the screen. -/
structure Glyph.Placed (info : VbeInfo) (g : Glyph) : Prop where
  x_nonneg : 0 ≤ g.pos.xPosition
  x_le : g.pos.xPosition ≤ g.pos.xResolution - 8
  x_dvd : 8 ∣ g.pos.xPosition
  xResolution_le : g.pos.xResolution ≤ info.xResolution.toNat
  y_nonneg : 0 ≤ g.pos.yPosition
  y_le : g.pos.yPosition ≤ g.pos.yResolution - 16
  y_dvd : 16 ∣ g.pos.yPosition
  yResolution_le : g.pos.yResolution ≤ info.yResolution.toNat

/-- Every glyph of a run is placed on the screen, and stores nothing outside the frame buffer. -/
def GlyphsPlaced (kernel : Kernel) (info : VbeInfo) (calls : List PrintCall) : Prop :=
  ∀ g ∈ (printCalls kernel calls ⟨initVbeInfo info, []⟩).drawn, g.Placed info ∧
    ∀ st ∈ g.stores kernel.fontAscii,
      0 ≤ st.offset ∧ st.offset + 4 ≤ (initVbeInfo info).frameBufferLength

section Placed

variable {info : VbeInfo} {kernel : Kernel}

theorem onGrid_init (hinfo : WholeCharacters info) :
    Screen.OnGrid hinfo.grid ⟨initVbeInfo info, []⟩ :=
  ⟨⟨(0, 0), atCell_init hinfo⟩, fun _ hnone => absurd hnone List.not_mem_nil⟩

theorem eight_columns (hinfo : WholeCharacters info) :
    8 * hinfo.grid.columns = info.xResolution.toNat := Nat.mul_div_cancel' hinfo.width_dvd

theorem glyphsPlaced_of_keeps (hinfo : WholeCharacters info) (calls : List PrintCall)
    (hkeeps : 256 ∣ info.xResolution.toNat ∨ ∀ call ∈ calls, call.Fits) :
    GlyphsPlaced kernel info calls := by
  intro g hg
  have hinit := atCell_init hinfo
  rw [← eight_columns hinfo] at hkeeps
  obtain ⟨cell, hcell⟩ :=
    (@printCalls_onGrid hinfo.grid kernel _ calls (onGrid_init hinfo) hkeeps).drawn g hg
  have hcol := hcell.has.column_lt
  have hrow := hcell.has.row_lt
  have hcolumns : (info.xResolution.toNat : ℤ) = 8 * hinfo.grid.columns := hinit.xResolution_eq
  have hrows : (info.yResolution.toNat : ℤ) = 16 * hinfo.grid.rows := hinit.yResolution_eq
  refine ⟨?_, fun st hst => ?_⟩
  · have hx := hcell.x_eq
    have hy := hcell.y_eq
    have hwidth := hcell.xResolution_eq
    have hheight := hcell.yResolution_eq
    constructor <;> omega
  · rw [hinit.length_eq, ← hcell.length_eq]
    exact hcell.stores_inside kernel.fontAscii st hst

end Placed

/-! ## §3  A text that fills the buffer -/

section Rounds

variable {charColor bgColor : Color} {buf : List Byte} {i : ℤ} {d : Drawing} {g : Glyph}

/-- What has been drawn stays drawn. -/
theorem mem_drawRound (h : g ∈ d.screen.drawn) :
    g ∈ (drawRound charColor bgColor buf d).screen.drawn := by
  unfold drawRound drawBranch labelTab
  dsimp only
  split_ifs
  · exact List.mem_append_left _ h
  · exact h
  · exact List.mem_append_left _ h
  · exact List.mem_append_left _ h
  · exact List.mem_append_left _ h

theorem mem_drawLoop (fuel : ℕ) (h : g ∈ d.screen.drawn) :
    g ∈ (drawLoop charColor bgColor buf i fuel d).2.screen.drawn := by
  induction fuel generalizing d with
  | zero => exact h
  | succ fuel ih =>
      unfold drawLoop
      split_ifs with hmore
      · exact ih (mem_drawRound h)
      · exact h

/-- The glyphs of the first rounds are among those of the loop. -/
theorem mem_drawLoop_rounds (fuel n : ℕ)
    (hmore : ∀ m < n, ((drawRound charColor bgColor buf)^[m] d).count < i)
    (h : g ∈ ((drawRound charColor bgColor buf)^[n] d).screen.drawn) :
    g ∈ (drawLoop charColor bgColor buf i (fuel + n) d).2.screen.drawn := by
  induction n generalizing d with
  | zero => exact mem_drawLoop fuel h
  | succ n ih =>
      have hfirst : d.count < i := hmore 0 (Nat.succ_pos n)
      rw [← Nat.add_assoc, drawLoop, if_pos (Or.inl hfirst)]
      refine ih (fun m hm => ?_) ?_
      · rw [← Function.iterate_succ_apply]
        exact hmore (m + 1) (Nat.succ_lt_succ hm)
      · rwa [← Function.iterate_succ_apply]

theorem mem_drawText {s : Screen} (n : ℕ) (hfuel : n ≤ 8 * i.toNat + 1)
    (hmore : ∀ m < n, ((drawRound charColor bgColor buf)^[m] ⟨0, 0, s⟩).count < i)
    (h : g ∈ ((drawRound charColor bgColor buf)^[n] ⟨0, 0, s⟩).screen.drawn) :
    g ∈ (drawText charColor bgColor buf i s).2.drawn := by
  have hloop := mem_drawLoop_rounds (8 * i.toNat + 1 - n) n hmore h
  rw [Nat.sub_add_cancel hfuel] at hloop
  unfold drawText
  generalize drawLoop charColor bgColor buf i (8 * i.toNat + 1) ⟨0, 0, s⟩ = run at hloop ⊢
  rcases run with ⟨⟨fault⟩ | ⟨⟩, d⟩
  · exact hloop
  · exact hloop

end Rounds

section Full

theorem printCalls_single (kernel : Kernel) (call : PrintCall) (s : Screen) :
    printCalls kernel [call] s = (call.run kernel s).2 := by
  unfold printCalls
  generalize call.run kernel s = run
  rcases run with ⟨fault | ret, s'⟩
  · rfl
  · rfl

/-- A text that fills `printk_buf`. -/
def fullText : List Byte := chr 'a' :: 0x08 :: List.replicate 4094 (chr 'a')

theorem literal_fullText : ∀ c ∈ fullText, c ≠ 0 ∧ c ≠ chr '%' := by
  refine List.forall_mem_cons.mpr ⟨by decide, List.forall_mem_cons.mpr ⟨by decide, fun c hc => ?_⟩⟩
  rw [List.eq_of_mem_replicate hc]
  decide

theorem length_fullText : fullText.length = 4096 := by
  unfold fullText
  rw [List.length_cons, List.length_cons, List.length_replicate]

def fullCall : PrintCall := ⟨.printk, emptyMemory, fullText ++ [0], sameArgs 0⟩

theorem printCalls_fullCall (kernel : Kernel) (s : Screen) : printCalls kernel [fullCall] s =
    (drawText WHITE BLACK (fullText ++ [0]) 4095
      { s with pos := s.pos.storeBehind (fullText ++ [0]) }).2 := by
  rw [printCalls_single, fullCall, PrintCall.run,
    vcolorPrintk_of_full literal_fullText kernel emptyMemory (sameArgs 0) s length_fullText]

theorem fullText_eq :
    fullText ++ [0] = chr 'a' :: 0x08 :: (List.replicate 4094 (chr 'a') ++ [0]) := by
  unfold fullText
  rw [List.cons_append, List.cons_append]

/-- The first round of the text draws its first character where the cursor is. -/
theorem first_round (rest : List Byte) (s : Screen) :
    drawRound WHITE BLACK (chr 'a' :: 0x08 :: rest) ⟨0, 0, s⟩ =
      ⟨1, 0, s.drawGlyph WHITE BLACK (chr 'a')⟩ := by
  rw [drawRound_plain (c := chr 'a') rfl (by decide), plainChar_of_ordinary (by decide)]
  rfl

theorem first_glyph (s : Screen) : ⟨s.pos, WHITE, BLACK, chr 'a'⟩ ∈
    (drawText WHITE BLACK (fullText ++ [0]) 4095 s).2.drawn := by
  rw [fullText_eq]
  refine mem_drawText 1 (by decide) (fun m hm => ?_) ?_
  · obtain rfl : m = 0 := by omega
    exact (by decide : (0 : ℤ) < 4095)
  · rw [Function.iterate_one, first_round]
    exact List.mem_append_right _ List.mem_cons_self

/-- A backspace, from the first cell to the last, and a text that fills `printk_buf`. -/
def edgeCalls : List PrintCall := [⟨.printk, emptyMemory, [0x08] ++ [0], sameArgs 0⟩, fullCall]

variable {info : VbeInfo}

/-- The first glyph of the text is drawn at the last cell, on a screen that is narrower by then. -/
theorem not_glyphsPlaced_of_not_dvd (hinfo : WholeCharacters info) (kernel : Kernel)
    (hdvd : ¬ 256 ∣ info.xResolution.toNat) : ¬ GlyphsPlaced kernel info edgeCalls := by
  have hinit := (atCell_init hinfo).toOnCell
  have hback := @vcolorPrintk_of_fits hinfo.grid.toCells (0, 0) WHITE BLACK
    ⟨initVbeInfo info, []⟩ hinit kernel emptyMemory [0x08] (sameArgs 0)
    (show (rendering emptyMemory ([0x08] ++ [0]) (sameArgs 0)).length < 4096 by decide)
  rw [show rendering emptyMemory ([0x08] ++ [0]) (sameArgs 0) = [0x08] from by decide] at hback
  have hpos := @pos_backspace hinfo.grid.toCells (0, 0) WHITE BLACK ⟨initVbeInfo info, []⟩ hinit
  rw [show [0x08].foldl (plainChar WHITE BLACK) ⟨initVbeInfo info, []⟩ =
    plainChar WHITE BLACK ⟨initVbeInfo info, []⟩ 0x08 from rfl] at hback
  generalize plainChar WHITE BLACK ⟨initVbeInfo info, []⟩ 0x08 = s at hback hpos
  have hcell : OnCell hinfo.grid.toCells s.pos (hinfo.grid.prev (0, 0)) := by
    rw [hpos]
    exact hinit.place hinit.has.prev
  have hrun : printCalls kernel edgeCalls ⟨initVbeInfo info, []⟩ =
      (drawText WHITE BLACK (fullText ++ [0]) 4095
        { s with pos := s.pos.storeBehind (fullText ++ [0]) }).2 := by
    rw [← printCalls_fullCall kernel]
    unfold edgeCalls
    rw [printCalls]
    simp only [PrintCall.run, hback]
  have hnarrow := hcell.storeBehind_full length_fullText
  generalize s.pos.storeBehind (fullText ++ [0]) = narrow at hrun hnarrow
  have hdrawn := first_glyph { s with pos := narrow }
  intro hplaced
  have hle := (hplaced _ (hrun ▸ hdrawn)).1.x_le
  have hx := hcell.x_eq
  have hprev : (hinfo.grid.prev (0, 0)).1 = hinfo.grid.columns - 1 := rfl
  have hcolumns := eight_columns hinfo
  have hpositive := hinfo.grid.columns_pos
  rw [hnarrow] at hle
  dsimp only at hle
  omega

/-- A screen of 31 by 2 characters. -/
def narrowMode : VbeInfo := ⟨248, 32, 32⟩

theorem wholeCharacters_narrowMode : WholeCharacters narrowMode := by
  constructor <;> decide

/-- The cursor at the left edge of a screen whose width has lost its low byte. -/
structure Narrowed (pos : Position) : Prop where
  xResolution_eq : pos.xResolution = 0
  xPosition_eq : pos.xPosition = 0
  xCharSize_eq : pos.xCharSize = 8

/-- Every character goes on to the next line. -/
theorem Narrowed.advance_check {pos : Position} (h : Narrowed pos) :
    Narrowed pos.advance.boundaryCheck := by
  have hx : pos.advance.xResolution ≤ pos.advance.xPosition := by
    show pos.xResolution ≤ int32 (pos.xPosition + pos.xCharSize)
    rw [h.xResolution_eq, h.xPosition_eq, h.xCharSize_eq, int32_eq (by decide) (by decide)]
    decide
  have hline : Narrowed pos.advance.newline := ⟨h.xResolution_eq, rfl, h.xCharSize_eq⟩
  unfold Position.boundaryCheck
  simp only [if_pos hx]
  split_ifs
  · exact ⟨hline.xResolution_eq, hline.xPosition_eq, hline.xCharSize_eq⟩
  · exact hline

/-- A backspace goes on to the left. -/
theorem Narrowed.backspace {pos : Position} (h : Narrowed pos) :
    pos.backspace.xPosition = -8 ∧ pos.backspace.xResolution = 0 := by
  have hx : int32 (pos.xPosition - pos.xCharSize) = -8 := by
    rw [h.xPosition_eq, h.xCharSize_eq, int32_eq (by decide) (by decide)]
    decide
  have hlast : int32 (pos.xResolution - pos.xCharSize) = -8 := by
    rw [h.xResolution_eq, h.xCharSize_eq, int32_eq (by decide) (by decide)]
    decide
  unfold Position.backspace
  simp only [hx, hlast, if_pos (show (-8 : ℤ) < 0 by decide)]
  split_ifs
  · exact ⟨rfl, h.xResolution_eq⟩
  · exact ⟨rfl, h.xResolution_eq⟩

/-- The second glyph of the text lies to the left of the screen. -/
theorem second_glyph {s : Screen} (h : Narrowed s.pos) :
    ∃ g ∈ (drawText WHITE BLACK (fullText ++ [0]) 4095 s).2.drawn,
      g.pos.xPosition = -8 ∧ g.pos.xResolution = 0 := by
  have hnext : Narrowed (s.drawGlyph WHITE BLACK (chr 'a')).pos := h.advance_check
  refine ⟨⟨(s.drawGlyph WHITE BLACK (chr 'a')).pos.backspace, WHITE, BLACK, chr ' '⟩, ?_,
    hnext.backspace⟩
  rw [fullText_eq]
  refine mem_drawText 2 (by decide) (fun m hm => ?_) ?_
  · obtain rfl | rfl : m = 0 ∨ m = 1 := by omega
    · exact (by decide : (0 : ℤ) < 4095)
    · rw [Function.iterate_one, first_round]
      exact (by decide : (1 : ℤ) < 4095)
  · rw [Function.iterate_succ_apply, Function.iterate_one, first_round,
      drawRound_plain (c := 0x08) rfl (by decide)]
    exact List.mem_append_right _ List.mem_cons_self

/-- **The terminator behind `printk_buf`.** A run whose texts all fit draws every glyph at a
cell of the screen; and every run does so exactly where the width is a multiple of 256. -/
theorem glyphs_placed_iff (hinfo : WholeCharacters info) (kernel : Kernel) :
    (∀ calls : List PrintCall, (∀ call ∈ calls, call.Fits) → GlyphsPlaced kernel info calls) ∧
      ((∀ calls, GlyphsPlaced kernel info calls) ↔ 256 ∣ info.xResolution.toNat) := by
  refine ⟨fun calls hfits => glyphsPlaced_of_keeps hinfo calls (Or.inr hfits), ?_, ?_⟩
  · intro hplaced
    by_contra hdvd
    exact not_glyphsPlaced_of_not_dvd hinfo kernel hdvd (hplaced edgeCalls)
  · intro hdvd calls
    exact glyphsPlaced_of_keeps hinfo calls (Or.inl hdvd)

theorem glyphs_placed_iff_loaderMode :
    (∀ calls : List PrintCall, (∀ call ∈ calls, call.Fits) →
        GlyphsPlaced blankKernel loaderMode calls) ∧
      ((∀ calls, GlyphsPlaced blankKernel loaderMode calls) ↔ 256 ∣ loaderMode.xResolution.toNat) :=
  glyphs_placed_iff wholeCharacters_loaderMode blankKernel

/-- The first pixel of the glyph beside this screen is stored before the frame buffer. -/
theorem glyph_left_of_screen : WholeCharacters narrowMode ∧
    (∃ g ∈ (printCalls blankKernel [fullCall] ⟨initVbeInfo narrowMode, []⟩).drawn,
      g.pos.xPosition = -8 ∧ ∃ st ∈ g.stores blankKernel.fontAscii, st.offset = -32) ∧
    ¬ GlyphsPlaced blankKernel narrowMode [fullCall] := by
  have hinit := (atCell_init wholeCharacters_narrowMode).toOnCell
  have hnarrowed : Narrowed ((initVbeInfo narrowMode).storeBehind (fullText ++ [0])) := by
    have hwidth : 248 / 256 * 256 = 0 := rfl
    rw [hinit.storeBehind_full length_fullText, eight_columns]
    exact ⟨congrArg Nat.cast hwidth, hinit.x_eq, hinit.xCharSize_eq⟩
  have hrun := printCalls_fullCall blankKernel ⟨initVbeInfo narrowMode, []⟩
  dsimp only at hrun
  generalize (initVbeInfo narrowMode).storeBehind (fullText ++ [0]) = pos at hnarrowed hrun
  obtain ⟨g, hdrawn, hx, hwidth⟩ := @second_glyph ⟨pos, []⟩ hnarrowed
  rw [← hrun] at hdrawn
  refine ⟨wholeCharacters_narrowMode, ⟨g, hdrawn, hx, ⟨pixelOffset g.pos 0 0, _⟩,
    List.mem_cons_self, ?_⟩, fun hplaced => ?_⟩
  · show pixelOffset g.pos 0 0 = -32
    unfold pixelOffset
    rw [hx, hwidth, Int.mul_zero]
    decide
  · have hle := (hplaced g hdrawn).1.x_nonneg
    omega

end Full

end Knos.Printk
