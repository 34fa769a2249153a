import Knos.Paging.KernelMap
import Knos.Printk.Calls
import Knos.Printk.Picture

/-!
# The frame buffer behind its window

The kernel draws at 0xffff800001a00000, where its map has a window of 16 MB on the frame buffer
of one virtual machine. What `put_color_char` stores there shows on the screen pixel by pixel,
and nothing else in memory changes (`screen_shows`). `Start_Kernel` fills the first 80 lines
with four bars before it prints anything (`bars_drawn`).
-/

namespace Knos.Paging

open Knos.Bytes Knos.PageTables Knos.Printk
open Knos.Stack (Word)
open Knos.Memory (physToVirtBase)

/-! ## §1  The window -/

/-- Where the frame buffer begins in physical memory. -/
def frameBuffer : ℕ := 0xe8000000

/-- Where the kernel draws. -/
def windowAddr : ℕ := 0xffff800001a00000

theorem windowAddr_eq : windowAddr = physToVirtBase + 0x1a00000 := by decide

theorem frameBuffer_window {n : ℕ} (hn : n ≤ 0x1000000) :
    Window HigherHalf headCr3 windowAddr frameBuffer n := by
  rw [windowAddr_eq]
  apply higherHalf_window
  · omega
  · intro i hi
    unfold physicalOf frameBuffer
    rw [if_neg (by omega), if_neg (by omega), if_pos (by omega), Nat.add_sub_cancel_left]
  · left
    decide

/-! ## §2  Glyphs -/

/-- The stores of a glyph, with their addresses. -/
def glyphBlocks (fontAscii : Byte → ℕ → Byte) (g : Glyph) : List (Block Byte) :=
  (g.stores fontAscii).map fun st =>
    ((g.pos.frameBufferAddr + BitVec.ofInt 64 st.offset).toNat, leBytes 4 st.color.toNat)

/-- The stores of all that was drawn. -/
def paint (kernel : Kernel) (drawn : List Glyph) (ram : Store Byte) : Option (Store Byte) :=
  storeAll headCr3 (drawn.flatMap (glyphBlocks kernel.fontAscii)) ram

section Paint

variable {grid : Grid} {g : Glyph} {drawn : List Glyph} {ram : Store Byte}

/-- No address wraps around. -/
theorem pixel_toNat {offset : ℕ} (h : offset < 2 ^ 31) :
    ((0xffff800001a00000 : Word) + BitVec.ofInt 64 (offset : ℤ)).toNat = windowAddr + offset := by
  show (0xffff800001a00000#64 + BitVec.ofInt 64 (offset : ℤ)).toNat = windowAddr + offset
  rw [BitVec.toNat_add, BitVec.ofInt_natCast, BitVec.toNat_ofNat, BitVec.toNat_ofNat]
  unfold windowAddr
  omega

theorem glyphBlocks_eq {cell : ℕ × ℕ} (fontAscii : Byte → ℕ → Byte) (h : AtCell grid g.pos cell)
    (haddr : g.pos.frameBufferAddr = 0xffff800001a00000) :
    glyphBlocks fontAscii g =
      (g.picture fontAscii (8 * grid.columns)).map (Block.shift windowAddr) := by
  have hpixel : ∀ i < 16, ∀ j < 8,
      (g.pos.frameBufferAddr + BitVec.ofInt 64 (pixelOffset g.pos i j)).toNat =
        windowAddr + pixelAddress (8 * grid.columns) (8 * g.cell.1 + j) (16 * g.cell.2 + i) := by
    intro i hi j hj
    obtain ⟨heq, hle⟩ := h.pixelOffset_eq hi hj
    have hfits := grid.fits
    rw [h.length_eq] at hle
    rw [haddr, heq, pixel_toNat (by omega), h.cell_eq]
    unfold pixelAddress
    rw [Nat.mul_comm 4]
  unfold glyphBlocks Glyph.stores Glyph.picture
  rw [List.map_flatMap, List.map_flatMap]
  refine List.flatMap_congr fun i hi => ?_
  rw [List.map_map, List.map_map]
  refine List.map_congr_left fun j hj => ?_
  exact Prod.ext (hpixel i (List.mem_range.mp hi) j (List.mem_range.mp hj)) rfl

/-- A glyph at a cell stays inside the frame buffer. -/
theorem picture_le {cell : ℕ × ℕ} (fontAscii : Byte → ℕ → Byte) (h : AtCell grid g.pos cell) :
    ∀ b ∈ g.picture fontAscii (8 * grid.columns),
      b.1 + b.2.length ≤ 8 * grid.columns * (16 * grid.rows) * 4 := by
  intro b hb
  obtain ⟨i, hi, j, hj, rfl⟩ := mem_picture.mp hb
  have hcol := h.has.column_lt
  have hrow := h.has.row_lt
  rw [h.cell_eq, length_leBytes]
  exact pixelAddress_le (by omega) (by omega)

end Paint

/-! ## §3  The screen of a run -/

section Screen

variable {info : VbeInfo} {ram : Store Byte}

/-- All glyphs of a run are at cells, and are drawn where the window is. -/
theorem drawn_inside (hinfo : WholeCharacters info) (hdvd : 256 ∣ info.xResolution.toNat)
    (kernel : Kernel) (calls : List PrintCall) :
    ∀ g ∈ (printCalls kernel calls ⟨initVbeInfo info, []⟩).drawn,
      (∃ cell, AtCell hinfo.grid g.pos cell) ∧ g.pos.frameBufferAddr = 0xffff800001a00000 := by
  intro g hg
  have hgrid := @printCalls_onGrid hinfo.grid kernel _ calls (onGrid_init hinfo)
    (Or.inl (by rwa [eight_columns]))
  have hsteady : Steady fun pos => pos.frameBufferAddr = 0xffff800001a00000 := fun _ _ _ _ h => h
  have haddr : Screen.All (fun pos => pos.frameBufferAddr = 0xffff800001a00000)
      ⟨initVbeInfo info, []⟩ := ⟨rfl, fun _ hnone => absurd hnone List.not_mem_nil⟩
  exact ⟨hgrid.drawn g hg, (printCalls_all hsteady calls haddr).drawn g hg⟩

/-- **The screen shows the text.** For every sequence of calls of the print functions, on a
mode whose frame buffer fits the window and whose width no terminator changes: no store of a
pixel faults, memory outside the frame buffer and the tables for the kernel's half stay as they
are, and every pixel of the screen is that of the glyph that was drawn at its cell last. -/
theorem screen_shows (hinfo : WholeCharacters info) (hdvd : 256 ∣ info.xResolution.toNat)
    (hfits : info.xResolution.toNat * info.yResolution.toNat * 4 ≤ 0x1000000)
    (htables : HigherHalf ram) (kernel : Kernel) (calls : List PrintCall) :
    ∃ ram', paint kernel (printCalls kernel calls ⟨initVbeInfo info, []⟩).drawn ram = some ram' ∧
      HigherHalf ram' ∧
      (∀ a, a < frameBuffer ∨
        frameBuffer + info.xResolution.toNat * info.yResolution.toNat * 4 ≤ a → ram' a = ram a) ∧
      ∀ x < info.xResolution.toNat, ∀ y < info.yResolution.toNat,
        peek ram' (frameBuffer + pixelAddress info.xResolution.toNat x y) 4 =
          match shown (printCalls kernel calls ⟨initVbeInfo info, []⟩).drawn (x / 8, y / 16) with
          | some g => leBytes 4 (g.pixel kernel.fontAscii (y % 16) (x % 8)).toNat
          | none => peek ram (frameBuffer + pixelAddress info.xResolution.toNat x y) 4 := by
  have hinside := drawn_inside hinfo hdvd kernel calls
  have hwidth := eight_columns hinfo
  have hheight : 16 * hinfo.grid.rows = info.yResolution.toNat := Nat.mul_div_cancel' hinfo.height_dvd
  generalize (printCalls kernel calls ⟨initVbeInfo info, []⟩).drawn = drawn at hinside ⊢
  have hblocks : drawn.flatMap (glyphBlocks kernel.fontAscii) =
      (drawn.flatMap (Glyph.picture kernel.fontAscii (8 * hinfo.grid.columns))).map
        (Block.shift windowAddr) := by
    rw [List.map_flatMap]
    refine List.flatMap_congr fun g hg => ?_
    obtain ⟨⟨cell, hcell⟩, haddr⟩ := hinside g hg
    exact glyphBlocks_eq kernel.fontAscii hcell haddr
  have hle : ∀ b ∈ drawn.flatMap (Glyph.picture kernel.fontAscii (8 * hinfo.grid.columns)),
      b.1 + b.2.length ≤ info.xResolution.toNat * info.yResolution.toNat * 4 := by
    intro b hb
    obtain ⟨g, hg, hb⟩ := List.mem_flatMap.mp hb
    obtain ⟨⟨cell, hcell⟩, -⟩ := hinside g hg
    rw [← hwidth, ← hheight]
    exact picture_le kernel.fontAscii hcell b hb
  obtain ⟨hstore, hkeeps⟩ := (frameBuffer_window hfits).storeAll_eq htables hle
  refine ⟨_, ?_, hkeeps, fun a ha => shifted_outside hle ha, fun x hx y hy => ?_⟩
  · unfold paint
    rw [hblocks]
    exact hstore
  · have hdrawn : ∀ g ∈ drawn, g.cell.1 < hinfo.grid.columns := by
      intro g hg
      obtain ⟨⟨cell, hcell⟩, -⟩ := hinside g hg
      rw [hcell.cell_eq]
      exact hcell.has.column_lt
    have hpicture := @peek_picture kernel.fontAscii x y frameBuffer drawn ram hinfo.grid.columns
      hdrawn (by omega)
    rw [hwidth] at hpicture ⊢
    exact hpicture

end Screen

/-! ## §4  The bars of `Start_Kernel` -/

/-- `color_value` -/
def colorValue (x : ℕ) : ℕ := x * 0xFF / 1024 % 256

/-- The four bytes of a pixel: blue, green, red, and 0. -/
def barPixel (bar x : ℕ) : List Byte :=
  let (r, g, b) :=
    if bar = 0 then (0, colorValue x, 0xFF)
    else if bar = 1 then (0, 0xFF, 0xFF - colorValue x)
    else if bar = 2 then (colorValue x, 0xFF, 0)
    else if bar = 3 then (0xFF, 0xFF - colorValue x, 0)
    else (0, 0, 0)
  [BitVec.ofNat 8 b, BitVec.ofNat 8 g, BitVec.ofNat 8 r, 0]

/-- The pixels in the order of the three loops. -/
def barPixels : List (List Byte) :=
  (List.range 4).flatMap fun bar => (List.range 20).flatMap fun _ =>
    (List.range 1024).map fun x => barPixel bar x

/-- The stores, with `frame_buffer` as it is incremented. -/
def drawPixels : ℕ → List (List Byte) → Store Byte → Option (Store Byte)
  | _, [], ram => some ram
  | frameBuffer, pixel :: pixels, ram => do
      let ram ← storeBytes headCr3 frameBuffer pixel ram
      drawPixels (frameBuffer + 4) pixels ram

/-- What `Start_Kernel` does between `init_vbe_info` and the first `printk`. -/
def drawBars (ram : Store Byte) : Option (Store Byte) := drawPixels windowAddr barPixels ram

section Bars

variable {ram : Store Byte}

theorem length_barPixel (bar x : ℕ) : (barPixel bar x).length = 4 := rfl

theorem mem_barPixels {pixel : List Byte} (h : pixel ∈ barPixels) :
    ∃ bar x, pixel = barPixel bar x := by
  unfold barPixels at h
  simp only [List.mem_flatMap, List.mem_map] at h
  obtain ⟨bar, -, y, -, x, -, rfl⟩ := h
  exact ⟨bar, x, rfl⟩

/-- A line of a bar. -/
theorem length_line (bar : ℕ) : ((List.range 1024).map fun x => barPixel bar x).length = 1024 := by
  rw [List.length_map, List.length_range]

theorem length_bar (bar : ℕ) :
    ((List.range 20).flatMap fun _ => (List.range 1024).map fun x => barPixel bar x).length = 20480 := by
  rw [length_rows fun _ => length_line bar]

theorem length_barPixels : barPixels.length = 81920 := by
  unfold barPixels
  rw [length_rows length_bar]

/-- The pixel of a place in the first 80 lines. -/
theorem barPixels_get {x y : ℕ} (hx : x < 1024) (hy : y < 80) :
    barPixels[y * 1024 + x]? = some (barPixel (y / 20) x) := by
  have hsplit : y * 1024 + x = y / 20 * 20480 + (y % 20 * 1024 + x) := by omega
  rw [hsplit]
  unfold barPixels
  rw [getElem?_rows length_bar (by omega) (by omega),
    getElem?_rows (fun _ => length_line _) (Nat.mod_lt y (by decide)) hx,
    List.getElem?_map, List.getElem?_range hx]
  rfl

/-- Pixels stored one behind the other. -/
theorem drawPixels_eq (htables : HigherHalf ram) {pixels : List (List Byte)} {k : ℕ}
    (hlen : ∀ pixel ∈ pixels, pixel.length = 4) (hk : k + 4 * pixels.length ≤ 0x1000000) :
    drawPixels (windowAddr + k) pixels ram = some (poke ram (frameBuffer + k) pixels.flatten) ∧
      HigherHalf (poke ram (frameBuffer + k) pixels.flatten) := by
  induction pixels generalizing k ram with
  | nil =>
      rw [List.flatten_nil, poke_nil]
      exact ⟨rfl, htables⟩
  | cons pixel pixels ih =>
      have hpixel := hlen pixel List.mem_cons_self
      rw [List.length_cons] at hk
      have hwindow : Window HigherHalf headCr3 (windowAddr + k) (frameBuffer + k) pixel.length :=
        (frameBuffer_window (Nat.le_refl 0x1000000)).slice (by omega)
      obtain ⟨hstore, hkeeps⟩ := hwindow.storeBytes_eq htables
      obtain ⟨hrest, hend⟩ := ih (k := k + 4) hkeeps
        (fun pixel hmem => hlen pixel (List.mem_cons_of_mem _ hmem)) (by omega)
      rw [List.flatten_cons, poke_append, hpixel]
      refine ⟨?_, hend⟩
      rw [drawPixels, hstore]
      exact hrest

theorem flatten_barPixels : barPixels.flatten.length = 327680 := by
  rw [length_flatten (n := 4), length_barPixels]
  intro pixel hpixel
  obtain ⟨bar, x, rfl⟩ := mem_barPixels hpixel
  exact length_barPixel bar x

/-- **The bars.** No store faults, nothing outside the first 80 lines of 1024 pixels changes,
and every pixel of these has the color that belongs to its bar and its column. -/
theorem bars_drawn (htables : HigherHalf ram) : ∃ ram', drawBars ram = some ram' ∧
    HigherHalf ram' ∧
    (∀ a, a < frameBuffer ∨ frameBuffer + 4 * (80 * 1024) ≤ a → ram' a = ram a) ∧
    ∀ x < 1024, ∀ y < 80,
      peek ram' (frameBuffer + pixelAddress 1024 x y) 4 = barPixel (y / 20) x := by
  have hlen : ∀ pixel ∈ barPixels, pixel.length = 4 := by
    intro pixel hpixel
    obtain ⟨bar, x, rfl⟩ := mem_barPixels hpixel
    exact length_barPixel bar x
  obtain ⟨hdraw, hkeeps⟩ := drawPixels_eq (k := 0) htables hlen (by
    rw [length_barPixels]
    decide)
  refine ⟨_, hdraw, hkeeps, fun a ha => poke_outside ram ?_, fun x hx y hy => ?_⟩
  · rw [flatten_barPixels]
    exact ha
  · have hread := peek_poke_flatten ram frameBuffer hlen (y * 1024 + x)
    rw [barPixels_get hx hy] at hread
    exact hread

/-- A call that prints a letter behind a tab. -/
def tabCall : PrintCall := ⟨.printk, fun _ => 0, [0x09, chr 'a', 0], fun _ => 0⟩

end Bars

end Knos.Paging
