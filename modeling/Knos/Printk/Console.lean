import Knos.Printk.Vsnprintf

/-!
# The screen: `vcolor_printk` and its callers in `kernel/printk.c`, `kernel/vbe.c`

A formatted text is drawn character by character at a cursor that stays from one call to the
next. What is drawn is kept as a list of glyphs, each with the position structure it was
drawn with, from which the stores of `put_color_char` follow. The loop has a `goto` into the
branch of the tab, taken as long as `line` counts; here that branch is a function of its own.

`printk.h` declares `printk_pos` behind `printk_buf`, and there it lies. The terminator of a
text that fills the buffer is the first byte of `x_resolution`.
-/

namespace Knos.Printk

open Knos.Bytes Knos.Stack

abbrev Color : Type := BitVec 32

def WHITE : Color := 0xffffffff
def BLACK : Color := 0xff000000
def RED : Color := 0xffff0000
def YELLOW : Color := 0xffffff00

/-- What the linker and `kernel/font.h` fix. -/
structure Kernel where
  printkBufAddress : ℕ
  fits : printkBufAddress + 4096 < 2 ^ 64
  /-- `font_ascii` -/
  fontAscii : Byte → ℕ → Byte

/-- `printk_buf` -/
def Kernel.printkBuf (kernel : Kernel) : Buffer := ⟨kernel.printkBufAddress, 4096, kernel.fits⟩

/-! ## §1  The position structure -/

/-- `struct position_struct` -/
structure Position where
  xResolution : ℤ
  yResolution : ℤ
  xPosition : ℤ
  yPosition : ℤ
  xCharSize : ℤ
  yCharSize : ℤ
  frameBufferAddr : Word
  frameBufferLength : ℕ
  bpp : BitVec 8

/-- The fields of the mode information block that are read. -/
structure VbeInfo where
  xResolution : BitVec 16
  yResolution : BitVec 16
  bitsPerPixel : BitVec 8

/-- `init_vbe_info`; the product is one of 32 bits. -/
def initVbeInfo (info : VbeInfo) : Position where
  xResolution := info.xResolution.toNat
  yResolution := info.yResolution.toNat
  xPosition := 0
  yPosition := 0
  xCharSize := 8
  yCharSize := 16
  frameBufferAddr := 0xffff800001a00000
  frameBufferLength :=
    (BitVec.ofInt 64 (int32 (int32 (info.xResolution.toNat * info.yResolution.toNat) * 4))).toNat
  bpp := info.bitsPerPixel

/-- What is written from the beginning of `printk_buf` on: the byte behind the buffer is the low
byte of `x_resolution`. -/
def Position.storeBehind (written : List Byte) (pos : Position) : Position :=
  match written[4096]? with
  | none => pos
  | some c =>
      { pos with
        xResolution := (BitVec.ofInt 32 pos.xResolution &&& ~~~0xff#32 ||| c.setWidth 32).toInt }

/-! ## §2  Glyphs -/

structure Glyph where
  pos : Position
  charColor : Color
  bgColor : Color
  font : Byte

/-- Four bytes, at an offset into the frame buffer. -/
structure PixelStore where
  offset : ℤ
  color : Color

/-- `y_offset` and `x_offset`, added to the address one after the other. -/
def pixelOffset (pos : Position) (i j : ℕ) : ℤ :=
  int32 (int32 (int32 (pos.yPosition + i) * pos.xResolution) * 4) +
    int32 (int32 (pos.xPosition + j) * 4)

/-- `put_color_char`: the stores of a glyph. -/
def Glyph.stores (fontAscii : Byte → ℕ → Byte) (g : Glyph) : List PixelStore :=
  (List.range 16).flatMap fun i => (List.range 8).map fun j =>
    ⟨pixelOffset g.pos i j,
      if fontAscii g.font i &&& (0x80#8 >>> j) ≠ 0 then g.charColor else g.bgColor⟩

/-- The cursor, and all that has been drawn. -/
structure Screen where
  pos : Position
  drawn : List Glyph := []

def Screen.putColorChar (s : Screen) (charColor bgColor : Color) (font : Byte) : Screen :=
  { s with drawn := s.drawn ++ [⟨s.pos, charColor, bgColor, font⟩] }

/-! ## §3  The loop over the text -/

/-- `printk_pos.x_position += printk_pos.x_char_size` -/
def Position.advance (pos : Position) : Position :=
  { pos with xPosition := int32 (pos.xPosition + pos.xCharSize) }

def Position.newline (pos : Position) : Position :=
  { pos with yPosition := int32 (pos.yPosition + pos.yCharSize), xPosition := 0 }

def Position.backspace (pos : Position) : Position :=
  let pos := { pos with xPosition := int32 (pos.xPosition - pos.xCharSize) }
  if pos.xPosition < 0 then
    let pos := { pos with
      xPosition := int32 (pos.xResolution - pos.xCharSize)
      yPosition := int32 (pos.yPosition - pos.yCharSize) }
    if pos.yPosition < 0 then { pos with yPosition := int32 (pos.yResolution - pos.yCharSize) }
    else pos
  else pos

/-- The checks behind every character. -/
def Position.boundaryCheck (pos : Position) : Position :=
  let pos := if pos.xResolution ≤ pos.xPosition then pos.newline else pos
  if pos.yResolution ≤ pos.yPosition then { pos with yPosition := 0 } else pos

/-- The columns up to the next stop of the tabulator. -/
def Position.tabLine (pos : Position) : ℤ :=
  let currentCharX := pos.xPosition.tdiv pos.xCharSize
  (BitVec.ofInt 32 (currentCharX + 8) &&& ~~~7#32).toInt - currentCharX

/-- The variables of the loop. -/
structure Drawing where
  count : ℤ
  line : ℤ
  screen : Screen

/-- `Label_tab` -/
def labelTab (charColor bgColor : Color) (d : Drawing) : Drawing :=
  let screen := d.screen.putColorChar charColor bgColor (chr ' ')
  { d with line := d.line - 1, screen := { screen with pos := screen.pos.advance } }

/-- The branches of the loop, up to the boundary checks. -/
def drawBranch (charColor bgColor : Color) (buf : List Byte) (d : Drawing) : Drawing :=
  if 0 < d.line then labelTab charColor bgColor { d with count := d.count - 1 }
  else
    let c := buf.getD d.count.toNat 0
    if c = 0x0a then { d with screen := { d.screen with pos := d.screen.pos.newline } }
    else if c = 0x08 then
      let screen := { d.screen with pos := d.screen.pos.backspace }
      { d with screen := screen.putColorChar charColor bgColor (chr ' ') }
    else if c = 0x09 then
      labelTab charColor bgColor { d with line := d.screen.pos.tabLine }
    else
      let screen := d.screen.putColorChar charColor bgColor c
      { d with screen := { screen with pos := screen.pos.advance } }

/-- One round, with the increment behind it. -/
def drawRound (charColor bgColor : Color) (buf : List Byte) (d : Drawing) : Drawing :=
  let d := drawBranch charColor bgColor buf d
  { d with count := d.count + 1, screen := { d.screen with pos := d.screen.pos.boundaryCheck } }

/-- The loop, with what it has drawn also where the fuel runs out. -/
def drawLoop (charColor bgColor : Color) (buf : List Byte) (i : ℤ) :
    ℕ → Drawing → Except Fault Unit × Drawing
  | 0, d => (.error .unfinished, d)
  | fuel + 1, d =>
      if d.count < i ∨ d.line ≠ 0 then
        drawLoop charColor bgColor buf i fuel (drawRound charColor bgColor buf d)
      else (.ok (), d)

/-! ## §4  The functions -/

/-- The first `i` characters of the buffer. A tab makes eight rounds at most, every other
character one. -/
def drawText (charColor bgColor : Color) (buf : List Byte) (i : ℤ) (s : Screen) :
    Except Fault ℤ × Screen :=
  match drawLoop charColor bgColor buf i (8 * i.toNat + 1) ⟨0, 0, s⟩ with
  | (.error fault, d) => (.error fault, d.screen)
  | (.ok (), d) => (.ok i, d.screen)

def vcolorPrintk (kernel : Kernel) (charColor bgColor : Color) (memory : Memory)
    (fmt : List Byte) (args : ℕ → Word) (s : Screen) : Except Fault ℤ × Screen :=
  match vsnprintf kernel.printkBuf memory fmt args with
  | .error fault => (.error fault, s)
  | .ok o =>
      let s := { s with pos := s.pos.storeBehind o.written }
      if kernel.printkBuf.size ≤ (BitVec.ofInt 64 o.ret).toNat then
        let i := kernel.printkBuf.size - 1
        drawText charColor bgColor (o.written.set i 0) i s
      else drawText charColor bgColor o.written o.ret s

/-- `logk_impl`, with the tag printed as a format. -/
def logkImpl (kernel : Kernel) (fg bg : Color) (tag : List Byte) (memory : Memory)
    (fmt : List Byte) (args : ℕ → Word) (s : Screen) : Except Fault ℤ × Screen :=
  match vcolorPrintk kernel fg bg memory tag args s with
  | (.error fault, s) => (.error fault, s)
  | (.ok tagRet, s) =>
      match vcolorPrintk kernel fg bg memory fmt args s with
      | (.error fault, s) => (.error fault, s)
      | (.ok bodyRet, s) =>
          (.ok (if tagRet < 0 ∨ bodyRet < 0 then -1 else int32 (tagRet + bodyRet)), s)

/-- `"[INFO] "` -/
def infoTag : List Byte :=
  [chr '[', chr 'I', chr 'N', chr 'F', chr 'O', chr ']', chr ' ', 0]

/-- `"[WARN] "` -/
def warnTag : List Byte :=
  [chr '[', chr 'W', chr 'A', chr 'R', chr 'N', chr ']', chr ' ', 0]

/-- `"[ERR]  "` -/
def errTag : List Byte :=
  [chr '[', chr 'E', chr 'R', chr 'R', chr ']', chr ' ', chr ' ', 0]

/-- `"[FATL] "` -/
def fatalTag : List Byte :=
  [chr '[', chr 'F', chr 'A', chr 'T', chr 'L', chr ']', chr ' ', 0]

inductive PrintFunction where
  | colorPrintk (charColor bgColor : Color)
  | printk
  | logk
  | warnk
  | errk
  | fatalk

/-- A call of one of the functions. -/
structure PrintCall where
  function : PrintFunction
  memory : Memory
  fmt : List Byte
  args : ℕ → Word

def PrintCall.run (kernel : Kernel) (call : PrintCall) (s : Screen) : Except Fault ℤ × Screen :=
  match call.function with
  | .colorPrintk fg bg => vcolorPrintk kernel fg bg call.memory call.fmt call.args s
  | .printk => vcolorPrintk kernel WHITE BLACK call.memory call.fmt call.args s
  | .logk => logkImpl kernel WHITE BLACK infoTag call.memory call.fmt call.args s
  | .warnk => logkImpl kernel YELLOW BLACK warnTag call.memory call.fmt call.args s
  | .errk => logkImpl kernel RED BLACK errTag call.memory call.fmt call.args s
  | .fatalk => logkImpl kernel RED WHITE fatalTag call.memory call.fmt call.args s

/-- The screen behind a sequence of calls, of which none follows a fault. -/
def printCalls (kernel : Kernel) : List PrintCall → Screen → Screen
  | [], s => s
  | call :: calls, s =>
      match call.run kernel s with
      | (.error _, s) => s
      | (.ok _, s) => printCalls kernel calls s

end Knos.Printk
