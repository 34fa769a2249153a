import Knos.Bootloader.HandOver

/-!
# The search for a graphics mode, register by register

`GetModeListLoop` and `EndModeListLoop` of `bootloader/loader.asm` with the registers, the
segments and the stack that they juggle with, and the routines they print with. INT 10h is the
`Firmware` of the hand-over: it preserves all registers but AX.

`CandidateMode` is a word of the loader's own segment, at an offset that the assembler fixes;
the message behind it begins with "St". Text output is seen on the screen only.
-/

namespace Knos.Bootloader.ModeList

open Knos.Bytes HandOver

/-! ## §1  Registers -/

structure Cpu where
  ax : ℕ
  bx : ℕ
  cx : ℕ
  dx : ℕ
  si : ℕ
  di : ℕ
  es : ℕ
  ds : ℕ
  stack : List ℕ
  ram : Store Byte
  /-- BX in every call of INT 10h with AX = 4F02h. -/
  setModes : List ℕ

namespace Cpu

variable (c : Cpu)

def push (x : ℕ) : Cpu := { c with stack := x :: c.stack }

/-- The word that a `pop` takes. -/
def top : ℕ := c.stack.headD 0

def popAx : Cpu := { c with ax := c.top, stack := c.stack.tail }
def popBx : Cpu := { c with bx := c.top, stack := c.stack.tail }
def popCx : Cpu := { c with cx := c.top, stack := c.stack.tail }
def popDx : Cpu := { c with dx := c.top, stack := c.stack.tail }
def popEs : Cpu := { c with es := c.top, stack := c.stack.tail }
def popDs : Cpu := { c with ds := c.top, stack := c.stack.tail }

def movAl (x : ℕ) : Cpu := { c with ax := c.ax / 256 * 256 + x }

/-- `word [es:offset]` -/
def wordEs (offset : ℕ) : ℕ := wordAt c.ram (c.es * 16 + offset)

/-- `byte [es:offset]` -/
def byteEs (offset : ℕ) : ℕ := (c.ram (c.es * 16 + offset)).toNat

/-- `word [ds:offset]` -/
def wordDs (offset : ℕ) : ℕ := wordAt c.ram (c.ds * 16 + offset)

/-- What `print_hex16` and `print_dec` begin with, and what they end with. -/
def save : Cpu := (((c.push c.ax).push c.bx).push c.cx).push c.dx

def restore : Cpu := c.popDx.popCx.popBx.popAx

end Cpu

/-- `rep movsw`, with CX as the argument that the repetition counts down. -/
def repMovsw : ℕ → Cpu → Cpu
  | 0, c => { c with cx := 0 }
  | cx + 1, c =>
      repMovsw cx { c with
        ram := poke c.ram (c.es * 16 + c.di) (peek c.ram (c.ds * 16 + c.si) 2)
        si := (c.si + 2) % 65536
        di := (c.di + 2) % 65536 }

section Program

variable (firmware : Firmware)

/-- INT 10h: the information on the mode in CX, the mode in BX, or text. -/
def int10 (c : Cpu) : Cpu :=
  if c.ax = 0x4F01 then
    match firmware.modeInfo c.cx with
    | some block => { c with ax := 0x004F, ram := poke c.ram (c.es * 16 + c.di) block.val }
    | none => { c with ax := 0x014F }
  else if c.ax = 0x4F02 then
    { c with ax := if firmware.setMode c.bx then 0x004F else 0x014F, setModes := c.setModes ++ [c.bx] }
  else c

/-! ## §2  Printing -/

/-- `print_char` -/
def printChar (c : Cpu) : Cpu := int10 firmware { c with ax := 0x0E00 + c.ax % 256 }

def printChars (chars : List ℕ) (c : Cpu) : Cpu :=
  chars.foldl (fun c x => printChar firmware (c.movAl x)) c

/-- `.hex_loop` of `print_hex16`, with CX as its counter. -/
def hexLoop : ℕ → Cpu → Cpu
  | 0, c => c
  | cx + 1, c =>
      let c := { c with dx := c.bx / 2 ^ 12 &&& 0x000F }
      let c := { c with dx := if c.dx ≤ 9 then c.dx + 0x30 else c.dx + (0x41 - 10) }
      let c := printChar firmware (c.movAl c.dx)
      hexLoop cx { c with bx := c.bx * 2 ^ 4 % 65536, cx := cx }

/-- `print_hex16` -/
def printHex16 (c : Cpu) : Cpu :=
  let c := c.save
  let c := { c with bx := c.ax, cx := 4 }
  (hexLoop firmware 4 c).restore

/-- `.convert_loop` of `print_dec`, where BX is 10: the digits go to the stack. -/
def convertLoop (c : Cpu) : Cpu :=
  let digit := c.ax % 10 + 0x30
  let c' := { c.push digit with ax := c.ax / 10, dx := digit, cx := c.cx + 1 }
  if _h : c.ax / 10 = 0 then c' else convertLoop c'
termination_by c.ax
decreasing_by
  show c.ax / 10 < c.ax
  omega

/-- `.print_loop` of `print_dec`, with CX as its counter. -/
def printLoop : ℕ → Cpu → Cpu
  | 0, c => c
  | cx + 1, c => printLoop cx { printChar firmware c.popAx with cx := cx }

/-- `print_dec` -/
def printDec (c : Cpu) : Cpu :=
  let c := c.save
  let c := convertLoop { c with bx := 10, cx := 0 }
  (printLoop firmware c.cx c).restore

/-! ## §3  The loop over the list -/

/-- Steps 3 and 4 of a round. -/
def showMode (c : Cpu) : Cpu :=
  let c := c.push c.ax
  let c := printHex16 firmware { c with ax := c.cx }
  printChars firmware [0x20] c.popAx

/-- The call for the mode in CX, with the segment of the list on the stack. -/
def askModeInfo (c : Cpu) : Cpu :=
  let c := c.push c.es
  let c := { c with ax := 0, es := 0 }
  let c := { c with bx := c.cx, ax := 0x4F01, di := vbeModeInfoBlock }
  int10 firmware c

/-- Resolution, depth and address, `1024x768,32bpp` and so on. -/
def showModeInfo (c : Cpu) : Cpu :=
  let c := printDec firmware { c with ax := c.wordEs (vbeModeInfoBlock + 0x12) }
  let c := printChars firmware [0x78] c
  let c := printDec firmware { c with ax := c.wordEs (vbeModeInfoBlock + 0x14) }
  let c := printChars firmware [0x2c, 0x20] c
  let c := printDec firmware { c with ax := c.byteEs (vbeModeInfoBlock + 0x19) }
  let c := printChars firmware [0x62, 0x70, 0x70, 0x20] c
  let c := printHex16 firmware { c with ax := c.wordEs (vbeModeInfoBlock + 0x2a) }
  let c := printHex16 firmware { c with ax := c.wordEs (vbeModeInfoBlock + 0x28) }
  printChars firmware [0x20, 0x7c, 0x20] c

/-- The three comparisons; each leaves AX as it was loaded. -/
def checkMode (c : Cpu) : Bool × Cpu :=
  let c := { c with ax := c.wordEs (vbeModeInfoBlock + 0x12) }
  if c.ax ≠ defaultXRes then (false, c)
  else
    let c := { c with ax := c.wordEs (vbeModeInfoBlock + 0x14) }
    if c.ax ≠ defaultYRes then (false, c)
    else
      let c := c.movAl (c.byteEs (vbeModeInfoBlock + 0x19))
      (decide (c.ax % 256 = defaultBpp), c)

variable (candidateMode : ℕ)

/-- The mode in CX is the candidate, and its block is copied. -/
def selectMode (c : Cpu) : Cpu :=
  let c := { c with ram := poke c.ram (c.ds * 16 + candidateMode) (leBytes 2 c.cx) }
  let c := c.push c.ds
  let c := { c with ax := 0, ds := 0 }
  let c := { c with si := vbeModeInfoBlock, di := vbeModeSelectedInfo, cx := 256 }
  (repMovsw 256 c).popDs

/-- `RestoreAndNextMode` -/
def restoreAndNextMode (c : Cpu) : Cpu :=
  let c := c.popEs
  { c with si := (c.si + 2) % 65536 }

/-- `GetModeListLoop` -/
def getModeListLoop : ℕ → Cpu → Except (Hang × Cpu) Cpu
  | 0, c => .error (.unfinished, c)
  | fuel + 1, c =>
      let c := { c with cx := c.wordEs c.si }
      if c.cx = 0xFFFF then .ok c
      else
        let c := askModeInfo firmware (showMode firmware c)
        if c.ax ≠ 0x004F then .error (.modeInfoFail, c)
        else
          match checkMode (showModeInfo firmware c) with
          | (true, c) => .ok (selectMode candidateMode c)
          | (false, c) => getModeListLoop fuel (restoreAndNextMode c)

/-- `EndModeListLoop`, up to the answer to AX = 4F02h. -/
def endModeListLoop (c : Cpu) : Except (Hang × Cpu) Cpu :=
  -- `cmp dword`: two words
  if c.wordDs candidateMode = 0 ∧ c.wordDs (candidateMode + 2) = 0 then .error (.svgaModeFail, c)
  else
    let c := { c with ax := 0x1301, bx := 0x000F, dx := 0, cx := 30 }
    let c := c.push c.ax
    let c := { c with ax := c.ds }
    let c := { c with es := c.ax }
    let c := int10 firmware c.popAx
    let c := { c with ax := 0x4F02, bx := c.wordDs candidateMode }
    let c := { c with bx := (c.bx + 0x4000) % 65536 }
    let c := int10 firmware c
    if c.ax ≠ 0x004F then .error (.svgaModeFail, c) else .ok c

/-- From `GetModeListLoop` to the mode that is set. -/
def setSvgaMode (fuel : ℕ) (c : Cpu) : Except (Hang × Cpu) Cpu := do
  let c ← getModeListLoop firmware candidateMode fuel c
  endModeListLoop firmware candidateMode c

end Program

end Knos.Bootloader.ModeList
