import Knos.Lib.Floppy
import Knos.Lib.Requests

/-!
# Real-mode machine

What `bootloader/boot.asm` and `bootloader/loader.asm` have in common: the registers and
the instructions they use, the constants of `bootloader/fat12.inc`, the floppy behind
INT 13h, and the routines that one of them has copied from the other, with what differs in
the copies as parameters.

Registers hold 16 bits and instructions wrap explicitly. A variable of the source that
counts a loop down (`RootDirSearchLoop`, and CX and DX in the name search) is the argument
that the loop recurses on; the other variables are fields. The stack is a list, apart from
the memory that sectors are read into.
-/

namespace Knos.Bootloader

open Knos.Bytes Knos.Floppy Knos.Requests

/-! ## §1  `fat12.inc` -/

def rootDirSectors : ℕ := 14
def rootDirStartSectors : ℕ := 19
def fat1StartSectors : ℕ := 1
def sectorBalance : ℕ := 17
def bytesPreSector : ℕ := 512
def sectorsPreTrack : ℕ := 18
def headsNumber : ℕ := 2
def driveNumber : ℕ := 0

def floppy : Geometry where
  sectors := sectorsPreTrack
  heads := headsNumber
  sectors_pos := by decide
  heads_pos := by decide

/-! ## §2  Registers and instructions -/

structure Machine where
  ax : ℕ
  bx : ℕ
  cx : ℕ
  dx : ℕ
  si : ℕ
  di : ℕ
  es : ℕ
  stack : List ℕ
  ram : Store Byte
  sectorNumber : ℕ
  odd : ℕ
  /-- A variable of `loader.asm` only. -/
  offsetOfKernelFileCount : ℕ

/-- Where a program ends that does not reach its last jump. -/
inductive Halt where
  | fileNotFound
  | readError
  | divideError
  | unfinished
deriving DecidableEq

abbrev Exec (α : Type) : Type := Prog Byte (Halt × Machine) α

def Machine.push (m : Machine) (x : ℕ) : Machine := { m with stack := x :: m.stack }

/-- The word that a `pop` takes. -/
def Machine.top (m : Machine) : ℕ := m.stack.headD 0

def Machine.drop (m : Machine) : Machine := { m with stack := m.stack.tail }

/-- `byte [es:offset]` -/
def Machine.byteAt (m : Machine) (offset : ℕ) : Byte := m.ram (m.es * 16 + offset)

/-- `word [es:offset]` -/
def Machine.wordAt (m : Machine) (offset : ℕ) : ℕ :=
  (m.byteAt offset).toNat + 256 * (m.byteAt (offset + 1)).toNat

/-- `mov cl, value` -/
def Machine.setCl (m : Machine) (value : ℕ) : Machine := { m with cx := m.cx / 256 * 256 + value }

/-- `div` by a byte: AX by it, the quotient into AL and the remainder into AH. -/
def div8 (m : Machine) (divisor : ℕ) : Exec Machine :=
  if divisor = 0 ∨ 255 < m.ax / divisor then .stop (.divideError, m)
  else .ret { m with ax := m.ax % divisor * 256 + m.ax / divisor }

/-- `mul bx` -/
def mulBx (m : Machine) : Machine :=
  { m with ax := m.ax * m.bx % 65536, dx := m.ax * m.bx / 65536 }

/-- `div bx`: DX:AX by it, the quotient into AX and the remainder into DX. -/
def divBx (m : Machine) : Exec Machine :=
  let dividend := m.dx * 65536 + m.ax
  if m.bx = 0 ∨ 65535 < dividend / m.bx then .stop (.divideError, m)
  else .ret { m with ax := dividend / m.bx, dx := dividend % m.bx }

/-! ## §3  INT 13h -/

/-- `int 13h` with AH = 02h, whose answer is the status that ends up in AH: with 0 the
sectors are in memory at ES:BX and the carry flag is clear, otherwise it is set and
memory is as before. -/
def int13 (disk : Store Byte) (m : Machine) : Exec (Bool × Machine) :=
  .ask fun status =>
    if status = 0 then
      let count := m.ax % 256
      let address : Chs := {
        cylinder := m.cx / 256 + 256 * (m.cx % 256 / 64)
        head := m.dx / 256
        sector := m.cx % 64 }
      let sectors := readSectors disk (floppy.lba address) count
      .ret (false, { m with ax := count, ram := poke m.ram (m.es * 16 + m.bx) sectors })
    else .ret (true, { m with ax := status.toNat * 256 })

/-- From the sector number in AX to cylinder, head and sector in CX and DX, in both
copies of the read function. -/
def setAddress (m : Machine) : Exec Machine := do
  let m := m.push m.bx
  let m := { m with bx := m.bx / 256 * 256 + sectorsPreTrack }
  let m ← div8 m (m.bx % 256)
  let ah := (m.ax / 256 + 1) % 256
  let al := m.ax % 256
  let m := { m with
    ax := ah * 256 + al / 2
    cx := al / 2 * 256 + ah
    dx := al % 2 * 256 + driveNumber }
  let m := { m with bx := m.top }.drop
  .ret m

/-- The two copies of the read function differ in the loop that calls INT 13h; it is
given the number of sectors, which is kept on the stack. -/
def readOneSector (retry : ℕ → Machine → Exec Machine) (m : Machine) : Exec Machine := do
  let count := m.cx % 256
  let m ← setAddress m
  retry count m

/-! ## §4  The directory search -/

/-- What the two copies of the search differ in: the read function, the buffer for a
sector of the directory, and the name that is searched, with its address. -/
structure DirSearch where
  read : Machine → Exec Machine
  buffer : ℕ
  fileName : ℕ
  name : List Byte

namespace DirSearch

variable (p : DirSearch)

/-- `lodsb`, inside the name. -/
def lodsb (m : Machine) : Machine :=
  { m with
    ax := m.ax / 256 * 256 + (p.name.getD (m.si - p.fileName) 0).toNat
    si := (m.si + 1) % 65536 }

/-- The loop over CX: whether the bytes that are left agree. -/
def compareFileName : ℕ → Machine → Bool × Machine
  | 0, m => (true, { m with cx := 0 })
  | cx + 1, m =>
      let m := p.lodsb { m with cx := cx }
      if m.ax % 256 = (m.byteAt m.di).toNat then
        compareFileName cx { m with di := (m.di + 1) % 65536 }
      else (false, m)

/-- The loop over DX: whether one of the entries that are left has the name. -/
def searchEntries : ℕ → Machine → Bool × Machine
  | 0, m => (false, { m with dx := 0 })
  | dx + 1, m =>
      let (same, m) := p.compareFileName 11 { m with dx := dx, cx := 11 }
      if same then (true, m)
      else
        let m := { m with di := ((m.di &&& 0xffe0) + 0x20) % 65536, si := p.fileName }
        searchEntries dx m

/-- The loop over the sectors of the directory that are left; it ends when the file is
found, with DI behind its name. -/
def searchSectors : ℕ → Machine → Exec Machine
  | 0, m => .stop (.fileNotFound, m)
  | sectors + 1, m => do
      let m := { m with ax := 0, es := 0, bx := p.buffer }
      let m := { m with ax := m.sectorNumber }.setCl 1
      let m ← p.read m
      let (found, m) := p.searchEntries 0x10 { m with si := p.fileName, di := p.buffer }
      if found then .ret m
      else searchSectors sectors { m with sectorNumber := (m.sectorNumber + 1) % 65536 }

end DirSearch

/-! ## §5  The FAT -/

/-- The entry of the cluster in AX, in both copies: the two sectors that hold it are read
into a buffer. -/
def fatEntry (read : Machine → Exec Machine) (buffer : ℕ) (m : Machine) : Exec Machine := do
  let m := (m.push m.es).push m.bx
  let m := { m with es := 0, odd := 0, bx := 3 }
  let m := mulBx m
  let m ← divBx { m with bx := 2 }
  let m := { m with odd := if m.dx = 0 then m.odd else 1 }
  let m ← divBx { m with dx := 0, bx := bytesPreSector }
  let m := m.push m.dx
  let m := { m with bx := buffer, ax := (m.ax + fat1StartSectors) % 65536 }.setCl 2
  let m ← read m
  let m := { m with dx := m.top }.drop
  let m := { m with bx := (m.bx + m.dx) % 65536 }
  let m := { m with ax := m.wordAt m.bx }
  let m := { m with ax := if m.odd = 1 then m.ax >>> 4 else m.ax }
  let m := { m with ax := m.ax &&& 0x0fff }
  let m := { m with bx := m.top }.drop
  let m := { m with es := m.top }.drop
  .ret m

/-! ## §6  The clusters of the file -/

/-- `FindLoaderFile` and `Label_FileName_Found`: the first cluster goes on the stack, its
sector number into AX, and ES:BX to where a sector is loaded. -/
def fileFound (base offset : ℕ) (m : Machine) : Machine :=
  let m := { m with ax := rootDirSectors, di := ((m.di &&& 0xffe0) + 0x1a) % 65536 }
  let m := { m with cx := m.wordAt m.di }
  let m := m.push m.cx
  let m := { m with cx := (m.cx + m.ax) % 65536 }
  let m := { m with cx := (m.cx + sectorBalance) % 65536 }
  let m := { m with es := base, bx := offset }
  { m with ax := m.cx }

/-- The end of a turn of both loops: the next cluster goes on the stack, its sector number
into AX. -/
def nextCluster (m : Machine) : Machine :=
  let m := m.push m.ax
  let m := { m with dx := rootDirSectors }
  let m := { m with ax := (m.ax + m.dx) % 65536 }
  { m with ax := (m.ax + sectorBalance) % 65536 }

end Knos.Bootloader
