import Knos.Bootloader.Machine

/-!
# `bootloader/boot.asm`

The boot sector: it searches the directory for the loader, loads its clusters to
`LoaderBase:LoaderOffset` and jumps there. A run that gets there returns; `LoaderNotFound`
and `ReadError` halt. What is written on the screen is left out, and the registers that
are saved around it.
-/

namespace Knos.Bootloader

open Knos.Bytes Knos.Requests

namespace BootSector

def loaderBase : ℕ := 0x1000
def loaderOffset : ℕ := 0x0000
def buffer : ℕ := 0x7e00

/-- `"LOADER  KAL"` -/
def loaderName : List Byte :=
  [0x4C, 0x4F, 0x41, 0x44, 0x45, 0x52, 0x20, 0x20, 0x4B, 0x41, 0x4C]

/-- Where the assembler puts the name: behind the code, before the padding of the sector. -/
structure Layout where
  loaderFileName : ℕ
  above : 0x7c00 ≤ loaderFileName
  below : loaderFileName + 12 ≤ 0x7c00 + 510

/-! ## §1  Reading -/

/-- `ReRead`: the failures are counted in SI, whatever it holds. SI is below 5 when the
loop goes round again, so it makes seven turns at most. -/
def reRead (disk : Store Byte) (count : ℕ) : ℕ → Machine → Exec Machine
  | 0, m => .stop (.unfinished, m)
  | turns + 1, m => do
      let (carry, m) ← int13 disk { m with ax := 0x0200 + count }
      if carry then
        let m := { m with si := (m.si + 1) % 65536 }
        if 5 ≤ m.si then .stop (.readError, m) else reRead disk count turns m
      else .ret m

def readOneSectorFunction (disk : Store Byte) (m : Machine) : Exec Machine :=
  readOneSector (fun count => reRead disk count 7) m

/-! ## §2  Searching and loading -/

/-- `DecodeFAT` -/
def decodeFat (disk : Store Byte) (m : Machine) : Exec Machine :=
  fatEntry (readOneSectorFunction disk) buffer m

/-- `SearchRootDir`, `SearchLoader` and `CompareFileName` -/
def searchRootDir (layout : Layout) (disk : Store Byte) : DirSearch where
  read := readOneSectorFunction disk
  buffer := buffer
  fileName := layout.loaderFileName
  name := loaderName

/-- `FindLoaderFile` -/
def findLoaderFile (m : Machine) : Machine := fileFound loaderBase loaderOffset m

/-- `add bx, [BytesPreSector]` -/
def addSector (m : Machine) : Machine := { m with bx := (m.bx + bytesPreSector) % 65536 }

/-- `LoadingFile`; a FAT without an end mark keeps it going. -/
def loadingFile (disk : Store Byte) : ℕ → Machine → Exec Machine
  | 0, m => .stop (.unfinished, m)
  | fuel + 1, m => do
      let m ← readOneSectorFunction disk (m.setCl 1)
      let m := { m with ax := m.top }.drop
      let m ← decodeFat disk m
      if m.ax = 0x0fff then .ret m
      else
        let m := nextCluster m
        loadingFile disk fuel (addSector m)

/-- The registers that the code before `SearchRootDir` sets; it leaves SI and DI alone. -/
def start (m : Machine) : Machine :=
  { m with
    ax := 0
    bx := 0
    cx := 0
    dx := 0
    es := 0
    stack := []
    sectorNumber := rootDirStartSectors }

/-- The boot sector from `start` on; it returns with the jump to the loader. -/
def boot (layout : Layout) (disk : Store Byte) (fuel : ℕ) (m : Machine) : Exec Machine := do
  let m ← (searchRootDir layout disk).searchSectors rootDirSectors (start m)
  loadingFile disk fuel (findLoaderFile m)

end BootSector

end Knos.Bootloader
