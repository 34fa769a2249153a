import Knos.Bootloader.Machine

/-!
# `bootloader/loader.asm`, up to `Label_File_Loaded`

The loader searches the directory for the kernel and loads its clusters one after the
other, through a staging buffer, to `OffsetOfKernelFile`. The copying runs in real mode
through FS, whose limit was raised to 4 GB, with 32-bit pointers; the registers that it
uses are saved around it, so they are local to `copySector`.
-/

namespace Knos.Bootloader

open Knos.Bytes Knos.Requests

namespace KernelLoader

def offsetOfKernelFile : ℕ := 0x100000
def baseTmpOfKernelAddr : ℕ := 0x00
def offsetTmpOfKernelFile : ℕ := 0x7E00
def buffer : ℕ := 0x8000

/-- `"KERNEL  KAL"` -/
def kernelName : List Byte :=
  [0x4B, 0x45, 0x52, 0x4E, 0x45, 0x4C, 0x20, 0x20, 0x4B, 0x41, 0x4C]

/-- Where the assembler puts the name in the segment of the loader. -/
structure Layout where
  kernelFileName : ℕ
  below : kernelFileName + 12 ≤ 65536

/-- `Label_Go_On_Reading` tries until it succeeds. -/
def goOnReading (disk : Store Byte) (count : ℕ) : ℕ → Machine → Exec Machine
  | 0, m => .stop (.unfinished, m)
  | fuel + 1, m => do
      let (carry, m) ← int13 disk { m with ax := 0x0200 + count }
      if carry then goOnReading disk count fuel m else .ret m

/-- `Func_ReadOneSector` -/
def funcReadOneSector (disk : Store Byte) (fuel : ℕ) (m : Machine) : Exec Machine :=
  readOneSector (fun count => goOnReading disk count fuel) m

/-- `Func_GetFATEntry` -/
def funcGetFatEntry (disk : Store Byte) (fuel : ℕ) (m : Machine) : Exec Machine :=
  fatEntry (funcReadOneSector disk fuel) buffer m

/-- `Label_Search_In_Root_Dir_Begin`, `Label_Search_For_LoaderKal` and `Label_Cmp_FileName` -/
def searchInRootDir (layout : Layout) (disk : Store Byte) (fuel : ℕ) : DirSearch where
  read := funcReadOneSector disk fuel
  buffer := buffer
  fileName := layout.kernelFileName
  name := kernelName

/-- `Label_Mov_Kernel`: the loop over CX, with ESI and EDI, and EDI behind it. -/
def movKernel : ℕ → ℕ → ℕ → Store Byte → ℕ × Store Byte
  | 0, _, edi, ram => (edi, ram)
  | cx + 1, esi, edi, ram =>
      movKernel cx ((esi + 1) % 2 ^ 32) ((edi + 1) % 2 ^ 32) (poke ram edi [ram esi])

/-- From the staging buffer to where the file has come. -/
def copySector (m : Machine) : Machine :=
  let copied := movKernel 0x200 offsetTmpOfKernelFile m.offsetOfKernelFileCount m.ram
  { m with ram := copied.2, offsetOfKernelFileCount := copied.1 }

/-- `Label_FileName_Found` -/
def fileNameFound (m : Machine) : Machine := fileFound baseTmpOfKernelAddr offsetTmpOfKernelFile m

/-- `Label_Go_On_Loading_File` -/
def goOnLoadingFile (disk : Store Byte) : ℕ → Machine → Exec Machine
  | 0, m => .stop (.unfinished, m)
  | fuel + 1, m => do
      let m ← funcReadOneSector disk (fuel + 1) (m.setCl 1)
      let m := { m with ax := m.top }.drop
      let m := copySector m
      let m ← funcGetFatEntry disk (fuel + 1) m
      if m.ax = 0x0fff then .ret m else goOnLoadingFile disk fuel (nextCluster m)

/-- What is set before the search: the stack, the sector number, and the destination that
the loader's image holds. -/
def start (m : Machine) : Machine :=
  { m with
    stack := []
    sectorNumber := rootDirStartSectors
    offsetOfKernelFileCount := offsetOfKernelFile }

/-- The loader from the search for the kernel to `Label_File_Loaded`. -/
def loadKernel (layout : Layout) (disk : Store Byte) (fuel : ℕ) (m : Machine) : Exec Machine := do
  let m ← (searchInRootDir layout disk fuel).searchSectors rootDirSectors (start m)
  goOnLoadingFile disk fuel (fileNameFound m)

end KernelLoader

end Knos.Bootloader
