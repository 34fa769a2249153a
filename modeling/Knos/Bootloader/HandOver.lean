import Knos.Bootloader.KernelLoader
import Knos.Lib.Loop
import Knos.Memory.InitMemory

/-!
# `bootloader/loader.asm`, from `Label_Get_Mem_Struct` on

The loader collects the memory map, looks for a graphics mode, builds page tables and jumps
to the kernel, which finds the map where the loader has put it. What the firmware answers
is a parameter: INT 15h writes 20 bytes for an entry, INT 10h the block that it is asked
for, and neither writes anything else.

All of this happens in low memory, with ES = 0 for the blocks, so an offset is an address.
The stack lies below `MemoryStructBufferAddr`. What is shown on the screen is left out, and
so are the descriptor tables and control registers.
-/

namespace Knos.Bootloader

open Knos.Bytes Knos.Loop Knos.Memory

namespace HandOver

def memoryStructBufferAddr : ℕ := 0x7E00
def vbeInfoBlock : ℕ := 0x8000
def vbeModeListOff : ℕ := 0x800E
def vbeModeListSeg : ℕ := 0x8010
def vbeModeInfoBlock : ℕ := 0x8200
def vbeModeSelectedInfo : ℕ := 0x8400

def defaultXRes : ℕ := 1024
def defaultYRes : ℕ := 768
def defaultBpp : ℕ := 32

/-- The loops behind the error messages, `no_support`, and a mode list without an end. -/
inductive Hang where
  | memStructFail
  | vbeInfoFail
  | modeInfoFail
  | svgaModeFail
  | noSupport
  | unfinished
deriving DecidableEq

/-- A block of `n` bytes that the firmware fills. -/
abbrev Block (n : ℕ) : Type := { bytes : List Byte // bytes.length = n }

/-- What INT 10h answers to AX = 4F00h, to 4F01h for a mode and to 4F02h, where `none` and
`false` are an AX other than 004Fh; and whether the CPU has a long mode. -/
structure Firmware where
  vbeInfo : Option (Block 512)
  modeInfo : ℕ → Option (Block 256)
  setMode : ℕ → Bool
  longMode : Bool

/-- `word [address]` -/
def wordAt (ram : Store Byte) (address : ℕ) : ℕ :=
  (ram address).toNat + 256 * (ram (address + 1)).toNat

/-! ## §1  The memory map -/

/-- The 20 bytes of an entry. -/
def entryBytes (entry : E820Entry) : List Byte :=
  leBytes 4 entry.baseAddrLow.toNat ++ leBytes 4 entry.baseAddrHigh.toNat ++
    leBytes 4 entry.lengthLow.toNat ++ leBytes 4 entry.lengthHigh.toNat ++
    leBytes 4 entry.type.toNat

/-- `Label_Get_Mem_Struct`: the entries that the calls return from here on. EBX is 0 behind
the last one; without an entry the carry flag is set. The number of entries is in ESI. -/
def getMemStruct : List E820Entry → ℕ → ℕ → Store Byte → Except Hang (ℕ × Store Byte)
  | [], _, _, _ => .error .memStructFail
  | entry :: entries, di, esi, ram =>
      let ram := poke ram di (entryBytes entry)
      let esi := (esi + 1) % 2 ^ 32
      let di := (di + 20) % 65536
      if entries.isEmpty then .ok (esi, ram) else getMemStruct entries di esi ram

/-- The map with its number of entries. -/
def collectMemStruct (entries : List E820Entry) (ram : Store Byte) : Except Hang (Store Byte) := do
  let (esi, ram) ← getMemStruct entries (memoryStructBufferAddr + 4) 0 ram
  .ok (poke ram memoryStructBufferAddr (leBytes 4 esi))

/-! ## §2  The graphics mode -/

/-- `"VBE2"` -/
def vbe2 : List Byte := [0x56, 0x42, 0x45, 0x32]

def getVbeInfo (firmware : Firmware) (ram : Store Byte) : Except Hang (Store Byte) :=
  let ram := poke ram vbeInfoBlock vbe2
  match firmware.vbeInfo with
  | none => .error .vbeInfoFail
  | some block => .ok (poke ram vbeInfoBlock block.val)

/-- `GetModeListLoop`, with the list at ES:SI: the mode that `CandidateMode` gets, and
memory with what was selected. -/
def getModeListLoop (firmware : Firmware) (es : ℕ) :
    ℕ → ℕ → Store Byte → Except Hang (ℕ × Store Byte)
  | 0, _, _ => .error .unfinished
  | fuel + 1, si, ram =>
      let cx := wordAt ram (es * 16 + si)
      if cx = 0xFFFF then .ok (0, ram)
      else
        match firmware.modeInfo cx with
        | none => .error .modeInfoFail
        | some block =>
            let ram := poke ram vbeModeInfoBlock block.val
            if wordAt ram (vbeModeInfoBlock + 0x12) = defaultXRes ∧
                wordAt ram (vbeModeInfoBlock + 0x14) = defaultYRes ∧
                (ram (vbeModeInfoBlock + 0x19)).toNat = defaultBpp then
              -- 256 words, of which the block is only the first half
              .ok (cx, poke ram vbeModeSelectedInfo (peek ram vbeModeInfoBlock 512))
            else getModeListLoop firmware es fuel ((si + 2) % 65536) ram

/-- The first word of `StartLoaderMessage`, which lies behind `CandidateMode`. -/
def startLoaderMessage : ℕ := 0x7453

/-- `EndModeListLoop`: the double word that is compared with 0 is `CandidateMode` and the
word behind it. -/
def endModeListLoop (firmware : Firmware) (candidateMode : ℕ) : Except Hang Unit :=
  if candidateMode + 65536 * startLoaderMessage = 0 then .error .svgaModeFail
  else if firmware.setMode ((candidateMode + 0x4000) % 65536) then .ok ()
  else .error .svgaModeFail

/-! ## §3  The page tables and the kernel -/

/-- The double words that are written, with their addresses. -/
def pageTables : List (ℕ × ℕ) :=
  [(0x90000, 0x91007), (0x90004, 0), (0x90800, 0x91007), (0x90804, 0),
    (0x91000, 0x92007), (0x91004, 0),
    (0x92000, 0x000083), (0x92004, 0), (0x92008, 0x200083), (0x9200c, 0),
    (0x92010, 0x400083), (0x92014, 0), (0x92018, 0x600083), (0x9201c, 0),
    (0x92020, 0x800083), (0x92024, 0), (0x92028, 0xa00083), (0x9202c, 0)]

/-- `GO_TO_TMP_Protect` -/
def goToTmpProtect (firmware : Firmware) (ram : Store Byte) : Except Hang (Store Byte) :=
  if firmware.longMode then
    .ok (pageTables.foldl (fun ram p => poke ram p.1 (leBytes 4 p.2)) ram)
  else .error .noSupport

/-- From `KillMotor` to the jump to the kernel. -/
def handOver (entries : List E820Entry) (firmware : Firmware) (fuel : ℕ) (ram : Store Byte) :
    Except Hang (Store Byte) := do
  let ram ← collectMemStruct entries ram
  let ram ← getVbeInfo firmware ram
  let si := wordAt ram vbeModeListOff
  let es := wordAt ram vbeModeListSeg
  let (candidateMode, ram) ← getModeListLoop firmware es fuel si ram
  endModeListLoop firmware candidateMode
  goToTmpProtect firmware ram

/-- `MEMORY_STRUCT_BUFFER_ADDR`, in the direct map of the kernel. -/
def kernelBufferAddr : ℕ := 0xffff800000007e00

def dwordAt (ram : Store Byte) (address : ℕ) : BitVec 32 :=
  BitVec.ofNat 32 (leNat (peek ram address 4))

/-- A packed `struct e820_entry_struct`. -/
def entryAt (ram : Store Byte) (address : ℕ) : E820Entry where
  baseAddrLow := dwordAt ram address
  baseAddrHigh := dwordAt ram (address + 4)
  lengthLow := dwordAt ram (address + 8)
  lengthHigh := dwordAt ram (address + 12)
  type := dwordAt ram (address + 16)

/-- The buffer as `init_memory` finds it. -/
def memoryStructBuffer (ram : Store Byte) : E820Buffer where
  entryCount := dwordAt ram (virtToPhys kernelBufferAddr)
  entries := fun i => entryAt ram (virtToPhys kernelBufferAddr + 4 + 20 * i)

end HandOver

end Knos.Bootloader
