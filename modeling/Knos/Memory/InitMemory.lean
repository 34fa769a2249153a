import Knos.Memory.AllocPages

/-!
# `kernel/memory.c`: `init_memory`

The phases of the function in the order of the source, each a function of its own,
over the E820 buffer that the loader left and the address `_end`. Log output is
left out, and so is the switch of the page tables at the end.

An index outside the bitmap or the page array is a `Fault`: the memory behind it is
another table's. The two other arrays are read or written past their end without
any effect on the tables, so those indices are recorded (`Boot.accesses`) together
with the bound of the array, and the function goes on as the code does.
-/

namespace Knos.Memory

open Knos.Loop Knos.Words

/-! ## §1  Input and result -/

/-- The memory at `MEMORY_STRUCT_BUFFER_ADDR`: a count, and entries from byte 4 on. -/
structure E820Buffer where
  entryCount : BitVec 32
  entries : ℕ → E820Entry

/-- The entry of `length` bytes from `base` on. -/
def entryOf (base length : ℕ) (type : BitVec 32) : E820Entry where
  baseAddrLow := BitVec.ofNat 32 base
  baseAddrHigh := BitVec.ofNat 32 (base >>> 32)
  lengthLow := BitVec.ofNat 32 length
  lengthHigh := BitVec.ofNat 32 (length >>> 32)
  type := type

/-- A buffer that holds the given entries and zeroes behind them. -/
def bufferOf (entries : List E820Entry) : E820Buffer where
  entryCount := BitVec.ofNat 32 entries.length
  entries := fun i => entries.getD i ⟨0, 0, 0, 0, 0⟩

/-- An index used, and the length of the array it is used on. -/
structure Access where
  table : Table
  index : ℕ
  bound : ℕ
deriving DecidableEq, Repr

def Access.InBounds (a : Access) : Prop := a.index < a.bound

instance (a : Access) : Decidable a.InBounds := inferInstanceAs (Decidable (_ < _))

/-- The state of `init_memory`: the global structure, the local `max_pfn`, and the
indices used on `memory_type_array`, `e820_entry` and the zone array. -/
structure Boot where
  gmm : GlobalMemoryManager
  maxPfn : ℕ
  accesses : List Access
deriving DecidableEq, Repr

/-- The structure lies in `.bss`: all zero. -/
def GlobalMemoryManager.zeroed : GlobalMemoryManager where
  e820Entry := []
  bitmap := []
  page := []
  zone := []
  total2mPages := 0
  free2mPages := 0
  layout := ⟨0, 0, 0, 0, 0, 0, 0⟩

/-- `_text`, where the linker script puts the image: physical 1 MB. -/
def textAddr : ℕ := physToVirtBase + 0x100000

/-! ## §2  Pass 1: copying and counting -/

/-- `e820_entry_count` after the overflow check. -/
def E820Buffer.count (buffer : E820Buffer) : ℕ :=
  if e820MaxEntries < buffer.entryCount.toNat then e820MaxEntries else buffer.entryCount.toNat

/-- The entries copied. -/
def E820Buffer.table (buffer : E820Buffer) : List E820Entry :=
  (List.range buffer.count).map buffer.entries

def copyEntries (buffer : E820Buffer) : Boot where
  gmm := { GlobalMemoryManager.zeroed with e820Entry := buffer.table }
  maxPfn := 0
  accesses := (List.range buffer.count).map fun i => ⟨.e820Entry, i, e820MaxEntries⟩

/-- `base + length` -/
def E820Entry.end64 (entry : E820Entry) : ℕ := u64 (entry.base + entry.length)

/-- The usable part of an entry, rounded inwards to pages. -/
def E820Entry.alignedBase (entry : E820Entry) : ℕ := page2mAlign entry.base
def E820Entry.alignedEnd (entry : E820Entry) : ℕ := entry.end64 &&& page2mMask

/-- One turn of the counting loop. The type indexes `memory_type_array` for the log. -/
def countEntry (s : Boot) (entry : E820Entry) : Boot :=
  let regionMaxPfn := entry.end64 >>> page2mShift
  let maxPfn := if s.maxPfn < regionMaxPfn then regionMaxPfn else s.maxPfn
  let accesses := s.accesses ++ [⟨.memoryTypeArray, entry.type.toNat, memoryTypeArrayLength⟩]
  if entry.type ≠ 1#32 ∨ entry.length = 0 then
    { s with maxPfn := maxPfn, accesses := accesses }
  else if entry.alignedEnd ≤ entry.alignedBase then
    { s with maxPfn := maxPfn, accesses := accesses }
  else
    let pages := (entry.alignedEnd - entry.alignedBase) / page2mSize
    { gmm := { s.gmm with total2mPages := s.gmm.total2mPages + BitVec.ofNat 64 pages }
      maxPfn := maxPfn
      accesses := accesses }

/-! ## §3  The tables -/

/-- The addresses of the three tables, one behind the other from `_end` on, for
`maxPfn + 1` frames and the final number of zones. -/
def placeTables (endKrnl maxPfn zoneCount : ℕ) : Layout :=
  let bitmapAddr := u64 (endKrnl + page4kSize - 1) &&& page4kMask
  let bitmapSize := u64 ((maxPfn + 1 + 63) / 64 * 8)
  let pageAddr := u64 (bitmapAddr + bitmapSize + page4kSize - 1) &&& page4kMask
  let pageSize := u64 ((maxPfn + 1) * sizeofPageFrame + 63) &&& mask64
  let zoneAddr := u64 (pageAddr + pageSize + page4kSize - 1) &&& page4kMask
  let zoneSize := u64 (zoneCount * sizeofMemoryZone + 63) &&& mask64
  { bitmapAddr, bitmapSize, pageAddr, pageSize, zoneAddr, zoneSize
    structEnd := u64 (zoneAddr + zoneSize + 63) &&& mask64 }

/-- `start_pfn` and `end_pfn` of an entry that is not RAM. -/
def E820Entry.startPfn (entry : E820Entry) : ℕ := page2mAlign entry.base >>> page2mShift
def E820Entry.endPfn (entry : E820Entry) : ℕ := entry.end64 >>> page2mShift

def markReserved (bitmap : List Word) (entry : E820Entry) : Except Fault (List Word) :=
  if entry.type = 1#32 then .ok bitmap
  else
    forRange (fun pfn bitmap => setBitmapBit bitmap pfn) entry.startPfn
      (entry.endPfn - entry.startPfn) bitmap

/-- A frame before the zones are built. -/
def PageFrame.reserved (pfn : ℕ) : PageFrame where
  zone := none
  pfn := pfn
  refCount := 0
  flags := pageReserved
  pageSize := .page2m

def initBitmapAndPages (s : Boot) : Except Fault Boot := do
  let bitmap ← forEach markReserved s.gmm.e820Entry (List.replicate ((s.maxPfn + 1 + 63) / 64) 0)
  let page := (List.range (s.maxPfn + 1)).map PageFrame.reserved
  .ok { s with gmm := { s.gmm with bitmap := bitmap, page := page } }

/-! ## §4  Pass 2: the zones -/

/-- 16 MB -/
def dmaBoundary : ℕ := 0x1000000

/-- How often `for (int j = 0; j < total_pages; j++)` runs: the comparison is
unsigned, and after `INT_MAX` the counter is negative, which ends the loop. -/
def frameLoopCount (totalPages : ℕ) : ℕ := min totalPages (2 ^ 31)

/-- A frame of zone number `zone`. -/
def PageFrame.ofZone (zone pfn : ℕ) : PageFrame where
  zone := some zone
  pfn := pfn
  refCount := 0
  flags := 0
  pageSize := .page2m

/-- One turn of the frame loop of zone number `index`. The loop of a zone that was
not split compares `end_pfn` with `max_pfn` each time. -/
def initFrame (checked : Bool) (zone : MemoryZone) (maxPfn index pfn : ℕ)
    (page : List PageFrame) : Except Fault (List PageFrame) :=
  if checked ∧ maxPfn < zone.endPfn then .error .halted
  else if pfn < page.length then .ok (page.set pfn (PageFrame.ofZone index pfn))
  else .error (.outOfBounds .page pfn)

/-- A new zone behind the last one. The zone array has been given the size of
`e820_entry_count` zones. -/
def addZone (checked : Bool) (zone : MemoryZone) (s : Boot) : Except Fault Boot := do
  let index := s.gmm.zone.length
  let page ← forRange (initFrame checked zone s.maxPfn index) zone.startPfn
    (frameLoopCount zone.totalPages) s.gmm.page
  .ok { s with
    gmm := { s.gmm with zone := s.gmm.zone ++ [zone], page := page }
    accesses := s.accesses ++ [⟨.zone, index, s.gmm.e820Entry.length⟩] }

def newZone (type : MemoryZoneType) (startPfn endPfn totalPages : ℕ) : MemoryZone where
  totalPages := totalPages
  startPfn := startPfn
  endPfn := endPfn
  type := type
  nrFree := BitVec.ofNat 64 totalPages

/-- `start` to 16 MB -/
def dmaZone (start : ℕ) : MemoryZone :=
  newZone .zoneDma (start >>> page2mShift) (dmaBoundary >>> page2mShift)
    (sub64 (dmaBoundary >>> page2mShift) (start >>> page2mShift))

/-- 16 MB to `end` -/
def normalZone (end_ : ℕ) : MemoryZone :=
  newZone .zoneNormal (dmaBoundary >>> page2mShift) (end_ >>> page2mShift)
    (sub64 (end_ >>> page2mShift) (dmaBoundary >>> page2mShift))

/-- An entry that 16 MB does not split. -/
def wholeZone (start end_ : ℕ) : MemoryZone :=
  newZone (if start < 0x1000000 then .zoneDma else .zoneNormal) (start >>> page2mShift)
    (end_ >>> page2mShift) (sub64 end_ start >>> page2mShift)

def buildZones (s : Boot) (entry : E820Entry) : Except Fault Boot :=
  if entry.type ≠ 1#32 then .ok s
  else
    let start := entry.alignedBase
    let end_ := entry.alignedEnd
    if end_ ≤ start then .ok s
    else if start < dmaBoundary ∧ dmaBoundary < end_ then do
      let s ← addZone false (dmaZone start) s
      addZone false (normalZone end_) s
    else addZone true (wholeZone start end_) s

/-! ## §5  Page 0, the bitmap test and the tables' own pages -/

/-- Page 0 becomes a page of the first cell of the zone array. -/
def resetPageZero (s : Boot) : Except Fault Boot := do
  let bitmap ← clearBitmapBit s.gmm.bitmap 0
  if 0 < s.gmm.page.length then
    .ok { s with
      gmm := { s.gmm with
        bitmap := bitmap
        page := s.gmm.page.set 0 (PageFrame.ofZone 0 0) } }
  else .error (.outOfBounds .page 0)

/-- `zone.addr[0].start_pfn`: 0 in an array that holds only the zeroes of `memset`,
unknown where there is no array. -/
def firstPfn (g : GlobalMemoryManager) : Except Fault ℕ :=
  match g.zone with
  | zone :: _ => .ok zone.startPfn
  | [] => if 0 < g.e820Entry.length then .ok 0 else .error (.outOfBounds .zone 0)

/-- Reads the first and the last zone, then sets and clears the bit of the tenth page
after the first. `zone.count - 1` is unsigned. -/
def testBitmap (s : Boot) : Except Fault Boot := do
  let first ← firstPfn s.gmm
  let count := s.gmm.zone.length
  let bitmap ← setBitmapBit s.gmm.bitmap (first + 10)
  let bitmap ← clearBitmapBit bitmap (first + 10)
  .ok { s with
    gmm := { s.gmm with bitmap := bitmap }
    accesses := s.accesses ++ [⟨.zone, 0, count⟩, ⟨.zone, sub64 count 1, count⟩] }

/-- `zone->nr_free--` for the first zone with `start_pfn <= pfn <= end_pfn`. -/
def chargeZone (pfn : ℕ) (g : GlobalMemoryManager) : GlobalMemoryManager :=
  match g.zone.findIdx? fun zone => decide (zone.startPfn ≤ pfn ∧ pfn ≤ zone.endPfn) with
  | some i => g.takeFree i 1
  | none => g

/-- The frame of a page that holds one of the tables. -/
def PageFrame.ofKernel (f : PageFrame) : PageFrame :=
  { f with flags := pageKernel ||| pagePresent ||| pageWritable ||| pageUsed, refCount := 1 }

def reserveKernelPage (pfn : ℕ) (g : GlobalMemoryManager) : Except Fault GlobalMemoryManager := do
  let bitmap ← setBitmapBit g.bitmap pfn
  match g.page[pfn]? with
  | none => .error (.outOfBounds .page pfn)
  | some f => .ok (chargeZone pfn ({ g with bitmap := bitmap }.setFrame pfn f.ofKernel))

/-- `start_pfn` and `end_pfn` of the pages reserved for the tables. -/
def Layout.firstReserved (l : Layout) : ℕ := page2mAlign (virtToPhys l.bitmapAddr) >>> page2mShift
def Layout.endReserved (l : Layout) : ℕ :=
  page2mAlign (u64 (virtToPhys l.structEnd + page2mSize - 1)) >>> page2mShift

def reserveKernel (s : Boot) : Except Fault Boot := do
  let l := s.gmm.layout
  let g ← forRange reserveKernelPage l.firstReserved (l.endReserved - l.firstReserved) s.gmm
  .ok { s with gmm := g }

/-! ## §6  The whole function -/

/-- Up to the end of the zone loop. -/
def constructZones (buffer : E820Buffer) : Except Fault Boot := do
  let s ← initBitmapAndPages (buffer.table.foldl countEntry (copyEntries buffer))
  forEach buildZones s.gmm.e820Entry s

def Boot.place (endKrnl : ℕ) (s : Boot) : Boot :=
  { s with gmm := { s.gmm with layout := placeTables endKrnl s.maxPfn s.gmm.zone.length } }

def initMemory (buffer : E820Buffer) (endKrnl : ℕ) : Except Fault Boot := do
  let s ← constructZones buffer
  let s ← resetPageZero s
  let s ← testBitmap s
  reserveKernel (s.place endKrnl)

end Knos.Memory
