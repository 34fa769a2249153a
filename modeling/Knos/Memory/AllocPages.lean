import Knos.Memory.Types

/-!
# `kernel/memory.c`: `page_init`, `alloc_pages`, `free_pages`

The three operations as the code computes them. Log output is left out; an access
outside a table, and the halt behind `fatalk`, end a call with a `Fault`.

`alloc_pages` first chooses a zone, then searches its part of the bitmap
(`findRun`, which changes nothing), then marks the run it found page by page.
-/

namespace Knos.Memory

open Knos.Loop Knos.Words

/-! ## §1  `page_init` -/

/-- `zone->nr_free -= n` -/
def MemoryZone.subFree (n : BitVec 64) (z : MemoryZone) : MemoryZone :=
  { z with nrFree := z.nrFree - n }

/-- `zone->nr_free += n` -/
def MemoryZone.addFree (n : BitVec 64) (z : MemoryZone) : MemoryZone :=
  { z with nrFree := z.nrFree + n }

/-- `zone->nr_free -= n; zone->GMM_struct->huge_page_info.free_2m_pages -= n;` -/
def GlobalMemoryManager.takeFree (g : GlobalMemoryManager) (zone : ℕ) (n : BitVec 64) :
    GlobalMemoryManager :=
  { g with
    zone := g.zone.modify zone (MemoryZone.subFree n)
    free2mPages := g.free2mPages - n }

/-- `zone->nr_free++; global_memory_manager_struct.huge_page_info.free_2m_pages++;` -/
def GlobalMemoryManager.giveFree (g : GlobalMemoryManager) (zone : ℕ) : GlobalMemoryManager :=
  { g with
    zone := g.zone.modify zone (MemoryZone.addFree 1)
    free2mPages := g.free2mPages + 1 }

def GlobalMemoryManager.setFrame (g : GlobalMemoryManager) (pfn : ℕ) (f : PageFrame) :
    GlobalMemoryManager :=
  { g with page := g.page.set pfn f }

def pageInit (g : GlobalMemoryManager) (pageFrame : Option ℕ) (flags : BitVec 32) :
    Except Fault GlobalMemoryManager :=
  match pageFrame with
  | none => .error .halted
  | some i =>
      match g.page[i]? with
      | none => .error (.outOfBounds .page i)
      | some f =>
          match f.zone with
          | none => .error .halted
          | some zone =>
              if f.flags &&& pageUsed = 0#32 then
                -- scenario 1: a frame not in use; the caller keeps the bitmap
                if zone < g.zone.length then
                  .ok ((g.setFrame i { f with flags := flags ||| pageUsed, refCount := 1 }).takeFree
                    zone 1)
                else .error (.outOfBounds .zone zone)
              else if f.flags &&& pageUser ≠ 0#32 ∨ flags &&& pageUser ≠ 0#32 then
                -- scenario 2: a shared page
                .ok (g.setFrame i { f with flags := f.flags ||| flags, refCount := f.refCount + 1 })
              else
                -- scenario 3: new flags only
                .ok (g.setFrame i { f with flags := f.flags ||| flags })

/-! ## §2  `alloc_pages` -/

/-- `1UL << n` as the processor shifts: by `n` modulo 64. -/
def shl64 (x : Word) (n : ℕ) : Word := x <<< (n % 64)

/-- Step 1: the first zone of the type that claims enough free pages. -/
def findZone (zoneType : MemoryZoneType) (nrPages : ℕ) :
    ℕ → List MemoryZone → Option (ℕ × MemoryZone)
  | _, [] => none
  | i, zone :: zones =>
      if zone.type ≠ zoneType then findZone zoneType nrPages (i + 1) zones
      else if nrPages ≤ zone.nrFree.toNat then some (i, zone)
      else findZone zoneType nrPages (i + 1) zones

/-- The inner loop of the large-block path: are words `i .. i + k - 1` all zero? -/
def wordsZero (bitmap : List Word) : ℕ → ℕ → Except Fault Bool
  | _, 0 => .ok true
  | i, k + 1 => do
      let w ← readWord bitmap i
      if w ≠ 0#64 then .ok false else wordsZero bitmap (i + 1) k

/-- One turn of the search loop at position `bit`. The debugging read at the first
position is of the word that every path below reads first. -/
def searchBody (bitmap : List Word) (nrPages limit bit : ℕ) :
    Except Fault (Turn ℕ (Option ℕ)) :=
  if bit ≤ limit then
    let wordIdx := bit / 64
    let inwordOffset := bit % 64
    if 64 ≤ nrPages ∧ inwordOffset = 0 then do
      -- whole words only: nr_pages is rounded down to a multiple of 64
      let neededWords := nrPages / 64
      let found ← wordsZero bitmap wordIdx neededWords
      if found then .ok (.leave (some bit)) else .ok (.again (bit + neededWords * 64))
    else
      let remaining := 64 - inwordOffset
      if nrPages ≤ remaining then do
        let mask := (shl64 1#64 nrPages - 1#64) <<< inwordOffset
        let w ← readWord bitmap wordIdx
        if w &&& mask = 0#64 then .ok (.leave (some bit)) else .ok (.again (bit + nrPages))
      else do
        -- the window straddles two words; a third is never looked at
        let maskLow := shl64 1#64 remaining - 1#64
        let maskHigh := shl64 1#64 (nrPages - remaining) - 1#64
        let low ← readWord bitmap wordIdx
        if low &&& (maskLow <<< inwordOffset) = 0#64 then do
          let high ← readWord bitmap (wordIdx + 1)
          if high &&& maskHigh = 0#64 then .ok (.leave (some bit))
          else .ok (.again (bit + remaining))
        else .ok (.again (bit + remaining))
  else .ok (.leave none)

/-- Step 2: the search over one zone. `zone_end_bit - nr_pages` is unsigned. -/
def searchZone (bitmap : List Word) (zone : MemoryZone) (nrPages : ℕ) :
    Except Fault (Option ℕ) :=
  whileLoop (searchBody bitmap nrPages (sub64 zone.endPfn nrPages)) .unfinished
    (64 * bitmap.length + 1) zone.startPfn

/-- Steps 1 and 2: zone and first frame of the run; `found_start` starts out as 0
and 0 means that nothing was found. -/
def findRun (g : GlobalMemoryManager) (zoneType : MemoryZoneType) (nrPages : ℕ) :
    Except Fault (Option (ℕ × ℕ)) :=
  match findZone zoneType nrPages 0 g.zone with
  | none => .ok none
  | some (i, zone) => do
      let found ← searchZone g.bitmap zone nrPages
      let foundStart := found.getD 0
      if foundStart = 0 then .ok none else .ok (some (i, foundStart))

/-- Step 3 for one page: the bit, then the frame. -/
def markPage (flags : BitVec 32) (pfn : ℕ) (g : GlobalMemoryManager) :
    Except Fault GlobalMemoryManager := do
  let bitmap ← setBitmapBit g.bitmap pfn
  pageInit { g with bitmap := bitmap } (some pfn) flags

/-- The frame handed out (`none` for NULL) and the state after the call. -/
def allocPages (g : GlobalMemoryManager) (zoneType : MemoryZoneType) (nrPages flags : BitVec 32) :
    Except Fault (Option ℕ × GlobalMemoryManager) := do
  match ← findRun g zoneType nrPages.toNat with
  | none => .ok (none, g)
  | some (zone, foundStart) =>
      let g₁ ← forRange (markPage flags) foundStart nrPages.toNat g
      -- step 4: the zone's counter once more, after page_init has counted each page
      .ok (some foundStart, g₁.takeFree zone (nrPages.setWidth 64))

/-! ## §3  `free_pages` -/

/-- One page of the loop; `zone` is the zone of the first page of the call. -/
def freePage (zone pfn : ℕ) (g : GlobalMemoryManager) : Except Fault GlobalMemoryManager :=
  match g.page[pfn]? with
  | none => .error (.outOfBounds .page pfn)
  | some f =>
      if f.flags &&& pageUsed = 0#32 then .ok g
      else
        let refCount := if 0 < f.refCount then f.refCount - 1 else f.refCount
        if 0 < f.refCount ∧ 0 < refCount then
          -- somebody else still uses the page
          .ok (g.setFrame pfn { f with refCount := refCount })
        else do
          let bitmap ← clearBitmapBit g.bitmap f.pfn
          if zone < g.zone.length then
            .ok (({ g with bitmap := bitmap }.setFrame pfn
              { f with refCount := refCount, flags := 0 }).giveFree zone)
          else .error (.outOfBounds .zone zone)

def freePages (g : GlobalMemoryManager) (page : Option ℕ) (nrPages : BitVec 32) :
    Except Fault GlobalMemoryManager :=
  match page with
  | none => .ok g
  | some i =>
      if nrPages = 0#32 then .ok g
      else
        match g.page[i]? with
        | none => .error (.outOfBounds .page i)
        | some f =>
            match f.zone with
            | none => .ok g
            | some zone =>
                if g.page.length ≤ f.pfn then .ok g
                else forRange (freePage zone) f.pfn nrPages.toNat g

end Knos.Memory
