import Knos.Lib.Loop
import Knos.Lib.Words

/-!
# `kernel/memory.h`: the data of the page-frame allocator

A page is 2 MB. Every page frame below the highest address of the E820 map has a
bit in the bitmap and a `struct page_frame_struct` in the page array; runs of
usable pages are grouped in zones.

Pointers into the three tables are indices. Page frame numbers and addresses are
natural numbers, reduced modulo `2^64` where the C arithmetic can wrap; the
counters that do wrap (`nr_free`, `free_2m_pages`, `ref_count`) are bit vectors
of their own width, and so are flags and bitmap words.
-/

namespace Knos.Memory

open Knos.Words

/-! ## §1  Constants -/

def page2mShift : ℕ := 21
def page2mSize : ℕ := 2 ^ 21
def page4kSize : ℕ := 2 ^ 12

/-- `PAGE_2M_MASK`, the complement of `PAGE_2M_SIZE - 1` in 64 bits. -/
def page2mMask : ℕ := 2 ^ 64 - 2 ^ 21

/-- `PAGE_4K_MASK`. -/
def page4kMask : ℕ := 2 ^ 64 - 2 ^ 12

/-- `~63`, an `int` constant sign-extended to 64 bits. -/
def mask64 : ℕ := 2 ^ 64 - 2 ^ 6

/-- `E820_MAX_ENTRIES` -/
def e820MaxEntries : ℕ := 64

/-- `sizeof(struct page_frame_struct)`: 8 + 8 + 2 (+2) + 4 + 4, padded to 8. -/
def sizeofPageFrame : ℕ := 32

/-- `sizeof(struct memory_zone_struct)`: eight words. -/
def sizeofMemoryZone : ℕ := 64

/-- The length of `memory_type_array`. -/
def memoryTypeArrayLength : ℕ := 5

/-- The base of the kernel's direct map of physical memory. -/
def physToVirtBase : ℕ := 0xFFFF800000000000

def pageUsed : BitVec 32 := 0x0002
def pageReserved : BitVec 32 := 0x0004
def pageKernel : BitVec 32 := 0x0008
def pagePresent : BitVec 32 := 0x0100
def pageWritable : BitVec 32 := 0x0200
def pageUser : BitVec 32 := 0x0400

/-! ## §2  64-bit arithmetic -/

/-- A value kept in a `uint64_t`. -/
def u64 (x : ℕ) : ℕ := x % 2 ^ 64

/-- `a - b` in `uint64_t`. -/
def sub64 (a b : ℕ) : ℕ := (a + 2 ^ 64 - b % 2 ^ 64) % 2 ^ 64

/-- `PAGE_2M_ALIGN(addr)` -/
def page2mAlign (addr : ℕ) : ℕ := u64 (addr + page2mSize - 1) &&& page2mMask

/-- `VIRT_TO_PHYS(va)` -/
def virtToPhys (va : ℕ) : ℕ := sub64 va physToVirtBase

theorem sub64_of_le {a b : ℕ} (hb : b ≤ a) (ha : a < 2 ^ 64) : sub64 a b = a - b := by
  unfold sub64
  rw [Nat.mod_eq_of_lt (show b < 2 ^ 64 by omega)]
  omega

theorem toNat_ne_zero {n : BitVec 32} (h : n ≠ 0#32) : n.toNat ≠ 0 :=
  fun h0 => h (BitVec.eq_of_toNat_eq h0)

theorem u64_of_lt {x : ℕ} (h : x < 2 ^ 64) : u64 x = x := Nat.mod_eq_of_lt h

/-! ## §3  The structures -/

/-- `struct e820_entry_struct` -/
structure E820Entry where
  baseAddrLow : BitVec 32
  baseAddrHigh : BitVec 32
  lengthLow : BitVec 32
  lengthHigh : BitVec 32
  type : BitVec 32
deriving DecidableEq, Repr

namespace E820Entry

/-- `((uint64_t)entry->base_addr_high << 32) | entry->base_addr_low` -/
def base (e : E820Entry) : ℕ := e.baseAddrHigh.toNat <<< 32 ||| e.baseAddrLow.toNat

/-- `((uint64_t)entry->length_high << 32) | entry->length_low` -/
def length (e : E820Entry) : ℕ := e.lengthHigh.toNat <<< 32 ||| e.lengthLow.toNat

end E820Entry

/-- `enum page_size` -/
inductive PageSize where
  | page4k
  | page2m
  | page1g
deriving DecidableEq, Repr

/-- `struct page_frame_struct`; `zone` is an index into the zone table. -/
structure PageFrame where
  zone : Option ℕ
  pfn : ℕ
  refCount : BitVec 16
  flags : BitVec 32
  pageSize : PageSize
deriving DecidableEq, Repr

/-- `flags & PAGE_USED` -/
def PageFrame.isUsed (f : PageFrame) : Bool := f.flags &&& pageUsed != 0#32

/-- `enum memory_zone_type` -/
inductive MemoryZoneType where
  | zoneDma
  | zoneDma32
  | zoneNormal
deriving DecidableEq, Repr

/-- `struct memory_zone_struct`. Its `page_array` is the page array from
`start_pfn` on, its `GMM_struct` the one global structure. -/
structure MemoryZone where
  totalPages : ℕ
  startPfn : ℕ
  endPfn : ℕ
  type : MemoryZoneType
  nrFree : BitVec 64
deriving DecidableEq, Repr

/-- The frame numbers of a zone are `[start_pfn, end_pfn)`. -/
def MemoryZone.Contains (z : MemoryZone) (pfn : ℕ) : Prop := z.startPfn ≤ pfn ∧ pfn < z.endPfn

instance (z : MemoryZone) (pfn : ℕ) : Decidable (z.Contains pfn) :=
  inferInstanceAs (Decidable (_ ∧ _))

/-- Of disjoint zones only one contains a page. -/
theorem eq_of_contains {zones : List MemoryZone}
    (hdisj : zones.Pairwise fun a b => ∀ q, ¬ (a.Contains q ∧ b.Contains q)) {i j q : ℕ}
    {z z' : MemoryZone} (hi : zones[i]? = some z) (hj : zones[j]? = some z') (hz : z.Contains q)
    (hz' : z'.Contains q) : i = j := by
  rw [List.pairwise_iff_getElem] at hdisj
  obtain ⟨hlt, rfl⟩ := List.getElem?_eq_some_iff.mp hi
  obtain ⟨hlt', rfl⟩ := List.getElem?_eq_some_iff.mp hj
  rcases Nat.lt_trichotomy i j with h | h | h
  · exact absurd ⟨hz, hz'⟩ (hdisj i j hlt hlt' h q)
  · exact h
  · exact absurd ⟨hz', hz⟩ (hdisj j i hlt' hlt h q)

/-- A word of the bitmap. -/
abbrev Word : Type := BitVec 64

/-- Where the tables lie: the `addr` and `size` fields of the three tables and
`struct_end`, as virtual addresses. -/
structure Layout where
  bitmapAddr : ℕ
  bitmapSize : ℕ
  pageAddr : ℕ
  pageSize : ℕ
  zoneAddr : ℕ
  zoneSize : ℕ
  structEnd : ℕ
deriving DecidableEq, Repr

/-- `struct global_memory_manager_struct`; each table carries its contents, and
its `count` is the length of the list. -/
structure GlobalMemoryManager where
  e820Entry : List E820Entry
  bitmap : List Word
  page : List PageFrame
  zone : List MemoryZone
  total2mPages : BitVec 64
  free2mPages : BitVec 64
  layout : Layout
deriving DecidableEq, Repr

/-! ## §4  Faults -/

/-- The arrays the code indexes. -/
inductive Table where
  | memoryTypeArray
  | e820Entry
  | bitmap
  | page
  | zone
deriving DecidableEq, Repr

/-- How a call can fail to return: an index outside its array (undefined in C), the
`hlt` loop behind a `fatalk`, or a loop that the model gave too little fuel
(`searchZone_ne_unfinished`: never). -/
inductive Fault where
  | outOfBounds (table : Table) (index : ℕ)
  | halted
  | unfinished
deriving DecidableEq, Repr

/-- `bitmap.addr[word]` -/
def readWord (bitmap : List Word) (word : ℕ) : Except Fault Word :=
  match bitmap[word]? with
  | some w => .ok w
  | none => .error (.outOfBounds .bitmap word)

/-- `bitmap.addr[pfn / 64] |= 1UL << pfn % 64` -/
def setBitmapBit (bitmap : List Word) (pfn : ℕ) : Except Fault (List Word) :=
  if pfn / 64 < bitmap.length then .ok (setBit bitmap pfn)
  else .error (.outOfBounds .bitmap (pfn / 64))

/-- `bitmap.addr[pfn / 64] &= ~(1UL << pfn % 64)` -/
def clearBitmapBit (bitmap : List Word) (pfn : ℕ) : Except Fault (List Word) :=
  if pfn / 64 < bitmap.length then .ok (clearBit bitmap pfn)
  else .error (.outOfBounds .bitmap (pfn / 64))

theorem readWord_eq_ok {bitmap : List Word} {i : ℕ} {x : Word} :
    readWord bitmap i = .ok x ↔ bitmap[i]? = some x := by
  unfold readWord
  cases bitmap[i]? <;> simp

theorem setBitmapBit_eq_ok {bitmap bitmap' : List Word} {pfn : ℕ} :
    setBitmapBit bitmap pfn = .ok bitmap' ↔
      pfn / 64 < bitmap.length ∧ bitmap' = setBit bitmap pfn := by
  unfold setBitmapBit
  by_cases h : pfn / 64 < bitmap.length
  · simp [h, eq_comm]
  · simp [h]

theorem clearBitmapBit_eq_ok {bitmap bitmap' : List Word} {pfn : ℕ} :
    clearBitmapBit bitmap pfn = .ok bitmap' ↔
      pfn / 64 < bitmap.length ∧ bitmap' = clearBit bitmap pfn := by
  unfold clearBitmapBit
  by_cases h : pfn / 64 < bitmap.length
  · simp [h, eq_comm]
  · simp [h]

end Knos.Memory
