import Knos.Memory.Zones

/-!
# Where `init_memory` puts its tables

The bitmap, the page array and the zone array follow the kernel image one behind the
other, each at a 4 KB boundary. The direct map turns a physical address into a
virtual one by adding a constant modulo `2^64`, which rounding respects, so the
layout has a closed form in physical addresses (§1) that holds for every memory map.
§2 compares it with the part of the direct map that the boot page tables fill, and
§3 computes the pages that `init_memory` reserves.

Nothing in the code bounds the tables: the page array has 32 bytes for every 2 MB
below the highest address of any entry, usable or not.
-/

namespace Knos.Memory

open Knos.Align

/-! ## §1  The layout in physical addresses -/

/-- The virtual address of a physical one. -/
def physToVirt (pa : ℕ) : ℕ := u64 (physToVirtBase + pa)

/-- The physical address at which the bitmap starts. -/
def tablesStart (endKrnl : ℕ) : ℕ := roundUp 12 (virtToPhys endKrnl)

/-- The 4 KB pages of the bitmap and of the page array, for `maxPfn + 1` frames. -/
def bitmapSpan (maxPfn : ℕ) : ℕ := (maxPfn + 32768) / 32768 * 4096
def pageSpan (maxPfn : ℕ) : ℕ := (maxPfn + 128) / 128 * 4096

/-- The physical address at which the tables end. -/
def tablesEnd (endKrnl maxPfn zoneCount : ℕ) : ℕ :=
  tablesStart endKrnl + bitmapSpan maxPfn + pageSpan maxPfn + zoneCount * 64

theorem virtToPhys_physToVirt {pa : ℕ} (h : pa < 2 ^ 64) : virtToPhys (physToVirt pa) = pa := by
  unfold virtToPhys physToVirt sub64 u64 physToVirtBase
  omega

/-- Addresses of the direct map are the images of the physical ones below `2^47`. -/
theorem physToVirt_virtToPhys {va : ℕ} (h : physToVirtBase ≤ va) (hlt : va < 2 ^ 64) :
    physToVirt (virtToPhys va) = va ∧ virtToPhys va < 2 ^ 47 ∧
      virtToPhys va = va - physToVirtBase := by
  unfold virtToPhys physToVirt sub64 u64
  unfold physToVirtBase at *
  omega

/-- Rounding a virtual address up, after moving on by `size` bytes. -/
theorem align_physToVirt {k pa size : ℕ} (hk : k ≤ 47) (hpa : 2 ^ k ∣ pa) :
    (physToVirt pa + size + 2 ^ k - 1) % 2 ^ 64 &&& (2 ^ 64 - 2 ^ k) =
      physToVirt (pa + roundUp k size) := by
  have hbase : 2 ^ k ∣ physToVirtBase :=
    dvd_trans (Nat.pow_dvd_pow 2 hk) (by decide)
  obtain ⟨m, hm⟩ := Nat.dvd_add hbase hpa
  rw [and_mask_roundUp (by omega), physToVirt, u64, roundUp_mod (by omega), hm, Nat.add_comm _ size,
    Nat.mul_comm, roundUp_add_mul, physToVirt, u64, ← Nat.add_assoc, hm, Nat.mul_comm m,
    Nat.add_comm]

theorem align4k_physToVirt {pa size : ℕ} (hpa : 2 ^ 12 ∣ pa) :
    u64 (physToVirt pa + size + page4kSize - 1) &&& page4kMask =
      physToVirt (pa + roundUp 12 size) :=
  @align_physToVirt 12 pa size (by decide) hpa

theorem align64_physToVirt {pa size : ℕ} (hpa : 2 ^ 6 ∣ pa) :
    u64 (physToVirt pa + size + 63) &&& mask64 = physToVirt (pa + roundUp 6 size) :=
  @align_physToVirt 6 pa size (by decide) hpa

theorem roundUp_bitmapSize (maxPfn : ℕ) :
    roundUp 12 ((maxPfn + 1 + 63) / 64 * 8) = bitmapSpan maxPfn := by
  unfold roundUp bitmapSpan
  omega

theorem roundUp_pageSize (maxPfn : ℕ) :
    roundUp 12 (roundUp 6 ((maxPfn + 1) * 32)) = pageSpan maxPfn := by
  unfold roundUp pageSpan
  omega

theorem mask64_roundUp {x : ℕ} (h : x + 63 < 2 ^ 64) : u64 (x + 63) &&& mask64 = roundUp 6 x := by
  have hle : roundUp 6 x < 2 ^ 64 := by
    unfold roundUp
    omega
  exact (@and_mask_roundUp 6 64 (by decide) x).trans (Nat.mod_eq_of_lt hle)

section Layout

variable {endKrnl maxPfn zoneCount : ℕ}

/-- **The layout in closed form**, for any image, any memory map and any zones. -/
theorem placeTables_eq (hend : physToVirtBase ≤ endKrnl) (hlt : endKrnl < 2 ^ 64)
    (hmax : maxPfn < 2 ^ 43) (hzones : zoneCount < 2 ^ 32) :
    placeTables endKrnl maxPfn zoneCount =
      { bitmapAddr := physToVirt (tablesStart endKrnl)
        bitmapSize := (maxPfn + 64) / 64 * 8
        pageAddr := physToVirt (tablesStart endKrnl + bitmapSpan maxPfn)
        pageSize := roundUp 6 ((maxPfn + 1) * 32)
        zoneAddr := physToVirt (tablesStart endKrnl + bitmapSpan maxPfn + pageSpan maxPfn)
        zoneSize := zoneCount * 64
        structEnd := physToVirt (tablesEnd endKrnl maxPfn zoneCount) } := by
  have hphys := (physToVirt_virtToPhys hend hlt).2.2
  have hstart : u64 (endKrnl + page4kSize - 1) &&& page4kMask =
      physToVirt (tablesStart endKrnl) := by
    have hmul : physToVirtBase = 0xFFFF800000000 * 2 ^ 12 := by decide
    refine (@and_mask_roundUp 12 64 (by decide) endKrnl).trans ?_
    have hsplit : endKrnl = virtToPhys endKrnl + physToVirtBase := by omega
    rw [physToVirt, u64, tablesStart, Nat.add_comm physToVirtBase, hmul, ← roundUp_add_mul, ← hmul,
      ← hsplit]
  have hstart4k : 2 ^ 12 ∣ tablesStart endKrnl := dvd_roundUp 12 _
  have hpage4k : 2 ^ 12 ∣ tablesStart endKrnl + bitmapSpan maxPfn :=
    Nat.dvd_add hstart4k (Nat.dvd_mul_left _ _)
  have hzone4k : 2 ^ 12 ∣ tablesStart endKrnl + bitmapSpan maxPfn + pageSpan maxPfn :=
    Nat.dvd_add hpage4k (Nat.dvd_mul_left _ _)
  have hbitmapSize : u64 ((maxPfn + 1 + 63) / 64 * 8) = (maxPfn + 64) / 64 * 8 :=
    u64_of_lt (by omega)
  have hpageSize : u64 ((maxPfn + 1) * sizeofPageFrame + 63) &&& mask64 =
      roundUp 6 ((maxPfn + 1) * 32) :=
    mask64_roundUp (show (maxPfn + 1) * 32 + 63 < 2 ^ 64 by omega)
  have hzoneSize : u64 (zoneCount * sizeofMemoryZone + 63) &&& mask64 = zoneCount * 64 :=
    (mask64_roundUp (show zoneCount * 64 + 63 < 2 ^ 64 by omega)).trans (roundUp_mul 6 zoneCount)
  have hpageAddr : u64 (physToVirt (tablesStart endKrnl) + (maxPfn + 64) / 64 * 8 +
      page4kSize - 1) &&& page4kMask = physToVirt (tablesStart endKrnl + bitmapSpan maxPfn) := by
    rw [align4k_physToVirt hstart4k, ← roundUp_bitmapSize]
  have hzoneAddr : u64 (physToVirt (tablesStart endKrnl + bitmapSpan maxPfn) +
      roundUp 6 ((maxPfn + 1) * 32) + page4kSize - 1) &&& page4kMask =
        physToVirt (tablesStart endKrnl + bitmapSpan maxPfn + pageSpan maxPfn) := by
    rw [align4k_physToVirt hpage4k, roundUp_pageSize]
  have hstructEnd : u64 (physToVirt (tablesStart endKrnl + bitmapSpan maxPfn + pageSpan maxPfn) +
      zoneCount * 64 + 63) &&& mask64 = physToVirt (tablesEnd endKrnl maxPfn zoneCount) := by
    have hzone : roundUp 6 (zoneCount * 64) = zoneCount * 64 := roundUp_mul 6 zoneCount
    rw [align64_physToVirt (dvd_trans (Nat.pow_dvd_pow 2 (by decide)) hzone4k), hzone, tablesEnd]
  unfold placeTables
  simp only [hstart, hbitmapSize, hpageSize, hzoneSize, hpageAddr, hzoneAddr, hstructEnd]

/-! ## §2  The mapped part of the direct map -/

theorem virtToPhys_lt (hend : physToVirtBase ≤ endKrnl) (hlt : endKrnl < 2 ^ 64) :
    tablesStart endKrnl < 2 ^ 48 := by
  have h := (physToVirt_virtToPhys hend hlt).2.1
  unfold tablesStart roundUp
  omega

theorem tablesEnd_lt (hend : physToVirtBase ≤ endKrnl) (hlt : endKrnl < 2 ^ 64)
    (hmax : maxPfn < 2 ^ 43) (hzones : zoneCount < 2 ^ 32) :
    tablesEnd endKrnl maxPfn zoneCount < 2 ^ 50 := by
  have h := virtToPhys_lt hend hlt
  unfold tablesEnd bitmapSpan pageSpan
  omega

end Layout

/-- The five 2 MB pages of low RAM that the page directory of `head.S` maps. -/
def lowMapSize : ℕ := 5 * page2mSize

/-- The tables lie one behind the other in the mapped part of the direct map. -/
structure TablesFit (l : Layout) : Prop where
  start : physToVirtBase ≤ l.bitmapAddr
  bitmap_page : l.bitmapAddr + l.bitmapSize ≤ l.pageAddr
  page_zone : l.pageAddr + l.pageSize ≤ l.zoneAddr
  zone_end : l.zoneAddr + l.zoneSize ≤ l.structEnd
  mapped : l.structEnd ≤ physToVirtBase + lowMapSize

/-- A physical address inside the direct map. -/
theorem physToVirt_of_lt {pa : ℕ} (h : pa < 2 ^ 47) : physToVirt pa = physToVirtBase + pa := by
  unfold physToVirt physToVirtBase
  exact u64_of_lt (by omega)

/-- Beyond the direct map the addresses start again at 0. -/
theorem physToVirt_lt {pa : ℕ} (h : 2 ^ 47 ≤ pa) (hlt : pa < 2 ^ 50) :
    physToVirt pa < physToVirtBase := by
  unfold physToVirt u64 physToVirtBase
  omega

section Fit

variable {endKrnl maxPfn zoneCount : ℕ} (hend : physToVirtBase ≤ endKrnl) (hlt : endKrnl < 2 ^ 64)
  (hmax : maxPfn < 2 ^ 43) (hzones : zoneCount < 2 ^ 32)

include hend hlt hmax hzones

/-- Tables in order below 10 MB have not wrapped around, so their end is the real one. -/
theorem tablesEnd_le_of_fit (h : TablesFit (placeTables endKrnl maxPfn zoneCount)) :
    tablesEnd endKrnl maxPfn zoneCount ≤ lowMapSize := by
  have hsmall := tablesEnd_lt hend hlt hmax hzones
  have hlow : lowMapSize < 2 ^ 47 := by decide
  rw [placeTables_eq hend hlt hmax hzones] at h
  by_contra hbig
  have horder : physToVirtBase ≤ physToVirt (tablesEnd endKrnl maxPfn zoneCount) :=
    calc physToVirtBase ≤ _ := h.start
      _ ≤ _ := le_trans (Nat.le_add_right _ _) h.bitmap_page
      _ ≤ _ := le_trans (Nat.le_add_right _ _) h.page_zone
      _ ≤ _ := le_trans (Nat.le_add_right _ _) h.zone_end
  have hmapped : physToVirt (tablesEnd endKrnl maxPfn zoneCount) ≤
      physToVirtBase + lowMapSize := h.mapped
  by_cases hwrap : tablesEnd endKrnl maxPfn zoneCount < 2 ^ 47
  · rw [physToVirt_of_lt hwrap] at hmapped
    omega
  · have := physToVirt_lt (Nat.not_lt.mp hwrap) hsmall
    omega

/-- Below 10 MB nothing wraps, and each table ends before the next one. -/
theorem tablesFit_of_le (h : tablesEnd endKrnl maxPfn zoneCount ≤ lowMapSize) :
    TablesFit (placeTables endKrnl maxPfn zoneCount) := by
  have hlow : lowMapSize < 2 ^ 47 := by decide
  have hbitmap : (maxPfn + 64) / 64 * 8 ≤ bitmapSpan maxPfn := by
    unfold bitmapSpan
    omega
  have hpage : roundUp 6 ((maxPfn + 1) * 32) ≤ pageSpan maxPfn := by
    unfold roundUp pageSpan
    omega
  have hsum : tablesStart endKrnl + bitmapSpan maxPfn + pageSpan maxPfn + zoneCount * 64 =
    tablesEnd endKrnl maxPfn zoneCount := rfl
  have h₁ := @physToVirt_of_lt (tablesStart endKrnl) (by omega)
  have h₂ := @physToVirt_of_lt (tablesStart endKrnl + bitmapSpan maxPfn) (by omega)
  have h₃ := @physToVirt_of_lt (tablesStart endKrnl + bitmapSpan maxPfn + pageSpan maxPfn)
    (by omega)
  have h₄ := @physToVirt_of_lt (tablesEnd endKrnl maxPfn zoneCount) (by omega)
  rw [placeTables_eq hend hlt hmax hzones, h₁, h₂, h₃, h₄]
  refine ⟨?_, ?_, ?_, ?_, ?_⟩
  · exact Nat.le_add_right _ _
  · show physToVirtBase + tablesStart endKrnl + (maxPfn + 64) / 64 * 8 ≤
      physToVirtBase + (tablesStart endKrnl + bitmapSpan maxPfn)
    omega
  · show physToVirtBase + (tablesStart endKrnl + bitmapSpan maxPfn) +
      roundUp 6 ((maxPfn + 1) * 32) ≤
        physToVirtBase + (tablesStart endKrnl + bitmapSpan maxPfn + pageSpan maxPfn)
    omega
  · show physToVirtBase + (tablesStart endKrnl + bitmapSpan maxPfn + pageSpan maxPfn) +
      zoneCount * 64 ≤ physToVirtBase + tablesEnd endKrnl maxPfn zoneCount
    omega
  · exact Nat.add_le_add_left h _

theorem tablesFit_iff : TablesFit (placeTables endKrnl maxPfn zoneCount) ↔
    tablesEnd endKrnl maxPfn zoneCount ≤ lowMapSize :=
  ⟨tablesEnd_le_of_fit hend hlt hmax hzones, tablesFit_of_le hend hlt hmax hzones⟩

end Fit

theorem length_zonesOf_le (buffer : E820Buffer) : (zonesOf buffer.table).length ≤ 128 := by
  have hone : ∀ n ∈ buffer.table.map (fun e => (entryZones e).length), n ≤ 2 := by
    intro n hn
    obtain ⟨e, -, rfl⟩ := List.mem_map.mp hn
    unfold entryZones
    split
    · exact Nat.zero_le _
    · split
      · exact Nat.le_refl _
      · exact Nat.le_succ _
  have hsum := List.sum_le_card_nsmul _ _ hone
  have hlen : buffer.table.length ≤ 64 := table_length_le buffer
  rw [List.length_map, Nat.nsmul_eq_mul] at hsum
  rw [zonesOf, List.length_flatMap]
  omega

/-- **The tables fit iff their closed form stays below 10 MB.** -/
theorem tables_fit (buffer : E820Buffer) (endKrnl : ℕ) (htext : textAddr ≤ endKrnl)
    (himage : endKrnl < physToVirtBase + page2mSize) :
    ∃ s, constructZones buffer = .ok s ∧ (TablesFit (s.place endKrnl).gmm.layout ↔
      tablesEnd endKrnl (maxPfnOf buffer.table) (zonesOf buffer.table).length ≤ lowMapSize) := by
  obtain ⟨s, hrun, hs⟩ := constructZones_returns buffer
  have hzones := length_zonesOf_le buffer
  have hlayout : (s.place endKrnl).gmm.layout =
      placeTables endKrnl (maxPfnOf buffer.table) (zonesOf buffer.table).length := by
    rw [Boot.place, hs.maxPfn, hs.zones]
  have hbase : physToVirtBase ≤ textAddr := Nat.le_add_right _ _
  have hsize : physToVirtBase + page2mSize < 2 ^ 64 := by decide
  refine ⟨s, hrun, ?_⟩
  rw [hlayout]
  exact tablesFit_iff (le_trans hbase htext) (Nat.lt_trans himage hsize) (maxPfnOf_lt _) (by omega)

theorem tables_fit_smallMachine : ∃ s, constructZones smallMachine = .ok s ∧
    (TablesFit (s.place (textAddr + 0x40000)).gmm.layout ↔
      tablesEnd (textAddr + 0x40000) (maxPfnOf smallMachine.table)
        (zonesOf smallMachine.table).length ≤ lowMapSize) :=
  tables_fit smallMachine (textAddr + 0x40000) (by decide) (by decide)

/-- 64 MB of RAM, and a reserved range just below 1 TB. -/
def farReserved : E820Buffer :=
  bufferOf [entryOf 0x100000 0x3F00000 1, entryOf 0xFD00000000 0x300000000 2]

/-- The page array alone takes 16 MB. -/
theorem tables_leave_low_map : ∃ s, constructZones farReserved = .ok s ∧
    ¬ TablesFit (s.place (textAddr + 0x40000)).gmm.layout := by
  obtain ⟨s, hrun, hs⟩ := constructZones_returns farReserved
  refine ⟨s, hrun, ?_⟩
  rw [Boot.place, hs.maxPfn, hs.zones, tablesFit_iff (by decide) (by decide) (maxPfnOf_lt _)
    (by decide +kernel)]
  decide +kernel

/-! ## §3  The pages reserved for the tables -/

/-- The pages that `init_memory` takes out of use for the tables. -/
def firstTablePage (endKrnl : ℕ) : ℕ := (tablesStart endKrnl + 2 ^ 21 - 1) / 2 ^ 21
def endTablePage (endKrnl maxPfn zoneCount : ℕ) : ℕ :=
  (tablesEnd endKrnl maxPfn zoneCount + 2 ^ 22 - 2) / 2 ^ 21

theorem shiftRight_page2mAlign {addr : ℕ} (h : addr < 2 ^ 63) :
    page2mAlign addr >>> page2mShift = (addr + 2 ^ 21 - 1) / 2 ^ 21 := by
  rw [page2mAlign_eq, shiftRight_page, page2mSize, u64_of_lt (by omega)]

theorem reserved_eq {endKrnl maxPfn zoneCount : ℕ} (hend : physToVirtBase ≤ endKrnl)
    (hlt : endKrnl < 2 ^ 64) (hmax : maxPfn < 2 ^ 43) (hzones : zoneCount < 2 ^ 32) :
    (placeTables endKrnl maxPfn zoneCount).firstReserved = firstTablePage endKrnl ∧
    (placeTables endKrnl maxPfn zoneCount).endReserved =
      endTablePage endKrnl maxPfn zoneCount := by
  have hstart := virtToPhys_lt hend hlt
  have hsmall := tablesEnd_lt hend hlt hmax hzones
  rw [placeTables_eq hend hlt hmax hzones, Layout.firstReserved, Layout.endReserved,
    virtToPhys_physToVirt (by omega), virtToPhys_physToVirt (by omega)]
  refine ⟨shiftRight_page2mAlign (by omega), ?_⟩
  have hround : u64 (tablesEnd endKrnl maxPfn zoneCount + page2mSize - 1) =
      tablesEnd endKrnl maxPfn zoneCount + 2 ^ 21 - 1 := by
    unfold page2mSize
    exact u64_of_lt (by omega)
  have hsum : tablesEnd endKrnl maxPfn zoneCount + 2 ^ 21 - 1 + 2 ^ 21 - 1 =
      tablesEnd endKrnl maxPfn zoneCount + 2 ^ 22 - 2 := by
    omega
  rw [hround, shiftRight_page2mAlign (by omega), hsum, endTablePage]

/-- Every page that a table reaches into is reserved, and one more. -/
theorem lt_endTablePage {endKrnl maxPfn zoneCount q : ℕ}
    (h : q * 2 ^ 21 < tablesEnd endKrnl maxPfn zoneCount) :
    q < endTablePage endKrnl maxPfn zoneCount := by
  unfold endTablePage
  omega

end Knos.Memory
