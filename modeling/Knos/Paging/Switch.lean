import Knos.Bootloader.MemoryMap
import Knos.Paging.KernelMap

/-!
# From the loader's page tables to the kernel's

The loader builds its tables at 0x90000, in memory that it does not clear, and enters the
kernel at 1 MB with them. `_start` loads CR3 while it runs at that address, and the tables of
the image translate it as before: the two maps agree on the first 10 MB, at 0 and at the base
of the kernel. Behind that the loader maps 2 MB more of memory, where the kernel has the
frame buffer (`cr3_switch`).
-/

namespace Knos.Paging

open Knos.Bytes Knos.Loop Knos.PageTables
open Knos.Bootloader.HandOver hiding entryAt
open Knos.Memory (physToVirtBase E820Entry)

/-! ## §1  The loader's tables -/

/-- What the loader moves to CR3. -/
def loaderCr3 : ℕ := 0x90000

/-- The entries, each as one number. -/
def loaderEntries : List (ℕ × ℕ) :=
  [(0x90000, 0x91007), (0x90800, 0x91007), (0x91000, 0x92007),
    (0x92000, largeEntry 0), (0x92008, largeEntry 1), (0x92010, largeEntry 2),
    (0x92018, largeEntry 3), (0x92020, largeEntry 4), (0x92028, largeEntry 5)]

theorem pageTables_eq : pageTables = halves loaderEntries := by decide

theorem loaderEntries_apart : ∀ p ∈ loaderEntries, ∀ q ∈ loaderEntries,
    q = p ∨ p.1 + 8 ≤ q.1 ∨ q.1 + 8 ≤ p.1 := by decide

theorem loaderEntries_lt : ∀ p ∈ loaderEntries, p.2 < 2 ^ 32 := by decide

section LoaderMap

variable {firmware : Firmware} {entries : List E820Entry} {ram ram' : Store Byte} {a entry : ℕ}

theorem goToTmpProtect_eq_ok (h : goToTmpProtect firmware ram = .ok ram') :
    ram' = setEntries ram loaderEntries := by
  unfold goToTmpProtect at h
  split at h
  · rw [pageTables_eq, foldl_halves loaderEntries_lt] at h
    exact (Except.ok.inj h).symm
  · cases h

theorem entryAt_loader (hmem : (a, entry) ∈ loaderEntries) :
    entryAt (setEntries ram loaderEntries) a = entry :=
  have hlt : entry < 2 ^ 32 := loaderEntries_lt _ hmem
  entryAt_setEntries hmem (Nat.lt_trans hlt (by decide)) (loaderEntries_apart _ hmem)

/-- An address at 0 or at the base of the kernel. -/
def AtBase (base : ℕ) : Prop := base = 0 ∨ base = physToVirtBase

theorem frame_loaderCr3 : frame 0 loaderCr3 = 0x90000 := by decide

theorem frame_top : frame 0 0x91007 = 0x91000 := by decide

theorem frame_middle : frame 0 0x92007 = 0x92000 := by decide

theorem loaderEntries_large : ∀ i < 6, (0x92000 + 8 * i, largeEntry i) ∈ loaderEntries := by decide

theorem canonical_of_atBase {base offset : ℕ} (hbase : AtBase base) (ho : offset < 2 ^ 30) :
    Canonical (base + offset) := by
  rcases hbase with rfl | rfl
  · exact Or.inl (by omega)
  · refine Or.inr ⟨Nat.le_add_right _ _, ?_⟩
    unfold physToVirtBase
    omega

/-- The loader maps 12 MB twice, whatever lies between its entries. -/
theorem loader_map {base offset : ℕ} (hbase : AtBase base) (ho : offset < 0xc00000) :
    translate (setEntries ram loaderEntries) loaderCr3 (base + offset) =
      some (kernelPage offset) := by
  have hcanon : Canonical (base + offset) := canonical_of_atBase hbase (by omega)
  have htop : (0x90000 + 8 * index 3 (base + offset), 0x91007) ∈ loaderEntries := by
    have hindex : index 3 (base + offset) = 0 ∨ index 3 (base + offset) = 256 := by
      unfold AtBase physToVirtBase at hbase
      rw [index_three]
      omega
    rcases hindex with hindex | hindex
    · rw [hindex]
      decide
    · rw [hindex]
      decide
  have hindex₂ : index 2 (base + offset) = 0 := by
    unfold AtBase physToVirtBase at hbase
    unfold index pageBits
    omega
  have hindex₁ : index 1 (base + offset) = offset / 2 ^ 21 := by
    unfold AtBase physToVirtBase at hbase
    unfold index pageBits
    omega
  have hlarge : (0x92000 + 8 * index 1 (base + offset), largeEntry (offset / 2 ^ 21)) ∈
      loaderEntries := by
    rw [hindex₁]
    exact loaderEntries_large _ (by omega)
  have hmiddle : (0x91000 + 8 * index 2 (base + offset), 0x92007) ∈ loaderEntries := by
    rw [hindex₂]
    decide
  have hoffset : 2 ^ 21 * (offset / 2 ^ 21) + (base + offset) % 2 ^ 21 = offset := by
    unfold AtBase physToVirtBase at hbase
    omega
  have hdirectory : walk (setEntries ram loaderEntries) 1 0x92000 (base + offset) =
      some (kernelPage offset) := by
    rw [walk_large (entryAt_loader hlarge) (testBit_largeEntry (by decide))
      (testBit_largeEntry (by decide)) (largeFits_largeEntry _), leaf_largeEntry (by omega), hoffset]
  have hpointers : walk (setEntries ram loaderEntries) 2 0x91000 (base + offset) =
      some (kernelPage offset) := by
    rw [walk_next (entryAt_loader hmiddle) (by decide) (by decide), frame_middle, hdirectory]
    rfl
  unfold PageTables.translate
  rw [if_pos hcanon, frame_loaderCr3, walk_next (entryAt_loader htop) (by decide) (by decide),
    frame_top, hpointers]
  rfl

end LoaderMap

/-! ## §2  The image -/

section HandedOver

variable {firmware : Firmware} {entries : List E820Entry} {ram ram' : Store Byte} {fuel a : ℕ}

theorem getMemStruct_frame {di esi count : ℕ} (hdi : di < 65536) (ha : 0x100000 ≤ a)
    (h : getMemStruct entries di esi ram = .ok (count, ram')) : ram' a = ram a := by
  induction entries generalizing di esi ram with
  | nil => cases h
  | cons entry entries ih =>
      have houtside : a < di ∨ di + (entryBytes entry).length ≤ a := by
        rw [length_entryBytes]
        omega
      rw [getMemStruct] at h
      split at h
      · cases h
        exact poke_outside ram houtside
      · rw [ih (Nat.mod_lt _ (by decide)) h]
        exact poke_outside ram houtside

/-- From the memory map on the loader writes below 1 MB only. -/
theorem handOver_frame (h : handOver entries firmware fuel ram = .ok ram') (ha : 0x100000 ≤ a) :
    ram' a = ram a := by
  unfold handOver at h
  rw [bind_eq_ok] at h
  obtain ⟨ram₁, hmap, h⟩ := h
  rw [bind_eq_ok] at h
  obtain ⟨ram₂, hvbe, h⟩ := h
  rw [bind_eq_ok] at h
  obtain ⟨⟨candidateMode, ram₃⟩, hloop, h⟩ := h
  rw [bind_eq_ok] at h
  obtain ⟨-, -, htables⟩ := h
  have hmap' : ram₁ a = ram a := by
    unfold collectMemStruct at hmap
    rw [bind_eq_ok] at hmap
    obtain ⟨⟨count, ram₀⟩, hget, heq⟩ := hmap
    cases heq
    have hcount : memoryStructBufferAddr + (leBytes 4 count).length ≤ a := by
      rw [length_leBytes]
      exact Nat.le_trans (by decide) ha
    rw [poke_outside _ (Or.inr hcount)]
    exact getMemStruct_frame (by decide) ha hget
  have hvbe' : ram₂ a = ram₁ a := by
    obtain ⟨block, -, rfl⟩ := getVbeInfo_eq_ok hvbe
    refine poke_outside _ (Or.inr ?_)
    rw [block.property]
    exact Nat.le_trans (by decide) ha
  have hloop' : ram₃ a = ram₂ a :=
    getModeListLoop_frame fuel hloop (Or.inr (Nat.le_trans (by decide) ha))
  have htables' : ram' a = ram₃ a := by
    rw [goToTmpProtect_eq_ok htables]
    refine setEntries_outside fun p hp => Or.inr ?_
    exact Nat.le_trans ((by decide : ∀ p ∈ loaderEntries, p.1 + 8 ≤ 0x100000) p hp) ha
  rw [htables', hloop', hvbe', hmap']

theorem KernelTables.handOver (h : KernelTables ram)
    (hover : Knos.Bootloader.HandOver.handOver entries firmware fuel ram = .ok ram') :
    KernelTables ram' :=
  h.congr fun _ ha _ => handOver_frame hover (Nat.le_trans (by decide) ha)

theorem handOver_loaderEntries (h : handOver entries firmware fuel ram = .ok ram') :
    ∃ ram₀, ram' = setEntries ram₀ loaderEntries := by
  unfold handOver at h
  rw [bind_eq_ok] at h
  obtain ⟨ram₁, -, h⟩ := h
  rw [bind_eq_ok] at h
  obtain ⟨ram₂, -, h⟩ := h
  rw [bind_eq_ok] at h
  obtain ⟨⟨candidateMode, ram₃⟩, -, h⟩ := h
  rw [bind_eq_ok] at h
  obtain ⟨-, -, htables⟩ := h
  exact ⟨ram₃, goToTmpProtect_eq_ok htables⟩

/-- The kernel's tables do the same at both bases. -/
theorem KernelTables.map_base (h : KernelTables ram) {base offset : ℕ} (hbase : AtBase base)
    (ho : offset < 2 ^ 30) :
    translate ram headCr3 (base + offset) = (physicalOf offset).map kernelPage := by
  rcases hbase with rfl | rfl
  · rw [Nat.zero_add]
    exact h.lower_map (by omega)
  · rw [higher_map h.higherHalf (Nat.le_add_right _ _) (by unfold physToVirtBase; omega),
      Nat.add_sub_cancel_left]

/-- **The switch.** With an image in memory that holds the tables, and whatever the firmware
has answered and memory has held before, the loader's tables lead to the first 12 MB of
memory at both bases, and the kernel's lead there up to 10 MB and not behind. -/
theorem cr3_switch (htables : KernelTables ram) (h : handOver entries firmware fuel ram = .ok ram')
    {base offset : ℕ} (hbase : AtBase base) (ho : offset < 0xc00000) :
    translate ram' loaderCr3 (base + offset) = some (kernelPage offset) ∧
      (translate ram' headCr3 (base + offset) = some (kernelPage offset) ↔ offset < 0xa00000) := by
  have hkernel := (htables.handOver h).map_base hbase (show offset < 2 ^ 30 by omega)
  constructor
  · obtain ⟨ram₀, rfl⟩ := handOver_loaderEntries h
    exact loader_map hbase ho
  · rw [hkernel]
    unfold physicalOf
    constructor
    · intro hsame
      by_contra hge
      rw [if_neg hge, if_pos (by omega)] at hsame
      have haddress := congrArg Mapping.address (Option.some.inj hsame)
      simp only [kernelPage] at haddress
      omega
    · intro hlt
      rw [if_pos hlt]
      rfl

theorem cr3_switch_answering : ∃ ram',
    handOver [Knos.Memory.entryOf 0x100000 0x3F00000 1] (answering 0) 1 tablesOnly = .ok ram' ∧
      translate ram' loaderCr3 (0 + 0x100000) = some (kernelPage 0x100000) ∧
      (translate ram' headCr3 (0 + 0x100000) = some (kernelPage 0x100000) ↔ 0x100000 < 0xa00000) := by
  obtain ⟨ram', h⟩ := @handOver_answering [Knos.Memory.entryOf 0x100000 0x3F00000 1]
    (List.cons_ne_nil _ _) (by decide) 0 tablesOnly
  exact ⟨ram', h, cr3_switch kernelTables_tablesOnly h (Or.inl rfl) (by decide)⟩

end HandedOver

end Knos.Paging
