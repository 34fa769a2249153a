import Knos.Lib.PageTables
import Knos.Memory.Types

/-!
# The page tables in `kernel/head.S`

`_start` loads CR3 with the address of three tables that are part of the image. They map one
range of 42 MB twice, at 0 and at the base of the kernel: the first 10 MB of physical memory,
then two windows of 16 MB on the frame buffers of two virtual machines. Everything else is a
page fault, and nothing is open to user mode (`kernel_map`).
-/

namespace Knos.Paging

open Knos.Bytes Knos.PageTables
open Knos.Memory (physToVirtBase)

/-! ## §1  The tables -/

/-- `__PML4E` -/
def pml4e : List ℕ :=
  (0x102007 :: List.replicate 255 0) ++ (0x102007 :: List.replicate 255 0)

/-- `__PDPTE` -/
def pdpte : List ℕ := 0x103003 :: List.replicate 511 0

/-- `__PDE` -/
def pde : List ℕ :=
  [0x000083, 0x200083, 0x400083, 0x600083, 0x800083,
    0xe0000083, 0xe0200083, 0xe0400083, 0xe0600083,
    0xe0800083, 0xe0a00083, 0xe0c00083, 0xe0e00083,
    0xe8000083, 0xe8200083, 0xe8400083, 0xe8600083,
    0xe8800083, 0xe8a00083, 0xe8c00083, 0xe8e00083] ++ List.replicate 491 0

/-- The value of CR3, which is also where `.org 0x1000` puts `__PML4E` in the image. -/
def headCr3 : ℕ := 0x101000

/-- The three tables lie where the entries expect them. -/
structure KernelTables (ram : Store Byte) : Prop where
  pml4e : HoldsTable ram 0x101000 pml4e
  pdpte : HoldsTable ram 0x102000 pdpte
  pde : HoldsTable ram 0x103000 pde

/-! ## §2  What they are for -/

/-- Where an offset into the mapped range leads. -/
def physicalOf (offset : ℕ) : Option ℕ :=
  if offset < 0xa00000 then some offset
  else if offset < 0x1a00000 then some (0xe0000000 + (offset - 0xa00000))
  else if offset < 0x2a00000 then some (0xe8000000 + (offset - 0x1a00000))
  else none

/-- The physical address behind an address. -/
def kernelMap (va : ℕ) : Option ℕ :=
  if va < 2 ^ 47 then physicalOf va
  else if physToVirtBase ≤ va then physicalOf (va - physToVirtBase)
  else none

/-- Writable, and not for user mode. -/
def kernelPage (address : ℕ) : Mapping := ⟨address, true, false⟩

/-! ## §3  The entries -/

/-- The number of the page behind an entry of `__PDE`. -/
def pageNumber (i : ℕ) : ℕ :=
  if i < 5 then i else if i < 13 then 0x700 + (i - 5) else 0x740 + (i - 13)

/-- Present, writable, 2 MB. -/
def largeEntry (page : ℕ) : ℕ := 2 ^ 21 * page + 0x83

/-- What is behind the entries of a table that is filled up with zeros. -/
theorem getElem?_filled {entries : List ℕ} {n i : ℕ} (h : i < entries.length + n) :
    (entries ++ List.replicate n 0)[i]? = some (entries.getD i 0) := by
  rw [List.getD_eq_getElem?_getD]
  rcases Nat.lt_or_ge i entries.length with hi | hi
  · rw [List.getElem?_append_left hi, List.getElem?_eq_getElem hi]
    rfl
  · rw [List.getElem?_append_right hi, List.getElem?_replicate, if_pos (by omega),
      List.getElem?_eq_none hi]
    rfl

theorem lt_of_mem_filled {entries : List ℕ} {n entry : ℕ} (h : ∀ entry ∈ entries, entry < 2 ^ 64)
    (hmem : entry ∈ entries ++ List.replicate n 0) : entry < 2 ^ 64 := by
  rcases List.mem_append.mp hmem with hmem | hmem
  · exact h entry hmem
  · rw [List.eq_of_mem_replicate hmem]
    decide

theorem getD_singleton (entry i : ℕ) : [entry].getD i 0 = if i = 0 then entry else 0 := by
  cases i with
  | zero => rfl
  | succ i => rfl

theorem pml4e_get {i : ℕ} (h : i < 512) :
    pml4e[i]? = some (if i = 0 ∨ i = 256 then 0x102007 else 0) := by
  have hhalf (i : ℕ) (hi : i < 256) :
      ([0x102007] ++ List.replicate 255 0)[i]? = some (if i = 0 then 0x102007 else 0) := by
    rw [getElem?_filled hi, getD_singleton]
  have hlen : ([0x102007] ++ List.replicate 255 0).length = 256 := by
    rw [List.length_append, List.length_replicate]
    rfl
  show (([0x102007] ++ List.replicate 255 0) ++ ([0x102007] ++ List.replicate 255 0))[i]? = _
  rcases Nat.lt_or_ge i 256 with hi | hi
  · rw [List.getElem?_append_left (by rwa [hlen]), hhalf i hi]
    simp [Nat.ne_of_lt hi]
  · rw [List.getElem?_append_right (by rwa [hlen]), hlen, hhalf (i - 256) (by omega)]
    simp only [show i - 256 = 0 ↔ i = 0 ∨ i = 256 by omega]

theorem pdpte_get {i : ℕ} (h : i < 512) :
    pdpte[i]? = some (if i = 0 then 0x103003 else 0) := by
  show ([0x103003] ++ List.replicate 511 0)[i]? = _
  rw [getElem?_filled h, getD_singleton]

theorem length_pdpte : pdpte.length = 512 := by
  rw [pdpte, List.length_cons, List.length_replicate]

theorem length_pde : pde.length = 512 := by
  rw [pde, List.length_append, List.length_replicate]
  rfl

/-- The entries of `__PDE` in front of `.fill`. -/
def windows : List ℕ := pde.take 21

theorem windows_get : ∀ i < 21, windows.getD i 0 = largeEntry (pageNumber i) := by decide

theorem pde_get {i : ℕ} (h : i < 512) :
    pde[i]? = some (if i < 21 then largeEntry (pageNumber i) else 0) := by
  show (windows ++ List.replicate 491 0)[i]? = _
  rw [getElem?_filled h]
  by_cases hi : i < 21
  · rw [if_pos hi, windows_get i hi]
  · have hlen : windows.length ≤ i := Nat.le_of_not_lt hi
    rw [if_neg hi, List.getD_eq_getElem?_getD, List.getElem?_eq_none hlen]
    rfl

theorem pml4e_lt : ∀ entry ∈ pml4e, entry < 2 ^ 64 := by
  intro entry hmem
  rcases List.mem_append.mp hmem with hmem | hmem
  · exact @lt_of_mem_filled [0x102007] 255 entry (by decide) hmem
  · exact @lt_of_mem_filled [0x102007] 255 entry (by decide) hmem

theorem pdpte_lt : ∀ entry ∈ pdpte, entry < 2 ^ 64 :=
  fun entry hmem => @lt_of_mem_filled [0x103003] 511 entry (by decide) hmem

theorem pde_lt : ∀ entry ∈ pde, entry < 2 ^ 64 :=
  fun entry hmem => @lt_of_mem_filled windows 491 entry (by decide) hmem

theorem testBit_largeEntry {page i : ℕ} (hi : i < 21) :
    (largeEntry page).testBit i = (0x83).testBit i := by
  unfold largeEntry
  rw [Nat.testBit_two_pow_mul_add page (by decide), if_pos hi]

/-- The page of an entry of `__PDE`. -/
theorem leaf_largeEntry {page va : ℕ} (hpage : page < 2 ^ 31) :
    leaf 1 (largeEntry page) va = kernelPage (2 ^ 21 * page + va % 2 ^ 21) := by
  have hframe : frame 1 (largeEntry page) = 2 ^ 21 * page := by
    unfold frame largeEntry pageBits
    omega
  unfold leaf kernelPage
  rw [hframe, testBit_largeEntry (by decide), testBit_largeEntry (by decide)]
  rfl

theorem largeFits_largeEntry (page : ℕ) : LargeFits 1 (largeEntry page) := by
  refine ⟨by decide, ?_⟩
  unfold largeEntry
  omega

/-! ## §4  The map -/

section Map

variable {ram : Store Byte} {va : ℕ}

/-- The windows as pages. -/
theorem physicalOf_eq {o : ℕ} (h : o < 2 ^ 30) : physicalOf o =
    if o / 2 ^ 21 < 21 then some (2 ^ 21 * pageNumber (o / 2 ^ 21) + o % 2 ^ 21) else none := by
  unfold physicalOf pageNumber
  split
  · rw [if_pos (by omega), if_pos (by omega)]
    exact congrArg some (by omega)
  · split
    · rw [if_pos (by omega), if_neg (by omega), if_pos (by omega)]
      exact congrArg some (by omega)
    · split
      · rw [if_pos (by omega), if_neg (by omega), if_neg (by omega)]
        exact congrArg some (by omega)
      · rw [if_neg (by omega)]

theorem physicalOf_of_le {o : ℕ} (h : 0x2a00000 ≤ o) : physicalOf o = none := by
  unfold physicalOf
  rw [if_neg (by omega), if_neg (by omega), if_neg (by omega)]

theorem pageNumber_lt {i : ℕ} (h : i < 21) : pageNumber i < 2 ^ 31 := by
  unfold pageNumber
  split
  · omega
  · split <;> omega

/-- What the translation of addresses from the base of the kernel on depends on. -/
structure HigherHalf (ram : Store Byte) : Prop where
  pml4e : ∀ i, 256 ≤ i → i < 512 →
    entryAt ram (0x101000 + 8 * i) = if i = 256 then 0x102007 else 0
  pdpte : HoldsTable ram 0x102000 pdpte
  pde : HoldsTable ram 0x103000 pde

/-- The entries of `__PML4E`, read back. -/
theorem KernelTables.entryAt_pml4e (h : KernelTables ram) {i : ℕ} (hi : i < 512) :
    entryAt ram (0x101000 + 8 * i) = if i = 0 ∨ i = 256 then 0x102007 else 0 :=
  h.pml4e.entryAt_eq pml4e_lt (pml4e_get hi)

theorem KernelTables.higherHalf (h : KernelTables ram) : HigherHalf ram where
  pml4e i hi hlt := by
    rw [h.entryAt_pml4e hlt]
    simp only [show i = 0 ∨ i = 256 ↔ i = 256 by omega]
  pdpte := h.pdpte
  pde := h.pde

/-- From the page directory down. -/
theorem walk_pde (h : HigherHalf ram) (hva : va % 2 ^ 39 < 2 ^ 30) :
    walk ram 1 0x103000 va = (physicalOf (va % 2 ^ 39)).map kernelPage := by
  have hindex : index 1 va = va % 2 ^ 39 / 2 ^ 21 := by
    unfold index pageBits
    omega
  have hentry := h.pde.entryAt_eq pde_lt (pde_get (index_lt 1 va))
  rw [physicalOf_eq hva, ← hindex]
  by_cases hin : index 1 va < 21
  · rw [if_pos hin] at hentry ⊢
    rw [walk_large hentry (testBit_largeEntry (by decide)) (testBit_largeEntry (by decide))
      (largeFits_largeEntry _), leaf_largeEntry (pageNumber_lt hin),
      show va % 2 ^ 39 % 2 ^ 21 = va % 2 ^ 21 by omega]
    rfl
  · rw [if_neg hin] at hentry ⊢
    rw [walk_absent hentry (by decide)]
    rfl

/-- From the table of directory pointers down. -/
theorem walk_pdpte (h : HigherHalf ram) :
    walk ram 2 0x102000 va = (physicalOf (va % 2 ^ 39)).map kernelPage := by
  have hentry := h.pdpte.entryAt_eq pdpte_lt (pdpte_get (index_lt 2 va))
  have hindex : index 2 va = va % 2 ^ 39 / 2 ^ 30 := by
    unfold index pageBits
    omega
  by_cases hzero : index 2 va = 0
  · rw [if_pos hzero] at hentry
    rw [walk_next hentry (by decide) (by decide)]
    show (walk ram 1 0x103000 va).map _ = _
    rw [walk_pde h (by omega)]
    cases physicalOf (va % 2 ^ 39) with
    | none => rfl
    | some pa => rfl
  · rw [if_neg hzero] at hentry
    rw [walk_absent hentry (by decide), physicalOf_of_le (by omega)]
    rfl

/-- Behind an entry of `__PML4E` that is not empty. -/
theorem walk_entry (h : HigherHalf ram)
    (hentry : entryAt ram (0x101000 + 8 * index 3 va) = 0x102007) :
    walk ram 3 0x101000 va = (physicalOf (va % 2 ^ 39)).map kernelPage := by
  rw [walk_next hentry (by decide) (by decide)]
  show (walk ram 2 0x102000 va).map _ = _
  rw [walk_pdpte h]
  cases physicalOf (va % 2 ^ 39) with
  | none => rfl
  | some pa => rfl

theorem index_three (va : ℕ) : index 3 va = va / 549755813888 % 512 := rfl

theorem frame_headCr3 : frame 0 headCr3 = 0x101000 := by decide

/-- The higher half of the map. -/
theorem higher_map (h : HigherHalf ram) (hhigh : physToVirtBase ≤ va) (hva : va < 2 ^ 64) :
    translate ram headCr3 va = (physicalOf (va - physToVirtBase)).map kernelPage := by
  have hcanon : Canonical va := Or.inr ⟨hhigh, hva⟩
  have hentry := h.pml4e (index 3 va)
  rw [index_three] at hentry
  unfold physToVirtBase at hhigh ⊢
  unfold PageTables.translate
  rw [if_pos hcanon, frame_headCr3]
  by_cases hfirst : va / 549755813888 % 512 = 256
  · rw [if_pos hfirst] at hentry
    rw [walk_entry h (hentry (by omega) (by omega)),
      show va % 2 ^ 39 = va - 0xFFFF800000000000 by omega]
  · rw [if_neg hfirst] at hentry
    have habsent : walk ram 3 0x101000 va = none :=
      walk_absent (hentry (by omega) (by omega)) (by decide)
    rw [habsent, physicalOf_of_le (by omega)]
    rfl

/-- The lower half, when the entry behind 0 is the only one that is not empty. -/
theorem lower_map (h : HigherHalf ram)
    (hentry : ∀ i < 256, entryAt ram (0x101000 + 8 * i) = if i = 0 then 0x102007 else 0)
    (hlow : va < 2 ^ 47) : translate ram headCr3 va = (physicalOf va).map kernelPage := by
  have hcanon : Canonical va := Or.inl hlow
  have hentry := hentry (index 3 va)
  rw [index_three] at hentry
  unfold PageTables.translate
  rw [if_pos hcanon, frame_headCr3]
  by_cases hzero : va / 549755813888 % 512 = 0
  · rw [if_pos hzero] at hentry
    rw [walk_entry h (hentry (by omega)), show va % 2 ^ 39 = va by omega]
  · rw [if_neg hzero] at hentry
    have habsent : walk ram 3 0x101000 va = none := walk_absent (hentry (by omega)) (by decide)
    rw [habsent, physicalOf_of_le (by omega)]
    rfl

theorem translate_of_not_canonical {cr3 : ℕ} (h : ¬ Canonical va) : translate ram cr3 va = none :=
  if_neg h

theorem KernelTables.lower_map (h : KernelTables ram) (hlow : va < 2 ^ 47) :
    translate ram headCr3 va = (physicalOf va).map kernelPage := by
  refine Paging.lower_map h.higherHalf (fun i hi => ?_) hlow
  rw [h.entryAt_pml4e (Nat.lt_trans hi (by decide))]
  simp only [show i = 0 ∨ i = 256 ↔ i = 0 by omega]

/-- **The map of the kernel**, for every address. -/
theorem kernel_map (h : KernelTables ram) (hva : va < 2 ^ 64) :
    translate ram headCr3 va = (kernelMap va).map kernelPage := by
  unfold kernelMap
  by_cases hlow : va < 2 ^ 47
  · rw [if_pos hlow]
    exact h.lower_map hlow
  · rw [if_neg hlow]
    by_cases hhigh : physToVirtBase ≤ va
    · rw [if_pos hhigh]
      exact higher_map h.higherHalf hhigh hva
    · rw [if_neg hhigh]
      refine translate_of_not_canonical ?_
      rintro (hcanon | ⟨hcanon, -⟩)
      · exact hlow hcanon
      · exact hhigh hcanon

end Map

/-! ## §5  Stores through the map -/

section Windows

variable {ram : Store Byte}

/-- The higher half does not change with what is written elsewhere. -/
theorem HigherHalf.poke_of_apart (h : HigherHalf ram) {base : ℕ} {data : List Byte}
    (hapart : 0x104000 ≤ base ∨ base + data.length ≤ 0x101800) :
    HigherHalf (poke ram base data) where
  pml4e i hi hlt := by
    rw [entryAt_poke_of_disjoint (by omega)]
    exact h.pml4e i hi hlt
  pdpte := by
    refine h.pdpte.poke_of_apart ?_
    rw [length_pdpte]
    omega
  pde := by
    refine h.pde.poke_of_apart ?_
    rw [length_pde]
    omega

/-- A range of the kernel's addresses that leads to a range of memory apart from the tables. -/
theorem higherHalf_window {offset pa n : ℕ} (hlt : offset + n ≤ 0x2a00000)
    (hleads : ∀ i < n, physicalOf (offset + i) = some (pa + i))
    (hapart : 0x104000 ≤ pa ∨ pa + n ≤ 0x101800) :
    Window HigherHalf headCr3 (physToVirtBase + offset) pa n where
  leads ram htables i hi := by
    refine ⟨kernelPage (pa + i), ?_, rfl, rfl⟩
    have hva : physToVirtBase + offset + i < 2 ^ 64 := by
      unfold physToVirtBase
      omega
    rw [higher_map htables (Nat.le_add_right_of_le (Nat.le_add_right _ _)) hva, Nat.add_assoc,
      Nat.add_sub_cancel_left, hleads i hi]
    rfl
  keeps ram htables i hi b := by
    refine htables.poke_of_apart ?_
    show 0x104000 ≤ pa + i ∨ pa + i + 1 ≤ 0x101800
    omega

end Windows

/-! ## §6  The image in memory -/

/-- The part of the image from `__PML4E` on. -/
def headTables : List Byte := tableBytes pml4e ++ tableBytes pdpte ++ tableBytes pde

section Image

variable {ram ram' : Store Byte}

theorem length_pml4e : pml4e.length = 512 := by
  rw [pml4e, List.length_append, List.length_cons, List.length_replicate]

theorem length_headTables : headTables.length = 0x3000 := by
  unfold headTables
  rw [List.length_append, List.length_append, length_tableBytes, length_tableBytes, length_tableBytes,
    length_pml4e, length_pdpte, length_pde]

theorem kernelTables_of_peek (h : peek ram 0x101000 0x3000 = headTables) : KernelTables ram := by
  have hsplit : peek ram 0x101000 0x3000 =
      peek ram 0x101000 0x1000 ++ peek ram 0x102000 0x1000 ++ peek ram 0x103000 0x1000 := by
    rw [← peek_add, ← peek_add]
  have hlen {table : List ℕ} (hlen : table.length = 512) : (tableBytes table).length = 0x1000 := by
    rw [length_tableBytes, hlen]
  unfold headTables at h
  rw [hsplit] at h
  obtain ⟨hfirst, hpde⟩ := List.append_inj' h (by rw [length_peek, hlen length_pde])
  obtain ⟨hpml4e, hpdpte⟩ := List.append_inj' hfirst (by rw [length_peek, hlen length_pdpte])
  constructor
  · unfold HoldsTable
    rw [length_pml4e]
    exact hpml4e
  · unfold HoldsTable
    rw [length_pdpte]
    exact hpdpte
  · unfold HoldsTable
    rw [length_pde]
    exact hpde

/-- The tables depend on their own bytes only. -/
theorem KernelTables.congr (h : KernelTables ram)
    (hsame : ∀ a, 0x101000 ≤ a → a < 0x104000 → ram' a = ram a) : KernelTables ram' where
  pml4e := by
    refine h.pml4e.congr fun a ha hlt => hsame a ha ?_
    rw [length_pml4e] at hlt
    omega
  pdpte := by
    refine h.pdpte.congr fun a ha hlt => hsame a (by omega) ?_
    rw [length_pdpte] at hlt
    omega
  pde := by
    refine h.pde.congr fun a ha hlt => hsame a (by omega) ?_
    rw [length_pde] at hlt
    omega

/-- Memory with the tables in it, and zeros elsewhere. -/
def tablesOnly : Store Byte := poke (fun _ => 0) 0x101000 headTables

theorem kernelTables_tablesOnly : KernelTables tablesOnly := by
  apply kernelTables_of_peek
  rw [← length_headTables]
  exact peek_poke_self _ headTables

theorem kernel_map_frameBuffer : translate tablesOnly headCr3 0xffff800001a00000 =
    (kernelMap 0xffff800001a00000).map kernelPage :=
  kernel_map kernelTables_tablesOnly (by decide)

end Image

end Knos.Paging
