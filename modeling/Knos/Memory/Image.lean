import Knos.Memory.Runs

/-!
# The kernel image and its tables

The image starts at 1 MB and the tables follow it. `init_memory` reserves the pages
from the first page boundary after the start of the bitmap on. Page 0 is never handed
out, since the search takes frame 0 for a failure. That leaves the pages between page
0 and that boundary: an image of more than a megabyte reaches into page 1, and nothing
keeps page 1 out of a zone.
-/

namespace Knos.Memory

open Knos.Loop Knos.Words Knos.Grants

/-- Page `q` lies in the zone of some RAM entry. -/
def ZonePage (entries : List E820Entry) (q : ℕ) : Prop :=
  ∃ e ∈ entries, e.type = 1#32 ∧ e.startPfn ≤ q ∧ q < e.endPfn

/-- The pages before the tables, page 0 apart, are in no zone or marked as not usable
(and then not the page whose bit the bitmap test clears). -/
def ImageCovered (buffer : E820Buffer) (endKrnl : ℕ) : Prop :=
  ∀ q, 1 ≤ q → q < firstTablePage endKrnl → ZonePage buffer.table q →
    MarkedOut buffer.table q ∧ q ≠ firstPfnOf buffer.table + 10

/-- Page `q` has a byte of the image or of its tables. -/
def ImagePage (l : Layout) (q : ℕ) : Prop :=
  ∃ addr, addr / page2mSize = q ∧ virtToPhys textAddr ≤ addr ∧ addr < virtToPhys l.structEnd

/-- An image that ends with its first two pages is covered. -/
theorem imageCovered_of_le {buffer : E820Buffer} {endKrnl : ℕ}
    (h : firstTablePage endKrnl ≤ 1) : ImageCovered buffer endKrnl :=
  fun _ hq hlt _ => absurd (Nat.lt_of_lt_of_le hlt h) (Nat.not_lt.mpr hq)

/-- A frame that has a zone lies in one. -/
theorem Booted.zonePage {buffer : E820Buffer} {endKrnl : ℕ} {s : Boot}
    (h : Booted buffer endKrnl s) {q : ℕ} {f : PageFrame} (hq : q ≠ 0)
    (hf : s.gmm.page[q]? = some f) (hzone : f.zone ≠ none) : ZonePage buffer.table q := by
  obtain ⟨f₀, hframe, hhome, -⟩ := h.frame hq hf
  cases hi : f.zone with
  | none => exact absurd hi hzone
  | some i =>
      obtain ⟨z, hz, hinit⟩ := hframe.home i (hhome.symm.trans hi)
      have hmem := List.mem_of_getElem? hz
      exact (contains_zonesOf _ q).mp ⟨z, hmem, ((initialised_iff hmem q).mp hinit).1⟩

/-- No page of the image is ever in stock. -/
theorem not_imagePage_of_stock {buffer : E820Buffer} {endKrnl : ℕ} {s : Boot}
    (hend : physToVirtBase ≤ endKrnl) (hlt : endKrnl < 2 ^ 64) (h : Booted buffer endKrnl s)
    (hcovered : ImageCovered buffer endKrnl) {q : ℕ} (hq : Stock s.gmm q) :
    ¬ ImagePage s.gmm.layout q := by
  rintro ⟨addr, haddr, -, haddrEnd⟩
  obtain ⟨hne, hclear, f, hf, hzone⟩ := hq
  have hzones := length_zonesOf_le buffer
  have hsmall := @tablesEnd_lt endKrnl (maxPfnOf buffer.table) (zonesOf buffer.table).length
    hend hlt (maxPfnOf_lt _) (by omega)
  have hset : ¬ ((MarkedOut buffer.table q ∧ q ≠ 0 ∧ q ≠ firstPfnOf buffer.table + 10) ∨
      TablePage buffer endKrnl q) := by
    rw [← h.bits, hclear]
    exact fun heq => Bool.noConfusion (Option.some.inj heq)
  rw [not_or] at hset
  rw [h.layout, placeTables_eq hend hlt (maxPfnOf_lt _) (by omega),
    virtToPhys_physToVirt (by omega)] at haddrEnd
  by_cases hfirst : q < firstTablePage endKrnl
  · obtain ⟨hmarked, htest⟩ := hcovered q (by omega) hfirst (h.zonePage hne hf hzone)
    exact hset.1 ⟨hmarked, hne, htest⟩
  · refine hset.2 ⟨by omega, lt_endTablePage ?_⟩
    have hpage := Nat.div_mul_le_self addr page2mSize
    rw [haddr] at hpage
    exact Nat.lt_of_le_of_lt hpage haddrEnd

/-- **No page of the image or of the tables is handed out**, in any run. -/
theorem image_never_handed_out (buffer : E820Buffer) (endKrnl : ℕ) (s : Boot)
    (htext : textAddr ≤ endKrnl) (hlt : endKrnl < 2 ^ 64)
    (hrun : initMemory buffer endKrnl = .ok s) (hcovered : ImageCovered buffer endKrnl)
    (g : GlobalMemoryManager) (out : List Run) (h : Reach ExactRequest s.gmm g out) :
    ∀ r ∈ out, ∀ q, r.Has q → ¬ ImagePage s.gmm.layout q := by
  have hend : physToVirtBase ≤ endKrnl := le_trans (Nat.le_add_right _ _) htext
  have hbooted := initMemory_booted hend hlt hrun
  obtain ⟨L, rfl, -, -⟩ := reach_tracks hbooted.ready h
  intro r hr q hq
  exact not_imagePage_of_stock hend hlt hbooted hcovered (L.inStock q ⟨r, hr, hq⟩)

theorem image_never_handed_out_smallMachine :
    ∃ g, Reach ExactRequest (bootOf smallMachine smallImage).gmm g [⟨8, 3⟩] ∧
      ∀ r ∈ ([⟨8, 3⟩] : List Run), ∀ q, r.Has q →
        ¬ ImagePage (bootOf smallMachine smallImage).gmm.layout q := by
  obtain ⟨g, hcall⟩ := smallMachine_allocates
  have hreach : Reach ExactRequest (bootOf smallMachine smallImage).gmm g [⟨8, 3⟩] :=
    .alloc .start (Or.inl (by decide)) hcall
  exact ⟨g, hreach, image_never_handed_out smallMachine smallImage _ (by decide) (by decide)
    smallMachine_boots (imageCovered_of_le (by decide +kernel)) g _ hreach⟩

/-- The end of an image of 2 MB. -/
def bigImage : ℕ := textAddr + 0x200000

/-- The image ends at 3 MB, and page 1, from 2 MB on, is handed out. -/
theorem image_page_handed_out :
    initMemory smallMachine bigImage = .ok (bootOf smallMachine bigImage) ∧
    ∃ g, Reach ExactRequest (bootOf smallMachine bigImage).gmm g [⟨1, 1⟩] ∧
      (Run.mk 1 1).Has 1 ∧ ImagePage (bootOf smallMachine bigImage).gmm.layout 1 := by
  have hfst : (allocPages (bootOf smallMachine bigImage).gmm .zoneDma 1 pageKernel).map
      Prod.fst = .ok (some 1) := by
    decide +kernel
  obtain ⟨g, hcall⟩ := exists_of_map_fst hfst
  refine ⟨bootOf_eq (by decide +kernel), g, .alloc .start (Or.inl (by decide)) hcall,
    by decide, 0x200000, by decide, by decide, by decide +kernel⟩

end Knos.Memory
