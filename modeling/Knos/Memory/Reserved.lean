import Knos.Memory.Boot

/-!
# Pages that are not RAM

After `init_memory` a page can be handed out when it lies in a zone and its bit is
clear. The pass that marks the other entries rounds them inwards, as the zones are
rounded, so a page that such an entry covers in part stays clear; the reset of page 0
and the bitmap test clear two bits more. On a table in which RAM and other entries
share no page none of this shows.
-/

namespace Knos.Memory

open Knos.Words

/-- `alloc_pages` can hand out page `q`. -/
def Offered (g : GlobalMemoryManager) (q : ℕ) : Prop :=
  (∃ z ∈ g.zone, z.Contains q) ∧ bitAt g.bitmap q = some false

instance (g : GlobalMemoryManager) (q : ℕ) : Decidable (Offered g q) :=
  inferInstanceAs (Decidable (_ ∧ _))

/-- No page that can be handed out has a byte of an entry that is not RAM. -/
def OffersOnlyRam (entries : List E820Entry) (g : GlobalMemoryManager) : Prop :=
  ∀ q, Offered g q → ∀ e ∈ entries, e.type ≠ 1#32 → ¬ e.TouchesPage q

/-- Some RAM entry holds page `q`, some other entry holds it, some other entry has a
byte of it. -/
def RamPage (entries : List E820Entry) (q : ℕ) : Prop :=
  ∃ e ∈ entries, e.type = 1#32 ∧ e.HoldsPage q
def OtherPage (entries : List E820Entry) (q : ℕ) : Prop :=
  ∃ e ∈ entries, e.type ≠ 1#32 ∧ e.HoldsPage q
def OtherTouches (entries : List E820Entry) (q : ℕ) : Prop :=
  ∃ e ∈ entries, e.type ≠ 1#32 ∧ e.TouchesPage q

/-- Every RAM page with a byte of another entry is wholly inside one (and neither page
0 nor the page of the bitmap test), or reserved for the tables. -/
def SharesNoPage (buffer : E820Buffer) (endKrnl : ℕ) : Prop :=
  ∀ q, RamPage buffer.table q → OtherTouches buffer.table q → TablePage buffer endKrnl q ∨
    (OtherPage buffer.table q ∧ q ≠ 0 ∧ q ≠ firstPfnOf buffer.table + 10)

section Pages

variable {entries : List E820Entry} (hwrap : ∀ e ∈ entries, e.NoWrap)

include hwrap

theorem markedOut_iff (q : ℕ) : MarkedOut entries q ↔ OtherPage entries q :=
  exists_congr fun e => and_congr_right fun he =>
    and_congr_right fun _ => (holdsPage_iff (hwrap e he) q).symm

theorem contains_zonesOf_iff (q : ℕ) :
    (∃ z ∈ zonesOf entries, z.Contains q) ↔ RamPage entries q := by
  rw [contains_zonesOf]
  exact exists_congr fun e => and_congr_right fun he =>
    and_congr_right fun _ => (holdsPage_iff (hwrap e he) q).symm

end Pages

/-- Whether a zone contains a page is a matter of its limits. -/
theorem exists_contains_congr {zones zones' : List MemoryZone}
    (h : zones'.map MemoryZone.extent = zones.map MemoryZone.extent) (q : ℕ) :
    (∃ z ∈ zones', z.Contains q) ↔ ∃ z ∈ zones, z.Contains q := by
  constructor
  · rintro ⟨z', hz', hq⟩
    obtain ⟨z, hz, hext⟩ := mem_zone_of_extent h hz'
    exact ⟨z, hz, (contains_of_extent hext q).mpr hq⟩
  · rintro ⟨z, hz, hq⟩
    obtain ⟨z', hz', hext⟩ := mem_zone_of_extent h.symm hz
    exact ⟨z', hz', (contains_of_extent hext q).mpr hq⟩

/-- The pages on offer after `init_memory`. -/
theorem offered_iff {buffer : E820Buffer} {endKrnl : ℕ} {s : Boot}
    (hwrap : ∀ e ∈ buffer.table, e.NoWrap) (h : Booted buffer endKrnl s) (q : ℕ) :
    Offered s.gmm q ↔ RamPage buffer.table q ∧ ¬ TablePage buffer endKrnl q ∧
      ¬ (OtherPage buffer.table q ∧ q ≠ 0 ∧ q ≠ firstPfnOf buffer.table + 10) := by
  have hset : bitAt s.gmm.bitmap q = some true ↔
      (OtherPage buffer.table q ∧ q ≠ 0 ∧ q ≠ firstPfnOf buffer.table + 10) ∨
        TablePage buffer endKrnl q := by
    rw [h.bits, markedOut_iff hwrap]
  unfold Offered
  rw [exists_contains_congr h.zones, contains_zonesOf_iff hwrap]
  refine and_congr_right fun hram => ?_
  obtain ⟨z, hz, hq⟩ := (contains_zonesOf_iff hwrap q).mpr hram
  have hend := endPfn_le_of_mem_zonesOf hz
  have hlt : q < z.endPfn := hq.2
  have hword : q / 64 < s.gmm.bitmap.length := by
    rw [h.words]
    omega
  rw [and_comm, ← not_or, ← hset]
  rcases bitAt_cases hword with hb | hb
  · simp [hb]
  · simp [hb]

/-- **Only RAM is offered exactly when RAM pages are not shared.** -/
theorem offers_only_ram (buffer : E820Buffer) (endKrnl : ℕ) (s : Boot)
    (hwrap : ∀ e ∈ buffer.table, e.NoWrap) (htext : textAddr ≤ endKrnl) (hlt : endKrnl < 2 ^ 64)
    (hrun : initMemory buffer endKrnl = .ok s) :
    OffersOnlyRam buffer.table s.gmm ↔ SharesNoPage buffer endKrnl := by
  have hend : physToVirtBase ≤ endKrnl := le_trans (Nat.le_add_right _ _) htext
  have hbooted := initMemory_booted hend hlt hrun
  constructor
  · intro h q hram hother
    obtain ⟨e, he, htype, htouch⟩ := hother
    by_contra hnot
    rw [not_or] at hnot
    exact h q ((offered_iff hwrap hbooted q).mpr ⟨hram, hnot⟩) e he htype htouch
  · intro h q hoffered e he htype htouch
    obtain ⟨hram, htable, hmarked⟩ := (offered_iff hwrap hbooted q).mp hoffered
    rcases h q hram ⟨e, he, htype, htouch⟩ with hin | hin
    · exact htable hin
    · exact hmarked hin

theorem offers_only_ram_smallMachine :
    OffersOnlyRam smallMachine.table (bootOf smallMachine smallImage).gmm ↔
      SharesNoPage smallMachine smallImage :=
  offers_only_ram smallMachine smallImage _ (by decide +kernel) (by decide) (by decide)
    smallMachine_boots

/-- 64 MB of RAM; the firmware reports half a page in it as reserved. -/
def sharedMachine : E820Buffer :=
  bufferOf [entryOf 0x100000 0x3F00000 1, entryOf 0x900000 0x80000 2]

/-- Page 4 is on offer. -/
theorem partly_reserved_page_offered : (∀ e ∈ sharedMachine.table, e.NoWrap) ∧
    initMemory sharedMachine smallImage = .ok (bootOf sharedMachine smallImage) ∧
    ¬ OffersOnlyRam sharedMachine.table (bootOf sharedMachine smallImage).gmm := by
  refine ⟨by decide +kernel, bootOf_eq (by decide +kernel), fun h => ?_⟩
  have hoffered : Offered (bootOf sharedMachine smallImage).gmm 4 := by decide +kernel
  have hmem : entryOf 0x900000 0x80000 2 ∈ sharedMachine.table := by decide +kernel
  refine h 4 hoffered _ hmem (by decide) ⟨0x900000, by decide, ?_⟩
  exact ⟨by decide +kernel, by decide +kernel⟩

end Knos.Memory
