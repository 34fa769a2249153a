import Knos.Memory.Runs
import Mathlib.Data.BitVec

/-!
# The two counters move in lockstep

Free pages are counted twice: zone by zone (`nr_free`) and globally
(`huge_page_info.free_2m_pages`). Three sites write the counters, each through a zone
pointer of its own: the zone of the page, the zone that was chosen, the zone of the
first page of a call. Whichever zone it is, the global counter is written beside it,
so the difference of the two totals never moves. Whether either of them is *right* is
another question (`Counters`).

A zone pointer that leads out of the zone table ends a call (`Fault.outOfBounds`), so
nothing is assumed about the pointers of a state.
-/

namespace Knos.Memory

open Knos.Loop

/-! ## §1  The total over the zones -/

/-- The sum of `nr_free` over the zone table, in 64 bits. -/
def GlobalMemoryManager.totalFree (g : GlobalMemoryManager) : BitVec 64 :=
  (g.zone.map MemoryZone.nrFree).sum

/-- What the zones count beyond the global counter. -/
def GlobalMemoryManager.drift (g : GlobalMemoryManager) : BitVec 64 :=
  g.totalFree - g.free2mPages

/-- Adding `c` to one counter adds `c` to the total. -/
theorem sum_nrFree_modify {update : MemoryZone → MemoryZone} {c : BitVec 64}
    (hupdate : ∀ z, (update z).nrFree = z.nrFree + c) :
    ∀ {zones : List MemoryZone} {i : ℕ}, i < zones.length →
      ((zones.modify i update).map MemoryZone.nrFree).sum =
        (zones.map MemoryZone.nrFree).sum + c
  | [], i, h => absurd h (Nat.not_lt_zero i)
  | z :: zones, 0, _ => by
      rw [List.modify_zero_cons, List.map_cons, List.sum_cons, List.map_cons, List.sum_cons,
        hupdate]
      ring
  | z :: zones, i + 1, h => by
      rw [List.modify_succ_cons, List.map_cons, List.sum_cons, List.map_cons, List.sum_cons,
        sum_nrFree_modify hupdate (Nat.lt_of_succ_lt_succ h)]
      ring

section Updates

variable {g : GlobalMemoryManager} {j : ℕ}

theorem drift_takeFree (h : j < g.zone.length) (n : BitVec 64) :
    (g.takeFree j n).drift = g.drift := by
  have htotal : (g.takeFree j n).totalFree = g.totalFree + -n :=
    sum_nrFree_modify (fun z => sub_eq_add_neg z.nrFree n) h
  show (g.takeFree j n).totalFree - (g.free2mPages - n) = g.totalFree - g.free2mPages
  rw [htotal]
  ring

theorem drift_giveFree (h : j < g.zone.length) : (g.giveFree j).drift = g.drift := by
  have htotal : (g.giveFree j).totalFree = g.totalFree + 1 :=
    sum_nrFree_modify (fun _ => rfl) h
  show (g.giveFree j).totalFree - (g.free2mPages + 1) = g.totalFree - g.free2mPages
  rw [htotal]
  ring

end Updates

/-! ## §2  One call -/

theorem drift_pageInit {g g' : GlobalMemoryManager} {p : Option ℕ} {flags : BitVec 32}
    (h : pageInit g p flags = .ok g') : g'.drift = g.drift := by
  cases p with
  | none => cases h
  | some i =>
      obtain ⟨f, j, -, -, ⟨-, hj, rfl⟩ | ⟨-, rfl⟩⟩ := pageInit_eq_ok h
      · exact @drift_takeFree (g.setFrame i (f.acquire flags)) j hj 1
      · rfl

theorem drift_markPage {g g' : GlobalMemoryManager} {q : ℕ} {flags : BitVec 32}
    (h : markPage flags q g = .ok g') : g'.drift = g.drift := by
  unfold markPage at h
  rw [bind_eq_ok] at h
  obtain ⟨bitmap, -, h⟩ := h
  -- the bitmap is no part of either total
  exact (drift_pageInit h).trans rfl

/-- Step 4 writes the zone that `findZone` chose, which is one of the table. -/
theorem drift_allocPages {g g' : GlobalMemoryManager} {ty : MemoryZoneType}
    {nrPages flags : BitVec 32} {r : Option ℕ} (h : allocPages g ty nrPages flags = .ok (r, g')) :
    g'.drift = g.drift := by
  cases r with
  | none => rw [(allocPages_none h).1]
  | some p =>
      obtain ⟨i, g₁, hfind, hloop, rfl⟩ := allocPages_some h
      have hshape := (marked_of_forRange hloop).shape
      have hmarked : g₁.drift = g.drift :=
        forRange_invariant (fun _ s => s.drift = g.drift)
          (fun _ _ _ _ hs hstep => (drift_markPage hstep).trans hs) rfl hloop
      have hi : i < g.zone.length := by
        rcases findRun_eq_ok hfind with ⟨-, hnone⟩ | ⟨k, z, found, hz, -, ⟨-, hr⟩ | ⟨-, hr⟩⟩
        · cases hnone
        · cases hr
        · cases hr
          exact (List.getElem?_eq_some_iff.mp (findZone_some hz).2.1).1
      rw [← hshape.zone_length] at hi
      rw [drift_takeFree hi, hmarked]

theorem drift_freePage {g g' : GlobalMemoryManager} {j q : ℕ} (h : freePage j q g = .ok g') :
    g'.drift = g.drift := by
  obtain ⟨f, -, ⟨-, rfl⟩ | ⟨-, -, rfl⟩ | ⟨-, -, hj, rfl⟩⟩ := freePage_eq_ok h
  · rfl
  · rfl
  · exact drift_giveFree hj

/-- The frames that `free_pages` visits and the zone it counts them into play no part. -/
theorem drift_freePages {g g' : GlobalMemoryManager} {p : Option ℕ} {nrPages : BitVec 32}
    (h : freePages g p nrPages = .ok g') : g'.drift = g.drift := by
  unfold freePages at h
  split at h
  · cases h
    rfl
  split at h
  · cases h
    rfl
  split at h
  · cases h
  split at h
  · cases h
    rfl
  split at h
  · cases h
    rfl
  exact forRange_invariant (fun _ s => s.drift = g.drift)
    (fun _ _ _ _ hs hstep => (drift_freePage hstep).trans hs) rfl h

/-! ## §3  Runs of calls -/

/-- A call that returned, with any arguments. -/
inductive Call : GlobalMemoryManager → GlobalMemoryManager → Prop where
  | pageInit {g g' : GlobalMemoryManager} (p : Option ℕ) (flags : BitVec 32)
      (h : pageInit g p flags = .ok g') : Call g g'
  | allocPages {g g' : GlobalMemoryManager} (ty : MemoryZoneType) (nrPages flags : BitVec 32)
      (r : Option ℕ) (h : allocPages g ty nrPages flags = .ok (r, g')) : Call g g'
  | freePages {g g' : GlobalMemoryManager} (p : Option ℕ) (nrPages : BitVec 32)
      (h : freePages g p nrPages = .ok g') : Call g g'

/-- Any number of calls, in any order. -/
abbrev Calls : GlobalMemoryManager → GlobalMemoryManager → Prop := Relation.ReflTransGen Call

theorem Call.drift {g g' : GlobalMemoryManager} (h : Call g g') : g'.drift = g.drift := by
  cases h with
  | pageInit _ _ h => exact drift_pageInit h
  | allocPages _ _ _ _ h => exact drift_allocPages h
  | freePages _ _ h => exact drift_freePages h

theorem Calls.drift {g g' : GlobalMemoryManager} (h : Calls g g') : g'.drift = g.drift := by
  induction h with
  | refl => rfl
  | tail _ hcall ih => exact hcall.drift.trans ih

/-- **The global counter never drifts from the zone counters**, over any run of calls. -/
theorem counters_in_lockstep (g g' : GlobalMemoryManager) (h : Calls g g') :
    g'.totalFree - g.totalFree = g'.free2mPages - g.free2mPages := by
  have hdrift : g'.totalFree - g'.free2mPages = g.totalFree - g.free2mPages := h.drift
  calc g'.totalFree - g.totalFree
      = (g'.totalFree - g'.free2mPages) - (g.totalFree - g.free2mPages) +
          (g'.free2mPages - g.free2mPages) := by ring
    _ = g'.free2mPages - g.free2mPages := by rw [hdrift]; ring

/-- Three pages on the machine of 64 MB: both totals fall by six. -/
theorem counters_in_lockstep_smallMachine :
    ∃ g', Calls (bootOf smallMachine smallImage).gmm g' ∧
      g'.totalFree - (bootOf smallMachine smallImage).gmm.totalFree =
        g'.free2mPages - (bootOf smallMachine smallImage).gmm.free2mPages := by
  obtain ⟨g', hcall⟩ := smallMachine_allocates
  have hcalls : Calls (bootOf smallMachine smallImage).gmm g' :=
    Relation.ReflTransGen.single (.allocPages .zoneNormal 3 pageKernel (some 8) hcall)
  exact ⟨g', hcalls, counters_in_lockstep _ g' hcalls⟩

end Knos.Memory
