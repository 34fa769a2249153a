import Knos.Memory.Runs

/-!
# The bounds of the search

The loop bound of the search is `end_pfn - nr_pages` in unsigned arithmetic, and the
only guard on it is `nr_free >= nr_pages`. So the search stays inside its zone as long
as no counter exceeds the zone's `end_pfn`. Free pages come back one by one but are
taken off twice, so counters only fall, and what the outstanding allocations of a zone
still owe it is bounded by what was taken (`Solvent`). The danger is the other end: a
counter that is charged for more pages than it has wraps around.
-/

namespace Knos.Memory

open Knos.Loop Knos.Words Knos.Grants Knos.JumpSearch

/-! ## §1  What the outstanding runs owe a zone -/

/-- The zone of frame `q`. -/
def homeOf (g : GlobalMemoryManager) (q : ℕ) : Option ℕ := (g.page[q]?).bind PageFrame.zone

/-- How many pages the runs can still give back to zone `j`. -/
def owed (g : GlobalMemoryManager) (j : ℕ) (out : List Run) : ℕ :=
  (out.map fun r => if homeOf g r.start = some j then r.len else 0).sum

theorem owed_cons (g : GlobalMemoryManager) (j : ℕ) (r : Run) (out : List Run) :
    owed g j (r :: out) = (if homeOf g r.start = some j then r.len else 0) + owed g j out := by
  unfold owed
  rw [List.map_cons, List.sum_cons]

theorem owed_erase (g : GlobalMemoryManager) (j : ℕ) {r : Run} {out : List Run} (h : r ∈ out) :
    (if homeOf g r.start = some j then r.len else 0) + owed g j (out.erase r) = owed g j out := by
  rw [← owed_cons]
  exact ((List.perm_cons_erase h).symm.map _).sum_eq

theorem SameShape.homeOf {g g' : GlobalMemoryManager} (h : SameShape g g') :
    homeOf g' = homeOf g := by
  funext q
  have hmap := congrArg (fun l : List (Option ℕ × ℕ) => (l[q]?).bind Prod.fst) h.frames
  simp only [List.getElem?_map, Option.bind_map] at hmap
  exact hmap

theorem SameShape.owed {g g' : GlobalMemoryManager} (h : SameShape g g') (j : ℕ)
    (out : List Run) : owed g' j out = owed g j out := by
  unfold Memory.owed
  rw [h.homeOf]

/-- No counter exceeds what its zone can hold, even when all runs are given back. -/
def Solvent (g : GlobalMemoryManager) (out : List Run) : Prop :=
  ∀ j z, g.zone[j]? = some z → z.nrFree.toNat + owed g j out ≤ z.endPfn

/-! ## §2  Each call keeps the counters in bounds -/

/-- The run that the search will hand out can be paid for: the chosen zone has what
`page_init` and step 4 take off it, and all frames of the run belong to that zone. -/
def Affordable : Admission := fun g ty nrPages =>
  ∀ i zone b, findZone ty nrPages.toNat 0 g.zone = some (i, zone) → b ≠ 0 →
    b ≤ searchLimit zone nrPages.toNat →
    FirstHit (nextProbe nrPages.toNat) (Passes g.bitmap nrPages.toNat) zone.startPfn b →
    freshCount g i b nrPages.toNat + nrPages.toNat ≤ zone.nrFree.toNat ∧
      ∀ q, b ≤ q → q < b + nrPages.toNat → homeOf g q = some i

/-- Affordability read off the run that the search finds. -/
theorem affordable_of_findRun {g : GlobalMemoryManager} {ty : MemoryZoneType} {nrPages : BitVec 32}
    {i p : ℕ} {zone : MemoryZone} (hn : 1 ≤ nrPages.toNat)
    (hfind : findRun g ty nrPages.toNat = .ok (some (i, p)))
    (hzone : findZone ty nrPages.toNat 0 g.zone = some (i, zone))
    (hpay : freshCount g i p nrPages.toNat + nrPages.toNat ≤ zone.nrFree.toNat)
    (hhome : ∀ k, k < nrPages.toNat → homeOf g (p + k) = some i) : Affordable g ty nrPages := by
  intro i' zone' b hzone' hne hlim hhit
  rw [hzone] at hzone'
  cases hzone'
  have hrun := findRun_finds hn hzone hne hlim hhit
  rw [hfind] at hrun
  cases hrun
  refine ⟨hpay, fun q h₁ h₂ => ?_⟩
  have := hhome (q - p) (by omega)
  rwa [show p + (q - p) = q from by omega] at this

section Calls

variable {g g' : GlobalMemoryManager} {out : List Run}

theorem toNat_sub_ofNat {x : BitVec 64} {m : ℕ} (h : m ≤ x.toNat) :
    (x - BitVec.ofNat 64 m).toNat = x.toNat - m := by
  have hlt := x.isLt
  rw [BitVec.toNat_sub, BitVec.toNat_ofNat, Nat.mod_eq_of_lt (show m < 2 ^ 64 by omega),
    show 2 ^ 64 - m + x.toNat = x.toNat - m + 2 ^ 64 from by omega, Nat.add_mod_right]
  exact Nat.mod_eq_of_lt (by omega)

/-- What `alloc_pages` takes off the counter of zone `j` for a run in zone `i`. -/
def taken (g : GlobalMemoryManager) (i j p n : ℕ) : ℕ :=
  freshCount g j p n + if j = i then n else 0

/-- The zones after a run of zone `i` has been handed out. -/
theorem alloc_zones {ty : MemoryZoneType} {nrPages flags : BitVec 32} {p : ℕ}
    (hcall : allocPages g ty nrPages flags = .ok (some p, g')) :
    ∃ i, findRun g ty nrPages.toNat = .ok (some (i, p)) ∧ SameShape g g' ∧
      ∀ j z', g'.zone[j]? = some z' → ∃ z, g.zone[j]? = some z ∧ z'.endPfn = z.endPfn ∧
        z'.nrFree = z.nrFree - BitVec.ofNat 64 (taken g i j p nrPages.toNat) := by
  obtain ⟨i, g₁, hfind, hloop, rfl⟩ := allocPages_some hcall
  have hmarked := marked_of_forRange hloop
  refine ⟨i, hfind, hmarked.shape.trans (sameShape_takeFree g₁ i _), fun j z' hz' => ?_⟩
  rw [takeFree_zone, hmarked.zones, Option.map_map, Option.map_eq_some_iff] at hz'
  obtain ⟨z, hz, rfl⟩ := hz'
  refine ⟨z, hz, ?_⟩
  unfold taken
  by_cases hji : j = i
  · have hwidth : nrPages.setWidth 64 = BitVec.ofNat 64 nrPages.toNat := by
      apply BitVec.eq_of_toNat_eq
      rw [BitVec.toNat_setWidth, BitVec.toNat_ofNat]
    simp only [Function.comp, if_pos hji, hwidth, BitVec.ofNat_add, ← BitVec.sub_sub]
    exact ⟨rfl, rfl⟩
  · simp only [Function.comp, if_neg hji, Nat.add_zero]
    exact ⟨rfl, rfl⟩

/-- Frames of one zone are not fresh in another. -/
theorem freshCount_eq_zero {i j p n : ℕ} (hij : j ≠ i)
    (hhome : ∀ q, p ≤ q → q < p + n → homeOf g q = some i) : freshCount g j p n = 0 := by
  unfold freshCount
  rw [Nat.count_iff_forall_not]
  intro k hk hfresh
  have hk' := hhome (p + k) (by omega) (by omega)
  unfold freshIn at hfresh
  unfold homeOf at hk'
  cases hf : g.page[p + k]? with
  | none =>
      rw [hf] at hfresh
      cases hfresh
  | some f =>
      rw [hf] at hk' hfresh
      have hzone : f.zone = some i := hk'
      simp [hzone, Ne.symm hij] at hfresh

/-- An affordable run is paid for, and covers what it will give back. -/
theorem Affordable.taken {ty : MemoryZoneType} {nrPages : BitVec 32} {i p : ℕ}
    (h : Affordable g ty nrPages) (hfind : findRun g ty nrPages.toNat = .ok (some (i, p)))
    {j : ℕ} {z : MemoryZone} (hz : g.zone[j]? = some z) :
    taken g i j p nrPages.toNat ≤ z.nrFree.toNat ∧
      (if homeOf g p = some j then nrPages.toNat else 0) ≤ taken g i j p nrPages.toNat := by
  unfold Memory.taken
  have hfresh : freshCount g j p nrPages.toNat ≤ nrPages.toNat := Nat.count_le _
  by_cases hn : 1 ≤ nrPages.toNat
  · obtain ⟨zone, hzone, hne, hlim, hhit⟩ := findRun_some hn hfind
    obtain ⟨hpay, hhome⟩ := h i zone p hzone hne hlim hhit
    by_cases hji : j = i
    · subst hji
      obtain ⟨-, hget, -, -⟩ := findZone_some hzone
      rw [Nat.sub_zero, hz] at hget
      cases hget
      rw [if_pos rfl]
      refine ⟨by omega, ?_⟩
      split <;> omega
    · have hother : ¬ homeOf g p = some j := by
        rw [hhome p (Nat.le_refl p) (by omega)]
        exact fun heq => hji (Option.some.inj heq).symm
      rw [freshCount_eq_zero hji hhome, if_neg hji, if_neg hother]
      exact ⟨Nat.zero_le _, Nat.le_refl _⟩
  · have hzero : nrPages.toNat = 0 := by omega
    rw [hzero] at hfresh ⊢
    rw [ite_self, ite_self]
    exact ⟨by omega, Nat.zero_le _⟩

theorem Solvent.alloc (h : Solvent g out) {ty : MemoryZoneType} {nrPages flags : BitVec 32}
    {p : ℕ} (hafford : Affordable g ty nrPages)
    (hcall : allocPages g ty nrPages flags = .ok (some p, g')) :
    Solvent g' (⟨p, nrPages.toNat⟩ :: out) := by
  obtain ⟨i, hfind, hshape, hzones⟩ := alloc_zones hcall
  intro j z' hz'
  obtain ⟨z, hz, hend, hfree⟩ := hzones j z' hz'
  obtain ⟨hpaid, hcovers⟩ := hafford.taken hfind hz
  have hbefore := h j z hz
  rw [hshape.owed, owed_cons, hend, hfree, toNat_sub_ofNat hpaid]
  change _ - _ + ((if homeOf g p = some j then nrPages.toNat else 0) + _) ≤ _
  omega

theorem Solvent.free (h : Solvent g out) (hindex : Indexed g)
    (hbounded : ∀ z ∈ g.zone, z.endPfn < 2 ^ 64) {p : ℕ} {nrPages : BitVec 32}
    (hmem : (⟨p, nrPages.toNat⟩ : Run) ∈ out)
    (hcall : freePages g (some p) nrPages = .ok g') :
    SameShape g g' ∧ Solvent g' (out.erase ⟨p, nrPages.toNat⟩) := by
  have howed : ∀ j, (if homeOf g p = some j then nrPages.toNat else 0) +
      owed g j (out.erase ⟨p, nrPages.toNat⟩) = owed g j out :=
    fun j => owed_erase g j hmem
  rcases freePages_eq_ok hindex hcall with ⟨rfl, -⟩ | ⟨-, f, i, hf, hi, hrel⟩
  · refine ⟨SameShape.refl _, fun j z hz => ?_⟩
    have hbefore := h j z hz
    have := howed j
    omega
  · refine ⟨hrel.shape, fun j z' hz' => ?_⟩
    have hhome : homeOf g p = some i := by
      rw [homeOf, hf]
      exact hi
    have hback : givenBack g p nrPages.toNat ≤ nrPages.toNat := Nat.count_le _
    have hj := howed j
    rw [hrel.shape.owed]
    rw [hrel.zones] at hz'
    by_cases hji : j = i
    · rw [if_pos hji, Option.map_eq_some_iff] at hz'
      obtain ⟨z, hz, rfl⟩ := hz'
      have hbefore := h j z hz
      have hlt := hbounded z (List.mem_of_getElem? hz)
      rw [hhome, hji, if_pos rfl, ← hji] at hj
      show (z.nrFree + BitVec.ofNat 64 (givenBack g p nrPages.toNat)).toNat + _ ≤ z.endPfn
      rw [BitVec.toNat_add, BitVec.toNat_ofNat, Nat.add_mod_mod, Nat.mod_eq_of_lt (by omega)]
      omega
    · rw [if_neg hji] at hz'
      have hbefore := h j z' hz'
      omega

end Calls

/-! ## §3  Whole runs -/

theorem reach_solvent {g₀ g : GlobalMemoryManager} {out : List Run} (hbounded : Bounded g₀)
    (hsolvent : Solvent g₀ []) (h : Reach Affordable g₀ g out) :
    Bounded g ∧ Solvent g out := by
  induction h with
  | start => exact ⟨hbounded, hsolvent⟩
  | null _ _ hcall ih =>
      rw [(allocPages_none hcall).1]
      exact ih
  | alloc _ hadmits hcall ih =>
      obtain ⟨i, -, hshape, -⟩ := alloc_zones hcall
      exact ⟨hshape.bounded ih.1, ih.2.alloc hadmits hcall⟩
  | free _ hmem hcall ih =>
      obtain ⟨hshape, hnext⟩ := ih.2.free ih.1.indexed (ih.1.limit) hmem hcall
      exact ⟨hshape.bounded ih.1, hnext⟩

/-- The search for a request ends without a fault, its loop bound does not wrap, and
the run that is handed out lies inside one zone of the type. -/
def SearchSound (g : GlobalMemoryManager) (ty : MemoryZoneType) (nrPages : BitVec 32) : Prop :=
  (∃ r, findRun g ty nrPages.toNat = .ok r) ∧
  (∀ i z, findZone ty nrPages.toNat 0 g.zone = some (i, z) → nrPages.toNat ≤ z.endPfn) ∧
  ∀ flags p g', allocPages g ty nrPages flags = .ok (some p, g') →
    ∃ z ∈ g.zone, z.type = ty ∧ z.startPfn ≤ p ∧ p + nrPages.toNat ≤ z.endPfn

theorem searchSound_of_solvent {g : GlobalMemoryManager} {out : List Run} (hbounded : Bounded g)
    (hsolvent : Solvent g out) (ty : MemoryZoneType) {nrPages : BitVec 32}
    (hn : 1 ≤ nrPages.toNat) : SearchSound g ty nrPages := by
  have hguard : ∀ i z, findZone ty nrPages.toNat 0 g.zone = some (i, z) →
      g.zone[i]? = some z ∧ z.type = ty ∧ nrPages.toNat ≤ z.endPfn := by
    intro i z hz
    obtain ⟨-, hget, htype, hfree⟩ := findZone_some hz
    have := hsolvent i z hget
    exact ⟨hget, htype, by omega⟩
  refine ⟨findRun_returns hbounded hn fun i z hz => (hguard i z hz).2.2,
    fun i z hz => (hguard i z hz).2.2, fun flags p g' hcall => ?_⟩
  obtain ⟨i, g₁, hfind, -⟩ := allocPages_some hcall
  obtain ⟨z, hz, -, hlim, hhit⟩ := findRun_some hn hfind
  obtain ⟨hget, htype, hle⟩ := hguard i z hz
  have hmem := List.mem_of_getElem? hget
  exact ⟨z, hmem, htype, run_in_zone hn hle (hbounded.limit z hmem) hlim hhit⟩

/-- **The search stays inside its zone** in every state that affordable requests lead
to, for every further request. -/
theorem search_stays_in_zone (buffer : E820Buffer) (endKrnl : ℕ) (s : Boot)
    (htext : textAddr ≤ endKrnl) (hlt : endKrnl < 2 ^ 64)
    (hrun : initMemory buffer endKrnl = .ok s)
    (hstart : ∀ z ∈ s.gmm.zone, z.nrFree.toNat ≤ z.endPfn)
    (g : GlobalMemoryManager) (out : List Run) (h : Reach Affordable s.gmm g out)
    (ty : MemoryZoneType) (nrPages : BitVec 32) (hn : 1 ≤ nrPages.toNat) :
    SearchSound g ty nrPages := by
  have hend : physToVirtBase ≤ endKrnl := le_trans (Nat.le_add_right _ _) htext
  have hbounded := (initMemory_booted hend hlt hrun).bounded
  have hsolvent : Solvent s.gmm [] := fun j z hz => hstart z (List.mem_of_getElem? hz)
  obtain ⟨hb, hs⟩ := reach_solvent hbounded hsolvent h
  exact searchSound_of_solvent hb hs ty hn

theorem search_stays_in_zone_smallMachine :
    ∃ g, Reach Affordable (bootOf smallMachine smallImage).gmm g [⟨8, 3⟩] ∧
      SearchSound g .zoneNormal 5 := by
  obtain ⟨g, hcall⟩ := smallMachine_allocates
  have hfind : findRun (bootOf smallMachine smallImage).gmm .zoneNormal 3 = .ok (some (1, 8)) := by
    decide +kernel
  have hzone : findZone .zoneNormal 3 0 (bootOf smallMachine smallImage).gmm.zone =
      some (1, spanZone .zoneNormal 8 32) := by
    decide +kernel
  have hafford : Affordable (bootOf smallMachine smallImage).gmm .zoneNormal 3 :=
    affordable_of_findRun (by decide) hfind hzone (by decide +kernel) (by decide +kernel)
  have hreach : Reach Affordable (bootOf smallMachine smallImage).gmm g [⟨8, 3⟩] :=
    .alloc .start hafford hcall
  exact ⟨g, hreach, search_stays_in_zone smallMachine smallImage _ (by decide) (by decide)
    smallMachine_boots (by decide +kernel) g _ hreach .zoneNormal 5 (by decide)⟩

/-- RAM from 16 MB to 64 MB: one zone of 24 pages. -/
def normalMachine : E820Buffer := bufferOf [entryOf 0x1000000 0x3000000 1]

/-- Thirteen pages charged twice make 26: the counter wraps around, a request for 33
pages is let through, and the search reads behind the bitmap. -/
theorem wrapped_counter_admits_request :
    initMemory normalMachine smallImage = .ok (bootOf normalMachine smallImage) ∧
    (∀ z ∈ (bootOf normalMachine smallImage).gmm.zone, z.nrFree.toNat ≤ z.endPfn) ∧
    ∃ g, Reach (fun _ _ _ => True) (bootOf normalMachine smallImage).gmm g [⟨8, 13⟩] ∧
      findRun g .zoneNormal 33 = .error (.outOfBounds .bitmap 1) ∧
      ¬ SearchSound g .zoneNormal 33 := by
  have hfst : (allocPages (bootOf normalMachine smallImage).gmm .zoneNormal 13 pageKernel).map
      Prod.fst = .ok (some 8) := by
    decide +kernel
  have hnext : (allocPages (bootOf normalMachine smallImage).gmm .zoneNormal 13 pageKernel >>=
      fun r => findRun r.2 .zoneNormal 33) = .error (.outOfBounds .bitmap 1) := by
    decide +kernel
  obtain ⟨g, hcall⟩ := exists_of_map_fst hfst
  rw [hcall, ok_bind] at hnext
  refine ⟨bootOf_eq (by decide +kernel), by decide +kernel, g, .alloc .start trivial hcall,
    hnext, ?_⟩
  rintro ⟨⟨r, hr⟩, -⟩
  rw [show (33 : BitVec 32).toNat = 33 from rfl, hnext] at hr
  cases hr

end Knos.Memory
