import Knos.Memory.Bounds
import Knos.Memory.Lockstep
import Mathlib.Algebra.BigOperators.Group.Finset.Piecewise
import Mathlib.Algebra.BigOperators.Ring.Finset

/-!
# What the counters lose

Over a run of calls the tables of the allocator depend on what is outstanding and on nothing
else (`tables_of_outstanding`). Its counters do not: each page that is handed out is taken off
twice, once by `page_init` and once at the end of `alloc_pages`, and put back once. So the
counters are short of the pages that are outstanding and of all that were ever handed out
(`leak_law`), and a zone whose pages have all been given back refuses requests (`starves`).
-/

namespace Knos.Memory

open Knos.Loop Knos.Words Knos.Grants

/-! ## §1  The total after a loop -/

theorem sum_nrFree_addFree {zones zones' : List MemoryZone} {c : ℕ → BitVec 64}
    (h : ∀ j, zones'[j]? = (zones[j]?).map (MemoryZone.addFree (c j))) :
    (zones'.map MemoryZone.nrFree).sum =
      (zones.map MemoryZone.nrFree).sum + ∑ j ∈ Finset.range zones.length, c j := by
  induction zones generalizing zones' c with
  | nil =>
      obtain rfl : zones' = [] := by
        cases zones' with
        | nil => rfl
        | cons z' zones' => exact absurd (h 0) (Option.some_ne_none _)
      simp
  | cons z zones ih =>
      cases zones' with
      | nil => exact absurd (h 0).symm (Option.some_ne_none _)
      | cons z' zones' =>
          obtain rfl : z' = z.addFree (c 0) := Option.some.inj (h 0)
          have hrest := @ih zones' (fun j => c (j + 1)) fun j => h (j + 1)
          rw [List.map_cons, List.sum_cons, hrest, List.map_cons, List.sum_cons, List.length_cons,
            Finset.sum_range_succ']
          show z.nrFree + c 0 + _ = _
          ring

theorem subFree_eq_addFree (n : BitVec 64) : MemoryZone.subFree n = MemoryZone.addFree (-n) := by
  funext z
  simp [MemoryZone.subFree, MemoryZone.addFree, sub_eq_add_neg]

/-- A page is fresh in one zone. -/
theorem sum_freshCount {g : GlobalMemoryManager} {p n : ℕ}
    (hfresh : ∀ q, (Run.mk p n).Has q → ∃ f j, g.page[q]? = some f ∧ f.zone = some j ∧
      j < g.zone.length ∧ f.isUsed = false) :
    ∑ j ∈ Finset.range g.zone.length, freshCount g j p n = n := by
  have hhome : ∀ i ∈ Finset.range n,
      ((g.page[p + i]?).bind PageFrame.zone).getD 0 ∈ Finset.range g.zone.length := by
    intro i hi
    have hi := Finset.mem_range.mp hi
    obtain ⟨f, j, hf, hj, hlt, -⟩ := hfresh (p + i) ⟨Nat.le_add_right p i, Nat.add_lt_add_left hi p⟩
    simpa [hf, hj] using hlt
  have hcount : ∀ j ∈ Finset.range g.zone.length, freshCount g j p n =
      ((Finset.range n).filter fun i => ((g.page[p + i]?).bind PageFrame.zone).getD 0 = j).card := by
    intro j _
    rw [freshCount, Nat.count_eq_card_filter_range]
    congr 1
    refine Finset.filter_congr fun i hi => ?_
    have hi := Finset.mem_range.mp hi
    obtain ⟨f, j', hf, hj', -, hunused⟩ :=
      hfresh (p + i) ⟨Nat.le_add_right p i, Nat.add_lt_add_left hi p⟩
    simp [freshIn, hf, hj', hunused]
  rw [Finset.sum_congr rfl hcount, ← Finset.card_eq_sum_card_fiberwise hhome, Finset.card_range]

theorem Marked.totalFree {flags : BitVec 32} {p n : ℕ} {g g' : GlobalMemoryManager}
    (h : Marked flags p n g g')
    (hfresh : ∀ q, (Run.mk p n).Has q → ∃ f j, g.page[q]? = some f ∧ f.zone = some j ∧
      j < g.zone.length ∧ f.isUsed = false) :
    g'.totalFree = g.totalFree - BitVec.ofNat 64 n := by
  have hzones : ∀ j, g'.zone[j]? = (g.zone[j]?).map
      (MemoryZone.addFree (-((freshCount g j p n : ℕ) : BitVec 64))) := by
    intro j
    rw [h.zones j, subFree_eq_addFree]
    rfl
  have hsum := sum_nrFree_addFree hzones
  rw [Finset.sum_neg_distrib, ← Nat.cast_sum, sum_freshCount hfresh, ← sub_eq_add_neg] at hsum
  exact hsum

theorem Released.totalFree {j p n : ℕ} {g g' : GlobalMemoryManager} (h : Released j p n g g')
    (hj : j < g.zone.length) :
    g'.totalFree = g.totalFree + BitVec.ofNat 64 (givenBack g p n) := by
  have hzones : ∀ i, g'.zone[i]? = (g.zone[i]?).map
      (MemoryZone.addFree (if i = j then BitVec.ofNat 64 (givenBack g p n) else 0#64)) := by
    intro i
    rw [h.zones i]
    by_cases hi : i = j
    · rw [if_pos hi, if_pos hi]
    · rw [if_neg hi, if_neg hi, addFree_zero, Option.map_id]
      rfl
  have hpoint := Finset.sum_ite_eq' (Finset.range g.zone.length) j
    fun _ => BitVec.ofNat 64 (givenBack g p n)
  rw [if_pos (Finset.mem_range.mpr hj)] at hpoint
  exact (sum_nrFree_addFree hzones).trans (congrArg _ hpoint)

/-! ## §2  Runs with a count of all that was handed out -/

/-- Runs of calls with the number of pages handed out so far. -/
inductive History (admits : Admission) (g₀ : GlobalMemoryManager) :
    GlobalMemoryManager → List Run → ℕ → Prop where
  | start : History admits g₀ g₀ [] 0
  | null {g g' : GlobalMemoryManager} {out : List Run} {handed : ℕ} {ty : MemoryZoneType}
      {nrPages flags : BitVec 32} (hrun : History admits g₀ g out handed)
      (hadmits : admits g ty nrPages) (hcall : allocPages g ty nrPages flags = .ok (none, g')) :
      History admits g₀ g' out handed
  | alloc {g g' : GlobalMemoryManager} {out : List Run} {handed : ℕ} {ty : MemoryZoneType}
      {nrPages flags : BitVec 32} {p : ℕ} (hrun : History admits g₀ g out handed)
      (hadmits : admits g ty nrPages) (hcall : allocPages g ty nrPages flags = .ok (some p, g')) :
      History admits g₀ g' (⟨p, nrPages.toNat⟩ :: out) (handed + nrPages.toNat)
  | free {g g' : GlobalMemoryManager} {out : List Run} {handed p : ℕ} {nrPages : BitVec 32}
      (hrun : History admits g₀ g out handed) (hmem : (⟨p, nrPages.toNat⟩ : Run) ∈ out)
      (hcall : freePages g (some p) nrPages = .ok g') :
      History admits g₀ g' (out.erase ⟨p, nrPages.toNat⟩) handed

theorem History.reach {admits : Admission} {g₀ g : GlobalMemoryManager} {out : List Run}
    {handed : ℕ} (h : History admits g₀ g out handed) : Reach admits g₀ g out := by
  induction h with
  | start => exact .start
  | null _ hadmits hcall ih => exact .null ih hadmits hcall
  | alloc _ hadmits hcall ih => exact .alloc ih hadmits hcall
  | free _ hmem hcall ih => exact .free ih hmem hcall

theorem Reach.calls {admits : Admission} {g₀ g : GlobalMemoryManager} {out : List Run}
    (h : Reach admits g₀ g out) : Calls g₀ g := by
  induction h with
  | start => exact .refl
  | null _ _ hcall ih => exact ih.tail (.allocPages _ _ _ _ hcall)
  | alloc _ _ hcall ih => exact ih.tail (.allocPages _ _ _ _ hcall)
  | free _ _ hcall ih => exact ih.tail (.freePages _ _ hcall)

/-- The number of pages outstanding. -/
def pagesOf (out : List Run) : ℕ := (out.map Run.len).sum

theorem pagesOf_erase {out : List Run} {r : Run} (h : r ∈ out) :
    r.len + pagesOf (out.erase r) = pagesOf out :=
  List.sum_map_erase Run.len h

section Steps

variable {g₀ g g' : GlobalMemoryManager} {L : Ledger (Stock g₀)} {p : ℕ} {nrPages : BitVec 32}

/-- A page that is handed out is charged twice. -/
theorem Tracks.totalFree_alloc (h : Tracks g₀ g L) (hready : Ready g₀) (hbounded : Bounded g₀)
    {ty : MemoryZoneType} {flags : BitVec 32} (hexact : TestsExact g ty nrPages.toNat)
    (hcall : allocPages g ty nrPages flags = .ok (some p, g')) :
    g'.totalFree =
      g.totalFree - BitVec.ofNat 64 nrPages.toNat - BitVec.ofNat 64 nrPages.toNat := by
  obtain ⟨hp, hclear, -⟩ := alloc_marks hexact hcall
  obtain ⟨i, g₁, hfind, hloop, rfl⟩ := allocPages_some hcall
  have hmarked := marked_of_forRange hloop
  have hfresh : ∀ q, (Run.mk p nrPages.toNat).Has q → ∃ f j, g.page[q]? = some f ∧
      f.zone = some j ∧ j < g.zone.length ∧ f.isUsed = false := by
    intro q hq
    obtain ⟨f, j, hf, hj⟩ := hmarked.homes q hq.1 hq.2
    have hpq : p ≤ q := hq.1
    obtain ⟨-, -, hflags⟩ := h.blank_frame hready (bitAt_of_allClear hclear hq) hf hj
    exact ⟨f, j, hf, hj, (h.shape.bounded hbounded).homes q f j (by omega) hf hj,
      isUsed_eq_false.mpr (by rw [hflags]; exact BitVec.zero_and)⟩
  have hi : i < g₁.zone.length := by
    rw [hmarked.shape.zone_length]
    rcases findRun_eq_ok hfind with ⟨-, hnone⟩ | ⟨k, z, found, hz, -, ⟨-, hr⟩ | ⟨-, hr⟩⟩
    · cases hnone
    · cases hr
    · cases hr
      exact (List.getElem?_eq_some_iff.mp (findZone_some hz).2.1).1
  have htaken : (g₁.takeFree i (nrPages.setWidth 64)).totalFree =
      g₁.totalFree + -(nrPages.setWidth 64) :=
    sum_nrFree_modify (fun z => sub_eq_add_neg z.nrFree _) hi
  rw [htaken, hmarked.totalFree hfresh, ← sub_eq_add_neg, ← BitVec.ofNat_toNat]

/-- A page that is given back is counted once. -/
theorem Tracks.totalFree_free (h : Tracks g₀ g L) (hready : Ready g₀) (hbounded : Bounded g₀)
    (hmem : (⟨p, nrPages.toNat⟩ : Run) ∈ L.runs) (hcall : freePages g (some p) nrPages = .ok g') :
    g'.totalFree = g.totalFree + BitVec.ofNat 64 nrPages.toNat := by
  have hrun : ∀ q, (Run.mk p nrPages.toNat).Has q → q ≠ 0 ∧
      ∃ (f : PageFrame) (flags : BitVec 32), f.zone ≠ none ∧ g.page[q]? = some (f.fresh flags) := by
    intro q hq
    have hheld : Held L.runs q := ⟨_, hmem, hq⟩
    obtain ⟨f, flags, hf₀, hf⟩ := h.held q hheld
    obtain ⟨hne, -, f', hf', hzone⟩ := L.inStock q hheld
    rw [hf₀] at hf'
    cases hf'
    exact ⟨hne, f, flags, hzone, hf⟩
  rcases freePages_eq_ok (h.shape.indexed hready.indexed) hcall with
    ⟨rfl, hskip⟩ | ⟨hn, f, j, hf, hj, hrel⟩
  · have hzero : nrPages.toNat = 0 := by
      by_contra hpos
      obtain ⟨-, f₀, flags, hzone, hfresh⟩ :=
        hrun p ⟨le_rfl, show p < p + nrPages.toNat by omega⟩
      rcases hskip with hn | ⟨f, hf, hnone⟩
      · exact hpos (congrArg BitVec.toNat hn)
      · rw [hfresh] at hf
        cases hf
        exact hzone hnone
    rw [hzero]
    exact (add_zero _).symm
  · have hpos : nrPages.toNat ≠ 0 := toNat_ne_zero hn
    obtain ⟨hne, -⟩ := hrun p ⟨le_rfl, show p < p + nrPages.toNat by omega⟩
    have hall : givenBack g p nrPages.toNat = nrPages.toNat := by
      refine Nat.count_iff_forall.mpr fun i hi => ?_
      obtain ⟨-, f, flags, -, hfresh⟩ :=
        hrun (p + i) ⟨Nat.le_add_right p i, Nat.add_lt_add_left hi p⟩
      simp [lastUseAt, hfresh, lastUse_fresh]
    rw [hrel.totalFree ((h.shape.bounded hbounded).homes p f j hne hf hj), hall]

end Steps

/-! ## §3  The law -/

/-- The counters are short of what is outstanding and of all that was handed out. -/
theorem History.totalFree {g₀ g : GlobalMemoryManager} {out : List Run} {handed : ℕ}
    (hready : Ready g₀) (hbounded : Bounded g₀) (h : History ExactRequest g₀ g out handed) :
    g.totalFree + BitVec.ofNat 64 (handed + pagesOf out) = g₀.totalFree := by
  induction h with
  | start => exact add_zero _
  | null _ _ hcall ih =>
      rw [(allocPages_none hcall).1]
      exact ih
  | @alloc g g' out handed ty nrPages flags p hrun hadmits hcall ih =>
      obtain ⟨L, rfl, htracks, -⟩ := reach_tracks hready hrun.reach
      rw [htracks.totalFree_alloc hready hbounded hadmits hcall, ← ih]
      have hpages : pagesOf (⟨p, nrPages.toNat⟩ :: L.runs) = nrPages.toNat + pagesOf L.runs := rfl
      rw [hpages]
      simp only [BitVec.ofNat_add]
      ring
  | @free g g' out handed p nrPages hrun hmem hcall ih =>
      obtain ⟨L, rfl, htracks, -⟩ := reach_tracks hready hrun.reach
      rw [htracks.totalFree_free hready hbounded hmem hcall, ← ih, ← pagesOf_erase hmem]
      simp only [BitVec.ofNat_add]
      ring

/-- The global counter is short of the same pages. -/
theorem History.free2mPages {g₀ g : GlobalMemoryManager} {out : List Run} {handed : ℕ}
    (hready : Ready g₀) (hbounded : Bounded g₀) (h : History ExactRequest g₀ g out handed) :
    g.free2mPages + BitVec.ofNat 64 (handed + pagesOf out) = g₀.free2mPages := by
  have htotal := h.totalFree hready hbounded
  have hdrift : g.totalFree - g.free2mPages = g₀.totalFree - g₀.free2mPages := h.reach.calls.drift
  calc g.free2mPages + BitVec.ofNat 64 (handed + pagesOf out)
      = g.totalFree + BitVec.ofNat 64 (handed + pagesOf out) - (g.totalFree - g.free2mPages) := by
        ring
    _ = g₀.free2mPages := by
        rw [htotal, hdrift]
        ring

/-- **Every page ever handed out is lost to the counters**, besides those outstanding. -/
theorem leak_law (buffer : E820Buffer) (endKrnl : ℕ) (s : Boot) (htext : textAddr ≤ endKrnl)
    (hlt : endKrnl < 2 ^ 64) (hrun : initMemory buffer endKrnl = .ok s) (g : GlobalMemoryManager)
    (out : List Run) (handed : ℕ) (h : History ExactRequest s.gmm g out handed) :
    g.totalFree + BitVec.ofNat 64 (handed + pagesOf out) = s.gmm.totalFree ∧
      g.free2mPages + BitVec.ofNat 64 (handed + pagesOf out) = s.gmm.free2mPages := by
  have hend : physToVirtBase ≤ endKrnl := le_trans (Nat.le_add_right _ _) htext
  have hbooted := initMemory_booted hend hlt hrun
  exact ⟨h.totalFree hbooted.ready hbooted.bounded, h.free2mPages hbooted.ready hbooted.bounded⟩

theorem leak_law_smallMachine :
    ∃ g, History ExactRequest (bootOf smallMachine smallImage).gmm g [⟨8, 3⟩] 3 ∧
      g.totalFree + BitVec.ofNat 64 (3 + pagesOf [⟨8, 3⟩]) =
        (bootOf smallMachine smallImage).gmm.totalFree ∧
      g.free2mPages + BitVec.ofNat 64 (3 + pagesOf [⟨8, 3⟩]) =
        (bootOf smallMachine smallImage).gmm.free2mPages := by
  obtain ⟨g, hcall⟩ := smallMachine_allocates
  have hhistory : History ExactRequest (bootOf smallMachine smallImage).gmm g [⟨8, 3⟩] 3 :=
    .alloc .start (Or.inl (by decide)) hcall
  exact ⟨g, hhistory, leak_law smallMachine smallImage _ (by decide) (by decide)
    smallMachine_boots g _ 3 hhistory⟩

/-! ## §4  What the tables depend on -/

theorem Tracks.bitmap_eq {g₀ g g' : GlobalMemoryManager} {L L' : Ledger (Stock g₀)}
    (h : Tracks g₀ g L) (h' : Tracks g₀ g' L') (hsame : ∀ q, Held L.runs q ↔ Held L'.runs q) :
    g.bitmap = g'.bitmap := by
  have hlen : g.bitmap.length = g'.bitmap.length := h.shape.words.trans h'.shape.words.symm
  refine ext_bitAt (by decide) hlen fun q => ?_
  have hset : bitAt g.bitmap q = some true ↔ bitAt g'.bitmap q = some true := by
    rw [h.bits, h'.bits, hsame]
  by_cases hq : q / 64 < g.bitmap.length
  · rcases bitAt_cases hq with hb | hb
    · rw [hb, hset.mp hb]
    · rcases bitAt_cases (hlen ▸ hq) with hb' | hb'
      · rw [hset.mpr hb'] at hb
        cases hb
      · rw [hb, hb']
  · rw [(bitAt_eq_none _ _).mpr (by omega), (bitAt_eq_none _ _).mpr (by omega)]

/-- **The tables depend on what is outstanding**, not on the order of the calls or on calls that
came to nothing: two runs that leave the same pages outstanding leave the same bitmap, the same
zones and, but for the flags of the pages that are out, the same frames. -/
theorem tables_of_outstanding (buffer : E820Buffer) (endKrnl : ℕ) (s : Boot)
    (htext : textAddr ≤ endKrnl) (hlt : endKrnl < 2 ^ 64)
    (hrun : initMemory buffer endKrnl = .ok s) (g g' : GlobalMemoryManager) (out out' : List Run)
    (h : Reach ExactRequest s.gmm g out) (h' : Reach ExactRequest s.gmm g' out')
    (hsame : ∀ q, Held out q ↔ Held out' q) :
    g.bitmap = g'.bitmap ∧ g.zone.map MemoryZone.extent = g'.zone.map MemoryZone.extent ∧
      (∀ q, ¬ Held out q → g.page[q]? = g'.page[q]?) ∧
      ∀ q, Held out q → ∃ (f : PageFrame) (flags flags' : BitVec 32),
        g.page[q]? = some (f.fresh flags) ∧ g'.page[q]? = some (f.fresh flags') := by
  have hend : physToVirtBase ≤ endKrnl := le_trans (Nat.le_add_right _ _) htext
  have hready := (initMemory_booted hend hlt hrun).ready
  obtain ⟨L, rfl, htracks, -⟩ := reach_tracks hready h
  obtain ⟨L', rfl, htracks', -⟩ := reach_tracks hready h'
  refine ⟨htracks.bitmap_eq htracks' hsame, htracks.shape.zones.trans htracks'.shape.zones.symm,
    fun q hq => ?_, fun q hq => ?_⟩
  · rw [htracks.others q hq, htracks'.others q ((not_congr (hsame q)).mp hq)]
  · obtain ⟨f, flags, hf₀, hf⟩ := htracks.held q hq
    obtain ⟨f', flags', hf₀', hf'⟩ := htracks'.held q ((hsame q).mp hq)
    rw [hf₀] at hf₀'
    cases hf₀'
    exact ⟨f, flags, flags', hf, hf'⟩

/-- What was handed out can be given back. -/
theorem Booted.gives_back {buffer : E820Buffer} {endKrnl : ℕ} {s : Boot}
    (hbooted : Booted buffer endKrnl s) {g : GlobalMemoryManager} {p : ℕ} {nrPages : BitVec 32}
    (h : Reach ExactRequest s.gmm g [⟨p, nrPages.toNat⟩]) :
    ∃ g', freePages g (some p) nrPages = .ok g' := by
  obtain ⟨L, hruns, htracks, -⟩ := reach_tracks hbooted.ready h
  refine (htracks.responsive hbooted.bounded).free p nrPages ?_
  rw [hruns]
  exact List.mem_singleton_self _

/-- Three pages handed out and given back. -/
theorem tables_of_outstanding_smallMachine :
    ∃ g, Reach ExactRequest (bootOf smallMachine smallImage).gmm g [] ∧
      g ≠ (bootOf smallMachine smallImage).gmm ∧
      g.bitmap = (bootOf smallMachine smallImage).gmm.bitmap := by
  obtain ⟨g, hcall⟩ := smallMachine_allocates
  have hreach : Reach ExactRequest (bootOf smallMachine smallImage).gmm g [⟨8, 3⟩] :=
    .alloc .start (Or.inl (by decide)) hcall
  have hbooted := initMemory_booted (by decide) (by decide) smallMachine_boots
  obtain ⟨g', hfree⟩ := @Booted.gives_back _ _ _ hbooted g 8 3 hreach
  have hreach' : Reach ExactRequest (bootOf smallMachine smallImage).gmm g' [] :=
    .free hreach List.mem_cons_self hfree
  have hhistory : History ExactRequest (bootOf smallMachine smallImage).gmm g' [] 3 :=
    .free (.alloc .start (Or.inl (by decide)) hcall) List.mem_cons_self hfree
  refine ⟨g', hreach', fun heq => ?_, (tables_of_outstanding smallMachine smallImage _ (by decide)
    (by decide) smallMachine_boots g' _ [] [] hreach' .start fun q => Iff.rfl).1⟩
  have htotal := hhistory.totalFree hbooted.ready hbooted.bounded
  rw [heq] at htotal
  exact absurd (add_eq_left.mp htotal) (by decide)

/-- When all has been given back, the tables are what they were. -/
theorem tables_back {g₀ g : GlobalMemoryManager} (hready : Ready g₀)
    (h : Reach ExactRequest g₀ g []) : g.bitmap = g₀.bitmap ∧ g.page = g₀.page := by
  obtain ⟨L, hnil, htracks, -⟩ := reach_tracks hready h
  have hnone : ∀ q, ¬ Held L.runs q := by
    rw [hnil]
    exact not_held_nil
  exact ⟨htracks.bitmap_eq (tracks_empty g₀) fun q => iff_of_false (hnone q) (not_held_nil q),
    List.ext_getElem? fun q => htracks.others q (hnone q)⟩

/-! ## §5  Pages that nobody can have -/

theorem allocPages_of_short {g : GlobalMemoryManager} {ty : MemoryZoneType}
    {nrPages : BitVec 32} (flags : BitVec 32)
    (h : ∀ z ∈ g.zone, z.type = ty → z.nrFree.toNat < nrPages.toNat) :
    allocPages g ty nrPages flags = .ok (none, g) := by
  unfold allocPages findRun
  rw [findZone_none.mpr h]
  rfl

/-- **A zone starves**: once all pages have been given back, the tables are as they were at the
start, but the one zone lets no request through that is larger than what its counter is left
with. -/
theorem starves (buffer : E820Buffer) (endKrnl : ℕ) (s : Boot) (htext : textAddr ≤ endKrnl)
    (hlt : endKrnl < 2 ^ 64) (hrun : initMemory buffer endKrnl = .ok s) (z : MemoryZone)
    (hone : s.gmm.zone = [z]) (g : GlobalMemoryManager) (handed : ℕ)
    (h : History ExactRequest s.gmm g [] handed) :
    g.bitmap = s.gmm.bitmap ∧ g.page = s.gmm.page ∧
      ∀ ty (nrPages flags : BitVec 32),
        (z.nrFree - BitVec.ofNat 64 handed).toNat < nrPages.toNat →
          allocPages g ty nrPages flags = .ok (none, g) := by
  have hend : physToVirtBase ≤ endKrnl := le_trans (Nat.le_add_right _ _) htext
  have hbooted := initMemory_booted hend hlt hrun
  obtain ⟨hbitmap, hpage⟩ := tables_back hbooted.ready h.reach
  obtain ⟨L, -, htracks, -⟩ := reach_tracks hbooted.ready h.reach
  have hlength := htracks.shape.zone_length
  have htotal := h.totalFree hbooted.ready hbooted.bounded
  rw [hone] at hlength
  obtain ⟨z', hz'⟩ := List.length_eq_one_iff.mp hlength
  have hcount : z'.nrFree = z.nrFree - BitVec.ofNat 64 handed := by
    have hone' : g.totalFree = z'.nrFree := by
      rw [GlobalMemoryManager.totalFree, hz']
      exact add_zero _
    have hstart : s.gmm.totalFree = z.nrFree := by
      rw [GlobalMemoryManager.totalFree, hone]
      exact add_zero _
    have hnothing : pagesOf [] = 0 := rfl
    rw [hone', hstart, hnothing, Nat.add_zero] at htotal
    rw [← htotal]
    ring
  refine ⟨hbitmap, hpage, fun ty nrPages flags hshort => ?_⟩
  refine allocPages_of_short flags fun y hy _ => ?_
  rw [hz', List.mem_singleton] at hy
  rw [hy, hcount]
  exact hshort

/-- On the machine with one zone of 24 pages, 13 pages handed out and given back: a request for 12
pages fails. -/
theorem starves_normalMachine :
    ∃ g, History ExactRequest (bootOf normalMachine smallImage).gmm g [] 13 ∧
      g.bitmap = (bootOf normalMachine smallImage).gmm.bitmap ∧
      allocPages g .zoneNormal 12 pageKernel = .ok (none, g) := by
  have hboots : initMemory normalMachine smallImage = .ok (bootOf normalMachine smallImage) :=
    bootOf_eq (by decide +kernel)
  have hfst : (allocPages (bootOf normalMachine smallImage).gmm .zoneNormal 13 pageKernel).map
      Prod.fst = .ok (some 8) := by
    decide +kernel
  obtain ⟨g, hcall⟩ := exists_of_map_fst hfst
  have hhistory : History ExactRequest (bootOf normalMachine smallImage).gmm g [⟨8, 13⟩] 13 :=
    .alloc .start (Or.inl (by decide)) hcall
  have hbooted := initMemory_booted (by decide) (by decide) hboots
  obtain ⟨g', hfree⟩ := @Booted.gives_back _ _ _ hbooted g 8 13 hhistory.reach
  have hhistory' : History ExactRequest (bootOf normalMachine smallImage).gmm g' [] 13 :=
    .free hhistory List.mem_cons_self hfree
  obtain ⟨hbitmap, -, hshort⟩ := starves normalMachine smallImage _ (by decide) (by decide) hboots
    (spanZone .zoneNormal 8 32) (by decide +kernel) g' 13 hhistory'
  exact ⟨g', hhistory', hbitmap, hshort .zoneNormal 12 pageKernel (by decide)⟩

end Knos.Memory
