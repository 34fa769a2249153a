import Knos.Lib.Ledger
import Knos.Memory.Progress
import Knos.Memory.Windows

/-!
# Runs of `alloc_pages` and `free_pages`

A run starts in the state that `init_memory` left and takes calls of `alloc_pages` and
calls of `free_pages` for allocations still outstanding, in any order (`Reach`). As
long as no window test of the search is misled (§1 of `Windows`), bitmap, flags and
reference counts are three copies of one ledger: `Tracks` says how they follow from
it, and `reach_tracks` that every call is a move of the ledger.
-/

namespace Knos.Memory

open Knos.Loop Knos.Words Knos.Grants

/-! ## §1  Runs of calls -/

/-- A condition on a request, in the state in which it is made. -/
abbrev Admission : Type := GlobalMemoryManager → MemoryZoneType → BitVec 32 → Prop

/-- The states that admitted requests lead to from `g₀`, with the allocations
outstanding, the latest first. -/
inductive Reach (admits : Admission) (g₀ : GlobalMemoryManager) :
    GlobalMemoryManager → List Run → Prop where
  | start : Reach admits g₀ g₀ []
  | null {g g' : GlobalMemoryManager} {out : List Run} {ty : MemoryZoneType}
      {nrPages flags : BitVec 32} (hreach : Reach admits g₀ g out) (hadmits : admits g ty nrPages)
      (hcall : allocPages g ty nrPages flags = .ok (none, g')) : Reach admits g₀ g' out
  | alloc {g g' : GlobalMemoryManager} {out : List Run} {ty : MemoryZoneType}
      {nrPages flags : BitVec 32} {p : ℕ} (hreach : Reach admits g₀ g out)
      (hadmits : admits g ty nrPages)
      (hcall : allocPages g ty nrPages flags = .ok (some p, g')) :
      Reach admits g₀ g' (⟨p, nrPages.toNat⟩ :: out)
  | free {g g' : GlobalMemoryManager} {out : List Run} {p : ℕ} {nrPages : BitVec 32}
      (hreach : Reach admits g₀ g out) (hmem : (⟨p, nrPages.toNat⟩ : Run) ∈ out)
      (hcall : freePages g (some p) nrPages = .ok g') :
      Reach admits g₀ g' (out.erase ⟨p, nrPages.toNat⟩)

theorem Reach.mono {admits admits' : Admission} {g₀ g : GlobalMemoryManager} {out : List Run}
    (hle : ∀ g ty n, admits g ty n → admits' g ty n) (h : Reach admits g₀ g out) :
    Reach admits' g₀ g out := by
  induction h with
  | start => exact .start
  | null _ hadmits hcall ih => exact .null ih (hle _ _ _ hadmits) hcall
  | alloc _ hadmits hcall ih => exact .alloc ih (hle _ _ _ hadmits) hcall
  | free _ hmem hcall ih => exact .free ih hmem hcall

/-! ## §2  The tables as a ledger -/

/-- What a run of calls relies on in the state it starts in: frames know their numbers,
and a frame of a zone whose bit is clear is blank. -/
structure Ready (g : GlobalMemoryManager) : Prop where
  indexed : Indexed g
  blank : ∀ (q : ℕ) (f : PageFrame), g.page[q]? = some f → f.zone ≠ none →
    bitAt g.bitmap q = some false → f.flags = 0 ∧ f.refCount = 0

/-- The pages that can ever be handed out: in a zone, clear at the start, not page 0. -/
def Stock (g₀ : GlobalMemoryManager) (q : ℕ) : Prop :=
  q ≠ 0 ∧ bitAt g₀.bitmap q = some false ∧ ∃ f, g₀.page[q]? = some f ∧ f.zone ≠ none

/-- The state `g` is the state `g₀` with the runs of the ledger handed out. -/
structure Tracks (g₀ g : GlobalMemoryManager) (L : Ledger (Stock g₀)) : Prop where
  shape : SameShape g₀ g
  bits : ∀ q, bitAt g.bitmap q = some true ↔ bitAt g₀.bitmap q = some true ∨ Held L.runs q
  held : ∀ q, Held L.runs q → ∃ f flags, g₀.page[q]? = some f ∧
    g.page[q]? = some (f.fresh flags)
  others : ∀ q, ¬ Held L.runs q → g.page[q]? = g₀.page[q]?

theorem tracks_empty (g₀ : GlobalMemoryManager) : Tracks g₀ g₀ Ledger.empty where
  shape := SameShape.refl g₀
  bits := fun q => ⟨Or.inl, fun h => h.resolve_right (not_held_nil q)⟩
  held := fun q hq => absurd hq (not_held_nil q)
  others := fun _ _ => rfl

section Tracks

variable {g₀ g g' : GlobalMemoryManager} {L : Ledger (Stock g₀)}

/-- A clear bit belongs to a page that nobody holds. -/
theorem Tracks.clear (h : Tracks g₀ g L) {q : ℕ} (hq : bitAt g.bitmap q = some false) :
    bitAt g₀.bitmap q = some false ∧ ¬ Held L.runs q := by
  have hnot : ¬ (bitAt g₀.bitmap q = some true ∨ Held L.runs q) := by
    rw [← h.bits, hq]
    exact fun heq => Bool.noConfusion (Option.some.inj heq)
  have hlt := index_lt_of_bitAt hq
  rw [h.shape.words] at hlt
  exact ⟨(bitAt_cases hlt).resolve_left fun hset => hnot (Or.inl hset),
    fun hheld => hnot (Or.inr hheld)⟩

theorem acquire_of_flags_eq_zero {f : PageFrame} (h : f.flags = 0) (flags : BitVec 32) :
    f.acquire flags = f.fresh flags := by
  have hunused : f.isUsed = false := isUsed_eq_false.mpr (by rw [h]; exact BitVec.zero_and)
  simp [PageFrame.acquire, hunused]

theorem release_fresh {f : PageFrame} (hflags : f.flags = 0) (href : f.refCount = 0)
    (flags : BitVec 32) : (f.fresh flags).release = f := by
  have hcount : (f.fresh flags).refCount.toNat ≤ 1 := Nat.le_refl 1
  rw [PageFrame.release, if_pos (isUsed_fresh flags f), if_pos hcount]
  cases f
  cases hflags
  cases href
  rfl

theorem lastUse_fresh (flags : BitVec 32) (f : PageFrame) : (f.fresh flags).lastUse = true := by
  have hcount : (f.fresh flags).refCount.toNat ≤ 1 := Nat.le_refl 1
  simp [PageFrame.lastUse, isUsed_fresh, hcount]

/-- A clear page of a zone has had the same blank frame since the start. -/
theorem Tracks.blank_frame (h : Tracks g₀ g L) (hready : Ready g₀) {q j : ℕ} {f : PageFrame}
    (hq : bitAt g.bitmap q = some false) (hf : g.page[q]? = some f) (hj : f.zone = some j) :
    g₀.page[q]? = some f ∧ f.zone ≠ none ∧ f.flags = 0 := by
  obtain ⟨hclear₀, hfree⟩ := h.clear hq
  have hf₀ : g₀.page[q]? = some f := by rw [← h.others q hfree, hf]
  have hzone : f.zone ≠ none := by
    rw [hj]
    exact Option.some_ne_none j
  exact ⟨hf₀, hzone, (hready.blank q f hf₀ hzone hclear₀).1⟩

theorem bitAt_of_allClear {bitmap : List Word} {p n q : ℕ} (h : AllClear bitmap p n)
    (hq : (Run.mk p n).Has q) : bitAt bitmap q = some false := by
  have h₁ : p ≤ q := hq.1
  have h₂ : q < p + n := hq.2
  have := h (q - p) (by omega)
  rwa [show p + (q - p) = q from by omega] at this

/-- Marking a run of clear pages grants it. -/
theorem Tracks.grant (h : Tracks g₀ g L) (hready : Ready g₀) {p n : ℕ} {flags : BitVec 32}
    (hp : p ≠ 0) (hclear : AllClear g.bitmap p n) (hmarked : Marked flags p n g g') :
    ∃ hgrant, Tracks g₀ g' (L.grant ⟨p, n⟩ hgrant) := by
  have hframe : ∀ q, (Run.mk p n).Has q → ∃ f, g.page[q]? = some f ∧ g₀.page[q]? = some f ∧
      f.zone ≠ none ∧ f.flags = 0 := by
    intro q hq
    obtain ⟨f, j, hf, hj⟩ := hmarked.homes q hq.1 hq.2
    exact ⟨f, hf, h.blank_frame hready (bitAt_of_allClear hclear hq) hf hj⟩
  have hgrant : ∀ q, (Run.mk p n).Has q → Stock g₀ q ∧ ¬ Held L.runs q := by
    intro q hq
    obtain ⟨hclear₀, hfree⟩ := h.clear (bitAt_of_allClear hclear hq)
    obtain ⟨f, -, hf₀, hzone, -⟩ := hframe q hq
    have hpq : p ≤ q := hq.1
    exact ⟨⟨by omega, hclear₀, f, hf₀, hzone⟩, hfree⟩
  refine ⟨hgrant, h.shape.trans hmarked.shape, fun q => ?_, fun q hq => ?_, fun q hq => ?_⟩
  · show _ ↔ _ ∨ Held (_ :: L.runs) q
    rw [held_cons]
    by_cases hin : (Run.mk p n).Has q
    · have hset := (hmarked.bits q).trans (if_pos hin)
      exact ⟨fun _ => Or.inr (Or.inl hin), fun _ => hset⟩
    · rw [(hmarked.bits q).trans (if_neg hin), h.bits]
      exact or_congr_right ⟨Or.inr, fun hor => hor.resolve_left hin⟩
  · rcases held_cons.mp hq with hin | hheld
    · obtain ⟨f, hf, hf₀, -, hflags⟩ := hframe q hin
      refine ⟨f, flags, hf₀, (hmarked.frames q).trans ((if_pos hin).trans ?_)⟩
      rw [hf, Option.map_some, acquire_of_flags_eq_zero hflags]
    · obtain ⟨f, flags', hf₀, hf⟩ := h.held q hheld
      have hin : ¬ (Run.mk p n).Has q := fun hin => (hgrant q hin).2 hheld
      exact ⟨f, flags', hf₀, (hmarked.frames q).trans ((if_neg hin).trans hf)⟩
  · have hor := (not_congr held_cons).mp hq
    rw [not_or] at hor
    exact (hmarked.frames q).trans ((if_neg hor.1).trans (h.others q hor.2))

/-- Releasing a run of the ledger gives it back. -/
theorem Tracks.giveBack (h : Tracks g₀ g L) (hready : Ready g₀) {j p n : ℕ}
    (hmem : (⟨p, n⟩ : Run) ∈ L.runs) (hrel : Released j p n g g') :
    Tracks g₀ g' (L.giveBack ⟨p, n⟩) := by
  have hrun : ∀ q, (Run.mk p n).Has q → ∃ f flags, g₀.page[q]? = some f ∧
      g.page[q]? = some (f.fresh flags) ∧ f.flags = 0 ∧ f.refCount = 0 ∧
      bitAt g₀.bitmap q = some false := by
    intro q hq
    have hheld : Held L.runs q := ⟨_, hmem, hq⟩
    obtain ⟨f, flags, hf₀, hf⟩ := h.held q hheld
    obtain ⟨-, hclear₀, f', hf', hzone⟩ := L.inStock q hheld
    rw [hf₀] at hf'
    cases hf'
    obtain ⟨hflags, href⟩ := hready.blank q f hf₀ hzone hclear₀
    exact ⟨f, flags, hf₀, hf, hflags, href, hclear₀⟩
  refine ⟨h.shape.trans hrel.shape, fun q => ?_, fun q hq => ?_, fun q hq => ?_⟩
  · rw [L.held_giveBack hmem]
    by_cases hin : (Run.mk p n).Has q
    · obtain ⟨f, flags, -, hf, -, -, hclear₀⟩ := hrun q hin
      have hlast : lastUseAt g q = true := by
        simp [lastUseAt, hf, lastUse_fresh]
      rw [(hrel.bits q).trans (if_pos ⟨hin, hlast⟩), hclear₀]
      simp [hin]
    · rw [(hrel.bits q).trans (if_neg fun hc => hin hc.1), h.bits]
      simp [hin]
  · obtain ⟨hheld, hin⟩ := (L.held_giveBack hmem q).mp hq
    obtain ⟨f, flags, hf₀, hf⟩ := h.held q hheld
    exact ⟨f, flags, hf₀, (hrel.frames q).trans ((if_neg hin).trans hf)⟩
  · rw [L.held_giveBack hmem, not_and_or, not_not] at hq
    by_cases hin : (Run.mk p n).Has q
    · obtain ⟨f, flags, hf₀, hf, hflags, href, -⟩ := hrun q hin
      refine (hrel.frames q).trans ((if_pos hin).trans ?_)
      rw [hf, hf₀, Option.map_some, release_fresh hflags href]
    · exact (hrel.frames q).trans ((if_neg hin).trans (h.others q (hq.resolve_right hin)))

/-- Counters are not part of the ledger. -/
theorem Tracks.takeFree (h : Tracks g₀ g L) (i : ℕ) (n : BitVec 64) :
    Tracks g₀ (g.takeFree i n) L :=
  ⟨h.shape.trans (sameShape_takeFree g i n), h.bits, h.held, h.others⟩

end Tracks

/-! ## §3  Every call is a move of the ledger -/

/-- What `alloc_pages` does when no test is misled: it marks a run of clear pages. -/
theorem alloc_marks {g g' : GlobalMemoryManager} {ty : MemoryZoneType} {nrPages flags : BitVec 32}
    {p : ℕ} (hexact : TestsExact g ty nrPages.toNat)
    (hcall : allocPages g ty nrPages flags = .ok (some p, g')) :
    p ≠ 0 ∧ AllClear g.bitmap p nrPages.toNat ∧
      ∃ i g₁, Marked flags p nrPages.toNat g g₁ ∧ g' = g₁.takeFree i (nrPages.setWidth 64) := by
  obtain ⟨i, g₁, hfind, hloop, hg'⟩ := allocPages_some hcall
  have hp : p ≠ 0 := by
    rcases findRun_eq_ok hfind with ⟨-, h⟩ | ⟨_, _, found, -, -, ⟨-, h⟩ | ⟨hne, h⟩⟩
    · cases h
    · cases h
    · cases h
      exact hne
  refine ⟨hp, ?_, i, g₁, marked_of_forRange hloop, hg'⟩
  by_cases hn : 1 ≤ nrPages.toNat
  · exact findRun_allClear hn hexact hfind
  · rw [show nrPages.toNat = 0 from by omega]
    exact allClear_zero _ _

/-- Giving back an outstanding run. -/
theorem Tracks.free {g₀ g g' : GlobalMemoryManager} {L : Ledger (Stock g₀)} (h : Tracks g₀ g L)
    (hready : Ready g₀) {p : ℕ} {nrPages : BitVec 32}
    (hmem : (⟨p, nrPages.toNat⟩ : Run) ∈ L.runs)
    (hcall : freePages g (some p) nrPages = .ok g') :
    Tracks g₀ g' (L.giveBack ⟨p, nrPages.toNat⟩) := by
  rcases freePages_eq_ok (h.shape.indexed hready.indexed) hcall with
    ⟨rfl, hskip⟩ | ⟨-, f, j, -, -, hrel⟩
  · have hzero : nrPages.toNat = 0 := by
      by_contra hpos
      rcases hskip with hn | ⟨f, hf, hnone⟩
      · exact hpos (congrArg BitVec.toNat hn)
      · -- the first page of the run belongs to a zone
        have hheld : Held L.runs p := ⟨_, hmem, Nat.le_refl p, show p < p + nrPages.toNat by omega⟩
        obtain ⟨f₀, flags, hf₀, hfresh⟩ := h.held p hheld
        obtain ⟨-, -, f₁, hf₁, hzone⟩ := L.inStock p hheld
        rw [hf₀] at hf₁
        cases hf₁
        rw [hfresh] at hf
        cases hf
        exact hzone hnone
    rw [hzero] at hmem ⊢
    exact h.giveBack hready hmem (Released.none 0 p g')
  · exact h.giveBack hready hmem hrel

/-- Requests on which no window test is misled. -/
def ExactRequest : Admission := fun g ty nrPages => TestsExact g ty nrPages.toNat

/-- **The tables refine the ledger**: after any run of calls whose tests are not misled
the state is the ledger's, and the ledger came about by granting and giving back. -/
theorem reach_tracks {g₀ g : GlobalMemoryManager} {out : List Run} (hready : Ready g₀)
    (h : Reach ExactRequest g₀ g out) :
    ∃ L : Ledger (Stock g₀), L.runs = out ∧ Tracks g₀ g L ∧
      Relation.ReflTransGen Ledger.Move Ledger.empty L := by
  induction h with
  | start => exact ⟨Ledger.empty, rfl, tracks_empty g₀, .refl⟩
  | null _ _ hcall ih =>
      rw [(allocPages_none hcall).1]
      exact ih
  | alloc _ hadmits hcall ih =>
      obtain ⟨L, rfl, htracks, hmoves⟩ := ih
      obtain ⟨hp, hclear, i, g₁, hmarked, rfl⟩ := alloc_marks hadmits hcall
      obtain ⟨hgrant, hnext⟩ := htracks.grant hready hp hclear hmarked
      exact ⟨L.grant _ hgrant, rfl, hnext.takeFree i _, hmoves.tail (.grant L _ hgrant)⟩
  | free _ hmem hcall ih =>
      obtain ⟨L, rfl, htracks, hmoves⟩ := ih
      exact ⟨L.giveBack _, rfl, htracks.free hready hmem hcall, hmoves.tail (.giveBack L _ hmem)⟩

/-! ## §4  From `init_memory` on -/

/-- `init_memory` leaves a state that runs can start in. -/
theorem Booted.ready {buffer : E820Buffer} {endKrnl : ℕ} {s : Boot}
    (h : Booted buffer endKrnl s) : Ready s.gmm := by
  refine ⟨h.indexed, fun q f hf hzone hclear => ?_⟩
  obtain ⟨f₀, rfl, hzero, hpos⟩ := h.frames q f hf
  -- the pages of the tables have their bits set
  have htable : ¬ TablePage buffer endKrnl q := by
    intro htable
    rw [(h.bits q).mpr (Or.inr htable)] at hclear
    cases hclear
  rw [if_neg htable] at hzone ⊢
  by_cases hq : q = 0
  · rw [hzero hq]
    exact ⟨rfl, rfl⟩
  · refine ⟨?_, (hpos hq).refCount⟩
    rw [(hpos hq).flags, if_neg hzone]

/-- One to 64 pages, and no zone of the type ends below that. -/
def SmallRequest : Admission := fun g ty nrPages =>
  1 ≤ nrPages.toNat ∧ nrPages.toNat ≤ 64 ∧
    ∀ z ∈ g.zone, z.type = ty → nrPages.toNat ≤ z.endPfn

instance (g : GlobalMemoryManager) (ty : MemoryZoneType) (nrPages : BitVec 32) :
    Decidable (SmallRequest g ty nrPages) :=
  inferInstanceAs (Decidable (_ ∧ _ ∧ _))

/-- A run does not get stuck: small requests return, save for the halt in a zone of more
than `2^31` pages, and outstanding allocations can be given back. -/
structure Responsive (g : GlobalMemoryManager) (out : List Run) : Prop where
  alloc : ∀ ty nrPages flags, SmallRequest g ty nrPages →
    (∃ r, allocPages g ty nrPages flags = .ok r) ∨
      (allocPages g ty nrPages flags = .error .halted ∧ ∃ z ∈ g.zone, 2 ^ 31 < z.totalPages)
  free : ∀ (p : ℕ) (nrPages : BitVec 32), (⟨p, nrPages.toNat⟩ : Run) ∈ out →
    ∃ g', freePages g (some p) nrPages = .ok g'

theorem Tracks.responsive {g₀ g : GlobalMemoryManager} {L : Ledger (Stock g₀)}
    (h : Tracks g₀ g L) (hbounded : Bounded g₀) : Responsive g L.runs := by
  have hb := h.shape.bounded hbounded
  refine ⟨fun ty nrPages flags hsmall => ?_, fun p nrPages hmem => ?_⟩
  · obtain ⟨hn, -, hend⟩ := hsmall
    refine allocPages_ends hb flags hn fun i z hz => ?_
    obtain ⟨-, hget, htype, -⟩ := findZone_some hz
    exact hend z (List.mem_of_getElem? hget) htype
  · refine freePages_returns hb (fun hn => ?_) fun q h₁ h₂ => ?_
    · have hpos : nrPages.toNat ≠ 0 := toNat_ne_zero hn
      exact (L.inStock p ⟨_, hmem, Nat.le_refl p, show p < p + nrPages.toNat by omega⟩).1
    · have hheld : Held L.runs q := ⟨_, hmem, h₁, h₂⟩
      obtain ⟨f, flags, -, hf⟩ := h.held q hheld
      exact ⟨(List.getElem?_eq_some_iff.mp hf).1, index_lt_of_bitAt ((h.bits q).mpr (Or.inr hheld))⟩

/-- **Bitmap, flags and reference counts agree** after any run of small requests. -/
theorem ownership_records_agree (buffer : E820Buffer) (endKrnl : ℕ) (s : Boot)
    (htext : textAddr ≤ endKrnl) (hlt : endKrnl < 2 ^ 64)
    (hrun : initMemory buffer endKrnl = .ok s) (g : GlobalMemoryManager) (out : List Run)
    (h : Reach SmallRequest s.gmm g out) :
    out.Pairwise Apart ∧
    (∀ q, bitAt g.bitmap q = some true ↔ bitAt s.gmm.bitmap q = some true ∨ Held out q) ∧
    (∀ q, Held out q → ∃ f, g.page[q]? = some f ∧ f.isUsed = true ∧ f.refCount = 1) ∧
    (∀ q, ¬ Held out q → g.page[q]? = s.gmm.page[q]?) ∧ Responsive g out := by
  have hend : physToVirtBase ≤ endKrnl := le_trans (Nat.le_add_right _ _) htext
  have hbooted := initMemory_booted hend hlt hrun
  obtain ⟨L, rfl, htracks, -⟩ :=
    reach_tracks hbooted.ready (h.mono fun g ty n hsmall => Or.inl hsmall.2.1)
  refine ⟨L.apart, htracks.bits, fun q hq => ?_, htracks.others,
    htracks.responsive hbooted.bounded⟩
  obtain ⟨f, flags, -, hf⟩ := htracks.held q hq
  exact ⟨f.fresh flags, hf, isUsed_fresh flags f, rfl⟩

/-- Three pages on the machine of 64 MB. -/
theorem smallMachine_allocates :
    ∃ g, allocPages (bootOf smallMachine smallImage).gmm .zoneNormal 3 pageKernel =
      .ok (some 8, g) := by
  have hfst : (allocPages (bootOf smallMachine smallImage).gmm .zoneNormal 3 pageKernel).map
      Prod.fst = .ok (some 8) := by
    decide +kernel
  exact exists_of_map_fst hfst

theorem ownership_records_agree_smallMachine :
    ∃ g, Reach SmallRequest (bootOf smallMachine smallImage).gmm g [⟨8, 3⟩] ∧
      ([⟨8, 3⟩] : List Run).Pairwise Apart ∧
      (∀ q, bitAt g.bitmap q = some true ↔
        bitAt (bootOf smallMachine smallImage).gmm.bitmap q = some true ∨ Held [⟨8, 3⟩] q) ∧
      (∀ q, Held [⟨8, 3⟩] q → ∃ f, g.page[q]? = some f ∧ f.isUsed = true ∧ f.refCount = 1) ∧
      (∀ q, ¬ Held [⟨8, 3⟩] q →
        g.page[q]? = (bootOf smallMachine smallImage).gmm.page[q]?) ∧ Responsive g [⟨8, 3⟩] := by
  obtain ⟨g, hcall⟩ := smallMachine_allocates
  have hreach : Reach SmallRequest (bootOf smallMachine smallImage).gmm g [⟨8, 3⟩] :=
    .alloc .start (by decide +kernel) hcall
  exact ⟨g, hreach, ownership_records_agree smallMachine smallImage _ (by decide) (by decide)
    smallMachine_boots g _ hreach⟩

end Knos.Memory
