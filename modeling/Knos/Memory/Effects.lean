import Knos.Memory.AllocPages
import Mathlib.Data.Nat.Count
import Mathlib.Tactic.Ring
import Mathlib.Data.BitVec

/-!
# What `alloc_pages` and `free_pages` change

One inversion lemma for each step (`markPage`, `freePage`) says everything the
step can do; from it, by induction over the run of pages, `Marked` and `Released`
say what a whole call does to each bit, each frame and each zone counter. All
later invariants are read off these two, and no other module unfolds the code of
the two loops.

Neither loop touches the sizes of the tables, the frames' zone pointers and
numbers, or the zones' limits: `SameShape`.
-/

namespace Knos.Memory

open Knos.Loop Knos.Words

/-! ## §1  What never changes -/

/-- The fields of a frame that no operation writes. -/
def PageFrame.home (f : PageFrame) : Option ℕ × ℕ := (f.zone, f.pfn)

/-- The fields of a zone that no operation writes. -/
def MemoryZone.extent (z : MemoryZone) : ℕ × ℕ × ℕ × MemoryZoneType :=
  (z.totalPages, z.startPfn, z.endPfn, z.type)

structure SameShape (g g' : GlobalMemoryManager) : Prop where
  words : g'.bitmap.length = g.bitmap.length
  frames : g'.page.map PageFrame.home = g.page.map PageFrame.home
  zones : g'.zone.map MemoryZone.extent = g.zone.map MemoryZone.extent
  layout : g'.layout = g.layout

theorem SameShape.refl (g : GlobalMemoryManager) : SameShape g g := ⟨rfl, rfl, rfl, rfl⟩

theorem SameShape.trans {g₁ g₂ g₃ : GlobalMemoryManager} (h : SameShape g₁ g₂)
    (h' : SameShape g₂ g₃) : SameShape g₁ g₃ :=
  ⟨h'.words.trans h.words, h'.frames.trans h.frames, h'.zones.trans h.zones,
    h'.layout.trans h.layout⟩

section Shape

variable {g g' : GlobalMemoryManager}

theorem SameShape.page_length (h : SameShape g g') : g'.page.length = g.page.length := by
  simpa using congrArg List.length h.frames

theorem SameShape.zone_length (h : SameShape g g') : g'.zone.length = g.zone.length := by
  simpa using congrArg List.length h.zones

/-- A frame keeps its zone and number. -/
theorem SameShape.frame (h : SameShape g g') {q : ℕ} {f' : PageFrame}
    (hf : g'.page[q]? = some f') :
    ∃ f, g.page[q]? = some f ∧ f.zone = f'.zone ∧ f.pfn = f'.pfn := by
  have hmap := congrArg (fun l : List (Option ℕ × ℕ) => l[q]?) h.frames
  simp only [List.getElem?_map, hf, Option.map_some] at hmap
  cases hg : g.page[q]? with
  | none =>
      rw [hg] at hmap
      cases hmap
  | some f =>
      rw [hg] at hmap
      have heq := Option.some.inj hmap
      exact ⟨f, rfl, (congrArg Prod.fst heq).symm, (congrArg Prod.snd heq).symm⟩

end Shape

theorem mem_zone_of_extent {zones zones' : List MemoryZone}
    (h : zones'.map MemoryZone.extent = zones.map MemoryZone.extent) {z' : MemoryZone}
    (hz' : z' ∈ zones') : ∃ z ∈ zones, z.extent = z'.extent := by
  have hmem := List.mem_map_of_mem (f := MemoryZone.extent) hz'
  rw [h] at hmem
  obtain ⟨z, hz, heq⟩ := List.mem_map.mp hmem
  exact ⟨z, hz, heq⟩

section Extent

variable {z z' : MemoryZone} (h : z.extent = z'.extent)

include h

theorem totalPages_of_extent : z.totalPages = z'.totalPages := congrArg (fun x => x.1) h

theorem endPfn_of_extent : z.endPfn = z'.endPfn := congrArg (fun x => x.2.2.1) h

theorem contains_of_extent (q : ℕ) : z.Contains q ↔ z'.Contains q := by
  have hstart : z.startPfn = z'.startPfn := congrArg (fun x => x.2.1) h
  unfold MemoryZone.Contains
  rw [hstart, endPfn_of_extent h]

end Extent

/-! ## §2  The updates -/

section Updates

variable (g : GlobalMemoryManager) (j q : ℕ) (n : BitVec 64) (f : PageFrame)

@[simp] theorem takeFree_bitmap : (g.takeFree j n).bitmap = g.bitmap := rfl
@[simp] theorem takeFree_page : (g.takeFree j n).page = g.page := rfl
@[simp] theorem giveFree_bitmap : (g.giveFree j).bitmap = g.bitmap := rfl
@[simp] theorem giveFree_page : (g.giveFree j).page = g.page := rfl
@[simp] theorem setFrame_bitmap : (g.setFrame q f).bitmap = g.bitmap := rfl
@[simp] theorem setFrame_zone : (g.setFrame q f).zone = g.zone := rfl
@[simp] theorem setFrame_page : (g.setFrame q f).page = g.page.set q f := rfl

theorem takeFree_zone (i : ℕ) : (g.takeFree j n).zone[i]? =
    (g.zone[i]?).map (fun z => if i = j then z.subFree n else z) := by
  unfold GlobalMemoryManager.takeFree
  rw [List.getElem?_modify]
  simp [eq_comm]

theorem giveFree_zone (i : ℕ) : (g.giveFree j).zone[i]? =
    (g.zone[i]?).map (fun z => if i = j then z.addFree 1 else z) := by
  unfold GlobalMemoryManager.giveFree
  rw [List.getElem?_modify]
  simp [eq_comm]

@[simp] theorem subFree_zero : MemoryZone.subFree 0#64 = id := by
  funext z
  simp [MemoryZone.subFree]

@[simp] theorem addFree_zero : MemoryZone.addFree 0#64 = id := by
  funext z
  simp [MemoryZone.addFree]

theorem addFree_addFree (m : BitVec 64) :
    MemoryZone.addFree m ∘ MemoryZone.addFree n = MemoryZone.addFree (n + m) := by
  funext z
  simp only [MemoryZone.addFree, Function.comp, BitVec.add_assoc]

theorem subFree_subFree (m : BitVec 64) :
    MemoryZone.subFree m ∘ MemoryZone.subFree n = MemoryZone.subFree (n + m) := by
  funext z
  simp only [MemoryZone.subFree, Function.comp, BitVec.sub_sub]

/-- Counters are not part of the shape. -/
theorem map_extent_modify (zones : List MemoryZone) {update : MemoryZone → MemoryZone}
    (hupdate : ∀ z, (update z).extent = z.extent) :
    (zones.modify j update).map MemoryZone.extent = zones.map MemoryZone.extent := by
  apply List.ext_getElem?
  intro i
  rw [List.getElem?_map, List.getElem?_map, List.getElem?_modify]
  cases zones[i]? with
  | none => rfl
  | some z =>
      by_cases h : j = i
      · simp [h, hupdate]
      · simp [h]

theorem sameShape_takeFree : SameShape g (g.takeFree j n) :=
  ⟨rfl, rfl, map_extent_modify j g.zone fun _ => rfl, rfl⟩

theorem sameShape_giveFree : SameShape g (g.giveFree j) :=
  ⟨rfl, rfl, map_extent_modify j g.zone fun _ => rfl, rfl⟩

theorem sameShape_setFrame {f₀ : PageFrame} (h₀ : g.page[q]? = some f₀) (h : f.home = f₀.home) :
    SameShape g (g.setFrame q f) := by
  refine ⟨rfl, ?_, rfl, rfl⟩
  apply List.ext_getElem?
  intro i
  rw [setFrame_page, List.getElem?_map, List.getElem?_map, List.getElem?_set]
  by_cases hi : q = i
  · subst hi
    obtain ⟨hlt, hget⟩ := List.getElem?_eq_some_iff.mp h₀
    simp [hlt, hget, h]
  · simp [hi]

end Updates

/-! ## §3  Frames that change hands -/

/-- The frame after scenario 1 of `page_init`. -/
def PageFrame.fresh (flags : BitVec 32) (f : PageFrame) : PageFrame :=
  { f with flags := flags ||| pageUsed, refCount := 1 }

/-- The frame after `page_init`. -/
def PageFrame.acquire (flags : BitVec 32) (f : PageFrame) : PageFrame :=
  if f.isUsed then
    if f.flags &&& pageUser ≠ 0#32 ∨ flags &&& pageUser ≠ 0#32 then
      { f with flags := f.flags ||| flags, refCount := f.refCount + 1 }
    else { f with flags := f.flags ||| flags }
  else f.fresh flags

/-- `free_pages` gives this frame back: it is in use, and by nobody else. -/
def PageFrame.lastUse (f : PageFrame) : Bool := f.isUsed && decide (f.refCount.toNat ≤ 1)

/-- The frame after `free_pages`. -/
def PageFrame.release (f : PageFrame) : PageFrame :=
  if f.isUsed then
    if f.refCount.toNat ≤ 1 then { f with refCount := 0, flags := 0 }
    else { f with refCount := f.refCount - 1 }
  else f

theorem isUsed_eq_false {f : PageFrame} : f.isUsed = false ↔ f.flags &&& pageUsed = 0#32 := by
  simp [PageFrame.isUsed]

theorem isUsed_fresh (flags : BitVec 32) (f : PageFrame) : (f.fresh flags).isUsed = true := by
  have hbit : ((flags ||| pageUsed) &&& pageUsed).getLsbD 1 = true := by
    simp [pageUsed]
  unfold PageFrame.isUsed PageFrame.fresh
  rw [bne_iff_ne]
  intro h
  rw [h] at hbit
  cases hbit

@[simp] theorem home_acquire (flags : BitVec 32) (f : PageFrame) :
    (f.acquire flags).home = f.home := by
  unfold PageFrame.acquire
  split
  · split <;> rfl
  · rfl

@[simp] theorem home_release (f : PageFrame) : f.release.home = f.home := by
  unfold PageFrame.release
  split
  · split <;> rfl
  · rfl

/-- Everything `page_init` can do when it returns. -/
theorem pageInit_eq_ok {g g' : GlobalMemoryManager} {i : ℕ} {flags : BitVec 32}
    (h : pageInit g (some i) flags = .ok g') :
    ∃ f j, g.page[i]? = some f ∧ f.zone = some j ∧
      ((f.isUsed = false ∧ j < g.zone.length ∧
          g' = (g.setFrame i (f.acquire flags)).takeFree j 1) ∨
        (f.isUsed = true ∧ g' = g.setFrame i (f.acquire flags))) := by
  unfold pageInit at h
  simp only at h
  cases hf : g.page[i]? with
  | none =>
      rw [hf] at h
      cases h
  | some f =>
      rw [hf] at h
      cases hz : f.zone with
      | none =>
          simp only [hz] at h
          cases h
      | some j =>
          simp only [hz] at h
          refine ⟨f, j, rfl, hz, ?_⟩
          split at h
          next hfree =>
            split at h
            next hj =>
              cases h
              have hunused := isUsed_eq_false.mpr hfree
              exact Or.inl ⟨hunused, hj, by
                simp [PageFrame.acquire, PageFrame.fresh, hunused, hz]⟩
            next => cases h
          next hfree =>
            have hused : f.isUsed = true := by
              cases hb : f.isUsed with
              | true => rfl
              | false => exact absurd (isUsed_eq_false.mp hb) hfree
            right
            refine ⟨hused, ?_⟩
            split at h
            next hshare =>
              cases h
              simp [PageFrame.acquire, hused, hshare, hz]
            next hshare =>
              cases h
              simp only [PageFrame.acquire, hused, if_true, if_neg hshare, hz]

/-! ## §4  The effect of `alloc_pages` on a run -/

/-- Frame `q` belongs to zone `j` and is not in use: `page_init` takes it off the
zone's counter. -/
def freshIn (g : GlobalMemoryManager) (j q : ℕ) : Bool :=
  (g.page[q]?).any fun f => decide (f.zone = some j) && !f.isUsed

/-- How many of the `n` frames from `p` on `page_init` takes off zone `j`. -/
def freshCount (g : GlobalMemoryManager) (j p n : ℕ) : ℕ :=
  Nat.count (fun i => freshIn g j (p + i) = true) n

/-- `g'` is `g` with the `n` pages from `p` on marked by step 3 of `alloc_pages`. -/
structure Marked (flags : BitVec 32) (p n : ℕ) (g g' : GlobalMemoryManager) : Prop where
  shape : SameShape g g'
  bits : ∀ q, bitAt g'.bitmap q = if p ≤ q ∧ q < p + n then some true else bitAt g.bitmap q
  frames : ∀ q, g'.page[q]? =
    if p ≤ q ∧ q < p + n then (g.page[q]?).map (PageFrame.acquire flags) else g.page[q]?
  homes : ∀ q, p ≤ q → q < p + n → ∃ f j, g.page[q]? = some f ∧ f.zone = some j
  zones : ∀ j, g'.zone[j]? =
    (g.zone[j]?).map (MemoryZone.subFree (BitVec.ofNat 64 (freshCount g j p n)))

theorem Marked.none (flags : BitVec 32) (p : ℕ) (g : GlobalMemoryManager) :
    Marked flags p 0 g g where
  shape := SameShape.refl g
  bits := fun q => by rw [if_neg (by omega)]
  frames := fun q => by
    rw [if_neg (by omega)]
  homes := fun q h₁ h₂ => by omega
  zones := fun j => by
    rw [freshCount, Nat.count_zero, subFree_zero, Option.map_id]
    rfl

/-- Everything `markPage` can do when it returns. -/
theorem markPage_eq_ok {g g' : GlobalMemoryManager} {q : ℕ} {flags : BitVec 32}
    (h : markPage flags q g = .ok g') :
    q / 64 < g.bitmap.length ∧ ∃ f j, g.page[q]? = some f ∧ f.zone = some j ∧
      SameShape g g' ∧ g'.bitmap = setBit g.bitmap q ∧
      g'.page = g.page.set q (f.acquire flags) ∧
      (∀ i, g'.zone[i]? = (g.zone[i]?).map
        (MemoryZone.subFree (BitVec.ofNat 64 (if freshIn g i q then 1 else 0)))) := by
  unfold markPage at h
  rw [bind_eq_ok] at h
  obtain ⟨bitmap, hbitmap, h⟩ := h
  obtain ⟨hlt, rfl⟩ := setBitmapBit_eq_ok.mp hbitmap
  obtain ⟨f, j, hf, hj, hcases⟩ := pageInit_eq_ok h
  have hf' : g.page[q]? = some f := hf
  have hfresh : ∀ i, freshIn g i q = (decide (j = i) && !f.isUsed) := by
    intro i
    simp [freshIn, hf', hj]
  refine ⟨hlt, f, j, hf', hj, ?_⟩
  have hset : SameShape g { g with bitmap := setBit g.bitmap q } :=
    ⟨length_setBit _ _, rfl, rfl, rfl⟩
  have hframe := sameShape_setFrame { g with bitmap := setBit g.bitmap q } q (f.acquire flags) hf
    (home_acquire flags f)
  rcases hcases with ⟨hunused, -, rfl⟩ | ⟨hused, rfl⟩
  · refine ⟨(hset.trans hframe).trans (sameShape_takeFree _ _ _), rfl, rfl, fun i => ?_⟩
    rw [takeFree_zone, setFrame_zone, hfresh i]
    by_cases hij : i = j
    · simp [hij, hunused]
    · simp [hij, Ne.symm hij]
  · refine ⟨hset.trans hframe, rfl, rfl, fun i => ?_⟩
    rw [setFrame_zone, hfresh i]
    simp [hused]

theorem freshCount_succ (g : GlobalMemoryManager) (j p n : ℕ) :
    freshCount g j p (n + 1) = freshCount g j p n + if freshIn g j (p + n) then 1 else 0 :=
  Nat.count_succ _ n

/-- One more page. -/
theorem Marked.snoc {flags : BitVec 32} {p n : ℕ} {g g₁ g₂ : GlobalMemoryManager}
    (h : Marked flags p n g g₁) (hstep : markPage flags (p + n) g₁ = .ok g₂) :
    Marked flags p (n + 1) g g₂ := by
  obtain ⟨hlt, f, j, hf, hj, hshape, hbitmap, hpage, hzone⟩ := markPage_eq_ok hstep
  -- the pages marked so far lie before `p + n`, so its frame is still the one in `g`
  have hframe : g.page[p + n]? = some f := by
    have := h.frames (p + n)
    rwa [hf, if_neg (by omega), eq_comm] at this
  have hfresh : ∀ i, freshIn g₁ i (p + n) = freshIn g i (p + n) := by
    intro i
    simp [freshIn, hf, hframe]
  have hlen := (List.getElem?_eq_some_iff.mp hf).1
  refine ⟨h.shape.trans hshape, fun q => ?_, fun q => ?_, fun q h₁ h₂ => ?_, fun i => ?_⟩
  · rw [hbitmap, bitAt_setBit (by omega) hlt, h.bits]
    exact ite_run_succ fun _ => rfl
  · rw [hpage, getElem?_set_of_lt hlen, h.frames]
    exact ite_run_succ fun hq => by rw [hq, hframe, Option.map_some]
  · by_cases hq : q = p + n
    · rw [hq]
      exact ⟨f, j, hframe, hj⟩
    · exact h.homes q h₁ (by omega)
  · rw [hzone i, h.zones i, Option.map_map, hfresh i, freshCount_succ]
    rw [subFree_subFree, BitVec.ofNat_add]

/-- **Step 3 of `alloc_pages`** marks exactly the run. -/
theorem marked_of_forRange {flags : BitVec 32} {p n : ℕ} {g g' : GlobalMemoryManager}
    (h : forRange (markPage flags) p n g = .ok g') : Marked flags p n g g' := by
  exact forRange_invariant (fun n s => Marked flags p n g s)
    (fun n s s' _ hs hstep => hs.snoc hstep) (Marked.none flags p g) h

/-! ## §5  The effect of `free_pages` on a run -/

/-- Frame `q` is used by its last holder: `free_pages` gives it back. -/
def lastUseAt (g : GlobalMemoryManager) (q : ℕ) : Bool := (g.page[q]?).any PageFrame.lastUse

/-- How many of the `n` frames from `p` on `free_pages` gives back. -/
def givenBack (g : GlobalMemoryManager) (p n : ℕ) : ℕ :=
  Nat.count (fun i => lastUseAt g (p + i) = true) n

/-- Every frame records its own number. -/
def Indexed (g : GlobalMemoryManager) : Prop :=
  ∀ (q : ℕ) (f : PageFrame), g.page[q]? = some f → f.pfn = q

theorem SameShape.indexed {g g' : GlobalMemoryManager} (h : SameShape g g') (hg : Indexed g) :
    Indexed g' := by
  intro q f' hf'
  obtain ⟨f, hf, -, hpfn⟩ := h.frame hf'
  rw [← hpfn]
  exact hg q f hf

/-- The reference count that `free_pages` stores. -/
def decRef (r : BitVec 16) : BitVec 16 := if 0 < r then r - 1 else r

/-- A count above 1 is shared: it stays positive. -/
theorem decRef_shared {r : BitVec 16} (h : 1 < r.toNat) :
    (0 < r ∧ 0 < decRef r) ∧ decRef r = r - 1 := by
  have h0 : 0 < r := by bv_omega
  rw [decRef, if_pos h0]
  exact ⟨⟨h0, by bv_omega⟩, rfl⟩

/-- A count of 0 or 1 is a last use: it ends at 0. -/
theorem decRef_last {r : BitVec 16} (h : r.toNat ≤ 1) :
    ¬ (0 < r ∧ 0 < decRef r) ∧ decRef r = 0 := by
  have hzero : decRef r = 0 := by
    unfold decRef
    by_cases h0 : 0 < r
    · rw [if_pos h0]
      bv_omega
    · rw [if_neg h0]
      bv_omega
  rw [hzero]
  exact ⟨fun h => absurd h.2 (by decide), rfl⟩

/-- Everything one turn of `free_pages` can do when it returns. -/
theorem freePage_eq_ok {g g' : GlobalMemoryManager} {j q : ℕ} (h : freePage j q g = .ok g') :
    ∃ f, g.page[q]? = some f ∧
      ((f.isUsed = false ∧ g' = g) ∨
        (f.isUsed = true ∧ f.lastUse = false ∧ g' = g.setFrame q f.release) ∨
        (f.lastUse = true ∧ f.pfn / 64 < g.bitmap.length ∧ j < g.zone.length ∧
          g' = ({ g with bitmap := clearBit g.bitmap f.pfn }.setFrame q f.release).giveFree j)) := by
  unfold freePage at h
  cases hf : g.page[q]? with
  | none =>
      rw [hf] at h
      cases h
  | some f =>
      rw [hf] at h
      refine ⟨f, rfl, ?_⟩
      by_cases hfree : f.flags &&& pageUsed = 0#32
      · simp only [if_pos hfree] at h
        cases h
        exact Or.inl ⟨isUsed_eq_false.mpr hfree, rfl⟩
      · have hused : f.isUsed = true := by
          cases hb : f.isUsed with
          | true => rfl
          | false => exact absurd (isUsed_eq_false.mp hb) hfree
        right
        simp only [if_neg hfree] at h
        change (if 0 < f.refCount ∧ 0 < decRef f.refCount then _ else _) = _ at h
        by_cases hcount : f.refCount.toNat ≤ 1
        · obtain ⟨hlast, hzero⟩ := decRef_last hcount
          rw [if_neg hlast, bind_eq_ok] at h
          obtain ⟨bitmap, hbitmap, h⟩ := h
          obtain ⟨hlt, rfl⟩ := clearBitmapBit_eq_ok.mp hbitmap
          split at h
          next hj =>
            cases h
            have hrelease : f.release = { f with refCount := decRef f.refCount, flags := 0 } := by
              rw [PageFrame.release, if_pos hused, if_pos hcount, hzero]
            rw [hrelease]
            exact Or.inr ⟨by simp [PageFrame.lastUse, hused, hcount], hlt, hj, rfl⟩
          next => cases h
        · obtain ⟨hshared, hdec⟩ := @decRef_shared f.refCount (by omega)
          rw [if_pos hshared] at h
          cases h
          have hrelease : f.release = { f with refCount := decRef f.refCount } := by
            rw [PageFrame.release, if_pos hused, if_neg hcount, hdec]
          rw [hrelease]
          exact Or.inl ⟨hused, by simp [PageFrame.lastUse, hcount], rfl⟩

/-- `g'` is `g` with the `n` pages from `p` on released into zone `j`. -/
structure Released (j p n : ℕ) (g g' : GlobalMemoryManager) : Prop where
  shape : SameShape g g'
  bits : ∀ q, bitAt g'.bitmap q =
    if (p ≤ q ∧ q < p + n) ∧ lastUseAt g q = true then some false else bitAt g.bitmap q
  frames : ∀ q, g'.page[q]? =
    if p ≤ q ∧ q < p + n then (g.page[q]?).map PageFrame.release else g.page[q]?
  zones : ∀ i, g'.zone[i]? =
    if i = j then (g.zone[i]?).map (MemoryZone.addFree (BitVec.ofNat 64 (givenBack g p n)))
    else g.zone[i]?

theorem Released.none (j p : ℕ) (g : GlobalMemoryManager) : Released j p 0 g g where
  shape := SameShape.refl g
  bits := fun q => by rw [if_neg (by omega)]
  frames := fun q => by rw [if_neg (by omega)]
  zones := fun i => by
    rw [givenBack, Nat.count_zero, addFree_zero, Option.map_id]
    simp

theorem givenBack_succ (g : GlobalMemoryManager) (p n : ℕ) :
    givenBack g p (n + 1) = givenBack g p n + if lastUseAt g (p + n) then 1 else 0 :=
  Nat.count_succ _ n

theorem release_of_not_isUsed {f : PageFrame} (h : f.isUsed = false) : f.release = f := by
  simp [PageFrame.release, h]

theorem lastUse_of_not_isUsed {f : PageFrame} (h : f.isUsed = false) : f.lastUse = false := by
  simp [PageFrame.lastUse, h]

/-- The effect of one turn, whichever branch it takes. -/
theorem freePage_effect {g g' : GlobalMemoryManager} {j q : ℕ} (hindex : Indexed g)
    (h : freePage j q g = .ok g') :
    ∃ f, g.page[q]? = some f ∧ SameShape g g' ∧
      (∀ i, bitAt g'.bitmap i =
        if i = q ∧ f.lastUse = true then some false else bitAt g.bitmap i) ∧
      g'.page = g.page.set q f.release ∧
      (∀ i, g'.zone[i]? = if i = j then
        (g.zone[i]?).map (MemoryZone.addFree (BitVec.ofNat 64 (if f.lastUse then 1 else 0)))
        else g.zone[i]?) := by
  obtain ⟨f, hf, hcases⟩ := freePage_eq_ok h
  have hlen := (List.getElem?_eq_some_iff.mp hf).1
  have hget := (List.getElem?_eq_some_iff.mp hf).2
  refine ⟨f, hf, ?_⟩
  rcases hcases with ⟨hunused, rfl⟩ | ⟨hused, hnot, rfl⟩ | ⟨hlast, hlt, hj, rfl⟩
  · rw [release_of_not_isUsed hunused, lastUse_of_not_isUsed hunused]
    refine ⟨SameShape.refl _, fun i => by simp, ?_, fun i => by simp⟩
    rw [← hget, List.set_getElem_self]
  · rw [hnot]
    exact ⟨sameShape_setFrame g q f.release hf (home_release f), fun i => by simp, rfl,
      fun i => by simp⟩
  · have hpfn := hindex q f hf
    rw [hpfn] at hlt ⊢
    have hset : SameShape g { g with bitmap := clearBit g.bitmap q } :=
      ⟨length_clearBit _ _, rfl, rfl, rfl⟩
    refine ⟨(hset.trans (sameShape_setFrame _ q f.release hf (home_release f))).trans
      (sameShape_giveFree _ j), fun i => ?_, rfl, fun i => ?_⟩
    · rw [giveFree_bitmap, setFrame_bitmap, bitAt_clearBit (by omega) hlt]
      simp [hlast]
    · rw [giveFree_zone, setFrame_zone, hlast]
      by_cases hij : i = j
      · simp [hij]
      · simp [hij]

/-- One more page. -/
theorem Released.snoc {j p n : ℕ} {g g₁ g₂ : GlobalMemoryManager} (hindex : Indexed g)
    (h : Released j p n g g₁) (hstep : freePage j (p + n) g₁ = .ok g₂) :
    Released j p (n + 1) g g₂ := by
  obtain ⟨f, hf, hshape, hbits, hpage, hzone⟩ := freePage_effect (h.shape.indexed hindex) hstep
  -- the pages released so far lie before `p + n`, so its frame is still the one in `g`
  have hframe : g.page[p + n]? = some f := by
    have := h.frames (p + n)
    rwa [hf, if_neg (by omega), eq_comm] at this
  have hlast : lastUseAt g (p + n) = f.lastUse := by
    simp [lastUseAt, hframe]
  have hlen := (List.getElem?_eq_some_iff.mp hf).1
  refine ⟨h.shape.trans hshape, fun q => ?_, fun q => ?_, fun i => ?_⟩
  · rw [hbits, h.bits]
    by_cases hq : q = p + n
    · subst hq
      rw [hlast]
      by_cases hl : f.lastUse = true
      · rw [if_pos ⟨rfl, hl⟩, if_pos ⟨by omega, hl⟩]
      · rw [if_neg (fun hc => hl hc.2), if_neg (fun hc => hl hc.2), if_neg (fun hc => hl hc.2)]
    · rw [if_neg (fun hc => hq hc.1)]
      by_cases hin : (p ≤ q ∧ q < p + n) ∧ lastUseAt g q = true
      · rw [if_pos hin, if_pos ⟨by omega, hin.2⟩]
      · rw [if_neg hin, if_neg (fun hc => hin ⟨by omega, hc.2⟩)]
  · rw [hpage, getElem?_set_of_lt hlen, h.frames]
    exact ite_run_succ fun hq => by rw [hq, hframe, Option.map_some]
  · rw [hzone i, h.zones i]
    by_cases hij : i = j
    · rw [if_pos hij, if_pos hij, if_pos hij, Option.map_map, givenBack_succ, hlast,
        addFree_addFree, BitVec.ofNat_add]
    · rw [if_neg hij, if_neg hij, if_neg hij]

/-- **`free_pages`** gives back exactly the frames of the run in their last use. -/
theorem released_of_forRange {j p n : ℕ} {g g' : GlobalMemoryManager} (hindex : Indexed g)
    (h : forRange (freePage j) p n g = .ok g') : Released j p n g g' := by
  exact forRange_invariant (fun n s => Released j p n g s)
    (fun n s s' _ hs hstep => hs.snoc hindex hstep) (Released.none j p g) h

/-- Everything `free_pages` can do when it returns: nothing, or release the run into
the zone of its first frame. -/
theorem freePages_eq_ok {g g' : GlobalMemoryManager} {p : ℕ} {nrPages : BitVec 32}
    (hindex : Indexed g) (h : freePages g (some p) nrPages = .ok g') :
    (g' = g ∧ (nrPages = 0#32 ∨ ∃ f, g.page[p]? = some f ∧ f.zone = none)) ∨
    nrPages ≠ 0#32 ∧
      ∃ f j, g.page[p]? = some f ∧ f.zone = some j ∧ Released j p nrPages.toNat g g' := by
  unfold freePages at h
  simp only at h
  by_cases hn : nrPages = 0#32
  · rw [if_pos hn] at h
    cases h
    exact Or.inl ⟨rfl, Or.inl hn⟩
  · rw [if_neg hn] at h
    cases hf : g.page[p]? with
    | none =>
        rw [hf] at h
        cases h
    | some f =>
        have hpfn := hindex p f hf
        have hlen := (List.getElem?_eq_some_iff.mp hf).1
        rw [hf] at h
        cases hz : f.zone with
        | none =>
            simp only [hz] at h
            cases h
            exact Or.inl ⟨rfl, Or.inr ⟨f, rfl, hz⟩⟩
        | some j =>
            simp only [hz, hpfn] at h
            rw [if_neg (by omega)] at h
            exact Or.inr ⟨hn, f, j, rfl, hz, released_of_forRange hindex h⟩

end Knos.Memory
