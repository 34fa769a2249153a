import Knos.Memory.Counters
import Knos.Memory.Runs

/-!
# Pages shared by reference count

A user page is shared by calling `page_init` on it again, and each holder lets go of
it with `free_pages`. The number of holders is a fact about the sequence of calls
(`Holders`); the frame keeps it modulo `2^16`. `SharedBy` ties the two together, one
lemma per call preserves it, and the law of a whole sequence follows by induction.

Two things end the correspondence of holders and bitmap. `page_init` leaves the bitmap
to its caller, so a page that was given back and then taken again by `page_init` is in
use with a clear bit. And a count that has wrapped to 0 or 1 makes `free_pages` give
back a page that is still held.
-/

namespace Knos.Memory

open Knos.Loop Knos.Words Knos.Grants

/-! ## §1  Sequences of calls -/

/-- A call on a page that is shared: `page_init` with `PAGE_USER` set, or
`free_pages(page, 1)`. -/
inductive ShareOp where
  | acquire (flags : {flags : BitVec 32 // flags &&& pageUser ≠ 0#32})
  | release

def ShareOp.run (q : ℕ) : ShareOp → GlobalMemoryManager → Except Fault GlobalMemoryManager
  | .acquire flags, g => pageInit g (some q) flags.val
  | .release, g => freePages g (some q) 1

/-- The calls one after the other, on page `q`. -/
def runShares (q : ℕ) : List ShareOp → GlobalMemoryManager → Except Fault GlobalMemoryManager
  | [], g => .ok g
  | op :: ops, g => op.run q g >>= runShares q ops

theorem runShares_append (q : ℕ) (ops ops' : List ShareOp) (g : GlobalMemoryManager) :
    runShares q (ops ++ ops') g = runShares q ops g >>= runShares q ops' := by
  induction ops generalizing g with
  | nil => rfl
  | cons op ops ih =>
      show (op.run q g >>= runShares q (ops ++ ops')) =
        (op.run q g >>= runShares q ops) >>= runShares q ops'
      cases op.run q g with
      | error e => rfl
      | ok g' => exact ih g'

/-- After the calls `ops` the page has `k` holders: the allocation is the first, and
releases never outnumber acquisitions. A release by one of `k` holders is made only
when `admits k`. -/
inductive Holders (admits : ℕ → Prop) : List ShareOp → ℕ → Prop where
  | first : Holders admits [] 1
  | acquire {ops : List ShareOp} {k : ℕ} (h : Holders admits ops k)
      (flags : {flags : BitVec 32 // flags &&& pageUser ≠ 0#32}) :
      Holders admits (ops ++ [.acquire flags]) (k + 1)
  | release {ops : List ShareOp} {k : ℕ} (h : Holders admits ops (k + 1))
      (hadmits : admits (k + 1)) : Holders admits (ops ++ [.release]) k

/-- The 16-bit count of `k` holders is 0 or 1 only if they are at most one. -/
def Unwrapped (k : ℕ) : Prop := k % 2 ^ 16 ≤ 1 → k ≤ 1

/-- The number of holders is a function of the calls. -/
theorem Holders.unique {admits : ℕ → Prop} {ops : List ShareOp} {k k' : ℕ}
    (h : Holders admits ops k) (h' : Holders admits ops k') : k = k' := by
  induction h generalizing k' with
  | first =>
      generalize hops : ([] : List ShareOp) = ops at h'
      cases h' with
      | first => rfl
      | acquire _ _ => exact absurd hops (by simp)
      | release _ _ => exact absurd hops (by simp)
  | @acquire ops₁ k₁ _ flags ih =>
      generalize hops : ops₁ ++ [ShareOp.acquire flags] = ops at h'
      cases h' with
      | first => exact absurd hops (by simp)
      | acquire h₂ flags' =>
          obtain ⟨rfl, -⟩ := List.append_inj' hops rfl
          rw [ih h₂]
      | release h₂ _ =>
          obtain ⟨-, hlast⟩ := List.append_inj' hops rfl
          cases hlast
  | @release ops₁ k₁ _ _ ih =>
      generalize hops : ops₁ ++ [ShareOp.release] = ops at h'
      cases h' with
      | first => exact absurd hops (by simp)
      | acquire h₂ flags' =>
          obtain ⟨-, hlast⟩ := List.append_inj' hops rfl
          cases hlast
      | release h₂ _ =>
          obtain ⟨rfl, -⟩ := List.append_inj' hops rfl
          have := ih h₂
          omega

/-! ## §2  The frame of a shared page -/

/-- Page `q` has `k` holders, and its frame counts them. -/
structure SharedBy (q k : ℕ) (g : GlobalMemoryManager) : Prop where
  indexed : Indexed g
  word : q / 64 < g.bitmap.length
  frame : ∃ (f : PageFrame) (j : ℕ), g.page[q]? = some f ∧ f.zone = some j ∧
    j < g.zone.length ∧ f.refCount.toNat = k % 2 ^ 16 ∧
    (0 < k → f.isUsed = true ∧ f.flags &&& pageUser ≠ 0#32) ∧ (k = 0 → f.flags = 0)

/-- Bits of a mask that are set stay set under `|=`. -/
theorem or_and_ne_zero {x m : BitVec 32} (h : x &&& m ≠ 0#32) (y : BitVec 32) :
    (x ||| y) &&& m ≠ 0#32 ∧ (y ||| x) &&& m ≠ 0#32 := by
  have hleft : ∀ z : BitVec 32, (x ||| z) &&& m ≠ 0#32 := by
    intro z hz
    apply h
    rw [and_eq_zero_iff] at hz ⊢
    intro i hi hm
    have hor := hz i hi hm
    rw [BitVec.getLsbD_or, Bool.or_eq_false_iff] at hor
    exact hor.1
  exact ⟨hleft y, by rw [BitVec.or_comm]; exact hleft y⟩

section Frame

variable {f : PageFrame} {flags : BitVec 32}

/-- `page_init` on a user page in use: one more holder. -/
theorem acquire_shared (hused : f.isUsed = true) (huser : f.flags &&& pageUser ≠ 0#32) :
    f.acquire flags = { f with flags := f.flags ||| flags, refCount := f.refCount + 1 } := by
  rw [PageFrame.acquire, if_pos hused, if_pos (Or.inl huser)]

theorem isUsed_or (hused : f.isUsed = true) (r : BitVec 16) :
    ({ f with flags := f.flags ||| flags, refCount := r } : PageFrame).isUsed = true := by
  unfold PageFrame.isUsed at hused ⊢
  rw [bne_iff_ne] at hused ⊢
  exact (or_and_ne_zero hused flags).1

theorem isUsed_of_flags_eq_zero (h : f.flags = 0) : f.isUsed = false :=
  isUsed_eq_false.mpr (by rw [h]; exact BitVec.zero_and)

/-- The frame after one more acquisition counts one more holder. -/
theorem counts_acquire {k : ℕ} (huser : flags &&& pageUser ≠ 0#32)
    (hcount : f.refCount.toNat = k % 2 ^ 16)
    (hheld : 0 < k → f.isUsed = true ∧ f.flags &&& pageUser ≠ 0#32)
    (hfree : k = 0 → f.flags = 0) :
    (f.acquire flags).refCount.toNat = (k + 1) % 2 ^ 16 ∧ (f.acquire flags).isUsed = true ∧
      (f.acquire flags).flags &&& pageUser ≠ 0#32 := by
  rcases Nat.eq_zero_or_pos k with hk | hk
  · have hunused := isUsed_of_flags_eq_zero (hfree hk)
    have hfresh : f.acquire flags = f.fresh flags := by
      simp [PageFrame.acquire, hunused]
    rw [hfresh, hk]
    exact ⟨rfl, isUsed_fresh flags f, (or_and_ne_zero huser pageUsed).1⟩
  · obtain ⟨hused, hflag⟩ := hheld hk
    rw [acquire_shared hused hflag]
    refine ⟨?_, isUsed_or hused _, (or_and_ne_zero hflag flags).1⟩
    show (f.refCount + 1).toNat = _
    rw [BitVec.toNat_add, hcount]
    show (k % 2 ^ 16 + 1) % 2 ^ 16 = _
    omega

end Frame

/-! ## §3  One call -/

section Calls

variable {g : GlobalMemoryManager} {q k : ℕ}

theorem SharedBy.acquire (h : SharedBy q k g) {flags : BitVec 32}
    (huser : flags &&& pageUser ≠ 0#32) :
    ∃ g', pageInit g (some q) flags = .ok g' ∧ SharedBy q (k + 1) g' ∧ g'.bitmap = g.bitmap := by
  obtain ⟨f, j, hf, hj, hlt, hcount, hheld, hfree⟩ := h.frame
  have hlen := (List.getElem?_eq_some_iff.mp hf).1
  have hends := pageInit_ends flags hf fun i hi => by
    rw [hj] at hi
    cases hi
    exact hlt
  obtain ⟨g', hrun⟩ : ∃ g', pageInit g (some q) flags = .ok g' := by
    refine hends.resolve_right fun hnone => ?_
    rw [hj] at hnone
    cases hnone.1
  obtain ⟨hcount', hused', huser'⟩ := counts_acquire huser hcount hheld hfree
  have hshape := sameShape_setFrame g q (f.acquire flags) hf (home_acquire flags f)
  have hzone : (f.acquire flags).zone = some j :=
    (congrArg Prod.fst (home_acquire flags f)).trans hj
  have hset : (g.page.set q (f.acquire flags))[q]? = some (f.acquire flags) := by
    rw [List.getElem?_set_self hlen]
  have hframe : ∀ g₁ : GlobalMemoryManager, SameShape g g₁ →
      g₁.page = g.page.set q (f.acquire flags) → SharedBy q (k + 1) g₁ := by
    intro g₁ hs hpage
    refine ⟨hs.indexed h.indexed, by rw [hs.words]; exact h.word, f.acquire flags, j, ?_, hzone,
      by rw [hs.zone_length]; exact hlt, hcount', fun _ => ⟨hused', huser'⟩, fun h0 => by omega⟩
    rw [hpage, hset]
  obtain ⟨f₁, i, hf₁, -, hcases⟩ := pageInit_eq_ok hrun
  rw [hf] at hf₁
  cases hf₁
  rcases hcases with ⟨-, -, rfl⟩ | ⟨-, rfl⟩
  · exact ⟨_, hrun, hframe _ (hshape.trans (sameShape_takeFree _ _ _)) rfl, rfl⟩
  · exact ⟨_, hrun, hframe _ hshape rfl, rfl⟩

/-- `free_pages(page, 1)` is one turn of its loop. -/
theorem freePages_one {f : PageFrame} {j : ℕ} (hindex : Indexed g) (hf : g.page[q]? = some f)
    (hj : f.zone = some j) : freePages g (some q) 1 = freePage j q g := by
  have hlen := (List.getElem?_eq_some_iff.mp hf).1
  have hpfn := hindex q f hf
  unfold freePages
  simp only [hf, hj, hpfn]
  rw [if_neg (by decide), if_neg (Nat.not_le.mpr hlen)]
  show forRange (freePage j) q 1 g = _
  rw [forRange_succ]
  cases freePage j q g with
  | error e => rfl
  | ok g' => rfl

/-- The frame of `k + 1` holders after one of them has let go. -/
theorem counts_release {f : PageFrame} (hwrap : Unwrapped (k + 1))
    (hcount : f.refCount.toNat = (k + 1) % 2 ^ 16) (hused : f.isUsed = true)
    (huser : f.flags &&& pageUser ≠ 0#32) :
    (f.lastUse = true ↔ k = 0) ∧ f.release.refCount.toNat = k % 2 ^ 16 ∧
      (0 < k → f.release.isUsed = true ∧ f.release.flags &&& pageUser ≠ 0#32) ∧
      (k = 0 → f.release.flags = 0) := by
  have hlast : f.lastUse = true ↔ k = 0 := by
    rw [PageFrame.lastUse, hused, Bool.true_and, decide_eq_true_iff, hcount]
    constructor
    · intro hle
      have := hwrap hle
      omega
    · intro hk
      rw [hk]
      exact Nat.le_refl 1
  by_cases hk : k = 0
  · have hle : f.refCount.toNat ≤ 1 := by
      rw [hcount, hk]
      exact Nat.le_refl 1
    have hrel : f.release = { f with refCount := 0, flags := 0 } := by
      rw [PageFrame.release, if_pos hused, if_pos hle]
    rw [hrel]
    exact ⟨hlast, by rw [hk]; rfl, fun hpos => by omega, fun _ => rfl⟩
  · have hgt : ¬ f.refCount.toNat ≤ 1 := by
      intro hle
      rw [hcount] at hle
      have := hwrap hle
      omega
    have hrel : f.release = { f with refCount := f.refCount - 1 } := by
      rw [PageFrame.release, if_pos hused, if_neg hgt]
    rw [hrel]
    refine ⟨hlast, ?_, fun _ => ⟨hused, huser⟩, fun h0 => absurd h0 hk⟩
    show (f.refCount - 1).toNat = _
    have hone : (1 : BitVec 16).toNat = 1 := rfl
    rw [BitVec.toNat_sub, hone, hcount]
    omega

theorem SharedBy.release (h : SharedBy q (k + 1) g) (hwrap : Unwrapped (k + 1)) :
    ∃ g', freePages g (some q) 1 = .ok g' ∧ SharedBy q k g' ∧
      bitAt g'.bitmap q = if k = 0 then some false else bitAt g.bitmap q := by
  obtain ⟨f, j, hf, hj, hlt, hcount, hheld, -⟩ := h.frame
  obtain ⟨hused, huser⟩ := hheld (Nat.succ_pos k)
  have hlen := (List.getElem?_eq_some_iff.mp hf).1
  have hpfn := h.indexed q f hf
  obtain ⟨g', hrun⟩ := freePage_returns hf (by rw [hpfn]; exact h.word) hlt
  obtain ⟨f₁, hf₁, hshape, hbits, hpage, -⟩ := freePage_effect h.indexed hrun
  rw [hf] at hf₁
  cases hf₁
  obtain ⟨hlast, hcount', hheld', hfree'⟩ := counts_release hwrap hcount hused huser
  refine ⟨g', by rw [freePages_one h.indexed hf hj, hrun], ?_, ?_⟩
  · refine ⟨hshape.indexed h.indexed, by rw [hshape.words]; exact h.word, f.release, j, ?_,
      (congrArg Prod.fst (home_release f)).trans hj, by rw [hshape.zone_length]; exact hlt,
      hcount', hheld', hfree'⟩
    rw [hpage, List.getElem?_set_self hlen]
  · rw [hbits]
    by_cases hk : k = 0
    · rw [if_pos ⟨rfl, hlast.mpr hk⟩, if_pos hk]
    · rw [if_neg fun hc => hk (hlast.mp hc.2), if_neg hk]

end Calls

/-! ## §4  Whole sequences -/

/-- What a sequence of calls leaves: the page has `k` holders, and its bit is set as
long as it has never been without one. -/
structure ShareLaw (admits : ℕ → Prop) (q : ℕ) (ops : List ShareOp) (k : ℕ)
    (g : GlobalMemoryManager) : Prop where
  shared : SharedBy q k g
  bit : bitAt g.bitmap q = some true ↔ ∀ pre, pre <+: ops → ¬ Holders admits pre 0

theorem shareLaw_of_holders {q : ℕ} {g : GlobalMemoryManager} (hstart : SharedBy q 1 g)
    (hbit : bitAt g.bitmap q = some true) {ops : List ShareOp} {k : ℕ}
    (h : Holders Unwrapped ops k) :
    ∃ g', runShares q ops g = .ok g' ∧ ShareLaw Unwrapped q ops k g' := by
  -- a prefix of a longer sequence is the sequence itself or a prefix of the shorter one
  have hsplit : ∀ (ops : List ShareOp) (op : ShareOp) (k : ℕ), Holders Unwrapped (ops ++ [op]) k →
      ((∀ pre, pre <+: ops ++ [op] → ¬ Holders Unwrapped pre 0) ↔
        k ≠ 0 ∧ ∀ pre, pre <+: ops → ¬ Holders Unwrapped pre 0) := by
    intro ops op k hk
    constructor
    · intro hall
      refine ⟨fun h0 => hall _ (List.prefix_refl _) (h0 ▸ hk), fun pre hpre => ?_⟩
      exact hall pre (hpre.trans (List.prefix_append ops [op]))
    · rintro ⟨hne, hall⟩ pre hpre
      rcases List.prefix_concat_iff.mp hpre with rfl | hpre
      · exact fun h0 => hne (hk.unique h0)
      · exact hall pre hpre
  induction h with
  | first =>
      refine ⟨g, rfl, hstart, ?_⟩
      rw [hbit]
      refine ⟨fun _ pre hpre => ?_, fun _ => rfl⟩
      obtain rfl := List.prefix_nil.mp hpre
      exact fun h0 => absurd (Holders.first.unique h0) (by decide)
  | @acquire ops k hops flags ih =>
      obtain ⟨g₁, hrun, hlaw⟩ := ih
      obtain ⟨g₂, hcall, hshared, hbitmap⟩ := hlaw.shared.acquire flags.property
      refine ⟨g₂, ?_, hshared, ?_⟩
      · rw [runShares_append, hrun, ok_bind]
        show ((pageInit g₁ (some q) flags.val) >>= fun g => .ok g) = _
        rw [hcall, ok_bind]
      · rw [hbitmap, hlaw.bit, hsplit ops _ _ (hops.acquire flags)]
        exact ⟨fun hall => ⟨Nat.succ_ne_zero k, hall⟩, fun hall => hall.2⟩
  | @release ops k hops hadmits ih =>
      obtain ⟨g₁, hrun, hlaw⟩ := ih
      obtain ⟨g₂, hcall, hshared, hbitmap⟩ := hlaw.shared.release hadmits
      refine ⟨g₂, ?_, hshared, ?_⟩
      · rw [runShares_append, hrun, ok_bind]
        show ((freePages g₁ (some q) 1) >>= fun g => .ok g) = _
        rw [hcall, ok_bind]
      · rw [hbitmap, hsplit ops _ _ (hops.release hadmits)]
        by_cases hk : k = 0
        · rw [if_pos hk]
          exact ⟨fun h0 => Bool.noConfusion (Option.some.inj h0), fun hall => absurd hk hall.1⟩
        · rw [if_neg hk, hlaw.bit]
          exact ⟨fun hall => ⟨hk, hall⟩, fun hall => hall.2⟩

/-! ## §5  From `alloc_pages` on -/

/-- Marking takes every fresh frame off a zone that exists. -/
theorem zone_lt_of_marked {flags : BitVec 32} {p n : ℕ} {g g' : GlobalMemoryManager}
    (h : forRange (markPage flags) p n g = .ok g') {q : ℕ} {f : PageFrame} {j : ℕ}
    (hp : p ≤ q) (hq : q < p + n) (hf : g.page[q]? = some f) (hunused : f.isUsed = false)
    (hj : f.zone = some j) : j < g.zone.length := by
  have hinv := @forRange_invariant _ _ (markPage flags) n
    (fun i s => Marked flags p i g s ∧ (q < p + i → j < g.zone.length)) p g g' ?_
    ⟨Marked.none flags p g, fun hlt => by omega⟩ h
  · exact hinv.2 hq
  · rintro i s s' - ⟨hmarked, hzone⟩ hstep
    refine ⟨hmarked.snoc hstep, fun hlt => ?_⟩
    by_cases hqi : q < p + i
    · exact hzone hqi
    · have hqeq : p + i = q := by omega
      -- the frame of this turn is still the one in `g`
      have hframe : s.page[q]? = some f := by
        rw [hmarked.frames q, if_neg (by omega), hf]
      unfold markPage at hstep
      rw [bind_eq_ok] at hstep
      obtain ⟨bitmap, -, hinit⟩ := hstep
      rw [hqeq] at hinit
      obtain ⟨f₁, j₁, hf₁, hj₁, hcases⟩ := pageInit_eq_ok hinit
      have hsame : f₁ = f := Option.some.inj (hf₁.symm.trans hframe)
      rw [hsame] at hj₁ hcases
      rcases hcases with ⟨-, hlt₁, -⟩ | ⟨hused, -⟩
      · have : j = j₁ := Option.some.inj (hj.symm.trans hj₁)
        rw [this, ← hmarked.shape.zone_length]
        exact hlt₁
      · rw [hunused] at hused
        cases hused

/-- A page that `alloc_pages` hands out to its first holder. -/
theorem sharedBy_of_alloc {g g' : GlobalMemoryManager} {ty : MemoryZoneType}
    {nrPages flags : BitVec 32} {p q : ℕ} (hindex : Indexed g) (huser : flags &&& pageUser ≠ 0#32)
    (hcall : allocPages g ty nrPages flags = .ok (some p, g'))
    (hq : (Run.mk p nrPages.toNat).Has q)
    (hfirst : ∀ f, g.page[q]? = some f → f.isUsed = false) :
    SharedBy q 1 g' ∧ bitAt g'.bitmap q = some true := by
  obtain ⟨i, g₁, -, hloop, rfl⟩ := allocPages_some hcall
  have hmarked := marked_of_forRange hloop
  obtain ⟨f, j, hf, hj⟩ := hmarked.homes q hq.1 hq.2
  have hunused := hfirst f hf
  have hlt := zone_lt_of_marked hloop hq.1 hq.2 hf hunused hj
  have hshape := hmarked.shape.trans (sameShape_takeFree g₁ i (nrPages.setWidth 64))
  have hbit : bitAt g₁.bitmap q = some true := (hmarked.bits q).trans (if_pos hq)
  have hframe : g₁.page[q]? = some (f.fresh flags) := by
    rw [(hmarked.frames q).trans (if_pos hq), hf, Option.map_some]
    simp [PageFrame.acquire, hunused]
  refine ⟨⟨hshape.indexed hindex, index_lt_of_bitAt hbit, f.fresh flags, j, hframe, hj,
    by rw [hshape.zone_length]; exact hlt, rfl, fun _ => ⟨isUsed_fresh flags f, ?_⟩,
    fun h0 => by omega⟩, hbit⟩
  exact (or_and_ne_zero huser pageUsed).1

/-- **Sharing.** A page handed out with `PAGE_USER` to its first holder, and any
sequence of further acquisitions and releases in which no release sees a wrapped count:
the calls return, the page is in use exactly while it has a holder, it is blank as soon
as it has none, and its bit is set exactly until then. -/
theorem shared_page_law (g g' : GlobalMemoryManager) (ty : MemoryZoneType)
    (nrPages flags : BitVec 32) (p q : ℕ) (hindex : Indexed g)
    (huser : flags &&& pageUser ≠ 0#32)
    (hcall : allocPages g ty nrPages flags = .ok (some p, g'))
    (hq : (Run.mk p nrPages.toNat).Has q)
    (hfirst : ∀ f, g.page[q]? = some f → f.isUsed = false)
    (ops : List ShareOp) (k : ℕ) (hops : Holders Unwrapped ops k) :
    ∃ g'' f, runShares q ops g' = .ok g'' ∧ g''.page[q]? = some f ∧
      (f.isUsed = true ↔ 0 < k) ∧
      (k = 0 → f.flags = 0 ∧ bitAt g''.bitmap q = some false) ∧
      (bitAt g''.bitmap q = some true ↔ ∀ pre, pre <+: ops → ¬ Holders Unwrapped pre 0) := by
  obtain ⟨hstart, hbit⟩ := sharedBy_of_alloc hindex huser hcall hq hfirst
  obtain ⟨g'', hrun, hlaw⟩ := shareLaw_of_holders hstart hbit hops
  obtain ⟨f, j, hf, -, -, -, hheld, hfree⟩ := hlaw.shared.frame
  refine ⟨g'', f, hrun, hf, ⟨fun hused => ?_, fun hk => (hheld hk).1⟩, fun hk => ⟨hfree hk, ?_⟩,
    hlaw.bit⟩
  · by_contra hk
    rw [isUsed_of_flags_eq_zero (hfree (by omega))] at hused
    cases hused
  · -- the sequence itself is a prefix without a holder
    refine (bitAt_cases hlaw.shared.word).resolve_left fun hset => ?_
    exact hlaw.bit.mp hset ops (List.prefix_refl ops) (hk ▸ hops)

/-- `freshState` after `alloc_pages` has handed out its page 1 to a user. -/
theorem freshState_allocates :
    ∃ g', allocPages freshState .zoneDma 1 pageUser = .ok (some 1, g') := by
  have hfst : (allocPages freshState .zoneDma 1 pageUser).map Prod.fst = .ok (some 1) := by
    decide +kernel
  exact exists_of_map_fst hfst

/-- A second holder comes, and both let go. -/
def shareAndRelease : List ShareOp := [.acquire ⟨pageUser, by decide⟩, .release, .release]

theorem holders_shareAndRelease : Holders Unwrapped shareAndRelease 0 :=
  ((Holders.first.acquire ⟨pageUser, by decide⟩).release (by unfold Unwrapped; decide)).release
    (by unfold Unwrapped; decide)

theorem shared_page_law_freshState :
    ∃ g' g'' f, allocPages freshState .zoneDma 1 pageUser = .ok (some 1, g') ∧
      runShares 1 shareAndRelease g' = .ok g'' ∧ g''.page[1]? = some f ∧ f.flags = 0 ∧
      bitAt g''.bitmap 1 = some false := by
  obtain ⟨g', hcall⟩ := freshState_allocates
  obtain ⟨g'', f, hrun, hf, -, hfree, -⟩ := shared_page_law freshState g' .zoneDma 1 pageUser 1 1
    consistent_freshState.indexed (by decide) hcall ⟨by decide, by decide⟩
    (fun f hf => consistent_freshState.unused _ (List.mem_singleton.mpr rfl) 1 f
      ⟨by decide, by decide⟩ (by decide) hf)
    shareAndRelease 0 holders_shareAndRelease
  exact ⟨g', g'', f, hcall, hrun, hf, hfree rfl⟩

/-- The page is given back and taken again by `page_init`: it has a holder, it is in
use, and its bit is clear. -/
theorem reacquired_page_has_clear_bit :
    Holders (fun _ => True) [.release, .acquire ⟨pageUser, by decide⟩] 1 ∧
    ∃ g' g'' f, allocPages freshState .zoneDma 1 pageUser = .ok (some 1, g') ∧
      runShares 1 [.release, .acquire ⟨pageUser, by decide⟩] g' = .ok g'' ∧
      g''.page[1]? = some f ∧ f.isUsed = true ∧ bitAt g''.bitmap 1 = some false := by
  refine ⟨(Holders.first.release trivial).acquire _, ?_⟩
  have hend : ((allocPages freshState .zoneDma 1 pageUser).bind fun r =>
      (runShares 1 [.release, .acquire ⟨pageUser, by decide⟩] r.2).map fun g =>
        (r.1, (g.page[1]?).map PageFrame.isUsed, bitAt g.bitmap 1)) =
      .ok (some 1, some true, some false) := by
    decide +kernel
  cases hcall : allocPages freshState .zoneDma 1 pageUser with
  | error e =>
      rw [hcall] at hend
      cases hend
  | ok r =>
      obtain ⟨page, g'⟩ := r
      rw [hcall] at hend
      simp only [Except.bind] at hend
      cases hrun : runShares 1 [.release, .acquire ⟨pageUser, by decide⟩] g' with
      | error e =>
          rw [hrun] at hend
          cases hend
      | ok g'' =>
          rw [hrun] at hend
          simp only [Except.map, Except.ok.injEq, Prod.mk.injEq, Option.map_eq_some_iff] at hend
          obtain ⟨rfl, ⟨f, hf, hused⟩, hbit⟩ := hend
          exact ⟨g', g'', f, rfl, hrun, hf, hused, hbit⟩

end Knos.Memory
