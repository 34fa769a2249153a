import Knos.Lib.JumpSearch
import Knos.Memory.AllocPages

/-!
# The search of `alloc_pages`

Each turn of the loop tests a window of `n` pages at the current bit in one of
three ways. All three read a prefix of the window and nothing else: `seen n b`
bits from `b` on. Up to `n = 64` that is the whole window; beyond, the aligned
test forgets `n % 64` pages and the straddling test forgets every whole word
after the second. A failed test jumps by `jump n b ≤ n`.

So the loop is a search by jumps (`searchBody_searches`), and the two questions
about it separate: what an accepted window guarantees, which is about `seen`, and
which runs are missed, which is about `jump`.
-/

namespace Knos.Memory

open Knos.Loop Knos.Words Knos.JumpSearch

/-! ## §1  What a window test reads, and how far a failed one jumps -/

/-- How many bits of the window at `b` the test for `n` pages looks at. -/
def seen (n b : ℕ) : ℕ :=
  if 64 ≤ n ∧ b % 64 = 0 then n / 64 * 64
  else if n ≤ 64 - b % 64 then n
  else (64 - b % 64) + (n - (64 - b % 64)) % 64

/-- The last bitmap word that the test reads when it passes. -/
def lastWord (n b : ℕ) : ℕ :=
  if 64 ≤ n ∧ b % 64 = 0 then b / 64 + n / 64 - 1
  else if n ≤ 64 - b % 64 then b / 64
  else b / 64 + 1

/-- How far the search moves on after a failed test. -/
def jump (n b : ℕ) : ℕ :=
  if 64 ≤ n ∧ b % 64 = 0 then n / 64 * 64
  else if n ≤ 64 - b % 64 then n
  else 64 - b % 64

def nextProbe (n b : ℕ) : ℕ := b + jump n b

/-- The test for `n` pages at `b` accepts. -/
def Passes (bitmap : List Word) (n b : ℕ) : Prop :=
  AllClear bitmap b (seen n b) ∧ lastWord n b < bitmap.length

instance (bitmap : List Word) (n b : ℕ) : Decidable (Passes bitmap n b) :=
  inferInstanceAs (Decidable (_ ∧ _))

theorem seen_le (n b : ℕ) : seen n b ≤ n := by
  unfold seen
  split
  · omega
  · split <;> omega

theorem seen_pos {n : ℕ} (hn : 1 ≤ n) (b : ℕ) : 0 < seen n b := by
  unfold seen
  split
  · omega
  · split <;> omega

/-- Up to 64 pages the tests look at the whole window. -/
theorem seen_eq {n : ℕ} (h : n ≤ 64) (b : ℕ) : seen n b = n := by
  unfold seen
  split
  · omega
  · split <;> omega

theorem jump_le (n b : ℕ) : jump n b ≤ n := by
  unfold jump
  split
  · omega
  · split <;> omega

theorem jump_pos {n : ℕ} (hn : 1 ≤ n) (b : ℕ) : 0 < jump n b := by
  unfold jump
  split
  · omega
  · split <;> omega

theorem lt_nextProbe {n : ℕ} (hn : 1 ≤ n) (b : ℕ) : b < nextProbe n b :=
  Nat.lt_add_of_pos_right (jump_pos hn b)

theorem nextProbe_le (n b : ℕ) : nextProbe n b ≤ b + n :=
  Nat.add_le_add_left (jump_le n b) b

/-- The words read belong to the window. -/
theorem lastWord_le {n : ℕ} (hn : 1 ≤ n) (b : ℕ) : lastWord n b ≤ (b + n - 1) / 64 := by
  unfold lastWord
  split
  · omega
  · split <;> omega

theorem div_le_lastWord {n : ℕ} (b : ℕ) : b / 64 ≤ lastWord n b := by
  unfold lastWord
  split
  · omega
  · split <;> omega

/-- A window of clear bits is accepted, whatever its length. -/
theorem passes_of_allClear {bitmap : List Word} {n b : ℕ} (hn : 1 ≤ n)
    (h : AllClear bitmap b n) : Passes bitmap n b := by
  refine ⟨h.mono (seen_le n b), ?_⟩
  have hlast := index_lt_of_bitAt (h (n - 1) (by omega))
  have := lastWord_le hn b
  rw [show b + (n - 1) = b + n - 1 from by omega] at hlast
  omega

/-- Up to 64 pages an accepted window is clear. -/
theorem Passes.allClear {bitmap : List Word} {n b : ℕ} (h : Passes bitmap n b)
    (hn : n ≤ 64) : AllClear bitmap b n := by
  have := h.1
  rwa [seen_eq hn] at this

/-! ## §2  The three window tests -/

theorem wordsZero_returns {bitmap : List Word} : ∀ {k i : ℕ}, i + k ≤ bitmap.length →
    ∃ r, wordsZero bitmap i k = .ok r := by
  intro k
  induction k with
  | zero => exact fun _ => ⟨true, rfl⟩
  | succ k ih =>
      intro i hi
      have hget : bitmap[i]? = some bitmap[i] := List.getElem?_eq_getElem (by omega)
      rw [wordsZero, readWord_eq_ok.mpr hget, ok_bind]
      split
      · exact ⟨false, rfl⟩
      · exact ih (by omega)

/-- The word loop decides whether all its bits are clear. -/
theorem wordsZero_eq_ok {bitmap : List Word} {r : Bool} : ∀ {k i : ℕ},
    wordsZero bitmap i k = .ok r → (r = true ↔ AllClear bitmap (64 * i) (64 * k)) := by
  intro k
  induction k with
  | zero =>
      intro i h
      cases h
      exact ⟨fun _ => allClear_zero bitmap (64 * i), fun _ => rfl⟩
  | succ k ih =>
      intro i h
      rw [wordsZero, bind_eq_ok] at h
      obtain ⟨x, hx, h⟩ := h
      have hword := word_test (by omega) (readWord_eq_ok.mp hx)
      rw [show 64 * (k + 1) = 64 + 64 * k from by omega, allClear_add, ← hword,
        show 64 * i + 64 = 64 * (i + 1) from by omega]
      by_cases hzero : x = 0#64
      · rw [if_neg (by simpa using hzero)] at h
        rw [ih h]
        simp [hzero]
      · rw [if_pos hzero] at h
        cases h
        simp [hzero]

theorem readWord_eq_error {bitmap : List Word} {i : ℕ} {e : Fault}
    (h : readWord bitmap i = .error e) : ∃ i, e = .outOfBounds .bitmap i := by
  unfold readWord at h
  split at h
  · cases h
  · cases h
    exact ⟨i, rfl⟩

theorem wordsZero_error {bitmap : List Word} {e : Fault} : ∀ {k i : ℕ},
    wordsZero bitmap i k = .error e → ∃ i, e = .outOfBounds .bitmap i := by
  intro k
  induction k with
  | zero =>
      intro i h
      cases h
  | succ k ih =>
      intro i h
      rcases bind_eq_error h with h | ⟨x, -, h⟩
      · exact readWord_eq_error h
      · split at h
        · cases h
        · exact ih h

/-- The single-word test. -/
theorem oneWord_test {bitmap : List Word} {n b : ℕ} {x : Word} (hn : n ≤ 64 - b % 64)
    (hlt : n < 64) (hx : bitmap[b / 64]? = some x) :
    x &&& ((shl64 1#64 n - 1#64) <<< (b % 64)) = 0#64 ↔ AllClear bitmap b n := by
  have h := window_test hx hlt (by omega : b % 64 + n ≤ 64)
  rw [Nat.div_add_mod] at h
  rw [shl64, Nat.mod_eq_of_lt hlt, h]

/-- The straddling test: the rest of the first word, then `(n - r) % 64` bits. -/
theorem twoWord_test {bitmap : List Word} {n b : ℕ} {x y : Word} (hoff : b % 64 ≠ 0)
    (hx : bitmap[b / 64]? = some x) (hy : bitmap[b / 64 + 1]? = some y) :
    (x &&& ((shl64 1#64 (64 - b % 64) - 1#64) <<< (b % 64)) = 0#64 ∧
      y &&& (shl64 1#64 (n - (64 - b % 64)) - 1#64) = 0#64) ↔
    AllClear bitmap b (64 - b % 64 + (n - (64 - b % 64)) % 64) := by
  have hmod : (n - (64 - b % 64)) % 64 < 64 := Nat.mod_lt _ (by omega)
  have hhigh := @window_test 64 bitmap _ 0 _ y hy hmod (by omega)
  rw [BitVec.shiftLeft_zero, Nat.add_zero,
    show 64 * (b / 64 + 1) = b + (64 - b % 64) from by omega] at hhigh
  rw [oneWord_test (Nat.le_refl _) (by omega) hx, shl64, hhigh, allClear_add]

/-- The aligned test is about whole words. -/
theorem passes_aligned {bitmap : List Word} {n b : ℕ} (haligned : 64 ≤ n ∧ b % 64 = 0) :
    Passes bitmap n b ↔ AllClear bitmap b (n / 64 * 64) := by
  unfold Passes seen lastWord
  rw [if_pos haligned, if_pos haligned]
  refine ⟨fun h => h.1, fun h => ⟨h, ?_⟩⟩
  have := index_lt_of_bitAt (h (n / 64 * 64 - 1) (by omega))
  omega

section Masks

variable {bitmap : List Word} {n b : ℕ} {x : Word} (haligned : ¬ (64 ≤ n ∧ b % 64 = 0))
  (hx : bitmap[b / 64]? = some x)

include haligned hx

theorem passes_oneWord (hone : n ≤ 64 - b % 64) :
    Passes bitmap n b ↔ x &&& ((shl64 1#64 n - 1#64) <<< (b % 64)) = 0#64 := by
  rw [oneWord_test hone (by omega) hx]
  unfold Passes seen lastWord
  rw [if_neg haligned, if_pos hone, if_neg haligned, if_pos hone]
  exact ⟨fun h => h.1, fun h => ⟨h, (List.getElem?_eq_some_iff.mp hx).1⟩⟩

variable (hone : ¬ n ≤ 64 - b % 64)

include hone

/-- A window that straddles two words passes only if its part in the first does. -/
theorem passes_low (h : Passes bitmap n b) :
    x &&& ((shl64 1#64 (64 - b % 64) - 1#64) <<< (b % 64)) = 0#64 := by
  have hclear := h.1
  rw [seen, if_neg haligned, if_neg hone, allClear_add] at hclear
  exact (oneWord_test (Nat.le_refl _) (by omega) hx).mpr hclear.1

theorem passes_twoWords {y : Word} (hy : bitmap[b / 64 + 1]? = some y) :
    Passes bitmap n b ↔ x &&& ((shl64 1#64 (64 - b % 64) - 1#64) <<< (b % 64)) = 0#64 ∧
      y &&& (shl64 1#64 (n - (64 - b % 64)) - 1#64) = 0#64 := by
  rw [twoWord_test (by omega) hx hy]
  unfold Passes seen lastWord
  rw [if_neg haligned, if_neg hone, if_neg haligned, if_neg hone]
  exact ⟨fun h => h.1, fun h => ⟨h, (List.getElem?_eq_some_iff.mp hy).1⟩⟩

end Masks

/-! ## §3  The loop is a search by jumps -/

/-- A turn inside the limit that does not fault either leaves with `b`, and the
test passes, or jumps, and it does not. -/
theorem searchBody_cases {bitmap : List Word} {n limit b : ℕ} {t : Turn ℕ (Option ℕ)}
    (hb : b ≤ limit) (h : searchBody bitmap n limit b = .ok t) :
    (t = .leave (some b) ∧ Passes bitmap n b) ∨
    (t = .again (nextProbe n b) ∧ ¬ Passes bitmap n b) := by
  unfold searchBody at h
  rw [if_pos hb] at h
  unfold nextProbe jump
  by_cases haligned : 64 ≤ n ∧ b % 64 = 0
  · rw [if_pos haligned, bind_eq_ok] at h
    obtain ⟨found, hfound, h⟩ := h
    have hclear := wordsZero_eq_ok hfound
    rw [show 64 * (b / 64) = b from by omega, show 64 * (n / 64) = n / 64 * 64 from by omega]
      at hclear
    rw [if_pos haligned, passes_aligned haligned]
    cases found with
    | true =>
        cases h
        exact Or.inl ⟨rfl, hclear.mp rfl⟩
    | false =>
        cases h
        exact Or.inr ⟨rfl, fun hc => Bool.noConfusion (hclear.mpr hc)⟩
  · rw [if_neg haligned] at h ⊢
    by_cases hone : n ≤ 64 - b % 64
    · rw [if_pos hone, bind_eq_ok] at h
      obtain ⟨x, hx, h⟩ := h
      rw [if_pos hone, passes_oneWord haligned (readWord_eq_ok.mp hx) hone]
      split at h
      next hzero =>
        cases h
        exact Or.inl ⟨rfl, hzero⟩
      next hzero =>
        cases h
        exact Or.inr ⟨rfl, hzero⟩
    · rw [if_neg hone, bind_eq_ok] at h
      obtain ⟨x, hx, h⟩ := h
      have hget := readWord_eq_ok.mp hx
      rw [if_neg hone]
      split at h
      next hlow =>
        rw [bind_eq_ok] at h
        obtain ⟨y, hy, h⟩ := h
        rw [passes_twoWords haligned hget hone (readWord_eq_ok.mp hy)]
        split at h
        next hhigh =>
          cases h
          exact Or.inl ⟨rfl, hlow, hhigh⟩
        next hhigh =>
          cases h
          exact Or.inr ⟨rfl, fun hpass => hhigh hpass.2⟩
      next hlow =>
        cases h
        exact Or.inr ⟨rfl, fun hpass => hlow (passes_low haligned hget hone hpass)⟩

theorem searchBody_searches (n : ℕ) (bitmap : List Word) (limit : ℕ) :
    Searches (searchBody bitmap n limit) (nextProbe n) (Passes bitmap n) limit where
  beyond := by
    intro b hb
    unfold searchBody
    rw [if_neg (by omega)]
  leave := by
    intro b r hb h
    rcases searchBody_cases hb h with ⟨ht, hpass⟩ | ⟨ht, -⟩
    · cases ht
      exact ⟨rfl, hpass⟩
    · cases ht
  again := by
    intro b b' hb h
    rcases searchBody_cases hb h with ⟨ht, -⟩ | ⟨ht, hpass⟩
    · cases ht
    · cases ht
      exact ⟨rfl, hpass⟩

/-- A turn whose words exist does not fault. -/
theorem searchBody_returns {bitmap : List Word} {n limit b : ℕ}
    (h : lastWord n b < bitmap.length) : ∃ t, searchBody bitmap n limit b = .ok t := by
  have hfirst := List.getElem?_eq_getElem (Nat.lt_of_le_of_lt (@div_le_lastWord n b) h)
  unfold searchBody
  split
  · by_cases haligned : 64 ≤ n ∧ b % 64 = 0
    · rw [if_pos haligned]
      have hlen : b / 64 + n / 64 ≤ bitmap.length := by
        unfold lastWord at h
        rw [if_pos haligned] at h
        omega
      obtain ⟨r, hr⟩ := wordsZero_returns hlen
      simp only [hr, ok_bind]
      split <;> exact ⟨_, rfl⟩
    · rw [if_neg haligned]
      by_cases hone : n ≤ 64 - b % 64
      · simp only [if_pos hone, readWord_eq_ok.mpr hfirst, ok_bind]
        split <;> exact ⟨_, rfl⟩
      · have hlen : b / 64 + 1 < bitmap.length := by
          unfold lastWord at h
          rwa [if_neg haligned, if_neg hone] at h
        have hsecond := readWord_eq_ok.mpr (List.getElem?_eq_getElem hlen)
        simp only [if_neg hone, readWord_eq_ok.mpr hfirst, ok_bind, hsecond]
        split
        · split <;> exact ⟨_, rfl⟩
        · exact ⟨_, rfl⟩
  · exact ⟨_, rfl⟩

/-- A turn faults only where it reads outside the bitmap. -/
theorem searchBody_error {bitmap : List Word} {n limit b : ℕ} {e : Fault}
    (h : searchBody bitmap n limit b = .error e) : ∃ i, e = .outOfBounds .bitmap i := by
  unfold searchBody at h
  split at h
  · simp only at h
    split at h
    · rcases bind_eq_error h with h | ⟨found, -, h⟩
      · exact wordsZero_error h
      · split at h <;> cases h
    · split at h
      · rcases bind_eq_error h with h | ⟨x, -, h⟩
        · exact readWord_eq_error h
        · split at h <;> cases h
      · rcases bind_eq_error h with h | ⟨x, -, h⟩
        · exact readWord_eq_error h
        · split at h
          · rcases bind_eq_error h with h | ⟨y, -, h⟩
            · exact readWord_eq_error h
            · split at h <;> cases h
          · cases h
  · cases h

/-- A turn that goes on has read word `b / 64`. -/
theorem searchBody_again_lt {bitmap : List Word} {n limit b b' : ℕ}
    (h : searchBody bitmap n limit b = .ok (.again b')) : b / 64 < bitmap.length := by
  have hread : ∀ {i : ℕ} {x : Word}, readWord bitmap i = .ok x → i < bitmap.length :=
    fun h => (List.getElem?_eq_some_iff.mp (readWord_eq_ok.mp h)).1
  unfold searchBody at h
  split at h
  · simp only at h
    split at h
    next haligned =>
      rw [bind_eq_ok] at h
      obtain ⟨found, hfound, -⟩ := h
      obtain ⟨k, hk⟩ : ∃ k, n / 64 = k + 1 := ⟨n / 64 - 1, by omega⟩
      rw [hk, wordsZero, bind_eq_ok] at hfound
      obtain ⟨x, hx, -⟩ := hfound
      exact hread hx
    next =>
      split at h
      · rw [bind_eq_ok] at h
        obtain ⟨x, hx, -⟩ := h
        exact hread hx
      · rw [bind_eq_ok] at h
        obtain ⟨x, hx, -⟩ := h
        exact hread hx
  · cases h

/-! ## §4  The search over a zone -/

/-- The last position the loop condition admits. -/
def searchLimit (zone : MemoryZone) (n : ℕ) : ℕ := sub64 zone.endPfn n

/-- The fuel of the model is never what ends the search. -/
theorem searchZone_ne_unfinished (bitmap : List Word) (zone : MemoryZone) {n : ℕ} (hn : 1 ≤ n) :
    searchZone bitmap zone n ≠ .error .unfinished := by
  refine whileLoop_ne_stuck (fun b => 64 * bitmap.length - b) ?_ ?_ (by omega)
  · intro b h
    obtain ⟨i, hi⟩ := searchBody_error h
    cases hi
  · intro b b' h
    have hlt := searchBody_again_lt h
    have hb : b ≤ sub64 zone.endPfn n := by
      by_contra hlim
      rw [(searchBody_searches n bitmap _).beyond b (by omega)] at h
      cases h
    obtain ⟨rfl, -⟩ := (searchBody_searches n bitmap _).again b b' hb h
    have := lt_nextProbe hn b
    omega

/-- What the search finds is the first probed window whose test passes. -/
theorem searchZone_some {bitmap : List Word} {zone : MemoryZone} {n b : ℕ} (hn : 1 ≤ n)
    (h : searchZone bitmap zone n = .ok (some b)) :
    b ≤ searchLimit zone n ∧ FirstHit (nextProbe n) (Passes bitmap n) zone.startPfn b :=
  (search_sound (lt_nextProbe hn) (searchBody_searches n bitmap _) h).1 b rfl

/-- A search that finds nothing has probed without success up to its limit. -/
theorem searchZone_none {bitmap : List Word} {zone : MemoryZone} {n : ℕ} (hn : 1 ≤ n)
    (h : searchZone bitmap zone n = .ok none) {b : ℕ}
    (hb : Probed (nextProbe n) zone.startPfn b) (hlim : b ≤ searchLimit zone n) :
    ¬ Passes bitmap n b :=
  (search_sound (lt_nextProbe hn) (searchBody_searches n bitmap _) h).2 rfl b hb hlim

/-- What a test reads lies at or before the position it jumps to. -/
theorem lastWord_le_nextProbe (n b : ℕ) : lastWord n b ≤ nextProbe n b / 64 := by
  unfold lastWord nextProbe jump
  split
  · omega
  · split <;> omega

/-- Conversely the search finds the first hit: the tests before it fault only if
it would, since they read earlier words. -/
theorem searchZone_finds {bitmap : List Word} {zone : MemoryZone} {n b : ℕ} (hn : 1 ≤ n)
    (hb : FirstHit (nextProbe n) (Passes bitmap n) zone.startPfn b)
    (hlim : b ≤ searchLimit zone n) : searchZone bitmap zone n = .ok (some b) := by
  have hlast : lastWord n b < bitmap.length := hb.hit.2
  have hdiv := @div_le_lastWord n b
  refine search_finds (lt_nextProbe hn) (searchBody_searches n bitmap _) hb hlim ?_ (by omega)
  intro c hc hcb
  apply searchBody_returns
  rcases hc.le_or_next_le (lt_nextProbe hn) hb.probed with hle | hle
  · rwa [show c = b from by omega]
  · have h₁ := lastWord_le_nextProbe n c
    have h₂ : nextProbe n c / 64 ≤ b / 64 := Nat.div_le_div_right hle
    omega

theorem searchLimit_eq {zone : MemoryZone} {n : ℕ} (hn : n ≤ zone.endPfn)
    (hend : zone.endPfn < 2 ^ 64) : searchLimit zone n = zone.endPfn - n :=
  sub64_of_le hn hend

/-- Inside a zone that the bitmap covers the search comes to an end, as long as
the request does not exceed `end_pfn`. -/
theorem searchZone_returns {bitmap : List Word} {zone : MemoryZone} {n : ℕ} (hn : 1 ≤ n)
    (hle : n ≤ zone.endPfn) (hlt : zone.endPfn < 2 ^ 64)
    (hcover : zone.endPfn ≤ 64 * bitmap.length) : ∃ r, searchZone bitmap zone n = .ok r := by
  have hlimit := searchLimit_eq hle hlt
  refine search_returns (lt_nextProbe hn) (searchBody_searches n bitmap _) ?_ ?_
  · intro c _ hc
    apply searchBody_returns
    have := lastWord_le hn c
    unfold searchLimit at hlimit
    omega
  · unfold searchLimit at hlimit
    omega

/-- A run that is found in a zone that does not end below `n` lies inside the zone. -/
theorem run_in_zone {bitmap : List Word} {zone : MemoryZone} {n p : ℕ} (hn : 1 ≤ n)
    (hle : n ≤ zone.endPfn) (hlt : zone.endPfn < 2 ^ 64) (hlim : p ≤ searchLimit zone n)
    (hhit : FirstHit (nextProbe n) (Passes bitmap n) zone.startPfn p) :
    zone.startPfn ≤ p ∧ p + n ≤ zone.endPfn := by
  rw [searchLimit_eq hle hlt] at hlim
  exact ⟨hhit.probed.start_le (lt_nextProbe hn), by omega⟩

/-! ## §5  The zone that is searched -/

theorem findZone_some {ty : MemoryZoneType} {n i : ℕ} {zone : MemoryZone} :
    ∀ {zones : List MemoryZone} {k : ℕ}, findZone ty n k zones = some (i, zone) →
      k ≤ i ∧ zones[i - k]? = some zone ∧ zone.type = ty ∧ n ≤ zone.nrFree.toNat
  | [], k, h => by cases h
  | z :: zs, k, h => by
      unfold findZone at h
      split at h
      · obtain ⟨hk, hget, hz⟩ := findZone_some h
        refine ⟨by omega, ?_, hz⟩
        rwa [show i - k = i - (k + 1) + 1 from by omega, List.getElem?_cons_succ]
      next hty =>
        split at h
        next hfree =>
          cases h
          exact ⟨Nat.le_refl _, by simp, by simpa using hty, hfree⟩
        next =>
          obtain ⟨hk, hget, hz⟩ := findZone_some h
          refine ⟨by omega, ?_, hz⟩
          rwa [show i - k = i - (k + 1) + 1 from by omega, List.getElem?_cons_succ]

theorem findZone_none {ty : MemoryZoneType} {n : ℕ} :
    ∀ {zones : List MemoryZone} {k : ℕ}, findZone ty n k zones = none ↔
      ∀ z ∈ zones, z.type = ty → z.nrFree.toNat < n
  | [], k => by simp [findZone]
  | z :: zs, k => by
      unfold findZone
      rw [List.forall_mem_cons]
      split
      next hty =>
        rw [findZone_none]
        exact ⟨fun h => ⟨fun e => absurd e hty, h⟩, fun h => h.2⟩
      next hty =>
        split
        next hfree =>
          refine ⟨fun h => (nomatch h), fun h => ?_⟩
          have := h.1 (by simpa using hty)
          omega
        next hfree =>
          rw [findZone_none]
          exact ⟨fun h => ⟨fun _ => by omega, h⟩, fun h => h.2⟩

/-- What `findRun` returns, step 1 and step 2 taken together. -/
theorem findRun_eq_ok {g : GlobalMemoryManager} {ty : MemoryZoneType} {n : ℕ}
    {r : Option (ℕ × ℕ)} (h : findRun g ty n = .ok r) :
    (findZone ty n 0 g.zone = none ∧ r = none) ∨
    ∃ i zone found, findZone ty n 0 g.zone = some (i, zone) ∧
      searchZone g.bitmap zone n = .ok found ∧
      ((found.getD 0 = 0 ∧ r = none) ∨ (found.getD 0 ≠ 0 ∧ r = some (i, found.getD 0))) := by
  unfold findRun at h
  split at h
  next hz =>
    cases h
    exact Or.inl ⟨hz, rfl⟩
  next i zone hz =>
    rw [bind_eq_ok] at h
    obtain ⟨found, hfound, h⟩ := h
    refine Or.inr ⟨i, zone, found, hz, hfound, ?_⟩
    simp only at h
    split at h
    next h0 =>
      cases h
      exact Or.inl ⟨h0, rfl⟩
    next h0 =>
      cases h
      exact Or.inr ⟨h0, rfl⟩

/-- A run that is found: the zone chosen for it and the first hit in that zone. -/
theorem findRun_some {g : GlobalMemoryManager} {ty : MemoryZoneType} {n i p : ℕ} (hn : 1 ≤ n)
    (h : findRun g ty n = .ok (some (i, p))) :
    ∃ zone, findZone ty n 0 g.zone = some (i, zone) ∧ p ≠ 0 ∧ p ≤ searchLimit zone n ∧
      FirstHit (nextProbe n) (Passes g.bitmap n) zone.startPfn p := by
  rcases findRun_eq_ok h with ⟨-, hr⟩ | ⟨j, zone, found, hz, hs, ⟨-, hr⟩ | ⟨hne, hr⟩⟩
  · cases hr
  · cases hr
  · cases hr
    cases found with
    | none => exact absurd rfl hne
    | some b =>
        obtain ⟨hlim, hhit⟩ := searchZone_some hn hs
        exact ⟨zone, hz, hne, hlim, hhit⟩

/-- Conversely the first hit in the chosen zone is the run that is found. -/
theorem findRun_finds {g : GlobalMemoryManager} {ty : MemoryZoneType} {n i b : ℕ}
    {zone : MemoryZone} (hn : 1 ≤ n) (hz : findZone ty n 0 g.zone = some (i, zone)) (hne : b ≠ 0)
    (hlim : b ≤ searchLimit zone n)
    (hhit : FirstHit (nextProbe n) (Passes g.bitmap n) zone.startPfn b) :
    findRun g ty n = .ok (some (i, b)) := by
  have hfound := searchZone_finds hn hhit hlim
  simp [findRun, hz, hfound, hne]

/-- `alloc_pages` hands out the run that steps 1 and 2 found. -/
theorem allocPages_some {g g' : GlobalMemoryManager} {ty : MemoryZoneType}
    {nrPages flags : BitVec 32} {p : ℕ}
    (h : allocPages g ty nrPages flags = .ok (some p, g')) :
    ∃ i g₁, findRun g ty nrPages.toNat = .ok (some (i, p)) ∧
      forRange (markPage flags) p nrPages.toNat g = .ok g₁ ∧
      g' = g₁.takeFree i (nrPages.setWidth 64) := by
  unfold allocPages at h
  rw [bind_eq_ok] at h
  obtain ⟨r, hr, h⟩ := h
  cases r with
  | none => cases h
  | some ip =>
      obtain ⟨i, q⟩ := ip
      simp only [bind_eq_ok] at h
      obtain ⟨g₁, hg₁, h⟩ := h
      cases h
      exact ⟨i, g₁, hr, hg₁, rfl⟩

/-- When `alloc_pages` returns NULL nothing has changed. -/
theorem allocPages_none {g g' : GlobalMemoryManager} {ty : MemoryZoneType}
    {nrPages flags : BitVec 32} (h : allocPages g ty nrPages flags = .ok (none, g')) :
    g' = g ∧ findRun g ty nrPages.toNat = .ok none := by
  unfold allocPages at h
  rw [bind_eq_ok] at h
  obtain ⟨r, hr, h⟩ := h
  cases r with
  | none =>
      cases h
      exact ⟨rfl, hr⟩
  | some ip =>
      obtain ⟨i, q⟩ := ip
      simp only [bind_eq_ok] at h
      obtain ⟨g₁, -, h⟩ := h
      cases h

end Knos.Memory
