import Knos.Lib.Loop
import Mathlib.Order.Iterate

/-!
# Search by jumps

A search that probes a position and, when the probe fails, jumps to
`next position` without looking at the positions in between. What it finds is
the first hit among the positions it probes (`FirstHit`), and what it misses is
governed by the longest jump: jumps of at most `d` leave no `d` positions in a
row unprobed (`exists_probed_between`).

§3 ties this to the loop of `Knos.Lib.Loop`: any body that probes, leaves on a
hit and jumps on a miss computes the first hit.
-/

namespace Knos.JumpSearch

open Knos.Loop

/-! ## §1  Probed positions -/

/-- `b` is reached from `start` by jumping. -/
def Probed (next : ℕ → ℕ) (start b : ℕ) : Prop := ∃ k, next^[k] start = b

section Positions

variable {next : ℕ → ℕ} {start b c : ℕ}

theorem probed_start (next : ℕ → ℕ) (start : ℕ) : Probed next start start := ⟨0, rfl⟩

theorem Probed.jump (h : Probed next start b) : Probed next start (next b) := by
  obtain ⟨k, rfl⟩ := h
  exact ⟨k + 1, Function.iterate_succ_apply' next k start⟩

/-- Jumps go forward, so the probed positions increase. -/
theorem iterate_strictMono (hn : ∀ b, b < next b) (start : ℕ) :
    StrictMono fun k => next^[k] start := by
  apply strictMono_nat_of_lt_succ
  intro k
  rw [Function.iterate_succ_apply']
  exact hn _

theorem Probed.start_le (hn : ∀ b, b < next b) (h : Probed next start b) : start ≤ b := by
  obtain ⟨k, rfl⟩ := h
  exact (iterate_strictMono hn start).monotone (Nat.zero_le k)

/-- Nothing is probed strictly between a position and the jump from it. -/
theorem Probed.le_or_next_le (hn : ∀ b, b < next b) (hc : Probed next start c)
    (hb : Probed next start b) : b ≤ c ∨ next c ≤ b := by
  obtain ⟨k, rfl⟩ := hb
  obtain ⟨m, rfl⟩ := hc
  have hmono := iterate_strictMono hn start
  by_cases hkm : k ≤ m
  · exact Or.inl (hmono.monotone hkm)
  · rw [← Function.iterate_succ_apply' next m start]
    exact Or.inr (hmono.monotone (by omega : m + 1 ≤ k))

/-- Jumps of at most `d` probe one of any `d` positions in a row. -/
theorem exists_probed_between {d s : ℕ} (hn : ∀ b, b < next b) (hd : ∀ b, next b ≤ b + d)
    (hs : start ≤ s) : ∃ b, Probed next start b ∧ s ≤ b ∧ b < s + d := by
  have go : ∀ m b, Probed next start b → b ≤ s → s - b = m →
      ∃ b, Probed next start b ∧ s ≤ b ∧ b < s + d := by
    intro m
    induction m using Nat.strong_induction_on with
    | h m ih =>
        intro b hb hbs hm
        have h₁ := hn b
        have h₂ := hd b
        rcases Nat.lt_or_ge b s with hlt | hge
        · by_cases hnext : next b ≤ s
          · exact ih (s - next b) (by omega) (next b) hb.jump hnext rfl
          · exact ⟨next b, hb.jump, by omega, by omega⟩
        · exact ⟨b, hb, hge, by omega⟩
  exact go (s - start) start (probed_start next start) hs rfl

end Positions

/-! ## §2  The first hit -/

/-- `b` is probed and passes, and nothing probed before it passes. -/
structure FirstHit (next : ℕ → ℕ) (test : ℕ → Prop) (start b : ℕ) : Prop where
  probed : Probed next start b
  hit : test b
  first : ∀ c, Probed next start c → c < b → ¬ test c

/-! ## §3  The search loop -/

/-- What a loop body must do to be a search: beyond `limit` it gives up, on a
hit it leaves with the position, on a miss it jumps. It may fail instead. -/
structure Searches {ε : Type} (body : ℕ → Except ε (Turn ℕ (Option ℕ)))
    (next : ℕ → ℕ) (test : ℕ → Prop) (limit : ℕ) : Prop where
  beyond : ∀ b, limit < b → body b = .ok (.leave none)
  leave : ∀ b r, b ≤ limit → body b = .ok (.leave r) → r = some b ∧ test b
  again : ∀ b b', b ≤ limit → body b = .ok (.again b') → b' = next b ∧ ¬ test b

section Search

variable {ε : Type} {body : ℕ → Except ε (Turn ℕ (Option ℕ))} {next : ℕ → ℕ}
  {test : ℕ → Prop} {limit : ℕ} {stuck : ε}

/-- A search that returned found the first hit, or there is none to find. -/
theorem search_sound (hn : ∀ b, b < next b) (hs : Searches body next test limit)
    {fuel start : ℕ} {r : Option ℕ} (h : whileLoop body stuck fuel start = .ok r) :
    (∀ b, r = some b → b ≤ limit ∧ FirstHit next test start b) ∧
    (r = none → ∀ b, Probed next start b → b ≤ limit → ¬ test b) := by
  refine whileLoop_invariant
    (fun c => Probed next start c ∧ ∀ b, Probed next start b → b < c → ¬ test b)
    (fun r => (∀ b, r = some b → b ≤ limit ∧ FirstHit next test start b) ∧
      (r = none → ∀ b, Probed next start b → b ≤ limit → ¬ test b))
    ?_ ?_ ⟨probed_start next start, ?_⟩ h
  · rintro c c' ⟨hc, hmiss⟩ hbody
    by_cases hlim : c ≤ limit
    · obtain ⟨rfl, htest⟩ := hs.again c c' hlim hbody
      refine ⟨hc.jump, fun b hb hlt => ?_⟩
      rcases hc.le_or_next_le hn hb with hle | hge
      · rcases Nat.lt_or_eq_of_le hle with hlt' | rfl
        · exact hmiss b hb hlt'
        · exact htest
      · omega
    · rw [hs.beyond c (by omega)] at hbody
      cases hbody
  · rintro c r ⟨hc, hmiss⟩ hbody
    by_cases hlim : c ≤ limit
    · obtain ⟨rfl, htest⟩ := hs.leave c r hlim hbody
      refine ⟨?_, fun h => nomatch h⟩
      intro b h
      cases h
      exact ⟨hlim, hc, htest, hmiss⟩
    · rw [hs.beyond c (by omega)] at hbody
      cases hbody
      exact ⟨fun b h => (nomatch h), fun _ b hb hle => hmiss b hb (by omega)⟩
  · intro b hb hlt
    have := hb.start_le hn
    omega

/-- The search reaches the first hit, if its probes up to there do not fail. -/
theorem search_finds (hn : ∀ b, b < next b) (hs : Searches body next test limit)
    {fuel start b : ℕ} (hb : FirstHit next test start b) (hlim : b ≤ limit)
    (safe : ∀ c, Probed next start c → c ≤ b → ∃ t, body c = .ok t)
    (hfuel : b - start < fuel) : whileLoop body stuck fuel start = .ok (some b) := by
  have hstart : start ≤ b := hb.probed.start_le hn
  have hret : ∃ r, whileLoop body stuck fuel start = .ok r := by
    refine whileLoop_returns (fun c => Probed next start c ∧ c ≤ b)
      (fun c => b - c) ?_ ⟨probed_start next start, hstart⟩ hfuel
    rintro c ⟨hc, hcb⟩
    obtain ⟨t, ht⟩ := safe c hc hcb
    cases t with
    | leave r => exact Or.inl ⟨r, ht⟩
    | again c' =>
        right
        obtain ⟨rfl, hmiss⟩ := hs.again c c' (by omega) ht
        have hne : c ≠ b := fun e => hmiss (e ▸ hb.hit)
        have hjump : next c ≤ b := by
          rcases hc.le_or_next_le hn hb.probed with h | h
          · omega
          · exact h
        have := hn c
        exact ⟨next c, ht, ⟨hc.jump, hjump⟩, by omega⟩
  obtain ⟨r, hr⟩ := hret
  rcases search_sound hn hs hr with ⟨hsome, hnone⟩
  cases r with
  | none => exact absurd hb.hit (hnone rfl b hb.probed hlim)
  | some c =>
      obtain ⟨-, hc⟩ := hsome c rfl
      have h₁ : ¬ c < b := fun h => hb.first c hc.probed h hc.hit
      have h₂ : ¬ b < c := fun h => hc.first b hb.probed h hb.hit
      rw [hr, show c = b from by omega]

/-- A search whose probes never fail comes to an end. -/
theorem search_returns (hn : ∀ b, b < next b) (hs : Searches body next test limit)
    {fuel start : ℕ}
    (safe : ∀ c, Probed next start c → c ≤ limit → ∃ t, body c = .ok t)
    (hfuel : limit + 1 - start < fuel) : ∃ r, whileLoop body stuck fuel start = .ok r := by
  refine whileLoop_returns (fun c => Probed next start c)
    (fun c => limit + 1 - c) ?_ (probed_start next start) hfuel
  intro c hc
  by_cases hlim : c ≤ limit
  · obtain ⟨t, ht⟩ := safe c hc hlim
    cases t with
    | leave r => exact Or.inl ⟨r, ht⟩
    | again c' =>
        obtain ⟨rfl, -⟩ := hs.again c c' hlim ht
        have := hn c
        exact Or.inr ⟨next c, ht, hc.jump, by omega⟩
  · exact Or.inl ⟨none, hs.beyond c (by omega)⟩

end Search

end Knos.JumpSearch
