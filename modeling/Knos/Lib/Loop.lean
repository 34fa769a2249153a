import Mathlib.Data.Nat.Notation
import Mathlib.Tactic.Cases
import Mathlib.Tactic.ByContra

/-!
# Loops over a fallible state

A `for` loop over a counter, a loop over the entries of a table and a loop left
by `break`, for a body that may fail (`Except ε`). The rules have an invariant
indexed by how far the loop has come:

- the *total* rule: if the body keeps the invariant and returns, so does the loop;
- the *partial* rule: if the loop returned, the invariant holds at the end.

The third loop carries fuel, and `whileLoop_returns` says when the fuel is
enough, so that a model built on it never leaves termination open.
-/

namespace Knos.Loop

variable {ε σ τ ρ : Type}

/-! ## §1  Sequencing -/

theorem bind_eq_ok {x : Except ε σ} {f : σ → Except ε τ} {r : τ} :
    (x >>= f) = .ok r ↔ ∃ s, x = .ok s ∧ f s = .ok r := by
  cases x with
  | error e =>
      constructor
      · intro h
        cases h
      · rintro ⟨s, h, -⟩
        cases h
  | ok s =>
      constructor
      · intro h
        exact ⟨s, rfl, h⟩
      · rintro ⟨s', h, hf⟩
        cases h
        exact hf

theorem bind_eq_error {x : Except ε σ} {f : σ → Except ε τ} {e : ε}
    (h : (x >>= f) = .error e) : x = .error e ∨ ∃ s, x = .ok s ∧ f s = .error e := by
  cases x with
  | error e' =>
      cases h
      exact Or.inl rfl
  | ok s => exact Or.inr ⟨s, rfl, h⟩

@[simp] theorem ok_bind (s : σ) (f : σ → Except ε τ) :
    ((Except.ok s : Except ε σ) >>= f) = f s := rfl

@[simp] theorem error_bind (e : ε) (f : σ → Except ε τ) :
    ((Except.error e : Except ε σ) >>= f) = .error e := rfl

/-- A call that returns `a` together with some state. -/
theorem exists_of_map_fst {x : Except ε (σ × τ)} {a : σ} (h : x.map Prod.fst = .ok a) :
    ∃ b, x = .ok (a, b) := by
  cases x with
  | error e => cases h
  | ok r =>
      cases h
      exact ⟨r.2, rfl⟩

/-! ## §2  Counted loops -/

/-- `for (i = a; i < a + k; i++) s = f(i, s);` -/
def forRange (f : ℕ → σ → Except ε σ) : ℕ → ℕ → σ → Except ε σ
  | _, 0, s => .ok s
  | i, k + 1, s => f i s >>= forRange f (i + 1) k

@[simp] theorem forRange_zero (f : ℕ → σ → Except ε σ) (a : ℕ) (s : σ) :
    forRange f a 0 s = .ok s := rfl

theorem forRange_succ (f : ℕ → σ → Except ε σ) (a k : ℕ) (s : σ) :
    forRange f a (k + 1) s = (f a s >>= forRange f (a + 1) k) := rfl

/-- A body that keeps `P` unless it fails with an error in `E`: so does the loop. -/
theorem forRange_ends {f : ℕ → σ → Except ε σ} (E : ε → Prop) {k : ℕ} :
    ∀ (P : ℕ → σ → Prop) {a : ℕ} {s : σ},
      (∀ n s, n < k → P n s →
        (∃ s', f (a + n) s = .ok s' ∧ P (n + 1) s') ∨ ∃ e, f (a + n) s = .error e ∧ E e) →
      P 0 s → (∃ s', forRange f a k s = .ok s' ∧ P k s') ∨
        ∃ e, forRange f a k s = .error e ∧ E e := by
  induction k with
  | zero =>
      intro P a s _ h
      exact Or.inl ⟨s, rfl, h⟩
  | succ k ih =>
      intro P a s step h
      rw [forRange_succ]
      rcases step 0 s (Nat.succ_pos k) h with ⟨s₁, hf, h₁⟩ | ⟨e, hf, he⟩
      · rw [Nat.add_zero] at hf
        rw [hf]
        -- the turns after the first, counted from 0
        refine ih (fun n => P (n + 1)) (fun n t hn => ?_) h₁
        rw [Nat.add_assoc, Nat.add_comm 1 n]
        exact step (n + 1) t (Nat.succ_lt_succ hn)
      · rw [Nat.add_zero] at hf
        rw [hf]
        exact Or.inr ⟨e, rfl, he⟩

/-- Total rule: the body keeps `P` and never fails, so the loop returns. -/
theorem forRange_returns {f : ℕ → σ → Except ε σ} (P : ℕ → σ → Prop) {a k : ℕ} {s : σ}
    (step : ∀ n s, n < k → P n s → ∃ s', f (a + n) s = .ok s' ∧ P (n + 1) s') (h : P 0 s) :
    ∃ s', forRange f a k s = .ok s' ∧ P k s' := by
  have hends := forRange_ends (fun _ => False) P (fun n s hn hs => Or.inl (step n s hn hs)) h
  exact hends.resolve_right fun ⟨_, _, hfalse⟩ => hfalse

/-- Partial rule: if the loop returned, `P` holds at its end. -/
theorem forRange_invariant {f : ℕ → σ → Except ε σ} {k : ℕ} :
    ∀ (P : ℕ → σ → Prop) {a : ℕ} {s r : σ},
      (∀ n s s', n < k → P n s → f (a + n) s = .ok s' → P (n + 1) s') →
      P 0 s → forRange f a k s = .ok r → P k r := by
  induction k with
  | zero =>
      intro P a s r _ h hr
      cases hr
      exact h
  | succ k ih =>
      intro P a s r step h hr
      rw [forRange_succ, bind_eq_ok] at hr
      obtain ⟨s₁, hf, hl⟩ := hr
      have h₁ := step 0 s s₁ (Nat.succ_pos k) h hf
      refine ih (fun n => P (n + 1)) (fun n t t' hn => ?_) h₁ hl
      rw [Nat.add_assoc, Nat.add_comm 1 n]
      exact step (n + 1) t t' (Nat.succ_lt_succ hn)

/-- An update of a run of cells, after one more cell. -/
theorem ite_run_succ {α : Type} {a n q : ℕ} {x y z : α} (h : q = a + n → z = x) :
    (if q = a + n then z else if a ≤ q ∧ q < a + n then x else y) =
      if a ≤ q ∧ q < a + (n + 1) then x else y := by
  by_cases hq : q = a + n
  · rw [if_pos hq, if_pos (by omega), h hq]
  · rw [if_neg hq]
    by_cases hin : a ≤ q ∧ q < a + n
    · rw [if_pos hin, if_pos (by omega)]
    · rw [if_neg hin, if_neg (by omega)]

/-- `l[i] = x;` cell by cell. -/
theorem getElem?_set_of_lt {α : Type} {l : List α} {i : ℕ} (h : i < l.length) (x : α) (q : ℕ) :
    (l.set i x)[q]? = if q = i then some x else l[q]? := by
  rw [List.getElem?_set]
  by_cases hq : q = i
  · rw [if_pos hq.symm, if_pos h, if_pos hq]
  · rw [if_neg (Ne.symm hq), if_neg hq]

/-! ## §3  Loops over a table -/

/-- `for (i = 0; i < count; i++) s = f(s, table[i]);` -/
def forEach (f : σ → τ → Except ε σ) : List τ → σ → Except ε σ
  | [], s => .ok s
  | x :: xs, s => f s x >>= forEach f xs

theorem forEach_cons (f : σ → τ → Except ε σ) (x : τ) (xs : List τ) (s : σ) :
    forEach f (x :: xs) s = (f s x >>= forEach f xs) := rfl

/-- Total rule, the invariant indexed by the entries already visited. -/
theorem forEach_returns {f : σ → τ → Except ε σ} (P : List τ → σ → Prop) :
    ∀ {todo seen : List τ} {s : σ},
      (∀ pre x s, pre ++ [x] <+: seen ++ todo → P pre s →
        ∃ s', f s x = .ok s' ∧ P (pre ++ [x]) s') →
      P seen s → ∃ s', forEach f todo s = .ok s' ∧ P (seen ++ todo) s' := by
  intro todo
  induction todo with
  | nil =>
      intro seen s _ h
      exact ⟨s, rfl, by rwa [List.append_nil]⟩
  | cons x xs ih =>
      intro seen s step h
      obtain ⟨s₁, hf, h₁⟩ := step seen x s ⟨xs, by simp⟩ h
      obtain ⟨s₂, hl, h₂⟩ := @ih (seen ++ [x]) s₁
        (fun pre y t hpre => step pre y t (by simpa using hpre)) h₁
      refine ⟨s₂, ?_, by simpa using h₂⟩
      rw [forEach_cons, hf]
      exact hl

/-! ## §4  Loops left by `break` -/

/-- What one turn of a loop decides: go round again, or leave with a value. -/
inductive Turn (σ ρ : Type) where
  | again (s : σ)
  | leave (r : ρ)
deriving DecidableEq

/-- A loop whose body says when to leave; `stuck` when the fuel runs out. -/
def whileLoop (body : σ → Except ε (Turn σ ρ)) (stuck : ε) : ℕ → σ → Except ε ρ
  | 0, _ => .error stuck
  | fuel + 1, s =>
      match body s with
      | .error e => .error e
      | .ok (.leave r) => .ok r
      | .ok (.again s') => whileLoop body stuck fuel s'

section While

variable {body : σ → Except ε (Turn σ ρ)} {stuck : ε}

/-- Partial rule: `I` holds at every turn, `Q` of the value left with. -/
theorem whileLoop_invariant (I : σ → Prop) (Q : ρ → Prop)
    (again : ∀ s s', I s → body s = .ok (.again s') → I s')
    (leave : ∀ s r, I s → body s = .ok (.leave r) → Q r) :
    ∀ {fuel : ℕ} {s : σ} {r : ρ}, I s →
      whileLoop body stuck fuel s = .ok r → Q r := by
  intro fuel
  induction fuel with
  | zero =>
      intro s r _ hr
      cases hr
  | succ fuel ih =>
      intro s r h hr
      unfold whileLoop at hr
      cases hb : body s with
      | error e =>
          rw [hb] at hr
          cases hr
      | ok t =>
          rw [hb] at hr
          cases t with
          | leave r' =>
              cases hr
              exact leave s r h hb
          | again s' => exact ih (again s s' h hb) hr

/-- Total rule: a body that never fails under `I` and lowers `μ` at every
further turn leaves the loop, with any fuel above `μ`. -/
theorem whileLoop_returns (I : σ → Prop) (μ : σ → ℕ)
    (turn : ∀ s, I s → (∃ r, body s = .ok (.leave r)) ∨
      ∃ s', body s = .ok (.again s') ∧ I s' ∧ μ s' < μ s) :
    ∀ {fuel : ℕ} {s : σ}, I s → μ s < fuel →
      ∃ r, whileLoop body stuck fuel s = .ok r := by
  intro fuel
  induction fuel with
  | zero =>
      intro s _ hμ
      omega
  | succ fuel ih =>
      intro s h hμ
      unfold whileLoop
      rcases turn s h with ⟨r, hb⟩ | ⟨s', hb, h', hlt⟩
      · exact ⟨r, by rw [hb]⟩
      · rw [hb]
        exact ih h' (by omega)

/-- Fuel is a bound and nothing else: the loop is never `stuck` when `μ` falls
at every further turn, whatever else the body may do. -/
theorem whileLoop_ne_stuck (μ : σ → ℕ)
    (fails : ∀ s, body s ≠ .error stuck)
    (again : ∀ s s', body s = .ok (.again s') → μ s' < μ s) :
    ∀ {fuel : ℕ} {s : σ}, μ s < fuel →
      whileLoop body stuck fuel s ≠ .error stuck := by
  intro fuel
  induction fuel with
  | zero =>
      intro s hμ
      omega
  | succ fuel ih =>
      intro s hμ
      unfold whileLoop
      cases hb : body s with
      | error e =>
          intro h
          cases h
          exact fails s hb
      | ok t =>
          cases t with
          | leave r =>
              intro h
              cases h
          | again s' => exact ih (by have := again s s' hb; omega)

end While

end Knos.Loop
