import Knos.Lib.Loop

/-!
# Programs that ask a device

A program either is over, with a value or with an error, or makes a request and goes on
with the answer. What the device answers is not part of the program: `run` takes the
answers from a sequence, and `calm` and `requests` say how the program ends, and after how
many requests, when every answer is `good`.

A program that `FailsFast` stops at the first answer that is not good. Against any
sequence of answers it ends as it does when all is well, or right after the first bad
answer (`run_of_good`, `run_of_bad`).

A program that is `Patient` repeats its first request a number of times, and fails fast
behind it. `Patient.ends` lists the ways in which it can end.
-/

namespace Knos.Requests

open Knos.Loop

inductive Prog (ρ ε α : Type) where
  | ret (a : α)
  | stop (e : ε)
  | ask (next : ρ → Prog ρ ε α)

namespace Prog

variable {ρ ε α β : Type}

def bind : Prog ρ ε α → (α → Prog ρ ε β) → Prog ρ ε β
  | ret a, f => f a
  | stop e, _ => stop e
  | ask next, f => ask fun r => (next r).bind f

instance : Monad (Prog ρ ε) where
  pure := ret
  bind := bind

@[simp] theorem ret_bind (a : α) (f : α → Prog ρ ε β) : (ret a >>= f) = f a := rfl

@[simp] theorem ask_bind (next : ρ → Prog ρ ε α) (f : α → Prog ρ ε β) :
    (ask next >>= f) = ask fun r => next r >>= f := rfl

theorem bind_assoc {γ : Type} (x : Prog ρ ε α) (f : α → Prog ρ ε β) (g : β → Prog ρ ε γ) :
    (x >>= f >>= g) = (x >>= fun a => f a >>= g) := by
  induction x with
  | ret a => rfl
  | stop e => rfl
  | ask next ih => exact congrArg ask (funext ih)

/-! ## §1  Runs -/

/-- The end of the program against the answers `o c, o (c + 1), …`, and the number of the
next answer. -/
def run (o : ℕ → ρ) : Prog ρ ε α → ℕ → Except ε α × ℕ
  | ret a, c => (.ok a, c)
  | stop e, c => (.error e, c)
  | ask next, c => run o (next (o c)) (c + 1)

theorem run_ask (o : ℕ → ρ) (next : ρ → Prog ρ ε α) (c : ℕ) :
    run o (ask next) c = run o (next (o c)) (c + 1) := rfl

/-! ## §2  Runs in which all is well -/

section Calm

variable (good : ρ)

def calm : Prog ρ ε α → Except ε α
  | ret a => .ok a
  | stop e => .error e
  | ask next => calm (next good)

def requests : Prog ρ ε α → ℕ
  | ret _ => 0
  | stop _ => 0
  | ask next => requests (next good) + 1

theorem calm_bind (x : Prog ρ ε α) (f : α → Prog ρ ε β) :
    calm good (x >>= f) = (calm good x >>= fun a => calm good (f a)) := by
  induction x with
  | ret a => rfl
  | stop e => rfl
  | ask next ih => exact ih good

theorem requests_bind_of_ok {x : Prog ρ ε α} {a : α} (h : calm good x = .ok a)
    (f : α → Prog ρ ε β) :
    requests good (x >>= f) = requests good x + requests good (f a) := by
  induction x with
  | ret b =>
      cases h
      exact (Nat.zero_add _).symm
  | stop e => cases h
  | ask next ih =>
      show requests good (next good >>= f) + 1 = requests good (next good) + 1 + _
      rw [ih good h]
      omega

theorem requests_bind_of_error {x : Prog ρ ε α} {e : ε} (h : calm good x = .error e)
    (f : α → Prog ρ ε β) : requests good (x >>= f) = requests good x := by
  induction x with
  | ret b => cases h
  | stop e' => rfl
  | ask next ih => exact congrArg Nat.succ (ih good h)

theorem run_of_good {o : ℕ → ρ} {p : Prog ρ ε α} {c : ℕ}
    (h : ∀ i, i < requests good p → o (c + i) = good) :
    run o p c = (calm good p, c + requests good p) := by
  induction p generalizing c with
  | ret a => rfl
  | stop e => rfl
  | ask next ih =>
      have hc : o c = good := h 0 (Nat.succ_pos _)
      rw [run_ask, hc, ih good fun i hi => ?_]
      · show (calm good (next good), _) = (calm good (next good), c + (requests good (next good) + 1))
        rw [Nat.add_assoc, Nat.add_comm 1]
      · rw [Nat.add_assoc, Nat.add_comm 1]
        exact h (i + 1) (Nat.succ_lt_succ hi)

end Calm

/-! ## §3  Programs that stop at the first bad answer -/

/-- A bad answer on the way stops the program, with an error in `E`. -/
def FailsFast (good : ρ) (E : ε → Prop) : Prog ρ ε α → Prop
  | ret _ => True
  | stop _ => True
  | ask next => FailsFast good E (next good) ∧ ∀ r, r ≠ good → ∃ e, next r = stop e ∧ E e

variable {good : ρ} {E : ε → Prop}

/-- What comes behind a program only matters for the value it has when all is well. -/
theorem FailsFast.bind {x : Prog ρ ε α} (h : FailsFast good E x) {f : α → Prog ρ ε β}
    (hf : ∀ a, calm good x = .ok a → FailsFast good E (f a)) : FailsFast good E (x >>= f) := by
  induction x with
  | ret a => exact hf a rfl
  | stop e => trivial
  | ask next ih =>
      refine ⟨ih good h.1 hf, fun r hr => ?_⟩
      obtain ⟨e, he, hE⟩ := h.2 r hr
      refine ⟨e, ?_, hE⟩
      show (next r).bind f = stop e
      rw [he]
      rfl

/-- Right after the first bad answer the program has stopped. -/
theorem run_of_bad {o : ℕ → ρ} {p : Prog ρ ε α} (h : FailsFast good E p) {c j : ℕ}
    (hj : j < requests good p) (hgood : ∀ i, i < j → o (c + i) = good) (hbad : o (c + j) ≠ good) :
    ∃ e, run o p c = (.error e, c + j + 1) ∧ E e := by
  induction p generalizing c j with
  | ret a => cases hj
  | stop e => cases hj
  | ask next ih =>
      cases j with
      | zero =>
          obtain ⟨e, he, hE⟩ := h.2 (o c) hbad
          refine ⟨e, ?_, hE⟩
          rw [run_ask, he]
          rfl
      | succ j =>
          have hc : o c = good := hgood 0 (Nat.succ_pos j)
          obtain ⟨e, he, hE⟩ := ih good h.1 (Nat.lt_of_succ_lt_succ hj)
            (fun i hi => by
              rw [Nat.add_assoc, Nat.add_comm 1]
              exact hgood (i + 1) (Nat.succ_lt_succ hi))
            (show o (c + 1 + j) ≠ good by rwa [Nat.add_assoc, Nat.add_comm 1])
          refine ⟨e, ?_, hE⟩
          rw [run_ask, hc, he, Nat.add_assoc c 1 j, Nat.add_comm 1 j]

/-! ## §4  Programs that repeat their first request -/

/-- Up to `n` bad answers to the first request change nothing; one more stops the program,
and so does every bad answer later. -/
def Patient (good : ρ) (E : ε → Prop) : ℕ → Prog ρ ε α → Prop
  | 0, p => FailsFast good E p
  | n + 1, ask next => FailsFast good E (next good) ∧ ∀ r, r ≠ good →
      Patient good E n (next r) ∧ calm good (next r) = calm good (next good) ∧
        requests good (next r) = requests good (next good) + 1
  | _ + 1, ret _ => False
  | _ + 1, stop _ => False

/-- How a program that takes `n` bad answers to its first request ends. -/
inductive Ends (good : ρ) (E : ε → Prop) (n : ℕ) (o : ℕ → ρ) (p : Prog ρ ε α) (c : ℕ) : Prop
  | served (f : ℕ) (hf : f ≤ n) (hbad : ∀ i, i < f → o (c + i) ≠ good)
      (hgood : ∀ i, i < requests good p → o (c + f + i) = good)
      (hrun : run o p c = (calm good p, c + f + requests good p))
  | exhausted (e : ε) (he : E e) (hbad : ∀ i, i ≤ n → o (c + i) ≠ good)
      (hrun : run o p c = (.error e, c + n + 1))
  | failed (f j : ℕ) (e : ε) (he : E e) (hf : f ≤ n) (hbad : ∀ i, i < f → o (c + i) ≠ good)
      (hj : j + 1 < requests good p) (hgood : ∀ i, i ≤ j → o (c + f + i) = good)
      (hlast : o (c + f + (j + 1)) ≠ good) (hrun : run o p c = (.error e, c + f + j + 2))

/-- Answers are good, or there is a first that is not. -/
theorem all_good_or_first_bad (good : ρ) (o : ℕ → ρ) (c k : ℕ) :
    (∀ i, i < k → o (c + i) = good) ∨
      ∃ j, j < k ∧ (∀ i, i < j → o (c + i) = good) ∧ o (c + j) ≠ good := by
  induction k with
  | zero => exact Or.inl fun i hi => absurd hi (Nat.not_lt_zero i)
  | succ k ih =>
      rcases ih with hall | ⟨j, hj, hbefore, hbad⟩
      · by_cases hk : o (c + k) = good
        · refine Or.inl fun i hi => ?_
          rcases Nat.lt_succ_iff_lt_or_eq.mp hi with hlt | rfl
          · exact hall i hlt
          · exact hk
        · exact Or.inr ⟨k, Nat.lt_succ_self k, hall, hk⟩
      · exact Or.inr ⟨j, Nat.lt_succ_of_lt hj, hbefore, hbad⟩

theorem FailsFast.ends {p : Prog ρ ε α} (h : FailsFast good E p) (o : ℕ → ρ) (c : ℕ) :
    Ends good E 0 o p c := by
  rcases all_good_or_first_bad good o c (requests good p) with hall | ⟨j, hj, hbefore, hbad⟩
  · exact .served 0 (Nat.le_refl 0) (fun i hi => absurd hi (Nat.not_lt_zero i)) hall
      (run_of_good good hall)
  · obtain ⟨e, hrun, he⟩ := run_of_bad h hj hbefore hbad
    cases j with
    | zero =>
        refine .exhausted e he (fun i hi => ?_) hrun
        obtain rfl := Nat.le_zero.mp hi
        exact hbad
    | succ j =>
        exact .failed 0 j e he (Nat.le_refl 0) (fun i hi => absurd hi (Nat.not_lt_zero i)) hj
          (fun i hi => hbefore i (Nat.lt_succ_of_le hi)) hbad hrun

/-- Behind a good first answer the program fails fast. -/
theorem ends_of_good {n : ℕ} {next : ρ → Prog ρ ε α} (h : FailsFast good E (next good)) {o : ℕ → ρ}
    {c : ℕ} (hc : o c = good) : Ends good E n o (ask next) c := by
  have hshift : ∀ i, c + 1 + i = c + 0 + (i + 1) := fun i => by omega
  have hrun : run o (ask next) c = run o (next good) (c + 1) := by rw [run_ask, hc]
  have hnone : ∀ i, i < 0 → o (c + i) ≠ good := fun i hi => absurd hi (Nat.not_lt_zero i)
  have hall : ∀ k, (∀ i, i < k → o (c + 1 + i) = good) → ∀ i, i < k + 1 → o (c + 0 + i) = good := by
    intro k hk i hi
    cases i with
    | zero => exact hc
    | succ i =>
        rw [← hshift]
        exact hk i (Nat.lt_of_succ_lt_succ hi)
  rcases all_good_or_first_bad good o (c + 1) (requests good (next good)) with
    hgood | ⟨j, hj, hbefore, hbad⟩
  · refine .served 0 (Nat.zero_le _) hnone (hall _ hgood) ?_
    rw [hrun, run_of_good good hgood, hshift]
    rfl
  · obtain ⟨e, hend, he⟩ := run_of_bad h hj hbefore hbad
    rw [hshift] at hbad
    refine .failed 0 j e he (Nat.zero_le _) hnone (Nat.succ_lt_succ hj)
      (fun i hi => hall j hbefore i (Nat.lt_succ_of_le hi)) hbad ?_
    rw [hrun, hend, hshift]
    rfl

/-- A bad first answer is one bad answer more. -/
theorem Ends.of_bad {n : ℕ} {next : ρ → Prog ρ ε α} {o : ℕ → ρ} {c : ℕ} (hc : o c ≠ good)
    (hcalm : calm good (next (o c)) = calm good (ask next))
    (hreq : requests good (next (o c)) = requests good (ask next))
    (h : Ends good E n o (next (o c)) (c + 1)) : Ends good E (n + 1) o (ask next) c := by
  have hshift : ∀ i, c + 1 + i = c + (i + 1) := fun i => by omega
  have hrun : run o (ask next) c = run o (next (o c)) (c + 1) := run_ask o next c
  have hbads : ∀ k, (∀ i, i < k → o (c + 1 + i) ≠ good) → ∀ i, i < k + 1 → o (c + i) ≠ good := by
    intro k hk i hi
    cases i with
    | zero => exact hc
    | succ i =>
        rw [← hshift]
        exact hk i (Nat.lt_of_succ_lt_succ hi)
  rcases h with ⟨f, hf, hbad, hgood, hend⟩ | ⟨e, he, hbad, hend⟩ |
    ⟨f, j, e, he, hf, hbad, hj, hgood, hlast, hend⟩
  · rw [hshift, hreq] at hgood hend
    rw [← hrun, hcalm] at hend
    exact .served (f + 1) (Nat.succ_le_succ hf) (hbads f hbad) hgood hend
  · rw [← hrun, hshift] at hend
    exact .exhausted e he (fun i hi => hbads (n + 1) (fun i hi => hbad i (Nat.le_of_lt_succ hi)) i
      (Nat.lt_succ_of_le hi)) hend
  · rw [hshift] at hgood hlast hend
    rw [← hrun] at hend
    rw [hreq] at hj
    exact .failed (f + 1) j e he (Nat.succ_le_succ hf) (hbads f hbad) hj hgood hlast hend

/-- **The ways to end**: as if all answers were good, at the first request, or later. -/
theorem Patient.ends {n : ℕ} {p : Prog ρ ε α} (h : Patient good E n p) (o : ℕ → ρ) (c : ℕ) :
    Ends good E n o p c := by
  induction n generalizing p c with
  | zero => exact FailsFast.ends h o c
  | succ n ih =>
      cases p with
      | ret a => exact absurd h id
      | stop e => exact absurd h id
      | ask next =>
          by_cases hc : o c = good
          · exact ends_of_good h.1 hc
          · obtain ⟨hpatient, hcalm, hreq⟩ := h.2 (o c) hc
            exact .of_bad hc hcalm hreq (ih hpatient (c + 1))

end Prog

end Knos.Requests
