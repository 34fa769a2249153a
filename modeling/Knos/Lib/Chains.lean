import Mathlib.Data.List.Basic
import Mathlib.Data.List.Nodup

/-!
# Chains in a table of successors

A table gives each cell its successor; a file is a list of cells in which each leads to
the next and the last to an end mark. Such a chain is determined by its first cell, and
visits no cell twice. `link` makes a chain of given cells, entry by entry, and `unlink`
sets the cells of a chain back to 0; each is known by its value at every cell. A cell
with entry 0 is free, and `freeCells` lists these in increasing order.
-/

namespace Knos.Chains

/-! ## §1  Chains -/

/-- Each cell leads to the next one and the last to `stop`. -/
def IsChain (next : ℕ → ℕ) (stop : ℕ) : List ℕ → Prop
  | [] => False
  | [c] => next c = stop
  | c :: d :: cs => next c = d ∧ IsChain next stop (d :: cs)

section IsChain

variable {next next' : ℕ → ℕ} {stop : ℕ} {cs ds : List ℕ}

@[simp] theorem isChain_singleton {c : ℕ} : IsChain next stop [c] ↔ next c = stop := Iff.rfl

@[simp] theorem isChain_cons_cons {c d : ℕ} :
    IsChain next stop (c :: d :: cs) ↔ next c = d ∧ IsChain next stop (d :: cs) := Iff.rfl

/-- A chain only depends on the entries of its cells. -/
theorem IsChain.congr (h : IsChain next stop cs) (heq : ∀ c ∈ cs, next c = next' c) :
    IsChain next' stop cs := by
  induction cs with
  | nil => exact h
  | cons c cs ih =>
      have hc := heq c List.mem_cons_self
      cases cs with
      | nil => exact hc.symm.trans h
      | cons d cs =>
          exact ⟨hc.symm.trans h.1, ih h.2 fun c hc => heq c (List.mem_cons_of_mem _ hc)⟩

/-- What follows a cell of a chain is a chain. -/
theorem IsChain.suffix {xs ys : List ℕ} {y : ℕ} (h : IsChain next stop (xs ++ y :: ys)) :
    IsChain next stop (y :: ys) := by
  induction xs with
  | nil => exact h
  | cons x xs ih =>
      apply ih
      cases xs with
      | nil => exact h.2
      | cons x' xs => exact h.2

/-- The first cell determines the chain. -/
theorem IsChain.unique (h : IsChain next stop cs) (h' : IsChain next stop ds)
    (hhead : cs.head? = ds.head?) (hcs : stop ∉ cs) (hds : stop ∉ ds) : cs = ds := by
  induction cs generalizing ds with
  | nil => exact absurd h id
  | cons c cs ih =>
      cases ds with
      | nil => exact absurd h' id
      | cons d ds =>
          obtain rfl : c = d := Option.some.inj hhead
          cases cs with
          | nil =>
              cases ds with
              | nil => rfl
              | cons e ds =>
                  refine absurd ?_ hds
                  rw [← h, h'.1]
                  exact List.mem_cons_of_mem _ List.mem_cons_self
          | cons c' cs =>
              cases ds with
              | nil =>
                  refine absurd ?_ hcs
                  rw [← h', h.1]
                  exact List.mem_cons_of_mem _ List.mem_cons_self
              | cons e ds =>
                  have htail : c' :: cs = e :: ds := by
                    refine ih h.2 h'.2 ?_ (fun hc => hcs (List.mem_cons_of_mem _ hc))
                      (fun hc => hds (List.mem_cons_of_mem _ hc))
                    exact congrArg some (h.1.symm.trans h'.1)
                  rw [htail]

/-- A chain visits no cell twice. -/
theorem IsChain.nodup (h : IsChain next stop cs) (hstop : stop ∉ cs) : cs.Nodup := by
  induction cs with
  | nil => exact List.nodup_nil
  | cons c cs ih =>
      refine List.nodup_cons.mpr ⟨fun hmem => ?_, ?_⟩
      · -- the chain would be one of its own proper suffixes
        obtain ⟨xs, ys, rfl⟩ := List.append_of_mem hmem
        have hsuffix : IsChain next stop (c :: ys) := @IsChain.suffix next stop (c :: xs) ys c h
        have heq := h.unique hsuffix rfl hstop fun hc => hstop <| by
          rcases List.mem_cons.mp hc with rfl | hc
          · exact List.mem_cons_self
          · exact List.mem_cons_of_mem _ (List.mem_append_right _ (List.mem_cons_of_mem _ hc))
        have hlen := congrArg List.length heq
        simp only [List.length_cons, List.length_append] at hlen
        omega
      · cases cs with
        | nil => exact List.nodup_nil
        | cons d cs => exact ih h.2 fun hc => hstop (List.mem_cons_of_mem _ hc)

end IsChain

/-! ## §2  Tables -/

/-- The entry of a cell; there is none outside the table. -/
def entryAt (table : List ℕ) (c : ℕ) : ℕ := table.getD c 0

/-- The table with the entries of `cs` making a chain that ends in `stop`. -/
def link (stop : ℕ) : List ℕ → List ℕ → List ℕ
  | table, [] => table
  | table, [c] => table.set c stop
  | table, c :: d :: cs => link stop (table.set c d) (d :: cs)

/-- The table with the entries of `cs` set to 0. -/
def unlink : List ℕ → List ℕ → List ℕ
  | table, [] => table
  | table, c :: cs => unlink (table.set c 0) cs

section Tables

variable {table cs : List ℕ} {stop c x : ℕ}

theorem entryAt_set_self (h : c < table.length) : entryAt (table.set c x) c = x := by
  simp [entryAt, h]

theorem entryAt_set_of_ne {d : ℕ} (h : c ≠ d) : entryAt (table.set c x) d = entryAt table d := by
  simp [entryAt, h]

theorem entryAt_eq {i : ℕ} (h : table[i]? = some x) : entryAt table i = x := by
  simp [entryAt, List.getD_eq_getElem?_getD, h]

/-- Tables of one length that agree at every cell are equal. -/
theorem ext_entryAt {table' : List ℕ} (hlen : table.length = table'.length)
    (h : ∀ c, c < table.length → entryAt table c = entryAt table' c) : table = table' := by
  apply List.ext_getElem hlen
  intro i hi hi'
  have := h i hi
  rwa [entryAt_eq (List.getElem?_eq_getElem hi), entryAt_eq (List.getElem?_eq_getElem hi')] at this

@[simp] theorem link_nil : link stop table [] = table := rfl

@[simp] theorem unlink_nil : unlink table [] = table := rfl

@[simp] theorem length_link : (link stop table cs).length = table.length := by
  induction cs generalizing table with
  | nil => rfl
  | cons c cs ih =>
      cases cs with
      | nil => exact List.length_set
      | cons d cs => exact ih.trans List.length_set

@[simp] theorem length_unlink : (unlink table cs).length = table.length := by
  induction cs generalizing table with
  | nil => rfl
  | cons c cs ih => exact ih.trans List.length_set

theorem entryAt_link_of_not_mem (h : x ∉ cs) : entryAt (link stop table cs) x = entryAt table x := by
  induction cs generalizing table with
  | nil => rfl
  | cons c cs ih =>
      have hne : c ≠ x := fun heq => h (heq ▸ List.mem_cons_self)
      have hx : x ∉ cs := fun hm => h (List.mem_cons_of_mem _ hm)
      cases cs with
      | nil => exact entryAt_set_of_ne hne
      | cons d cs => exact (ih hx).trans (entryAt_set_of_ne hne)

/-- Every entry of a linked table was there before, or is a cell of the chain, or the
end mark. -/
theorem mem_link (h : x ∈ link stop table cs) : x ∈ table ∨ x ∈ cs ∨ x = stop := by
  induction cs generalizing table with
  | nil => exact Or.inl h
  | cons c cs ih =>
      cases cs with
      | nil =>
          rcases List.mem_or_eq_of_mem_set h with h | h
          · exact Or.inl h
          · exact Or.inr (Or.inr h)
      | cons d cs =>
          rcases ih h with h | h | h
          · rcases List.mem_or_eq_of_mem_set h with h | rfl
            · exact Or.inl h
            · exact Or.inr (Or.inl (List.mem_cons_of_mem _ List.mem_cons_self))
          · exact Or.inr (Or.inl (List.mem_cons_of_mem _ h))
          · exact Or.inr (Or.inr h)

theorem isChain_link (hne : cs ≠ []) (hnodup : cs.Nodup) (hlt : ∀ c ∈ cs, c < table.length) :
    IsChain (entryAt (link stop table cs)) stop cs := by
  induction cs generalizing table with
  | nil => exact absurd rfl hne
  | cons c cs ih =>
      obtain ⟨hc, hnodup⟩ := List.nodup_cons.mp hnodup
      have hclt := hlt c List.mem_cons_self
      cases cs with
      | nil => exact entryAt_set_self hclt
      | cons d cs =>
          refine ⟨(entryAt_link_of_not_mem hc).trans (entryAt_set_self hclt), ?_⟩
          refine ih (List.cons_ne_nil d cs) hnodup fun e he => ?_
          rw [List.length_set]
          exact hlt e (List.mem_cons_of_mem _ he)

theorem entryAt_unlink_of_not_mem (h : x ∉ cs) :
    entryAt (unlink table cs) x = entryAt table x := by
  induction cs generalizing table with
  | nil => rfl
  | cons c cs ih =>
      have hne : c ≠ x := fun heq => h (heq ▸ List.mem_cons_self)
      exact (ih fun hm => h (List.mem_cons_of_mem _ hm)).trans (entryAt_set_of_ne hne)

theorem entryAt_unlink_of_mem (h : x ∈ cs) (hlt : x < table.length) :
    entryAt (unlink table cs) x = 0 := by
  induction cs generalizing table with
  | nil => cases h
  | cons c cs ih =>
      by_cases hx : x ∈ cs
      · exact ih hx (by rwa [List.length_set])
      · obtain rfl : x = c := (List.mem_cons.mp h).resolve_right hx
        exact (entryAt_unlink_of_not_mem hx).trans (entryAt_set_self hlt)

theorem mem_unlink (h : x ∈ unlink table cs) : x ∈ table ∨ x = 0 := by
  induction cs generalizing table with
  | nil => exact Or.inl h
  | cons c cs ih =>
      rcases ih h with h | h
      · exact List.mem_or_eq_of_mem_set h
      · exact Or.inr h

/-- Linking free cells and unlinking them again. -/
theorem unlink_link (hfree : ∀ c ∈ cs, entryAt table c = 0) (hlt : ∀ c ∈ cs, c < table.length) :
    unlink (link stop table cs) cs = table := by
  apply ext_entryAt
  · rw [length_unlink, length_link]
  · intro c _
    by_cases hc : c ∈ cs
    · rw [entryAt_unlink_of_mem hc (by rw [length_link]; exact hlt c hc), hfree c hc]
    · rw [entryAt_unlink_of_not_mem hc, entryAt_link_of_not_mem hc]

/-- A cell of a chain leads to a cell of the chain or to the end mark. -/
theorem IsChain.next_mem {next : ℕ → ℕ} (h : IsChain next stop cs) (hc : c ∈ cs) :
    next c = stop ∨ next c ∈ cs := by
  induction cs with
  | nil => cases hc
  | cons d cs ih =>
      cases cs with
      | nil =>
          obtain rfl := List.mem_singleton.mp hc
          exact Or.inl h
      | cons e cs =>
          rcases List.mem_cons.mp hc with rfl | hc
          · rw [h.1]
            exact Or.inr (List.mem_cons_of_mem _ List.mem_cons_self)
          · rcases ih h.2 hc with h | h
            · exact Or.inl h
            · exact Or.inr (List.mem_cons_of_mem _ h)

end Tables

/-! ## §3  Free cells -/

/-- The cells with entry 0 of a table that starts with cell `i`. -/
def freeCells : ℕ → List ℕ → List ℕ
  | _, [] => []
  | i, x :: table => if x = 0 then i :: freeCells (i + 1) table else freeCells (i + 1) table

section FreeCells

variable {table : List ℕ} {i c : ℕ}

theorem freeCells_cons_zero : freeCells i (0 :: table) = i :: freeCells (i + 1) table := rfl

theorem freeCells_cons_of_ne {x : ℕ} (h : x ≠ 0) :
    freeCells i (x :: table) = freeCells (i + 1) table := if_neg h

theorem mem_freeCells : c ∈ freeCells i table ↔ i ≤ c ∧ table[c - i]? = some 0 := by
  induction table generalizing i with
  | nil => simp [freeCells]
  | cons x table ih =>
      have htail : c ∈ freeCells (i + 1) table ↔ i + 1 ≤ c ∧ (x :: table)[c - i]? = some 0 := by
        rw [ih]
        refine and_congr_right fun hle => ?_
        rw [show c - i = c - (i + 1) + 1 by omega, List.getElem?_cons_succ]
      by_cases hx : x = 0
      · subst hx
        rw [freeCells_cons_zero, List.mem_cons, htail]
        constructor
        · rintro (rfl | ⟨hle, hc⟩)
          · exact ⟨Nat.le_refl c, by rw [Nat.sub_self]; rfl⟩
          · exact ⟨by omega, hc⟩
        · rintro ⟨hle, hc⟩
          rcases Nat.eq_or_lt_of_le hle with heq | hlt
          · exact Or.inl heq.symm
          · exact Or.inr ⟨hlt, hc⟩
      · rw [freeCells_cons_of_ne hx, htail]
        constructor
        · rintro ⟨hle, hc⟩
          exact ⟨by omega, hc⟩
        · rintro ⟨hle, hc⟩
          rcases Nat.eq_or_lt_of_le hle with heq | hlt
          · rw [heq, Nat.sub_self] at hc
            exact absurd (Option.some.inj hc) hx
          · exact ⟨hlt, hc⟩

/-- The free cells come in increasing order. -/
theorem pairwise_freeCells : (freeCells i table).Pairwise (· < ·) := by
  induction table generalizing i with
  | nil => exact List.Pairwise.nil
  | cons x table ih =>
      by_cases hx : x = 0
      · subst hx
        rw [freeCells_cons_zero]
        exact List.pairwise_cons.mpr ⟨fun c hc => (mem_freeCells.mp hc).1, ih⟩
      · rw [freeCells_cons_of_ne hx]
        exact ih

theorem nodup_freeCells : (freeCells i table).Nodup := by
  exact pairwise_freeCells.imp fun h => Nat.ne_of_lt h

/-- Behind the first free cell come the free cells after it. -/
theorem freeCells_tail {cs : List ℕ} (h : freeCells i table = c :: cs) :
    i ≤ c ∧ cs = freeCells (c + 1) (table.drop (c + 1 - i)) := by
  induction table generalizing i with
  | nil => cases h
  | cons x table ih =>
      by_cases hx : x = 0
      · subst hx
        rw [freeCells_cons_zero] at h
        cases h
        exact ⟨Nat.le_refl c, by rw [Nat.add_sub_cancel_left]; rfl⟩
      · rw [freeCells_cons_of_ne hx] at h
        obtain ⟨hle, hcs⟩ := ih h
        refine ⟨by omega, ?_⟩
        rw [hcs, show c + 1 - i = c + 1 - (i + 1) + 1 by omega]
        rfl

end FreeCells

end Knos.Chains
