import Knos.Lib.Loop
import Knos.Printk.Rendering

/-!
# Reading the format

Every parser stops at the latest at the NUL, which none of the characters it looks for is:
what it leaves still has the NUL, and is not longer than what it was given (`Leaves`). So
`vsnprintf` reads nothing behind the format and comes to an end, and its loop stores the
fields of the format one after the other (`format_eq_playAll`).
-/

namespace Knos.Printk

open Knos.Bytes Knos.Stack Knos.Pieces

/-! ## §1  The parsers -/

/-- A rest of the format that still has the NUL. -/
structure Leaves (fmt rest : List Byte) : Prop where
  terminated : (0 : Byte) ∈ rest
  length_le : rest.length ≤ fmt.length

section Leaves

variable {fmt rest rest' : List Byte} {c : Byte}

theorem Leaves.refl (h : (0 : Byte) ∈ fmt) : Leaves fmt fmt := ⟨h, le_rfl⟩

theorem Leaves.trans (h : Leaves fmt rest) (h' : Leaves rest rest') : Leaves fmt rest' :=
  ⟨h'.terminated, h'.length_le.trans h.length_le⟩

/-- Behind a character that is not the NUL. -/
theorem leaves_tail (h : (0 : Byte) ∈ c :: fmt) (hc : c ≠ 0) : Leaves (c :: fmt) fmt :=
  ⟨(List.mem_cons.mp h).resolve_left hc.symm, Nat.le_succ _⟩

theorem ne_zero_of_eq {x : Char} (h : c = chr x) (hx : chr x ≠ 0) : c ≠ 0 := h ▸ hx

theorem isDigit_ne_zero (h : isDigit c = true) : c ≠ 0 := by
  rintro rfl
  exact absurd h (by decide)

theorem parseFlags_ok (flags : Flags) (h : (0 : Byte) ∈ fmt) :
    ∃ flags' rest, parseFlags flags fmt = .ok (flags', rest) ∧ Leaves fmt rest := by
  induction fmt generalizing flags with
  | nil => exact absurd h List.not_mem_nil
  | cons c fmt ih =>
      have hnext (flags : Flags) (hc : c ≠ 0) : ∃ flags' rest,
          parseFlags flags fmt = .ok (flags', rest) ∧ Leaves (c :: fmt) rest := by
        obtain ⟨flags', rest, heq, hrest⟩ := ih flags (leaves_tail h hc).terminated
        exact ⟨flags', rest, heq, (leaves_tail h hc).trans hrest⟩
      unfold parseFlags
      split_ifs with h₁ h₂ h₃ h₄ h₅
      · exact hnext _ (ne_zero_of_eq h₁ (by decide))
      · exact hnext _ (ne_zero_of_eq h₂ (by decide))
      · exact hnext _ (ne_zero_of_eq h₃ (by decide))
      · exact hnext _ (ne_zero_of_eq h₄ (by decide))
      · exact hnext _ (ne_zero_of_eq h₅ (by decide))
      · exact ⟨flags, c :: fmt, rfl, .refl h⟩

theorem parseDigits_ok (n : ℤ) (h : (0 : Byte) ∈ fmt) :
    ∃ n' rest, parseDigits n fmt = .ok (n', rest) ∧ Leaves fmt rest := by
  induction fmt generalizing n with
  | nil => exact absurd h List.not_mem_nil
  | cons c fmt ih =>
      unfold parseDigits
      split_ifs with hdigit
      · have htail := leaves_tail h (isDigit_ne_zero hdigit)
        obtain ⟨n', rest, heq, hrest⟩ := ih (int32 (n * 10 + (c.toNat - 48))) htail.terminated
        exact ⟨n', rest, heq, htail.trans hrest⟩
      · exact ⟨n, c :: fmt, rfl, .refl h⟩

variable (args : ℕ → Word) (k : ℕ)

theorem parseWidth_ok (flags : Flags) (h : (0 : Byte) ∈ fmt) :
    ∃ flags' width k' rest, parseWidth args k flags fmt = .ok (flags', width, k', rest) ∧
      Leaves fmt rest := by
  cases fmt with
  | nil => exact absurd h List.not_mem_nil
  | cons c fmt =>
      unfold parseWidth
      dsimp only
      split_ifs with hstar hneg hdigit
      · exact ⟨_, _, _, _, rfl, leaves_tail h (ne_zero_of_eq hstar (by decide))⟩
      · exact ⟨_, _, _, _, rfl, leaves_tail h (ne_zero_of_eq hstar (by decide))⟩
      · obtain ⟨n, rest, heq, hrest⟩ := parseDigits_ok 0 h
        rw [heq]
        exact ⟨_, _, _, _, rfl, hrest⟩
      · exact ⟨_, _, _, _, rfl, .refl h⟩

theorem parsePoint_ok (h : (0 : Byte) ∈ fmt) :
    ∃ precision k' rest, parsePoint args k fmt = .ok (precision, k', rest) ∧ Leaves fmt rest := by
  cases fmt with
  | nil => exact absurd h List.not_mem_nil
  | cons c fmt =>
      unfold parsePoint
      dsimp only
      split_ifs with hstar hdigit
      · exact ⟨_, _, _, rfl, leaves_tail h (ne_zero_of_eq hstar (by decide))⟩
      · obtain ⟨n, rest, heq, hrest⟩ := parseDigits_ok 0 h
        rw [heq]
        exact ⟨_, _, _, rfl, hrest⟩
      · exact ⟨_, _, _, rfl, .refl h⟩

theorem parsePrecision_ok (h : (0 : Byte) ∈ fmt) :
    ∃ precision k' rest, parsePrecision args k fmt = .ok (precision, k', rest) ∧
      Leaves fmt rest := by
  cases fmt with
  | nil => exact absurd h List.not_mem_nil
  | cons c fmt =>
      unfold parsePrecision
      dsimp only
      split_ifs with hpoint
      · have htail := leaves_tail h (ne_zero_of_eq hpoint (by decide))
        obtain ⟨precision, k', rest, heq, hrest⟩ := parsePoint_ok args k htail.terminated
        rw [heq]
        exact ⟨_, _, _, rfl, htail.trans hrest⟩
      · exact ⟨_, _, _, rfl, .refl h⟩

theorem parseQualifier_ok (h : (0 : Byte) ∈ fmt) :
    ∃ qualifier rest, parseQualifier fmt = .ok (qualifier, rest) ∧ Leaves fmt rest := by
  cases fmt with
  | nil => exact absurd h List.not_mem_nil
  | cons c fmt =>
      unfold parseQualifier
      dsimp only
      split_ifs with hh hL hl
      · exact ⟨_, _, rfl, leaves_tail h (ne_zero_of_eq hh (by decide))⟩
      · exact ⟨_, _, rfl, leaves_tail h (ne_zero_of_eq hL (by decide))⟩
      · have htail := leaves_tail h (ne_zero_of_eq hl (by decide))
        cases fmt with
        | nil => exact absurd htail.terminated List.not_mem_nil
        | cons c' rest =>
            dsimp only
            split_ifs with hll
            · exact ⟨_, _, rfl, htail.trans (leaves_tail htail.terminated (ne_zero_of_eq hll (by decide)))⟩
            · exact ⟨_, _, rfl, htail⟩
      · exact ⟨_, _, rfl, .refl h⟩

/-- **A directive is read up to its conversion character**, be that the NUL. -/
theorem parseDirective_ok (h : (0 : Byte) ∈ fmt) :
    ∃ directive k' c rest, parseDirective args k fmt = .ok (directive, k', c :: rest) ∧
      Leaves fmt (c :: rest) := by
  obtain ⟨flags, rest₁, heq₁, h₁⟩ := parseFlags_ok {} h
  obtain ⟨flags', width, k₁, rest₂, heq₂, h₂⟩ := parseWidth_ok args k flags h₁.terminated
  obtain ⟨precision, k₂, rest₃, heq₃, h₃⟩ := parsePrecision_ok args k₁ h₂.terminated
  obtain ⟨qualifier, rest₄, heq₄, h₄⟩ := parseQualifier_ok h₃.terminated
  have hall := ((h₁.trans h₂).trans h₃).trans h₄
  obtain ⟨c, rest, rfl⟩ := List.exists_cons_of_ne_nil (List.ne_nil_of_mem hall.terminated)
  refine ⟨⟨flags', width, precision, qualifier⟩, k₂, c, rest, ?_, hall⟩
  unfold parseDirective
  rw [heq₁]
  show (parseWidth args k flags rest₁ >>= _) = _
  rw [heq₂]
  show (parsePrecision args k₁ rest₂ >>= _) = _
  rw [heq₃]
  show (parseQualifier rest₃ >>= _) = _
  rw [heq₄]
  rfl

end Leaves

/-! ## §2  The loop -/

theorem ne_zero_of_conversion {c : Byte} {conversion : Conversion}
    (h : conversionOf c = some conversion) : c ≠ 0 := by
  rintro rfl
  have hnone : conversionOf 0 = none := by decide
  rw [hnone] at h
  cases h

section Loop

variable (b : Buffer) (memory : Memory) (args : ℕ → Word)

theorem playAll_cons_of_lt {f : Field} {fields : List Field} {s : Sink}
    (h : s.str.length < b.size) :
    playAll b (f :: fields) s = (f.play b s >>= fun s => playAll b fields s) := if_pos h

theorem playAll_of_full {s : Sink} (h : ¬ s.str.length < b.size) (fields : List Field) :
    playAll b fields s = .ok s := by
  cases fields with
  | nil => rfl
  | cons f fields => exact if_neg h

/-- **The loop stores the fields.** -/
theorem format_eq_playAll {fuel : ℕ} {fmt : List Byte} (hnul : (0 : Byte) ∈ fmt)
    (hfuel : fmt.length < fuel) (k : ℕ) (s : Sink) :
    format b memory args fuel fmt k s = playAll b (fieldsFrom memory args fuel fmt k) s := by
  induction fuel generalizing fmt k s with
  | zero => exact absurd hfuel (Nat.not_lt_zero _)
  | succ fuel ih =>
      cases fmt with
      | nil => exact absurd hnul List.not_mem_nil
      | cons c fmt =>
          rw [List.length_cons] at hfuel
          unfold format fieldsFrom
          by_cases hc : c = 0
          · rw [if_neg fun h => h.1 hc, if_pos hc]
            rfl
          · have htail := leaves_tail hnul hc
            by_cases hroom : s.str.length < b.size
            · have hliteral (k : ℕ) :
                  format b memory args fuel fmt k { s with str := s.str ++ [c] } =
                    playAll b (.pieces [[c]] :: fieldsFrom memory args fuel fmt k) s := by
                rw [playAll_cons_of_lt b hroom, ih htail.terminated (by omega)]
                show _ = playAll b _ { s with str := emit b.size [[c]] s.str }
                rw [emit_single_of_lt hroom]
              rw [if_pos ⟨hc, hroom⟩, if_neg hc]
              by_cases hpercent : c ≠ chr '%'
              · rw [if_pos hpercent, if_pos hpercent]
                exact hliteral k
              · rw [if_neg hpercent, if_neg hpercent]
                obtain ⟨d, k', c', rest, heq, hrest⟩ := parseDirective_ok args k htail.terminated
                rw [heq, Loop.ok_bind]
                dsimp only
                cases hconv : conversionOf c' with
                | none =>
                    dsimp only
                    rw [show put b.size c s.str = s.str ++ [c] from if_pos hroom]
                    exact hliteral k'
                | some conversion =>
                    dsimp only
                    have hrest' := leaves_tail hrest.terminated (ne_zero_of_conversion hconv)
                    have hlen := (hrest.trans hrest').length_le
                    rw [convert_eq_play, playAll_cons_of_lt b hroom]
                    cases (fieldOf memory args k' d conversion).2.play b s with
                    | error e => rfl
                    | ok s' => exact ih hrest'.terminated (by omega) _ s'
            · rw [if_neg fun h => hroom h.2]
              exact (playAll_of_full b hroom _).symm

/-- Where the loop ends without a fault it has stored the fields, also if the format has no NUL. -/
theorem playAll_of_format {fuel : ℕ} {fmt : List Byte} {k : ℕ} {s s' : Sink}
    (h : format b memory args fuel fmt k s = .ok s') :
    playAll b (fieldsFrom memory args fuel fmt k) s = .ok s' := by
  induction fuel generalizing fmt k s with
  | zero => cases h
  | succ fuel ih =>
      cases fmt with
      | nil => cases h
      | cons c fmt =>
          unfold format at h
          unfold fieldsFrom
          by_cases hc : c = 0
          · rw [if_neg fun h => h.1 hc] at h
            rw [if_pos hc]
            exact h
          by_cases hroom : s.str.length < b.size
          · have hliteral {k : ℕ}
                (h : format b memory args fuel fmt k { s with str := s.str ++ [c] } = .ok s') :
                playAll b (.pieces [[c]] :: fieldsFrom memory args fuel fmt k) s = .ok s' := by
              rw [playAll_cons_of_lt b hroom]
              show playAll b _ { s with str := emit b.size [[c]] s.str } = _
              rw [emit_single_of_lt hroom]
              exact ih h
            rw [if_pos ⟨hc, hroom⟩] at h
            rw [if_neg hc]
            by_cases hpercent : c ≠ chr '%'
            · rw [if_pos hpercent] at h ⊢
              exact hliteral h
            rw [if_neg hpercent] at h ⊢
            cases hparse : parseDirective args k fmt with
            | error fault =>
                rw [hparse] at h
                cases h
            | ok parsed =>
                obtain ⟨d, k', rest⟩ := parsed
                rw [hparse, Loop.ok_bind] at h
                cases rest with
                | nil => cases h
                | cons c' rest =>
                    dsimp only at h ⊢
                    cases hconv : conversionOf c' with
                    | none =>
                        rw [hconv] at h
                        dsimp only at h ⊢
                        rw [show put b.size c s.str = s.str ++ [c] from if_pos hroom] at h
                        exact hliteral h
                    | some conversion =>
                        rw [hconv] at h
                        dsimp only at h ⊢
                        rw [convert_eq_play] at h
                        rw [playAll_cons_of_lt b hroom]
                        cases hplay : (fieldOf memory args k' d conversion).2.play b s with
                        | error fault =>
                            rw [hplay] at h
                            cases h
                        | ok s₁ =>
                            rw [hplay] at h
                            exact ih h
          · rw [if_neg fun h => hroom h.2] at h
            rw [playAll_of_full b hroom]
            exact h

/-- **`vsnprintf` on a terminated format** stores its fields and terminates them. -/
theorem vsnprintf_eq_playAll (fmt : List Byte) (hsize : 1 ≤ b.size) :
    vsnprintf b memory (fmt ++ [0]) args =
      (playAll b (fieldsOf memory (fmt ++ [0]) args) ⟨[], []⟩).map (finish b) := by
  have hnul : (0 : Byte) ∈ fmt ++ [0] := List.mem_append_right fmt (List.mem_singleton_self 0)
  unfold vsnprintf fieldsOf
  rw [if_neg (by omega), format_eq_playAll b memory args hnul (Nat.lt_succ_self _)]
  cases playAll b _ _ <;> rfl

end Loop

end Knos.Printk
