import Knos.Printk.Parsing

/-!
# Room in the buffer

With a buffer of any size `vsnprintf` stores what `fill` makes of the pieces of the format
(`vsnprintf_of_roomy`). There is one exception: the end of a string is found by an addition
of addresses, and a length that takes it past the end of the address space makes the copy
leave the buffer (`Overruns`). No string gets that far whose length is below 2 GB, unless the
buffer itself lies at the very end.

The terminator is stored behind the characters without a test. So all is well exactly where
the complete rendering is shorter than the buffer (`vsnprintf_inBounds_iff`), and a shorter
buffer only cuts exactly where its end does not split the prefix of a hexadecimal number
(`vsnprintf_cuts_iff`).
-/

namespace Knos.Printk

open Knos.Bytes Knos.Stack Knos.Pieces

/-! ## §1  Copying a string -/

section Copy

variable {b : Buffer} {source : Store Byte} {len : Word} {str : List Byte}

theorem copyString_of_lt (hroom : str.length ≤ b.size)
    (haddr : b.address + str.length + len.toNat < 2 ^ 64) :
    copyString b source len str = .ok (emit b.size (singles (peek source 0 len.toNat)) str) := by
  unfold copyString
  rw [Nat.mod_eq_of_lt haddr, emit_singles]
  rcases Nat.lt_or_ge (b.size - str.length) len.toNat with hlen | hlen
  · simp only [if_neg (show ¬ b.address + str.length + len.toNat ≤ b.address + b.size by omega),
      if_pos (show str.length + (b.size - str.length) ≤ b.size by omega)]
    rw [take_peek (by omega)]
  · simp only [if_pos (show b.address + str.length + len.toNat ≤ b.address + b.size by omega),
      if_pos (show str.length + len.toNat ≤ b.size by omega)]
    rw [List.take_of_length_le (by rwa [length_peek])]

/-- A sum that wraps around lies below every address of the buffer. -/
theorem copyString_of_ge (hroom : str.length ≤ b.size)
    (haddr : 2 ^ 64 ≤ b.address + str.length + len.toNat) :
    copyString b source len str = .error .overrun := by
  have hfits := b.fits
  have hlen := len.isLt
  have hwrap : (b.address + str.length + len.toNat) % 2 ^ 64 =
      b.address + str.length + len.toNat - 2 ^ 64 := by
    rw [Nat.mod_eq_sub_mod haddr, Nat.mod_eq_of_lt (by omega)]
  unfold copyString
  rw [hwrap]
  simp only [if_pos (show b.address + str.length + len.toNat - 2 ^ 64 ≤ b.address + b.size by omega),
    if_neg (show ¬ str.length + len.toNat ≤ b.size by omega)]

end Copy

/-! ## §2  Storing one field -/

def Field.length (f : Field) : ℕ := f.asPieces.flatten.length

/-- The end of a string that begins so far into the complete rendering wraps around. -/
def Field.Wraps (b : Buffer) (offset : ℕ) : Field → Prop
  | .text lead _ len _ => 2 ^ 64 ≤ b.address + min (offset + lead) b.size + len.toNat
  | _ => False

/-- The field of a `%n`. -/
def Field.isCount : Field → Bool
  | .count _ _ => true
  | _ => false

/-- What `%n` adds. -/
def Field.newCounts (s : Sink) : Field → List (Word × Qualifier × ℕ)
  | .count pointer qualifier => [(pointer, qualifier, s.str.length)]
  | _ => []

section Play

variable {b : Buffer} {s : Sink} {f : Field}

theorem length_emit_spaces (lead : ℕ) {str : List Byte} (h : str.length ≤ b.size) :
    (emit b.size (singles (spaces lead)) str).length = min (str.length + lead) b.size := by
  rw [length_emit (followed_singles _) h, flatten_singles]
  unfold spaces
  rw [List.length_replicate]

theorem play_of_not_wraps (hroom : s.str.length ≤ b.size) (h : ¬ f.Wraps b s.str.length) :
    f.play b s = .ok ⟨emit b.size f.asPieces s.str, s.counts ++ f.newCounts s⟩ := by
  cases f with
  | pieces ps =>
      show Except.ok _ = Except.ok (⟨_, s.counts ++ []⟩ : Sink)
      rw [List.append_nil]
      rfl
  | count pointer qualifier =>
      show Except.ok _ = Except.ok (⟨emit b.size [] s.str, _⟩ : Sink)
      rw [emit_nil]
      rfl
  | text lead source len trail =>
      have hlead := length_emit_spaces (b := b) lead hroom
      have haddr : b.address + min (s.str.length + lead) b.size + len.toNat < 2 ^ 64 :=
        Nat.not_le.mp h
      show (copyString b source len _ >>= _) = _
      rw [copyString_of_lt (by rw [hlead]; omega) (by rwa [hlead])]
      show Except.ok _ = Except.ok (⟨_, s.counts ++ []⟩ : Sink)
      rw [List.append_nil, ← emit_append, ← emit_append]
      rfl

theorem play_of_wraps (hroom : s.str.length ≤ b.size) (h : f.Wraps b s.str.length) :
    f.play b s = .error .overrun := by
  cases f with
  | pieces ps => exact h.elim
  | count pointer qualifier => exact h.elim
  | text lead source len trail =>
      have hlead := length_emit_spaces (b := b) lead hroom
      have haddr : 2 ^ 64 ≤ b.address + min (s.str.length + lead) b.size + len.toNat := h
      show (copyString b source len _ >>= _) = _
      rw [copyString_of_ge (by rw [hlead]; omega) (by rwa [hlead])]
      rfl

end Play

/-! ## §3  Storing all fields -/

/-- A string is reached whose end wraps around. -/
def Overruns (b : Buffer) : ℕ → List Field → Prop
  | _, [] => False
  | offset, f :: fields =>
      offset < b.size ∧ (f.Wraps b offset ∨ Overruns b (offset + f.length) fields)

section PlayAll

variable {b : Buffer} {fields : List Field} {s : Sink} {offset : ℕ}

theorem playAll_of_not_overruns (hfollowed : ∀ f ∈ fields, Followed f.asPieces)
    (hlen : s.str.length = min offset b.size) (h : ¬ Overruns b offset fields) :
    ∃ counts, playAll b fields s = .ok ⟨emit b.size (piecesOf fields) s.str, counts⟩ ∧
      ((∀ f ∈ fields, ∀ s, f.newCounts s = []) → counts = s.counts) := by
  induction fields generalizing s offset with
  | nil => exact ⟨s.counts, by rw [show piecesOf [] = [] from rfl, emit_nil]; rfl, fun _ => rfl⟩
  | cons f fields ih =>
      rw [List.forall_mem_cons] at hfollowed
      by_cases hroom : s.str.length < b.size
      · have hoff : s.str.length = offset := by omega
        have hplay := play_of_not_wraps (f := f) hroom.le fun hw => h ⟨by omega, Or.inl (hoff ▸ hw)⟩
        obtain ⟨counts, heq, hcounts⟩ := @ih
          ⟨emit b.size f.asPieces s.str, s.counts ++ f.newCounts s⟩ (offset + f.length)
          hfollowed.2 (by rw [← hoff]; exact length_emit hfollowed.1 hroom.le)
          fun hrest => h ⟨by omega, Or.inr hrest⟩
        refine ⟨counts, ?_, fun hnone => ?_⟩
        · rw [playAll_cons_of_lt b hroom, hplay]
          show playAll b fields _ = _
          rw [heq]
          show _ = Except.ok (⟨emit b.size (f.asPieces ++ piecesOf fields) s.str, counts⟩ : Sink)
          rw [emit_append]
        · rw [List.forall_mem_cons] at hnone
          rw [hcounts hnone.2, hnone.1 s, List.append_nil]
      · refine ⟨s.counts, ?_, fun _ => rfl⟩
        rw [playAll_of_full b hroom, emit_of_full (followed_piecesOf
          (List.forall_mem_cons.mpr hfollowed)) (Nat.not_lt.mp hroom)]

theorem playAll_of_overruns (hfollowed : ∀ f ∈ fields, Followed f.asPieces)
    (hlen : s.str.length = min offset b.size) (h : Overruns b offset fields) :
    playAll b fields s = .error .overrun := by
  induction fields generalizing s offset with
  | nil => exact h.elim
  | cons f fields ih =>
      rw [List.forall_mem_cons] at hfollowed
      have hroom : s.str.length < b.size := by have := h.1; omega
      have hoff : s.str.length = offset := by omega
      rw [playAll_cons_of_lt b hroom]
      by_cases hwraps : f.Wraps b s.str.length
      · rw [play_of_wraps hroom.le hwraps]
        rfl
      · rw [play_of_not_wraps hroom.le hwraps]
        show playAll b fields _ = _
        refine @ih ⟨_, _⟩ (offset + f.length) hfollowed.2 ?_ (h.2.resolve_left (hoff ▸ hwraps))
        rw [← hoff]
        exact length_emit hfollowed.1 hroom.le

/-- A rendering that fits has no string that long. -/
theorem not_overruns_of_lt (h : offset + (piecesOf fields).flatten.length < b.size) :
    ¬ Overruns b offset fields := by
  induction fields generalizing offset with
  | nil => exact id
  | cons f fields ih =>
      have hsplit : (piecesOf (f :: fields)).flatten.length =
          f.length + (piecesOf fields).flatten.length := by
        show (f.asPieces ++ piecesOf fields).flatten.length = _
        rw [List.flatten_append, List.length_append]
        rfl
      rw [hsplit] at h
      rintro ⟨-, hwraps | hrest⟩
      · have hfits := b.fits
        cases f with
        | pieces ps => exact hwraps
        | count pointer qualifier => exact hwraps
        | text lead source len trail =>
            have hlen : (Field.text lead source len trail).length = lead + (len.toNat + trail) := by
              unfold Field.length Field.asPieces spaces
              simp only [List.flatten_append, flatten_singles, List.length_append,
                List.length_replicate, length_peek]
            have haddr : 2 ^ 64 ≤ b.address + min (offset + lead) b.size + len.toNat := hwraps
            omega
      · exact ih (by omega) hrest

end PlayAll

section Call

variable (b : Buffer) (memory : Memory) (fmt : List Byte) (args : ℕ → Word)

theorem followed_fieldsOf : ∀ f ∈ fieldsOf memory fmt args, Followed f.asPieces :=
  followed_fieldsFrom memory args _ fmt 0

theorem length_fill_rendering (size : ℕ) :
    (fill size (piecesOf (fieldsOf memory fmt args))).length =
      min size (rendering memory fmt args).length :=
  (followed_piecesOf (followed_fieldsOf memory fmt args)).length_fill size

/-- **What a call stores.** -/
theorem vsnprintf_of_roomy (hsize : 1 ≤ b.size)
    (h : ¬ Overruns b 0 (fieldsOf memory (fmt ++ [0]) args)) :
    ∃ counts, vsnprintf b memory (fmt ++ [0]) args =
        .ok (finish b ⟨fill b.size (piecesOf (fieldsOf memory (fmt ++ [0]) args)), counts⟩) ∧
      ((∀ f ∈ fieldsOf memory (fmt ++ [0]) args, ∀ s, f.newCounts s = []) → counts = []) := by
  obtain ⟨counts, heq, hcounts⟩ := @playAll_of_not_overruns b _ ⟨[], []⟩ 0
    (followed_fieldsOf memory (fmt ++ [0]) args) (Nat.zero_min _).symm h
  refine ⟨counts, ?_, hcounts⟩
  rw [vsnprintf_eq_playAll b memory args fmt hsize, heq]
  rfl

/-- A rendering that is shorter than the buffer is stored as a whole. -/
theorem vsnprintf_of_fits (h : (rendering memory (fmt ++ [0]) args).length < b.size) :
    ∃ counts, vsnprintf b memory (fmt ++ [0]) args =
        .ok (finish b ⟨rendering memory (fmt ++ [0]) args, counts⟩) ∧
      ((∀ f ∈ fieldsOf memory (fmt ++ [0]) args, ∀ s, f.newCounts s = []) → counts = []) := by
  have hover : ¬ Overruns b 0 (fieldsOf memory (fmt ++ [0]) args) :=
    not_overruns_of_lt (by rwa [Nat.zero_add])
  obtain ⟨counts, hok, hcounts⟩ := vsnprintf_of_roomy b memory fmt args (by omega) hover
  rw [fill_of_length_le (show (rendering memory (fmt ++ [0]) args).length ≤ b.size from h.le)] at hok
  exact ⟨counts, hok, hcounts⟩

theorem vsnprintf_of_overruns (hsize : 1 ≤ b.size)
    (h : Overruns b 0 (fieldsOf memory (fmt ++ [0]) args)) :
    vsnprintf b memory (fmt ++ [0]) args = .error .overrun := by
  rw [vsnprintf_eq_playAll b memory args fmt hsize,
    @playAll_of_overruns b _ ⟨[], []⟩ 0 (followed_fieldsOf memory (fmt ++ [0]) args)
      (Nat.zero_min _).symm h]
  rfl

/-- A call that returns has copied no string too far, whether or not its format has a NUL. -/
theorem stored_of_returns {o : Output} (hsize : 1 ≤ b.size)
    (h : vsnprintf b memory fmt args = .ok o) :
    ¬ Overruns b 0 (fieldsOf memory fmt args) ∧ ∃ counts,
      o = finish b ⟨fill b.size (piecesOf (fieldsOf memory fmt args)), counts⟩ := by
  have hfollowed := followed_fieldsOf memory fmt args
  unfold vsnprintf at h
  rw [if_neg (by omega)] at h
  cases hformat : format b memory args (fmt.length + 1) fmt 0 ⟨[], []⟩ with
  | error fault =>
      rw [hformat] at h
      cases h
  | ok s =>
      have hplay : playAll b (fieldsOf memory fmt args) ⟨[], []⟩ = .ok s :=
        playAll_of_format b memory args hformat
      have hover : ¬ Overruns b 0 (fieldsOf memory fmt args) := by
        intro hover
        rw [@playAll_of_overruns b _ ⟨[], []⟩ 0 hfollowed (Nat.zero_min _).symm hover] at hplay
        cases hplay
      obtain ⟨counts, hok, -⟩ :=
        @playAll_of_not_overruns b _ ⟨[], []⟩ 0 hfollowed (Nat.zero_min _).symm hover
      rw [hok] at hplay
      rw [hformat, ← Except.ok.inj hplay] at h
      exact ⟨hover, counts, (Except.ok.inj h).symm⟩

end Call

/-! ## §4  The bytes of the buffer -/

/-- The call has written nothing but bytes of the buffer, and the count it returns is the
place of a NUL there. -/
structure InBounds (b : Buffer) (o : Output) : Prop where
  inside : o.written.length ≤ b.size
  noCounts : o.counts = []
  ret_nonneg : 0 ≤ o.ret
  ret_le : o.ret ≤ b.size - 1
  terminated : o.written[o.ret.toNat]? = some 0

/-- The text leaves room for its terminator. From 2 GB on the count wraps around; what it
then points at is a character of the text, which `%c` can make a NUL. -/
def LeavesRoom (b : Buffer) (text : List Byte) : Prop :=
  text.length < b.size ∧
    (text.length < 2 ^ 31 ∨ ∃ r : ℕ, int32 text.length = r ∧ text[r]? = some 0)

theorem int32_of_lt {n : ℕ} (h : n < 2 ^ 31) : int32 n = n := int32_eq (by omega) (by omega)

theorem int32_le (x : ℤ) : int32 x < 2 ^ 31 := by
  have := Int.bmod_lt (x := x) (m := 2 ^ 32) (by decide)
  unfold int32
  omega

section Bounds

variable {b : Buffer} {text : List Byte} {counts : List (Word × Qualifier × ℕ)}

theorem inBounds_of_leavesRoom (h : LeavesRoom b text) : InBounds b (finish b ⟨text, []⟩) := by
  have hret : (finish b ⟨text, []⟩).ret = int32 text.length := if_pos h.1
  have hwritten : (finish b ⟨text, []⟩).written = text ++ [0] := rfl
  have hinside : (finish b ⟨text, []⟩).written.length ≤ b.size := by
    rw [hwritten, List.length_append]
    exact h.1
  rcases h.2 with hsmall | ⟨r, hr, hnul⟩
  · rw [int32_of_lt hsmall] at hret
    refine ⟨hinside, rfl, by omega, by have := h.1; omega, ?_⟩
    rw [hret, Int.toNat_natCast, hwritten, List.getElem?_concat_length]
  · have hlt : r < text.length := (List.getElem?_eq_some_iff.mp hnul).1
    rw [hr] at hret
    refine ⟨hinside, rfl, by omega, by have := h.1; omega, ?_⟩
    rw [hret, Int.toNat_natCast, hwritten, List.getElem?_append_left hlt, hnul]

theorem leavesRoom_of_inBounds (h : InBounds b (finish b ⟨text, counts⟩)) : LeavesRoom b text := by
  have hwritten : (finish b ⟨text, counts⟩).written = text ++ [0] := rfl
  have hlt : text.length < b.size := by
    have hinside := h.inside
    rw [hwritten, List.length_append] at hinside
    exact hinside
  have hret : (finish b ⟨text, counts⟩).ret = int32 text.length := if_pos hlt
  refine ⟨hlt, ?_⟩
  rcases Nat.lt_or_ge text.length (2 ^ 31) with hsmall | hbig
  · exact Or.inl hsmall
  · have hnonneg := h.ret_nonneg
    have hnul := h.terminated
    have hle := int32_le text.length
    rw [hret] at hnonneg hnul
    rw [hwritten, List.getElem?_append_left (by omega)] at hnul
    exact Or.inr ⟨(int32 text.length).toNat, (Int.toNat_of_nonneg hnonneg).symm, hnul⟩

end Bounds

/-- The format has no `%n`. -/
def WithoutCounts (memory : Memory) (fmt : List Byte) (args : ℕ → Word) : Prop :=
  ∀ f ∈ fieldsOf memory fmt args, ∀ s, f.newCounts s = []

theorem withoutCounts_of_all {memory : Memory} {fmt : List Byte} {args : ℕ → Word}
    (h : ((fieldsOf memory fmt args).all fun f => !f.isCount) = true) :
    WithoutCounts memory fmt args := by
  intro f hf s
  have hnone := List.all_eq_true.mp h f hf
  cases f with
  | pieces ps => rfl
  | text lead source len trail => rfl
  | count pointer qualifier => cases hnone

theorem vsnprintf_inBounds_iff {b : Buffer} (hsize : 1 ≤ b.size) (memory : Memory)
    (fmt : List Byte) (args : ℕ → Word) (hn : WithoutCounts memory (fmt ++ [0]) args) :
    (∃ o, vsnprintf b memory (fmt ++ [0]) args = .ok o ∧ InBounds b o) ↔
      LeavesRoom b (rendering memory (fmt ++ [0]) args) := by
  have hlen := length_fill_rendering memory (fmt ++ [0]) args b.size
  constructor
  · rintro ⟨o, heq, hbounds⟩
    obtain ⟨-, counts, rfl⟩ := stored_of_returns b memory _ args hsize heq
    have hroom := leavesRoom_of_inBounds hbounds
    -- what leaves room has not been cut
    have hshort := hroom.1
    rw [hlen] at hshort
    rwa [fill_of_length_le (show (rendering memory (fmt ++ [0]) args).length ≤ b.size by omega)]
      at hroom
  · intro hroom
    obtain ⟨counts, hok, hcounts⟩ := vsnprintf_of_fits b memory fmt args hroom.1
    refine ⟨_, hok, ?_⟩
    rw [hcounts hn]
    exact inBounds_of_leavesRoom hroom

/-- A buffer of one byte. -/
def oneByte : Buffer := ⟨0x1000, 1, by decide⟩

/-- A buffer of two bytes. -/
def twoBytes : Buffer := ⟨0x1000, 2, by decide⟩

/-- Arguments that are all alike. -/
def sameArgs (x : Word) : ℕ → Word := fun _ => x

/-- Memory without strings. -/
def emptyMemory : Memory := fun _ => 0

/-- `"%#x,%4d%c"` -/
def mixedFormat : List Byte :=
  [chr '%', chr '#', chr 'x', chr ',', chr '%', chr '4', chr 'd', chr '%', chr 'c']

/-- 171, -5 and a letter; `"0xab,  -5z"` is what they are printed as. -/
def mixedArgs : ℕ → Word
  | 0 => 0xab
  | 1 => -5
  | _ => 0x7a

/-- A buffer with just the room for this text and its terminator. -/
def tightBuffer : Buffer := ⟨0x1000, 11, by decide⟩

theorem vsnprintf_inBounds_iff_mixed :
    (∃ o, vsnprintf tightBuffer emptyMemory (mixedFormat ++ [0]) mixedArgs = .ok o ∧
        InBounds tightBuffer o) ↔
      LeavesRoom tightBuffer (rendering emptyMemory (mixedFormat ++ [0]) mixedArgs) :=
  vsnprintf_inBounds_iff (show 1 ≤ 11 by decide) emptyMemory mixedFormat mixedArgs
    (withoutCounts_of_all (by decide +kernel))

/-- A text that fills the buffer: the NUL goes behind it, and the count is that of the last
character. -/
theorem full_buffer_not_terminated :
    ∃ o, vsnprintf oneByte emptyMemory ([chr 'a'] ++ [0]) (sameArgs 0) = .ok o ∧
      o.written = [chr 'a', 0] ∧ o.ret = 0 ∧ ¬ InBounds oneByte o := by
  refine ⟨⟨[chr 'a'], [0], [], 0⟩, by decide +kernel, rfl, rfl, fun h => ?_⟩
  exact absurd h.inside (show ¬ 2 ≤ 1 by decide)

/-! ## §5  Shorter buffers -/

theorem vsnprintf_cuts_iff {b₁ b₂ : Buffer} (hsize : 1 ≤ b₁.size) (hle : b₁.size ≤ b₂.size)
    (memory : Memory) (fmt : List Byte) (args : ℕ → Word) :
    (∃ o₁ o₂, vsnprintf b₁ memory (fmt ++ [0]) args = .ok o₁ ∧
        vsnprintf b₂ memory (fmt ++ [0]) args = .ok o₂ ∧ o₁.str <+: o₂.str) ↔
      ¬ Overruns b₁ 0 (fieldsOf memory (fmt ++ [0]) args) ∧
        ¬ Overruns b₂ 0 (fieldsOf memory (fmt ++ [0]) args) ∧
          (b₁.size = b₂.size ∨
            CleanCut b₁.size (piecesOf (fieldsOf memory (fmt ++ [0]) args))) := by
  have hprefix := fill_prefix_iff
    (followed_piecesOf (followed_fieldsOf memory (fmt ++ [0]) args)) hle
  constructor
  · rintro ⟨o₁, o₂, heq₁, heq₂, hpre⟩
    obtain ⟨hover₁, counts₁, rfl⟩ := stored_of_returns b₁ memory _ args hsize heq₁
    obtain ⟨hover₂, counts₂, rfl⟩ := stored_of_returns b₂ memory _ args (hsize.trans hle) heq₂
    exact ⟨hover₁, hover₂, hprefix.mp hpre⟩
  · rintro ⟨hover₁, hover₂, hcut⟩
    obtain ⟨counts₁, hok₁, -⟩ := vsnprintf_of_roomy b₁ memory fmt args hsize hover₁
    obtain ⟨counts₂, hok₂, -⟩ := vsnprintf_of_roomy b₂ memory fmt args (hsize.trans hle) hover₂
    exact ⟨_, _, hok₁, hok₂, hprefix.mpr hcut⟩

/-- `"%#x"` -/
def hexFormat : List Byte := [chr '%', chr '#', chr 'x']

theorem vsnprintf_cuts_iff_hex :
    (∃ o₁ o₂, vsnprintf oneByte emptyMemory (hexFormat ++ [0]) (sameArgs 0xab) = .ok o₁ ∧
        vsnprintf twoBytes emptyMemory (hexFormat ++ [0]) (sameArgs 0xab) = .ok o₂ ∧
          o₁.str <+: o₂.str) ↔
      ¬ Overruns oneByte 0 (fieldsOf emptyMemory (hexFormat ++ [0]) (sameArgs 0xab)) ∧
        ¬ Overruns twoBytes 0 (fieldsOf emptyMemory (hexFormat ++ [0]) (sameArgs 0xab)) ∧
          (oneByte.size = twoBytes.size ∨
            CleanCut oneByte.size
              (piecesOf (fieldsOf emptyMemory (hexFormat ++ [0]) (sameArgs 0xab)))) :=
  vsnprintf_cuts_iff (show 1 ≤ 1 by decide) (show 1 ≤ 2 by decide) emptyMemory hexFormat
    (sameArgs 0xab)

/-- Where the prefix does not fit, the first digit takes its place. -/
theorem digit_instead_of_prefix :
    ∃ o₁ o₂, vsnprintf oneByte emptyMemory (hexFormat ++ [0]) (sameArgs 0xab) = .ok o₁ ∧
      vsnprintf twoBytes emptyMemory (hexFormat ++ [0]) (sameArgs 0xab) = .ok o₂ ∧
        o₁.str = [chr 'a'] ∧ o₂.str = [chr '0', chr 'x'] ∧ ¬ o₁.str <+: o₂.str :=
  ⟨⟨[chr 'a'], [0], [], 0⟩, ⟨[chr '0', chr 'x'], [0], [], 1⟩, by decide +kernel,
    by decide +kernel, rfl, rfl, by decide⟩

end Knos.Printk
