import Knos.Bootloader.MemoryMap
import Knos.Bootloader.ModeList

/-!
# The mode that is set

The printing routines give back the registers and the stack as they found them, and a round
of the loop puts back the segment of the list, so the loop does what the hand-over says of it
(`getModeListLoop_refines`): `CandidateMode` gets the first mode of the list that is wanted.

The test behind the loop compares a double word, and the second half of it is the beginning
of a message. So a candidate is always found, and where no mode of the list is wanted mode
4000h is set (`setSvgaMode_iff`).
-/

namespace Knos.Bootloader.ModeList

open Knos.Bytes Knos.Loop HandOver

/-! ## §1  Printing -/

/-- All but the registers that the printing routines work with. -/
def Cpu.rest (c : Cpu) : Cpu := { c with ax := 0, bx := 0, cx := 0, dx := 0 }

/-- All but AX. -/
def Cpu.noAx (c : Cpu) : Cpu := { c with ax := 0 }

theorem eq_of_noAx {c c' : Cpu} (h : c'.noAx = c.noAx) : c' = { c with ax := c'.ax } := by
  have hall : c' = { c'.noAx with ax := c'.ax } := rfl
  rw [h] at hall
  exact hall

/-- What was saved is restored, whatever the four registers are. -/
theorem restore_of_rest {c c' : Cpu} (h : c'.rest = c.save.rest) : c'.restore = c := by
  have hrest : c'.restore = c'.rest.restore := rfl
  rw [hrest, h]
  rfl

section Printing

variable (firmware : Firmware)

theorem printChar_eq (c : Cpu) : printChar firmware c = { c with ax := 0x0E00 + c.ax % 256 } := by
  unfold printChar int10
  dsimp only
  rw [if_neg (by omega), if_neg (by omega)]

theorem noAx_printChars (chars : List ℕ) (c : Cpu) :
    (printChars firmware chars c).noAx = c.noAx := by
  induction chars generalizing c with
  | nil => rfl
  | cons x chars ih =>
      show (printChars firmware chars (printChar firmware (c.movAl x))).noAx = _
      rw [ih, printChar_eq]
      rfl

theorem rest_hexLoop (n : ℕ) (c : Cpu) : (hexLoop firmware n c).rest = c.rest := by
  induction n generalizing c with
  | zero => rfl
  | succ n ih =>
      rw [hexLoop, ih, printChar_eq]
      rfl

theorem printHex16_eq (c : Cpu) : printHex16 firmware c = c := by
  refine restore_of_rest ?_
  rw [rest_hexLoop]
  rfl

/-- The digits are on the stack, and CX counts them. -/
theorem convertLoop_eq (c : Cpu) : ∃ digits, (convertLoop c).cx = c.cx + digits.length ∧
    (convertLoop c).rest = { c.rest with stack := digits ++ c.stack } := by
  induction hn : c.ax using Nat.strong_induction_on generalizing c with
  | _ n ih =>
      rw [convertLoop]
      dsimp only
      split_ifs with hlast
      · exact ⟨[c.ax % 10 + 0x30], rfl, rfl⟩
      · obtain ⟨digits, hcx, hrest⟩ := ih (c.ax / 10) (by omega)
          { c.push (c.ax % 10 + 0x30) with
            ax := c.ax / 10, dx := c.ax % 10 + 0x30, cx := c.cx + 1 } rfl
        refine ⟨digits ++ [c.ax % 10 + 0x30], ?_, ?_⟩
        · rw [hcx, List.length_append, List.length_singleton]
          dsimp only
          omega
        · rw [hrest, List.append_assoc]
          rfl

theorem rest_printLoop {digits stack : List ℕ} {c : Cpu} (h : c.stack = digits ++ stack) :
    (printLoop firmware digits.length c).rest = { c.rest with stack := stack } := by
  induction digits generalizing c with
  | nil =>
      rw [List.nil_append] at h
      show c.rest = { c.rest with stack := stack }
      rw [← h]
      rfl
  | cons digit digits ih =>
      have hpop : ({ printChar firmware c.popAx with cx := digits.length } : Cpu).stack =
          digits ++ stack := by
        rw [printChar_eq]
        show c.stack.tail = _
        rw [h]
        rfl
      rw [List.length_cons, printLoop, ih hpop, printChar_eq]
      rfl

/-- **A number is printed** without a trace in the registers and on the stack. -/
theorem printDec_eq (c : Cpu) : printDec firmware c = c := by
  obtain ⟨digits, hcx, hrest⟩ := convertLoop_eq { c.save with bx := 10, cx := 0 }
  have hstack : (convertLoop { c.save with bx := 10, cx := 0 }).stack = digits ++ c.save.stack :=
    congrArg Cpu.stack hrest
  refine restore_of_rest ?_
  rw [hcx, Nat.zero_add, rest_printLoop firmware hstack, hrest]
  rfl

end Printing

/-! ## §2  A round -/

section Round

variable (firmware : Firmware)

theorem noAx_showMode (c : Cpu) : (showMode firmware c).noAx = c.noAx := by
  unfold showMode
  dsimp only
  rw [noAx_printChars, printHex16_eq]
  rfl

/-- The request that INT 10h gets. -/
theorem askModeInfo_eq (c : Cpu) : askModeInfo firmware c = int10 firmware { c with
    ax := 0x4F01, bx := c.cx, di := vbeModeInfoBlock, es := 0, stack := c.es :: c.stack } := rfl

theorem askModeInfo_of_some {c : Cpu} {block : Block 256}
    (h : firmware.modeInfo c.cx = some block) :
    askModeInfo firmware c = { c with
      ax := 0x004F, bx := c.cx, di := vbeModeInfoBlock, es := 0, stack := c.es :: c.stack
      ram := poke c.ram vbeModeInfoBlock block.val } := by
  rw [askModeInfo_eq]
  unfold int10
  dsimp only
  rw [if_pos rfl, h]
  dsimp only
  rw [Nat.zero_mul, Nat.zero_add]

theorem askModeInfo_of_none {c : Cpu} (h : firmware.modeInfo c.cx = none) :
    askModeInfo firmware c = { c with
      ax := 0x014F, bx := c.cx, di := vbeModeInfoBlock, es := 0, stack := c.es :: c.stack } := by
  rw [askModeInfo_eq]
  unfold int10
  dsimp only
  rw [if_pos rfl, h]

theorem noAx_printHex16 (c : Cpu) (x : ℕ) :
    (printHex16 firmware { c with ax := x }).noAx = c.noAx := by
  rw [printHex16_eq]
  rfl

theorem noAx_printDec (c : Cpu) (x : ℕ) : (printDec firmware { c with ax := x }).noAx = c.noAx := by
  rw [printDec_eq]
  rfl

/-- The information is shown from memory, and nothing but AX is used for it. -/
theorem noAx_showModeInfo (c : Cpu) : (showModeInfo firmware c).noAx = c.noAx := by
  unfold showModeInfo
  extract_lets c₁ c₂ c₃ c₄ c₅ c₆ c₇ c₈
  have hwidth : c₂.noAx = c.noAx :=
    (noAx_printChars firmware _ c₁).trans (noAx_printDec firmware c _)
  have hheight : c₄.noAx = c₂.noAx :=
    (noAx_printChars firmware _ c₃).trans (noAx_printDec firmware c₂ _)
  have hdepth : c₆.noAx = c₄.noAx :=
    (noAx_printChars firmware _ c₅).trans (noAx_printDec firmware c₄ _)
  have haddress : c₈.noAx = c₆.noAx :=
    (noAx_printHex16 firmware c₇ _).trans (noAx_printHex16 firmware c₆ _)
  rw [noAx_printChars, haddress, hdepth, hheight, hwidth]

/-- The mode of a block is wanted. -/
def Wanted (ram : Store Byte) (base : ℕ) : Prop :=
  wordAt ram (base + 0x12) = defaultXRes ∧ wordAt ram (base + 0x14) = defaultYRes ∧
    (ram (base + 0x19)).toNat = defaultBpp

instance (ram : Store Byte) (base : ℕ) : Decidable (Wanted ram base) :=
  inferInstanceAs (Decidable (_ ∧ _))

theorem wordEs_of_zero {c : Cpu} (hes : c.es = 0) (offset : ℕ) :
    c.wordEs offset = wordAt c.ram offset := by
  unfold Cpu.wordEs
  rw [hes, Nat.zero_mul, Nat.zero_add]

theorem noAx_checkMode (c : Cpu) : (checkMode c).2.noAx = c.noAx := by
  unfold checkMode
  dsimp only
  split_ifs <;> rfl

theorem checkMode_fst {c : Cpu} (hes : c.es = 0) :
    (checkMode c).1 = decide (Wanted c.ram vbeModeInfoBlock) := by
  have hchecks : (checkMode c).1 =
      (if c.wordEs (vbeModeInfoBlock + 0x12) ≠ defaultXRes then false
      else if c.wordEs (vbeModeInfoBlock + 0x14) ≠ defaultYRes then false
      else decide ((c.wordEs (vbeModeInfoBlock + 0x14) / 256 * 256 +
        c.byteEs (vbeModeInfoBlock + 0x19)) % 256 = defaultBpp)) := by
    unfold checkMode
    dsimp only
    split_ifs <;> first | rfl | contradiction
  have hbyte := (c.ram (vbeModeInfoBlock + 0x19)).isLt
  have hal (ax : ℕ) : (ax / 256 * 256 + c.byteEs (vbeModeInfoBlock + 0x19)) % 256 =
      (c.ram (vbeModeInfoBlock + 0x19)).toNat := by
    unfold Cpu.byteEs
    rw [hes, Nat.zero_mul, Nat.zero_add]
    omega
  rw [hchecks, hal, wordEs_of_zero hes, wordEs_of_zero hes]
  unfold Wanted
  split_ifs with hwidth hheight
  · exact (decide_eq_false fun h => hwidth h.1).symm
  · exact (decide_eq_false fun h => hheight h.2.1).symm
  · refine decide_eq_decide.mpr ⟨fun h => ?_, fun h => h.2.2⟩
    exact ⟨not_not.mp hwidth, not_not.mp hheight, h⟩

/-- What a round makes of the information on a mode. -/
theorem checkMode_showModeInfo {c : Cpu} (hes : c.es = 0) :
    ∃ ax, checkMode (showModeInfo firmware c) =
      (decide (Wanted c.ram vbeModeInfoBlock), { c with ax := ax }) := by
  have hshow := eq_of_noAx (noAx_showModeInfo firmware c)
  generalize (showModeInfo firmware c).ax = ax at hshow
  rw [hshow]
  have hchecked := eq_of_noAx (noAx_checkMode { c with ax := ax })
  exact ⟨_, Prod.ext (checkMode_fst hes) hchecked⟩

end Round

/-! ## §3  The loop -/

theorem repMovsw_eq (n : ℕ) {c : Cpu} (hsi : c.si + 2 * n < 65536) (hdi : c.di + 2 * n < 65536)
    (hapart : c.ds * 16 + c.si + 2 * n ≤ c.es * 16 + c.di) :
    repMovsw n c = { c with
      cx := 0, si := c.si + 2 * n, di := c.di + 2 * n
      ram := poke c.ram (c.es * 16 + c.di) (peek c.ram (c.ds * 16 + c.si) (2 * n)) } := by
  induction n generalizing c with
  | zero =>
      rw [Nat.mul_zero, peek_zero, poke_nil]
      rfl
  | succ n ih =>
      have hsi' : (c.si + 2) % 65536 = c.si + 2 := Nat.mod_eq_of_lt (by omega)
      have hdi' : (c.di + 2) % 65536 = c.di + 2 := Nat.mod_eq_of_lt (by omega)
      rw [repMovsw, hsi', hdi', ih (by dsimp only; omega) (by dsimp only; omega)
        (by dsimp only; omega)]
      dsimp only
      rw [← Nat.add_assoc, ← Nat.add_assoc, peek_poke_of_disjoint (by omega),
        show 2 * (n + 1) = 2 + 2 * n by omega, peek_add, poke_append, length_peek,
        Nat.add_assoc c.si, Nat.add_assoc c.di]

/-- The candidate, and its block behind the one that the firmware fills. -/
theorem selectMode_eq {candidateMode : ℕ} {c : Cpu} (hes : c.es = 0)
    (habove : vbeModeSelectedInfo + 512 ≤ c.ds * 16 + candidateMode) :
    (selectMode candidateMode c).ds = c.ds ∧ (selectMode candidateMode c).setModes = c.setModes ∧
      (selectMode candidateMode c).ram =
        poke (poke c.ram vbeModeSelectedInfo (peek c.ram vbeModeInfoBlock 512))
          (c.ds * 16 + candidateMode) (leBytes 2 c.cx) := by
  have hcopy := @repMovsw_eq 256 { c with
    ram := poke c.ram (c.ds * 16 + candidateMode) (leBytes 2 c.cx)
    stack := c.ds :: c.stack
    ax := 0, ds := 0, si := vbeModeInfoBlock, di := vbeModeSelectedInfo, cx := 256 }
    (show vbeModeInfoBlock + 2 * 256 < 65536 by decide)
    (show vbeModeSelectedInfo + 2 * 256 < 65536 by decide) (by dsimp only; rw [hes]; decide)
  have hselect : selectMode candidateMode c = (repMovsw 256 { c with
    ram := poke c.ram (c.ds * 16 + candidateMode) (leBytes 2 c.cx)
    stack := c.ds :: c.stack
    ax := 0, ds := 0, si := vbeModeInfoBlock, di := vbeModeSelectedInfo, cx := 256 }).popDs := rfl
  rw [hselect, hcopy]
  refine ⟨rfl, rfl, ?_⟩
  show poke (poke c.ram _ _) (c.es * 16 + vbeModeSelectedInfo)
    (peek (poke c.ram _ _) (0 * 16 + vbeModeInfoBlock) (2 * 256)) = _
  rw [hes, Nat.zero_mul, Nat.zero_add, Nat.zero_add, peek_poke_of_disjoint]
  · exact poke_comm c.ram (Or.inr (by rw [length_peek]; exact habove))
  · exact Or.inl (Nat.le_trans (by decide) habove)

/-- The state behind the call for the mode that SI points at. -/
structure Answered (c : Cpu) (block : Block 256) (c' : Cpu) : Prop where
  cx_eq : c'.cx = c.wordEs c.si
  es_eq : c'.es = 0
  ds_eq : c'.ds = c.ds
  si_eq : c'.si = c.si
  stack_eq : c'.stack = c.es :: c.stack
  ram_eq : c'.ram = poke c.ram vbeModeInfoBlock block.val
  setModes_eq : c'.setModes = c.setModes

section Step

variable (firmware : Firmware) (candidateMode fuel : ℕ) {c : Cpu}

theorem getModeListLoop_of_end (h : c.wordEs c.si = 0xFFFF) :
    getModeListLoop firmware candidateMode (fuel + 1) c = .ok { c with cx := c.wordEs c.si } := by
  rw [getModeListLoop]
  exact if_pos h

theorem getModeListLoop_of_none (hmore : c.wordEs c.si ≠ 0xFFFF)
    (hinfo : firmware.modeInfo (c.wordEs c.si) = none) :
    ∃ c', c'.setModes = c.setModes ∧
      getModeListLoop firmware candidateMode (fuel + 1) c = .error (.modeInfoFail, c') := by
  have hshow := eq_of_noAx (noAx_showMode firmware { c with cx := c.wordEs c.si })
  generalize hasked : askModeInfo firmware (showMode firmware { c with cx := c.wordEs c.si }) = asked
  have hfacts : asked.ax ≠ 0x004F ∧ asked.setModes = c.setModes := by
    rw [← hasked, hshow, askModeInfo_of_none firmware (by exact hinfo)]
    exact ⟨(by decide : 0x014F ≠ 0x004F), rfl⟩
  refine ⟨asked, hfacts.2, ?_⟩
  rw [getModeListLoop]
  dsimp only
  rw [if_neg hmore, hasked, if_pos hfacts.1]

/-- A round for a mode that the firmware knows. -/
theorem getModeListLoop_of_some {block : Block 256} (hmore : c.wordEs c.si ≠ 0xFFFF)
    (hinfo : firmware.modeInfo (c.wordEs c.si) = some block) :
    ∃ c', Answered c block c' ∧ getModeListLoop firmware candidateMode (fuel + 1) c =
      if Wanted c'.ram vbeModeInfoBlock then .ok (selectMode candidateMode c')
      else getModeListLoop firmware candidateMode fuel (restoreAndNextMode c') := by
  have hshow := eq_of_noAx (noAx_showMode firmware { c with cx := c.wordEs c.si })
  generalize hasked : askModeInfo firmware (showMode firmware { c with cx := c.wordEs c.si }) = asked
  have hfacts : asked.ax = 0x004F ∧ Answered c block asked := by
    rw [← hasked, hshow, askModeInfo_of_some firmware (by exact hinfo)]
    exact ⟨rfl, rfl, rfl, rfl, rfl, rfl, rfl, rfl⟩
  obtain ⟨hax, hanswered⟩ := hfacts
  obtain ⟨ax', hchecked⟩ := checkMode_showModeInfo firmware hanswered.es_eq
  refine ⟨{ asked with ax := ax' }, ⟨hanswered.cx_eq, hanswered.es_eq, hanswered.ds_eq,
    hanswered.si_eq, hanswered.stack_eq, hanswered.ram_eq, hanswered.setModes_eq⟩, ?_⟩
  rw [getModeListLoop]
  dsimp only
  rw [if_neg hmore, hasked, if_neg (not_not.mpr hax), hchecked]
  by_cases hwanted : Wanted asked.ram vbeModeInfoBlock
  · rw [decide_eq_true hwanted, if_pos hwanted]
  · rw [decide_eq_false hwanted, if_neg hwanted]

end Step

section HandOver

variable (firmware : Firmware) (fuel : ℕ) {es si : ℕ} {ram : Store Byte}

theorem handOver_of_end (h : wordAt ram (es * 16 + si) = 0xFFFF) :
    HandOver.getModeListLoop firmware es (fuel + 1) si ram = .ok (0, ram) := by
  rw [HandOver.getModeListLoop]
  exact if_pos h

theorem handOver_of_some {block : Block 256} (hmore : wordAt ram (es * 16 + si) ≠ 0xFFFF)
    (hinfo : firmware.modeInfo (wordAt ram (es * 16 + si)) = some block) :
    HandOver.getModeListLoop firmware es (fuel + 1) si ram =
      if Wanted (poke ram vbeModeInfoBlock block.val) vbeModeInfoBlock then
        .ok (wordAt ram (es * 16 + si),
          poke (poke ram vbeModeInfoBlock block.val) vbeModeSelectedInfo
            (peek (poke ram vbeModeInfoBlock block.val) vbeModeInfoBlock 512))
      else HandOver.getModeListLoop firmware es fuel ((si + 2) % 65536)
        (poke ram vbeModeInfoBlock block.val) := by
  rw [HandOver.getModeListLoop]
  dsimp only
  rw [if_neg hmore, hinfo]
  rfl

end HandOver

/-- The loop with registers and the loop of the hand-over end alike. -/
def Agrees (candidateMode : ℕ) (c : Cpu) :
    Except Hang (ℕ × Store Byte) → Except (Hang × Cpu) Cpu → Prop
  | .error hang, .error (hang', c') => hang' = hang ∧ c'.setModes = c.setModes
  | .ok (mode, ram), .ok c' =>
      c'.ds = c.ds ∧ c'.setModes = c.setModes ∧
        c'.ram = poke ram (c.ds * 16 + candidateMode) (leBytes 2 mode)
  | _, _ => False

theorem Agrees.of_eq {candidateMode : ℕ} {c c' : Cpu} (hds : c'.ds = c.ds)
    (hset : c'.setModes = c.setModes) {x : Except Hang (ℕ × Store Byte)}
    {y : Except (Hang × Cpu) Cpu} (h : Agrees candidateMode c' x y) :
    Agrees candidateMode c x y := by
  unfold Agrees at h ⊢
  rwa [hds, hset] at h

/-- **The registers and segments are kept in order**: the loop does what the hand-over says of
it, and leaves the mode in `CandidateMode`. -/
theorem getModeListLoop_refines (firmware : Firmware) {candidateMode : ℕ} (fuel : ℕ) {c : Cpu}
    (habove : vbeModeSelectedInfo + 512 ≤ c.ds * 16 + candidateMode)
    (hunset : peek c.ram (c.ds * 16 + candidateMode) 2 = leBytes 2 0) :
    Agrees candidateMode c (HandOver.getModeListLoop firmware c.es fuel c.si c.ram)
      (getModeListLoop firmware candidateMode fuel c) := by
  induction fuel generalizing c with
  | zero => exact ⟨rfl, rfl⟩
  | succ fuel ih =>
      by_cases hend : wordAt c.ram (c.es * 16 + c.si) = 0xFFFF
      · rw [handOver_of_end firmware fuel hend,
          getModeListLoop_of_end firmware candidateMode fuel hend]
        refine ⟨rfl, rfl, ?_⟩
        rw [← hunset, poke_peek]
      · cases hinfo : firmware.modeInfo (wordAt c.ram (c.es * 16 + c.si)) with
        | none =>
            obtain ⟨c', hset, heq⟩ := getModeListLoop_of_none firmware candidateMode fuel hend hinfo
            rw [heq, HandOver.getModeListLoop]
            dsimp only
            rw [if_neg hend, hinfo]
            exact ⟨rfl, hset⟩
        | some block =>
            obtain ⟨c', h, heq⟩ := getModeListLoop_of_some firmware candidateMode fuel hend hinfo
            have habove' : vbeModeSelectedInfo + 512 ≤ c'.ds * 16 + candidateMode := by
              rw [h.ds_eq]
              exact habove
            have hunset' : peek c'.ram (c'.ds * 16 + candidateMode) 2 = leBytes 2 0 := by
              rw [h.ram_eq, h.ds_eq, peek_poke_of_disjoint, hunset]
              rw [block.property]
              exact Or.inr (Nat.le_trans (by decide) habove)
            rw [heq, handOver_of_some firmware fuel hend hinfo, ← h.ram_eq]
            by_cases hwanted : Wanted c'.ram vbeModeInfoBlock
            · have hselect := selectMode_eq h.es_eq habove'
              rw [if_pos hwanted, if_pos hwanted]
              rw [h.ds_eq, h.cx_eq, h.setModes_eq] at hselect
              exact hselect
            · have hes : (restoreAndNextMode c').es = c.es := by
                show c'.stack.headD 0 = c.es
                rw [h.stack_eq]
                rfl
              have hsi : (restoreAndNextMode c').si = (c.si + 2) % 65536 := by
                show (c'.si + 2) % 65536 = _
                rw [h.si_eq]
              have hrest := @ih (restoreAndNextMode c') habove' hunset'
              rw [if_neg hwanted, if_neg hwanted]
              rw [hes, hsi] at hrest
              exact hrest.of_eq h.ds_eq h.setModes_eq

/-! ## §4  Lists of modes -/

/-- The words from an address on are these modes, with the end mark behind them. -/
def ListAt (ram : Store Byte) : ℕ → List ℕ → Prop
  | a, [] => wordAt ram a = 0xFFFF
  | a, mode :: modes => wordAt ram a = mode ∧ mode ≠ 0xFFFF ∧ ListAt ram (a + 2) modes

/-- The firmware says that the mode is 1024x768 at 32 bits per pixel. -/
def qualifies (firmware : Firmware) (mode : ℕ) : Bool :=
  match firmware.modeInfo mode with
  | some block => decide (Wanted (fun i => block.val.getD i 0) 0)
  | none => false

/-- What the loop of the hand-over has found: the first mode of the list that qualifies, with
its block, or 0. -/
def Found (firmware : Firmware) (modes : List ℕ) (mode : ℕ) (ram : Store Byte) : Prop :=
  match modes.find? (qualifies firmware) with
  | some first => mode = first ∧ ∃ block, firmware.modeInfo first = some block ∧
      peek ram vbeModeSelectedInfo 256 = block.val
  | none => mode = 0

section Lists

variable {firmware : Firmware} {ram ram' : Store Byte} {modes : List ℕ}

theorem ListAt.congr {a : ℕ} (h : ListAt ram a modes)
    (hsame : ∀ x, a ≤ x → x < a + 2 * (modes.length + 1) → ram' x = ram x) :
    ListAt ram' a modes := by
  induction modes generalizing a with
  | nil =>
      have hword : wordAt ram' a = wordAt ram a := by
        unfold wordAt
        rw [hsame a le_rfl (by omega), hsame (a + 1) (by omega) (by rw [List.length_nil]; omega)]
      exact hword.trans h
  | cons mode modes ih =>
      rw [List.length_cons] at hsame
      have hword : wordAt ram' a = wordAt ram a := by
        unfold wordAt
        rw [hsame a le_rfl (by omega), hsame (a + 1) (by omega) (by omega)]
      exact ⟨hword.trans h.1, h.2.1, ih h.2.2 fun x hx hlt => hsame x (by omega) (by omega)⟩

/-- The block that was filled is the one that is checked. -/
theorem wanted_poke (block : Block 256) :
    Wanted (poke ram vbeModeInfoBlock block.val) vbeModeInfoBlock ↔
      Wanted (fun i => block.val.getD i 0) 0 := by
  have hbyte (i : ℕ) (hi : i < 256) :
      poke ram vbeModeInfoBlock block.val (vbeModeInfoBlock + i) = block.val.getD i 0 := by
    have hlt : i < block.val.length := block.property.symm ▸ hi
    rw [List.getD_eq_getElem?_getD, List.getElem?_eq_getElem hlt]
    exact poke_inside ram (List.getElem?_eq_getElem hlt)
  unfold Wanted wordAt
  simp only [Nat.zero_add, Nat.add_assoc vbeModeInfoBlock, hbyte _ (show 0x12 < 256 by decide),
    hbyte _ (show 0x12 + 1 < 256 by decide), hbyte _ (show 0x14 < 256 by decide),
    hbyte _ (show 0x14 + 1 < 256 by decide), hbyte _ (show 0x19 < 256 by decide)]

/-- The first half of what is copied is the block. -/
theorem peek_selected (block : Block 256) :
    peek (poke (poke ram vbeModeInfoBlock block.val) vbeModeSelectedInfo
      (peek (poke ram vbeModeInfoBlock block.val) vbeModeInfoBlock 512)) vbeModeSelectedInfo 256 =
        block.val := by
  have hcopied := peek_poke_peek (poke ram vbeModeInfoBlock block.val)
    (poke ram vbeModeInfoBlock block.val) vbeModeSelectedInfo vbeModeInfoBlock
    (show 0 + 256 ≤ 512 by decide)
  rw [Nat.add_zero, Nat.add_zero] at hcopied
  rw [hcopied]
  have hself := @peek_poke_self _ vbeModeInfoBlock ram block.val
  rwa [block.property] at hself

/-- **The loop finds the first mode that qualifies.** -/
theorem handOver_of_list {fuel es si : ℕ} (hfuel : modes.length < fuel)
    (hlist : ListAt ram (es * 16 + si) modes) (hsegment : si + 2 * (modes.length + 1) ≤ 65536)
    (hapart : es * 16 + si + 2 * (modes.length + 1) ≤ vbeModeInfoBlock ∨
      vbeModeInfoBlock + 256 ≤ es * 16 + si)
    (hinfo : ∀ mode ∈ modes, (firmware.modeInfo mode).isSome) :
    ∃ mode ram', HandOver.getModeListLoop firmware es fuel si ram = .ok (mode, ram') ∧
      Found firmware modes mode ram' := by
  induction modes generalizing fuel si ram with
  | nil =>
      obtain ⟨fuel, rfl⟩ : ∃ n, fuel = n + 1 := ⟨fuel - 1, by omega⟩
      exact ⟨0, ram, handOver_of_end firmware fuel hlist, rfl⟩
  | cons mode modes ih =>
      obtain ⟨fuel, rfl⟩ : ∃ n, fuel = n + 1 := ⟨fuel - 1, by omega⟩
      obtain ⟨hword, hmore, hrest⟩ := hlist
      rw [List.length_cons] at hfuel hsegment hapart
      rw [List.forall_mem_cons] at hinfo
      obtain ⟨block, hblock⟩ := Option.isSome_iff_exists.mp hinfo.1
      have hqualifies : qualifies firmware mode =
          decide (Wanted (poke ram vbeModeInfoBlock block.val) vbeModeInfoBlock) := by
        unfold qualifies
        rw [hblock]
        exact decide_eq_decide.mpr (wanted_poke block).symm
      have hstep := @handOver_of_some firmware fuel es si ram block (by rwa [hword]) (by rwa [hword])
      rw [hword] at hstep
      by_cases hwanted : Wanted (poke ram vbeModeInfoBlock block.val) vbeModeInfoBlock
      · rw [decide_eq_true hwanted] at hqualifies
        rw [if_pos hwanted] at hstep
        refine ⟨mode, _, hstep, ?_⟩
        unfold Found
        rw [List.find?_cons_of_pos hqualifies]
        exact ⟨rfl, block, hblock, peek_selected block⟩
      · rw [decide_eq_false hwanted] at hqualifies
        have hsi : (si + 2) % 65536 = si + 2 := Nat.mod_eq_of_lt (by omega)
        rw [if_neg hwanted, hsi] at hstep
        have hkept : ListAt (poke ram vbeModeInfoBlock block.val) (es * 16 + (si + 2)) modes := by
          refine ListAt.congr hrest fun x hx hlt => poke_outside ram ?_
          rw [block.property]
          omega
        have hfuel' : modes.length < fuel := by omega
        obtain ⟨first, ram', hloop, hfound⟩ := ih hfuel' hkept (by omega) (by omega) hinfo.2
        refine ⟨first, ram', hstep.trans hloop, ?_⟩
        unfold Found
        rw [List.find?_cons_of_neg (by rw [hqualifies]; exact Bool.false_ne_true)]
        exact hfound

end Lists

/-! ## §5  The mode that is set -/

/-- A word that was stored. -/
theorem wordAt_poke_word (ram : Store Byte) (a n : ℕ) :
    wordAt (poke ram a (leBytes 2 n)) a = n % 65536 := by
  have hpeek := @peek_poke_self _ a ram (leBytes 2 n)
  rw [length_leBytes] at hpeek
  have hnat : wordAt (poke ram a (leBytes 2 n)) a =
      leNat (peek (poke ram a (leBytes 2 n)) a 2) := rfl
  rw [hnat, hpeek, leNat_leBytes]
  rfl

/-- The state that a run has come to. -/
def reached : Except (Hang × Cpu) Cpu → Cpu
  | .ok c => c
  | .error (_, c) => c

/-- What the loop finds when it is entered: a list of modes, apart from the block that the
firmware fills. -/
structure HasList (c : Cpu) (modes : List ℕ) : Prop where
  listAt : ListAt c.ram (c.es * 16 + c.si) modes
  inSegment : c.si + 2 * (modes.length + 1) ≤ 65536
  apart : c.es * 16 + c.si + 2 * (modes.length + 1) ≤ vbeModeInfoBlock ∨
    vbeModeInfoBlock + 256 ≤ c.es * 16 + c.si

/-- The loader lies above the blocks and has not chosen a mode. -/
structure Loaded (candidateMode : ℕ) (c : Cpu) : Prop where
  above : vbeModeSelectedInfo + 512 ≤ c.ds * 16 + candidateMode
  candidate_eq : peek c.ram (c.ds * 16 + candidateMode) 2 = leBytes 2 0
  message_eq : wordAt c.ram (c.ds * 16 + candidateMode + 2) = startLoaderMessage
  setModes_eq : c.setModes = []

/-- The first mode that qualifies is set, and its block copied; without one nothing is set. -/
def SetsFirst (firmware : Firmware) (modes : List ℕ) (r : Except (Hang × Cpu) Cpu) : Prop :=
  match modes.find? (qualifies firmware) with
  | some mode => (reached r).setModes = [(mode + 0x4000) % 65536] ∧
      ∃ block, firmware.modeInfo mode = some block ∧
        peek (reached r).ram vbeModeSelectedInfo 256 = block.val
  | none => ∃ c, r = .error (.svgaModeFail, c) ∧ c.setModes = []

section Run

variable {firmware : Firmware} {candidateMode fuel : ℕ} {c : Cpu} {modes : List ℕ}

/-- The message behind the candidate makes the double word something. -/
theorem endModeListLoop_eq (h : c.wordDs (candidateMode + 2) ≠ 0) :
    (reached (endModeListLoop firmware candidateMode c)).setModes =
        c.setModes ++ [(c.wordDs candidateMode + 0x4000) % 65536] ∧
      (reached (endModeListLoop firmware candidateMode c)).ram = c.ram := by
  have hshown : int10 firmware { c with ax := 0x1301, bx := 0x000F, cx := 30, dx := 0, es := c.ds } =
      { c with ax := 0x1301, bx := 0x000F, cx := 30, dx := 0, es := c.ds } := rfl
  have hask : ∃ c', c'.setModes = c.setModes ++ [(c.wordDs candidateMode + 0x4000) % 65536] ∧
      c'.ram = c.ram ∧ endModeListLoop firmware candidateMode c =
        if c'.ax ≠ 0x004F then .error (.svgaModeFail, c') else .ok c' := by
    refine ⟨int10 firmware { c with
      ax := 0x4F02, bx := (c.wordDs candidateMode + 0x4000) % 65536, cx := 30, dx := 0, es := c.ds },
      rfl, rfl, ?_⟩
    unfold endModeListLoop
    rw [if_neg fun hzero => h hzero.2]
    show (let shown := int10 firmware { c with
        ax := 0x1301, bx := 0x000F, cx := 30, dx := 0, es := c.ds }
      let asked := int10 firmware { shown with
        ax := 0x4F02, bx := (shown.wordDs candidateMode + 0x4000) % 65536 }
      if asked.ax ≠ 0x004F then Except.error (Hang.svgaModeFail, asked) else Except.ok asked) = _
    rw [hshown]
    rfl
  obtain ⟨c', hset, hram, heq⟩ := hask
  rw [heq]
  split_ifs
  · exact ⟨hset, hram⟩
  · exact ⟨hset, hram⟩

/-- What the loop leaves to `EndModeListLoop`: the candidate, with the message behind it. -/
theorem getModeListLoop_leaves (hloaded : Loaded candidateMode c) (hlist : HasList c modes)
    (hinfo : ∀ mode ∈ modes, (firmware.modeInfo mode).isSome) (hfuel : modes.length < fuel) :
    ∃ mode ram c', Found firmware modes mode ram ∧
      getModeListLoop firmware candidateMode fuel c = .ok c' ∧ c'.setModes = [] ∧
      c'.wordDs candidateMode = mode % 65536 ∧
      c'.wordDs (candidateMode + 2) = startLoaderMessage ∧
      peek c'.ram vbeModeSelectedInfo 256 = peek ram vbeModeSelectedInfo 256 := by
  obtain ⟨mode, ram, hloop, hfound⟩ :=
    handOver_of_list hfuel hlist.listAt hlist.inSegment hlist.apart hinfo
  have hagrees := getModeListLoop_refines firmware fuel hloaded.above hloaded.candidate_eq
  rw [hloop] at hagrees
  cases hrun : getModeListLoop firmware candidateMode fuel c with
  | error e =>
      rw [hrun] at hagrees
      exact hagrees.elim
  | ok c' =>
      rw [hrun] at hagrees
      obtain ⟨hds, hset, hram⟩ := hagrees
      have habove := hloaded.above
      refine ⟨mode, ram, c', hfound, rfl, hset.trans hloaded.setModes_eq, ?_, ?_, ?_⟩
      · unfold Cpu.wordDs
        rw [hds, hram, wordAt_poke_word]
      · have hbyte (x : ℕ) (hx : c.ds * 16 + candidateMode + 2 ≤ x) : c'.ram x = c.ram x := by
          rw [hram, poke_outside ram (by rw [length_leBytes]; omega),
            getModeListLoop_frame fuel hloop (by omega)]
        rw [← hloaded.message_eq]
        unfold Cpu.wordDs wordAt
        rw [hds, ← Nat.add_assoc, hbyte _ le_rfl, hbyte _ (by omega)]
      · rw [hram]
        exact peek_poke_of_disjoint (Or.inl (Nat.le_trans (by decide) habove))

/-- Whatever the loop has found, a mode is set. -/
theorem setSvgaMode_eq (hloaded : Loaded candidateMode c) (hlist : HasList c modes)
    (hinfo : ∀ mode ∈ modes, (firmware.modeInfo mode).isSome) (hfuel : modes.length < fuel) :
    ∃ mode ram, Found firmware modes mode ram ∧
      (reached (setSvgaMode firmware candidateMode fuel c)).setModes = [(mode + 0x4000) % 65536] ∧
        peek (reached (setSvgaMode firmware candidateMode fuel c)).ram vbeModeSelectedInfo 256 =
          peek ram vbeModeSelectedInfo 256 := by
  obtain ⟨mode, ram, c', hfound, hrun, hset, hcandidate, hmessage, hcopied⟩ :=
    getModeListLoop_leaves hloaded hlist hinfo hfuel
  have hne : c'.wordDs (candidateMode + 2) ≠ 0 := by
    rw [hmessage]
    decide
  have hsame : setSvgaMode firmware candidateMode fuel c =
      endModeListLoop firmware candidateMode c' := by
    unfold setSvgaMode
    rw [hrun]
    rfl
  obtain ⟨hcalls, hkept⟩ := @endModeListLoop_eq firmware candidateMode c' hne
  refine ⟨mode, ram, hfound, ?_, ?_⟩
  · rw [hsame, hcalls, hset, hcandidate, Nat.mod_add_mod]
    rfl
  · rw [hsame, hkept, hcopied]

/-- **The right mode is set** if and only if there is one in the list. -/
theorem setSvgaMode_iff (hloaded : Loaded candidateMode c) (hlist : HasList c modes)
    (hinfo : ∀ mode ∈ modes, (firmware.modeInfo mode).isSome) (hfuel : modes.length < fuel) :
    SetsFirst firmware modes (setSvgaMode firmware candidateMode fuel c) ↔
      ∃ mode ∈ modes, qualifies firmware mode = true := by
  obtain ⟨mode, ram, hfound, hset, hcopied⟩ := setSvgaMode_eq hloaded hlist hinfo hfuel
  unfold SetsFirst
  unfold Found at hfound
  cases hfirst : modes.find? (qualifies firmware) with
  | none =>
      refine iff_of_false ?_ ?_
      · rintro ⟨c', heq, hnone⟩
        rw [heq] at hset
        exact absurd (hnone.symm.trans hset) (List.cons_ne_nil _ _).symm
      · rintro ⟨mode, hmem, hqualifies⟩
        exact List.find?_eq_none.mp hfirst mode hmem hqualifies
  | some first =>
      rw [hfirst] at hfound
      obtain ⟨rfl, block, hblock, hpeek⟩ := hfound
      exact iff_of_true ⟨hset, block, hblock, hcopied.trans hpeek⟩
        ⟨mode, List.mem_of_find?_eq_some hfirst, List.find?_some hfirst⟩

end Run

/-! ### Short lists -/

/-- A list of modes at 0:8022h, and the word behind `CandidateMode`. -/
def loaderRam (modes : List ℕ) : Store Byte :=
  poke (poke (fun _ => 0) 0x8022 (modes.flatMap (leBytes 2) ++ leBytes 2 0xFFFF)) 0x10502 [0x53, 0x74]

def loaderCpu (modes : List ℕ) : Cpu where
  ax := 0
  bx := 0x8022
  cx := 0
  dx := 0
  si := 0x8022
  di := vbeInfoBlock
  es := 0
  ds := 0x1000
  stack := []
  ram := loaderRam modes
  setModes := []

/-- Firmware that knows every mode, of which only mode 118h has a size, 1024x768 at 32 bits per
pixel. -/
def oneSize : Firmware where
  vbeInfo := none
  modeInfo := fun mode =>
    if mode = 0x118 then some ⟨modeBlock, length_modeBlock⟩
    else some ⟨List.replicate 256 0, List.length_replicate⟩
  setMode := fun _ => true
  longMode := true

theorem setSvgaMode_iff_second :
    SetsFirst oneSize [0x101, 0x118] (setSvgaMode oneSize 0x500 3 (loaderCpu [0x101, 0x118])) ↔
      ∃ mode ∈ [0x101, 0x118], qualifies oneSize mode = true :=
  setSvgaMode_iff ⟨by decide, by decide, by decide, rfl⟩
    ⟨⟨by decide, by decide, by decide, by decide,
      (by decide : wordAt (loaderRam [0x101, 0x118]) 0x8026 = 0xFFFF)⟩, by decide,
      Or.inl (by decide)⟩
    (by decide) (by decide)

/-- No mode of the list is wanted, and mode 4000h is set. -/
theorem unwanted_mode_set :
    (reached (setSvgaMode oneSize 0x500 2 (loaderCpu [0x101]))).setModes = [0x4000] ∧
      ¬ SetsFirst oneSize [0x101] (setSvgaMode oneSize 0x500 2 (loaderCpu [0x101])) := by
  have hnone : [0x101].find? (qualifies oneSize) = none := by decide
  obtain ⟨mode, ram, hfound, hset, -⟩ := @setSvgaMode_eq oneSize 0x500 2 (loaderCpu [0x101])
    [0x101] ⟨by decide, by decide, by decide, rfl⟩
    ⟨⟨by decide, by decide, (by decide : wordAt (loaderRam [0x101]) 0x8024 = 0xFFFF)⟩, by decide,
      Or.inl (by decide)⟩
    (by decide) (by decide)
  unfold Found at hfound
  rw [hnone] at hfound
  rw [hfound] at hset
  refine ⟨hset, fun h => ?_⟩
  unfold SetsFirst at h
  rw [hnone] at h
  obtain ⟨c, heq, hempty⟩ := h
  rw [heq] at hset
  exact absurd (hempty.symm.trans hset) (List.cons_ne_nil _ _).symm

end Knos.Bootloader.ModeList
