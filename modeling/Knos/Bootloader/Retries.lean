import Knos.Bootloader.LoadLoader

/-!
# Reading again

The boot sector counts failed reads in SI and gives up at 5, but never sets the counter
back: SI is what the firmware left in it at the first read, and points at or behind the
name that is searched at every later one. So the first read is repeated a number of times
that depends on the firmware (`patience`), and no other read is repeated at all.
-/

namespace Knos.Bootloader

open Knos.Bytes Knos.Floppy Knos.Chains Knos.Requests Knos.Requests.Prog Knos.Loop

namespace BootSector

def GaveUp (e : Halt × Machine) : Prop := e.1 = .readError

/-- With this in SI a single failure takes the counter to 5. -/
def Impatient (m : Machine) : Prop := 5 ≤ (m.si + 1) % 65536

/-- How many failures the counter takes that starts at `si`. -/
def patience (si : ℕ) : ℕ := if si % 65536 = 65535 then 5 else 4 - si % 65536

theorem patience_of_impatient {m : Machine} (h : Impatient m) : patience m.si = 0 := by
  unfold Impatient at h
  unfold patience
  split
  · omega
  · omega

theorem patience_succ {si : ℕ} (h : ¬ 5 ≤ (si + 1) % 65536) :
    patience si = patience ((si + 1) % 65536) + 1 := by
  unfold patience
  split
  · rename_i hmax
    rw [show (si + 1) % 65536 = 0 by omega]
    rfl
  · rw [if_neg (by omega)]
    omega

theorem patience_le (si : ℕ) : patience si ≤ 5 := by
  unfold patience
  split
  · exact Nat.le_refl 5
  · omega

/-! ## §1  Reads that are not repeated -/

section Reads

variable {disk : Store Byte}

theorem readOneSectorFunction_failsFast {m : Machine} (hm : m.ax < reachableSectors)
    (h : Impatient m) : FailsFast 0 GaveUp (readOneSectorFunction disk m) := by
  unfold readOneSectorFunction
  rw [readOneSector_eq _ hm, reRead_succ disk m m.ax 6 (Nat.mod_lt _ (by decide))]
  refine ⟨?_, fun status hstatus => ⟨_, (if_neg hstatus).trans (if_pos h), rfl⟩⟩
  show FailsFast 0 GaveUp (.ret (m.served disk m.ax (m.cx % 256)))
  trivial

theorem decodeFat_failsFast {m : Machine} (hm : m.ax < 4096) (h : Impatient m) :
    FailsFast 0 GaveUp (fatEntry (readOneSectorFunction disk) buffer m) := by
  have hlba : (m.fatRequest buffer m.ax).ax < reachableSectors := by
    show 3 * m.ax / 2 / 512 + 1 < 4608
    omega
  rw [fatEntry_eq _ _ hm]
  exact (readOneSectorFunction_failsFast hlba h).bind fun _ _ => trivial

/-- The loop leaves SI alone, however long it runs and wherever the FAT leads it. -/
theorem loadingFile_failsFast (fuel : ℕ) :
    ∀ {m : Machine} {stack : List ℕ} {c : ℕ}, AtCluster m c stack → c < 4096 → Impatient m →
      FailsFast 0 GaveUp (loadingFile disk fuel m) := by
  induction fuel with
  | zero => exact fun _ _ _ => trivial
  | succ fuel ih =>
      intro m stack c hat hc h
      have hlba : (m.setCl 1).ax < reachableSectors := by
        show m.ax < _
        rw [hat.ax_eq]
        exact clusterSector_lt hc
      obtain ⟨m₁, hok, -, hdec⟩ := turn_decodes (reads disk)
        (show buffer + bytesPreSector ≤ 65536 by decide) id (fun _ => rfl) hat hc
      rw [loadingFile_succ]
      refine FailsFast.bind ?_ fun a ha => ?_
      · refine (readOneSectorFunction_failsFast hlba h).bind fun a ha => ?_
        obtain rfl : afterRead disk (m.setCl 1) = a :=
          Except.ok.inj (((reads disk).calm_eq _ hlba).symm.trans ha)
        have hax : (afterCluster disk m).ax < 4096 := by
          rw [hat.ax_after]
          exact hc
        exact decodeFat_failsFast hax h
      · obtain rfl : m₁ = a := Except.ok.inj (hok.symm.trans ha)
        have hentry : m₁.ax < 4096 := by
          rw [hdec.ax_eq]
          exact Fat12.entry_lt _ _ _
        have hsi : m₁.si = m.si := hdec.si_eq
        split
        · trivial
        · have hnext := atCluster_nextCluster hentry
          refine ih (m := addSector (nextCluster m₁)) ⟨hnext.ax_eq, hnext.stack_eq⟩ hentry ?_
          show 5 ≤ (m₁.si + 1) % 65536
          rw [hsi]
          exact h

end Reads

/-! ## §2  The directory -/

section Search

variable {disk : Store Byte} (layout : Layout)

/-- SI points at the name, or behind it. -/
theorem impatient_of_name {m : Machine} {k : ℕ} (hk : k < 12)
    (hsi : m.si = layout.loaderFileName + k) : Impatient m := by
  have habove := layout.above
  have hbelow := layout.below
  unfold Impatient
  rw [hsi, Nat.mod_eq_of_lt (by omega)]
  omega

/-- What comes behind a sector that was read, if the search through the others fails fast. -/
theorem rest_failsFast {n s : ℕ} {m : Machine} (hs : s + (n + 1) = rootDirSectors)
    (hm : m.sectorNumber = rootDirStartSectors + s)
    (hnext : ∀ m' : Machine, m'.sectorNumber = rootDirStartSectors + (s + 1) → Impatient m' →
      FailsFast 0 GaveUp ((searchRootDir layout disk).searchSectors n m')) :
    FailsFast 0 GaveUp ((searchRootDir layout disk).rest n ((searchRootDir layout disk).loaded disk m)) := by
  rcases (searches layout disk).rest_cases n hm with ⟨t, m', -, -, -, hrun, -⟩ |
    ⟨-, ax, cx, dx, di, hrun⟩
  · rw [hrun]
    trivial
  · rw [hrun]
    exact hnext _ (next_sector hs hm).2 (impatient_of_name layout (k := 0) (by decide) rfl)

theorem searchSectors_failsFast (n : ℕ) :
    ∀ {s : ℕ} {m : Machine}, s + n = rootDirSectors → m.sectorNumber = rootDirStartSectors + s →
      Impatient m → FailsFast 0 GaveUp ((searchRootDir layout disk).searchSectors n m) := by
  induction n with
  | zero => exact fun _ _ _ => trivial
  | succ n ih =>
      intro s m hs hm h
      have hreach : ((searchRootDir layout disk).request m).ax < reachableSectors := (next_sector hs hm).1
      have hread : FailsFast 0 GaveUp
          ((searchRootDir layout disk).read ((searchRootDir layout disk).request m)) :=
        readOneSectorFunction_failsFast hreach h
      rw [DirSearch.searchSectors_succ]
      refine hread.bind fun a ha => ?_
      obtain rfl := Except.ok.inj (((searches layout disk).reads.calm_eq _ hreach).symm.trans ha)
      exact rest_failsFast layout hs hm fun m' hm' => ih (by omega) hm'

end Search

/-! ## §3  The first read -/

section First

variable {α : Type} {disk : Store Byte} {count : ℕ}

/-- SI counts a failure. -/
def counted (m : Machine) : Machine := { m with si := (m.si + 1) % 65536 }

/-- One turn of `ReRead`, by what the drive answers. -/
theorem reRead_turn (disk : Store Byte) (m : Machine) (lba turns : ℕ) (hcount : count < 256) :
    ∃ next, reRead disk count (turns + 1) (m.withAddress lba) = .ask next ∧
      next 0 = .ret (m.served disk lba count) ∧ ∀ status, status ≠ 0 → ∃ ax,
        next status =
          if 5 ≤ (counted m).si then
            .stop (.readError, { (counted m).withAddress lba with ax := ax })
          else reRead disk count turns { (counted m).withAddress lba with ax := ax } :=
  ⟨_, reRead_succ disk m lba turns hcount, if_pos rfl, fun status hstatus =>
    ⟨status.toNat * 256, if_neg hstatus⟩⟩

/-- The loop takes as many failures as the counter does, if nothing behind it looks at the
counter. -/
theorem reRead_patient (hcount : count < 256) (lba turns : ℕ) {f : Machine → Exec α} :
    ∀ {m : Machine}, patience m.si < turns →
      (∀ si, f { m.served disk lba count with si := si } = f (m.served disk lba count)) →
      FailsFast 0 GaveUp (f (m.served disk lba count)) →
      Patient 0 GaveUp (patience m.si) (reRead disk count turns (m.withAddress lba) >>= f) ∧
        calm 0 (reRead disk count turns (m.withAddress lba) >>= f) =
          calm 0 (f (m.served disk lba count)) ∧
        requests 0 (reRead disk count turns (m.withAddress lba) >>= f) =
          requests 0 (f (m.served disk lba count)) + 1 := by
  induction turns with
  | zero => exact fun h => absurd h (Nat.not_lt_zero _)
  | succ turns ih =>
      intro m hturns hsi hfast
      obtain ⟨next, hask, hgood, hbad⟩ := reRead_turn disk m lba turns hcount
      have hserved : (next 0 >>= f) = f (m.served disk lba count) := by
        rw [hgood, ret_bind]
      rw [hask, ask_bind]
      have hfirst : FailsFast 0 GaveUp (next 0 >>= f) := by
        rw [hserved]
        exact hfast
      refine ⟨?_, show calm 0 (next 0 >>= f) = _ by rw [hserved],
        show requests 0 (next 0 >>= f) + 1 = _ by rw [hserved]⟩
      by_cases h : 5 ≤ (m.si + 1) % 65536
      · rw [patience_of_impatient h]
        refine ⟨hfirst, fun status hstatus => ?_⟩
        obtain ⟨ax, hstop⟩ := hbad status hstatus
        exact ⟨_, congrArg (· >>= f) (hstop.trans (if_pos h)), rfl⟩
      · have hpat : patience m.si = patience (counted m).si + 1 := patience_succ h
        obtain ⟨turns, rfl⟩ : ∃ k, turns = k + 1 := Nat.exists_eq_succ_of_ne_zero (by omega)
        rw [hpat]
        refine ⟨hfirst, fun status hstatus => ?_⟩
        obtain ⟨ax, hagain⟩ := hbad status hstatus
        have hnext : (next status >>= f) =
            (reRead disk count (turns + 1) ((counted m).withAddress lba) >>= f) :=
          congrArg (· >>= f) (hagain.trans (if_neg h))
        have hsame : f ((counted m).served disk lba count) = f (m.served disk lba count) :=
          hsi (counted m).si
        obtain ⟨hpatient, hcalm, hreq⟩ := @ih (counted m) (by omega)
          (fun si => (hsi si).trans hsame.symm) (hsame ▸ hfast)
        rw [hsame] at hcalm hreq
        show Patient 0 GaveUp _ (next status >>= f) ∧ calm 0 (next status >>= f) =
          calm 0 (next 0 >>= f) ∧ requests 0 (next status >>= f) = requests 0 (next 0 >>= f) + 1
        rw [hnext, hserved]
        exact ⟨hpatient, hcalm, hreq⟩

end First

/-! ## §4  The whole boot sector -/

section Boot

variable {disk : Store Byte}

/-- The disks on which the boot sector ends, and the number of sector requests that it then
needs. -/
inductive BootReads (disk : Store Byte) (fuel : ℕ) : ℕ → Prop
  | loads {i : ℕ} {cs : List ℕ} (h : BootFile disk loaderName i cs) (hfuel : cs.length ≤ fuel) :
      BootReads disk fuel (i / 16 + 1 + 2 * cs.length)
  | notFound (h : ∀ j, j < 16 * rootDirSectors → entryName disk j ≠ loaderName) :
      BootReads disk fuel rootDirSectors

/-- The boot sector behind its first read. -/
def afterFirst (layout : Layout) (disk : Store Byte) (fuel : ℕ) (m : Machine) : Exec Machine :=
  (searchRootDir layout disk).rest 13 { m with si := layout.loaderFileName, di := buffer } >>= fun m =>
    loadingFile disk fuel (findLoaderFile m)

/-- The machine that makes the first read. -/
def firstRequest (layout : Layout) (disk : Store Byte) (m : Machine) : Machine :=
  (searchRootDir layout disk).request (start m)

theorem boot_eq (layout : Layout) (disk : Store Byte) (fuel : ℕ) (m : Machine) :
    boot layout disk fuel m =
      (reRead disk ((firstRequest layout disk m).cx % 256) 7
        ((firstRequest layout disk m).withAddress rootDirStartSectors) >>= afterFirst layout disk fuel) := by
  have hread : readOneSectorFunction disk (firstRequest layout disk m) =
      reRead disk ((firstRequest layout disk m).cx % 256) 7
        ((firstRequest layout disk m).withAddress rootDirStartSectors) :=
    readOneSector_eq _ (show rootDirStartSectors < reachableSectors by decide)
  rw [← hread]
  show ((searchRootDir layout disk).searchSectors (13 + 1) (start m) >>= _) = _
  rw [DirSearch.searchSectors_succ, bind_assoc]
  rfl

/-- Only the entry that the search stops at decides whether the rest fails fast. -/
theorem afterFirst_failsFast (layout : Layout) {fuel reads : ℕ} (h : BootReads disk fuel reads)
    (m : Machine) : FailsFast 0 GaveUp (afterFirst layout disk fuel
      ((firstRequest layout disk m).served disk rootDirStartSectors ((firstRequest layout disk m).cx % 256))) := by
  have hp := searches layout disk
  have hcalm := (hp.sector 13 (m := start m) (show rootDirStartSectors < reachableSectors by decide)).1
  have hrest : FailsFast 0 GaveUp
      ((searchRootDir layout disk).rest 13 ((searchRootDir layout disk).loaded disk (start m))) :=
    rest_failsFast layout (s := 0) rfl rfl fun _ hm' => searchSectors_failsFast layout 13 rfl hm'
  refine hrest.bind fun m₁ hm₁ => ?_
  rw [hm₁] at hcalm
  cases h with
  | loads h hfuel =>
      obtain ⟨m', hok, -, hfound⟩ := hp.found rootDirSectors (Nat.zero_add _) (Nat.zero_le _)
        h.entry_lt h.named h.first (start m) rfl
      obtain rfl : m₁ = m' := Except.ok.inj (hcalm.symm.trans hok)
      have hlast := Nat.lt_succ_of_lt (h.cluster_lt _ h.first_mem)
      exact loadingFile_failsFast fuel (atCluster_fileFound hp hfound hlast loaderBase loaderOffset)
        hlast (impatient_of_name layout (k := 11) (by decide) hfound.si_eq)
  | notFound h =>
      obtain ⟨m', hend, -⟩ := hp.not_found rootDirSectors (Nat.zero_add _) h (start m) rfl
      cases hcalm.symm.trans hend

/-- **The boot sector takes as many failures of its first read as the counter does**, and no
other. -/
theorem boot_patient (layout : Layout) {fuel reads : ℕ} (h : BootReads disk fuel reads)
    (m : Machine) : Patient 0 GaveUp (patience m.si) (boot layout disk fuel m) := by
  rw [boot_eq]
  exact (reRead_patient (m := firstRequest layout disk m) (Nat.mod_lt _ (by decide)) _ 7
    (Nat.lt_of_le_of_lt (patience_le m.si) (by decide)) (fun _ => rfl)
    (afterFirst_failsFast layout h m)).1

/-- How it ends when no read fails. -/
theorem boot_calm (layout : Layout) {fuel reads : ℕ} (h : BootReads disk fuel reads) (m : Machine) :
    requests 0 (boot layout disk fuel m) = reads ∧ 0 < reads ∧
      ∀ e, calm 0 (boot layout disk fuel m) = .error e → ¬ GaveUp e := by
  cases h with
  | loads h hfuel =>
      obtain ⟨m', hok, hreq, -⟩ := boot_loads layout h hfuel m
      refine ⟨hreq, by omega, fun e he => ?_⟩
      cases hok.symm.trans he
  | notFound h =>
      obtain ⟨m', hend, hreq⟩ := (searches layout disk).not_found rootDirSectors (Nat.zero_add _) h
        (start m) rfl
      have hboot : calm 0 (boot layout disk fuel m) = .error (.fileNotFound, m') := by
        show calm 0 ((searchRootDir layout disk).searchSectors rootDirSectors (start m) >>= _) = _
        rw [calm_bind, hend]
        rfl
      refine ⟨(requests_bind_of_error 0 hend _).trans hreq, by decide, fun e he hgave => ?_⟩
      obtain rfl := Except.error.inj (hboot.symm.trans he)
      cases hgave

/-- Five calls of INT 13h in a row fail. They are calls for one request, since the first that
succeeds ends it. -/
def FiveFailures (o : ℕ → Byte) (first : ℕ) : Prop := ∀ i, i < 5 → o (first + i) ≠ 0

/-- What counting to five is to achieve, in the run against the outcomes `o`: fewer failures
change nothing, and `ReadError` comes right behind five. -/
structure RetryLaw (layout : Layout) (disk : Store Byte) (fuel : ℕ) (m : Machine) (o : ℕ → Byte) :
    Prop where
  tolerates : (∀ c, c + 5 ≤ (run o (boot layout disk fuel m) 0).2 → ¬ FiveFailures o c) →
    (run o (boot layout disk fuel m) 0).1 = calm 0 (boot layout disk fuel m)
  gives_up : ∀ e, (run o (boot layout disk fuel m) 0).1 = .error e → GaveUp e →
    ∃ c, (run o (boot layout disk fuel m) 0).2 = c + 5 ∧ FiveFailures o c

/-- **The law holds** exactly if the first read fails no more often than its counter takes
and no later read fails, or if the counter takes four failures or five and the first read
fails once more. -/
theorem retryLaw_iff (layout : Layout) (disk : Store Byte) (fuel reads : ℕ)
    (h : BootReads disk fuel reads) (m : Machine) (o : ℕ → Byte) :
    RetryLaw layout disk fuel m o ↔
      (∃ f, f ≤ patience m.si ∧ (∀ i, i < f → o i ≠ 0) ∧ ∀ i, i < reads → o (f + i) = 0) ∨
      (4 ≤ patience m.si ∧ ∀ i, i ≤ patience m.si → o i ≠ 0) := by
  obtain ⟨hreads, hpos, hcalm⟩ := boot_calm layout h m
  rcases (boot_patient layout h m).ends o 0 with ⟨f, hf, hbad, hgood, hrun⟩ |
    ⟨e, he, hbad, hrun⟩ | ⟨f, j, e, he, hf, hbad, hj, hgood, hlast, hrun⟩
  · simp only [Nat.zero_add, hreads, Prod.ext_iff] at hbad hgood hrun
    obtain ⟨hresult, -⟩ := hrun
    constructor
    · exact fun _ => Or.inl ⟨f, hf, hbad, hgood⟩
    · exact fun _ => ⟨fun _ => hresult, fun e he hgave =>
        absurd hgave (hcalm e (hresult.symm.trans he))⟩
  · simp only [Nat.zero_add, Prod.ext_iff] at hbad hrun
    obtain ⟨hresult, hcount⟩ := hrun
    constructor
    · intro hlaw
      obtain ⟨c, hc, -⟩ := hlaw.gives_up e hresult he
      have hend : patience m.si + 1 = c + 5 := hcount.symm.trans hc
      exact Or.inr ⟨by omega, hbad⟩
    · rintro (⟨f, hf, -, hgood⟩ | ⟨hfour, -⟩)
      · exact absurd (hgood 0 hpos) (hbad f hf)
      · obtain ⟨c, hc⟩ : ∃ c, patience m.si = c + 4 := ⟨_, (Nat.sub_add_cancel hfour).symm⟩
        have hfive : FiveFailures o c := fun i hi => hbad (c + i) (by omega)
        have hend : (run o (boot layout disk fuel m) 0).2 = c + 5 := by
          rw [hcount, hc]
        exact ⟨fun hnone => absurd hfive (hnone c (Nat.le_of_eq hend.symm)),
          fun _ _ _ => ⟨c, hend, hfive⟩⟩
  · simp only [Nat.zero_add, hreads, Prod.ext_iff] at hbad hgood hlast hj hrun
    obtain ⟨hresult, hcount⟩ := hrun
    constructor
    · intro hlaw
      obtain ⟨c, hc, hfive⟩ := hlaw.gives_up e hresult he
      have hend : f + j + 2 = c + 5 := hcount.symm.trans hc
      -- the last call but one has succeeded
      refine absurd (hgood j (Nat.le_refl j)) ?_
      rw [show f + j = c + 3 by omega]
      exact hfive 3 (by decide)
    · rintro (⟨f', -, hbad', hgood'⟩ | ⟨-, hbad'⟩)
      · rcases Nat.lt_trichotomy f' f with hlt | rfl | hlt
        · exact absurd (hgood' 0 hpos) (hbad f' hlt)
        · exact absurd (hgood' (j + 1) hj) hlast
        · exact absurd (hgood 0 (Nat.zero_le j)) (hbad' f hlt)
      · exact absurd (hgood 0 (Nat.zero_le j)) (hbad' f hf)

/-- The tool's disk with a loader of one cluster takes three requests. -/
theorem bootReads_small : BootReads (savedDisk loaderPath [0x4B]).byte 1 3 :=
  .loads (@bootFile_loader [0x4B] (by decide) (by decide)) (Nat.le_refl 1)

/-- The first calls time out. -/
def firstFail (n c : ℕ) : Byte := if c < n then 0x80 else 0

theorem retryLaw_iff_firstFail :
    RetryLaw lowLayout (savedDisk loaderPath [0x4B]).byte 1 (filledWith 0) (firstFail 6) ↔
      (∃ f, f ≤ patience 0 ∧ (∀ i, i < f → firstFail 6 i ≠ 0) ∧
        ∀ i, i < 3 → firstFail 6 (f + i) = 0) ∨
      (4 ≤ patience 0 ∧ ∀ i, i ≤ patience 0 → firstFail 6 i ≠ 0) :=
  retryLaw_iff lowLayout _ 1 3 bootReads_small (filledWith 0) _

/-- Every call succeeds but the second, which times out. -/
def secondFails (c : ℕ) : Byte := if c = 1 then 0x80 else 0

/-- The boot sector has found the loader, and gives up when its first cluster fails once. -/
theorem single_failure_halts :
    (∀ c, ¬ FiveFailures secondFails c) ∧
      (∃ m', calm 0 (boot lowLayout (savedDisk loaderPath [0x4B]).byte 1 (filledWith 0)) = .ok m') ∧
      (∃ e, run secondFails (boot lowLayout (savedDisk loaderPath [0x4B]).byte 1 (filledWith 0)) 0 =
        (.error e, 2) ∧ GaveUp e) ∧
      ¬ RetryLaw lowLayout (savedDisk loaderPath [0x4B]).byte 1 (filledWith 0) secondFails := by
  have hnone : ∀ c, ¬ FiveFailures secondFails c := by
    intro c hfive
    exact hfive 2 (by decide) (if_neg (by omega))
  obtain ⟨m', hok, -⟩ := boot_loads lowLayout (@bootFile_loader [0x4B] (by decide) (by decide))
    (Nat.le_refl 1) (filledWith 0)
  obtain ⟨e, hrun, he⟩ : ∃ e, run secondFails
      (boot lowLayout (savedDisk loaderPath [0x4B]).byte 1 (filledWith 0)) 0 = (.error e, 2) ∧ GaveUp e := by
    have hreads := (boot_calm lowLayout bootReads_small (filledWith 0)).1
    rcases (boot_patient lowLayout bootReads_small (filledWith 0)).ends secondFails 0 with
      ⟨f, hf, hbad, hgood, hrun⟩ | ⟨e, he, hbad, hrun⟩ | ⟨f, j, e, he, hf, hbad, hj, hgood, hlast, hrun⟩
    · cases f with
      | zero => exact absurd (hgood 1 (by omega)) (by decide)
      | succ f => exact absurd rfl (hbad 0 (Nat.succ_pos f))
    · exact absurd rfl (hbad 0 (Nat.zero_le _))
    · cases f with
      | zero =>
          cases j with
          | zero => exact ⟨e, hrun, he⟩
          | succ j => exact absurd (hgood 1 (by omega)) (by decide)
      | succ f => exact absurd rfl (hbad 0 (Nat.succ_pos f))
  refine ⟨hnone, ⟨m', hok⟩, ⟨e, hrun, he⟩, fun hlaw => ?_⟩
  obtain ⟨c, -, hfive⟩ := hlaw.gives_up e (congrArg Prod.fst hrun) he
  exact hnone c hfive

end Boot

end BootSector

end Knos.Bootloader
