import Knos.Lib.Align
import Knos.Bootloader.Reading

/-!
# The directory search

The search compares the entries of the directory with the name in their order on disk, 16
of them in a sector, and stops at the first that has it. DI is then behind the name, in
the buffer that holds the sector of the entry (`Found`).
-/

namespace Knos.Bootloader

open Knos.Bytes Knos.Floppy Knos.Requests Knos.Requests.Prog Knos.Loop

/-- The name in entry `i` of the directory. -/
def entryName (disk : Store Byte) (i : ℕ) : List Byte :=
  peek disk (sectorBytes * rootDirStartSectors + 32 * i) 11

/-- What the two searches rely on. -/
structure Searches (disk : Store Byte) (p : DirSearch) : Prop where
  reads : Reads disk p.read
  length_name : p.name.length = 11
  name_fits : p.fileName + 12 ≤ 65536
  buffer_aligned : p.buffer % 32 = 0
  buffer_fits : p.buffer + sectorBytes < 65536

/-- The registers that the search uses. -/
def Machine.scan (m : Machine) (ax cx dx si di : ℕ) : Machine :=
  { m with ax := ax, cx := cx, dx := dx, si := si, di := di }

/-- `and di, 0ffe0h`, inside an entry. -/
theorem entry_start {d i : ℕ} (hd : d % 32 = 0) (hi : i < 32) (hfits : d + i < 65536) :
    (d + i) &&& 0xffe0 = d := by
  have hmask := @Align.and_mask (d + i) 5 16 hfits (by decide)
  have hdiv : (d + i) / 2 ^ 5 * 2 ^ 5 = d := by
    show (d + i) / 32 * 32 = d
    omega
  exact hmask.trans hdiv

section Entries

variable {disk : Store Byte} {p : DirSearch} (hp : Searches disk p)
include hp

/-- One turn of the comparison, at byte `j` of the name. -/
theorem Searches.compare_succ {m : Machine} {d j : ℕ} (hfits : d + 32 ≤ 65536) (cx : ℕ)
    (hj : j < 11) (hes : m.es = 0) (hsi : m.si = p.fileName + j) (hdi : m.di = d + j) :
    p.compareFileName (cx + 1) m =
      let m' := m.scan (m.ax / 256 * 256 + (p.name.getD j 0).toNat) cx m.dx (p.fileName + (j + 1))
      if p.name.getD j 0 = m.ram (d + j) then p.compareFileName cx (m' (d + (j + 1)))
      else (false, m' (d + j)) := by
  have hnfits := hp.name_fits
  have hindex : m.si - p.fileName = j := by rw [hsi, Nat.add_sub_cancel_left]
  have hsi' : (m.si + 1) % 65536 = p.fileName + (j + 1) := by
    rw [hsi, Nat.mod_eq_of_lt (by omega), Nat.add_assoc]
  have hdi' : (m.di + 1) % 65536 = d + (j + 1) := by
    rw [hdi, Nat.mod_eq_of_lt (by omega), Nat.add_assoc]
  have hal : (m.ax / 256 * 256 + (p.name.getD j 0).toNat) % 256 = (p.name.getD j 0).toNat :=
    low_byte (p.name.getD j 0).isLt
  have hbyte : m.ram (m.es * 16 + m.di) = m.ram (d + j) := by
    rw [hes, hdi, Nat.zero_mul, Nat.zero_add]
  rw [DirSearch.compareFileName]
  simp only [DirSearch.lodsb, Machine.byteAt, hindex, hsi', hdi', hal, hbyte,
    BitVec.toNat_inj]
  rw [← hdi]
  rfl

/-- The comparison from byte `j` of the name on. -/
theorem Searches.compare {d : ℕ} (hfits : d + 32 ≤ 65536) (cx j : ℕ) (hj : j + cx = 11) :
    ∀ m : Machine, m.es = 0 → m.si = p.fileName + j → m.di = d + j → ∃ ax cx',
      (peek m.ram (d + j) cx = p.name.drop j ∧
        p.compareFileName cx m = (true, m.scan ax cx' m.dx (p.fileName + 11) (d + 11))) ∨
      (peek m.ram (d + j) cx ≠ p.name.drop j ∧ ∃ si i, i < 32 ∧
        p.compareFileName cx m = (false, m.scan ax cx' m.dx si (d + i))) := by
  induction cx generalizing j with
  | zero =>
      intro m hes hsi hdi
      obtain rfl : j = 11 := hj
      refine ⟨m.ax, 0, Or.inl ⟨?_, ?_⟩⟩
      · rw [List.drop_eq_nil_of_le (Nat.le_of_eq hp.length_name), peek_zero]
      · rw [← hsi, ← hdi]
        rfl
  | succ cx ih =>
      intro m hes hsi hdi
      have hjlt : j < p.name.length := by
        rw [hp.length_name]
        omega
      have hdrop : p.name.drop j = p.name.getD j 0 :: p.name.drop (j + 1) := by
        rw [List.drop_eq_getElem_cons hjlt, List.getD_eq_getElem?_getD,
          List.getElem?_eq_getElem hjlt]
        rfl
      rw [hdrop, peek_succ, hp.compare_succ hfits cx (by omega) hes hsi hdi]
      by_cases heq : p.name.getD j 0 = m.ram (d + j)
      · -- the bytes agree, and the rest decides
        simp only [if_pos heq]
        obtain ⟨ax, cx', hall | hdiff⟩ := ih (j + 1) (by omega)
          (m.scan (m.ax / 256 * 256 + (p.name.getD j 0).toNat) cx m.dx (p.fileName + (j + 1))
            (d + (j + 1))) hes rfl rfl
        · refine ⟨ax, cx', Or.inl ⟨?_, hall.2⟩⟩
          rw [heq]
          exact congrArg _ hall.1
        · refine ⟨ax, cx', Or.inr ⟨fun h => hdiff.1 (List.cons.inj h).2, hdiff.2⟩⟩
      · simp only [if_neg heq]
        exact ⟨_, _, Or.inr ⟨fun h => heq (List.cons.inj h).1.symm, _, j, by omega, rfl⟩⟩

/-- The search through `n` entries that lie in memory from `d` on. -/
theorem Searches.entries {d : ℕ} (n : ℕ) (hd : d % 32 = 0) (hfits : d + 32 * n < 65536) :
    ∀ m : Machine, m.es = 0 → m.si = p.fileName → m.di = d →
      (∃ t ax cx dx, t < n ∧ peek m.ram (d + 32 * t) 11 = p.name ∧
        (∀ u, u < t → peek m.ram (d + 32 * u) 11 ≠ p.name) ∧
        p.searchEntries n m = (true, m.scan ax cx dx (p.fileName + 11) (d + 32 * t + 11))) ∨
      ((∀ u, u < n → peek m.ram (d + 32 * u) 11 ≠ p.name) ∧
        ∃ ax cx dx di, p.searchEntries n m = (false, m.scan ax cx dx p.fileName di)) := by
  induction n generalizing d with
  | zero =>
      intro m _ hsi _
      refine Or.inr ⟨fun u hu => absurd hu (Nat.not_lt_zero u), m.ax, m.cx, 0, m.di, ?_⟩
      rw [← hsi]
      rfl
  | succ n ih =>
      intro m hes hsi hdi
      have hmatch := hp.compare (show d + 32 ≤ 65536 by omega) 11 0 rfl { m with dx := n, cx := 11 }
        hes hsi hdi
      rw [Nat.add_zero, List.drop_zero] at hmatch
      obtain ⟨ax, cx, ⟨hname, hrun⟩ | ⟨hname, si, i, hi, hrun⟩⟩ := hmatch
      · refine Or.inl ⟨0, ax, cx, n, Nat.succ_pos n, hname, fun u hu => absurd hu (Nat.not_lt_zero u), ?_⟩
        rw [DirSearch.searchEntries, hrun]
        rfl
      · -- the rest of the entries, with SI at the name and DI at the next one
        have hnext : ((d + i) &&& 0xffe0) + 0x20 = d + 32 := by
          rw [entry_start hd hi (by omega)]
        have hrest := ih (d := d + 32) (by omega) (by omega) (m.scan ax cx n p.fileName (d + 32))
          hes rfl rfl
        have hstep : p.searchEntries (n + 1) m =
            p.searchEntries n (m.scan ax cx n p.fileName (d + 32)) := by
          rw [DirSearch.searchEntries, hrun]
          show p.searchEntries n (m.scan ax cx n p.fileName ((((d + i) &&& 0xffe0) + 0x20) % 65536)) = _
          rw [hnext, Nat.mod_eq_of_lt (by omega)]
        rw [hstep]
        rcases hrest with ⟨t, ax', cx', dx', ht, hthis, hbefore, hrun'⟩ | ⟨hnone, hrun'⟩
        · refine Or.inl ⟨t + 1, ax', cx', dx', Nat.succ_lt_succ ht, ?_, fun u hu => ?_, ?_⟩
          · rw [show d + 32 * (t + 1) = d + 32 + 32 * t by ring]
            exact hthis
          · cases u with
            | zero => exact hname
            | succ u =>
                rw [show d + 32 * (u + 1) = d + 32 + 32 * u by ring]
                exact hbefore u (Nat.lt_of_succ_lt_succ hu)
          · rw [hrun', show d + 32 * (t + 1) = d + 32 + 32 * t by ring]
            rfl
        · refine Or.inr ⟨fun u hu => ?_, hrun'⟩
          cases u with
          | zero => exact hname
          | succ u =>
              rw [show d + 32 * (u + 1) = d + 32 + 32 * u by ring]
              exact hnone u (Nat.lt_of_succ_lt_succ hu)

end Entries

/-! ## §2  The sectors of the directory -/

/-- The machine that calls the read function for the next sector of the directory. -/
def DirSearch.request (p : DirSearch) (m : Machine) : Machine :=
  Machine.setCl { m with ax := m.sectorNumber, es := 0, bx := p.buffer } 1

/-- The machine that goes through the entries of that sector. -/
def DirSearch.loaded (p : DirSearch) (disk : Store Byte) (m : Machine) : Machine :=
  { afterRead disk (p.request m) with
    si := p.fileName
    di := p.buffer }

/-- Going through the entries, and on to the next sector. -/
def DirSearch.rest (p : DirSearch) (n : ℕ) (m : Machine) : Exec Machine :=
  let (found, m) := p.searchEntries 0x10 m
  if found then .ret m
  else p.searchSectors n { m with sectorNumber := (m.sectorNumber + 1) % 65536 }

theorem DirSearch.searchSectors_succ (p : DirSearch) (n : ℕ) (m : Machine) :
    p.searchSectors (n + 1) m =
      (p.read (p.request m) >>= fun m => p.rest n { m with si := p.fileName, di := p.buffer }) := rfl

/-- The search has stopped at entry `i`, with its sector in the buffer. -/
structure Found (disk : Store Byte) (p : DirSearch) (i : ℕ) (m m' : Machine) : Prop where
  si_eq : m'.si = p.fileName + 11
  di_eq : m'.di = p.buffer + 32 * (i % 16) + 11
  es_eq : m'.es = 0
  stack_eq : m'.stack = m.stack
  count_eq : m'.offsetOfKernelFileCount = m.offsetOfKernelFileCount
  sector : ∀ k, k < sectorBytes →
    m'.ram (p.buffer + k) = disk (sectorBytes * (rootDirStartSectors + i / 16) + k)
  frame : ∀ a, a < p.buffer ∨ p.buffer + sectorBytes ≤ a → m'.ram a = m.ram a

section Sectors

variable {disk : Store Byte} {p : DirSearch}

theorem DirSearch.loaded_ram (p : DirSearch) (disk : Store Byte) (m : Machine) :
    (p.loaded disk m).ram = poke m.ram p.buffer (readSectors disk m.sectorNumber 1) := by
  have hcl : (m.cx / 256 * 256 + 1) % 256 = 1 := low_byte (by decide)
  show poke m.ram (0 * 16 + p.buffer)
    (readSectors disk m.sectorNumber ((m.cx / 256 * 256 + 1) % 256)) = _
  rw [hcl, Nat.zero_mul, Nat.zero_add]

theorem DirSearch.peek_loaded (p : DirSearch) (disk : Store Byte) (m : Machine) {k n : ℕ}
    (h : k + n ≤ sectorBytes) :
    peek (p.loaded disk m).ram (p.buffer + k) n = peek disk (sectorBytes * m.sectorNumber + k) n := by
  rw [p.loaded_ram]
  exact peek_poke_peek m.ram disk p.buffer (sectorBytes * m.sectorNumber) (by omega)

/-- One turn: a sector is read, and the search goes through its entries. -/
theorem Searches.sector (hp : Searches disk p) (n : ℕ) {m : Machine}
    (hm : m.sectorNumber < reachableSectors) :
    calm 0 (p.searchSectors (n + 1) m) = calm 0 (p.rest n (p.loaded disk m)) ∧
      requests 0 (p.searchSectors (n + 1) m) = 1 + requests 0 (p.rest n (p.loaded disk m)) := by
  have hcalm := hp.reads.calm_eq (p.request m) hm
  rw [p.searchSectors_succ]
  constructor
  · rw [calm_bind, hcalm]
    rfl
  · rw [requests_bind_of_ok 0 hcalm, hp.reads.requests_eq (p.request m) hm]
    rfl

/-- What the entries of a sector that was read decide. -/
theorem Searches.rest_cases (hp : Searches disk p) (n : ℕ) {m : Machine} {s : ℕ}
    (hs : m.sectorNumber = rootDirStartSectors + s) :
    (∃ t m', t < 16 ∧ entryName disk (16 * s + t) = p.name ∧
      (∀ u, u < t → entryName disk (16 * s + u) ≠ p.name) ∧
      p.rest n (p.loaded disk m) = .ret m' ∧ Found disk p (16 * s + t) m m') ∨
    ((∀ u, u < 16 → entryName disk (16 * s + u) ≠ p.name) ∧
      ∃ ax cx dx di, p.rest n (p.loaded disk m) =
        p.searchSectors n { (p.loaded disk m).scan ax cx dx p.fileName di with
          sectorNumber := (m.sectorNumber + 1) % 65536 }) := by
  have hbuf := hp.buffer_fits
  have hname : ∀ t, t < 16 →
      peek (p.loaded disk m).ram (p.buffer + 32 * t) 11 = entryName disk (16 * s + t) := by
    intro t ht
    have hk : 32 * t + 11 ≤ sectorBytes := by
      show _ ≤ 512
      omega
    rw [p.peek_loaded disk m hk, hs]
    unfold entryName
    congr 1
    show 512 * (rootDirStartSectors + s) + 32 * t = 512 * rootDirStartSectors + 32 * (16 * s + t)
    ring
  have hentries := hp.entries (d := p.buffer) 16 hp.buffer_aligned hbuf (p.loaded disk m) rfl rfl rfl
  rcases hentries with ⟨t, ax, cx, dx, ht, hthis, hbefore, hrun⟩ | ⟨hnone, ax, cx, dx, di, hrun⟩
  · refine Or.inl ⟨t, (p.loaded disk m).scan ax cx dx (p.fileName + 11) (p.buffer + 32 * t + 11),
      ht, ?_, fun u hu => ?_, ?_, ?_⟩
    · rw [← hname t ht]
      exact hthis
    · rw [← hname u (by omega)]
      exact hbefore u hu
    · unfold DirSearch.rest
      rw [hrun]
      rfl
    · have hi : (16 * s + t) / 16 = s := by omega
      refine ⟨rfl, ?_, rfl, rfl, rfl, fun k hk => ?_, fun a ha => ?_⟩
      · show p.buffer + 32 * t + 11 = p.buffer + 32 * ((16 * s + t) % 16) + 11
        rw [show (16 * s + t) % 16 = t by omega]
      · rw [hi, ← hs]
        exact (List.cons.inj (p.peek_loaded disk m (show k + 1 ≤ sectorBytes from hk))).1
      · show (p.loaded disk m).ram a = m.ram a
        rw [p.loaded_ram]
        exact poke_outside m.ram (by rw [length_readSectors, Nat.mul_one]; exact ha)
  · refine Or.inr ⟨fun u hu => ?_, ax, cx, dx, di, ?_⟩
    · rw [← hname u hu]
      exact hnone u hu
    · unfold DirSearch.rest
      rw [hrun]
      rfl

/-- The machine between two sectors. -/
theorem Found.of_next {i ax cx dx si di k : ℕ} {m m' : Machine}
    (h : Found disk p i { (p.loaded disk m).scan ax cx dx si di with sectorNumber := k } m') :
    Found disk p i m m' where
  si_eq := h.si_eq
  di_eq := h.di_eq
  es_eq := h.es_eq
  stack_eq := h.stack_eq
  count_eq := h.count_eq
  sector := h.sector
  frame := by
    intro a ha
    rw [h.frame a ha]
    show (p.loaded disk m).ram a = m.ram a
    rw [p.loaded_ram]
    exact poke_outside m.ram (by rw [length_readSectors, Nat.mul_one]; exact ha)

theorem next_sector {m : Machine} {s n : ℕ} (hs : s + (n + 1) = rootDirSectors)
    (hm : m.sectorNumber = rootDirStartSectors + s) :
    m.sectorNumber < reachableSectors ∧
      (m.sectorNumber + 1) % 65536 = rootDirStartSectors + (s + 1) := by
  have hs14 : s + (n + 1) = 14 := hs
  have hm19 : m.sectorNumber = 19 + s := hm
  constructor
  · show m.sectorNumber < 4608
    omega
  · show (m.sectorNumber + 1) % 65536 = 19 + (s + 1)
    omega

/-- **The search finds the first entry** with the name, after one request for each sector
up to the one that the entry is in. -/
theorem Searches.found (hp : Searches disk p) (n : ℕ) {s i : ℕ} (hs : s + n = rootDirSectors)
    (hlow : 16 * s ≤ i) (hi : i < 16 * rootDirSectors) (hname : entryName disk i = p.name)
    (hfirst : ∀ j, j < i → entryName disk j ≠ p.name) :
    ∀ m : Machine, m.sectorNumber = rootDirStartSectors + s →
      ∃ m', calm 0 (p.searchSectors n m) = .ok m' ∧
        requests 0 (p.searchSectors n m) + s = i / 16 + 1 ∧ Found disk p i m m' := by
  induction n generalizing s with
  | zero =>
      intro m _
      rw [← hs, Nat.add_zero] at hi
      omega
  | succ n ih =>
      intro m hm
      obtain ⟨hreach, hnext⟩ := next_sector hs hm
      obtain ⟨hcalm, hreq⟩ := hp.sector n hreach
      rw [hcalm, hreq]
      rcases hp.rest_cases n hm with ⟨t, m', ht, hthis, hbefore, hrun, hfound⟩ |
        ⟨hnone, ax, cx, dx, di, hrun⟩
      · -- no other entry of the sector comes first
        have hle : i ≤ 16 * s + t := by
          by_contra hgt
          exact hfirst _ (by omega) hthis
        have heq : i = 16 * s + t := by
          by_contra hne
          refine hbefore (i - 16 * s) (by omega) ?_
          rwa [Nat.add_sub_cancel' hlow]
        rw [hrun, heq]
        exact ⟨m', rfl, by show 1 + 0 + s = _; omega, hfound⟩
      · have hge : 16 * (s + 1) ≤ i := by
          by_contra hlt
          refine hnone (i - 16 * s) (by omega) ?_
          rwa [Nat.add_sub_cancel' hlow]
        rw [hrun]
        obtain ⟨m', hok, hcount, hfound⟩ := ih (by omega) hge
          { (p.loaded disk m).scan ax cx dx p.fileName di with
            sectorNumber := (m.sectorNumber + 1) % 65536 } hnext
        exact ⟨m', hok, by omega, hfound.of_next⟩

/-- Without an entry of that name, the search ends after all sectors. -/
theorem Searches.not_found (hp : Searches disk p) (n : ℕ) {s : ℕ} (hs : s + n = rootDirSectors)
    (hnone : ∀ j, j < 16 * rootDirSectors → entryName disk j ≠ p.name) :
    ∀ m : Machine, m.sectorNumber = rootDirStartSectors + s →
      ∃ m', calm 0 (p.searchSectors n m) = .error (.fileNotFound, m') ∧
        requests 0 (p.searchSectors n m) = n := by
  induction n generalizing s with
  | zero => exact fun m _ => ⟨m, rfl, rfl⟩
  | succ n ih =>
      intro m hm
      obtain ⟨hreach, hnext⟩ := next_sector hs hm
      obtain ⟨hcalm, hreq⟩ := hp.sector n hreach
      rw [hcalm, hreq]
      rcases hp.rest_cases n hm with ⟨t, m', ht, hthis, -, -, -⟩ | ⟨-, ax, cx, dx, di, hrun⟩
      · exact absurd hthis (hnone (16 * s + t) (by omega))
      · rw [hrun]
        obtain ⟨m', hend, hcount⟩ := ih (by omega)
          { (p.loaded disk m).scan ax cx dx p.fileName di with
            sectorNumber := (m.sectorNumber + 1) % 65536 } hnext
        exact ⟨m', hend, by omega⟩

end Sectors

end Knos.Bootloader
