import Knos.Tools.Commands

/-!
# The volume invariant

Every live directory entry heads a chain of its own in the FAT, and the blocks of the
chain hold what was saved; the FAT has no other entries. `Volume` states this with the
chains as ghost state, one list of clusters for each directory slot, and with the
directory on disk being exactly what the tool would write for it.

`save` adds a chain of clusters that were free (`Volume.save`), `del` unlinks one
(`Volume.del`), and `format` starts with none (`volume_format`), so every image of a run
is a volume as long as the names that are saved come back unchanged from a record
(`CleanName`). Printable ASCII names do.
-/

namespace Knos.Fat12Img

open Knos.Bytes Knos.PyText Knos.Fat12 Knos.Chains

/-! ## §1  Names -/

theorem length_setstrlen (s : List Char) (n : ℕ) (pad : Char) :
    (setstrlen s n pad).length = n := by
  unfold setstrlen
  rw [List.length_take, length_ljust]
  omega

theorem length_filename83 (path : List Char) : (filename83 path).length = 11 := by
  unfold filename83
  simp only [List.length_append, length_setstrlen]

theorem mem_setstrlen {s : List Char} {n : ℕ} {pad c : Char} (h : c ∈ setstrlen s n pad) :
    c ∈ s ∨ c = pad :=
  mem_ljust (List.mem_of_mem_take h)

/-- The stored name has no characters but those of the path, and spaces. -/
theorem mem_filename83 {path : List Char} {c : Char} (h : c ∈ filename83 path) :
    c ∈ path ∨ c = ' ' := by
  unfold filename83 at h
  simp only [List.mem_append] at h
  rcases h with h | h
  · rcases mem_setstrlen h with h | h
    · exact Or.inl (mem_of_mem_basename (mem_of_mem_splitext (Or.inl h)))
    · exact Or.inr h
  · rcases mem_setstrlen h with h | h
    · exact Or.inl (mem_of_mem_basename (mem_of_mem_splitext (Or.inr (List.mem_of_mem_drop h))))
    · exact Or.inr h

/-- The stored name takes one byte a character, and stripping and padding give it back. -/
structure CleanName (path : List Char) : Prop where
  ascii : ∀ c ∈ filename83 path, IsAscii c ∧ c.toNat ≠ 0
  padded : ljust (rstrip (filename83 path)) 11 ' ' = filename83 path

def Printable (path : List Char) : Prop := ∀ c ∈ path, 0x20 ≤ c.toNat ∧ c.toNat ≤ 0x7E

instance (path : List Char) : Decidable (Printable path) :=
  List.decidableBAll (fun c : Char => 0x20 ≤ c.toNat ∧ c.toNat ≤ 0x7E) path

/-- Of the white space only the space itself is printable. -/
theorem eq_space_of_printable {c : Char} (h : 0x20 ≤ c.toNat ∧ c.toNat ≤ 0x7E)
    (hspace : isSpace c = true) : c = ' ' := by
  have hn : c.toNat = ' '.toNat := by
    unfold isSpace at hspace
    simp only [Bool.or_eq_true, Bool.and_eq_true, decide_eq_true_eq, beq_iff_eq] at hspace
    show c.toNat = 32
    omega
  rw [← Char.ofNat_toNat c, hn]
  rfl

theorem Printable.cleanName {path : List Char} (h : Printable path) : CleanName path := by
  have hkey : ∀ c ∈ filename83 path, 0x20 ≤ c.toNat ∧ c.toNat ≤ 0x7E := by
    intro c hc
    rcases mem_filename83 hc with hc | rfl
    · exact h c hc
    · decide
  refine ⟨fun c hc => ?_, ?_⟩
  · have := hkey c hc
    exact ⟨show c.toNat < 128 by omega, by omega⟩
  · rw [← length_filename83 path]
    apply ljust_rstrip
    intro c hc hspace
    exact eq_space_of_printable (hkey c hc) hspace

theorem CleanName.storedName {path : List Char} (h : CleanName path) :
    StoredName (filename83 path) where
  short := Nat.le_of_eq (length_filename83 path)
  ascii := fun c hc => (h.ascii c hc).1
  start := fun c hc => (h.ascii c (List.mem_of_mem_head? hc)).2

theorem CleanName.storedName_rstrip {path : List Char} (h : CleanName path) :
    StoredName (rstrip (filename83 path)) where
  short := le_trans (length_rstrip_le _) (Nat.le_of_eq (length_filename83 path))
  ascii := fun c hc => (h.ascii c (mem_of_mem_rstrip hc)).1
  start := fun c hc => (h.ascii c (mem_of_mem_rstrip (List.mem_of_mem_head? hc))).2

/-- The file as it is read back: the name stripped. -/
def FileInfo.stored (info : FileInfo) : FileInfo := { info with filename := rstrip info.filename }

theorem FileInfo.filename_stored (info : FileInfo) :
    info.stored.filename = rstrip info.filename := rfl

/-- A clean name is written for the stripped file as for the file itself. -/
theorem pack_stored {info : FileInfo} {path : List Char} (h : CleanName path)
    (hname : info.filename = filename83 path) : info.stored.pack = info.pack := by
  have hlen := length_filename83 path
  have hself : ljust (filename83 path) 11 ' ' = filename83 path := by
    unfold ljust
    rw [hlen, Nat.sub_self, List.replicate_zero, List.append_nil]
  have hpad : ljust info.stored.filename 11 ' ' = ljust info.filename 11 ' ' := by
    rw [FileInfo.filename_stored, hname, h.padded, hself]
  unfold FileInfo.pack
  rw [hpad]
  rfl

/-! ## §2  The invariant -/

/-- The image holds the files `saved`, slot by slot, in the clusters `chain`. -/
structure Volume (img : Image) (saved : ℕ → List Byte) (dir : DirInfo) (chain : ℕ → List ℕ) :
    Prop where
  dir_eq : DirInfo.init img = .ok dir
  /-- The directory on disk is what the tool writes. -/
  tidy : ∀ (i : ℕ) (s : Slot), dir[i]? = some s → s ≠ .unused → diskSlot img i = s.bytes
  /-- Behind an entry that was never used there is no other. -/
  compact : ∀ (i j : ℕ) (s : Slot), i ≤ j → dir[i]? = some .unused → dir[j]? = some s → s = .unused
  size_eq : ∀ (i : ℕ) (info : FileInfo), dir[i]? = some (.file info) → info.size.toNat = (saved i).length
  count : ∀ (i : ℕ) (info : FileInfo), dir[i]? = some (.file info) → (chain i).length = clustersOf (saved i).length
  first : ∀ (i : ℕ) (info : FileInfo), dir[i]? = some (.file info) → chain i ≠ [] →
    (chain i).head? = some info.cluster.toNat
  free : ∀ (i : ℕ), (∀ info, dir[i]? ≠ some (.file info)) → chain i = []
  linked : ∀ i, chain i ≠ [] → IsChain (entryAt (Fat.init img)) 0xFFF (chain i)
  cells : ∀ i, ∀ c ∈ chain i, 2 ≤ c ∧ c < 3072
  disjoint : ∀ i j c, c ∈ chain i → c ∈ chain j → i = j
  owned : ∀ c, 2 ≤ c → entryAt (Fat.init img) c ≠ 0 → ∃ i, c ∈ chain i
  data : ∀ (i : ℕ) (info : FileInfo), dir[i]? = some (.file info) → Holds img (chain i) (saved i)
  reserved : entryAt (Fat.init img) 0 ≠ 0 ∧ entryAt (Fat.init img) 1 ≠ 0
  copies : peek img.byte fat1Address fatBytes = peek img.byte fat2Address fatBytes

section Basic

variable {img : Image} {saved : ℕ → List Byte} {dir : DirInfo} {chain : ℕ → List ℕ}

theorem Volume.length_dir (h : Volume img saved dir chain) : dir.length = fileCount :=
  (init_eq_ok.mp h.dir_eq).1

/-- The entry of a cluster of a chain is not free. -/
theorem Volume.entry_ne_zero (h : Volume img saved dir chain) {i c : ℕ} (hc : c ∈ chain i) :
    entryAt (Fat.init img) c ≠ 0 := by
  have hne : chain i ≠ [] := List.ne_nil_of_mem hc
  rcases (h.linked i hne).next_mem hc with hend | hnext
  · rw [hend]
    decide
  · have := (h.cells i _ hnext).1
    omega

theorem Volume.nodup (h : Volume img saved dir chain) (i : ℕ) : (chain i).Nodup := by
  by_cases hne : chain i = []
  · rw [hne]
    exact List.nodup_nil
  · refine (h.linked i hne).nodup fun hmem => ?_
    have := (h.cells i _ hmem).2
    omega

/-- Free clusters belong to the data area, and to no chain. -/
theorem Volume.of_mem_free (h : Volume img saved dir chain) {c : ℕ}
    (hc : c ∈ (Fat.init img).free 0) : 2 ≤ c ∧ c < 3072 ∧ ∀ i, c ∉ chain i := by
  have hlt := lt_length_of_mem_free hc
  have hzero := entryAt_of_mem_free hc
  rw [length_init] at hlt
  obtain ⟨h₀, h₁⟩ := h.reserved
  refine ⟨?_, hlt, fun i hi => h.entry_ne_zero hi hzero⟩
  have hc₀ : c ≠ 0 := fun heq => h₀ (heq ▸ hzero)
  have hc₁ : c ≠ 1 := fun heq => h₁ (heq ▸ hzero)
  omega

/-- Every entry that is written takes 32 bytes. -/
theorem Volume.length_bytes (h : Volume img saved dir chain) {i : ℕ} {s : Slot}
    (hs : dir[i]? = some s) (hne : s ≠ .unused) : s.bytes.length = fileinfoBytes := by
  rw [← h.tidy i s hs hne]
  exact length_peek

end Basic

/-- One file of the volume: its record, what was saved, and its chain. -/
structure FileAt (img : Image) (info : FileInfo) (content : List Byte) (cs : List ℕ) : Prop where
  size_eq : info.size.toNat = content.length
  count : cs.length = clustersOf content.length
  first : cs ≠ [] → cs.head? = some info.cluster.toNat
  linked : cs ≠ [] → IsChain (entryAt (Fat.init img)) 0xFFF cs
  cells : ∀ c ∈ cs, 2 ≤ c ∧ c < 3072
  data : Holds img cs content

/-- The file is in another image as it is in this one, if its links and blocks are. -/
theorem FileAt.transfer {img img' : Image} {info : FileInfo} {content : List Byte} {cs : List ℕ}
    (h : FileAt img info content cs)
    (hlinks : ∀ c ∈ cs, entryAt (Fat.init img) c = entryAt (Fat.init img') c)
    (hdata : Holds img' cs content) : FileAt img' info content cs where
  size_eq := h.size_eq
  count := h.count
  first := h.first
  linked := fun hne => (h.linked hne).congr hlinks
  cells := h.cells
  data := hdata

section Files

variable {img : Image} {saved : ℕ → List Byte} {dir : DirInfo} {chain : ℕ → List ℕ}

theorem Volume.fileAt (h : Volume img saved dir chain) {i : ℕ} {info : FileInfo}
    (hfile : dir[i]? = some (.file info)) : FileAt img info (saved i) (chain i) where
  size_eq := h.size_eq i info hfile
  count := h.count i info hfile
  first := h.first i info hfile
  linked := h.linked i
  cells := h.cells i
  data := h.data i info hfile

/-- A volume from its files: other slots have no chain. -/
theorem volume_of_files (hdir : DirInfo.init img = .ok dir)
    (htidy : ∀ (i : ℕ) (s : Slot), dir[i]? = some s → s ≠ .unused → diskSlot img i = s.bytes)
    (hcompact : ∀ (i j : ℕ) (s : Slot), i ≤ j → dir[i]? = some .unused → dir[j]? = some s →
      s = .unused)
    (hfiles : ∀ (i : ℕ) (info : FileInfo), dir[i]? = some (.file info) →
      FileAt img info (saved i) (chain i))
    (hfree : ∀ i, (∀ info, dir[i]? ≠ some (.file info)) → chain i = [])
    (hdisjoint : ∀ i j c, c ∈ chain i → c ∈ chain j → i = j)
    (howned : ∀ c, 2 ≤ c → entryAt (Fat.init img) c ≠ 0 → ∃ i, c ∈ chain i)
    (hreserved : entryAt (Fat.init img) 0 ≠ 0 ∧ entryAt (Fat.init img) 1 ≠ 0)
    (hcopies : peek img.byte fat1Address fatBytes = peek img.byte fat2Address fatBytes) :
    Volume img saved dir chain := by
  have hslot : ∀ i, chain i = [] ∨ ∃ info, FileAt img info (saved i) (chain i) := by
    intro i
    by_cases hfile : ∃ info, dir[i]? = some (.file info)
    · obtain ⟨info, hfile⟩ := hfile
      exact Or.inr ⟨info, hfiles i info hfile⟩
    · exact Or.inl (hfree i fun info hget => hfile ⟨info, hget⟩)
  exact {
    dir_eq := hdir
    tidy := htidy
    compact := hcompact
    size_eq := fun i info hfile => (hfiles i info hfile).size_eq
    count := fun i info hfile => (hfiles i info hfile).count
    first := fun i info hfile => (hfiles i info hfile).first
    free := hfree
    linked := fun i hne => by
      rcases hslot i with hnil | ⟨info, hat⟩
      · exact absurd hnil hne
      · exact hat.linked hne
    cells := fun i c hc => by
      rcases hslot i with hnil | ⟨info, hat⟩
      · rw [hnil] at hc
        cases hc
      · exact hat.cells c hc
    disjoint := hdisjoint
    owned := howned
    data := fun i info hfile => (hfiles i info hfile).data
    reserved := hreserved
    copies := hcopies }

end Files

/-- The first free slot: all before it are files. -/
theorem findFreeIndex_eq_some {dir : DirInfo} {i : ℕ} (h : dir.findFreeIndex = some i) :
    (dir[i]? = some .unused ∨ dir[i]? = some .deleted) ∧
      ∀ j, j < i → ∃ info, dir[j]? = some (.file info) := by
  unfold DirInfo.findFreeIndex at h
  rw [List.findIdx?_eq_some_iff_getElem] at h
  obtain ⟨hlt, hfree, hbefore⟩ := h
  constructor
  · rw [List.getElem?_eq_getElem hlt]
    cases hs : dir[i] with
    | unused => exact Or.inl rfl
    | deleted => exact Or.inr rfl
    | file info =>
        rw [hs] at hfree
        cases hfree
  · intro j hj
    have hjlt : j < dir.length := by omega
    have hnot := hbefore j hj
    rw [List.getElem?_eq_getElem hjlt]
    cases hs : dir[j] with
    | unused => exact absurd (by rw [hs]; rfl) hnot
    | deleted => exact absurd (by rw [hs]; rfl) hnot
    | file info => exact ⟨info, rfl⟩

theorem lt_length_takeWhile {α : Type} {p : α → Bool} {l : List α} {i : ℕ}
    (h : ∀ j, j ≤ i → ∃ x, l[j]? = some x ∧ p x = true) : i < (l.takeWhile p).length := by
  induction l generalizing i with
  | nil =>
      obtain ⟨x, hx, -⟩ := h 0 (Nat.zero_le i)
      cases hx
  | cons y l ih =>
      obtain ⟨x, hx, hpx⟩ := h 0 (Nat.zero_le i)
      cases hx
      rw [List.takeWhile_cons_of_pos hpx, List.length_cons]
      cases i with
      | zero => exact Nat.succ_pos _
      | succ i =>
          exact Nat.succ_lt_succ (ih fun j hj => h (j + 1) (Nat.succ_le_succ hj))

/-! ## §3  Rewriting one slot -/

section Rewrite

variable {img : Image} {saved : ℕ → List Byte} {dir : DirInfo} {chain : ℕ → List ℕ}
  {i : ℕ} {s : Slot}

/-- Slots before `i` in use, and a slot put into place `i`: that slot is written, every
element written takes 32 bytes, and the others keep the bytes they have. -/
theorem Volume.rewrite (h : Volume img saved dir chain) (hi : i < fileCount)
    (hbefore : ∀ j, j < i → dir[j]? ≠ some .unused) (hs : s ≠ .unused)
    (hbytes : s.bytes.length = fileinfoBytes) (base : Image)
    (hbase : ∀ j, j < fileCount → diskSlot base j = diskSlot img j) :
    (∀ t ∈ DirInfo.written (dir.set i s), t.bytes.length = fileinfoBytes) ∧
      diskSlot (base.writeDir (dir.set i s)) i = s.bytes ∧
      ∀ j, j < fileCount → j ≠ i → diskSlot (base.writeDir (dir.set i s)) j = diskSlot img j := by
  have hlen := h.length_dir
  have hset : ∀ j, j ≠ i → (dir.set i s)[j]? = dir[j]? := fun j hj =>
    List.getElem?_set_ne (Ne.symm hj)
  have hself : (dir.set i s)[i]? = some s := List.getElem?_set_self (by omega)
  have hall : ∀ t ∈ DirInfo.written (dir.set i s), t.bytes.length = fileinfoBytes := by
    intro t ht
    obtain ⟨hmem, hne⟩ := mem_written ht
    obtain ⟨j, hj⟩ := List.mem_iff_getElem?.mp hmem
    by_cases hji : j = i
    · rw [hji, hself] at hj
      cases hj
      exact hbytes
    · rw [hset j hji] at hj
      exact h.length_bytes hj hne
  have hwritten : i < (DirInfo.written (dir.set i s)).length := by
    apply lt_length_takeWhile
    intro j hj
    rcases Nat.lt_or_ge j i with hlt | hge
    · have hjlt : j < dir.length := by omega
      have hget := List.getElem?_eq_getElem hjlt
      refine ⟨dir[j], by rw [hset j (by omega), hget], ?_⟩
      have hne := hbefore j hlt
      rw [hget] at hne
      exact bne_iff_ne.mpr fun heq => hne (congrArg some heq)
    · obtain rfl : j = i := by omega
      exact ⟨s, hself, bne_iff_ne.mpr hs⟩
  refine ⟨hall, ?_, fun j hjlt hj => ?_⟩
  · rw [diskSlot_writeDir _ hall, getElem?_written hwritten, hself]
    rfl
  · rw [diskSlot_writeDir _ hall]
    rcases Nat.lt_or_ge j (DirInfo.written (dir.set i s)).length with hlt | hge
    · -- written again as it was
      have hmem := List.getElem?_eq_getElem hlt
      have hget := getElem?_written hlt
      rw [hmem, hset j hj] at hget
      have hne := (mem_written (List.getElem_mem hlt)).2
      rw [hmem]
      exact (h.tidy j _ hget.symm hne).symm
    · rw [List.getElem?_eq_none hge]
      exact hbase j hjlt

/-- What is read back after slot `i` has been rewritten. -/
theorem Volume.init_set (h : Volume img saved dir chain) {img' : Image}
    (hslot : readSlot (diskSlot img' i) = .ok s)
    (hothers : ∀ j, j < fileCount → j ≠ i → diskSlot img' j = diskSlot img j) :
    DirInfo.init img' = .ok (dir.set i s) := by
  have hlen := h.length_dir
  rw [init_eq_ok]
  refine ⟨by rw [List.length_set, hlen], fun j t ht => ?_⟩
  by_cases hj : j = i
  · subst hj
    have hlt := (List.getElem?_eq_some_iff.mp ht).1
    rw [List.getElem?_set_self (by rwa [List.length_set] at hlt)] at ht
    cases ht
    exact hslot
  · rw [List.getElem?_set_ne (Ne.symm hj)] at ht
    have hlt := (List.getElem?_eq_some_iff.mp ht).1
    rw [hothers j (by omega) hj]
    exact (init_eq_ok.mp h.dir_eq).2 j t ht

theorem Volume.tidy_set (h : Volume img saved dir chain) {img' : Image}
    (hslot : diskSlot img' i = s.bytes)
    (hothers : ∀ j, j < fileCount → j ≠ i → diskSlot img' j = diskSlot img j) :
    ∀ (j : ℕ) (t : Slot), (dir.set i s)[j]? = some t → t ≠ .unused → diskSlot img' j = t.bytes := by
  intro j t ht hne
  have hlen := h.length_dir
  have hlt := (List.getElem?_eq_some_iff.mp ht).1
  rw [List.length_set] at hlt
  by_cases hj : j = i
  · subst hj
    rw [List.getElem?_set_self hlt] at ht
    cases ht
    exact hslot
  · rw [List.getElem?_set_ne (Ne.symm hj)] at ht
    rw [hothers j (by omega) hj]
    exact h.tidy j t ht hne

theorem Volume.compact_set (h : Volume img saved dir chain) (hs : s ≠ .unused)
    (hbefore : ∀ j, j < i → dir[j]? ≠ some .unused) :
    ∀ (j k : ℕ) (t : Slot), j ≤ k → (dir.set i s)[j]? = some .unused →
      (dir.set i s)[k]? = some t → t = .unused := by
  intro j k t hjk hj hk
  have hji : j ≠ i := by
    rintro rfl
    have hlt := (List.getElem?_eq_some_iff.mp hj).1
    rw [List.length_set] at hlt
    rw [List.getElem?_set_self hlt] at hj
    exact hs (Option.some.inj hj)
  rw [List.getElem?_set_ne (Ne.symm hji)] at hj
  have hge : ¬ j < i := fun hlt => hbefore j hlt hj
  rw [List.getElem?_set_ne (by omega)] at hk
  exact h.compact j k t hjk hj hk

end Rewrite

/-! ## §4  Directory and FAT written back -/

section WriteBack

variable (base : Image) {dir : DirInfo} {fat : Fat} (hlen : dir.length = fileCount)
  (hbytes : ∀ s ∈ dir.written, s.bytes.length = fileinfoBytes) (hfat : fat.length = 3072)
  (hlt : ∀ n ∈ fat, n < 4096)

include hfat hlt in
theorem diskSlot_writeFat (i : ℕ) : diskSlot (base.writeFat fat) i = diskSlot base i :=
  peek_congr fun a ha _ => writeFat_outside base hfat hlt (Or.inr (le_trans (by
    unfold slotAddress
    omega) ha))

include hlen hbytes hfat hlt

theorem writeBack_data {a : ℕ} (ha : entityAddress + 2 * clusterBytes ≤ a) :
    ((base.writeDir dir).writeFat fat).byte a = base.byte a := by
  have hdir : dirAddress ≤ entityAddress + 2 * clusterBytes := by decide
  rw [writeFat_outside _ hfat hlt (Or.inr (by omega)),
    writeDir_outside base hlen hbytes (Or.inr ha)]

theorem writeBack_size : ((base.writeDir dir).writeFat fat).size = base.size := by
  rw [writeFat_size _ hfat hlt, writeDir_size base hlen hbytes]

/-- Blocks of the data area are left alone. -/
theorem Holds.writeBack {base : Image} {cs : List ℕ} {data : List Byte} (h : Holds base cs data)
    (hcs : ∀ c ∈ cs, 2 ≤ c) : Holds ((base.writeDir dir).writeFat fat) cs data := by
  refine h.congr (Nat.le_of_eq (writeBack_size base hlen hbytes hfat hlt).symm) ?_
  intro c hc a ha _
  have hle := Nat.mul_le_mul_right clusterBytes (hcs c hc)
  exact writeBack_data base hlen hbytes hfat hlt (by omega)

end WriteBack

/-! ## §5  `save` -/

section Save

variable {img : Image} {saved : ℕ → List Byte} {dir : DirInfo} {chain : ℕ → List ℕ}
  {target : TargetFile} {now : DateTime} {i : ℕ} {info : FileInfo} {data : List Byte}

theorem mem_free_of_mem_picksFor {n c : ℕ} (hc : c ∈ picksFor img n) :
    c ∈ (Fat.init img).free 0 :=
  List.mem_of_mem_take hc

theorem nodup_picksFor {n : ℕ} : (picksFor img n).Nodup :=
  List.Sublist.nodup (List.take_sublist _ _) nodup_freeCells

/-- The new FAT is a FAT. -/
theorem link_picks_wf (n : ℕ) :
    (link 0xFFF (Fat.init img) (picksFor img n)).length = 3072 ∧
      ∀ x ∈ link 0xFFF (Fat.init img) (picksFor img n), x < 4096 := by
  refine ⟨by rw [length_link, length_init], fun x hx => ?_⟩
  rcases mem_link hx with hx | hx | rfl
  · exact init_lt hx
  · have := lt_length_of_mem_free (mem_free_of_mem_picksFor hx)
    rw [length_init] at this
    omega
  · decide

/-- Names and sizes of a new file. -/
theorem Saves.info_eq (hs : Saves img target now dir i info data) :
    info.filename = filename83 target.path ∧ info.size.toNat = data.length ∧
      (picksFor img data.length ≠ [] →
        (picksFor img data.length).head? = some info.cluster.toNat) := by
  obtain ⟨start, hstart, rfl⟩ := hs.start
  have hmem : start ∈ (Fat.init img).free 0 := List.mem_of_mem_head? hstart
  have hlt := lt_length_of_mem_free hmem
  rw [length_init] at hlt
  have hcount : ((Fat.init img).free 0).length ≤ 3072 := by
    -- distinct cells of a table of 3072
    have hsub : (Fat.init img).free 0 ⊆ List.range 3072 := fun c hc => by
      have := lt_length_of_mem_free hc
      rw [length_init] at this
      exact List.mem_range.mpr this
    have := (nodup_freeCells.subperm hsub).length_le
    rwa [List.length_range] at this
  have hspace := hs.space
  refine ⟨rfl, ?_, fun hne => ?_⟩
  · show data.length % 2 ^ 32 = data.length
    unfold clustersOf clusterBytes at hspace
    omega
  · have hcluster : (BitVec.ofNat 16 start).toNat = start := by
      show start % 2 ^ 16 = start
      omega
    show _ = some (BitVec.ofNat 16 start).toNat
    rw [hcluster, ← hstart]
    unfold picksFor at hne ⊢
    rw [List.head?_take, if_neg]
    intro h0
    rw [h0] at hne
    exact hne (List.take_zero)

/-- A slot before the first free one is in use. -/
theorem Saves.before (hs : Saves img target now dir i info data) :
    ∀ j, j < i → dir[j]? ≠ some .unused := by
  intro j hj hget
  obtain ⟨info', hfile⟩ := (findFreeIndex_eq_some hs.slot).2 j hj
  rw [hget] at hfile
  cases hfile

theorem Saves.index_lt (hs : Saves img target now dir i info data) : i < fileCount := by
  rw [← (init_eq_ok.mp hs.dir_eq).1]
  rcases (findFreeIndex_eq_some hs.slot).1 with h | h
  · exact (List.getElem?_eq_some_iff.mp h).1
  · exact (List.getElem?_eq_some_iff.mp h).1

variable (h : Volume img saved dir chain) (hclean : CleanName target.path)
  (hs : Saves img target now dir i info data)

include h in
/-- The blocks that are written lie in the data area. -/
theorem Volume.blocks_outside {n a : ℕ} (ha : a < entityAddress + 2 * clusterBytes) :
    (writeBlocks img (picksFor img n) data).byte a = img.byte a := by
  apply writeBlocks_outside
  intro c hc
  have := (h.of_mem_free (mem_free_of_mem_picksFor hc)).1
  have hle := Nat.mul_le_mul_right clusterBytes this
  exact Or.inl (by omega)

include h in
theorem Volume.diskSlot_blocks {n j : ℕ} (hj : j < fileCount) :
    diskSlot (writeBlocks img (picksFor img n) data) j = diskSlot img j := by
  apply peek_congr
  intro a _ ha
  apply h.blocks_outside
  have hend : dirAddress + fileinfoBytes * fileCount = entityAddress + 2 * clusterBytes := rfl
  have hmul : fileinfoBytes * (j + 1) ≤ fileinfoBytes * fileCount := Nat.mul_le_mul_left _ hj
  have hsucc : fileinfoBytes * (j + 1) = fileinfoBytes * j + fileinfoBytes := Nat.mul_succ _ _
  unfold slotAddress at ha
  omega

include h hclean hs in
/-- **The directory after `save`**: every element written takes 32 bytes, the record of
the new file is in its slot, and the other slots keep their bytes. -/
theorem Volume.slots_of_saves :
    (∀ t ∈ DirInfo.written (dir.set i (.file info)), t.bytes.length = fileinfoBytes) ∧
      diskSlot (savedImage img dir i info data) i = info.pack ∧
      ∀ j, j < fileCount → j ≠ i → diskSlot (savedImage img dir i info data) j = diskSlot img j := by
  obtain ⟨hname, -, -⟩ := hs.info_eq
  have hstored : StoredName info.filename := by
    rw [hname]
    exact hclean.storedName
  obtain ⟨hfat, hlt⟩ := @link_picks_wf img data.length
  obtain ⟨hall, hi, hothers⟩ := h.rewrite (s := .file info) hs.index_lt hs.before nofun
    hstored.length_pack (writeBlocks img (picksFor img data.length) data)
    fun j hj => h.diskSlot_blocks hj
  refine ⟨hall, ?_, fun j hj hne => ?_⟩
  · unfold savedImage
    rw [diskSlot_writeFat _ hfat hlt, hi]
    rfl
  · unfold savedImage
    rw [diskSlot_writeFat _ hfat hlt, hothers j hj hne]

/-- The clusters that are taken are free, so no file has them. -/
theorem Volume.of_mem_picksFor (h : Volume img saved dir chain) {n c : ℕ} (hc : c ∈ picksFor img n) :
    2 ≤ c ∧ c < 3072 ∧ ∀ j, c ∉ chain j :=
  h.of_mem_free (mem_free_of_mem_picksFor hc)

theorem init_savedImage (img : Image) (dir : DirInfo) (i : ℕ) (info : FileInfo) (data : List Byte) :
    Fat.init (savedImage img dir i info data) =
      link 0xFFF (Fat.init img) (picksFor img data.length) :=
  init_writeFat _ (link_picks_wf data.length).1 (link_picks_wf data.length).2

include h hs in
theorem Volume.length_set_dir (s : Slot) : (dir.set i s).length = fileCount ∧ i < dir.length := by
  rw [List.length_set, h.length_dir]
  exact ⟨rfl, hs.index_lt⟩

include h hclean hs in
/-- The new file. -/
theorem Volume.fileAt_new :
    FileAt (savedImage img dir i info data) info.stored data (picksFor img data.length) where
  size_eq := hs.info_eq.2.1
  count := length_picksFor hs.space
  first := hs.info_eq.2.2
  linked := fun hne => by
    rw [init_savedImage]
    refine isChain_link hne nodup_picksFor fun c hc => ?_
    rw [length_init]
    exact (h.of_mem_picksFor hc).2.1
  cells := fun c hc => ⟨(h.of_mem_picksFor hc).1, (h.of_mem_picksFor hc).2.1⟩
  data := (holds_writeBlocks nodup_picksFor (length_picksFor hs.space)).writeBack
    (h.length_set_dir hs _).1 (h.slots_of_saves hclean hs).1 (link_picks_wf data.length).1
    (link_picks_wf data.length).2 fun c hc => (h.of_mem_picksFor hc).1

include h hclean hs in
/-- A file that was there: its links and blocks are not among those written. -/
theorem Volume.fileAt_old {j : ℕ} {info' : FileInfo} (hfile : dir[j]? = some (.file info')) :
    FileAt (savedImage img dir i info data) info' (saved j) (chain j) := by
  have hother : ∀ c ∈ chain j, c ∉ picksFor img data.length := fun c hc hp =>
    (h.of_mem_picksFor hp).2.2 j hc
  refine (h.fileAt hfile).transfer (fun c hc => ?_) ?_
  · rw [init_savedImage, entryAt_link_of_not_mem (hother c hc)]
  · have hblocks : Holds (writeBlocks img (picksFor img data.length) data) (chain j) (saved j) := by
      refine (h.data j info' hfile).congr (size_le_writeBlocks _ _ _) ?_
      intro c hc a h₁ h₂
      apply writeBlocks_outside
      intro d hd
      have hcd : c ≠ d := fun heq => hother c hc (heq ▸ hd)
      exact block_outside hcd h₁ h₂
    exact hblocks.writeBack (h.length_set_dir hs _).1 (h.slots_of_saves hclean hs).1
      (link_picks_wf data.length).1 (link_picks_wf data.length).2 fun c hc => (h.cells j c hc).1

include h hs in
/-- The slot was free, so it had no chain. -/
theorem Volume.chain_of_saves : chain i = [] := by
  apply h.free
  intro info' hfile
  rcases (findFreeIndex_eq_some hs.slot).1 with hget | hget
  · rw [hget] at hfile
    cases hfile
  · rw [hget] at hfile
    cases hfile

include h hs in
/-- The entries that are not free after `save`. -/
theorem Volume.owned_of_saves {c : ℕ} (hc : 2 ≤ c)
    (hne : entryAt (Fat.init (savedImage img dir i info data)) c ≠ 0) :
    ∃ j, c ∈ Function.update chain i (picksFor img data.length) j := by
  rw [init_savedImage] at hne
  by_cases hp : c ∈ picksFor img data.length
  · exact ⟨i, by rwa [Function.update_self]⟩
  · rw [entryAt_link_of_not_mem hp] at hne
    obtain ⟨j, hj⟩ := h.owned c hc hne
    have hji : j ≠ i := by
      rintro rfl
      rw [h.chain_of_saves hs] at hj
      cases hj
    exact ⟨j, by rwa [Function.update_of_ne hji]⟩

include h in
/-- The chains after `save` have no cluster in common. -/
theorem Volume.disjoint_of_saves {n j k c : ℕ}
    (hj : c ∈ Function.update chain i (picksFor img n) j)
    (hk : c ∈ Function.update chain i (picksFor img n) k) : j = k := by
  by_cases hji : j = i
  · by_cases hki : k = i
    · rw [hji, hki]
    · rw [hji, Function.update_self] at hj
      rw [Function.update_of_ne hki] at hk
      exact absurd hk ((h.of_mem_picksFor hj).2.2 k)
  · rw [Function.update_of_ne hji] at hj
    by_cases hki : k = i
    · rw [hki, Function.update_self] at hk
      exact absurd hj ((h.of_mem_picksFor hk).2.2 j)
    · rw [Function.update_of_ne hki] at hk
      exact h.disjoint j k c hj hk

include h hclean hs in
/-- **`save` keeps the volume**: the clusters it takes become the chain of its slot. -/
theorem Volume.save : Volume (savedImage img dir i info data) (Function.update saved i data)
    (dir.set i (.file info.stored)) (Function.update chain i (picksFor img data.length)) := by
  obtain ⟨-, hi, hothers⟩ := h.slots_of_saves hclean hs
  obtain ⟨hname, -, -⟩ := hs.info_eq
  have hdirlt := (h.length_set_dir hs (.file info)).2
  have hstored : StoredName info.filename := by
    rw [hname]
    exact hclean.storedName
  have hset : ∀ j, j ≠ i → (dir.set i (.file info.stored))[j]? = dir[j]? := fun j hj =>
    List.getElem?_set_ne (Ne.symm hj)
  have hset_self : (dir.set i (.file info.stored))[i]? = some (.file info.stored) :=
    List.getElem?_set_self hdirlt
  refine volume_of_files (h.init_set ?_ hothers) (h.tidy_set ?_ hothers)
    (h.compact_set nofun hs.before) (fun j info' hfile => ?_) (fun j hfree => ?_)
    (fun j k c hj hk => h.disjoint_of_saves hj hk) (fun c hc hne => h.owned_of_saves hs hc hne) ?_
    (writeFat_copies _ (link_picks_wf data.length).1 (link_picks_wf data.length).2)
  · rw [hi, readSlot_pack hstored]
    rfl
  · rw [hi, ← pack_stored hclean hname]
    rfl
  · by_cases hj : j = i
    · subst hj
      rw [hset_self] at hfile
      cases hfile
      rw [Function.update_self, Function.update_self]
      exact h.fileAt_new hclean hs
    · rw [hset j hj] at hfile
      rw [Function.update_of_ne hj, Function.update_of_ne hj]
      exact h.fileAt_old hclean hs hfile
  · have hj : j ≠ i := by
      rintro rfl
      exact hfree _ hset_self
    rw [Function.update_of_ne hj]
    exact h.free j fun info' hfile => hfree info' (by rw [hset j hj, hfile])
  · have hlow : ∀ c, c < 2 → c ∉ picksFor img data.length := fun c hlt hc =>
      absurd (h.of_mem_picksFor hc).1 (Nat.not_le.mpr hlt)
    rw [init_savedImage, entryAt_link_of_not_mem (hlow 0 (by decide)),
      entryAt_link_of_not_mem (hlow 1 (by decide))]
    exact h.reserved

end Save

/-! ## §6  `del` -/

section Del

variable {img : Image} {saved : ℕ → List Byte} {dir : DirInfo} {chain : ℕ → List ℕ}
  {i : ℕ} {info : FileInfo}

/-- The FAT without a chain is a FAT. -/
theorem unlink_wf (img : Image) (cs : List ℕ) : (unlink (Fat.init img) cs).length = 3072 ∧
    ∀ x ∈ unlink (Fat.init img) cs, x < 4096 := by
  refine ⟨by rw [length_unlink, length_init], fun x hx => ?_⟩
  rcases mem_unlink hx with hx | rfl
  · exact init_lt hx
  · decide

variable (h : Volume img saved dir chain) (hfile : dir[i]? = some (.file info))

include h hfile

/-- `del_chain` frees the chain of the file. -/
theorem Volume.delChain : (Fat.init img).delChain info.cluster.toNat info.size.toNat =
    .ok (unlink (Fat.init img) (chain i)) := by
  refine delChain_eq ?_ (h.first i info hfile) (h.linked i) (h.nodup i) (fun c hc => ?_) ?_
  · rw [h.count i info hfile, h.size_eq i info hfile]
  · rw [length_init]
    exact (h.cells i c hc).2
  · rw [length_init]
    decide

theorem Volume.before_file : ∀ j, j < i → dir[j]? ≠ some .unused := by
  intro j hj hget
  have := h.compact j i _ (Nat.le_of_lt hj) hget hfile
  cases this

/-- **The directory after `del`.** -/
theorem Volume.slots_of_del (fat : Fat) (hfat : fat.length = 3072) (hlt : ∀ n ∈ fat, n < 4096) :
    (∀ t ∈ DirInfo.written (dir.set i .deleted), t.bytes.length = fileinfoBytes) ∧
      diskSlot (deletedImage img dir i fat) i = Slot.deleted.bytes ∧
      ∀ j, j < fileCount → j ≠ i → diskSlot (deletedImage img dir i fat) j = diskSlot img j := by
  have hi : i < fileCount := by
    rw [← h.length_dir]
    exact (List.getElem?_eq_some_iff.mp hfile).1
  obtain ⟨hall, hself, hothers⟩ := h.rewrite (s := .deleted) hi (h.before_file hfile) nofun rfl
    img fun _ _ => rfl
  refine ⟨hall, ?_, fun j hj hne => ?_⟩
  · unfold deletedImage
    rw [diskSlot_writeFat _ hfat hlt, hself]
  · unfold deletedImage
    rw [diskSlot_writeFat _ hfat hlt, hothers j hj hne]

omit h hfile in
theorem init_deletedImage (img : Image) (dir : DirInfo) (i : ℕ) (cs : List ℕ) :
    Fat.init (deletedImage img dir i (unlink (Fat.init img) cs)) = unlink (Fat.init img) cs :=
  init_writeFat _ (unlink_wf img cs).1 (unlink_wf img cs).2

/-- A file in another slot: its links and blocks are not those of the file deleted. -/
theorem Volume.fileAt_kept {j : ℕ} {info' : FileInfo} (hj : j ≠ i)
    (hget : dir[j]? = some (.file info')) :
    FileAt (deletedImage img dir i (unlink (Fat.init img) (chain i))) info' (saved j) (chain j) := by
  obtain ⟨hfat, hlt⟩ := unlink_wf img (chain i)
  have hlen : (dir.set i .deleted).length = fileCount := by rw [List.length_set, h.length_dir]
  refine (h.fileAt hget).transfer (fun c hc => ?_) ?_
  · have hci : c ∉ chain i := fun hci => hj (h.disjoint j i c hc hci)
    rw [init_deletedImage, entryAt_unlink_of_not_mem hci]
  · exact (h.data j info' hget).writeBack hlen (h.slots_of_del hfile _ hfat hlt).1 hfat hlt
      fun c hc => (h.cells j c hc).1

omit hfile in
/-- The entries that are not free after `del`. -/
theorem Volume.owned_of_del {c : ℕ} (hc : 2 ≤ c)
    (hne : entryAt (Fat.init (deletedImage img dir i (unlink (Fat.init img) (chain i)))) c ≠ 0) :
    ∃ j, c ∈ Function.update chain i [] j := by
  rw [init_deletedImage] at hne
  by_cases hci : c ∈ chain i
  · have hclt : c < (Fat.init img).length := by
      rw [length_init]
      exact (h.cells i c hci).2
    exact absurd (entryAt_unlink_of_mem hci hclt) hne
  · rw [entryAt_unlink_of_not_mem hci] at hne
    obtain ⟨j, hj⟩ := h.owned c hc hne
    have hji : j ≠ i := fun heq => hci (heq ▸ hj)
    exact ⟨j, by rwa [Function.update_of_ne hji]⟩

/-- **`del` keeps the volume**: the slot has no chain any more. -/
theorem Volume.del : Volume (deletedImage img dir i (unlink (Fat.init img) (chain i))) saved
    (dir.set i .deleted) (Function.update chain i []) := by
  obtain ⟨hfat, hlt⟩ := unlink_wf img (chain i)
  obtain ⟨-, hself, hothers⟩ := h.slots_of_del hfile _ hfat hlt
  have hset : ∀ j, j ≠ i → (dir.set i .deleted)[j]? = dir[j]? := fun j hj =>
    List.getElem?_set_ne (Ne.symm hj)
  have hset_self : (dir.set i .deleted)[i]? = some .deleted :=
    List.getElem?_set_self (List.getElem?_eq_some_iff.mp hfile).1
  have hmem : ∀ {j c}, c ∈ Function.update chain i [] j → c ∈ chain j := by
    intro j c hc
    by_cases hj : j = i
    · rw [hj, Function.update_self] at hc
      cases hc
    · rwa [Function.update_of_ne hj] at hc
  refine volume_of_files (h.init_set ?_ hothers) (h.tidy_set hself hothers)
    (h.compact_set nofun (h.before_file hfile)) (fun j info' hget => ?_) (fun j hnone => ?_)
    (fun j k c hj hk => h.disjoint j k c (hmem hj) (hmem hk)) (fun c hc hne => h.owned_of_del hc hne) ?_
    (writeFat_copies _ hfat hlt)
  · rw [hself]
    rfl
  · have hj : j ≠ i := by
      rintro rfl
      rw [hset_self] at hget
      cases hget
    rw [hset j hj] at hget
    rw [Function.update_of_ne hj]
    exact h.fileAt_kept hfile hj hget
  · by_cases hj : j = i
    · rw [hj, Function.update_self]
    · rw [Function.update_of_ne hj]
      exact h.free j fun info' hget => hnone info' (by rw [hset j hj, hget])
  · have hlow : ∀ c, c < 2 → c ∉ chain i := fun c hlt hc =>
      absurd (h.cells i c hc).1 (Nat.not_le.mpr hlt)
    rw [init_deletedImage, entryAt_unlink_of_not_mem (hlow 0 (by decide)),
      entryAt_unlink_of_not_mem (hlow 1 (by decide))]
    exact h.reserved

end Del

/-! ## §7  `format`, and whole runs -/

theorem formatDisk_byte (a : ℕ) (h₁ : a < fat1Address ∨ fat1Address + 3 ≤ a)
    (h₂ : a < fat2Address ∨ fat2Address + 3 ≤ a) : formatDisk.byte a = 0 := by
  show poke (poke (fun _ => 0) fat1Address _) fat2Address _ a = 0
  rw [poke_outside _ h₂, poke_outside _ h₁]

/-- A formatted disk has the two reserved entries and no others. -/
theorem entryAt_formatDisk (c : ℕ) : entryAt (Fat.init formatDisk) c =
    if c = 0 then 0xFF0 else if c = 1 then 0xFFF else 0 := by
  rcases Nat.lt_or_ge c 3072 with hlt | hge
  · rw [entryAt_init formatDisk hlt]
    by_cases h₀ : c = 0
    · rw [if_pos h₀, h₀]
      decide +kernel
    · by_cases h₁ : c = 1
      · rw [if_neg h₀, if_pos h₁, h₁]
        decide +kernel
      · rw [if_neg h₀, if_neg h₁]
        -- its three bytes are zero
        have hbyte : ∀ a, fat1Address + 3 * (c / 2) ≤ a → a < fat1Address + 3 * (c / 2) + 3 →
            formatDisk.byte a = zeroImage.byte a := by
          intro a h₁ h₂
          apply formatDisk_byte
          · omega
          · unfold fat1Address at h₂
            unfold fat2Address
            omega
        exact (entry_congr hbyte).trans (by simp [entry, zeroImage, lowEntry, highEntry])
  · rw [entryAt_init_of_le _ hge, if_neg (by omega), if_neg (by omega)]

theorem diskSlot_formatDisk {i : ℕ} : readSlot (diskSlot formatDisk i) = .ok .unused := by
  have hzero : diskSlot formatDisk i = List.replicate fileinfoBytes 0 := by
    rw [diskSlot, peek_eq_iff (List.length_replicate)]
    intro j x hx
    rw [List.eq_of_mem_replicate (List.mem_of_getElem? hx)]
    have hle : fat2Address + 3 ≤ dirAddress := by decide
    have hle' : fat1Address + 3 ≤ dirAddress := by decide
    unfold slotAddress
    exact formatDisk_byte _ (by omega) (by omega)
  rw [hzero]
  rfl

theorem volume_format : Volume formatDisk (fun _ => [])
    (List.replicate fileCount .unused) (fun _ => []) := by
  have hnone : ∀ (i : ℕ) (info : FileInfo),
      (List.replicate fileCount Slot.unused)[i]? ≠ some (.file info) := by
    intro i info hget
    cases List.eq_of_mem_replicate (List.mem_of_getElem? hget)
  refine ⟨?_, ?_, ?_, ?_, ?_, ?_, fun _ _ => rfl, fun _ h => absurd rfl h,
    fun _ _ hc => absurd hc List.not_mem_nil, fun _ _ _ hc => absurd hc List.not_mem_nil, ?_, ?_,
    ?_, ?_⟩
  · rw [init_eq_ok]
    refine ⟨List.length_replicate, fun i s hs => ?_⟩
    rw [List.eq_of_mem_replicate (List.mem_of_getElem? hs)]
    exact diskSlot_formatDisk
  · intro i s hs hne
    exact absurd (List.eq_of_mem_replicate (List.mem_of_getElem? hs)) hne
  · intro i j s _ _ hs
    exact List.eq_of_mem_replicate (List.mem_of_getElem? hs)
  · exact fun i info hget => absurd hget (hnone i info)
  · exact fun i info hget => absurd hget (hnone i info)
  · exact fun i info hget => absurd hget (hnone i info)
  · intro c hc hne
    rw [entryAt_formatDisk, if_neg (by omega), if_neg (by omega)] at hne
    exact absurd rfl hne
  · exact fun i info hget => absurd hget (hnone i info)
  · rw [entryAt_formatDisk, entryAt_formatDisk]
    decide
  · rw [peek_eq_iff length_peek]
    intro i x hx
    have hi := (List.getElem?_eq_some_iff.mp hx).1
    rw [length_peek] at hi
    rw [getElem?_peek hi] at hx
    rw [← Option.some.inj hx]
    -- the same three bytes in both places, zeros behind them
    rcases Nat.lt_or_ge i 3 with h3 | h3
    · match i, h3 with
      | 0, _ => decide +kernel
      | 1, _ => decide +kernel
      | 2, _ => decide +kernel
    · have hend : fat1Address + fatBytes = fat2Address := rfl
      rw [formatDisk_byte _ (by omega) (by omega), formatDisk_byte _ (by omega) (by omega)]

/-- The names that are saved are clean. -/
def CleanSave : Admission := fun _ cmd =>
  match cmd with
  | .save target _ => CleanName target.path
  | .del _ => True

/-- **Every image of a run is a volume**, if the names that are saved are clean. -/
theorem runs_volume {img : Image} {saved : ℕ → List Byte} (h : Runs CleanSave img saved) :
    ∃ dir chain, Volume img saved dir chain := by
  refine h.invariant (fun img saved => ∃ dir chain, Volume img saved dir chain)
    ⟨_, _, volume_format⟩ ?_ ?_
  · rintro img saved target now dir i info data ⟨dir', chain, hvol⟩ hadmits hsaves
    obtain rfl : dir' = dir := Except.ok.inj (hvol.dir_eq.symm.trans hsaves.dir_eq)
    exact ⟨_, _, hvol.save hadmits hsaves⟩
  · rintro img saved path dir i info fat ⟨dir', chain, hvol⟩ - hdir - hfile hdel
    obtain rfl : dir' = dir := Except.ok.inj (hvol.dir_eq.symm.trans hdir)
    rw [hvol.delChain hfile] at hdel
    cases hdel
    exact ⟨_, _, hvol.del hfile⟩

end Knos.Fat12Img
