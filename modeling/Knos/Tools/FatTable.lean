import Knos.Tools.Clusters

/-!
# The FAT as bytes and as a table

`Fat.write` fills a `bytearray`, which takes values below 256 only, and indexes its table
two entries at a time, so it raises where a value comes out larger or an entry has no
partner. On a table of 12-bit entries of even length it does not (`write_eq`), and what it
writes is `packFat`, with which the commands are modelled.

Such a table and its bytes determine each other, bit for bit. The tables that the tool works
on are all of this kind: `save` stores indices of the table and the end mark, `del_chain`
stores zeros (`Reachable.packable`).
-/

namespace Knos.Fat12Img

open Knos.Bytes Knos.Fat12

/-! ## §1  `Fat.write` with its exceptions -/

/-- What ends `Fat.write` early. -/
inductive EncodeError where
  | valueError (value : ℕ)
  | indexError
deriving DecidableEq, Repr

/-- `data.extend(values)` -/
def extend (data : List Byte) : List ℕ → Except EncodeError (List Byte)
  | [] => .ok data
  | n :: values =>
      if n < 256 then extend (data ++ [BitVec.ofNat 8 n]) values else .error (.valueError n)

/-- The loop of `Fat.write`, with the `bytearray` filled so far. -/
def writeLoop (data : List Byte) : Fat → Except EncodeError (List Byte)
  | [] => .ok data
  | [_] => .error .indexError
  | n₁ :: n₂ :: fat => do
      let data ← extend data [n₁ &&& 0xFF, ((n₂ &&& 0x0F) <<< 4) ||| (n₁ >>> 8), n₂ >>> 4]
      writeLoop data fat

/-- The bytes of a file with `data` in both places of the FAT. -/
def putCopies (s : Store Byte) (data : List Byte) : Store Byte :=
  poke (poke s fat1Address data) fat2Address data

/-- `Fat.write` on the bytes of the image file. -/
def Fat.write (fat : Fat) (s : Store Byte) : Except EncodeError (Store Byte) := do
  let data ← writeLoop [] fat
  .ok (putCopies s data)

/-! ## §2  Tables of 12-bit entries -/

/-- The tables that can be written. -/
structure Packable (fat : Fat) : Prop where
  lt : ∀ n ∈ fat, n < 4096
  even : 2 ∣ fat.length

theorem Packable.set {fat : Fat} {n : ℕ} (h : Packable fat) (c : ℕ) (hn : n < 4096) :
    Packable (fat.set c n) where
  lt := by
    intro m hm
    rcases List.mem_or_eq_of_mem_set hm with hm | rfl
    · exact h.lt m hm
    · exact hn
  even := by
    rw [List.length_set]
    exact h.even

theorem packable_unpackFat {data : List Byte} (h : 3 ∣ data.length) :
    Packable (unpackFat data) where
  lt := by
    intro n hn
    rw [unpackFat_eq] at hn
    exact unpackTable_lt hn
  even := by
    obtain ⟨k, hk⟩ := h
    rw [unpackFat_eq, length_unpackTable k data hk]
    exact Dvd.intro k rfl

theorem packable_init {img : Image} : Packable (Fat.init img) where
  lt := fun _ hn => init_lt hn
  even := by
    rw [length_init]
    decide

/-- Three values that fit are appended. -/
theorem extend_three (data : List Byte) {x y z : ℕ} (hx : x < 256) (hy : y < 256) (hz : z < 256) :
    extend data [x, y, z] =
      .ok (data ++ [BitVec.ofNat 8 x, BitVec.ofNat 8 y, BitVec.ofNat 8 z]) := by
  unfold extend
  rw [if_pos hx]
  unfold extend
  rw [if_pos hy]
  unfold extend
  rw [if_pos hz]
  unfold extend
  rw [List.append_assoc, List.append_assoc]
  rfl

/-- One turn of the loop writes the two entries. -/
theorem writeLoop_pair (data : List Byte) (fat : Fat) {n₁ n₂ : ℕ} (h₁ : n₁ < 4096)
    (h₂ : n₂ < 4096) :
    writeLoop data (n₁ :: n₂ :: fat) = writeLoop (data ++ packFat [n₁, n₂]) fat := by
  have hlow : n₁ &&& 0xFF < 256 := lt_of_le_of_lt Nat.and_le_right (by decide)
  have hmid : ((n₂ &&& 0x0F) <<< 4) ||| (n₁ >>> 8) < 256 := by
    rw [sharedByte_eq n₂ h₁]
    omega
  have hhigh : n₂ >>> 4 < 256 := by
    rw [Nat.shiftRight_eq_div_pow]
    omega
  rw [writeLoop, extend_three data hlow hmid hhigh]
  rfl

theorem writeLoop_eq (k : ℕ) (data : List Byte) (fat : Fat) (hlen : fat.length = 2 * k)
    (hlt : ∀ n ∈ fat, n < 4096) : writeLoop data fat = .ok (data ++ packFat fat) := by
  induction k generalizing data fat with
  | zero =>
      obtain rfl : fat = [] := List.length_eq_zero_iff.mp hlen
      exact congrArg Except.ok (List.append_nil data).symm
  | succ k ih =>
      obtain ⟨n₁, n₂, rest, rfl, hrest⟩ := exists_pair hlen
      have h₁ := hlt n₁ List.mem_cons_self
      have h₂ := hlt n₂ (List.mem_cons_of_mem _ List.mem_cons_self)
      have hlt' : ∀ n ∈ rest, n < 4096 := fun n hn =>
        hlt n (List.mem_cons_of_mem _ (List.mem_cons_of_mem _ hn))
      rw [writeLoop_pair data rest h₁ h₂, ih _ rest hrest hlt', List.append_assoc]
      rfl

section Packable

variable {fat : Fat} (h : Packable fat)

include h

/-- **`Fat.write` does not raise**, and writes the packed table twice. -/
theorem Packable.write_eq (s : Store Byte) : fat.write s = .ok (putCopies s (packFat fat)) := by
  obtain ⟨k, hk⟩ := h.even
  unfold Fat.write
  rw [writeLoop_eq k [] fat hk h.lt]
  rfl

/-- The commands write what `Fat.write` does. -/
theorem Packable.write_image (img : Image) : fat.write img.byte = .ok (img.writeFat fat).byte :=
  h.write_eq img.byte

theorem Packable.unpackFat_packFat : unpackFat (packFat fat) = fat := by
  obtain ⟨k, hk⟩ := h.even
  rw [packFat_eq_packTable k fat hk h.lt, unpackFat_eq, unpackTable_packTable k fat hk h.lt]

end Packable

theorem packFat_unpackFat {data : List Byte} (h : 3 ∣ data.length) :
    packFat (unpackFat data) = data := by
  obtain ⟨k, hk⟩ := h
  have hlen : (unpackTable data).length = 2 * k := length_unpackTable k data hk
  rw [unpackFat_eq, packFat_eq_packTable k _ hlen fun n hn => unpackTable_lt hn,
    packTable_unpackTable k data hk]

/-- The second copy does not reach into the first. -/
theorem peek_putCopies (s : Store Byte) {data : List Byte} (h : data.length ≤ fatBytes) :
    peek (putCopies s data) fat1Address data.length = data ∧
      peek (putCopies s data) fat2Address data.length = data := by
  have hnext : fat1Address + fatBytes = fat2Address := rfl
  refine ⟨?_, peek_poke_self _ data⟩
  unfold putCopies
  rw [peek_poke_of_disjoint (by omega), peek_poke_self]

/-! ## §3  The tables that the tool works on -/

/-- What `save` and `del_chain` make out of a table, step by step. -/
inductive Reachable (start : Fat) : Fat → Prop
  | refl : Reachable start start
  /-- `fat.put_next(prev_cluster, cluster)` for a cluster that was found -/
  | putFound {fat : Fat} {first cluster : ℕ} (prevCluster : ℕ) (h : Reachable start fat)
      (hfind : fat.findFreeCluster first = some cluster) :
      Reachable start (fat.putNext prevCluster cluster)
  /-- `fat.put_next(cluster, 0xFFF)` -/
  | putEnd {fat : Fat} (cluster : ℕ) (h : Reachable start fat) :
      Reachable start (fat.putNext cluster 0xFFF)
  | delChain {fat fat' : Fat} {cluster size : ℕ} (h : Reachable start fat)
      (hdel : fat.delChain cluster size = .ok fat') : Reachable start fat'

theorem Reachable.trans {start fat fat' : Fat} (h : Reachable start fat)
    (h' : Reachable fat fat') : Reachable start fat' := by
  induction h' with
  | refl => exact h
  | putFound prev _ hfind ih => exact ih.putFound prev hfind
  | putEnd cluster _ ih => exact ih.putEnd cluster
  | delChain _ hdel ih => exact ih.delChain hdel

theorem delChainLoop_packable {fat fat' : Fat} {no cluster : ℕ} (h : Packable fat)
    (hdel : delChainLoop no cluster fat = .ok fat') :
    Packable fat' ∧ fat'.length = fat.length := by
  induction no generalizing cluster fat with
  | zero =>
      cases hdel
      exact ⟨h, rfl⟩
  | succ no ih =>
      unfold delChainLoop at hdel
      obtain ⟨nextCluster, -, hdel⟩ := Loop.bind_eq_ok.mp hdel
      have hcleared : Packable (fat.set cluster 0) := h.set cluster (by decide)
      split at hdel
      · cases hdel
        exact ⟨hcleared, List.length_set⟩
      · obtain ⟨hpack, hlen⟩ := ih hcleared hdel
        exact ⟨hpack, hlen.trans List.length_set⟩

/-- **Only 12-bit entries are stored**: a table has no index that takes more. -/
theorem Reachable.packable {start fat : Fat} (h : Reachable start fat) (hstart : Packable start)
    (hsmall : start.length ≤ 4096) : Packable fat ∧ fat.length = start.length := by
  induction h with
  | refl => exact ⟨hstart, rfl⟩
  | putFound prev _ hfind ih =>
      obtain ⟨hpack, hlen⟩ := ih
      rw [findFreeCluster_eq] at hfind
      have hlt := lt_length_of_mem_free (List.mem_of_head? hfind)
      exact ⟨hpack.set prev (by omega), List.length_set.trans hlen⟩
  | putEnd cluster _ ih =>
      exact ⟨ih.1.set cluster (by decide), List.length_set.trans ih.2⟩
  | delChain _ hdel ih =>
      obtain ⟨hpack, hlen⟩ := delChainLoop_packable ih.1 hdel
      exact ⟨hpack, hlen.trans ih.2⟩

/-- The loop of `save` takes such steps, also where it gives up. -/
theorem saveLoop_reachable (prevCluster : Option ℕ) (data : List Byte) (size : ℕ) (fat : Fat)
    (img : Image) : Reachable fat (saveLoop prevCluster data size fat img).2.1 := by
  fun_induction saveLoop prevCluster data size fat img with
  | case1 => exact Reachable.refl
  | case2 => exact Reachable.refl
  | case3 prevCluster data size fat img hsize cluster hfind fat₁ img₁ size₁ fat₂ ih =>
      have hlinked : Reachable fat fat₁ := by
        cases prevCluster with
        | none => exact Reachable.refl
        | some prev => exact Reachable.refl.putFound prev hfind
      have hended : Reachable fat fat₂ := by
        dsimp only [fat₂]
        split
        · exact hlinked.putEnd cluster
        · exact hlinked
      exact hended.trans ih

theorem save_reachable (img : Image) (target : TargetFile) (now : DateTime) (fat : Fat)
    (dir : DirInfo) : Reachable fat (save img target now fat dir).2.2.1 := by
  fun_cases save img target now fat dir with
  | case1 => exact Reachable.refl
  | case2 => exact Reachable.refl
  | case3 => exact Reachable.refl
  | case4 data _ size _ _ _ _ _ done fat' img' hloop =>
      have hreach := saveLoop_reachable none data size fat img
      rw [hloop] at hreach
      exact hreach

/-- **The FAT that `save` writes is one that can be written.** -/
theorem saveCommand_write {img img' : Image} {target : TargetFile} {now : DateTime}
    (h : saveCommand img target now = .ok (true, img')) :
    ∃ (img₁ : Image) (fat : Fat), Reachable (Fat.init img) fat ∧
      fat.write img₁.byte = .ok img'.byte := by
  unfold saveCommand at h
  obtain ⟨dir, -, h⟩ := Loop.bind_eq_ok.mp h
  have hreach := save_reachable img target now (Fat.init img) dir
  have hpack := hreach.packable packable_init (by rw [length_init]; decide)
  generalize save img target now (Fat.init img) dir = r at h hreach hpack
  obtain ⟨done, img₁, fat, dir'⟩ := r
  cases done with
  | false => cases h
  | true =>
      cases h
      exact ⟨img₁.writeDir dir', fat, hreach, hpack.1.write_image _⟩

theorem delete_write {img img' : Image} {path : List Char}
    (h : delete img path = .ok (true, img')) :
    ∃ (img₁ : Image) (fat : Fat), Reachable (Fat.init img) fat ∧
      fat.write img₁.byte = .ok img'.byte := by
  unfold delete at h
  obtain ⟨dir, -, h⟩ := Loop.bind_eq_ok.mp h
  split at h
  · cases h
  · obtain ⟨fat, hdel, h⟩ := Loop.bind_eq_ok.mp h
    have hreach : Reachable (Fat.init img) fat := Reachable.refl.delChain hdel
    have hpack := hreach.packable packable_init (by rw [length_init]; decide)
    cases h
    exact ⟨_, fat, hreach, hpack.1.write_image _⟩

/-! ## §4  Bytes and tables determine each other -/

/-- A FAT that is written back as it was read replaces the second copy by the first. -/
theorem writeFat_init (img : Image) : (img.writeFat (Fat.init img)).byte =
    poke img.byte fat2Address (peek img.byte fat1Address fatBytes) := by
  have hread : img.read fat1Address fatBytes = peek img.byte fat1Address fatBytes :=
    read_eq_peek img (by decide)
  have hlen : 3 ∣ (peek img.byte fat1Address fatBytes).length := by
    rw [length_peek]
    decide
  have hpack : packFat (Fat.init img) = peek img.byte fat1Address fatBytes := by
    unfold Fat.init
    rw [hread, packFat_unpackFat hlen]
  show poke (poke img.byte fat1Address (packFat (Fat.init img))) fat2Address _ = _
  rw [hpack, poke_peek]

/-- **The FAT is written back as it was read**, for any number of groups of three bytes; what
`__init__` reads takes `FAT_BYTES` at most, so that the copies do not meet. Any table of
12-bit entries of even length is read back as it was written. No table that comes of
`put_next` and `del_chain` makes the encoder raise. -/
theorem fat_written_back (data : List Byte) (hlen : 3 ∣ data.length)
    (hsmall : (unpackFat data).length ≤ 4096) :
    (∀ s, (unpackFat data).write s = .ok (putCopies s data) ∧
      (data.length ≤ fatBytes → peek (putCopies s data) fat1Address data.length = data ∧
        peek (putCopies s data) fat2Address data.length = data)) ∧
    (∀ fat : Fat, 2 ∣ fat.length → (∀ n ∈ fat, n < 4096) →
      ∃ written, (∀ s, fat.write s = .ok (putCopies s written)) ∧ unpackFat written = fat) ∧
    ∀ fat, Reachable (unpackFat data) fat →
      (∀ n ∈ fat, n < 4096) ∧ ∀ s, ∃ s', fat.write s = .ok s' := by
  have hpack := packable_unpackFat hlen
  refine ⟨fun s => ⟨?_, peek_putCopies s⟩, fun fat heven hlt => ?_, fun fat hreach => ?_⟩
  · rw [hpack.write_eq, packFat_unpackFat hlen]
  · have hfat : Packable fat := ⟨hlt, heven⟩
    exact ⟨packFat fat, hfat.write_eq, hfat.unpackFat_packFat⟩
  · have hfat := (hreach.packable hpack hsmall).1
    exact ⟨hfat.lt, fun s => ⟨_, hfat.write_eq s⟩⟩

/-- The group that `format` writes, and a file in its first cluster. -/
theorem fat_written_back_format :
    (unpackFat [0xF0, 0xFF, 0xFF]).write (fun _ => 0) =
        .ok (putCopies (fun _ => 0) [0xF0, 0xFF, 0xFF]) ∧
      ∀ n ∈ (unpackFat [0xF0, 0xFF, 0xFF, 0, 0, 0]).putNext 2 0xFFF, n < 4096 :=
  ⟨((fat_written_back [0xF0, 0xFF, 0xFF] (by decide) (by decide)).1 _).1,
    ((fat_written_back [0xF0, 0xFF, 0xFF, 0, 0, 0] (by decide) (by decide)).2.2 _
      (Reachable.refl.putEnd 2)).1⟩

end Knos.Fat12Img
