import Knos.Lib.Loop
import Knos.Tools.Fat12Img

/-!
# What the tool reads is what the image holds

`Fat.init` is the packed table at `FAT1_ADDRESS`, entry by entry (`entryAt_init`), and
`writeFat` followed by `Fat.init` gives back the list that was written (`init_writeFat`).

`DirInfo.init` decodes the 224 entries one by one (`init_eq_ok`). `DirInfo.write` lays
the records out one after the other, so an entry keeps its place as long as every record
before it takes 32 bytes: `peek_writeDir`. A record whose name is ASCII does, and is
read back (`readSlot_pack`).
-/

namespace Knos.Fat12Img

open Knos.Bytes Knos.PyText Knos.Fat12 Knos.Chains

/-! ## §1  Image files -/

theorem Image.ext_of {img img' : Image} (hsize : img.size = img'.size)
    (hbyte : img.byte = img'.byte) : img = img' := by
  cases img
  cases img'
  cases hsize
  cases hbyte
  rfl

section Write

variable (img : Image) (pos : ℕ) (data : List Byte)

@[simp] theorem write_byte : (img.write pos data).byte = poke img.byte pos data := rfl

@[simp] theorem write_nil : img.write pos [] = img :=
  Image.ext_of rfl (poke_nil img.byte)

theorem write_size_of_le {pos : ℕ} {data : List Byte} (h : pos + data.length ≤ img.size) :
    (img.write pos data).size = img.size := by
  show (if data = [] then img.size else max img.size (pos + data.length)) = _
  split
  · rfl
  · exact Nat.max_eq_left h

theorem size_le_write_size : img.size ≤ (img.write pos data).size := by
  show _ ≤ if data = [] then img.size else max img.size (pos + data.length)
  split
  · exact Nat.le_refl _
  · exact Nat.le_max_left _ _

theorem le_write_size {data : List Byte} (h : data ≠ []) :
    pos + data.length ≤ (img.write pos data).size := by
  show _ ≤ if data = [] then img.size else max img.size (pos + data.length)
  rw [if_neg h]
  exact Nat.le_max_right _ _

/-- Two writes in a row are one. -/
theorem write_append (xs ys : List Byte) :
    (img.write pos xs).write (pos + xs.length) ys = img.write pos (xs ++ ys) := by
  refine Image.ext_of ?_ (poke_append img.byte xs ys).symm
  show (if ys = [] then (if xs = [] then img.size else max img.size (pos + xs.length))
      else max (if xs = [] then img.size else max img.size (pos + xs.length))
        (pos + xs.length + ys.length)) =
    if xs ++ ys = [] then img.size else max img.size (pos + (xs ++ ys).length)
  rw [List.length_append]
  by_cases hx : xs = []
  · subst hx
    simp
  · by_cases hy : ys = []
    · subst hy
      simp [hx]
    · simp only [hx, hy, if_false, List.append_eq_nil_iff, and_self]
      omega

/-- The fixed areas lie inside every image. -/
theorem read_eq_peek {pos count : ℕ} (h : pos + count ≤ fdSize) :
    img.read pos count = peek img.byte pos count := by
  have := img.fits
  unfold Image.read
  rw [Nat.min_eq_left (by omega)]

end Write

/-! ## §2  The FAT -/

theorem lowEntry_eq (b₀ b₁ : Byte) :
    b₀.toNat ||| ((b₁.toNat &&& 0x0F) <<< 8) = lowEntry b₀ b₁ := by
  have hlt : b₀.toNat < 2 ^ 8 := b₀.isLt
  rw [Nat.or_comm, ← Nat.shiftLeft_add_eq_or_of_lt hlt, Nat.shiftLeft_eq,
    show (0x0F : ℕ) = 2 ^ 4 - 1 from rfl, Nat.and_two_pow_sub_one_eq_mod]
  unfold lowEntry
  omega

theorem highEntry_eq (b₁ b₂ : Byte) :
    (b₁.toNat >>> 4) ||| (b₂.toNat <<< 4) = highEntry b₁ b₂ := by
  have hlt : b₁.toNat < 256 := b₁.isLt
  have hshift : b₁.toNat >>> 4 < 2 ^ 4 := by
    rw [Nat.shiftRight_eq_div_pow]
    omega
  rw [Nat.or_comm, ← Nat.shiftLeft_add_eq_or_of_lt hshift, Nat.shiftLeft_eq,
    Nat.shiftRight_eq_div_pow]
  unfold highEntry
  omega

theorem unpackFat_eq (data : List Byte) : unpackFat data = unpackTable data := by
  fun_induction unpackTable data with
  | case1 b₀ b₁ b₂ data ih =>
      show (_ ||| _) :: (_ ||| _) :: unpackFat data = _
      rw [lowEntry_eq, highEntry_eq, ih]
  | case2 data hdata => exact unpackFat.eq_2 data hdata

/-- Three bytes are two entries. -/
theorem unpackFat_peek (s : Store Byte) (base k : ℕ) :
    unpackFat (peek s base (3 * k)) = (List.range (2 * k)).map (entry s base) := by
  rw [unpackFat_eq, unpackTable_peek]

/-- The byte that two entries share. -/
theorem sharedByte_eq {n₁ : ℕ} (n₂ : ℕ) (h : n₁ < 4096) :
    ((n₂ &&& 0x0F) <<< 4) ||| (n₁ >>> 8) = n₁ / 256 + 16 * (n₂ % 16) := by
  have hshift : n₁ >>> 8 < 2 ^ 4 := by
    rw [Nat.shiftRight_eq_div_pow]
    omega
  rw [← Nat.shiftLeft_add_eq_or_of_lt hshift, Nat.shiftLeft_eq, Nat.shiftRight_eq_div_pow,
    show (0x0F : ℕ) = 2 ^ 4 - 1 from rfl, Nat.and_two_pow_sub_one_eq_mod]
  omega

theorem packFat_eq_packTable (k : ℕ) (fat : Fat) (hlen : fat.length = 2 * k)
    (hlt : ∀ n ∈ fat, n < 4096) : packFat fat = packTable fat := by
  induction k generalizing fat with
  | zero =>
      obtain rfl : fat = [] := List.length_eq_zero_iff.mp hlen
      rfl
  | succ k ih =>
      obtain ⟨n₁, n₂, fat, rfl, hfat⟩ := exists_pair hlen
      have h₁ := hlt n₁ List.mem_cons_self
      have hrest := ih fat hfat fun n hn =>
        hlt n (List.mem_cons_of_mem _ (List.mem_cons_of_mem _ hn))
      have hlow : BitVec.ofNat 8 (n₁ &&& 0xFF) = BitVec.ofNat 8 n₁ := by
        apply BitVec.eq_of_toNat_eq
        rw [BitVec.toNat_ofNat, BitVec.toNat_ofNat, show (0xFF : ℕ) = 2 ^ 8 - 1 from rfl,
          Nat.and_two_pow_sub_one_eq_mod, Nat.mod_mod]
      show BitVec.ofNat 8 (n₁ &&& 0xFF) ::
        BitVec.ofNat 8 (((n₂ &&& 0x0F) <<< 4) ||| (n₁ >>> 8)) ::
          BitVec.ofNat 8 (n₂ >>> 4) :: packFat fat = packPair n₁ n₂ ++ packTable fat
      rw [hlow, sharedByte_eq n₂ h₁, hrest, Nat.shiftRight_eq_div_pow]
      rfl

/-- Entry `c` of the first FAT of an image. -/
def fatEntry (img : Image) (c : ℕ) : ℕ := entry img.byte fat1Address c

theorem init_eq_map (img : Image) : Fat.init img = (List.range 3072).map (fatEntry img) := by
  unfold Fat.init
  rw [read_eq_peek img (by decide)]
  exact unpackFat_peek img.byte fat1Address 1536

@[simp] theorem length_init (img : Image) : (Fat.init img).length = 3072 := by
  rw [init_eq_map, List.length_map, List.length_range]

theorem entryAt_init (img : Image) {c : ℕ} (h : c < 3072) :
    entryAt (Fat.init img) c = fatEntry img c := by
  apply entryAt_eq
  rw [init_eq_map, List.getElem?_map, List.getElem?_range h]
  rfl

theorem entryAt_init_of_le (img : Image) {c : ℕ} (h : 3072 ≤ c) : entryAt (Fat.init img) c = 0 := by
  unfold entryAt
  rw [List.getD_eq_getElem?_getD, List.getElem?_eq_none (by rwa [length_init])]
  rfl

theorem init_lt {img : Image} {n : ℕ} (h : n ∈ Fat.init img) : n < 4096 := by
  rw [init_eq_map] at h
  obtain ⟨c, -, rfl⟩ := List.mem_map.mp h
  exact entry_lt _ _ _

section WriteFat

variable (img : Image) {fat : Fat} (hlen : fat.length = 3072) (hlt : ∀ n ∈ fat, n < 4096)

include hlen hlt in
theorem length_packFat : (packFat fat).length = fatBytes := by
  rw [packFat_eq_packTable 1536 fat hlen hlt]
  exact length_packTable 1536 fat hlen

include hlen hlt in
/-- **The FAT is read back.** -/
theorem init_writeFat : Fat.init (img.writeFat fat) = fat := by
  have hbytes := length_packFat hlen hlt
  apply ext_entryAt
  · rw [length_init, hlen]
  · intro c hc
    rw [length_init] at hc
    rw [entryAt_init _ hc]
    have hget := List.getElem?_eq_getElem (hlen.symm ▸ hc : c < fat.length)
    rw [entryAt_eq hget]
    -- the second copy lies behind the first
    have hcongr : fatEntry (img.writeFat fat) c =
        entry (poke img.byte fat1Address (packTable fat)) fat1Address c := by
      unfold fatEntry
      apply entry_congr
      intro a h₁ h₂
      have ha : a < fat2Address := by
        have : fat2Address = fat1Address + 3 * 1536 := rfl
        omega
      show poke (poke img.byte fat1Address (packFat fat)) fat2Address (packFat fat) a = _
      rw [poke_outside _ (Or.inl ha), packFat_eq_packTable 1536 fat hlen hlt]
    rw [hcongr]
    exact entry_packTable img.byte fat1Address 1536 fat hlen hlt hget

include hlen hlt in
theorem writeFat_outside {a : ℕ} (h : a < fat1Address ∨ dirAddress ≤ a) :
    (img.writeFat fat).byte a = img.byte a := by
  have hbytes := length_packFat hlen hlt
  have hend : fat2Address + fatBytes = dirAddress := rfl
  have hnext : fat1Address + fatBytes = fat2Address := rfl
  have hle : fat1Address ≤ fat2Address := by decide
  show poke (poke img.byte fat1Address (packFat fat)) fat2Address (packFat fat) a = _
  rw [poke_outside _ (by omega), poke_outside _ (by omega)]

include hlen hlt in
theorem writeFat_size : (img.writeFat fat).size = img.size := by
  have hbytes := length_packFat hlen hlt
  have hfits := img.fits
  have hend : fat2Address + fatBytes ≤ fdSize := by decide
  have hle : fat1Address ≤ fat2Address := by decide
  have hone : (img.write fat1Address (packFat fat)).size = img.size :=
    write_size_of_le img (by omega)
  exact (write_size_of_le _ (by omega)).trans hone

include hlen hlt in
/-- `Fat.write` leaves two equal copies. -/
theorem writeFat_copies : peek (img.writeFat fat).byte fat1Address fatBytes =
    peek (img.writeFat fat).byte fat2Address fatBytes := by
  have hbytes := length_packFat hlen hlt
  have hnext : fat1Address + fatBytes = fat2Address := rfl
  show peek (poke (poke img.byte fat1Address (packFat fat)) fat2Address (packFat fat))
      fat1Address fatBytes =
    peek (poke (poke img.byte fat1Address (packFat fat)) fat2Address (packFat fat))
      fat2Address fatBytes
  rw [peek_poke_of_disjoint (by omega), ← hbytes, peek_poke_self, peek_poke_self]

end WriteFat

/-! ## §3  Records -/

/-- What `DirInfo.write` writes for an element. -/
def Slot.bytes : Slot → List Byte
  | .unused => []
  | .deleted => 0xE5 :: List.replicate (fileinfoBytes - 1) 0
  | .file info => info.pack

/-- A name of at most 11 ASCII characters that a record can begin with. -/
structure StoredName (name : List Char) : Prop where
  short : name.length ≤ 11
  ascii : ∀ c ∈ name, IsAscii c
  start : ∀ c ∈ name.head?, c.toNat ≠ 0

theorem length_pack (info : FileInfo) :
    info.pack.length = (encode (ljust info.filename 11 ' ')).length + 21 := by
  unfold FileInfo.pack
  rw [List.length_append]
  congr 1

section Pack

variable {info : FileInfo} (h : StoredName info.filename)

include h in
/-- The name with the spaces behind it. -/
theorem StoredName.ascii_padded : ∀ c ∈ ljust info.filename 11 ' ', IsAscii c := by
  intro c hc
  rcases mem_ljust hc with hc | rfl
  · exact h.ascii c hc
  · decide

include h in
theorem StoredName.encode : encode (ljust info.filename 11 ' ') =
    (ljust info.filename 11 ' ').map asciiByte :=
  encode_ascii h.ascii_padded

include h in
theorem StoredName.length_encode : (PyText.encode (ljust info.filename 11 ' ')).length = 11 := by
  have := h.short
  rw [h.encode, List.length_map, length_ljust]
  omega

include h in
theorem StoredName.length_pack : info.pack.length = 32 := by
  rw [Fat12Img.length_pack, h.length_encode]

theorem ofNat_leBytes_two (x : BitVec 16) : BitVec.ofNat 16 (leNat (leBytes 2 x.toNat)) = x := by
  rw [leNat_leBytes_of_lt x.isLt, BitVec.ofNat_toNat, BitVec.setWidth_eq]

theorem ofNat_leBytes_four (x : BitVec 32) : BitVec.ofNat 32 (leNat (leBytes 4 x.toNat)) = x := by
  rw [leNat_leBytes_of_lt x.isLt, BitVec.ofNat_toNat, BitVec.setWidth_eq]

/-- The first byte of a record tells a file from the other two. -/
theorem readSlot_of_head {b : Byte} {bs : List Byte} (h₀ : b ≠ 0) (h₁ : b ≠ 0xE5) :
    readSlot (b :: bs) =
      match decode ((b :: bs).take 11) with
      | none => .error .unicodeDecodeError
      | some filename =>
          .ok (.file {
            filename := rstrip filename
            type := (b :: bs).getD 11 0
            time := BitVec.ofNat 16 (leNat (((b :: bs).drop 22).take 2))
            date := BitVec.ofNat 16 (leNat (((b :: bs).drop 24).take 2))
            cluster := BitVec.ofNat 16 (leNat (((b :: bs).drop 26).take 2))
            size := BitVec.ofNat 32 (leNat (((b :: bs).drop 28).take 4)) }) := by
  unfold readSlot
  exact (if_neg h₀).trans (if_neg h₁)

/-- No ASCII character has the byte of a deleted entry. -/
theorem asciiByte_ne {c : Char} (hascii : IsAscii c) (hpos : c.toNat ≠ 0) :
    asciiByte c ≠ 0 ∧ asciiByte c ≠ 0xE5 := by
  have hbyte := toNat_asciiByte hascii
  constructor
  · intro h0
    rw [h0] at hbyte
    exact hpos hbyte.symm
  · intro h1
    have hlt : c.toNat < 128 := hascii
    rw [h1] at hbyte
    rw [← hbyte] at hlt
    exact absurd hlt (by decide)

include h in
/-- What the padded name begins with. -/
theorem StoredName.head_padded :
    ∃ c cs, ljust info.filename 11 ' ' = c :: cs ∧ c.toNat ≠ 0 := by
  cases hname : info.filename with
  | nil => exact ⟨' ', List.replicate 10 ' ', rfl, by decide⟩
  | cons c cs =>
      have hstart := h.start c
      rw [hname] at hstart
      exact ⟨c, _, rfl, hstart rfl⟩

include h in
/-- The record begins with a byte that neither marks it deleted nor unused. -/
theorem StoredName.head_pack : ∃ b bs, info.pack = b :: bs ∧ b ≠ 0 ∧ b ≠ 0xE5 := by
  obtain ⟨c, cs, hname, hpos⟩ := h.head_padded
  have hascii : IsAscii c := h.ascii_padded c (by rw [hname]; exact List.mem_cons_self)
  have hne := asciiByte_ne hascii hpos
  unfold FileInfo.pack
  rw [h.encode, hname]
  exact ⟨asciiByte c, _, rfl, hne.1, hne.2⟩

include h in
/-- The name takes the first 11 bytes. -/
theorem StoredName.decode_pack :
    decode (info.pack.take 11) = some (ljust info.filename 11 ' ') := by
  have htake : info.pack.take 11 = (ljust info.filename 11 ' ').map asciiByte := by
    unfold FileInfo.pack
    rw [List.take_left' h.length_encode, h.encode]
  rw [htake]
  exact decode_ascii h.ascii_padded

include h in
/-- The other fields follow at fixed places. -/
theorem StoredName.drop_pack (n : ℕ) : info.pack.drop (11 + n) =
    (info.type :: List.replicate 10 0 ++ leBytes 2 info.time.toNat ++
      leBytes 2 info.date.toNat ++ leBytes 2 info.cluster.toNat ++
      leBytes 4 info.size.toNat).drop n := by
  have hlen := h.length_encode
  unfold FileInfo.pack
  rw [List.drop_append, hlen, List.drop_eq_nil_of_le (by omega), List.nil_append,
    Nat.add_sub_cancel_left]

include h in
/-- **Records are read back**, with the name stripped. -/
theorem readSlot_pack :
    readSlot info.pack = .ok (.file { info with filename := rstrip info.filename }) := by
  obtain ⟨b, bs, hpack, hne₀, hne₁⟩ := h.head_pack
  have htype : info.pack.getD 11 0 = info.type := by
    have hhead := congrArg List.head? (h.drop_pack 0)
    rw [List.head?_drop] at hhead
    rw [List.getD_eq_getElem?_getD, hhead]
    rfl
  have hread := @readSlot_of_head b bs hne₀ hne₁
  rw [← hpack, h.decode_pack] at hread
  rw [hread]
  simp only [htype, rstrip_ljust]
  rw [show (22 : ℕ) = 11 + 11 from rfl, h.drop_pack 11, show (24 : ℕ) = 11 + 13 from rfl,
    h.drop_pack 13, show (26 : ℕ) = 11 + 15 from rfl, h.drop_pack 15,
    show (28 : ℕ) = 11 + 17 from rfl, h.drop_pack 17]
  have htime := ofNat_leBytes_two info.time
  have hdate := ofNat_leBytes_two info.date
  have hcluster := ofNat_leBytes_two info.cluster
  have hsize := ofNat_leBytes_four info.size
  congr 3

end Pack

/-! ## §4  The directory -/

def slotAddress (i : ℕ) : ℕ := dirAddress + fileinfoBytes * i

/-- The 32 bytes of slot `i`. -/
def diskSlot (img : Image) (i : ℕ) : List Byte := peek img.byte (slotAddress i) fileinfoBytes

theorem readSlots_eq_ok {img : Image} {n pos : ℕ} {dir : DirInfo}
    (hpos : pos + fileinfoBytes * n ≤ fdSize) :
    readSlots img pos n = .ok dir ↔ dir.length = n ∧ ∀ i s, dir[i]? = some s →
      readSlot (peek img.byte (pos + fileinfoBytes * i) fileinfoBytes) = .ok s := by
  induction n generalizing pos dir with
  | zero =>
      constructor
      · intro h
        cases h
        exact ⟨rfl, fun i s hs => by cases hs⟩
      · rintro ⟨hlen, -⟩
        rw [List.length_eq_zero_iff.mp hlen]
        rfl
  | succ n ih =>
      have hmul : fileinfoBytes * (n + 1) = fileinfoBytes * n + fileinfoBytes := Nat.mul_succ _ _
      have hread : img.read pos fileinfoBytes = peek img.byte pos fileinfoBytes :=
        read_eq_peek img (by omega)
      have hrec := fun dir => @ih (pos + fileinfoBytes) dir (by omega)
      have hstep : ∀ i, pos + fileinfoBytes + fileinfoBytes * i =
          pos + fileinfoBytes * (i + 1) := fun i => by ring
      unfold readSlots
      rw [Loop.bind_eq_ok]
      constructor
      · rintro ⟨slot, hslot, h⟩
        rw [Loop.bind_eq_ok] at h
        obtain ⟨slots, hslots, h⟩ := h
        cases h
        obtain ⟨hlen, hall⟩ := (hrec slots).mp hslots
        refine ⟨congrArg Nat.succ hlen, fun i s hs => ?_⟩
        cases i with
        | zero =>
            cases hs
            rw [Nat.mul_zero, Nat.add_zero, ← hread]
            exact hslot
        | succ i =>
            rw [← hstep]
            exact hall i s hs
      · rintro ⟨hlen, hall⟩
        match dir, hlen with
        | slot :: slots, hlen =>
            refine ⟨slot, ?_, ?_⟩
            · rw [hread]
              exact hall 0 slot rfl
            · rw [Loop.bind_eq_ok]
              refine ⟨slots, (hrec slots).mpr ⟨Nat.succ.inj hlen, fun i s hs => ?_⟩, rfl⟩
              rw [hstep]
              exact hall (i + 1) s hs

theorem init_eq_ok {img : Image} {dir : DirInfo} :
    DirInfo.init img = .ok dir ↔ dir.length = fileCount ∧ ∀ i s, dir[i]? = some s →
      readSlot (diskSlot img i) = .ok s := by
  unfold DirInfo.init
  exact readSlots_eq_ok (by decide)

/-- The elements that `DirInfo.write` writes. -/
def DirInfo.written (dir : DirInfo) : DirInfo := dir.takeWhile (· != .unused)

theorem writeSlots_eq (img : Image) (pos : ℕ) (dir : DirInfo) :
    writeSlots img pos dir = img.write pos (dir.written.map Slot.bytes).flatten := by
  unfold DirInfo.written
  induction dir generalizing img pos with
  | nil => exact (write_nil img pos).symm
  | cons slot dir ih =>
      cases slot with
      | unused => exact (write_nil img pos).symm
      | deleted => exact (ih _ _).trans (write_append img pos Slot.deleted.bytes _)
      | file info => exact (ih _ _).trans (write_append img pos info.pack _)

section WriteDir

variable (img : Image) {dir : DirInfo} (hlen : dir.length = fileCount)
  (hbytes : ∀ s ∈ dir.written, s.bytes.length = fileinfoBytes)

include hbytes in
theorem length_written :
    (dir.written.map Slot.bytes).flatten.length = fileinfoBytes * dir.written.length := by
  rw [@length_flatten _ fileinfoBytes]
  · rw [List.length_map]
  · intro b hb
    obtain ⟨s, hs, rfl⟩ := List.mem_map.mp hb
    exact hbytes s hs

include hlen in
theorem written_length_le : dir.written.length ≤ fileCount := by
  rw [← hlen]
  exact (List.takeWhile_prefix _).length_le

include hbytes in
/-- **The entries keep their places.** -/
theorem diskSlot_writeDir (i : ℕ) : diskSlot (img.writeDir dir) i =
    ((dir.written[i]?).map Slot.bytes).getD (diskSlot img i) := by
  unfold diskSlot Image.writeDir slotAddress
  rw [writeSlots_eq, write_byte, peek_poke_flatten, List.getElem?_map]
  intro b hb
  obtain ⟨s, hs, rfl⟩ := List.mem_map.mp hb
  exact hbytes s hs

include hlen hbytes

theorem writeDir_outside {a : ℕ} (h : a < dirAddress ∨ entityAddress + 2 * clusterBytes ≤ a) :
    (img.writeDir dir).byte a = img.byte a := by
  have hle := written_length_le hlen
  have hlenw := length_written hbytes
  have hend : dirAddress + fileinfoBytes * fileCount = entityAddress + 2 * clusterBytes := rfl
  have hmul : fileinfoBytes * dir.written.length ≤ fileinfoBytes * fileCount :=
    Nat.mul_le_mul_left _ hle
  unfold Image.writeDir
  rw [writeSlots_eq, write_byte]
  exact poke_outside _ (by omega)

theorem writeDir_size : (img.writeDir dir).size = img.size := by
  have hle := written_length_le hlen
  have hlenw := length_written hbytes
  have hfits := img.fits
  have hend : dirAddress + fileinfoBytes * fileCount ≤ fdSize := by decide
  have hmul : fileinfoBytes * dir.written.length ≤ fileinfoBytes * fileCount :=
    Nat.mul_le_mul_left _ hle
  unfold Image.writeDir
  rw [writeSlots_eq]
  exact write_size_of_le img (by omega)

end WriteDir

/-- An element before the first `None` is written. -/
theorem getElem?_written {dir : DirInfo} {i : ℕ} (h : i < dir.written.length) :
    dir.written[i]? = dir[i]? := by
  obtain ⟨rest, hrest⟩ := List.takeWhile_prefix (· != Slot.unused) (l := dir)
  have happend : dir[i]? = (dir.written ++ rest)[i]? := by
    unfold DirInfo.written
    rw [hrest]
  rw [happend, List.getElem?_append_left h]

theorem mem_written {dir : DirInfo} {s : Slot} (h : s ∈ dir.written) : s ∈ dir ∧ s ≠ .unused := by
  refine ⟨(List.takeWhile_prefix _).subset h, ?_⟩
  have := List.mem_takeWhile_imp h
  simpa using this

end Knos.Fat12Img
