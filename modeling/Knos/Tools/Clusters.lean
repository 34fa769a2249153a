import Knos.Tools.Codec

/-!
# Chains of clusters

The loops over the FAT as functions of the list of free clusters: `have_space` asks how
many there are, `find_free_cluster` is the first of them from a point on, and the loop of
`save` takes as many of the first ones as the file has blocks, links them and writes the
blocks into them (`saveLoop_eq`). `del_chain` unlinks a chain (`delChain_eq`).

`Holds` says that the blocks of a list of clusters contain given bytes.
-/

namespace Knos.Fat12Img

open Knos.Bytes Knos.Chains

/-! ## §1  Free clusters -/

/-- The free clusters from `start` on. -/
def Fat.free (fat : Fat) (start : ℕ) : List ℕ := freeCells start (fat.drop start)

theorem mem_free {fat : Fat} {start c : ℕ} : c ∈ fat.free start ↔ start ≤ c ∧ fat[c]? = some 0 := by
  unfold Fat.free
  rw [mem_freeCells]
  refine and_congr_right fun hle => ?_
  rw [List.getElem?_drop, Nat.add_sub_cancel' hle]

theorem lt_length_of_mem_free {fat : Fat} {start c : ℕ} (h : c ∈ fat.free start) :
    c < fat.length :=
  (List.getElem?_eq_some_iff.mp (mem_free.mp h).2).1

theorem entryAt_of_mem_free {fat : Fat} {start c : ℕ} (h : c ∈ fat.free start) :
    entryAt fat c = 0 :=
  entryAt_eq (mem_free.mp h).2

/-- The first free cluster, and the others behind it. -/
theorem free_cons {fat : Fat} {start c : ℕ} {cs : List ℕ} (h : fat.free start = c :: cs) :
    start ≤ c ∧ cs = fat.free (c + 1) := by
  obtain ⟨hle, hcs⟩ := freeCells_tail h
  refine ⟨hle, ?_⟩
  rw [hcs, List.drop_drop, show start + (c + 1 - start) = c + 1 by omega]
  rfl

/-- Entries before `start` do not matter. -/
theorem free_set {fat : Fat} {start c x : ℕ} (h : c < start) :
    Fat.free (fat.set c x) start = fat.free start := by
  unfold Fat.free
  rw [List.drop_set_of_lt h]

theorem findFreeCluster_eq (fat : Fat) (start : ℕ) :
    fat.findFreeCluster start = (fat.free start).head? := by
  unfold Fat.findFreeCluster
  induction hn : fat.length - start generalizing start with
  | zero =>
      have hdrop : fat.drop start = [] := List.drop_eq_nil_of_le (by omega)
      rw [Fat.free, hdrop]
      rfl
  | succ n ih =>
      have hlt : start < fat.length := by omega
      have hdrop := List.drop_eq_getElem_cons hlt
      rw [List.range'_succ, List.find?_cons, List.getElem?_eq_getElem hlt]
      by_cases hx : fat[start] = 0
      · rw [Fat.free, hdrop, hx, freeCells_cons_zero]
        rfl
      · have hne : (some fat[start] == some 0) = false := by simpa using hx
        rw [hne, Fat.free, hdrop, freeCells_cons_of_ne hx]
        exact ih (start + 1) (by omega)

/-- `have_space` from a point on: it needs one free cluster even for no block at all. -/
theorem haveSpaceFrom_eq (count : ℕ) (i : ℕ) (start : Option ℕ) (n : ℕ) (fat : Fat)
    (hn : n < max count 1) : haveSpaceFrom count i start n fat =
      if max count 1 ≤ n + (freeCells i fat).length then start.or (freeCells i fat).head?
      else none := by
  induction fat generalizing i start n with
  | nil => rw [if_neg (by simp only [freeCells, List.length_nil]; omega)]; rfl
  | cons x fat ih =>
      unfold haveSpaceFrom
      by_cases hx : x = 0
      · subst hx
        have hstart : start.or (some i) = some (start.getD i) := by
          cases start with
          | none => rfl
          | some s => rfl
        rw [if_pos rfl, freeCells_cons_zero, List.length_cons, List.head?_cons, hstart]
        by_cases hcount : count ≤ n + 1
        · rw [if_pos hcount, if_pos (by omega)]
        · rw [if_neg hcount, ih _ _ _ (by omega), Nat.add_right_comm, Nat.add_assoc]
          rfl
      · rw [if_neg hx, freeCells_cons_of_ne hx]
        exact ih _ _ _ hn

/-- `have_space` counts free clusters. -/
theorem haveSpace_eq (fat : Fat) (count : ℕ) : fat.haveSpace count =
    if count ≤ (fat.free 0).length then (fat.free 0).head? else none := by
  unfold Fat.haveSpace
  rw [haveSpaceFrom_eq count 0 none 0 fat (by omega), Option.none_or, Nat.zero_add]
  show (if max count 1 ≤ (fat.free 0).length then (fat.free 0).head? else none) = _
  cases hfree : fat.free 0 with
  | nil =>
      rw [if_neg (by simp only [List.length_nil]; omega)]
      split
      · rfl
      · rfl
  | cons c cs =>
      have hiff : max count 1 ≤ (c :: cs).length ↔ count ≤ (c :: cs).length := by
        rw [List.length_cons]
        omega
      rw [if_congr hiff rfl rfl]

/-! ## §2  Blocks -/

/-- The bytes of a file in the blocks of its clusters. -/
def Holds (img : Image) (cs : List ℕ) (data : List Byte) : Prop :=
  ∀ j b, data[j]? = some b → ∃ c, cs[j / clusterBytes]? = some c ∧
    entityAddress + c * clusterBytes + j % clusterBytes < img.size ∧
    img.byte (entityAddress + c * clusterBytes + j % clusterBytes) = b

/-- The data written block by block into the clusters `cs`. -/
def writeBlocks : Image → List ℕ → List Byte → Image
  | img, [], _ => img
  | img, c :: cs, data =>
      writeBlocks (img.writeCluster c (data.take clusterBytes)) cs (data.drop clusterBytes)

theorem clustersOf_pos {n : ℕ} (h : 0 < n) :
    clustersOf n = clustersOf (n - clusterBytes) + 1 := by
  unfold clustersOf clusterBytes
  omega

theorem clustersOf_eq_zero {n : ℕ} : clustersOf n = 0 ↔ n = 0 := by
  unfold clustersOf clusterBytes
  omega

section Blocks

variable {img img' : Image} {cs : List ℕ} {data : List Byte}

theorem Holds.congr (h : Holds img cs data) (hsize : img.size ≤ img'.size)
    (hbyte : ∀ c ∈ cs, ∀ a, entityAddress + c * clusterBytes ≤ a →
      a < entityAddress + c * clusterBytes + clusterBytes → img'.byte a = img.byte a) :
    Holds img' cs data := by
  intro j b hb
  obtain ⟨c, hc, hlt, heq⟩ := h j b hb
  have hmod : j % clusterBytes < clusterBytes := Nat.mod_lt j (by decide)
  refine ⟨c, hc, by omega, ?_⟩
  rw [hbyte c (List.mem_of_getElem? hc) _ (by omega) (by omega), heq]

theorem writeCluster_outside {c a : ℕ}
    (h : a < entityAddress + c * clusterBytes ∨
      entityAddress + c * clusterBytes + clusterBytes ≤ a) :
    (img.writeCluster c data).byte a = img.byte a := by
  have hlen : (data.take clusterBytes).length ≤ clusterBytes := List.length_take_le _ _
  exact poke_outside _ (by omega)

theorem size_le_writeCluster (img : Image) (c : ℕ) (data : List Byte) :
    img.size ≤ (img.writeCluster c data).size :=
  size_le_write_size img _ _

theorem size_le_writeBlocks (img : Image) (cs : List ℕ) (data : List Byte) :
    img.size ≤ (writeBlocks img cs data).size := by
  induction cs generalizing img data with
  | nil => exact Nat.le_refl _
  | cons c cs ih => exact le_trans (size_le_writeCluster img c _) (ih _ _)

/-- Nothing outside the blocks is written. -/
theorem writeBlocks_outside {a : ℕ} (h : ∀ c ∈ cs, a < entityAddress + c * clusterBytes ∨
    entityAddress + c * clusterBytes + clusterBytes ≤ a) :
    (writeBlocks img cs data).byte a = img.byte a := by
  induction cs generalizing img data with
  | nil => rfl
  | cons c cs ih =>
      have hrest := @ih (img.writeCluster c (data.take clusterBytes)) (data.drop clusterBytes)
        fun d hd => h d (List.mem_cons_of_mem _ hd)
      exact hrest.trans (writeCluster_outside (h c List.mem_cons_self))

/-- Blocks inside the file do not make it longer. -/
theorem writeBlocks_size (h : ∀ c ∈ cs,
    entityAddress + c * clusterBytes + clusterBytes ≤ img.size) :
    (writeBlocks img cs data).size = img.size := by
  induction cs generalizing img data with
  | nil => rfl
  | cons c cs ih =>
      have hlen : ((data.take clusterBytes).take clusterBytes).length ≤ clusterBytes :=
        List.length_take_le _ _
      have hc := h c List.mem_cons_self
      have hone : (img.writeCluster c (data.take clusterBytes)).size = img.size :=
        write_size_of_le img (by omega)
      have hrest := @ih (img.writeCluster c (data.take clusterBytes)) (data.drop clusterBytes) ?_
      · exact hrest.trans hone
      · intro d hd
        rw [hone]
        exact h d (List.mem_cons_of_mem _ hd)

/-- Blocks of different clusters do not meet. -/
theorem block_outside {c d a : ℕ} (hne : c ≠ d) (h₁ : entityAddress + c * clusterBytes ≤ a)
    (h₂ : a < entityAddress + c * clusterBytes + clusterBytes) :
    a < entityAddress + d * clusterBytes ∨
      entityAddress + d * clusterBytes + clusterBytes ≤ a := by
  unfold clusterBytes at *
  omega

/-- A byte of the block that was written. -/
theorem writeCluster_byte (img : Image) (c : ℕ) {block : List Byte} {j : ℕ} {b : Byte}
    (hget : (block.take clusterBytes)[j]? = some b) :
    entityAddress + c * clusterBytes + j < (img.writeCluster c block).size ∧
      (img.writeCluster c block).byte (entityAddress + c * clusterBytes + j) = b := by
  have hne : block.take clusterBytes ≠ [] := by
    intro hnil
    rw [hnil] at hget
    cases hget
  have hj := (List.getElem?_eq_some_iff.mp hget).1
  refine ⟨?_, poke_inside _ hget⟩
  have hsize := le_write_size img (entityAddress + c * clusterBytes) hne
  unfold Image.writeCluster
  omega

/-- The clusters behind the first are those of the data behind the first block. -/
theorem pos_and_rest_of_cons {c : ℕ} (hlen : (c :: cs).length = clustersOf data.length) :
    0 < data.length ∧ cs.length = clustersOf (data.drop clusterBytes).length := by
  have hpos : 0 < data.length := by
    rcases Nat.eq_zero_or_pos data.length with h0 | hpos
    · rw [clustersOf_eq_zero.mpr h0] at hlen
      cases hlen
    · exact hpos
  refine ⟨hpos, ?_⟩
  rw [List.length_cons, clustersOf_pos hpos] at hlen
  rw [List.length_drop]
  exact Nat.succ.inj hlen

/-- **The blocks hold the data** that was written into them. -/
theorem holds_writeBlocks (hnodup : cs.Nodup) (hlen : cs.length = clustersOf data.length) :
    Holds (writeBlocks img cs data) cs data := by
  induction cs generalizing img data with
  | nil =>
      intro j b hb
      have hzero : data.length = 0 := clustersOf_eq_zero.mp hlen.symm
      have hlt := (List.getElem?_eq_some_iff.mp hb).1
      omega
  | cons c cs ih =>
      obtain ⟨hc, hnodup⟩ := List.nodup_cons.mp hnodup
      have hrest := @ih (img.writeCluster c (data.take clusterBytes)) (data.drop clusterBytes)
        hnodup (pos_and_rest_of_cons hlen).2
      intro j b hb
      rcases Nat.lt_or_ge j clusterBytes with hj | hj
      · -- the first block, which the others leave alone
        rw [Nat.div_eq_of_lt hj, Nat.mod_eq_of_lt hj]
        have hget : ((data.take clusterBytes).take clusterBytes)[j]? = some b := by
          rw [List.take_take, Nat.min_self, List.getElem?_take_of_lt hj, hb]
        obtain ⟨hsize, hwritten⟩ := writeCluster_byte img c hget
        have hbyte : (writeBlocks (img.writeCluster c (data.take clusterBytes)) cs
            (data.drop clusterBytes)).byte (entityAddress + c * clusterBytes + j) = b := by
          rw [← hwritten]
          apply writeBlocks_outside
          intro d hd
          have hcd : c ≠ d := fun heq => hc (heq ▸ hd)
          exact block_outside hcd (by omega) (by omega)
        exact ⟨c, rfl, lt_of_lt_of_le hsize (size_le_writeBlocks _ _ _), hbyte⟩
      · -- a later block
        obtain ⟨k, rfl⟩ := Nat.exists_eq_add_of_le hj
        have hget : (data.drop clusterBytes)[k]? = some b := by
          rw [List.getElem?_drop, hb]
        obtain ⟨d, hd, hlt, heq⟩ := hrest k b hget
        have hdiv : (clusterBytes + k) / clusterBytes = k / clusterBytes + 1 := by
          unfold clusterBytes
          omega
        have hmod : (clusterBytes + k) % clusterBytes = k % clusterBytes :=
          Nat.add_mod_left _ _
        rw [hdiv, hmod]
        exact ⟨d, hd, hlt, heq⟩

end Blocks

/-! ## §3  `save` -/

/-- The FAT after the loop has gone on from `prevCluster` to the clusters `cs`. -/
def linkAfter (prevCluster : Option ℕ) (fat : Fat) : List ℕ → Fat
  | [] => fat
  | c :: cs => match prevCluster with
    | none => link 0xFFF fat (c :: cs)
    | some prev => link 0xFFF fat (prev :: c :: cs)

/-- Linking the cluster before does not change what is free behind it. -/
theorem free_putAfter {prevCluster : Option ℕ} {fat : Fat} {c : ℕ}
    (h : prevCluster.elim 0 (· + 1) ≤ c) :
    Fat.free (putAfter prevCluster fat c) (c + 1) = fat.free (c + 1) := by
  cases prevCluster with
  | none => rfl
  | some prev =>
      have hle : prev + 1 ≤ c := h
      exact free_set (by omega)

/-- **The loop of `save`** takes the first free clusters. -/
theorem saveLoop_eq (picks : List ℕ) (prevCluster : Option ℕ) (data : List Byte) (fat : Fat)
    (img : Image) (hcount : picks.length = clustersOf data.length)
    (hpicks : picks <+: fat.free (prevCluster.elim 0 (· + 1))) :
    saveLoop prevCluster data data.length fat img =
      (true, linkAfter prevCluster fat picks, writeBlocks img picks data) := by
  induction picks generalizing prevCluster data fat img with
  | nil =>
      have hzero : data.length = 0 := clustersOf_eq_zero.mp hcount.symm
      rw [saveLoop, if_pos hzero]
      rfl
  | cons c cs ih =>
      obtain ⟨hpos, hcount'⟩ := pos_and_rest_of_cons hcount
      obtain ⟨rest, hrest⟩ := hpicks
      have hfree := free_cons hrest.symm
      have hfind : fat.findFreeCluster (prevCluster.elim 0 (· + 1)) = some c := by
        rw [findFreeCluster_eq, ← hrest]
        rfl
      rw [saveLoop, if_neg (Nat.ne_of_gt hpos)]
      simp only [hfind]
      rw [show data.length - clusterBytes = (data.drop clusterBytes).length from
        List.length_drop.symm]
      have hfree' : cs <+: Fat.free (putAfter prevCluster fat c) (c + 1) := by
        rw [free_putAfter hfree.1, ← hfree.2]
        exact List.prefix_append cs rest
      cases cs with
      | nil =>
          have hzero : (data.drop clusterBytes).length = 0 := clustersOf_eq_zero.mp hcount'.symm
          rw [if_pos hzero, ih (some c) _ _ _ hcount' List.nil_prefix]
          cases prevCluster with
          | none => rfl
          | some prev => rfl
      | cons d cs =>
          have hne : (data.drop clusterBytes).length ≠ 0 :=
            Nat.ne_of_gt (pos_and_rest_of_cons hcount').1
          rw [if_neg hne, ih (some c) _ _ _ hcount' hfree']
          cases prevCluster with
          | none => rfl
          | some prev => rfl

/-! ## §4  `del_chain` -/

theorem getNext_eq {fat : Fat} {c : ℕ} (h : c < fat.length) :
    fat.getNext c = .ok (entryAt fat c) := by
  unfold Fat.getNext
  rw [List.getElem?_eq_getElem h]
  exact congrArg Except.ok (entryAt_eq (List.getElem?_eq_getElem h)).symm

/-- **`del_chain`** unlinks the chain that it starts in. -/
theorem delChainLoop_eq {fat : Fat} {c : ℕ} {cs : List ℕ}
    (hchain : IsChain (entryAt fat) 0xFFF (c :: cs)) (hnodup : (c :: cs).Nodup)
    (hlt : ∀ d ∈ c :: cs, d < fat.length) (hsmall : fat.length ≤ 0xFF8) :
    delChainLoop (c :: cs).length c fat = .ok (unlink fat (c :: cs)) := by
  induction cs generalizing c fat with
  | nil =>
      rw [List.length_singleton, delChainLoop, getNext_eq (hlt c List.mem_cons_self),
        Loop.ok_bind]
      have hend : entryAt fat c = 0xFFF := hchain
      show (if 0xFF8 ≤ entryAt fat c then _ else _) = _
      rw [if_pos (by rw [hend]; decide)]
      rfl
  | cons d cs ih =>
      obtain ⟨hc, hnodup⟩ := List.nodup_cons.mp hnodup
      have hd := hlt d (List.mem_cons_of_mem _ List.mem_cons_self)
      rw [List.length_cons, delChainLoop, getNext_eq (hlt c List.mem_cons_self), Loop.ok_bind]
      show (if 0xFF8 ≤ entryAt fat c then _ else _) = _
      rw [hchain.1, if_neg (by omega)]
      refine ih (hchain.2.congr fun e he => ?_) hnodup (fun e he => ?_) ?_
      · exact (entryAt_set_of_ne fun heq : c = e => hc (heq ▸ he)).symm
      · rw [List.length_set]
        exact hlt e (List.mem_cons_of_mem _ he)
      · rw [List.length_set]
        exact hsmall

theorem delChain_eq {fat : Fat} {cs : List ℕ} {cluster size : ℕ}
    (hcount : cs.length = clustersOf size) (hhead : cs ≠ [] → cs.head? = some cluster)
    (hchain : cs ≠ [] → IsChain (entryAt fat) 0xFFF cs) (hnodup : cs.Nodup)
    (hlt : ∀ d ∈ cs, d < fat.length) (hsmall : fat.length ≤ 0xFF8) :
    fat.delChain cluster size = .ok (unlink fat cs) := by
  unfold Fat.delChain
  rw [← hcount]
  cases cs with
  | nil => rfl
  | cons c cs =>
      obtain rfl : c = cluster := Option.some.inj (hhead (List.cons_ne_nil c cs))
      exact delChainLoop_eq (hchain (List.cons_ne_nil c cs)) hnodup hlt hsmall

end Knos.Fat12Img
