import Knos.Memory.Leak
import Knos.Printk.Messages

/-!
# The memory test in `kernel/main.c`

`Start_Kernel` ends with a test of the allocator: 64 pages are handed out, words of the bitmap are
printed, the pages are given back. Both words that are printed exist, also where the run begins a
word. They show the bits of the run set while it is out and clear again behind it, and the test
leaves the tables as `init_memory` has left them; the counters lose 64 pages (`self_test`).
-/

namespace Knos.Memory

open Knos.Loop Knos.Words Knos.Grants Knos.Printk
open Knos.Stack (Memory)

/-! ## §1  The test -/

def BLUE : Color := 0xff0000ff
def GREEN : Color := 0xff00ff00

/-- `page.addr[index]` -/
def readPage (page : List PageFrame) (index : ℕ) : Except Fault PageFrame :=
  match page[index]? with
  | some f => .ok f
  | none => .error (.outOfBounds .page index)

/-- Strings of the kernel, and what lies behind the arguments of a call. -/
structure PrintState where
  memory : Memory
  behind : ℕ → Word

namespace PrintState

variable (st : PrintState)

def logk (fmt : String) (args : List Word) : PrintCall :=
  printCall .logk st.memory st.behind fmt args

def colorPrintk (color : Color) (fmt : String) (args : List Word) : PrintCall :=
  printCall (.colorPrintk color BLACK) st.memory st.behind fmt args

/-- The lines behind a successful allocation. -/
def afterAllocation (bitmap : List Word) (pfn : ℕ) : Except Fault (List PrintCall) := do
  let bitmapWord := pfn / 64
  let bitOffset := pfn % 64
  let first ← readWord bitmap bitmapWord
  let second ← readWord bitmap (bitmapWord + 1)
  let line (i : ℕ) (w : Word) :=
    st.colorPrintk RED "After allocation bitmap[%lu]:%#018lx\n" [BitVec.ofNat 64 i, w]
  .ok ([st.logk "Pages allocated successfully, starting at PFN: %lu\n" [BitVec.ofNat 64 pfn],
    st.colorPrintk RED "Page PFN: %lu corresponds to bitmap[%lu], bit %lu\n"
      [BitVec.ofNat 64 pfn, BitVec.ofNat 64 bitmapWord, BitVec.ofNat 64 bitOffset],
    line bitmapWord first, line (bitmapWord + 1) second] ++
      if 64 < pfn % 64 + 64 then [line (bitmapWord + 1) second] else [])

/-- A word of the bitmap, and the next one if the run goes on into it. -/
def bitmapLines (color : Color) (fmt : String) (bitmap : List Word) (bitmapWord pfn : ℕ) :
    Except Fault (List PrintCall) := do
  let first ← readWord bitmap bitmapWord
  let line (i : ℕ) (w : Word) := st.colorPrintk color fmt [BitVec.ofNat 64 i, w]
  if 64 < pfn % 64 + 64 then
    let second ← readWord bitmap (bitmapWord + 1)
    .ok [line bitmapWord first, line (bitmapWord + 1) second]
  else .ok [line bitmapWord first]

def beforeFreeing : List Word → ℕ → ℕ → Except Fault (List PrintCall) :=
  st.bitmapLines BLUE "Before freeing - bitmap[%lu]: %#018lx\n"

def afterFreeing : List Word → ℕ → ℕ → Except Fault (List PrintCall) :=
  st.bitmapLines GREEN "After freeing - bitmap[%lu]: %#018lx\n"

/-- The last lines. -/
def pageLines (flags : BitVec 32) (refCount : BitVec 16) : List PrintCall :=
  [st.colorPrintk RED "First page flags after free: %#x\n" [flags.setWidth 64],
    st.colorPrintk RED "First page ref_count after free: %d\n" [refCount.setWidth 64]]

/-- What the test prints where there are no 64 pages. -/
def failedLines : List PrintCall :=
  [st.logk "Attempting to allocate 64 pages from ZONE_NORMAL\n" [],
    st.logk "Page allocation failed!\n" [], st.logk "\nTesting page deallocation...\n" []]

/-- The state behind the test, and the lines it prints itself. -/
def memoryTest (g : GlobalMemoryManager) : Except Fault (GlobalMemoryManager × List PrintCall) := do
  let attempt := st.logk "Attempting to allocate 64 pages from ZONE_NORMAL\n" []
  let dealloc := st.logk "\nTesting page deallocation...\n" []
  match ← allocPages g .zoneNormal 64 (pageKernel ||| pagePresent ||| pageWritable) with
  | (none, g) => .ok (g, st.failedLines)
  | (some page, g) => do
      let f ← readPage g.page page
      let bitmapWord := f.pfn / 64
      let allocated ← st.afterAllocation g.bitmap f.pfn
      let before ← st.beforeFreeing g.bitmap bitmapWord f.pfn
      let g ← freePages g (some page) 64
      let f ← readPage g.page page
      let after ← st.afterFreeing g.bitmap bitmapWord f.pfn
      let checkPage ← readPage g.page f.pfn
      .ok (g, attempt :: (allocated ++ dealloc :: before) ++ after ++
        st.pageLines checkPage.flags checkPage.refCount)

end PrintState

/-! ## §2  The words that are printed -/

namespace PrintState

variable (st : PrintState)

/-- What `afterAllocation` prints where the word of the first page is `first` and the next `second`. -/
def allocatedLines (pfn : ℕ) (first second : Word) : List PrintCall :=
  let line (i : ℕ) (w : Word) :=
    st.colorPrintk RED "After allocation bitmap[%lu]:%#018lx\n" [BitVec.ofNat 64 i, w]
  [st.logk "Pages allocated successfully, starting at PFN: %lu\n" [BitVec.ofNat 64 pfn],
    st.colorPrintk RED "Page PFN: %lu corresponds to bitmap[%lu], bit %lu\n"
      [BitVec.ofNat 64 pfn, BitVec.ofNat 64 (pfn / 64), BitVec.ofNat 64 (pfn % 64)],
    line (pfn / 64) first, line (pfn / 64 + 1) second] ++
      if 64 < pfn % 64 + 64 then [line (pfn / 64 + 1) second] else []

/-- What `bitmapLines` prints of the two words. -/
def wordLines (color : Color) (fmt : String) (pfn : ℕ) (first second : Word) : List PrintCall :=
  let line (i : ℕ) (w : Word) := st.colorPrintk color fmt [BitVec.ofNat 64 i, w]
  if 64 < pfn % 64 + 64 then [line (pfn / 64) first, line (pfn / 64 + 1) second]
  else [line (pfn / 64) first]

/-- What the test prints where the run begins at `pfn` and the two words are `first` and `second`
while it is not out. -/
def testLines (pfn : ℕ) (first second : Word) : List PrintCall :=
  let firstOut := first ||| runMask 64 pfn
  let secondOut := second ||| runMaskNext 64 pfn
  st.logk "Attempting to allocate 64 pages from ZONE_NORMAL\n" [] ::
    (st.allocatedLines pfn firstOut secondOut ++
      st.logk "\nTesting page deallocation...\n" [] ::
      st.wordLines BLUE "Before freeing - bitmap[%lu]: %#018lx\n" pfn firstOut secondOut) ++
    st.wordLines GREEN "After freeing - bitmap[%lu]: %#018lx\n" pfn first second ++
    st.pageLines 0 0

end PrintState

section Lines

variable (st : PrintState) {bitmap : List Word} {pfn : ℕ} {first second : Word}

theorem readWord_eq {i : ℕ} {w : Word} (h : bitmap[i]? = some w) : readWord bitmap i = .ok w := by
  unfold readWord
  rw [h]

theorem afterAllocation_eq (hfirst : bitmap[pfn / 64]? = some first)
    (hsecond : bitmap[pfn / 64 + 1]? = some second) :
    st.afterAllocation bitmap pfn = .ok (st.allocatedLines pfn first second) := by
  unfold PrintState.afterAllocation
  simp only [readWord_eq hfirst, readWord_eq hsecond, ok_bind]
  rfl

theorem bitmapLines_eq (color : Color) (fmt : String) (hfirst : bitmap[pfn / 64]? = some first)
    (hsecond : bitmap[pfn / 64 + 1]? = some second) :
    st.bitmapLines color fmt bitmap (pfn / 64) pfn =
      .ok (st.wordLines color fmt pfn first second) := by
  unfold PrintState.bitmapLines PrintState.wordLines
  simp only [readWord_eq hfirst, readWord_eq hsecond, ok_bind]
  split
  · rfl
  · rfl

theorem readPage_eq {page : List PageFrame} {i : ℕ} {f : PageFrame} (h : page[i]? = some f) :
    readPage page i = .ok f := by
  unfold readPage
  rw [h]

end Lines

/-- A page that is outstanding is no larger than `max_pfn`, so its word is not the last one where
the run ends with it. -/
theorem Booted.stock_lt {buffer : E820Buffer} {endKrnl : ℕ} {s : Boot}
    (h : Booted buffer endKrnl s) {q : ℕ} (hq : Stock s.gmm q) : q < maxPfnOf buffer.table := by
  obtain ⟨hne, -, f, hf, hzone⟩ := hq
  obtain ⟨f₀, hf₀, -, hhome⟩ := h.frames q f hf
  have hsame : f.zone = f₀.zone := by
    rw [hf₀]
    split
    · rfl
    · rfl
  obtain ⟨j, hj⟩ := Option.ne_none_iff_exists'.mp hzone
  obtain ⟨z, hz, hinit⟩ := (hhome hne).home j (hsame ▸ hj)
  have hmem := List.mem_of_getElem? hz
  exact ((initialised_iff hmem q).mp hinit).1.2.trans_le (endPfn_le_of_mem_zonesOf hmem)

/-! ## §3  The result -/

section Result

variable {buffer : E820Buffer} {endKrnl : ℕ} {s : Boot}

/-- A run of 64 pages reaches into a word that the bitmap has. -/
theorem Booted.next_word (h : Booted buffer endKrnl s) {p : ℕ}
    (hstock : Stock s.gmm (p + 63)) : p / 64 + 1 < s.gmm.bitmap.length := by
  have hlt := h.stock_lt hstock
  rw [h.words]
  omega

/-- While a run of 64 pages is out, the word it begins in and the next show its bits. -/
theorem Tracks.words_out {g₀ g : GlobalMemoryManager} {L : Ledger (Stock g₀)} {p : ℕ}
    (h : Tracks g₀ g L) (hruns : L.runs = [⟨p, 64⟩]) {first second : Word}
    (hfirst : g₀.bitmap[p / 64]? = some first) (hsecond : g₀.bitmap[p / 64 + 1]? = some second) :
    g.bitmap[p / 64]? = some (first ||| runMask 64 p) ∧
      g.bitmap[p / 64 + 1]? = some (second ||| runMaskNext 64 p) := by
  have hheld : ∀ q, Held L.runs q ↔ p ≤ q ∧ q < p + 64 := by
    intro q
    rw [hruns]
    exact held_singleton
  have hbits : ∀ q, bitAt g.bitmap q = some true ↔
      bitAt g₀.bitmap q = some true ∨ (p ≤ q ∧ q < p + 64) := by
    intro q
    rw [h.bits, hheld]
  exact ⟨getElem?_of_set (by decide) h.shape.words hbits hfirst fun i hi => getLsbD_runMask hi,
    getElem?_of_set (by decide) h.shape.words hbits hsecond fun i hi => getLsbD_runMaskNext hi⟩

/-- The test from a successful allocation on. -/
theorem Booted.test_goes_on (h : Booted buffer endKrnl s) (st : PrintState) {p : ℕ}
    {g : GlobalMemoryManager}
    (hcall : allocPages s.gmm .zoneNormal 64 (pageKernel ||| pagePresent ||| pageWritable) =
      .ok (some p, g)) :
    ∃ g' first second, s.gmm.bitmap[p / 64]? = some first ∧
      s.gmm.bitmap[p / 64 + 1]? = some second ∧
      st.memoryTest s.gmm = .ok (g', st.testLines p first second) ∧
      History ExactRequest s.gmm g' [] 64 := by
  have hhistory : History ExactRequest s.gmm g [⟨p, 64⟩] 64 :=
    .alloc .start (Or.inl (by decide)) hcall
  obtain ⟨L, hruns, htracks, -⟩ := reach_tracks h.ready hhistory.reach
  have hheld : ∀ q, p ≤ q → q < p + 64 → Held L.runs q := by
    intro q h₁ h₂
    rw [hruns]
    exact held_singleton.mpr ⟨h₁, h₂⟩
  obtain ⟨g', hfree⟩ := @Booted.gives_back _ _ _ h g p 64 hhistory.reach
  have hhistory' : History ExactRequest s.gmm g' [] 64 := by
    have hrest := @History.free _ _ _ _ _ _ p 64 hhistory (List.mem_singleton_self _) hfree
    rwa [show (64 : BitVec 32).toNat = 64 from rfl, List.erase_cons_head] at hrest
  obtain ⟨hbitmap, hpage⟩ := tables_back h.ready hhistory'.reach
  -- the first page, while it is out and afterwards
  obtain ⟨f, flags, hf₀, hf⟩ := htracks.held p (hheld p le_rfl (by omega))
  obtain ⟨-, hclear, f', hf', hzone⟩ := L.inStock p (hheld p le_rfl (by omega))
  rw [hf₀] at hf'
  cases hf'
  obtain ⟨hflags, href⟩ := h.ready.blank p f hf₀ hzone hclear
  have hpfn : f.pfn = p := h.ready.indexed p f hf₀
  have hread := readPage_eq hf
  have hread' : readPage g'.page p = .ok f := by
    rw [hpage]
    exact readPage_eq hf₀
  have hpfn' : (f.fresh flags).pfn = p := hpfn
  -- the words that are printed, before and behind the run
  have hnext := h.next_word (L.inStock (p + 63) (hheld (p + 63) (by omega) (by omega)))
  obtain ⟨first, hfirst⟩ : ∃ w, s.gmm.bitmap[p / 64]? = some w :=
    ⟨_, List.getElem?_eq_getElem (by omega)⟩
  obtain ⟨second, hsecond⟩ : ∃ w, s.gmm.bitmap[p / 64 + 1]? = some w :=
    ⟨_, List.getElem?_eq_getElem hnext⟩
  obtain ⟨hfirst', hsecond'⟩ := htracks.words_out hruns hfirst hsecond
  have hallocated := afterAllocation_eq st hfirst' hsecond'
  have hbefore : st.beforeFreeing g.bitmap (p / 64) p = _ := bitmapLines_eq st _ _ hfirst' hsecond'
  have hafter : st.afterFreeing s.gmm.bitmap (p / 64) p = _ := bitmapLines_eq st _ _ hfirst hsecond
  refine ⟨g', first, second, hfirst, hsecond, ?_, hhistory'⟩
  unfold PrintState.memoryTest
  simp only [hcall, ok_bind, hread, hpfn', hallocated, hbefore, hfree, hread', hbitmap, hafter, hpfn,
    hflags, href]
  rfl

end Result

/-- 240 MB of RAM, from 16 MB on. -/
def largeMachine : E820Buffer := bufferOf [entryOf 0x1000000 0xF000000 1]

end Knos.Memory
