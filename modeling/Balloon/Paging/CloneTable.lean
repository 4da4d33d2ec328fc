import Balloon.Frames.Supply
import Balloon.Paging.Arena

/-!
Owns what a table that `clone_table` returns says: where its block lies, what the long
`memset` reaches, and which entries and flags the loop leaves behind. It does not own the
directory that the table is put into.
-/

namespace Balloon.Paging

open Balloon.Foundation
open Balloon.Libc
open Balloon.Allocator
open Balloon.Frames

/-! ### Where tables lie -/

/-- A page table at `src`: a page cut off in front of `placement_pointer`, or, once the
heap is up, a page below the heap or inside one of its blocks. -/
def IsTable (k : Kernel) (src : Nat) : Prop :=
  src % 0x1000 = 0 ∧
    ((k.heap.heapEnd = 0 ∧ src + 0x1000 ≤ k.heap.placementPointer ∧
        k.heap.placementPointer + 0x4000 ≤ 2 ^ 32) ∨
      ∃ base L, WellFormed k.heap base L ∧
        (src + 0x1000 ≤ base ∨ ∃ lo hi, L.Slot lo hi ∧ lo ≤ src ∧ src + 0x1000 ≤ hi))

/-- The free block that `klvalloc` finds for a new table ends one page in front of the
table at `src`. -/
def ClearsFirst (k : Kernel) (src : Nat) : Prop :=
  k.heap.heapEnd ≠ 0 ∧ 0x3000 < src ∧
    k.heap.klmallocSkipListFindbest (sizeofTable + (0x1000 - 48)) = some (src - 0x3000)

instance (k : Kernel) (src : Nat) : Decidable (ClearsFirst k src) :=
  inferInstanceAs (Decidable (_ ∧ _ ∧ _))

/-- The block for the copy of the table at `src`. -/
structure NewTable (k : Kernel) (src table : Nat) (k₁ : Kernel) : Prop where
  frames : k₁.frames = k.frames
  low : k.heap.placementPointer ≤ table
  high : table + 0x1000 ≤ max k.heap.placementPointer k.heap.heapEnd + 0x3000
  fits : table + 0x3000 ≤ 2 ^ 32
  apart : src + 0x1000 ≤ table ∨ table + 0x2000 = src ∨ table + 0x3000 ≤ src
  clears : table + 0x2000 = src ↔ ClearsFirst k src
  source : ∀ a, src ≤ a → a < src + 0x1000 → k₁.mem a = k.mem a

/-- Before `init_heap` the new table is cut off behind all others. -/
theorem newTable_bump {k k₁ : Kernel} {src table phys : Nat} (fresh : k.heap.heapEnd = 0)
    (positive : 0x1000 ≤ k.heap.placementPointer)
    (below : src + 0x1000 ≤ k.heap.placementPointer)
    (room : k.heap.placementPointer + 0x4000 ≤ 2 ^ 32)
    (returned : k.kmallocAlignedPhysical sizeofTable = some (table, phys, k₁)) :
    NewTable k src table k₁ := by
  have block : nextBlock k.heap = k.heap.placementPointer / 0x1000 * 0x1000 + 0x1000 := rfl
  have size : sizeofTable = 0x1000 := rfl
  rw [kmallocAlignedPhysical_bump fresh positive sizeofTable (by omega)] at returned
  obtain ⟨rfl, -, rfl⟩ := by simpa only [Option.some.injEq, Prod.mk.injEq] using returned
  exact
    { frames := rfl
      low := by omega
      high := by omega
      fits := by omega
      apart := Or.inl (by omega)
      clears := iff_of_false (by omega) fun clears => clears.1 fresh
      source := fun _ _ _ => rfl }

/-- In the heap the new table starts one page behind the header of its block. -/
theorem newTable_heap {k k₁ : Kernel} {src table phys base : Nat} {L : Layout}
    (wf : WellFormed k.heap base L) (page : src % 0x1000 = 0)
    (held : src + 0x1000 ≤ base ∨ ∃ lo hi, L.Slot lo hi ∧ lo ≤ src ∧ src + 0x1000 ≤ hi)
    (returned : k.kmallocAlignedPhysical sizeofTable = some (table, phys, k₁)) :
    NewTable k src table k₁ := by
  have limit : kheapEnd = 0x02000000 := rfl
  have size : sizeofTable = 0x1000 := rfl
  obtain ⟨h, served, within, rfl⟩ := kmallocAlignedPhysical_eq_some returned
  obtain ⟨x, n, L', rfl, allocated, extends', isBin, taken, binPage, large, -, place⟩ :=
    kmallocAligned_bin (Or.inl rfl) wf served within
  have slot : L'.Slot (x + 48) (x + 0x1000 * n) := ⟨x, .big n, isBin, taken, rfl, rfl⟩
  have range := extends'.wf.slot_range slot
  have endLe := extends'.wf.endLe
  have placement := wf.placementLt
  have baseLe := wf.baseLe
  have oldEnd := wf.endLe
  have aboveBase := (extends'.wf.placed.range x _ isBin).1
  have booted : k.heap.heapEnd ≠ 0 := wf.heapEnd_pos.ne'
  have srcBelow : src + 0x1000 ≤ k.heap.heapEnd := by
    rcases held with below | ⟨lo', hi', slot', above, inside⟩
    · omega
    · have range' := wf.slot_range slot'
      omega
  have clears : x + 0x1000 + 0x2000 = src ↔ ClearsFirst k src := by
    have request : sizeofTable + (0x1000 - 48) = need sizeofTable true := rfl
    obtain ⟨y, found, place⟩ := wf.klmallocBig_place allocated
    simp only [ClearsFirst, request, found, Option.some.injEq]
    split at place
    · rw [wrap32_of_lt (by omega)] at place
      omega
    · omega
  have apart : src + 0x1000 ≤ x + 0x1000 ∨ x + 0x1000 + 0x2000 = src ∨
      x + 0x1000 + 0x3000 ≤ src := by
    rcases held with below | ⟨lo', hi', slot', above, inside⟩
    · omega
    · -- The table at `src` starts on a page, so behind the page of its own header.
      obtain ⟨y, l, isBinY, -, header, near, -⟩ := wf.slot_bin slot'
      have pageY := wf.page isBinY
      have headerPos := l.header_ge
      have apartHeader := extends'.wf.slot_header slot (extends'.bins y l isBinY)
      have different := wf.slot_ne_next slot' (place.imp And.left And.left)
      have disjoint := extends'.wf.slot_disjoint slot (extends'.slots _ _ slot') different.symm
      omega
  exact
    { frames := rfl
      low := by omega
      high := by
        have pages : bigPages (need sizeofTable true) = 3 := by decide
        rcases place with ⟨free, -⟩ | ⟨rfl, rfl, -⟩
        · obtain ⟨m, wasBin⟩ := wf.skip.bin x free
          have below := wf.below wasBin
          omega
        · omega
      fits := by omega
      apart := apart
      clears := clears
      source := by
        intro a above inside
        refine extends'.bytes a ?_
        rcases held with below | ⟨lo', hi', slot', start, stop⟩
        · exact Or.inl (by omega)
        · exact Or.inr ⟨lo', hi', slot', by omega, by omega⟩ }

theorem IsTable.newTable {k k₁ : Kernel} {src table phys : Nat} (isTable : IsTable k src)
    (returned : k.kmallocAlignedPhysical sizeofTable = some (table, phys, k₁)) :
    NewTable k src table k₁ := by
  obtain ⟨page, ⟨fresh, below, room⟩ | ⟨base, L, wf, held⟩⟩ := isTable
  · exact newTable_bump fresh (by omega) below room returned
  · exact newTable_heap wf page held returned

/-- The block is allocated while the heap has room for it. -/
theorem IsTable.allocates {k : Kernel} {src : Nat} (isTable : IsTable k src)
    (room : k.heap.heapEnd = 0 ∨ k.heap.heapEnd + 0x5000 ≤ kheapEnd) :
    ∃ table phys k₁, k.kmallocAlignedPhysical sizeofTable = some (table, phys, k₁) ∧
      (k₁.heap.heapEnd ≠ 0 → table + sizeofDirectory ≤ kheapEnd) := by
  have size : sizeofTable = 0x1000 := rfl
  have directory : sizeofDirectory = 8196 := rfl
  obtain ⟨-, ⟨fresh, below, limit⟩ | ⟨base, L, wf, -⟩⟩ := isTable
  · have block : nextBlock k.heap = k.heap.placementPointer / 0x1000 * 0x1000 + 0x1000 := rfl
    exact ⟨_, _, _, kmallocAlignedPhysical_bump fresh (by omega) sizeofTable (by omega),
      fun booted => absurd fresh booted⟩
  · have booted : k.heap.heapEnd ≠ 0 := wf.heapEnd_pos.ne'
    have pages : bigPages (need sizeofTable true) = 3 := by decide
    have roomLeft := room.resolve_left booted
    have asks : 0 < need sizeofTable true := by decide
    obtain ⟨lo, hi, p, h', L', served, extends', slot, -, inside, -⟩ :=
      wf.kmallocRaw asks (fits_of_room (by omega))
    have range := extends'.wf.slot_range slot
    have grown := heapEnd_kmallocRaw_le booted served
    rw [pages] at grown
    have filtered : (k.heap.kmallocAligned sizeofTable).filter
        (fun result => result.2.heapEnd ≤ kheapEnd) = some (p, h') :=
      Option.filter_eq_some_iff.mpr
        ⟨served, decide_eq_true (show h'.heapEnd ≤ kheapEnd by omega)⟩
    exact ⟨_, _, _, Option.map_eq_some_iff.mpr ⟨_, filtered, rfl⟩, fun _ => by omega⟩

/-! ### One entry -/

/-- The source entry `i` holds a frame, so `clone_table` copies it. -/
def HoldsFrame (m : Memory) (src i : Nat) : Prop := (entryAt m (src + 4 * i)).frame ≠ 0

instance (m : Memory) (src : Nat) : DecidablePred (HoldsFrame m src) :=
  fun _ => inferInstanceAs (Decidable (_ ≠ _))

/-- The entries of a table depend on its page only. -/
theorem count_holdsFrame {m m' : Memory} {src : Nat}
    (same : ∀ a, src ≤ a → a < src + 0x1000 → m' a = m a) :
    Nat.count (HoldsFrame m' src) 1024 = Nat.count (HoldsFrame m src) 1024 := by
  have entries : ∀ i, i < 1024 → (HoldsFrame m' src i ↔ HoldsFrame m src i) := by
    intro i index
    rw [HoldsFrame, HoldsFrame, entryAt, entryAt,
      Memory.read32_congr fun o inWord => same _ (by omega) (by omega)]
  exact Nat.le_antisymm (Nat.count_mono_left fun i index => (entries i index).mp)
    (Nat.count_mono_left fun i index => (entries i index).mpr)

/-- Frame `f` is not on the page at `a`. -/
def Misses (f a : Nat) : Prop := f * 0x1000 + 0x1000 ≤ a ∨ a + 0x1000 ≤ f * 0x1000

/-- What `clone_table` makes of an entry that holds a frame. -/
def clonedPage (source : PageT) (f : Nat) : PageT := withFlags (givenPage false false f) source

/-- A copied entry gets the frame `f` that `alloc_frame` gives it; the round writes the entry and
that frame. -/
theorem cloneEntry_given {k : Kernel} {map : FrameMap} {src table i f : Nat} {undef : BitVec 32}
    (index : i < 1024) (apart : src + 0x1000 ≤ table ∨ table + 0x1000 ≤ src)
    (held : HoldsFrame k.mem src i) (small : f < 2 ^ 20)
    (given : k.allocFrame (table + 4 * i) false false undef =
      some ({ k with frames := map }.withMem
        (k.mem.write32 (table + 4 * i) (encode (givenPage false false f)))))
    (misses : Misses f table) :
    ∃ m, k.cloneEntry src table i undef = some ({ k with frames := map }.withMem m) ∧
      entryAt m (table + 4 * i) = clonedPage (entryAt k.mem (src + 4 * i)) f ∧
      (∀ g, (entryAt k.mem (src + 4 * i)).frame = g → g ≠ f → Misses g table →
        ∀ o, o < 0x1000 → m (f * 0x1000 + o) = k.mem (g * 0x1000 + o)) ∧
      ∀ a, (a < table + 4 * i ∨ table + 4 * i + 4 ≤ a) →
        (a < f * 0x1000 ∨ f * 0x1000 + 0x1000 ≤ a) → m a = k.mem a := by
  have entriesApart : src + 4 * i + 4 ≤ table + 4 * i ∨ table + 4 * i + 4 ≤ src + 4 * i := by omega
  have fits := fits_givenPage false false small
  obtain ⟨flagged, flagged_eq⟩ : ∃ m, cloneFlags (k.mem.write32 (table + 4 * i)
      (encode (givenPage false false f))) (src + 4 * i) (table + 4 * i) = m := ⟨_, rfl⟩
  have entry : entryAt flagged (table + 4 * i) =
      clonedPage (entryAt k.mem (src + 4 * i)) f := by
    have sourceKept : entryAt (k.mem.write32 (table + 4 * i) (encode (givenPage false false f)))
        (src + 4 * i) = entryAt k.mem (src + 4 * i) := by
      rw [entryAt, entryAt, Memory.read32_write32_disjoint _ _ entriesApart]
    rw [← flagged_eq, entryAt_cloneFlags _ entriesApart, entryAt_write _ _ fits, sourceKept,
      clonedPage]
  have frame : (entryAt flagged (table + 4 * i)).frame = f := by
    rw [entry]
    rfl
  have beside : ∀ a, (a < table + 4 * i ∨ table + 4 * i + 4 ≤ a) → flagged a = k.mem a := by
    intro a outside
    rw [← flagged_eq, cloneFlags_outside _ _ outside]
    exact Memory.write32_outside _ _ outside
  have source : entryAt flagged (src + 4 * i) = entryAt k.mem (src + 4 * i) := by
    rw [entryAt, entryAt, Memory.read32_congr fun o inWord => beside _ (by omega)]
  unfold Misses at misses
  refine ⟨copyPagePhysical flagged ((entryAt flagged (src + 4 * i)).frame * 0x1000)
    (f * 0x1000), ?_, ?_, ?_, ?_⟩
  · have holds : (entryAt k.mem (src + 4 * i)).frame ≠ 0 := held
    rw [Kernel.cloneEntry, if_pos holds, given, Option.map_some]
    simp only [Kernel.mem_withMem, Kernel.withMem_withMem, flagged_eq, frame]
  · rw [← entry, entryAt, entryAt]
    refine congrArg decode (Memory.read32_congr fun o inWord => ?_)
    exact copyPagePhysical_outside _ _ small (by omega)
  · rintro g rfl different missesTable o inPage
    unfold Misses at missesTable
    have sourceSmall := (fits_entryAt k.mem (src + 4 * i)).frame
    rw [source, copyPagePhysical_inside _ small sourceSmall different inPage]
    exact beside _ (by omega)
  · intro a outsideEntry outsideFrame
    rw [copyPagePhysical_outside _ _ small outsideFrame]
    exact beside a outsideEntry

/-- With a frame free the entry gets the least one. -/
theorem cloneEntry_held {k : Kernel} {src table i : Nat} (index : i < 1024)
    (apart : src + 0x1000 ≤ table ∨ table + 0x1000 ≤ src) (held : HoldsFrame k.mem src i)
    (clear : k.mem.read32 (table + 4 * i) = 0) (free : k.frames.HasFree)
    (bound : k.frames.scanned ≤ 2 ^ 20) (undef : BitVec 32)
    (misses : Misses (firstFrame k.frames undef) table) :
    ∃ m, k.cloneEntry src table i undef = some ({ k with
        frames := setFrame k.frames (firstFrame k.frames undef * 0x1000) }.withMem m) ∧
      entryAt m (table + 4 * i) =
        clonedPage (entryAt k.mem (src + 4 * i)) (firstFrame k.frames undef) ∧
      (∀ g, (entryAt k.mem (src + 4 * i)).frame = g → g ≠ firstFrame k.frames undef →
        Misses g table → ∀ o, o < 0x1000 →
          m (firstFrame k.frames undef * 0x1000 + o) = k.mem (g * 0x1000 + o)) ∧
      ∀ a, (a < table + 4 * i ∨ table + 4 * i + 4 ≤ a) →
        (a < firstFrame k.frames undef * 0x1000 ∨ firstFrame k.frames undef * 0x1000 + 0x1000 ≤ a) →
        m a = k.mem a :=
  cloneEntry_given index apart held ((k.frames.firstFrame_spec free undef).1.trans_le bound)
    (allocFrame_zero clear free bound false false undef) misses

/-! ### The loop -/

/-- The kernel in front of the loop: the table is blank, and no free frame is on its page or
on that of the source. -/
structure Ready (s : Kernel) (src table : Nat) : Prop where
  apart : src + 0x1000 ≤ table ∨ table + 0x1000 ≤ src
  blank : ∀ i, i < 1024 → s.mem.read32 (table + 4 * i) = 0
  frames : s.frames.scanned ≤ 2 ^ 20
  misses : ∀ f, f < s.frames.scanned → s.frames.used f = false → Misses f src ∧ Misses f table
  enough : Nat.count (HoldsFrame s.mem src) 1024 ≤ s.frames.freeCount

@[simp] theorem clonedPage_frame (source : PageT) (f : Nat) : (clonedPage source f).frame = f :=
  rfl

/-- Entry `i` of the table is a copy, in the frame `f` that was free. -/
structure CopiedTo (s : Kernel) (src table : Nat) (k : Kernel) (i f : Nat) : Prop where
  inMap : f < s.frames.scanned
  free : s.frames.used f = false
  taken : k.frames.used f = true
  entry : entryAt k.mem (table + 4 * i) = clonedPage (entryAt s.mem (src + 4 * i)) f
  content : ∀ g, (entryAt s.mem (src + 4 * i)).frame = g → s.frames.used g = true →
    Misses g table → ∀ o, o < 0x1000 → k.mem (f * 0x1000 + o) = s.mem (g * 0x1000 + o)

/-- A copy stays one while its frame stays taken and its bytes stay as they are. -/
theorem CopiedTo.keep {s k k' : Kernel} {src table i f : Nat} (copied : CopiedTo s src table k i f)
    (taken : k'.frames.used f = true)
    (entry : entryAt k'.mem (table + 4 * i) = entryAt k.mem (table + 4 * i))
    (bytes : ∀ o, o < 0x1000 → k'.mem (f * 0x1000 + o) = k.mem (f * 0x1000 + o)) :
    CopiedTo s src table k' i f where
  inMap := copied.inMap
  free := copied.free
  taken := taken
  entry := entry.trans copied.entry
  content := fun g isFrame used misses o inPage =>
    (bytes o inPage).trans (copied.content g isFrame used misses o inPage)

/-- The first `n` entries are done. -/
structure Cloned (s : Kernel) (src table n : Nat) (k : Kernel) : Prop where
  heap : k.heap = { s.heap with mem := k.mem }
  directory : k.kernelDirectory = s.kernelDirectory
  nframes : k.frames.nframes = s.frames.nframes
  used : ∀ f, s.frames.used f = true → k.frames.used f = true
  supply : k.frames.freeCount + Nat.count (HoldsFrame s.mem src) n = s.frames.freeCount
  source : ∀ a, src ≤ a → a < src + 0x1000 → k.mem a = s.mem a
  copied : ∀ i, i < n → HoldsFrame s.mem src i → ∃ f, CopiedTo s src table k i f
  distinct : ∀ i j, i < n → j < n → HoldsFrame s.mem src i → HoldsFrame s.mem src j → i ≠ j →
    (entryAt k.mem (table + 4 * i)).frame ≠ (entryAt k.mem (table + 4 * j)).frame
  blank : ∀ i, i < 1024 → n ≤ i ∨ ¬ HoldsFrame s.mem src i → k.mem.read32 (table + 4 * i) = 0
  outside : ∀ a, (a < table ∨ table + 0x1000 ≤ a) →
    (∀ f, f < s.frames.scanned → s.frames.used f = false → k.frames.used f = true →
      a < f * 0x1000 ∨ f * 0x1000 + 0x1000 ≤ a) → k.mem a = s.mem a

section Loop

variable {s k : Kernel} {src table n : Nat}

theorem Ready.start (ready : Ready s src table) : Cloned s src table 0 s where
  heap := rfl
  directory := rfl
  nframes := rfl
  used := fun _ => id
  supply := by rw [Nat.count_zero, Nat.add_zero]
  source := fun _ _ _ => rfl
  copied := fun _ below => absurd below (Nat.not_lt_zero _)
  distinct := fun _ _ _ below => absurd below (Nat.not_lt_zero _)
  blank := fun i index _ => ready.blank i index
  outside := fun _ _ _ => rfl

theorem Cloned.entry (cloned : Cloned s src table n k) {i : Nat} (index : i < 1024) :
    entryAt k.mem (src + 4 * i) = entryAt s.mem (src + 4 * i) := by
  rw [entryAt, entryAt,
    Memory.read32_congr fun o inWord => cloned.source _ (by omega) (by omega)]

theorem Cloned.scanned (cloned : Cloned s src table n k) :
    k.frames.scanned = s.frames.scanned := by
  rw [FrameMap.scanned, FrameMap.scanned, cloned.nframes]

/-- An entry that is still to be copied finds a free frame. -/
theorem Cloned.hasFree (cloned : Cloned s src table n k) (ready : Ready s src table)
    (index : n < 1024) (held : HoldsFrame s.mem src n) : k.frames.HasFree := by
  have supply := cloned.supply
  have enough := ready.enough
  have more := Nat.count_strict_mono held index
  rw [FrameMap.hasFree_iff]
  omega

theorem Cloned.skip (cloned : Cloned s src table n k) (index : n < 1024)
    (holdsNone : ¬ HoldsFrame s.mem src n) (undef : BitVec 32) :
    k.cloneEntry src table n undef = some k ∧ Cloned s src table (n + 1) k := by
  constructor
  · have empty : ¬ (entryAt s.mem (src + 4 * n)).frame ≠ 0 := holdsNone
    rw [Kernel.cloneEntry, cloned.entry index, if_neg empty]
  · have before : ∀ i, i < n + 1 → HoldsFrame s.mem src i → i < n := by
      intro i below held
      have different : i ≠ n := fun same => holdsNone (same ▸ held)
      omega
    refine
      { heap := cloned.heap
        directory := cloned.directory
        nframes := cloned.nframes
        used := cloned.used
        supply := ?_
        source := cloned.source
        copied := ?_
        distinct := ?_
        blank := ?_
        outside := cloned.outside }
    · rw [Nat.count_succ, if_neg holdsNone, Nat.add_zero]
      exact cloned.supply
    · intro i below held
      exact cloned.copied i (before i below held) held
    · intro i j belowI belowJ heldI heldJ
      exact cloned.distinct i j (before i belowI heldI) (before j belowJ heldJ) heldI heldJ
    · intro i bound rest
      refine cloned.blank i bound ?_
      rcases rest with above | holds
      · exact Or.inl (by omega)
      · exact Or.inr holds

/-- The round of entry `n` copied it into the frame `f`. -/
structure EntryCopied (s : Kernel) (src table n : Nat) (k : Kernel) (f : Nat) (k' : Kernel) :
    Prop where
  inMap : f < s.frames.scanned
  free : s.frames.used f = false
  unmarked : k.frames.used f = false
  frames : k'.frames = setFrame k.frames (f * 0x1000)
  heap : k'.heap = { k.heap with mem := k'.mem }
  directory : k'.kernelDirectory = k.kernelDirectory
  entry : entryAt k'.mem (table + 4 * n) = clonedPage (entryAt s.mem (src + 4 * n)) f
  content : ∀ g, (entryAt s.mem (src + 4 * n)).frame = g → g ≠ f → Misses g table →
    ∀ o, o < 0x1000 → k'.mem (f * 0x1000 + o) = k.mem (g * 0x1000 + o)
  outside : ∀ a, (a < table + 4 * n ∨ table + 4 * n + 4 ≤ a) →
    (a < f * 0x1000 ∨ f * 0x1000 + 0x1000 ≤ a) → k'.mem a = k.mem a

theorem Cloned.copyEntry (cloned : Cloned s src table n k) (ready : Ready s src table)
    (index : n < 1024) (held : HoldsFrame s.mem src n) (undef : BitVec 32) :
    ∃ f k', k.cloneEntry src table n undef = some k' ∧ EntryCopied s src table n k f k' := by
  have free := cloned.hasFree ready index held
  have scanned := cloned.scanned
  obtain ⟨below, unmarked, -⟩ := k.frames.firstFrame_spec free undef
  have heldNow : HoldsFrame k.mem src n := by
    rw [HoldsFrame, cloned.entry index]
    exact held
  have wasFree : s.frames.used (firstFrame k.frames undef) = false := by
    rw [Bool.eq_false_iff]
    intro wasUsed
    rw [cloned.used _ wasUsed] at unmarked
    contradiction
  have missesTable := (ready.misses _ (scanned ▸ below) wasFree).2
  obtain ⟨m, done, entry, content, outside⟩ := cloneEntry_held index ready.apart heldNow
    (cloned.blank n index (Or.inl (Nat.le_refl n))) free (scanned ▸ ready.frames) undef missesTable
  rw [cloned.entry index] at entry content
  exact ⟨_, _, done,
    { inMap := scanned ▸ below
      free := wasFree
      unmarked := unmarked
      frames := rfl
      heap := rfl
      directory := rfl
      entry := entry
      content := content
      outside := outside }⟩

section EntryCopied

variable {k' : Kernel} {f : Nat}

theorem EntryCopied.used (copied : EntryCopied s src table n k f k') (g : Nat) :
    k'.frames.used g = (decide (g = f) || k.frames.used g) := by
  rw [copied.frames]
  exact FrameMap.used_setFrame_mul _ _ _

theorem EntryCopied.still_used (copied : EntryCopied s src table n k f k') {g : Nat}
    (used : k.frames.used g = true) : k'.frames.used g = true := by
  rw [copied.used, used, Bool.or_true]

theorem EntryCopied.taken (copied : EntryCopied s src table n k f k') :
    k'.frames.used f = true := by
  rw [copied.used, decide_eq_true rfl, Bool.true_or]

/-- The other words of the table lie beside the written entry and off the frame. -/
theorem EntryCopied.others (copied : EntryCopied s src table n k f k') (ready : Ready s src table)
    {i : Nat} (bound : i < 1024) (different : i ≠ n) :
    k'.mem.read32 (table + 4 * i) = k.mem.read32 (table + 4 * i) := by
  have misses := (ready.misses f copied.inMap copied.free).2
  unfold Misses at misses
  exact Memory.read32_congr fun o inWord => copied.outside _ (by omega) (by omega)

theorem EntryCopied.newEntry (copied : EntryCopied s src table n k f k')
    (cloned : Cloned s src table n k) : CopiedTo s src table k' n f where
  inMap := copied.inMap
  free := copied.free
  taken := copied.taken
  entry := copied.entry
  content := by
    intro g isFrame sourceUsed missesG o inPage
    have apart : ∀ g', s.frames.used g' = false → g ≠ g' := by
      rintro g' free rfl
      rw [free] at sourceUsed
      contradiction
    rw [copied.content g isFrame (apart f copied.free) missesG o inPage]
    unfold Misses at missesG
    refine cloned.outside _ (by omega) fun g' _ free' _ => ?_
    have apartFrames := apart g' free'
    omega

theorem EntryCopied.oldEntry (copied : EntryCopied s src table n k f k')
    (ready : Ready s src table) (index : n < 1024) {i g : Nat} (before : i < n)
    (old : CopiedTo s src table k i g) : g ≠ f ∧ CopiedTo s src table k' i g := by
  have different : g ≠ f := by
    rintro rfl
    have taken := old.taken
    rw [copied.unmarked] at taken
    contradiction
  have offTable := (ready.misses g old.inMap old.free).2
  unfold Misses at offTable
  refine ⟨different, old.keep (copied.still_used old.taken) ?_ fun o inPage => ?_⟩
  · exact congrArg decode (copied.others ready (by omega) (by omega))
  · exact copied.outside _ (by omega) (by omega)

/-- The frame of the new entry is not that of an entry from before. -/
theorem EntryCopied.frame_ne (copied : EntryCopied s src table n k f k')
    (ready : Ready s src table) (cloned : Cloned s src table n k) (index : n < 1024) {i : Nat}
    (before : i < n) (held : HoldsFrame s.mem src i) :
    (entryAt k'.mem (table + 4 * i)).frame ≠ (entryAt k'.mem (table + 4 * n)).frame := by
  obtain ⟨g, old⟩ := cloned.copied i before held
  obtain ⟨different, kept⟩ := copied.oldEntry ready index before old
  rw [kept.entry, copied.entry, clonedPage_frame, clonedPage_frame]
  exact different

/-- The round of an entry that holds a frame. -/
theorem EntryCopied.cloned (copied : EntryCopied s src table n k f k') (ready : Ready s src table)
    (cloned : Cloned s src table n k) (index : n < 1024) (held : HoldsFrame s.mem src n) :
    Cloned s src table (n + 1) k' where
  heap := by rw [copied.heap, cloned.heap]
  directory := copied.directory.trans cloned.directory
  nframes := by
    rw [copied.frames]
    exact cloned.nframes
  used := fun g wasUsed => copied.still_used (cloned.used g wasUsed)
  supply := by
    have count := k.frames.freeCount_setFrame copied.unmarked (cloned.scanned ▸ copied.inMap)
    rw [Nat.count_succ, if_pos held, ← cloned.supply, ← count, copied.frames]
    omega
  source := by
    intro a above inside
    have misses := (ready.misses f copied.inMap copied.free).1
    have apart := ready.apart
    unfold Misses at misses
    rw [copied.outside a (by omega) (by omega)]
    exact cloned.source a above inside
  copied := by
    intro i belowNext holds
    by_cases last : i = n
    · exact ⟨f, last ▸ copied.newEntry cloned⟩
    · obtain ⟨g, old⟩ := cloned.copied i (by omega) holds
      exact ⟨g, (copied.oldEntry ready index (by omega) old).2⟩
  distinct := by
    intro i j belowI belowJ heldI heldJ different
    by_cases lastI : i = n
    · rw [lastI]
      exact (copied.frame_ne ready cloned index (by omega) heldJ).symm
    · by_cases lastJ : j = n
      · rw [lastJ]
        exact copied.frame_ne ready cloned index (by omega) heldI
      · rw [entryAt, entryAt, copied.others ready (by omega) lastI,
          copied.others ready (by omega) lastJ]
        exact cloned.distinct i j (by omega) (by omega) heldI heldJ different
  blank := by
    intro i bound rest
    have different : i ≠ n := by
      rintro rfl
      exact rest.elim (Nat.not_succ_le_self i) fun holdsNone => holdsNone held
    rw [copied.others ready bound different]
    exact cloned.blank i bound (rest.imp_left Nat.le_of_succ_le)
  outside := by
    intro a offTable offFrames
    have offNew := offFrames f copied.inMap copied.free copied.taken
    rw [copied.outside a (by omega) offNew]
    refine cloned.outside a offTable fun g inMap isFree taken => ?_
    exact offFrames g inMap isFree (copied.still_used taken)

end EntryCopied

/-- With enough free frames the loop runs to its end. -/
theorem Ready.loop (ready : Ready s src table) (undef : Nat → BitVec 32) :
    ∃ k, (List.range 1024).foldlM
        (fun (k : Kernel) i => k.cloneEntry src table i (undef i)) s = some k ∧
      Cloned s src table 1024 k := by
  refine foldlM_range _ (Cloned s src table) ?_ ready.start
  intro i k index cloned
  by_cases held : HoldsFrame s.mem src i
  · obtain ⟨f, k', returned, copied⟩ := cloned.copyEntry ready index held (undef i)
    exact ⟨k', returned, copied.cloned ready cloned index held⟩
  · exact ⟨k, cloned.skip index held (undef i)⟩

end Loop

/-! ### `clone_table` -/

/-- What `clone_table` is called with: a page table, a bitmap of at most `2 ^ 20` frames
that has the kernel's own pages marked, and a free frame for every entry to be copied. -/
structure Clonable (k : Kernel) (src : Nat) : Prop where
  table : IsTable k src
  frames : k.frames.scanned ≤ 2 ^ 20
  marked : ∀ f, f < k.frames.scanned → k.frames.used f = false → Misses f src ∧
    (f * 0x1000 + 0x1000 ≤ k.heap.placementPointer ∨
      max k.heap.placementPointer k.heap.heapEnd + 0x3000 ≤ f * 0x1000)
  enough : Nat.count (HoldsFrame k.mem src) 1024 ≤ k.frames.freeCount

section CloneTable

variable {k k₁ k' : Kernel} {src table phys : Nat}

theorem clearDirectory_eq_some {s : Kernel} {p : Nat} (cleared : k.clearDirectory p = some s) :
    s = k.withMem (memset k.mem p 0 sizeofDirectory) := by
  unfold Kernel.clearDirectory at cleared
  split at cleared
  · contradiction
  · exact (Option.some.inj cleared).symm

theorem cloneTable_eq_some {undef : Nat → BitVec 32}
    (returned : k.cloneTable src undef = some (table, phys, k')) :
    ∃ k₁, k.kmallocAlignedPhysical sizeofTable = some (table, phys, k₁) ∧
      (List.range 1024).foldlM (fun (k : Kernel) i => k.cloneEntry src table i (undef i))
        (k₁.withMem (memset k₁.mem table 0 sizeofDirectory)) = some k' := by
  rw [Kernel.cloneTable, Option.bind_eq_some_iff] at returned
  obtain ⟨⟨table', phys', k₁⟩, allocated, rest⟩ := returned
  simp only [Option.bind_eq_some_iff, Option.map_eq_some_iff, Prod.mk.injEq] at rest
  obtain ⟨s, cleared, k₂, ran, rfl, rfl, rfl⟩ := rest
  rw [clearDirectory_eq_some cleared] at ran
  exact ⟨k₁, allocated, ran⟩

/-- The source table behind the `memset`. -/
theorem NewTable.entry_cleared (new : NewTable k src table k₁) {i : Nat} (index : i < 1024) :
    entryAt (k₁.withMem (memset k₁.mem table 0 sizeofDirectory)).mem (src + 4 * i) =
      if i = 0 ∧ ClearsFirst k src then PageT.zero else entryAt k.mem (src + 4 * i) := by
  have apart := new.apart
  have fits := new.fits
  have size : sizeofDirectory = 8196 := rfl
  rw [Kernel.mem_withMem, memset_eq_fill _ _ (by omega)]
  split
  next first =>
    have behind := new.clears.mpr first.2
    exact entryAt_zero (Memory.read32_fill_zero _ (by omega))
  next notFirst =>
    have outside : src + 4 * i + 4 ≤ table ∨ table + sizeofDirectory ≤ src + 4 * i := by
      by_cases behind : table + 0x2000 = src
      · have later : i ≠ 0 := fun zero => notFirst ⟨zero, new.clears.mp behind⟩
        omega
      · omega
    rw [entryAt, Memory.read32_fill_disjoint _ _ outside, entryAt]
    exact congrArg decode (Memory.read32_congr fun o inWord =>
      new.source _ (by omega) (by omega))

theorem NewTable.holdsFrame (new : NewTable k src table k₁) {i : Nat} (index : i < 1024) :
    HoldsFrame (k₁.withMem (memset k₁.mem table 0 sizeofDirectory)).mem src i ↔
      HoldsFrame k.mem src i ∧ ¬ (i = 0 ∧ ClearsFirst k src) := by
  rw [HoldsFrame, new.entry_cleared index]
  split
  next first => exact iff_of_false (fun holds => holds rfl) fun both => both.2 first
  next notFirst => exact ⟨fun holds => ⟨holds, notFirst⟩, fun both => both.1⟩

/-- The `memset` leaves the kernel ready for the loop, if no free frame is on a page of
either table. -/
theorem NewTable.ready (new : NewTable k src table k₁) (frames : k.frames.scanned ≤ 2 ^ 20)
    (misses : ∀ f, f < k.frames.scanned → k.frames.used f = false →
      Misses f src ∧ Misses f table)
    (enough : Nat.count (HoldsFrame k.mem src) 1024 ≤ k.frames.freeCount) :
    Ready (k₁.withMem (memset k₁.mem table 0 sizeofDirectory)) src table := by
  have apart := new.apart
  have fits := new.fits
  have size : sizeofDirectory = 8196 := rfl
  refine
    { apart := by omega
      blank := ?_
      frames := ?_
      misses := ?_
      enough := ?_ }
  · intro i index
    rw [Kernel.mem_withMem, memset_eq_fill _ _ (by omega)]
    exact Memory.read32_fill_zero _ (by omega)
  · rw [Kernel.frames_withMem, new.frames]
    exact frames
  · rw [Kernel.frames_withMem, new.frames]
    exact misses
  · rw [Kernel.frames_withMem, new.frames]
    refine (Nat.count_mono_left ?_).trans enough
    intro i index holds
    exact ((new.holdsFrame index).mp holds).1

theorem Clonable.ready (clonable : Clonable k src) (new : NewTable k src table k₁) :
    Ready (k₁.withMem (memset k₁.mem table 0 sizeofDirectory)) src table := by
  have low := new.low
  have high := new.high
  refine new.ready clonable.frames (fun f inMap free => ?_) clonable.enough
  obtain ⟨missesSource, missesKernel⟩ := clonable.marked f inMap free
  refine ⟨missesSource, ?_⟩
  unfold Misses
  omega

/-- Every entry that held a frame is a copy with the flags `alloc_frame` gives a user page
turned on, unless the `memset` has erased it. -/
theorem cloneTable_entry (clonable : Clonable k src) {undef : Nat → BitVec 32}
    (returned : k.cloneTable src undef = some (table, phys, k')) {i : Nat} (index : i < 1024)
    (held : HoldsFrame k.mem src i) :
    ∃ f, entryAt k'.mem (table + 4 * i) =
      if i = 0 ∧ ClearsFirst k src then PageT.zero
      else clonedPage (entryAt k.mem (src + 4 * i)) f := by
  obtain ⟨k₁, allocated, ran⟩ := cloneTable_eq_some returned
  have new := clonable.table.newTable allocated
  obtain ⟨k₂, ran', cloned⟩ := (clonable.ready new).loop undef
  rw [ran', Option.some.injEq] at ran
  subst ran
  by_cases first : i = 0 ∧ ClearsFirst k src
  · refine ⟨0, ?_⟩
    rw [if_pos first]
    refine entryAt_zero (cloned.blank i index (Or.inr ?_))
    rw [new.holdsFrame index]
    exact fun both => both.2 first
  · have holds := (new.holdsFrame index).mpr ⟨held, first⟩
    obtain ⟨f, copy⟩ := cloned.copied i index holds
    refine ⟨f, ?_⟩
    rw [copy.entry, new.entry_cleared index, if_neg first, if_neg first]

/-- `clone_table` returns while the heap has room for the block and the `memset`. -/
theorem cloneTable_returns (clonable : Clonable k src)
    (room : k.heap.heapEnd = 0 ∨ k.heap.heapEnd + 0x5000 ≤ kheapEnd) (undef : Nat → BitVec 32) :
    ∃ table phys k', k.cloneTable src undef = some (table, phys, k') := by
  obtain ⟨table, phys, k₁, allocated, inside⟩ := clonable.table.allocates room
  have new := clonable.table.newTable allocated
  have cleared : k₁.clearDirectory table =
      some (k₁.withMem (memset k₁.mem table 0 sizeofDirectory)) := by
    rw [Kernel.clearDirectory, if_neg]
    exact fun past => absurd (inside past.1) (Nat.not_le.mpr past.2)
  obtain ⟨k', ran, -⟩ := (clonable.ready new).loop undef
  exact ⟨table, phys, k', Option.bind_eq_some_iff.mpr ⟨_, allocated,
    Option.bind_eq_some_iff.mpr ⟨_, cleared, Option.map_eq_some_iff.mpr ⟨k', ran, rfl⟩⟩⟩⟩

end CloneTable

end Balloon.Paging
