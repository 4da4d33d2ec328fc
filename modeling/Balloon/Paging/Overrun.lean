import Balloon.Paging.Blocks

/-!
Owns which bytes `clone_table` changes. Its `memset` clears `sizeof(page_directory_t)` bytes,
so what it changes depends on where the block that the allocator finds for the new table ends,
and on what lies behind it.
-/

namespace Balloon.Paging

open Balloon.Foundation
open Balloon.Libc
open Balloon.Allocator
open Balloon.Frames

/-! ### What a clone owns -/

/-- `a` is in a frame that was free in `k` and is taken in `k'`. -/
def InNewFrame (k k' : Kernel) (a : Nat) : Prop :=
  ∃ f, f < k.frames.scanned ∧ k.frames.used f = false ∧ k'.frames.used f = true ∧
    Inside (f * 0x1000) 0x1000 a

/-- After the allocator has returned, `clone_table` changes nothing but the block of the new
table, the frames it takes and memory that is `own`. -/
def TableWritesOwn (own : Nat → Prop) (undef : Nat → BitVec 32) (k : Kernel) (src : Nat) : Prop :=
  ∀ table phys k₁ k', k.kmallocAlignedPhysical sizeofTable = some (table, phys, k₁) →
    k.cloneTable src undef = some (table, phys, k') →
      ∀ a, ¬ own a → ¬ InBlock k₁.heap sizeofTable table a → ¬ InNewFrame k k' a →
        k'.mem a = k₁.mem a

/-! ### The block for a new table -/

/-- The bin that serves a table: the free one that the search finds, or a new one. -/
def tableBin (h : Heap) : Nat :=
  let bin := (h.klmallocSkipListFindbest (sizeofTable + (0x1000 - 48))).getD 0
  if bin = 0 then h.heapEnd else bin

/-- Where the next table is put. -/
def tableStart (h : Heap) : Nat :=
  if h.heapEnd = 0 then nextBlock h else tableBin h + 0x1000

/-- Where the block of the next table ends; a new bin has three pages. -/
def tableEnd (h : Heap) : Nat :=
  if h.heapEnd = 0 then nextBlock h + sizeofTable
  else if tableBin h = h.heapEnd then h.heapEnd + 0x3000
  else tableBin h + 48 + h.sizeOf (tableBin h)

/-- Every byte that `memset` clears behind the block of the next table is zero already, unless
the `memset` runs past `KHEAP_END`, where it faults. -/
def OverrunBlank (k : Kernel) : Prop :=
  (k.heap.heapEnd ≠ 0 → tableStart k.heap + sizeofDirectory ≤ kheapEnd) →
    ∀ a, tableEnd k.heap ≤ a → a < tableStart k.heap + sizeofDirectory → k.mem a = 0

/-- The block at `table` is the one foretold, and taking it leaves the bytes behind it blank
or not, as they were. -/
structure NextTable (k : Kernel) (table : Nat) (k₁ : Kernel) : Prop where
  start : table = tableStart k.heap
  mode : k₁.heap.heapEnd = 0 ↔ k.heap.heapEnd = 0
  inside : ∀ a, table ≤ a → a < tableEnd k.heap → InBlock k₁.heap sizeofTable table a
  outside : ∀ a, tableEnd k.heap ≤ a → ¬ InBlock k₁.heap sizeofTable table a
  room : table + sizeofTable ≤ tableEnd k.heap
  blank : (∀ a, tableEnd k.heap ≤ a → a < table + sizeofDirectory → k₁.mem a = 0) ↔
    ∀ a, tableEnd k.heap ≤ a → a < table + sizeofDirectory → k.mem a = 0

section NextTable

variable {k k₁ : Kernel} {table phys : Nat}

theorem nextTable_bump (fresh : k.heap.heapEnd = 0) (low : 0x1000 ≤ k.heap.placementPointer)
    (space : nextBlock k.heap + sizeofTable < 2 ^ 32)
    (returned : k.kmallocAlignedPhysical sizeofTable = some (table, phys, k₁)) :
    NextTable k table k₁ := by
  rw [kmallocAlignedPhysical_bump fresh low sizeofTable space] at returned
  obtain ⟨rfl, -, rfl⟩ := by simpa only [Option.some.injEq, Prod.mk.injEq] using returned
  have stop : tableEnd k.heap = nextBlock k.heap + sizeofTable := if_pos fresh
  have block : ∀ a, InBlock { k.heap with placementPointer := nextBlock k.heap + sizeofTable }
      sizeofTable (nextBlock k.heap) a ↔ Inside (nextBlock k.heap) sizeofTable a :=
    fun a => by rw [InBlock, if_pos fresh]
  exact
    { start := (if_pos fresh).symm
      mode := Iff.rfl
      inside := fun a above below => (block a).mpr ⟨above, stop ▸ below⟩
      outside := by
        intro a behind inBlock
        have before := ((block a).mp inBlock).2
        omega
      room := stop.ge
      blank := Iff.rfl }

/-- Bytes behind a free block are changed by taking it only in the header of a big block,
and then that header is there before and after. -/
theorem overrun_blank_iff {h h' : Heap} {base x n p size : Nat} {L L' : Layout}
    (wf : WellFormed h base L) (extends' : Extends h base L h' L')
    (found : h.klmallocSkipListFindbest size = some x) (nonzero : x ≠ 0)
    (served : h.klmallocBig size = some (p, h')) (isBin : L.bins x = some (.big n)) :
    (∀ a, x + 0x1000 * n ≤ a → a < x + 0x1000 + sizeofDirectory → h'.mem a = 0) ↔
      ∀ a, x + 0x1000 * n ≤ a → a < x + 0x1000 + sizeofDirectory → h.mem a = 0 := by
  have size : sizeofDirectory = 8196 := rfl
  have bytes := (wf.klmallocBig_found found nonzero served).2
  have page := wf.page isBin
  by_cases follows : ∃ y m, L.bins y = some (.big m) ∧ x + 0x1000 * n ≤ y ∧ y + 16 ≤ x + 0x3004
  · obtain ⟨y, m, isBig, behind, reached⟩ := follows
    have notBlank : ∀ {g : Heap}, g.magicOf y = binMagic →
        ¬ ∀ a, x + 0x1000 * n ≤ a → a < x + 0x1000 + sizeofDirectory → g.mem a = 0 := by
      intro g magic blank
      have zero : g.magicOf y = 0 :=
        Memory.read32_zero fun o inWord => blank _ (by omega) (by omega)
      rw [zero] at magic
      exact absurd magic (by decide)
    exact iff_of_false (notBlank (extends'.wf.bin y _ (extends'.bins y _ isBig)).1)
      (notBlank (wf.bin y _ isBig).1)
  · refine forall₃_congr fun a behind below => ?_
    rw [bytes a]
    rintro y ⟨m, isBig⟩
    by_contra inHeader
    have pageY := wf.page isBig
    have notBehind : ¬ x + 0x1000 * n ≤ y :=
      fun above => follows ⟨y, m, isBig, above, by omega⟩
    have positive : 0 < n := (wf.placed.range x _ isBin).2.1
    have positiveY : 0 < m := (wf.placed.range y _ isBig).2.1
    by_cases same : y = x
    · omega
    · have apart := wf.placed.apart y x _ _ isBig isBin same
      rw [Bin.pages_big, Bin.pages_big] at apart
      omega

/-- The bin that the search foretells, and its end. -/
theorem tableBin_eq {base x n : Nat} {L L' : Layout} {h' : Heap} (wf : WellFormed k.heap base L)
    (extends' : Extends k.heap base L h' L') (isBin : L'.bins x = some (.big n))
    (allocated : k.heap.klmallocBig (need sizeofTable true) = some (x + 48, h'))
    (place : (x ∈ L.level 0 ∧ h'.heapEnd = k.heap.heapEnd) ∨
      (x = k.heap.heapEnd ∧ n = bigPages (need sizeofTable true) ∧
        h'.heapEnd = k.heap.heapEnd + 0x1000 * n)) :
    tableBin k.heap = x ∧ tableEnd k.heap = x + 0x1000 * n := by
  obtain ⟨y, found, atBin⟩ := wf.klmallocBig_place allocated
  have oldEnd := wf.endLe
  have bin : tableBin k.heap = x := by
    have search : k.heap.klmallocSkipListFindbest (sizeofTable + (0x1000 - 48)) = some y := found
    rw [tableBin, search, Option.getD_some]
    split at atBin
    next none =>
      rw [if_pos none]
      rw [wrap32_of_lt (by omega)] at atBin
      omega
    next some =>
      rw [if_neg some]
      omega
  refine ⟨bin, ?_⟩
  rw [tableEnd, if_neg wf.heapEnd_pos.ne', bin]
  rcases place with ⟨free, -⟩ | ⟨atEnd, pages, -⟩
  · obtain ⟨m, wasBin⟩ := wf.skip.bin x free
    have same := (extends'.bins x _ wasBin).symm.trans isBin
    obtain ⟨-, size, -, -⟩ := wf.bin x _ (same ▸ wasBin)
    have below := wf.below wasBin
    rw [if_neg (by omega)]
    omega
  · have three : bigPages (need sizeofTable true) = 3 := by decide
    rw [if_pos atEnd]
    omega

theorem nextTable_slots {base : Nat} {L : Layout} (wf : WellFormed k.heap base L)
    (returned : k.kmallocAlignedPhysical sizeofTable = some (table, phys, k₁)) :
    NextTable k table k₁ := by
  obtain ⟨h', served, within, rfl⟩ := kmallocAlignedPhysical_eq_some returned
  obtain ⟨x, n, L', rfl, allocated, extends', isBin, -, page, large, above, place⟩ :=
    kmallocAligned_bin (Or.inl rfl) wf served within
  obtain ⟨bin, stop⟩ := tableBin_eq wf extends' isBin allocated place
  have tableSize : sizeofTable = 0x1000 := rfl
  have booted := wf.heapEnd_pos.ne'
  obtain ⟨-, header, -, -⟩ := extends'.wf.bin x _ isBin
  have block : ∀ a, InBlock h' sizeofTable (x + 0x1000) a ↔
      Inside (x + 48) (h'.sizeOf x) a := by
    intro a
    rw [InBlock, if_neg extends'.wf.heapEnd_pos.ne', Nat.add_sub_cancel]
  exact
    { start := by rw [tableStart, if_neg booted, bin]
      mode := iff_of_false extends'.wf.heapEnd_pos.ne' booted
      inside := fun a start below => (block a).mpr ⟨by omega, by omega⟩
      outside := by
        intro a behind inBlock
        have before := ((block a).mp inBlock).2
        omega
      room := by omega
      blank := by
        rw [stop]
        rcases place with ⟨free, -⟩ | ⟨atEnd, -, heapEnd⟩
        · obtain ⟨m, wasBin⟩ := wf.skip.bin x free
          have same := (extends'.bins x _ wasBin).symm.trans isBin
          have found : k.heap.klmallocSkipListFindbest (need sizeofTable true) = some x := by
            obtain ⟨y, found, atBin⟩ := wf.klmallocBig_place allocated
            have below := wf.below wasBin
            have oldEnd := wf.endLe
            split at atBin
            next none =>
              rw [wrap32_of_lt (by omega)] at atBin
              omega
            next some =>
              rw [found, show y = x by omega]
          have nonzero : x ≠ 0 := by
            have positive := (wf.skipPages free).2.1
            omega
          exact overrun_blank_iff wf extends' found nonzero allocated (same ▸ wasBin)
        · refine forall₃_congr fun a behind _ => ?_
          have kept : h'.mem a = k.heap.mem a := above a (by omega)
          exact Eq.congr_left kept }

/-- Memory in use behind the block has a header in front of it that is not blank. -/
theorem Ordered.not_overrun {own : Nat → Prop} (ordered : Ordered k.heap own)
    (returned : k.kmallocAlignedPhysical sizeofTable = some (table, phys, k₁))
    (blank : ∀ a, tableEnd k.heap ≤ a → a < table + sizeofDirectory → ¬ own a → k₁.mem a = 0)
    {a : Nat} (behind : tableEnd k.heap ≤ a) (reached : a < table + sizeofDirectory) :
    ¬ own a := by
  intro isOwn
  cases ordered with
  | bump fresh low below =>
      have stop : tableEnd k.heap = nextBlock k.heap + sizeofTable := if_pos fresh
      have block : nextBlock k.heap = k.heap.placementPointer / 0x1000 * 0x1000 + 0x1000 := rfl
      have before := below a isOwn
      omega
  | slots wf held =>
      obtain ⟨h', served, within, rfl⟩ := kmallocAlignedPhysical_eq_some returned
      obtain ⟨x, n, L', rfl, allocated, extends', isBin, -, page, large, -, place⟩ :=
        kmallocAligned_bin (Or.inl rfl) wf served within
      obtain ⟨-, stop⟩ := tableBin_eq wf extends' isBin allocated place
      have size : sizeofDirectory = 8196 := rfl
      have tableSize : sizeofTable = 0x1000 := rfl
      have aboveBase := (extends'.wf.placed.range x _ isBin).1
      rcases held a isOwn with underneath | ⟨lo, hi, slot, inside⟩
      · omega
      · obtain ⟨y, l, isBinY, -, above, near, -, inBin⟩ := wf.slot_bin slot
        have pageY := wf.page isBinY
        have header := l.header_ge
        have pages := (wf.placed.range y _ isBinY).2.1
        have isBinY' := extends'.bins y _ isBinY
        have yBehind : tableEnd k.heap ≤ y := by
          by_cases same : y = x
          · rw [same, isBin] at isBinY'
            obtain rfl := Option.some.inj isBinY'
            rw [Bin.pages_big] at inBin
            omega
          · have apart := extends'.wf.placed.apart y x _ _ isBinY' isBin same
            rw [Bin.pages_big] at apart
            omega
        have zero : h'.magicOf y = 0 := by
          refine Memory.read32_zero fun o inWord => blank _ (by omega) (by omega) fun isOwn' => ?_
          rcases held _ isOwn' with underneath | ⟨lo', hi', slot', inside'⟩
          · omega
          · have apart := wf.slot_header slot' isBinY
            omega
        have magic : h'.magicOf y = binMagic := by
          cases l with
          | small b => exact (extends'.wf.bin y _ isBinY').1
          | big m => exact (extends'.wf.bin y _ isBinY').1
        rw [zero] at magic
        exact absurd magic (by decide)

theorem IsTable.nextTable {src : Nat} (isTable : IsTable k src)
    (returned : k.kmallocAlignedPhysical sizeofTable = some (table, phys, k₁)) :
    NextTable k table k₁ := by
  obtain ⟨-, ⟨fresh, below, room⟩ | ⟨base, L, wf, -⟩⟩ := isTable
  · have block : nextBlock k.heap = k.heap.placementPointer / 0x1000 * 0x1000 + 0x1000 := rfl
    have size : sizeofTable = 0x1000 := rfl
    exact nextTable_bump fresh (by omega) (by omega) returned
  · exact nextTable_slots wf returned

/-- A table that `memset` can clear is one that the allocator returns. -/
theorem IsTable.hasBlock {src : Nat} (isTable : IsTable k src)
    (mapped : k.heap.heapEnd ≠ 0 → tableStart k.heap + sizeofDirectory ≤ kheapEnd) :
    ∃ table phys k₁, k.kmallocAlignedPhysical sizeofTable = some (table, phys, k₁) := by
  have size : sizeofDirectory = 8196 := rfl
  have tableSize : sizeofTable = 0x1000 := rfl
  obtain ⟨-, ⟨fresh, below, room⟩ | ⟨base, L, wf, -⟩⟩ := isTable
  · have block : nextBlock k.heap = k.heap.placementPointer / 0x1000 * 0x1000 + 0x1000 := rfl
    exact ⟨_, _, _, kmallocAlignedPhysical_bump fresh (by omega) sizeofTable (by omega)⟩
  · have booted := wf.heapEnd_pos.ne'
    have clears := mapped booted
    rw [tableStart, if_neg booted] at clears
    have big : klmallocBinSize (need sizeofTable true) = 10 := by decide
    have pages : bigPages (need sizeofTable true) = 3 := by decide
    have ordered : Ordered k.heap fun _ => False := .slots wf fun _ isLive => isLive.elim
    refine ordered.allocates (fun fresh => absurd fresh booted) (Or.inr (Or.inr ⟨big, ?_⟩))
    obtain ⟨y, found, head⟩ := wf.findbest (need sizeofTable true)
    have search : k.heap.klmallocSkipListFindbest (sizeofTable + (0x1000 - 48)) = some y := found
    rw [tableBin, search, Option.getD_some] at clears
    by_cases none : y = 0
    · rw [if_pos none] at clears
      exact Or.inr (by omega)
    · rw [nodeAt_pos (by omega)] at head
      obtain ⟨free, large⟩ := List.mem_filter.mp (List.mem_of_head? head.symm)
      simp only [Bool.not_eq_true', decide_eq_false_iff_not, Nat.not_lt] at large
      exact Or.inl ⟨y, wf.freeBlock_iff.mpr free, large⟩

end NextTable

/-! ### One call of `clone_table` -/

/-- What `clone_table` is called with: a table of the source, and enough free frames, none of
them where the kernel has that table or where `memset` clears. -/
structure TableCall (k : Kernel) (src : Nat) : Prop where
  table : IsTable k src
  frames : k.frames.scanned ≤ 2 ^ 20
  source : ∀ f, f < k.frames.scanned → k.frames.used f = false → Misses f src
  off : (k.heap.heapEnd ≠ 0 → tableStart k.heap + sizeofDirectory ≤ kheapEnd) →
    ∀ f a, f < k.frames.scanned → k.frames.used f = false →
      Inside (tableStart k.heap) sizeofDirectory a → ¬ Inside (f * 0x1000) 0x1000 a
  enough : Nat.count (HoldsFrame k.mem src) 1024 ≤ k.frames.freeCount

/-- `m` is memory after `memset` has cleared `sizeof(page_directory_t)` bytes. -/
structure Cleared (k₁ : Kernel) (table : Nat) (m : Memory) : Prop where
  inside : ∀ a, Inside table sizeofDirectory a → m a = 0
  outside : ∀ a, ¬ Inside table sizeofDirectory a → m a = k₁.mem a

/-- The call returned: the block was allocated and cleared, and the loop ran. -/
structure TableCloned (k : Kernel) (src table : Nat) (k₁ k' : Kernel) : Prop where
  next : NextTable k table k₁
  new : NewTable k src table k₁
  loop : ∃ m, Cleared k₁ table m ∧ Cloned (k₁.withMem m) src table 1024 k'

section TableCall

variable {k k₁ k' : Kernel} {src table phys : Nat} {undef : Nat → BitVec 32}

theorem cleared_memset (new : NewTable k src table k₁) :
    Cleared k₁ table (memset k₁.mem table 0 sizeofDirectory) := by
  have size : sizeofDirectory = 8196 := rfl
  have fits := new.fits
  rw [memset_eq_fill _ _ (by omega)]
  refine ⟨fun a inside => Memory.fill_inside _ _ inside, fun a outside => ?_⟩
  unfold Inside at outside
  exact Memory.fill_outside _ _ (by omega)

theorem TableCall.runs (call : TableCall k src)
    (mapped : k.heap.heapEnd ≠ 0 → tableStart k.heap + sizeofDirectory ≤ kheapEnd)
    (undef : Nat → BitVec 32) :
    ∃ table phys k₁ k', k.kmallocAlignedPhysical sizeofTable = some (table, phys, k₁) ∧
      k.cloneTable src undef = some (table, phys, k') ∧ TableCloned k src table k₁ k' := by
  have size : sizeofDirectory = 8196 := rfl
  obtain ⟨table, phys, k₁, allocated⟩ := call.table.hasBlock mapped
  have new := call.table.newTable allocated
  have next := call.table.nextTable allocated
  have offTable : ∀ f, f < k.frames.scanned → k.frames.used f = false → Misses f table := by
    intro f inMap free
    unfold Misses
    by_contra meets
    refine call.off mapped f (max table (f * 0x1000)) inMap free ?_ ?_
    · rw [← next.start]
      exact ⟨by omega, by omega⟩
    · exact ⟨by omega, by omega⟩
  have cleared : k₁.clearDirectory table =
      some (k₁.withMem (memset k₁.mem table 0 sizeofDirectory)) := by
    rw [Kernel.clearDirectory, if_neg]
    rintro ⟨booted, past⟩
    rw [next.start] at past
    exact absurd (mapped (next.mode.not.mp booted)) (Nat.not_le.mpr past)
  obtain ⟨k', ran, cloned⟩ := (new.ready call.frames
    (fun f inMap free => ⟨call.source f inMap free, offTable f inMap free⟩) call.enough).loop undef
  exact ⟨table, phys, k₁, k', allocated, Option.bind_eq_some_iff.mpr ⟨_, allocated,
    Option.bind_eq_some_iff.mpr ⟨_, cleared, Option.map_eq_some_iff.mpr ⟨k', ran, rfl⟩⟩⟩,
    next, new, _, cleared_memset new, cloned⟩

/-- A call that returns has not faulted. -/
theorem TableCall.mapped (call : TableCall k src)
    (returned : k.cloneTable src undef = some (table, phys, k')) :
    k.heap.heapEnd ≠ 0 → tableStart k.heap + sizeofDirectory ≤ kheapEnd := by
  intro booted
  by_contra past
  rw [Kernel.cloneTable, Option.bind_eq_some_iff] at returned
  obtain ⟨⟨table', phys', k₁⟩, allocated, rest⟩ := returned
  have next := call.table.nextTable allocated
  have faults : k₁.clearDirectory table' = none := by
    rw [Kernel.clearDirectory, if_pos]
    exact ⟨next.mode.not.mpr booted, Nat.not_le.mp (next.start ▸ past)⟩
  simp only [faults, Option.bind_none] at rest
  contradiction

theorem TableCall.done (call : TableCall k src)
    (returned : k.cloneTable src undef = some (table, phys, k')) :
    ∃ k₁, k.kmallocAlignedPhysical sizeofTable = some (table, phys, k₁) ∧
      TableCloned k src table k₁ k' := by
  obtain ⟨table', phys', k₁, k'', allocated, returned', done⟩ :=
    call.runs (call.mapped returned) undef
  obtain ⟨rfl, rfl, rfl⟩ : table' = table ∧ phys' = phys ∧ k'' = k' := by
    simpa only [Option.some.injEq, Prod.mk.injEq] using returned'.symm.trans returned
  exact ⟨k₁, allocated, done⟩

/-- Off its table and its frames, the call leaves what `memset` left. -/
theorem TableCloned.outside (done : TableCloned k src table k₁ k') :
    ∃ m, Cleared k₁ table m ∧
      ∀ a, ¬ Inside table sizeofTable a → ¬ InNewFrame k k' a → k'.mem a = m a := by
  obtain ⟨m, cleared, cloned⟩ := done.loop
  refine ⟨m, cleared, fun a offTable offFrames => ?_⟩
  have size : sizeofTable = 0x1000 := rfl
  have frames := done.new.frames
  unfold Inside at offTable
  refine cloned.outside a (by omega) fun f inMap free taken => ?_
  rw [Kernel.frames_withMem, frames] at inMap free
  by_contra hit
  exact offFrames ⟨f, inMap, free, taken, by omega, by omega⟩

/-- The call changes something else exactly when `memset` clears a byte behind the block. -/
theorem TableCloned.writesOwn_iff {own : Nat → Prop} (done : TableCloned k src table k₁ k')
    (call : TableCall k src) (ordered : Ordered k.heap own)
    (allocated : k.kmallocAlignedPhysical sizeofTable = some (table, phys, k₁))
    (mapped : k.heap.heapEnd ≠ 0 → tableStart k.heap + sizeofDirectory ≤ kheapEnd) :
    (∀ a, ¬ own a → ¬ InBlock k₁.heap sizeofTable table a → ¬ InNewFrame k k' a →
        k'.mem a = k₁.mem a) ↔
      ∀ a, tableEnd k.heap ≤ a → a < tableStart k.heap + sizeofDirectory → k.mem a = 0 := by
  have start := done.next.start
  have room := done.next.room
  obtain ⟨m, cleared, outside⟩ := done.outside
  rw [← start, ← done.next.blank]
  constructor
  · intro same
    have blank : ∀ a, tableEnd k.heap ≤ a → a < table + sizeofDirectory → ¬ own a →
        k₁.mem a = 0 := by
      intro a behind reached notOwn
      have inside : Inside table sizeofDirectory a := ⟨by omega, reached⟩
      have offFrames : ¬ InNewFrame k k' a := by
        rintro ⟨f, inMap, free, -, inFrame⟩
        exact call.off mapped f a inMap free (start ▸ inside) inFrame
      have offTable : ¬ Inside table sizeofTable a := fun inTable => absurd inTable.2 (by omega)
      rw [← same a notOwn (done.next.outside a behind) offFrames, outside a offTable offFrames]
      exact cleared.inside a inside
    exact fun a behind reached =>
      blank a behind reached (ordered.not_overrun allocated blank behind reached)
  · intro blank a _ offBlock offFrames
    have offTable : ¬ Inside table sizeofTable a :=
      fun inTable => offBlock (done.next.inside a inTable.1 (by have := inTable.2; omega))
    rw [outside a offTable offFrames]
    by_cases inside : Inside table sizeofDirectory a
    · have behind : tableEnd k.heap ≤ a := by
        by_contra before
        exact offBlock (done.next.inside a inside.1 (by omega))
      rw [cleared.inside a inside, blank a behind inside.2]
    · exact cleared.outside a inside

/-- `clone_table` writes its own memory exactly when the bytes that `memset` clears behind
the block are blank; whatever memory in use is its own makes no difference. -/
theorem TableCall.writesOwn_iff {own : Nat → Prop} (call : TableCall k src)
    (ordered : Ordered k.heap own) (undef : Nat → BitVec 32) :
    TableWritesOwn own undef k src ↔ OverrunBlank k := by
  by_cases mapped : k.heap.heapEnd ≠ 0 → tableStart k.heap + sizeofDirectory ≤ kheapEnd
  · obtain ⟨table, phys, k₁, k', allocated, returned, done⟩ := call.runs mapped undef
    have here := done.writesOwn_iff call ordered allocated mapped
    constructor
    · intro same _
      exact here.mp (same table phys k₁ k' allocated returned)
    · rintro blank table' phys' k₂ k'' allocated' returned'
      obtain ⟨rfl, rfl, rfl⟩ : table' = table ∧ phys' = phys ∧ k₂ = k₁ := by
        simpa only [Option.some.injEq, Prod.mk.injEq] using allocated'.symm.trans allocated
      obtain ⟨-, -, rfl⟩ : _ ∧ _ ∧ k'' = k' := by
        simpa only [Option.some.injEq, Prod.mk.injEq] using returned'.symm.trans returned
      exact here.mpr (blank mapped)
  · refine iff_of_true ?_ fun always => absurd always mapped
    intro table phys k₁ k' _ returned
    exact absurd (call.mapped returned) mapped

end TableCall

end Balloon.Paging
