import Balloon.Paging.Boot
import Balloon.Paging.Clone

/-!
Owns the blocks that tables and directories are put into, before and after `init_heap`
alike: a block is new, memory in use keeps its bytes, and the `memset` of
`sizeof(page_directory_t)` bytes hits nothing in use. That needs that `klmalloc` does not
serve a table from a free block of two or three pages, which the `memset` overruns.
-/

namespace Balloon.Paging

open Balloon.Foundation
open Balloon.Libc
open Balloon.Allocator
open Balloon.Frames

/-- No free block has two or three pages: one that serves a table has room for the
`memset` of a directory. -/
def NoTightBlock (L : Layout) : Prop :=
  ∀ x n, x ∈ L.level 0 → L.bins x = some (.big n) → n < 2 ∨ 4 ≤ n

/-- Where the memory that `kmalloc_raw` has handed out ends. -/
def topOf (h : Heap) : Nat := max h.placementPointer h.heapEnd

/-- The allocator is in order and will not touch the addresses that are `live`. -/
inductive Arena (h : Heap) (live : Nat → Prop) : Prop where
  | bump (fresh : h.heapEnd = 0) (low : 0x1000 ≤ h.placementPointer)
      (below : ∀ a, live a → a < h.placementPointer)
  | slots {base : Nat} {L : Layout} (wf : WellFormed h base L) (noTight : NoTightBlock L)
      (held : ∀ a, live a → a < base ∨ ∃ lo hi, L.Slot lo hi ∧ lo ≤ a ∧ a < hi)

/-- The kernel `k₁` after a block of `size` bytes at `p` was allocated. The `memset` of a directory
reaches no byte that is live, and what it reaches behind the block is not handed out. -/
structure PlacedBlock (k : Kernel) (live : Nat → Prop) (size p : Nat) (k₁ : Kernel) : Prop where
  page : p % 0x1000 = 0
  positive : 0x1000 ≤ p
  low : k.heap.placementPointer ≤ p
  high : p + sizeofDirectory ≤ topOf k.heap + 0x4000
  top : topOf k₁.heap ≤ topOf k.heap + 0x2000 + size
  fits : p + size ≤ topOf k₁.heap
  small : p + size < 2 ^ 32
  mode : k₁.heap.heapEnd = 0 ↔ k.heap.heapEnd = 0
  statics : k.heap.heapEnd = 0 → k₁.heap =
    { k.heap with placementPointer := k₁.heap.placementPointer }
  placement : k.heap.placementPointer ≤ k₁.heap.placementPointer
  frames : k₁.frames = k.frames
  directory : k₁.kernelDirectory = k.kernelDirectory
  apart : ∀ a, live a → a < p ∨ p + sizeofDirectory ≤ a
  kept : ∀ a, live a → k₁.mem a = k.mem a
  outside : ∀ a, a < k.heap.placementPointer ∨ topOf k.heap + 0x4000 ≤ a → k₁.mem a = k.mem a
  arena : Arena k₁.heap fun a =>
    live a ∨ p ≤ a ∧ a < p + sizeofDirectory ∧ a < topOf k₁.heap

/-- The kernel `k₁` after a block of `size` bytes at `p` was allocated and cleared. -/
structure BlankBlock (k : Kernel) (live : Nat → Prop) (size p : Nat) (k₁ : Kernel) : Prop where
  page : p % 0x1000 = 0
  positive : 0x1000 ≤ p
  low : k.heap.placementPointer ≤ p
  high : p + sizeofDirectory ≤ topOf k.heap + 0x4000
  top : topOf k₁.heap ≤ topOf k.heap + 0x2000 + size
  placement : k.heap.placementPointer ≤ k₁.heap.placementPointer
  frames : k₁.frames = k.frames
  directory : k₁.kernelDirectory = k.kernelDirectory
  apart : ∀ a, live a → a < p ∨ p + sizeofDirectory ≤ a
  kept : ∀ a, live a → k₁.mem a = k.mem a
  outside : ∀ a, a < k.heap.placementPointer ∨ topOf k.heap + 0x4000 ≤ a → k₁.mem a = k.mem a
  blank : ∀ a, p ≤ a → a < p + sizeofDirectory → k₁.mem a = 0
  arena : Arena k₁.heap fun a => live a ∨ p ≤ a ∧ a < p + size

section

variable {h : Heap} {live : Nat → Prop}

theorem topOf_fresh (fresh : h.heapEnd = 0) : topOf h = h.placementPointer := by
  rw [topOf, fresh, Nat.max_zero]

/-- Writes to live memory, below the allocator's memory or above it are harmless. -/
theorem Arena.write (arena : Arena h live) {m : Memory}
    (bytes : ∀ a, live a ∨ a < h.placementPointer ∨ topOf h ≤ a ∨ m a = h.mem a) :
    Arena { h with mem := m } live := by
  cases arena with
  | bump fresh low below => exact .bump fresh low below
  | slots wf noTight held =>
      refine .slots (wf.writeSlots fun a above below outside => ?_) noTight held
      have placement := wf.placementLt
      have top : h.heapEnd ≤ topOf h := Nat.le_max_right _ _
      rcases bytes a with isLive | low | high | same
      · rcases held a isLive with underneath | ⟨lo, hi, slot, inside⟩
        · omega
        · have apart := outside lo hi slot
          omega
      · omega
      · omega
      · exact same

theorem Arena.mono (arena : Arena h live) {fewer : Nat → Prop} (weaker : ∀ a, fewer a → live a) :
    Arena h fewer := by
  cases arena with
  | bump fresh low below => exact .bump fresh low fun a isLive => below a (weaker a isLive)
  | slots wf noTight held => exact .slots wf noTight fun a isLive => held a (weaker a isLive)

/-- Before `init_heap` everything that is live lies below `placement_pointer`. -/
theorem Arena.below (arena : Arena h live) (fresh : h.heapEnd = 0) {a : Nat} (isLive : live a) :
    a < h.placementPointer := by
  cases arena with
  | bump _ _ below => exact below a isLive
  | slots wf _ _ => exact absurd fresh wf.heapEnd_pos.ne'

theorem Arena.low (arena : Arena h live) (fresh : h.heapEnd = 0) :
    0x1000 ≤ h.placementPointer := by
  cases arena with
  | bump _ low _ => exact low
  | slots wf _ _ => exact absurd fresh wf.heapEnd_pos.ne'

end

section BlankBlock

variable {k : Kernel} {live : Nat → Prop}

/-- A table or a directory. -/
def IsSize (size : Nat) : Prop := size = sizeofTable ∨ size = sizeofDirectory

theorem IsSize.bounds {size : Nat} (isSize : IsSize size) :
    0x1000 ≤ size ∧ size ≤ sizeofDirectory := by
  rcases isSize with rfl | rfl <;> decide

theorem kmallocAlignedPhysical_eq_some {k₁ : Kernel} {size p phys : Nat}
    (returned : k.kmallocAlignedPhysical size = some (p, phys, k₁)) :
    ∃ h, k.heap.kmallocAligned size = some (p, h) ∧ h.heapEnd ≤ kheapEnd ∧
      k₁ = { k with heap := h } := by
  obtain ⟨⟨p', h⟩, filtered, result⟩ := Option.map_eq_some_iff.mp returned
  obtain ⟨served, within⟩ := Option.filter_eq_some_iff.mp filtered
  obtain ⟨rfl, -, rfl⟩ := by simpa only [Prod.mk.injEq] using result
  exact ⟨h, served, of_decide_eq_true within, rfl⟩

/-- Clearing the block. -/
theorem clear_spec (k₁ : Kernel) {p : Nat} (fits : p + sizeofDirectory ≤ kheapEnd) :
    ∃ m, k₁.clearDirectory p = some (k₁.withMem m) ∧
      (∀ a, a < p ∨ p + sizeofDirectory ≤ a → m a = k₁.mem a) ∧
      ∀ a, p ≤ a → a < p + sizeofDirectory → m a = 0 := by
  have limit : kheapEnd = 0x02000000 := rfl
  refine ⟨memset k₁.mem p 0 sizeofDirectory, ?_, ?_, ?_⟩
  · rw [Kernel.clearDirectory, if_neg]
    exact fun past => absurd fits (Nat.not_le.mpr past.2)
  · intro a outside
    rw [memset_eq_fill _ _ (by omega)]
    exact Memory.fill_outside _ _ outside
  · intro a above below
    rw [memset_eq_fill _ _ (by omega)]
    exact Memory.fill_inside _ _ ⟨above, below⟩

/-- The requests are big, and the heap grows by three or four pages for them. -/
theorem IsSize.need {size : Nat} (isSize : IsSize size) :
    klmallocBinSize (need size true) = 10 ∧ need size true = size + 4048 ∧
      0x1000 * bigPages (need size true) ≤ 0x2000 + size := by
  rcases isSize with rfl | rfl <;> decide

/-- A table or a directory is a big request, and `klvalloc` returns the page behind its header. -/
theorem kmallocAligned_big {h : Heap} {size : Nat} (isSize : IsSize size) (booted : h.heapEnd ≠ 0) :
    h.kmallocAligned size = (h.klmallocBig (need size true)).map fun result =>
      (wrap32 (result.1 + (0x1000 - 48)), result.2) := by
  have clearSize : sizeofDirectory = 8196 := rfl
  have sizeBounds := isSize.bounds
  obtain ⟨big, asked, -⟩ := isSize.need
  have unfolded : h.kmallocAligned size = (h.klmalloc (wrap32 (need size true))).map
      fun result => (wrap32 (result.1 + (0x1000 - 48)), result.2) := by
    rw [Heap.kmallocAligned, Heap.kmallocRaw, if_pos booted, if_pos rfl]
    rfl
  rw [unfolded, wrap32_of_lt (by omega), Heap.klmalloc, if_neg (by omega), if_neg (by omega)]

/-- In the heap a table or a directory starts one page behind the header of its bin, which was
free or is new. -/
theorem kmallocAligned_served {h h' : Heap} {base p size : Nat} {L : Layout}
    (isSize : IsSize size) (wf : WellFormed h base L)
    (served : h.kmallocAligned size = some (p, h')) (within : h'.heapEnd ≤ kheapEnd) :
    ∃ x n L', p = x + 0x1000 ∧ h.klmallocBig (need size true) = some (x + 48, h') ∧
      Extends h base L h' L' ∧ L'.bins x = some (.big n) ∧ x ∉ L'.level 0 ∧ x % 0x1000 = 0 ∧
      size + 0x1000 ≤ 0x1000 * n ∧ (∀ a, h'.heapEnd ≤ a → h'.mem a = h.mem a) ∧
      ((x ∈ L.level 0 ∧ L' = L.takeBlock x ∧ h'.heapEnd = h.heapEnd) ∨
        (x = h.heapEnd ∧ n = bigPages (need size true) ∧ L' = L.addBig x n ∧
          h'.heapEnd = h.heapEnd + 0x1000 * n)) := by
  have limit : kheapEnd = 0x02000000 := rfl
  have clearSize : sizeofDirectory = 8196 := rfl
  have sizeBounds := isSize.bounds
  obtain ⟨big, asked, -⟩ := isSize.need
  have fits : h.Fits (need size true) := by
    have asks : 0 < need size true := Nat.succ_pos _
    obtain ⟨result, isResult, fits⟩ := wf.fits_of_within asks (by omega)
    obtain rfl := Option.some.inj (isResult.symm.trans served)
    exact fits within
  have room := (fits.resolve_left fun small => absurd big small.1.ne).2
  obtain ⟨x, n, h'', L', allocated, extends', isBin, taken, large, above, place⟩ :=
    wf.klmallocBig room
  have page := extends'.wf.page isBin
  have range := extends'.wf.range isBin
  have endLe := extends'.wf.endLe
  rw [kmallocAligned_big isSize wf.heapEnd_pos.ne', allocated, Option.map_some,
    wrap32_of_lt (by omega)] at served
  obtain ⟨rfl, rfl⟩ := Prod.mk.inj (Option.some.inj served)
  exact ⟨x, n, L', by omega, allocated, extends', isBin, taken, page, by omega, above, place⟩

theorem kmallocAligned_bin {h h' : Heap} {base p size : Nat} {L : Layout}
    (isSize : IsSize size) (wf : WellFormed h base L)
    (served : h.kmallocAligned size = some (p, h')) (within : h'.heapEnd ≤ kheapEnd) :
    ∃ x n L', p = x + 0x1000 ∧ h.klmallocBig (need size true) = some (x + 48, h') ∧
      Extends h base L h' L' ∧ L'.bins x = some (.big n) ∧ x ∉ L'.level 0 ∧ x % 0x1000 = 0 ∧
      size + 0x1000 ≤ 0x1000 * n ∧ (∀ a, h'.heapEnd ≤ a → h'.mem a = h.mem a) ∧
      ((x ∈ L.level 0 ∧ h'.heapEnd = h.heapEnd) ∨
        (x = h.heapEnd ∧ n = bigPages (need size true) ∧
          h'.heapEnd = h.heapEnd + 0x1000 * n)) := by
  obtain ⟨x, n, L', start, allocated, extends', isBin, taken, page, large, above, place⟩ :=
    kmallocAligned_served isSize wf served within
  refine ⟨x, n, L', start, allocated, extends', isBin, taken, page, large, above, ?_⟩
  rcases place with ⟨free, -, heapEnd⟩ | ⟨atEnd, pages, -, heapEnd⟩
  · exact Or.inl ⟨free, heapEnd⟩
  · exact Or.inr ⟨atEnd, pages, heapEnd⟩

/-- In the heap the block is behind the header page of a free block, or of a new one. -/
theorem kmallocAligned_slots {h : Heap} {base : Nat} {L : Layout} {size : Nat}
    (isSize : IsSize size) (wf : WellFormed h base L) (room : topOf h + 0x5000 ≤ kheapEnd) :
    ∃ x n h' L', h.kmallocAligned size = some (x + 0x1000, h') ∧ Extends h base L h' L' ∧
      L'.Slot (x + 48) (x + 0x1000 * n) ∧ x % 0x1000 = 0 ∧ size + 0x1000 ≤ 0x1000 * n ∧
      (∀ a, h'.heapEnd ≤ a → h'.mem a = h.mem a) ∧
      ((x ∈ L.level 0 ∧ L.bins x = some (.big n) ∧ L' = L.takeBlock x ∧ h'.heapEnd = h.heapEnd) ∨
        (x = h.heapEnd ∧ L' = L.addBig x n ∧ h'.heapEnd = h.heapEnd + 0x1000 * n ∧
          0x1000 * n ≤ 0x2000 + size)) := by
  have limit : kheapEnd = 0x02000000 := rfl
  have clearSize : sizeofDirectory = 8196 := rfl
  have sizeBounds := isSize.bounds
  obtain ⟨big, asked, grows⟩ := isSize.need
  have top : h.heapEnd ≤ topOf h := Nat.le_max_right _ _
  have booted : h.heapEnd ≠ 0 := wf.heapEnd_pos.ne'
  have grown : h.heapEnd + 0x1000 * bigPages (need size true) ≤ kheapEnd := by omega
  obtain ⟨x, n, h', L', served, extends', isBin, taken, large, above, place⟩ :=
    wf.klmallocBig (Or.inr grown)
  have slot : L'.Slot (x + 48) (x + 0x1000 * n) := ⟨x, .big n, isBin, taken, rfl, rfl⟩
  have range := extends'.wf.slot_range slot
  have endLe := extends'.wf.endLe
  refine ⟨x, n, h', L', ?_, extends', slot, extends'.wf.page isBin, by omega, above, ?_⟩
  · rw [kmallocAligned_big isSize booted, served, Option.map_some, wrap32_of_lt (by omega)]
  · rcases place with ⟨free, layout, heapEnd⟩ | ⟨atEnd, pages, layout, heapEnd⟩
    · obtain ⟨m, wasBin⟩ := wf.skip.bin x free
      have same := (extends'.bins x _ wasBin).symm.trans isBin
      exact Or.inl ⟨free, same ▸ wasBin, layout, heapEnd⟩
    · exact Or.inr ⟨atEnd, layout, heapEnd, pages ▸ grows⟩

theorem NoTightBlock.takeBlock {L : Layout} (noTight : NoTightBlock L)
    (nodup : (L.level 0).Nodup) (x : Nat) : NoTightBlock (L.takeBlock x) :=
  fun y n free isBin => noTight y n ((mem_takeBlock nodup).mp free).2 isBin

theorem NoTightBlock.addBig {h : Heap} {base : Nat} {L : Layout} (noTight : NoTightBlock L)
    (wf : WellFormed h base L) (n : Nat) : NoTightBlock (L.addBig h.heapEnd n) := by
  intro y m free isBin
  have different : y ≠ h.heapEnd := by
    rintro rfl
    obtain ⟨l, isBig⟩ := wf.skip.bin _ free
    rw [wf.bins_heapEnd] at isBig
    contradiction
  exact noTight y m free ((Function.update_of_ne different _ _).symm.trans isBin)

/-- Before `init_heap` the block is cut off behind everything handed out. -/
theorem placedBlock_bump {size p phys : Nat} {k₁ : Kernel} (isSize : IsSize size)
    (fresh : k.heap.heapEnd = 0) (low : 0x1000 ≤ k.heap.placementPointer)
    (below : ∀ a, live a → a < k.heap.placementPointer) (space : nextBlock k.heap + size < 2 ^ 32)
    (returned : k.kmallocAlignedPhysical size = some (p, phys, k₁)) :
    PlacedBlock k live size p k₁ := by
  have clearSize : sizeofDirectory = 8196 := rfl
  have sizeBounds := isSize.bounds
  have block : nextBlock k.heap = k.heap.placementPointer / 0x1000 * 0x1000 + 0x1000 := rfl
  have top := topOf_fresh fresh
  rw [kmallocAlignedPhysical_bump fresh low size space] at returned
  obtain ⟨rfl, -, rfl⟩ := by simpa only [Option.some.injEq, Prod.mk.injEq] using returned
  have topNew : topOf { k.heap with placementPointer := nextBlock k.heap + size } =
      nextBlock k.heap + size := topOf_fresh fresh
  exact
    { page := by omega
      positive := by omega
      low := by omega
      high := by omega
      top := by
        rw [topNew]
        omega
      fits := topNew.ge
      small := space
      mode := Iff.rfl
      statics := fun _ => rfl
      placement := show _ ≤ nextBlock k.heap + size by omega
      frames := rfl
      directory := rfl
      apart := fun a isLive => Or.inl (by have := below a isLive; omega)
      kept := fun _ _ => rfl
      outside := fun _ _ => rfl
      arena := by
        refine .bump fresh (show 0x1000 ≤ nextBlock k.heap + size by omega) fun a isLive => ?_
        change a < nextBlock k.heap + size
        rcases isLive with old | ⟨-, -, new⟩
        · have := below a old
          omega
        · rwa [topNew] at new }

/-- In the heap the block is behind the header page of a free block, or of a new one. -/
theorem placedBlock_slots {size base p phys : Nat} {L : Layout} {k₁ : Kernel}
    (isSize : IsSize size) (wf : WellFormed k.heap base L) (noTight : NoTightBlock L)
    (held : ∀ a, live a → a < base ∨ ∃ lo hi, L.Slot lo hi ∧ lo ≤ a ∧ a < hi)
    (returned : k.kmallocAlignedPhysical size = some (p, phys, k₁)) :
    PlacedBlock k live size p k₁ := by
  have clearSize : sizeofDirectory = 8196 := rfl
  have sizeBounds := isSize.bounds
  have grows := isSize.need.2.2
  have top : k.heap.heapEnd ≤ topOf k.heap := Nat.le_max_right _ _
  obtain ⟨h', served, within, rfl⟩ := kmallocAlignedPhysical_eq_some returned
  obtain ⟨x, n, L', rfl, -, extends', isBin, taken, page, large, above, place⟩ :=
    kmallocAligned_served isSize wf served within
  have slot : L'.Slot (x + 48) (x + 0x1000 * n) := ⟨x, .big n, isBin, taken, rfl, rfl⟩
  have range := extends'.wf.slot_range slot
  have placement := wf.placementLt
  have basePage := wf.basePage
  have topNew : topOf h' = max k.heap.placementPointer h'.heapEnd := by
    rw [topOf, extends'.placement]
  have wasBin : x ∈ L.level 0 → L.bins x = some (.big n) := by
    intro free
    obtain ⟨m, wasBin⟩ := wf.skip.bin x free
    exact ((extends'.bins x _ wasBin).symm.trans isBin) ▸ wasBin
  -- A clear of the block stays in it, or leaves it where the heap ends.
  have reach : (x + 0x1000 + sizeofDirectory ≤ x + 0x1000 * n ∨ x + 0x1000 * n = h'.heapEnd) ∧
      x + 0x1000 + sizeofDirectory ≤ topOf k.heap + 0x4000 ∧
        h'.heapEnd ≤ topOf k.heap + 0x2000 + size := by
    rcases place with ⟨free, -, same⟩ | ⟨atEnd, rfl, -, heapEnd⟩
    · have pages := noTight x n free (wasBin free)
      exact ⟨Or.inl (by omega), by omega, by omega⟩
    · exact ⟨Or.inr (by omega), by omega, by omega⟩
  have apart : ∀ a, live a → a < x + 0x1000 ∨ x + 0x1000 + sizeofDirectory ≤ a := by
    intro a isLive
    rcases held a isLive with underneath | ⟨lo, hi, old, inside⟩
    · exact Or.inl (by omega)
    · rcases place with ⟨free, -, -⟩ | ⟨atEnd, -, -, -⟩
      · have pages := noTight x n free (wasBin free)
        have disjoint := wf.slot_freeBlock old (wasBin free) free
        omega
      · have below := wf.slot_range old
        omega
  have noTight' : NoTightBlock L' := by
    rcases place with ⟨-, layout, -⟩ | ⟨atEnd, -, layout, -⟩
    · rw [layout]
      exact noTight.takeBlock wf.skip.list.nodup x
    · rw [layout, atEnd]
      exact noTight.addBig wf n
  exact
    { page := by omega
      positive := by omega
      low := by omega
      high := by omega
      top := by
        change topOf h' ≤ _
        rw [topNew]
        exact Nat.max_le.mpr ⟨by unfold topOf; omega, by omega⟩
      fits := by
        change _ ≤ topOf h'
        rw [topNew]
        omega
      small := by
        have endLe := extends'.wf.endLe
        omega
      mode := iff_of_false extends'.wf.heapEnd_pos.ne' wf.heapEnd_pos.ne'
      statics := fun fresh => absurd fresh wf.heapEnd_pos.ne'
      placement := extends'.placement.ge
      frames := rfl
      directory := rfl
      apart := apart
      kept := fun a isLive => extends'.bytes a (held a isLive)
      outside := by
        intro a beside
        rcases beside with low | high
        · exact extends'.bytes a (Or.inl (by omega))
        · exact above a (by omega)
      arena := by
        refine .slots extends'.wf noTight' fun a isLive => ?_
        rcases isLive with old | ⟨start, stop, inTop⟩
        · rcases held a old with underneath | ⟨lo, hi, slot', inside⟩
          · exact Or.inl underneath
          · exact Or.inr ⟨lo, hi, extends'.slots lo hi slot', inside⟩
        · change a < topOf h' at inTop
          rw [topNew] at inTop
          exact Or.inr ⟨_, _, slot, by omega, by omega⟩ }

/-- A table or a directory gets a block of its own. -/
theorem Arena.placedBlock (arena : Arena k.heap live) {size p phys : Nat} {k₁ : Kernel}
    (isSize : IsSize size) (space : k.heap.heapEnd = 0 → nextBlock k.heap + size < 2 ^ 32)
    (returned : k.kmallocAlignedPhysical size = some (p, phys, k₁)) :
    PlacedBlock k live size p k₁ := by
  cases arena with
  | bump fresh low below => exact placedBlock_bump isSize fresh low below (space fresh) returned
  | slots wf noTight held => exact placedBlock_slots isSize wf noTight held returned

/-- The clear of a block changes nothing that is live. -/
theorem PlacedBlock.blankBlock {size p : Nat} {k₁ k₂ : Kernel} {m : Memory}
    (placed : PlacedBlock k live size p k₁) (isSize : IsSize size) (memory : k₂ = k₁.withMem m)
    (outside : ∀ a, a < p ∨ p + sizeofDirectory ≤ a → m a = k₁.mem a)
    (blank : ∀ a, p ≤ a → a < p + sizeofDirectory → m a = 0) : BlankBlock k live size p k₂ := by
  subst memory
  have sizeBounds := isSize.bounds
  have low := placed.low
  have high := placed.high
  exact
    { page := placed.page
      positive := placed.positive
      low := low
      high := high
      top := placed.top
      placement := placed.placement
      frames := placed.frames
      directory := placed.directory
      apart := placed.apart
      kept := fun a isLive => (outside a (placed.apart a isLive)).trans (placed.kept a isLive)
      outside := fun a beside => (outside a (by omega)).trans (placed.outside a beside)
      blank := blank
      arena := by
        refine (placed.arena.write (m := m) fun a => ?_).mono fun a isLive => ?_
        · by_cases inClear : p ≤ a ∧ a < p + sizeofDirectory
          · by_cases handed : a < topOf k₁.heap
            · exact Or.inl (Or.inr ⟨inClear.1, inClear.2, handed⟩)
            · exact Or.inr (Or.inr (Or.inl (Nat.not_lt.mp handed)))
          · exact Or.inr (Or.inr (Or.inr (outside a (by omega))))
        · have fits := placed.fits
          exact isLive.imp_right fun inBlock => ⟨inBlock.1, by omega, by omega⟩ }

/-- With room the allocator returns. -/
theorem Arena.allocates (arena : Arena k.heap live) {size : Nat} (isSize : IsSize size)
    (room : topOf k.heap + 0x5000 ≤ kheapEnd) :
    ∃ p phys k₁, k.kmallocAlignedPhysical size = some (p, phys, k₁) := by
  have limit : kheapEnd = 0x02000000 := rfl
  have clearSize : sizeofDirectory = 8196 := rfl
  have sizeBounds := isSize.bounds
  cases arena with
  | bump fresh low below =>
      have block : nextBlock k.heap = k.heap.placementPointer / 0x1000 * 0x1000 + 0x1000 := rfl
      have top : k.heap.placementPointer ≤ topOf k.heap := Nat.le_max_left _ _
      exact ⟨_, _, _, kmallocAlignedPhysical_bump fresh low size (by omega)⟩
  | slots wf noTight held =>
      have top : k.heap.heapEnd ≤ topOf k.heap := Nat.le_max_right _ _
      obtain ⟨x, n, h', L', served, -, -, -, -, -, place⟩ := kmallocAligned_slots isSize wf room
      have filtered : (k.heap.kmallocAligned size).filter
          (fun result => result.2.heapEnd ≤ kheapEnd) = some (x + 0x1000, h') :=
        Option.filter_eq_some_iff.mpr
          ⟨served, decide_eq_true (show h'.heapEnd ≤ kheapEnd by omega)⟩
      exact ⟨_, _, _, Option.map_eq_some_iff.mpr ⟨_, filtered, rfl⟩⟩

/-- A table or a directory gets a cleared block of its own. -/
theorem Arena.blankBlock (arena : Arena k.heap live) {size : Nat} (isSize : IsSize size)
    (room : topOf k.heap + 0x5000 ≤ kheapEnd) :
    ∃ p phys k₁ k₂, k.kmallocAlignedPhysical size = some (p, phys, k₁) ∧
      k₁.clearDirectory p = some k₂ ∧ BlankBlock k live size p k₂ := by
  have limit : kheapEnd = 0x02000000 := rfl
  have clearSize : sizeofDirectory = 8196 := rfl
  have sizeBounds := isSize.bounds
  have placement : k.heap.placementPointer ≤ topOf k.heap := Nat.le_max_left _ _
  have block : nextBlock k.heap = k.heap.placementPointer / 0x1000 * 0x1000 + 0x1000 := rfl
  obtain ⟨p, phys, k₁, allocated⟩ := arena.allocates isSize room
  have placed := arena.placedBlock isSize (fun _ => by omega) allocated
  have high := placed.high
  obtain ⟨m, cleared, outside, blank⟩ := clear_spec k₁ (p := p) (by omega)
  exact ⟨p, phys, k₁, _, allocated, cleared, placed.blankBlock isSize rfl outside blank⟩

end BlankBlock

end Balloon.Paging
