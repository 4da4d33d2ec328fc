import Balloon.Paging.CloneDirectory

/-!
Owns the blocks that `kmalloc_aligned_physical` returns in both modes of the allocator: a
block has no byte of the memory in use, and that memory keeps its bytes. Nothing is said
about what lies behind a block, so a caller that stays inside its block keeps the allocator
in order.
-/

namespace Balloon.Paging

open Balloon.Foundation
open Balloon.Libc
open Balloon.Allocator
open Balloon.Frames

/-- The allocator is in order, and the addresses that are `live` were handed out. -/
inductive Ordered (h : Heap) (live : Nat → Prop) : Prop where
  | bump (fresh : h.heapEnd = 0) (low : 0x1000 ≤ h.placementPointer)
      (below : ∀ a, live a → a < h.placementPointer)
  | slots {base : Nat} {L : Layout} (wf : WellFormed h base L)
      (held : ∀ a, live a → a < base ∨ ∃ lo hi, L.Slot lo hi ∧ lo ≤ a ∧ a < hi)

/-- Before `init_heap` the next block lies in front of the end of the address space. -/
def BumpSpace (h : Heap) (size : Nat) : Prop :=
  h.heapEnd = 0 → nextBlock h + size < 2 ^ 32

/-- Before `init_heap` there is always a block; afterwards one that is free, or pages in
front of `KHEAP_END`. -/
def HasRoom (h : Heap) (size : Nat) : Prop := h.heapEnd = 0 ∨ h.Fits (need size true)

/-- `a` is in the block at `p`: before `init_heap` one of the `size` bytes that were asked
for, afterwards one of those that the header in front of the page at `p` counts. -/
def InBlock (h : Heap) (size p a : Nat) : Prop :=
  if h.heapEnd = 0 then Inside p size a else Inside (p - 0x1000 + 48) (h.sizeOf (p - 0x1000)) a

/-- The kernel `k₁` after `kmalloc_aligned_physical(size)` returned the block at `p`. -/
structure NewBlock (k : Kernel) (live : Nat → Prop) (size p : Nat) (k₁ : Kernel) : Prop where
  positive : 0x1000 ≤ p
  fits : p + size < 2 ^ 32
  low : k.heap.placementPointer ≤ p
  high : p + size ≤ topOf k₁.heap
  top : topOf k₁.heap ≤ topOf k.heap + 0x2000 + size
  mode : k₁.heap.heapEnd = 0 ↔ k.heap.heapEnd = 0
  placement : k.heap.placementPointer ≤ k₁.heap.placementPointer
  frames : k₁.frames = k.frames
  directory : k₁.kernelDirectory = k.kernelDirectory
  inside : ∀ a, Inside p size a → InBlock k₁.heap size p a
  apart : ∀ a, live a → ¬ InBlock k₁.heap size p a
  kept : ∀ a, live a → k₁.mem a = k.mem a
  ordered : Ordered k₁.heap fun a => live a ∨ InBlock k₁.heap size p a

section

variable {h : Heap} {live : Nat → Prop}

theorem Arena.ordered (arena : Arena h live) : Ordered h live := by
  cases arena with
  | bump fresh low below => exact .bump fresh low below
  | slots wf noTight held => exact .slots wf held

/-- Writes to live memory, below the allocator's memory or above it are harmless. -/
theorem Ordered.write (ordered : Ordered h live) {m : Memory}
    (bytes : ∀ a, live a ∨ a < h.placementPointer ∨ topOf h ≤ a ∨ m a = h.mem a) :
    Ordered { h with mem := m } live := by
  cases ordered with
  | bump fresh low below => exact .bump fresh low below
  | slots wf held =>
      refine .slots (wf.writeSlots fun a above below outside => ?_) held
      have placement := wf.placementLt
      have top : h.heapEnd ≤ topOf h := Nat.le_max_right _ _
      rcases bytes a with isLive | low | high | same
      · rcases held a isLive with underneath | ⟨lo, hi, slot, inside⟩
        · omega
        · have apart := outside lo hi slot
          omega
      · omega
      · omega
      · exact same

/-- Once the heap is up, the memory that was handed out ends in front of `KHEAP_END`. -/
theorem Ordered.top_le (ordered : Ordered h live) (booted : h.heapEnd ≠ 0) :
    topOf h ≤ kheapEnd := by
  cases ordered with
  | bump fresh low below => exact absurd fresh booted
  | slots wf held =>
      have placement := wf.placementLt
      have baseLe := wf.baseLe
      have endLe := wf.endLe
      have limit : kheapEnd = 0x02000000 := rfl
      exact Nat.max_le.mpr ⟨by omega, by omega⟩

/-- A page in use is a table: it is in front of the heap or in one block of it. -/
theorem Ordered.isTable {k : Kernel} {src : Nat} (ordered : Ordered k.heap live)
    (page : src % 0x1000 = 0) (inUse : ∀ a, Inside src 0x1000 a → live a)
    (space : k.heap.heapEnd = 0 → k.heap.placementPointer + 0x4000 ≤ 2 ^ 32) : IsTable k src := by
  refine ⟨page, ?_⟩
  generalize k.heap = h at *
  cases ordered with
  | bump fresh low below =>
      have last := below (src + 0xFFF) (inUse _ ⟨by omega, by omega⟩)
      exact Or.inl ⟨fresh, by omega, space fresh⟩
  | @slots base L wf held =>
      refine Or.inr ⟨base, L, wf, ?_⟩
      have basePage := wf.basePage
      rcases held src (inUse src ⟨by omega, by omega⟩) with underneath | ⟨lo, hi, slot, inside⟩
      · exact Or.inl (by omega)
      · obtain ⟨x, l, isBin, inBin, above, near, proper, within⟩ := wf.slot_bin slot
        have pageX := wf.page isBin
        cases l with
        | small b =>
            -- A page starts with a header, not with a cell.
            rw [Bin.header_small] at above
            rw [Bin.pages_small] at within
            omega
        | big n =>
            obtain ⟨-, -, rfl⟩ := inBin
            exact Or.inr ⟨lo, _, slot, inside.1, by omega⟩

theorem Ordered.mono (ordered : Ordered h live) {fewer : Nat → Prop}
    (weaker : ∀ a, fewer a → live a) : Ordered h fewer := by
  cases ordered with
  | bump fresh low below => exact .bump fresh low fun a isLive => below a (weaker a isLive)
  | slots wf held => exact .slots wf fun a isLive => held a (weaker a isLive)

end

section NewBlock

variable {k k₁ : Kernel} {live : Nat → Prop} {size p phys : Nat}

theorem newBlock_bump (fresh : k.heap.heapEnd = 0) (low : 0x1000 ≤ k.heap.placementPointer)
    (below : ∀ a, live a → a < k.heap.placementPointer) (space : BumpSpace k.heap size)
    (returned : k.kmallocAlignedPhysical size = some (p, phys, k₁)) :
    NewBlock k live size p k₁ := by
  have fits := space fresh
  have block : nextBlock k.heap = k.heap.placementPointer / 0x1000 * 0x1000 + 0x1000 := rfl
  rw [kmallocAlignedPhysical_bump fresh low size fits] at returned
  obtain ⟨rfl, -, rfl⟩ := by simpa only [Option.some.injEq, Prod.mk.injEq] using returned
  have topOld := topOf_fresh fresh
  have topNew : topOf { k.heap with placementPointer := nextBlock k.heap + size } =
      nextBlock k.heap + size := topOf_fresh fresh
  have inBlock : ∀ a, InBlock { k.heap with placementPointer := nextBlock k.heap + size } size
      (nextBlock k.heap) a ↔ Inside (nextBlock k.heap) size a :=
    fun a => by rw [InBlock, if_pos fresh]
  exact
    { positive := by omega
      fits := fits
      low := by omega
      high := topNew.ge
      top := by
        rw [topNew]
        omega
      mode := Iff.rfl
      placement := show _ ≤ nextBlock k.heap + size by omega
      frames := rfl
      directory := rfl
      inside := fun a => (inBlock a).mpr
      apart := by
        intro a isLive inside
        have before := below a isLive
        have above := ((inBlock a).mp inside).1
        omega
      kept := fun _ _ => rfl
      ordered := by
        refine .bump fresh (show 0x1000 ≤ nextBlock k.heap + size by omega) fun a isLive => ?_
        change a < nextBlock k.heap + size
        rcases isLive with old | new
        · have before := below a old
          omega
        · exact ((inBlock a).mp new).2 }

theorem newBlock_slots {base : Nat} {L : Layout} (isSize : IsSize size)
    (wf : WellFormed k.heap base L)
    (held : ∀ a, live a → a < base ∨ ∃ lo hi, L.Slot lo hi ∧ lo ≤ a ∧ a < hi)
    (returned : k.kmallocAlignedPhysical size = some (p, phys, k₁)) :
    NewBlock k live size p k₁ := by
  obtain ⟨h', served, within, rfl⟩ := kmallocAlignedPhysical_eq_some returned
  obtain ⟨x, n, L', rfl, -, extends', isBin, taken, page, large, -, place⟩ :=
    kmallocAligned_bin isSize wf served within
  have slot : L'.Slot (x + 48) (x + 0x1000 * n) := ⟨x, .big n, isBin, taken, rfl, rfl⟩
  have range := extends'.wf.slot_range slot
  have endLe := extends'.wf.endLe
  have limit : kheapEnd = 0x02000000 := rfl
  have sizeBounds := isSize.bounds
  have clearSize : sizeofDirectory = 8196 := rfl
  have grows := isSize.need.2.2
  have topOld : k.heap.heapEnd ≤ topOf k.heap := Nat.le_max_right _ _
  have placeOld : k.heap.placementPointer ≤ topOf k.heap := Nat.le_max_left _ _
  have topNew : h'.heapEnd ≤ topOf h' := Nat.le_max_right _ _
  have placement := wf.placementLt
  obtain ⟨-, header, -, -⟩ := extends'.wf.bin x _ isBin
  have aboveBase := (extends'.wf.placed.range x _ isBin).1
  have inBlock : ∀ a, InBlock h' size (x + 0x1000) a ↔ x + 48 ≤ a ∧ a < x + 0x1000 * n := by
    intro a
    rw [InBlock, if_neg extends'.wf.heapEnd_pos.ne', Nat.add_sub_cancel, Inside]
    omega
  exact
    { positive := by omega
      fits := by omega
      low := by omega
      high := by
        change _ ≤ topOf h'
        omega
      top := by
        refine Nat.max_le.mpr ⟨extends'.placement.le.trans (by omega), ?_⟩
        change h'.heapEnd ≤ _
        rcases place with ⟨-, same⟩ | ⟨-, rfl, grown⟩ <;> omega
      mode := iff_of_false extends'.wf.heapEnd_pos.ne' wf.heapEnd_pos.ne'
      placement := extends'.placement.ge
      frames := rfl
      directory := rfl
      inside := by
        intro a inside
        unfold Inside at inside
        exact (inBlock a).mpr (by omega)
      apart := by
        intro a isLive inside
        have within' := (inBlock a).mp inside
        rcases held a isLive with underneath | ⟨lo', hi', slot', old⟩
        · omega
        · have different := wf.slot_ne_next slot' (place.imp And.left And.left)
          have disjoint := extends'.wf.slot_disjoint slot (extends'.slots _ _ slot') different.symm
          omega
      kept := fun a isLive => extends'.bytes a (held a isLive)
      ordered := by
        refine .slots extends'.wf fun a isLive => ?_
        rcases isLive with old | new
        · rcases held a old with underneath | ⟨lo', hi', slot', inside⟩
          · exact Or.inl underneath
          · exact Or.inr ⟨lo', hi', extends'.slots _ _ slot', inside⟩
        · exact Or.inr ⟨_, _, slot, (inBlock a).mp new⟩ }

/-- Whatever block the allocator returns, it is a new one. -/
theorem Ordered.newBlock (isSize : IsSize size) (ordered : Ordered k.heap live)
    (space : BumpSpace k.heap size)
    (returned : k.kmallocAlignedPhysical size = some (p, phys, k₁)) :
    NewBlock k live size p k₁ := by
  cases ordered with
  | bump fresh low below => exact newBlock_bump fresh low below space returned
  | slots wf held => exact newBlock_slots isSize wf held returned

/-- With room the allocator returns. -/
theorem Ordered.allocates (ordered : Ordered k.heap live) (space : BumpSpace k.heap size)
    (room : HasRoom k.heap size) :
    ∃ p phys k₁, k.kmallocAlignedPhysical size = some (p, phys, k₁) := by
  cases ordered with
  | bump fresh low below =>
      exact ⟨_, _, _, kmallocAlignedPhysical_bump fresh low size (space fresh)⟩
  | slots wf held =>
      have fits := room.resolve_left wf.heapEnd_pos.ne'
      have asks : 0 < need size true := Nat.succ_pos _
      obtain ⟨lo, hi, p, h', L', served, extends', -⟩ := wf.kmallocRaw asks fits
      have filtered : (k.heap.kmallocAligned size).filter
          (fun result => result.2.heapEnd ≤ kheapEnd) = some (p, h') :=
        Option.filter_eq_some_iff.mpr ⟨served, decide_eq_true extends'.wf.endLe⟩
      exact ⟨_, _, _, Option.map_eq_some_iff.mpr ⟨_, filtered, rfl⟩⟩

end NewBlock

end Balloon.Paging
