import Balloon.Allocator.Requests

/-!
Owns the embedding of `klcalloc` and `klrealloc` of heap.c and what they do on well-formed
heaps: `calloc` clears the block it got, `realloc` answers with the old block while its slot
has room and else moves the bytes of the whole slot to a fresh one. `calloc` and `realloc`
only put `spin_lock`, which expands to nothing, around them.
-/

namespace Balloon.Allocator

open Balloon.Foundation
open Balloon.Libc

namespace Heap

def klcalloc (h : Heap) (nmemb size : Nat) : Option (Nat × Heap) :=
  (h.klmalloc (wrap32 (nmemb * size))).map fun result =>
    if result.1 ≠ 0 then
      (result.1, { result.2 with mem := memset result.2.mem result.1 0 (wrap32 (nmemb * size)) })
    else result

/-- What `klrealloc` takes for the size of the block behind a header. -/
def oldSize (h : Heap) (header : Nat) : Nat :=
  if h.sizeOf header < 10 then 1 <<< (2 + h.sizeOf header) else h.sizeOf header

/-- `klrealloc`, where `rand` is what the release of the old block draws its level from. -/
def klrealloc (h : Heap) (rand : Nat → Nat) (ptr size : Nat) : Option (Nat × Heap) :=
  if ptr = 0 then h.klmalloc size
  else if size = 0 then (h.kfree rand ptr).map fun h => (0, h)
  else
    let header := ptr / 0x1000 * 0x1000
    if h.magicOf header ≠ binMagic then some (0, h)
    else if size ≤ h.oldSize header then some (ptr, h)
    else
      (h.klmalloc size).bind fun result =>
        if result.1 ≠ 0 then
          ({ result.2 with mem := memcpy result.2.mem result.1 ptr (h.oldSize header) }.klfree
            rand ptr).map fun h => (result.1, h)
        else some (0, result.2)

end Heap

variable {h : Heap} {base : Nat} {L : Layout}

/-! ### `klcalloc` -/

/-- Clearing a block writes the slot it lies in. -/
theorem Extends.clear {h' : Heap} {L' : Layout} (step : Extends h base L h' L') {lo hi size : Nat}
    (slot : L'.Slot lo hi) (fresh : ∀ hi', ¬ L.Slot lo hi') (room : lo + size ≤ hi) :
    Extends h base L { h' with mem := memset h'.mem lo 0 size } L' ∧
      ∀ k, k < size → memset h'.mem lo 0 size (lo + k) = 0 := by
  have range := step.wf.slot_range slot
  have endLe := step.wf.endLe
  have cleared := memset_eq_fill h'.mem 0 (show lo + size ≤ 2 ^ 32 by omega)
  constructor
  · apply step.writeFresh slot fresh
    intro a outside
    rw [cleared]
    exact Memory.fill_outside _ _ (by omega)
  · intro k inside
    rw [cleared]
    exact Memory.fill_inside _ _ (by omega)

/-! ### The header of a block -/

/-- The page that a block starts on holds the header of its bin, and the header tells the
size of its slot. -/
theorem WellFormed.slot_oldSize (wf : WellFormed h base L) {lo hi : Nat} (slot : L.Slot lo hi) :
    h.magicOf (lo / 0x1000 * 0x1000) = binMagic ∧
      lo + h.oldSize (lo / 0x1000 * 0x1000) = hi := by
  obtain ⟨x, k, isBin, inBin, above, below, -, -⟩ := wf.slot_bin slot
  have page := wf.page isBin
  have header : lo / 0x1000 * 0x1000 = x := by omega
  rw [header]
  cases k with
  | small b =>
      obtain ⟨magic, bucket, size, -⟩ := wf.bin x _ isBin
      obtain ⟨-, -, rfl⟩ := inBin
      refine ⟨magic, ?_⟩
      rw [Heap.oldSize, size, if_pos bucket, Nat.shiftLeft_eq, Nat.one_mul, Nat.add_comm 2 b]
  | big n =>
      obtain ⟨magic, size, -⟩ := wf.bin x _ isBin
      obtain ⟨-, rfl, rfl⟩ := inBin
      have pages := (wf.placed.range x _ isBin).2.1
      rw [Bin.pages_big] at pages
      refine ⟨magic, ?_⟩
      rw [Heap.oldSize, if_neg (by omega)]
      omega

/-! ### `klrealloc` -/

/-- While the slot has room, `klrealloc` answers with the block itself. -/
theorem WellFormed.klrealloc_inPlace (wf : WellFormed h base L) {lo hi size : Nat}
    (slot : L.Slot lo hi) (positive : 0 < size) (room : lo + size ≤ hi) (rand : Nat → Nat) :
    h.klrealloc rand lo size = some (lo, h) := by
  obtain ⟨magic, capacity⟩ := wf.slot_oldSize slot
  have range := wf.slot_range slot
  have low : ¬ lo = 0 := by
    intro zero
    have notPage := range.2.2.2
    rw [zero] at notPage
    exact notPage (Nat.zero_mod _)
  rw [Heap.klrealloc, if_neg low, if_neg (by omega)]
  simp only [magic, ne_eq, not_true_eq_false, if_false]
  rw [if_pos (by omega)]

/-- The heap after a block is copied to a fresh slot, before the old one is released. -/
theorem WellFormed.copySlot (wf : WellFormed h base L) {lo hi p hi' : Nat} {h' : Heap}
    {L' : Layout} (slot : L.Slot lo hi) (step : Extends h base L h' L') (slot' : L'.Slot p hi')
    (fresh : ∀ hi'', ¬ L.Slot p hi'') (room : p + (hi - lo) ≤ hi') :
    Extends h base L { h' with mem := memcpy h'.mem p lo (hi - lo) } L' ∧
      ∀ k, k < hi - lo → memcpy h'.mem p lo (hi - lo) (p + k) = h.mem (lo + k) := by
  have range := wf.slot_range slot
  have range' := step.wf.slot_range slot'
  have endLe := step.wf.endLe
  have different : p ≠ lo := fun same => fresh hi (same ▸ slot)
  have apart := step.wf.slot_disjoint slot' (step.slots lo hi slot) different
  have copied := memcpy_eq_copy h'.mem (show p + (hi - lo) ≤ 2 ^ 32 by omega)
    (show lo + (hi - lo) ≤ 2 ^ 32 by have heapEnd := step.heapEnd; omega) (by omega)
  constructor
  · apply step.writeFresh slot' fresh
    intro a outside
    rw [copied]
    exact Memory.copy_outside _ (by omega)
  · intro k inside
    rw [copied, Memory.copy_inside _ (by omega), Nat.add_sub_cancel_left]
    exact step.bytes _ (Or.inr ⟨lo, hi, slot, by omega, by omega⟩)

/-- A block that outgrows its slot is moved: `klrealloc` takes a block from `klmalloc`, copies
the old slot and releases it. -/
theorem WellFormed.klrealloc_moved (wf : WellFormed h base L) {lo hi size p : Nat} {h' : Heap}
    (slot : L.Slot lo hi) (outgrown : hi < lo + size) (rand : Nat → Nat)
    (served : h.klmalloc size = some (p, h')) (nonzero : p ≠ 0) :
    h.klrealloc rand lo size =
      ({ h' with mem := memcpy h'.mem p lo (hi - lo) }.klfree rand lo).map fun h => (p, h) := by
  obtain ⟨magic, capacity⟩ := wf.slot_oldSize slot
  have range := wf.slot_range slot
  have low : ¬ lo = 0 := by
    intro zero
    have notPage := range.2.2.2
    rw [zero] at notPage
    exact notPage (Nat.zero_mod _)
  have amount : h.oldSize (lo / 0x1000 * 0x1000) = hi - lo := by omega
  rw [Heap.klrealloc, if_neg low, if_neg (by omega)]
  simp only [magic, amount, served, Option.bind_some, ne_eq, nonzero, not_true_eq_false,
    not_false_eq_true, if_false, if_true]
  rw [if_neg (by omega)]

/-- On a block that starts on a page `klrealloc` takes the block's own bytes for a header, and
gives up when they do not hold the magic number. -/
theorem Heap.klrealloc_aligned (h : Heap) (rand : Nat → Nat) {ptr size : Nat} (nonzero : ptr ≠ 0)
    (positive : 0 < size) (onPage : ptr % 0x1000 = 0)
    (unlike : h.mem.read32 (ptr + 12) ≠ binMagic) :
    h.klrealloc rand ptr size = some (0, h) := by
  have header : ptr / 0x1000 * 0x1000 = ptr := by omega
  have differs : h.magicOf ptr ≠ binMagic := unlike
  rw [Heap.klrealloc, if_neg nonzero, if_neg (by omega)]
  simp only [header, differs, ne_eq, not_false_eq_true, if_true]

end Balloon.Allocator
