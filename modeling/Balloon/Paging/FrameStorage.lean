import Balloon.Paging.Model
import Balloon.Allocator.Client

/-!
Owns where `init_paging` puts the frame bitmap. It asks `kmalloc` for
`INDEX_FROM_BIT(nframes)` bytes, which is the number of 32-bit words the bitmap
has, so only a quarter of the words lie in the block and are zeroed.
-/

namespace Balloon.Paging

open Balloon.Foundation
open Balloon.Libc
open Balloon.Allocator
open Balloon.Frames

/-- `nframes` as `init_paging` sets it. -/
def bootFrames : Nat := memEndPage / 0x1000

/-- The address of the word of `frames` that frame number `f` is kept in. -/
def frameWord (frames f : Nat) : Nat := wrap32 (frames + 4 * indexFromBit f)

/-- The blocks a sequence of `kmalloc_raw` calls hands out. -/
def handedOut : List (Nat × Bool) → Heap → List (Nat × Nat)
  | [], _ => []
  | (size, align) :: rest, h =>
      match h.kmallocRaw size align with
      | none => []
      | some (p, h') => (p, size) :: handedOut rest h'

/-- Every word the bitmap functions access for a frame below `nframes` lies in
the block at `frames`, is zero, and belongs to no block handed out later. -/
structure Stored (frames : Nat) (h : Heap) : Prop where
  inside : ∀ f, f < bootFrames →
    sub32 (frameWord frames f) frames + 4 ≤ indexFromBit bootFrames
  zeroed : ∀ f, f < bootFrames → (∀ o, o < 4 → h.mem (wrap32 (frameWord frames f + o)) = 0)
  apart : ∀ f, f < bootFrames → ∀ requests, ∀ block ∈ handedOut requests h, ∀ o, o < 4 →
    wrap32 (frameWord frames f + o) < block.1 ∨
      block.1 + block.2 ≤ wrap32 (frameWord frames f + o)

/-- Before `init_heap` the block starts at `placement_pointer`. -/
theorem initFrames_eq {h : Heap} (fresh : h.heapEnd = 0) :
    initFrames h = some (h.placementPointer,
      { h with
        placementPointer := wrap32 (h.placementPointer + indexFromBit bootFrames)
        mem := memset h.mem h.placementPointer 0 (indexFromBit bootFrames) }) := by
  simp [initFrames, Heap.kmalloc, Heap.kmallocRaw, fresh, bootFrames]

/-- The distance of a frame's word from the start of the block. -/
theorem frameWord_distance {frames : Nat} (small : frames < 2 ^ 32) {f : Nat}
    (inMap : f < bootFrames) : sub32 (frameWord frames f) frames = 4 * indexFromBit f := by
  have bound : f < 0x1000 := inMap
  simp only [sub32, frameWord, wrap32, indexFromBit]
  omega

/-- The words of the first 1024 frames, and no others, lie in the block. -/
theorem inside_iff {frames : Nat} (small : frames < 2 ^ 32) {f : Nat} (inMap : f < bootFrames) :
    sub32 (frameWord frames f) frames + 4 ≤ indexFromBit bootFrames ↔ f < 1024 := by
  have size : indexFromBit bootFrames = 128 := by decide
  rw [frameWord_distance small inMap, size, indexFromBit]
  omega

theorem not_stored {frames : Nat} (small : frames < 2 ^ 32) (h : Heap) : ¬ Stored frames h := by
  intro stored
  have inMap : 1024 < bootFrames := by decide
  have outside := (inside_iff small inMap).mp (stored.inside 1024 inMap)
  omega

/-- Wherever `placement_pointer` stands, the bitmap does not fit its block. -/
theorem bitmap_outside_block (h : Heap) (fresh : h.heapEnd = 0)
    (small : h.placementPointer < 2 ^ 32) :
    ∃ frames h', initFrames h = some (frames, h') ∧ ¬ Stored frames h' :=
  ⟨_, _, initFrames_eq fresh, not_stored small _⟩

/-- `bitmap_outside_block` for an image that ends at `0x100000`. -/
theorem bitmap_outside_block_boot :
    ∃ frames h', initFrames (Client.boot (fun _ => 0) 0x100000).heap = some (frames, h') ∧
      ¬ Stored frames h' :=
  bitmap_outside_block _ rfl (by decide)

/-- From `placement_pointer` at `0x100000` the word of frame 1024 is the first
behind the block. -/
theorem frame_1024_outside_block :
    ¬ ∀ (h : Heap) (frames : Nat) (h' : Heap), h.heapEnd = 0 → h.placementPointer < 2 ^ 32 →
      initFrames h = some (frames, h') → Stored frames h' := by
  intro always
  have stored := always (Client.boot (fun _ => 0) 0x100000).heap _ _ rfl (by decide)
    (initFrames_eq rfl)
  exact not_stored (by decide) _ stored

/-- The bitmap reaches into `kernel_directory`, the next block, exactly when the
block ends in the last 384 bytes of a page. -/
theorem bitmap_reaches_directory_iff {frames : Nat} (high : 0x1000 ≤ frames)
    (small : frames + 0x4000 < 2 ^ 32) :
    (∃ f o, f < bootFrames ∧ o < 4 ∧
      (frames + 128) / 0x1000 * 0x1000 + 0x1000 ≤ wrap32 (frameWord frames f + o)) ↔
      0x1000 < (frames + 128) % 0x1000 + 384 := by
  have inMap : ∀ f, f < bootFrames ↔ f < 0x1000 := fun f => Iff.rfl
  constructor
  · rintro ⟨f, o, bound, low, reaches⟩
    rw [inMap] at bound
    simp only [frameWord, wrap32, indexFromBit] at reaches
    omega
  · intro late
    refine ⟨0xFFF, 3, by decide, by decide, ?_⟩
    simp only [frameWord, wrap32, indexFromBit]
    omega

end Balloon.Paging
