import Balloon.Paging.Boot
import Balloon.Paging.PageMap

/-!
Owns what the loop `while (i < placement_pointer + 0x1000)` of `init_paging` has covered when
it ends. Each page table it makes moves its own bound; a table covers 4 MB, so the bound
moves by less than the loop goes on.
-/

namespace Balloon.Paging

open Balloon.Libc
open Balloon.Allocator
open Balloon.Frames

/-- The loop takes `k` to `k'`, and maps every page below the bound where it stands at the end:
the page had no table before, and has the frame of its own number now. -/
structure Covers (k k' : Kernel) : Prop where
  before : ∀ b, b < k'.heap.placementPointer → findPage k.mem b k.kernelDirectory = 0
  found : ∀ b, b < k'.heap.placementPointer → findPage k'.mem b k'.kernelDirectory ≠ 0
  mapped : ∀ b, b < k'.heap.placementPointer →
    entryAt k'.mem (findPage k'.mem b k'.kernelDirectory) = givenPage true false (b / 0x1000)

variable {dir m : Nat} {undef : Nat → BitVec 32} {k k' : Kernel}

/-- A page below the `m` that the loop has mapped. -/
theorem Booted.findPage_mapped (booted : Booted dir m (tablesFor m) undef k) {b : Nat}
    (below : b / 0x1000 < m) (few : m ≤ bootFrames) :
    findPage k.mem b dir = bootPage dir (b / 0x1000) := by
  have total : bootFrames = 0x1000 := rfl
  have early : b / 0x1000 / 1024 < tablesFor m := by
    simp only [tablesFor]
    omega
  have table : tableOf k.mem dir (tableIndex b) =
      dir + 0x5000 + 0x2000 * (b / 0x1000 / 1024) := by
    rw [tableIndex, booted.tables _ (by omega), bootTable_lt early]
  rw [findPage_of_table table (by omega), bootPage]

/-- The start of the loop has no table for the first eight. -/
theorem Booted.covers (start : Booted dir 0 (tablesFor 0) undef k) (low : 0x1000 ≤ dir)
    (final : Booted dir m (tablesFor m) undef k') (few : m ≤ bootFrames)
    (reached : k'.heap.placementPointer + 0x1000 ≤ m * 0x1000) : Covers k k' := by
  have total : bootFrames = 0x1000 := rfl
  have page : ∀ b, b < k'.heap.placementPointer → b / 0x1000 < m := by
    intro b below
    omega
  have place : ∀ b, b < k'.heap.placementPointer →
      findPage k'.mem b k'.kernelDirectory = bootPage dir (b / 0x1000) := by
    intro b below
    rw [final.directory, final.findPage_mapped (page b below) few]
  refine ⟨fun b below => ?_, fun b below => ?_, fun b below => ?_⟩
  · have index : b / 0x1000 / 1024 < 8 := by
      have := page b below
      omega
    rw [start.directory, findPage_eq_zero_iff, tableIndex, start.tables _ (by omega), bootTable,
      if_neg (by simp only [tablesFor]; omega), if_neg (by omega)]
  · rw [place b below, bootPage]
    omega
  · have inMap : b / 0x1000 < bootFrames := Nat.lt_of_lt_of_le (page b below) few
    rw [place b below, final.mapped _ (page b below), bootFrame, if_pos inMap]

/-- The loop ends while a frame is free, whatever a `first_frame` without one would return,
and covers every byte below the final `placement_pointer`. -/
theorem mapPlaced_covers {h : Heap} (fresh : h.heapEnd = 0) (low : 0x1000 ≤ h.placementPointer)
    (high : h.placementPointer ≤ 0x800000) (undef : Nat → BitVec 32) :
    ∃ k₀ k k', initDirectory h = some k₀ ∧ k₀.touchHeapPages = some k ∧
      Kernel.mapPlaced undef rounds 0 k = some k' ∧ k'.frames.HasFree ∧ Covers k k' := by
  have total : bootFrames = 0x1000 := rfl
  have memEnd : memEndPage = 0x1000000 := rfl
  have fits : bootEnd h.placementPointer ≤ memEndPage := by
    simp only [bootEnd, bootDirectory]
    omega
  obtain ⟨k₀, k, made, touched, start⟩ := start_touchHeapPages fresh low fits
  have dirLow : 0x1000 ≤ bootDirectory h.placementPointer := by
    simp only [bootDirectory]
    omega
  have dirHigh : bootDirectory h.placementPointer ≤ 0x802000 := by
    simp only [bootDirectory]
    omega
  have aligned : bootDirectory h.placementPointer % 0x1000 = 0 := by
    simp only [bootDirectory]
    omega
  rw [bootEnd] at fits
  generalize bootDirectory h.placementPointer = dir at start dirLow dirHigh aligned fits
  have start : Booted dir 0 (tablesFor 0) undef k := start undef
  obtain ⟨m, k', placed, few, reached, close, final⟩ :=
    Booted.mapPlaced dirLow aligned fits undef rounds start (by omega) (by omega)
      (by simp only [rounds]; omega)
  -- The bound has moved by the tables alone, so it is still far from the last frame.
  have spare : m < bootFrames := by
    have placement := final.placement
    simp only [tablesFor] at placement
    omega
  refine ⟨k₀, k, k', made, touched, placed, ⟨m, ?_, ?_⟩, start.covers dirLow final few reached⟩
  · rw [final.scanned]
    exact spare
  · rw [final.used m spare]
    simp

/-- The loop behind an image that ends at `0x100000`. -/
theorem mapPlaced_covers_boot :
    ∃ k₀ k k', initDirectory (Client.boot (fun _ => 0) 0x100000).heap = some k₀ ∧
      k₀.touchHeapPages = some k ∧ Kernel.mapPlaced (fun _ => 0) rounds 0 k = some k' ∧
      k'.frames.HasFree ∧ Covers k k' :=
  mapPlaced_covers rfl (by decide) (by decide) _

end Balloon.Paging
