import Balloon.Ramdisk.Files

/-!
Owns `ramfs_read` for every 32-bit offset and size. Its second range test is on a sum that
wraps around; behind the wrap the limit is off and all `size` bytes are copied.
-/

namespace Balloon.Ramdisk

open Balloon.Foundation
open Balloon.Libc
open Balloon.Allocator

/-- `ramfs_read` returns the count of the file's bytes at `offset`, at most `size`; it copies
exactly these bytes and writes nothing else. -/
def ReadsInside (start : Nat) (m : Memory) (node offset size buffer : Nat) : Prop :=
  ∃ m', ramfsRead start m node offset size buffer =
      (available (lengthOf m (selected start m node)) offset size, m') ∧
    (∀ k, k < available (lengthOf m (selected start m node)) offset size →
      m' (buffer + k) = m (wrap32 (offsetOf m (selected start m node) + offset + k))) ∧
    ∀ a, a < buffer ∨ buffer + available (lengthOf m (selected start m node)) offset size ≤ a →
      m' a = m a

variable {m : Memory} {start node offset size buffer : Nat}

/-- Behind the wrap the count is `size`, more than the file has. -/
theorem not_readsInside_of_wrap (sizeSmall : size < 2 ^ 32)
    (inFile : offset ≤ lengthOf m (selected start m node)) (wraps : 2 ^ 32 ≤ offset + size) :
    ¬ ReadsInside start m node offset size buffer := by
  rintro ⟨m', returned, -⟩
  have lengthLt := lengthOf_lt m (selected start m node)
  have isSelected : fileHeader start (inodeOf m node) = selected start m node := rfl
  have testOff : ¬ wrap32 (offset + size) > lengthOf m (selected start m node) := by
    unfold wrap32
    omega
  have count : (ramfsRead start m node offset size buffer).1 = size := by
    rw [ramfsRead, isSelected, if_neg (by omega), if_neg testOff]
  rw [returned, available, if_neg (by omega)] at count
  have most := Nat.min_le_right size (lengthOf m (selected start m node) - offset)
  have limited : min size (lengthOf m (selected start m node) - offset) = size := count
  omega

/-- A read stays inside the file exactly when the sum of offset and size does not pass
`2 ^ 32`, or the offset is behind the file. -/
theorem readsInside_iff_noWrap (sizeSmall : size < 2 ^ 32)
    (fits : buffer + available (lengthOf m (selected start m node)) offset size ≤ 2 ^ 32)
    (apart : Apart start m node offset
      (available (lengthOf m (selected start m node)) offset size) buffer) :
    ReadsInside start m node offset size buffer ↔
      offset > lengthOf m (selected start m node) ∨ offset + size < 2 ^ 32 := by
  constructor
  · intro inside
    by_contra wraps
    exact not_readsInside_of_wrap sizeSmall (by omega) (by omega) inside
  · intro noWrap
    exact ramfsRead_spec noWrap fits apart

/-! ### A file of eight bytes -/

/-- A ramdisk at `0x1000` whose only header says that the file is eight bytes at `0x2000`. -/
def oneFile : Memory :=
  ((Memory.write32 (fun _ => 0) 0x1000 1).write32 0x1045 0x2000).write32 0x1049 8

theorem lengthOf_oneFile : lengthOf oneFile (selected 0x1000 oneFile 0x500) = 8 := by decide

/-- `readsInside_iff_noWrap` for a read that the end of the file cuts short. -/
theorem readsInside_iff_noWrap_tail : ReadsInside 0x1000 oneFile 0x500 4 8 0x8000 ↔
    4 > lengthOf oneFile (selected 0x1000 oneFile 0x500) ∨ 4 + 8 < 2 ^ 32 := by
  have offset : offsetOf oneFile (selected 0x1000 oneFile 0x500) = 0x2000 := by decide
  apply readsInside_iff_noWrap (by decide)
  · rw [lengthOf_oneFile]
    decide
  · rw [lengthOf_oneFile]
    intro j k belowJ belowK
    have count : available 8 4 8 = 4 := by decide
    rw [offset, wrap32_of_lt (by omega)]
    omega

/-- From offset 8, the end of the file, a read of `2 ^ 32 - 8` bytes copies them all. -/
theorem wrapped_sum_reads_on :
    ¬ ∀ (start : Nat) (m : Memory) (node offset size buffer : Nat), offset < 2 ^ 32 →
      size < 2 ^ 32 →
        buffer + available (lengthOf m (selected start m node)) offset size ≤ 2 ^ 32 →
          Apart start m node offset (available (lengthOf m (selected start m node)) offset size)
            buffer → ReadsInside start m node offset size buffer := by
  intro always
  have count : available (lengthOf oneFile (selected 0x1000 oneFile 0x500)) 8 (2 ^ 32 - 8) = 0 := by
    rw [lengthOf_oneFile]
    decide
  refine not_readsInside_of_wrap (by decide) (by rw [lengthOf_oneFile]) (by decide)
    (always 0x1000 oneFile 0x500 8 (2 ^ 32 - 8) 0x8000 (by decide) (by decide) ?_ ?_)
  · rw [count]
    decide
  · rw [count]
    exact nofun

end Balloon.Ramdisk
