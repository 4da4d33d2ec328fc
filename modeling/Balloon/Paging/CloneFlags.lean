import Balloon.Paging.CloneTable

/-!
Owns the flags of cloned pages. `alloc_frame` makes a page present and the user's, and the
conditional sets behind it only turn flags on, so a copy has the flags of its source exactly
when the source is a present user page.
-/

namespace Balloon.Paging

open Balloon.Foundation
open Balloon.Libc
open Balloon.Allocator
open Balloon.Frames

/-- Two entries agree on everything `clone_table` copies but the frame. -/
structure SameFlags (p q : PageT) : Prop where
  present : p.present = q.present
  rw : p.rw = q.rw
  user : p.user = q.user
  accessed : p.accessed = q.accessed
  dirty : p.dirty = q.dirty

/-- The table in `k'` has the flags of the source in `k` wherever that holds a frame. -/
def KeepsFlags (k : Kernel) (src : Nat) (k' : Kernel) (table : Nat) : Prop :=
  ∀ i, i < 1024 → HoldsFrame k.mem src i →
    SameFlags (entryAt k'.mem (table + 4 * i)) (entryAt k.mem (src + 4 * i))

/-- Every page to be copied is present and the user's; where the `memset` erases the first
entry, that one has no flag. -/
def UserPages (k : Kernel) (src : Nat) : Prop :=
  ∀ i, i < 1024 → HoldsFrame k.mem src i →
    if i = 0 ∧ ClearsFirst k src then SameFlags PageT.zero (entryAt k.mem (src + 4 * i))
    else (entryAt k.mem (src + 4 * i)).present ∧ (entryAt k.mem (src + 4 * i)).user

variable {k k' : Kernel} {src table phys : Nat} {undef : Nat → BitVec 32}

/-- A copy is present and the user's whatever the source is. -/
theorem sameFlags_clonedPage {source : PageT} {f : Nat} :
    SameFlags (clonedPage source f) source ↔ source.present ∧ source.user := by
  constructor
  · intro same
    exact ⟨same.present.symm, same.user.symm⟩
  · rintro ⟨present, user⟩
    exact
      { present := present.symm
        rw := Bool.false_or _
        user := user.symm
        accessed := Bool.false_or _
        dirty := Bool.false_or _ }

/-- In whatever state it is called, `clone_table` keeps the flags of the pages exactly when
they are present user pages. -/
theorem keepsFlags_iff_userPages (clonable : Clonable k src)
    (returned : k.cloneTable src undef = some (table, phys, k')) :
    KeepsFlags k src k' table ↔ UserPages k src := by
  refine forall₃_congr fun i index held => ?_
  obtain ⟨f, entry⟩ := cloneTable_entry clonable returned index held
  rw [entry]
  split
  · exact Iff.rfl
  · exact sameFlags_clonedPage

/-! ### A table with one page -/

/-- The heap is not up, the frames from 2048 on are free, and the first entry of the table at
`0x50000` is `word`. -/
def forkKernel (word : Nat) : Kernel where
  heap := (Client.boot (Memory.write32 (fun _ => 0) 0x50000 word) 0x100000).heap
  frames := ⟨fun i => if i < 64 then BitVec.allOnes 32 else 0#32, 0x1000⟩
  kernelDirectory := 0
  currentDirectory := 0

theorem used_forkKernel (word : Nat) {f : Nat} :
    (forkKernel word).frames.used f = decide (f < 2048) :=
  FrameMap.used_lowUsed 64 0x1000 f

theorem clonable_forkKernel (word : Nat) : Clonable (forkKernel word) 0x50000 where
  table := ⟨rfl, Or.inl ⟨rfl, show 0x50000 + 0x1000 ≤ 0x100000 by decide,
    show 0x100000 + 0x4000 ≤ 2 ^ 32 by decide⟩⟩
  frames := by
    change 32 * indexFromBit 0x1000 ≤ 2 ^ 20
    decide
  marked := by
    intro f _ free
    rw [used_forkKernel, decide_eq_false_iff_not] at free
    change Misses f 0x50000 ∧ (f * 0x1000 + 0x1000 ≤ 0x100000 ∨ 0x100000 + 0x3000 ≤ f * 0x1000)
    unfold Misses
    omega
  enough := by
    have free : (forkKernel word).frames.freeCount = 2048 :=
      FrameMap.freeCount_lowUsed (n := 64) (by decide)
    have most := Nat.count_le (p := HoldsFrame (forkKernel word).mem 0x50000) (n := 1024)
    omega

/-- `keepsFlags_iff_userPages` for a page of the kernel. -/
theorem keepsFlags_iff_userPages_kernelPage :
    ∃ table phys k', (forkKernel 0x1003).cloneTable 0x50000 (fun _ => 0) = some (table, phys, k') ∧
      (KeepsFlags (forkKernel 0x1003) 0x50000 k' table ↔
        UserPages (forkKernel 0x1003) 0x50000) := by
  obtain ⟨table, phys, k', returned⟩ :=
    cloneTable_returns (clonable_forkKernel 0x1003) (Or.inl rfl) (fun _ => 0)
  exact ⟨table, phys, k', returned, keepsFlags_iff_userPages (clonable_forkKernel 0x1003) returned⟩

/-- A writeable page of the kernel is the user's in the copy. -/
theorem kernel_page_becomes_user :
    ¬ ∀ (k : Kernel) (src : Nat) (undef : Nat → BitVec 32) (table phys : Nat) (k' : Kernel),
      Clonable k src → k.cloneTable src undef = some (table, phys, k') →
        KeepsFlags k src k' table := by
  intro always
  have clonable := clonable_forkKernel 0x1003
  obtain ⟨table, phys, k', returned⟩ := cloneTable_returns clonable (Or.inl rfl) (fun _ => 0)
  have entry : entryAt (forkKernel 0x1003).mem (0x50000 + 4 * 0) = decode 0x1003 :=
    congrArg decode (Memory.read32_write32_same _ _ _)
  have held : HoldsFrame (forkKernel 0x1003).mem 0x50000 0 := by
    rw [HoldsFrame, entry]
    decide
  have same := always _ _ _ table phys k' clonable returned 0 (by decide) held
  obtain ⟨f, copy⟩ := cloneTable_entry clonable returned (by decide) held
  rw [copy, if_neg fun first => first.2.1 rfl, sameFlags_clonedPage, entry] at same
  exact absurd same.2 (by decide)

end Balloon.Paging
