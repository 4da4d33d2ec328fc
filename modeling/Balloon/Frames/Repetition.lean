import Balloon.Frames.Supply

/-!
Owns what a second `alloc_frame` on the same page entry does. `alloc_frame` skips an entry
that holds a frame, and takes the frame number 0 for the absence of one; frame 0 is also a
frame that `first_frame` may find.
-/

namespace Balloon.Frames

/-- A second call right after the first changes neither the entry nor the bitmap. `undef` is
what a `first_frame` that finds nothing returns in each call. -/
def Idempotent (map : FrameMap) (page : PageT) (isKernel isWriteable : Bool)
    (undef : Bool → BitVec 32) : Prop :=
  ∃ map' page', allocFrame map page isKernel isWriteable (undef false) = some (map', page') ∧
    allocFrame map' page' isKernel isWriteable (undef true) = some (map', page')

variable {map : FrameMap} {page : PageT} {isKernel isWriteable : Bool} {undef : Bool → BitVec 32}

/-- `first_frame` finds frame 0 exactly when it is free. -/
theorem firstFrame_eq_zero_iff (free : map.HasFree) (undef : BitVec 32) :
    firstFrame map undef = 0 ↔ map.used 0 = false := by
  obtain ⟨-, unmarked, least⟩ := map.firstFrame_spec free undef
  constructor
  · intro zero
    rw [zero] at unmarked
    exact unmarked
  · intro zeroFree
    by_contra positive
    have marked := least 0 (Nat.pos_of_ne_zero positive)
    rw [zeroFree] at marked
    contradiction

/-- With frame 0 the entry looks empty again, and the second call puts another frame into it. -/
theorem not_idempotent_of_zero_free (empty : page.frame = 0) (twoFree : 2 ≤ map.freeCount)
    (bound : map.scanned ≤ 2 ^ 20) (zeroFree : map.used 0 = false) :
    ¬ Idempotent map page isKernel isWriteable undef := by
  have free : map.HasFree := FrameMap.hasFree_iff.mpr (by omega)
  obtain ⟨below, unmarked, -⟩ := map.firstFrame_spec free (undef false)
  have zero := (firstFrame_eq_zero_iff free (undef false)).mpr zeroFree
  have supply := FrameMap.freeCount_setFrame unmarked below
  rintro ⟨map', page', returned, again⟩
  rw [allocFrame_free empty free bound, Option.some.injEq, Prod.mk.injEq] at returned
  obtain ⟨rfl, rfl⟩ := returned
  have freeAgain : (setFrame map (firstFrame map (undef false) * 0x1000)).HasFree :=
    FrameMap.hasFree_iff.mpr (by omega)
  rw [allocFrame_free zero freeAgain bound, Option.some.injEq, Prod.mk.injEq] at again
  have sameFrame := congrArg PageT.frame again.2
  have zeroUsed := (firstFrame_eq_zero_iff freeAgain (undef true)).mp (sameFrame.trans zero)
  rw [FrameMap.used_setFrame_mul, zero, decide_eq_true rfl, Bool.true_or] at zeroUsed
  contradiction

/-- With two free frames, a second call changes nothing exactly when frame 0 is marked. -/
theorem idempotent_iff_zero_used (empty : page.frame = 0) (twoFree : 2 ≤ map.freeCount)
    (bound : map.scanned ≤ 2 ^ 20) :
    Idempotent map page isKernel isWriteable undef ↔ map.used 0 = true := by
  constructor
  · intro idempotent
    by_contra zeroFree
    exact not_idempotent_of_zero_free empty twoFree bound (by simpa using zeroFree) idempotent
  · intro zeroUsed
    have free : map.HasFree := FrameMap.hasFree_iff.mpr (by omega)
    have positive : firstFrame map (undef false) ≠ 0 := by
      intro zero
      rw [(firstFrame_eq_zero_iff free (undef false)).mp zero] at zeroUsed
      contradiction
    exact ⟨_, _, allocFrame_free empty free bound isKernel isWriteable (undef false),
      allocFrame_held positive isKernel isWriteable (undef true)⟩

/-- `idempotent_iff_zero_used` for a map whose first 32 frames are marked. -/
theorem idempotent_iff_zero_used_lowUsed :
    Idempotent (FrameMap.lowUsed 1 0x1000) PageT.zero true false (fun _ => 0) ↔
      (FrameMap.lowUsed 1 0x1000).used 0 = true :=
  idempotent_iff_zero_used rfl
    (by rw [FrameMap.freeCount_lowUsed (n := 1) (c := 4064) (by decide)]; decide) (by decide)

/-- On the bitmap that `init_paging` clears, the second call gives the entry frame 1. -/
theorem frame_zero_is_allocated_again :
    ¬ ∀ (map : FrameMap) (page : PageT) (isKernel isWriteable : Bool) (undef : Bool → BitVec 32),
      2 ≤ map.freeCount → map.scanned ≤ 2 ^ 20 → page.frame = 0 → page.present = false →
        Idempotent map page isKernel isWriteable undef := by
  intro always
  have twoFree : 2 ≤ (FrameMap.lowUsed 0 0x1000).freeCount := by
    rw [FrameMap.freeCount_lowUsed (n := 0) (c := 4096) (by decide)]
    decide
  exact not_idempotent_of_zero_free rfl twoFree (by decide) (FrameMap.used_lowUsed 0 0x1000 0)
    (always _ PageT.zero true false (fun _ => 0) twoFree (by decide) rfl rfl)

end Balloon.Frames
