import Balloon.Allocator.Client

/-!
Owns where `kmalloc_raw` puts blocks before `init_heap`. The test in front of the rounding
asks whether `placement_pointer` has any bit above the page offset, not whether it has one in
it, so a pointer on a page boundary is moved on by a page and one inside the first page is
not moved at all.
-/

namespace Balloon.Allocator

open Balloon.Foundation
open Balloon.Libc

/-- A call of `kmalloc_raw`. -/
structure RawCall where
  size : Nat
  align : Bool

/-- The least page boundary at or above `p`. -/
def roundUp (p : Nat) : Nat := (p + 0xFFF) / 0x1000 * 0x1000

namespace Heap

variable {h h' : Heap} {call : RawCall}

def rawStep (h : Heap) (call : RawCall) : Option Heap :=
  (h.kmallocRaw call.size call.align).map Prod.snd

/-- Where the block of a call belongs. -/
def idealStart (h : Heap) (call : RawCall) : Nat :=
  if call.align then roundUp h.placementPointer else h.placementPointer

/-- The block of the call starts below `2 ^ 32` and does not pass it. -/
def Within (h : Heap) (call : RawCall) : Prop :=
  h.idealStart call < 2 ^ 32 ∧ h.idealStart call + call.size ≤ 2 ^ 32

instance (h : Heap) (call : RawCall) : Decidable (Within h call) :=
  inferInstanceAs (Decidable (_ ∧ _))

/-- An aligned call returns a page boundary less than a page above the pointer it found, a
plain call returns that pointer. -/
def WellPlaced (h : Heap) (call : RawCall) : Prop :=
  ∃ a h', h.kmallocRaw call.size call.align = some (a, h') ∧
    if call.align then
      a % 0x1000 = 0 ∧ h.placementPointer ≤ a ∧ a < h.placementPointer + 0x1000
    else a = h.placementPointer

/-- An aligned call does not find a page boundary above 0, nor another address of the first
page. -/
def RoundsRight (h : Heap) (call : RawCall) : Prop :=
  call.align = true →
    h.placementPointer = 0 ∨ (0x1000 ≤ h.placementPointer ∧ h.placementPointer % 0x1000 ≠ 0)

/-- `init_heap` has not been called. -/
structure Early (h : Heap) : Prop where
  heapEnd : h.heapEnd = 0
  placement : h.placementPointer < 2 ^ 32

/-- The start of the block as the code computes it. -/
def bumpStart (h : Heap) (align : Bool) : Nat :=
  if align ∧ h.placementPointer / 0x1000 * 0x1000 ≠ 0 then
    wrap32 (h.placementPointer / 0x1000 * 0x1000 + 0x1000)
  else h.placementPointer

theorem Early.kmallocRaw (early : Early h) (size : Nat) (align : Bool) :
    h.kmallocRaw size align = some (h.bumpStart align,
      { h with placementPointer := wrap32 (h.bumpStart align + size) }) := by
  rw [Heap.kmallocRaw, if_neg (not_not.mpr early.heapEnd)]
  rfl

theorem Early.step (early : Early h) (stepped : h.rawStep call = some h') : Early h' := by
  rw [rawStep, early.kmallocRaw, Option.map_some, Option.some.injEq] at stepped
  subst stepped
  exact ⟨early.heapEnd, wrap32_lt _⟩

theorem Early.wellPlaced_start (early : Early h) :
    WellPlaced h call ↔ if call.align then
        h.bumpStart true % 0x1000 = 0 ∧ h.placementPointer ≤ h.bumpStart true ∧
          h.bumpStart true < h.placementPointer + 0x1000
      else True := by
  rw [WellPlaced, early.kmallocRaw]
  constructor
  · rintro ⟨a, h', returned, placed⟩
    obtain ⟨rfl, -⟩ := Prod.mk.inj (Option.some.inj returned)
    cases align : call.align with
    | false => trivial
    | true => simpa [align] using placed
  · intro placed
    refine ⟨_, _, rfl, ?_⟩
    cases align : call.align with
    | false => simp [bumpStart]
    | true => simpa [align] using placed

/-- A call places its block well exactly when the test fits the pointer. -/
theorem Early.wellPlaced_iff (early : Early h) (within : Within h call) :
    WellPlaced h call ↔ RoundsRight h call := by
  have placement := early.placement
  rw [early.wellPlaced_start, RoundsRight]
  cases align : call.align with
  | false => simp
  | true =>
      have below := within.1
      rw [idealStart, if_pos align, roundUp] at below
      simp only [if_true, true_implies]
      by_cases firstPage : h.placementPointer / 0x1000 * 0x1000 = 0
      · -- the pointer stays where it is
        have start : h.bumpStart true = h.placementPointer := if_neg fun both => both.2 firstPage
        rw [start]
        omega
      · have start : h.bumpStart true = wrap32 (h.placementPointer / 0x1000 * 0x1000 + 0x1000) :=
          if_pos ⟨rfl, firstPage⟩
        rw [start, wrap32]
        omega

/-- Along every sequence of calls before `init_heap`, all blocks are well placed exactly when
every aligned call finds a pointer that the test fits. -/
theorem wellPlaced_along_run_iff (early : Early h) {calls : List RawCall}
    (within : EveryStep rawStep Within h calls) :
    EveryStep rawStep WellPlaced h calls ↔ EveryStep rawStep RoundsRight h calls :=
  everyStep_iff_of_invariant (fun _ _ _ early _ _ stepped => early.step stepped)
    (fun _ _ early within => early.wellPlaced_iff within) early within

/-! ### Two calls -/

/-- `wellPlaced_along_run_iff` for a plain call and an aligned one behind it. -/
theorem wellPlaced_along_run_iff_twoCalls :
    EveryStep rawStep WellPlaced (Client.boot (fun _ => 0) 0x100000).heap [⟨8, false⟩, ⟨8, true⟩] ↔
      EveryStep rawStep RoundsRight (Client.boot (fun _ => 0) 0x100000).heap
        [⟨8, false⟩, ⟨8, true⟩] := by
  refine wellPlaced_along_run_iff ⟨rfl, by decide⟩ ⟨by decide, fun h stepped => ?_⟩
  obtain rfl := Option.some.inj stepped
  exact ⟨by decide, fun _ _ => trivial⟩

/-- From the page boundary `0x100000` the aligned call skips a whole page. -/
theorem boundary_is_skipped :
    ¬ ∀ (h : Heap) (calls : List RawCall), Early h → EveryStep rawStep Within h calls →
      EveryStep rawStep WellPlaced h calls := by
  intro always
  have placed := always (Client.boot (fun _ => 0) 0x100000).heap [⟨8, true⟩] ⟨rfl, by decide⟩
    ⟨by decide, fun _ _ => trivial⟩
  have early : Early (Client.boot (fun _ => 0) 0x100000).heap := ⟨rfl, by decide⟩
  have atStart := early.wellPlaced_start.mp placed.1
  exact absurd atStart (by decide)

end Heap

end Balloon.Allocator
