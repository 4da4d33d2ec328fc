import Balloon.Frames.Bitmap
import Mathlib.Data.Nat.Count
import Mathlib.Data.Finset.Erase

/-!
Owns the number of frames `first_frame` can still find, and how `set_frame` lowers it.
It does not own which entries hold the frames that are gone.
-/

namespace Balloon.Frames.FrameMap

/-- How many of the frames that `first_frame` looks at are not marked. -/
def freeCount (map : FrameMap) : Nat := Nat.count (fun f => map.used f = false) map.scanned

theorem hasFree_iff {map : FrameMap} : map.HasFree ↔ 0 < map.freeCount := by
  rw [Nat.pos_iff_ne_zero, freeCount, Nat.count_ne_iff_exists]
  rfl

@[simp] theorem scanned_setFrame (map : FrameMap) (a : Nat) :
    (setFrame map a).scanned = map.scanned := rfl

theorem used_setFrame_mul (map : FrameMap) (f g : Nat) :
    (setFrame map (f * 0x1000)).used g = (decide (g = f) || map.used g) := by
  rw [used_setFrame, Nat.mul_div_cancel f (by decide)]

/-- Marking a free frame leaves one free frame less. -/
theorem freeCount_setFrame {map : FrameMap} {f : Nat} (free : map.used f = false)
    (bound : f < map.scanned) : (setFrame map (f * 0x1000)).freeCount + 1 = map.freeCount := by
  simp only [freeCount, Nat.count_eq_card_filter_range, scanned_setFrame]
  have member : f ∈ (Finset.range map.scanned).filter fun g => map.used g = false :=
    Finset.mem_filter.mpr ⟨Finset.mem_range.mpr bound, free⟩
  have erased : ((Finset.range map.scanned).filter fun g =>
      (setFrame map (f * 0x1000)).used g = false) =
        ((Finset.range map.scanned).filter fun g => map.used g = false).erase f := by
    ext g
    simp only [Finset.mem_filter, Finset.mem_erase, used_setFrame_mul, Bool.or_eq_false_iff,
      decide_eq_false_iff_not]
    tauto
  rw [erased]
  exact Finset.card_erase_add_one member

/-! ### A map whose first words are full -/

/-- The frames of the first `n` words are marked. -/
def lowUsed (n nframes : Nat) : FrameMap :=
  ⟨fun i => if i < n then BitVec.allOnes 32 else 0#32, nframes⟩

@[simp] theorem used_lowUsed (n nframes f : Nat) :
    (lowUsed n nframes).used f = decide (f < 32 * n) := by
  simp only [lowUsed, used]
  by_cases low : f < 32 * n
  · rw [if_pos (by omega), BitVec.getLsbD_allOnes, decide_eq_true low]
    exact decide_eq_true (Nat.mod_lt _ (by decide))
  · rw [if_neg (by omega), BitVec.getLsbD_zero]
    exact (decide_eq_false low).symm

theorem freeCount_lowUsed {n nframes c : Nat}
    (scanned : (lowUsed n nframes).scanned = 32 * n + c) : (lowUsed n nframes).freeCount = c := by
  have low : Nat.count (fun f => (lowUsed n nframes).used f = false) (32 * n) = 0 := by
    rw [Nat.count_iff_forall_not]
    intro f below
    simp [below]
  rw [freeCount, scanned, Nat.count_add, low, Nat.count_of_forall, Nat.zero_add]
  intro f _
  simp

end Balloon.Frames.FrameMap
