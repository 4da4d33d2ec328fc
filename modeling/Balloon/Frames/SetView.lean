import Mathlib.Data.Set.Insert
import Mathlib.Order.Bounds.Defs
import Balloon.Frames.Bitmap

/-!
Owns the abstract view of the frame bitmap: the set of the frame numbers below `nframes`
whose bit is set, and what the functions of paging.c do to that set. When it holds every
frame, `first_frame` returns what the return register holds, so `alloc_frame` sees the
full set only where that happens to be the number it tests for.
-/

namespace Balloon.Frames

namespace FrameMap

/-- The frames that the bitmap marks. -/
def members (map : FrameMap) : Set Nat := {f | f < map.nframes ∧ map.used f = true}

/-- The frames that the bitmap does not mark. -/
def spare (map : FrameMap) : Set Nat := {f | f < map.nframes ∧ map.used f = false}

end FrameMap

/-- The bitmap is a set of frame numbers, with `set_frame`, `clear_frame` and `test_frame`
for insertion, removal and membership, and `first_frame` for the least number outside. -/
structure RefinesSet (map : FrameMap) (undef : BitVec 32) : Prop where
  set : ∀ a, a < map.nframes * 0x1000 →
    (setFrame map a).members = insert (a / 0x1000) map.members
  clear : ∀ a, a < map.nframes * 0x1000 →
    (clearFrame map a).members = map.members \ {a / 0x1000}
  test : ∀ a, a < map.nframes * 0x1000 → (testFrame map a ≠ 0#32 ↔ a / 0x1000 ∈ map.members)
  first : map.spare.Nonempty → IsLeast map.spare (firstFrame map undef)
  full : map.spare = ∅ → firstFrame map undef = 0xFFFFFFFF ∧
    ∀ page isKernel isWriteable, page.frame = 0 →
      allocFrame map page isKernel isWriteable undef = none

variable {map : FrameMap} {a : Nat} {undef : BitVec 32}

theorem members_setFrame (inside : a < map.nframes * 0x1000) :
    (setFrame map a).members = insert (a / 0x1000) map.members := by
  have below : a / 0x1000 < map.nframes := Nat.div_lt_of_lt_mul (by omega)
  ext f
  simp only [FrameMap.members, FrameMap.used_setFrame, FrameMap.nframes_setFrame,
    Set.mem_ofPred_eq, Set.mem_insert_iff, Bool.or_eq_true, decide_eq_true_eq]
  constructor
  · rintro ⟨bound, same | marked⟩
    · exact Or.inl same
    · exact Or.inr ⟨bound, marked⟩
  · rintro (rfl | ⟨bound, marked⟩)
    · exact ⟨below, Or.inl rfl⟩
    · exact ⟨bound, Or.inr marked⟩

theorem members_clearFrame (map : FrameMap) (a : Nat) :
    (clearFrame map a).members = map.members \ {a / 0x1000} := by
  ext f
  simp only [FrameMap.members, FrameMap.used_clearFrame, FrameMap.nframes_clearFrame,
    Set.mem_ofPred_eq, Set.mem_sdiff, Set.mem_singleton_iff, Bool.and_eq_true,
    Bool.not_eq_true', decide_eq_false_iff_not]
  rw [and_comm (a := ¬ f = a / 0x1000), and_assoc]

theorem testFrame_iff_member (inside : a < map.nframes * 0x1000) :
    testFrame map a ≠ 0#32 ↔ a / 0x1000 ∈ map.members := by
  have below : a / 0x1000 < map.nframes := Nat.div_lt_of_lt_mul (by omega)
  rw [testFrame_ne_zero_iff]
  exact (and_iff_right below).symm

/-- Where `nframes` fills its last word, `first_frame` looks at every frame. -/
theorem scanned_eq (words : map.nframes % 32 = 0) : map.scanned = map.nframes := by
  unfold FrameMap.scanned indexFromBit
  omega

theorem hasFree_iff_spare (words : map.nframes % 32 = 0) : map.HasFree ↔ map.spare.Nonempty := by
  unfold FrameMap.HasFree
  rw [scanned_eq words]
  rfl

/-- `first_frame` returns the least spare frame. -/
theorem firstFrame_isLeast (words : map.nframes % 32 = 0) (spare : map.spare.Nonempty)
    (undef : BitVec 32) : IsLeast map.spare (firstFrame map undef) := by
  obtain ⟨below, unmarked, before⟩ :=
    map.firstFrame_spec ((hasFree_iff_spare words).mpr spare) undef
  rw [scanned_eq words] at below
  refine ⟨⟨below, unmarked⟩, ?_⟩
  rintro f ⟨-, clear⟩
  by_contra earlier
  have marked := before f (Nat.lt_of_not_le earlier)
  rw [clear] at marked
  contradiction

/-- The bitmap refines the set exactly when a frame is spare or the return register holds
the number that stands for none. -/
theorem refinesSet_iff (words : map.nframes % 32 = 0) (undef : BitVec 32) :
    RefinesSet map undef ↔ map.spare.Nonempty ∨ undef = 0xFFFFFFFF#32 := by
  constructor
  · intro refines
    by_cases spare : map.spare.Nonempty
    · exact Or.inl spare
    · right
      have returned := (refines.full (Set.not_nonempty_iff_eq_empty.mp spare)).1
      rw [map.firstFrame_full (mt (hasFree_iff_spare words).mp spare)] at returned
      exact BitVec.eq_of_toNat_eq returned
  · intro condition
    refine ⟨fun a => members_setFrame, fun a _ => members_clearFrame map a,
      fun a => testFrame_iff_member, fun spare => firstFrame_isLeast words spare undef, ?_⟩
    intro full
    have noSpare : ¬ map.spare.Nonempty := Set.not_nonempty_iff_eq_empty.mpr full
    have none : firstFrame map undef = 0xFFFFFFFF := by
      rw [map.firstFrame_full (mt (hasFree_iff_spare words).mp noSpare),
        condition.resolve_left noSpare]
      rfl
    refine ⟨none, fun page isKernel isWriteable empty => ?_⟩
    rw [allocFrame, if_neg (not_not.mpr empty), none, if_pos rfl]

/-- The first bitmap of `init_paging`. -/
theorem refinesSet_iff_allClear :
    RefinesSet (FrameMap.allClear 4096) 0#32 ↔
      (FrameMap.allClear 4096).spare.Nonempty ∨ (0#32 : BitVec 32) = 0xFFFFFFFF#32 :=
  refinesSet_iff rfl 0#32

/-- A full bitmap, with 5 in the return register. -/
theorem full_bitmap_reuses_frame :
    ¬ ∀ (map : FrameMap) (undef : BitVec 32), map.nframes % 32 = 0 → RefinesSet map undef := by
  intro refines
  have member (f : Nat) : (⟨fun _ => BitVec.allOnes 32, 32⟩ : FrameMap).used f = true := by
    rw [FrameMap.used, BitVec.getLsbD_allOnes, decide_eq_true (Nat.mod_lt f (by decide))]
  have full : (⟨fun _ => BitVec.allOnes 32, 32⟩ : FrameMap).spare = ∅ := by
    refine Set.eq_empty_of_forall_notMem fun f spare => ?_
    exact absurd ((member f).symm.trans spare.2) (by decide)
  have returned := ((refines ⟨fun _ => BitVec.allOnes 32, 32⟩ 5#32 rfl).full full).1
  exact absurd returned (by decide)

end Balloon.Frames
