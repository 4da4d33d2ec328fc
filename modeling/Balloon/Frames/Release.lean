import Balloon.Frames.Bitmap

/-!
Owns what `free_frame` leaves behind. It hands the frame number to `clear_frame`,
which expects the address of the frame, and it does not touch `present`.
-/

namespace Balloon.Frames

/-- What a release of the frame of `page` does: the mapping is gone, the bit of the
frame is clear, and no other bit has changed. -/
structure Released (map : FrameMap) (page : PageT) (result : FrameMap × PageT) : Prop where
  unmapped : result.2.present = false
  cleared : result.1.used page.frame = false
  others : ∀ f, f ≠ page.frame → result.1.used f = map.used f

variable {map : FrameMap} {page : PageT}

/-- The bit `free_frame` clears is the one of the frame that has number
`frame / 0x1000`. -/
theorem used_freeFrame (held : page.frame ≠ 0) (f : Nat) :
    (freeFrame map page).1.used f = (!decide (f = page.frame / 0x1000) && map.used f) := by
  rw [freeFrame, if_neg held]
  exact map.used_clearFrame page.frame f

theorem freeFrame_present (map : FrameMap) (page : PageT) :
    (freeFrame map page).2.present = page.present := by
  rw [freeFrame]
  split_ifs <;> rfl

/-- No nonzero frame is the one whose bit its release clears. -/
theorem used_freeFrame_self (map : FrameMap) (held : page.frame ≠ 0) :
    (freeFrame map page).1.used page.frame = map.used page.frame := by
  have other : page.frame ≠ page.frame / 0x1000 := by omega
  rw [used_freeFrame held, decide_eq_false other, Bool.not_false, Bool.true_and]

/-- Another bit changes exactly when the frame whose number is `frame / 0x1000` is
marked: that frame is released in place of the one held. -/
theorem freeFrame_others_iff (held : page.frame ≠ 0) :
    (∀ f, f ≠ page.frame → (freeFrame map page).1.used f = map.used f) ↔
      map.used (page.frame / 0x1000) = false := by
  have other : page.frame / 0x1000 ≠ page.frame := by omega
  constructor
  · intro unchanged
    rw [← unchanged _ other, used_freeFrame held, decide_eq_true rfl, Bool.not_true, Bool.false_and]
  · intro clear f different
    rw [used_freeFrame held]
    by_cases same : f = page.frame / 0x1000
    · rw [same, clear, Bool.and_false]
    · rw [decide_eq_false same, Bool.not_false, Bool.true_and]

/-- `alloc_frame` on a zero entry marks the frame it stores in the entry. -/
theorem used_allocFrame (free : map.HasFree) (bound : map.scanned ≤ 2 ^ 20)
    {isKernel isWriteable : Bool} {undef : BitVec 32} {result : FrameMap × PageT}
    (returned : allocFrame map PageT.zero isKernel isWriteable undef = some result) :
    map.used result.2.frame = false ∧ result.1.used result.2.frame = true := by
  rw [allocFrame_free rfl free bound] at returned
  obtain rfl := Option.some.inj returned
  refine ⟨(map.firstFrame_spec free undef).2.1, ?_⟩
  rw [FrameMap.used_setFrame, Nat.mul_div_cancel _ (by decide), decide_eq_true rfl, Bool.true_or]

/-- On no present entry with a marked nonzero frame does `free_frame` release the
frame, and after `alloc_frame` on a zero entry it never gives the bitmap back. -/
theorem freeFrame_never_releases (map : FrameMap) (page : PageT) (present : page.present = true)
    (held : page.frame ≠ 0) (marked : map.used page.frame = true) :
    ¬ Released map page (freeFrame map page) ∧
      (freeFrame map page).2.present = true ∧ (freeFrame map page).1.used page.frame = true ∧
      ∀ (before : FrameMap) (isKernel isWriteable : Bool) (undef : BitVec 32)
        (result : FrameMap × PageT), before.HasFree → before.scanned ≤ 2 ^ 20 →
        allocFrame before PageT.zero isKernel isWriteable undef = some result →
        result.2.frame ≠ 0 → (freeFrame result.1 result.2).1 ≠ before := by
  have stays : (freeFrame map page).2.present = true := (freeFrame_present map page).trans present
  refine ⟨?_, stays, (used_freeFrame_self map held).trans marked, ?_⟩
  · intro released
    rw [released.unmapped] at stays
    contradiction
  · intro before isKernel isWriteable undef result free bound returned nonzero restored
    obtain ⟨clear, given⟩ := used_allocFrame free bound returned
    have kept := used_freeFrame_self result.1 nonzero
    rw [restored, clear, given] at kept
    contradiction

/-- `freeFrame_never_releases` for frame 1 of a bitmap that marks it. -/
theorem freeFrame_never_releases_one :
    ¬ Released (setFrame (FrameMap.allClear 0x1000) 0x1000) ⟨true, false, false, false, false, 0, 1⟩
        (freeFrame (setFrame (FrameMap.allClear 0x1000) 0x1000)
          ⟨true, false, false, false, false, 0, 1⟩) :=
  (freeFrame_never_releases _ _ rfl (by decide) (by decide)).1

/-- Frame 1 stays marked and its entry present. -/
theorem freeFrame_keeps_frame_one :
    ¬ ∀ (map : FrameMap) (page : PageT), page.present = true → page.frame ≠ 0 →
      map.used page.frame = true → Released map page (freeFrame map page) := by
  intro always
  have released := always (setFrame (FrameMap.allClear 0x1000) 0x1000)
    ⟨true, false, false, false, false, 0, 1⟩ rfl (by decide) (by decide)
  exact absurd released.unmapped (by decide)

end Balloon.Frames
