import Mathlib.Algebra.Group.Nat.Defs
import Mathlib.Algebra.Group.Int.Defs
import Mathlib.Data.List.Basic
import Mathlib.Logic.Function.Basic
import Mathlib.Order.Nat
import Mathlib.Data.Nat.Find
import Balloon.Foundation.Transition

/-!
Owns the frame bitmap of paging.c (`frames`, `nframes`), the page entry
`page_t` of memory.h, and the functions that read and write them: `set_frame`,
`clear_frame`, `test_frame`, `first_frame`, `alloc_frame` and `free_frame`.
`frames` is an array of its own here; where `init_paging` places it is owned by
the paging modules.
-/

namespace Balloon.Frames

open Balloon.Foundation

/-- The globals `frames` and `nframes`. -/
structure FrameMap where
  frames : Nat → BitVec 32
  nframes : Nat

/-- `page_t`: the bit fields of a 32-bit page entry. -/
structure PageT where
  present : Bool
  rw : Bool
  user : Bool
  accessed : Bool
  dirty : Bool
  unused : Nat
  frame : Nat
deriving DecidableEq, Repr

/-- The page entry whose 32 bits are zero. -/
def PageT.zero : PageT := ⟨false, false, false, false, false, 0, 0⟩

def indexFromBit (a : Nat) : Nat := a / (8 * 4)

def offsetFromBit (a : Nat) : Nat := a % (8 * 4)

def setFrame (map : FrameMap) (frameAddr : Nat) : FrameMap :=
  let frame := frameAddr / 0x1000
  let idx := indexFromBit frame
  let off := offsetFromBit frame
  { map with frames := Function.update map.frames idx (map.frames idx ||| 1#32 <<< off) }

def clearFrame (map : FrameMap) (frameAddr : Nat) : FrameMap :=
  let frame := frameAddr / 0x1000
  let idx := indexFromBit frame
  let off := offsetFromBit frame
  { map with frames := Function.update map.frames idx (map.frames idx &&& ~~~(1#32 <<< off)) }

def testFrame (map : FrameMap) (frameAddr : Nat) : BitVec 32 :=
  let frame := frameAddr / 0x1000
  let idx := indexFromBit frame
  let off := offsetFromBit frame
  map.frames idx &&& 1#32 <<< off

/-- The inner loop of `first_frame`: the first clear bit of a word that is not
full. -/
def firstClearBit (word : BitVec 32) : Option Nat :=
  if word ≠ 0xFFFFFFFF#32 then
    (List.range 32).find? fun j => word &&& 1#32 <<< j = 0#32
  else none

/-- `first_frame`. The source has no `return` after its loops: a call that
finds no clear bit yields whatever the return register holds, here `undef`. -/
def firstFrame (map : FrameMap) (undef : BitVec 32) : Nat :=
  ((List.range (indexFromBit map.nframes)).findSome? fun i =>
    (firstClearBit (map.frames i)).map fun j => i * 4 * 8 + j).getD undef.toNat

/-- `alloc_frame`; `none` when the call panics, which does not return. -/
def allocFrame (map : FrameMap) (page : PageT) (isKernel isWriteable : Bool)
    (undef : BitVec 32) : Option (FrameMap × PageT) :=
  if page.frame ≠ 0 then some (map, page)
  else
    let idx := firstFrame map undef
    if idx = 0xFFFFFFFF then none
    else
      some (setFrame map (idx * 0x1000 % 2 ^ 32),
        { page with present := true, rw := isWriteable, user := !isKernel,
                    frame := idx % 2 ^ 20 })

def freeFrame (map : FrameMap) (page : PageT) : FrameMap × PageT :=
  if page.frame = 0 then (map, page)
  else (clearFrame map page.frame, { page with frame := 0 })

/-! ### The bitmap as a set of frame numbers -/

namespace FrameMap

/-- Frame `f` is marked in the bitmap. -/
def used (map : FrameMap) (f : Nat) : Bool := (map.frames (f / 32)).getLsbD (f % 32)

/-- No frame is marked. -/
def allClear (nframes : Nat) : FrameMap := ⟨fun _ => 0#32, nframes⟩

@[simp] theorem used_allClear (nframes f : Nat) : (allClear nframes).used f = false := by
  simp [used, allClear]

@[simp] theorem nframes_setFrame (map : FrameMap) (a : Nat) :
    (setFrame map a).nframes = map.nframes := rfl

@[simp] theorem nframes_clearFrame (map : FrameMap) (a : Nat) :
    (clearFrame map a).nframes = map.nframes := rfl

private theorem bit_one_shift (k : Nat) {j : Nat} (bound : k < 32) :
    (1#32 <<< j).getLsbD k = decide (k = j) := by
  simp only [BitVec.getLsbD_shiftLeft, BitVec.getLsbD_one, bound, decide_true, Bool.true_and]
  by_cases below : k < j
  · have different : k ≠ j := by omega
    simp [below, different]
  · by_cases same : k = j
    · simp [same]
    · have positive : k - j ≠ 0 := by omega
      simp [below, same, positive]

/-- `set_frame` marks the addressed frame and no other. -/
theorem used_setFrame (map : FrameMap) (a f : Nat) :
    (setFrame map a).used f = (decide (f = a / 0x1000) || map.used f) := by
  simp only [used, setFrame, indexFromBit, offsetFromBit]
  by_cases word : f / 32 = a / 0x1000 / 32
  · rw [word, Function.update_self, BitVec.getLsbD_or, bit_one_shift _ (by omega), Bool.or_comm]
    congr 1
    exact decide_eq_decide.mpr (by omega)
  · have different : f ≠ a / 0x1000 := by
      rintro rfl
      exact word rfl
    rw [Function.update_of_ne word]
    simp [different]

/-- `clear_frame` unmarks the addressed frame and no other. -/
theorem used_clearFrame (map : FrameMap) (a f : Nat) :
    (clearFrame map a).used f = (!decide (f = a / 0x1000) && map.used f) := by
  simp only [used, clearFrame, indexFromBit, offsetFromBit]
  by_cases word : f / 32 = a / 0x1000 / 32
  · have bound : f % 32 < 32 := by omega
    rw [word, Function.update_self, BitVec.getLsbD_and, BitVec.getLsbD_not,
      bit_one_shift _ bound, Bool.and_comm]
    simp only [bound, decide_true, Bool.true_and]
    congr 2
    exact decide_eq_decide.mpr (by omega)
  · have different : f ≠ a / 0x1000 := by
      rintro rfl
      exact word rfl
    rw [Function.update_of_ne word]
    simp [different]

end FrameMap

/-! ### `first_frame` -/

private theorem masked_eq_zero_iff (word : BitVec 32) {j : Nat} (bound : j < 32) :
    word &&& 1#32 <<< j = 0#32 ↔ word.getLsbD j = false := by
  constructor
  · intro zero
    have bit := congrArg (fun w => BitVec.getLsbD w j) zero
    simpa [FrameMap.bit_one_shift j bound] using bit
  · intro clear
    apply BitVec.eq_of_getLsbD_eq
    intro k inWord
    rw [BitVec.getLsbD_and, FrameMap.bit_one_shift k inWord]
    by_cases same : k = j
    · simp [same, clear]
    · simp [same]

/-- `test_frame` tells whether the addressed frame is marked. -/
theorem testFrame_ne_zero_iff (map : FrameMap) (a : Nat) :
    testFrame map a ≠ 0#32 ↔ map.used (a / 0x1000) = true := by
  have bound : a / 0x1000 % 32 < 32 := Nat.mod_lt _ (by decide)
  simp only [testFrame, indexFromBit, offsetFromBit, FrameMap.used, ne_eq,
    masked_eq_zero_iff _ bound, Bool.not_eq_false]

theorem firstClearBit_eq_some_iff {word : BitVec 32} {j : Nat} :
    firstClearBit word = some j ↔
      j < 32 ∧ word.getLsbD j = false ∧ ∀ k, k < j → word.getLsbD k = true := by
  unfold firstClearBit
  split
  next _ =>
    rw [List.find?_range_eq_some]
    simp only [List.mem_range, decide_eq_true_eq, Bool.not_eq_true', decide_eq_false_iff_not]
    constructor
    · rintro ⟨clear, bound, earlier⟩
      refine ⟨bound, (masked_eq_zero_iff word bound).mp clear, fun k below => ?_⟩
      have set := mt (masked_eq_zero_iff word (by omega : k < 32)).mpr (earlier k below)
      simpa using set
    · rintro ⟨bound, clear, earlier⟩
      refine ⟨(masked_eq_zero_iff word bound).mpr clear, bound, fun k below zero => ?_⟩
      rw [masked_eq_zero_iff word (by omega), earlier k below] at zero
      contradiction
  next full =>
    have everyBit : ∀ j, j < 32 → word.getLsbD j = true := by
      intro j bound
      rw [not_not.mp full, show (0xFFFFFFFF#32 : BitVec 32) = BitVec.allOnes 32 from rfl,
        BitVec.getLsbD_allOnes, decide_eq_true bound]
    constructor
    · intro contradictory
      contradiction
    · rintro ⟨bound, clear, -⟩
      rw [everyBit j bound] at clear
      contradiction

theorem firstClearBit_eq_none_iff {word : BitVec 32} :
    firstClearBit word = none ↔ ∀ j, j < 32 → word.getLsbD j = true := by
  constructor
  · intro absent j bound
    by_contra clear
    obtain ⟨k, found⟩ : ∃ k, firstClearBit word = some k := by
      have someClear : ∃ k, word.getLsbD k = false := ⟨j, by simpa using clear⟩
      have least := Nat.find_spec someClear
      refine ⟨Nat.find someClear, firstClearBit_eq_some_iff.mpr ⟨?_, least, fun k below => ?_⟩⟩
      · exact lt_of_le_of_lt (Nat.find_min' someClear (by simpa using clear)) bound
      · simpa using Nat.find_min someClear below
    rw [absent] at found
    contradiction
  · intro full
    cases found : firstClearBit word with
    | none => rfl
    | some j =>
        obtain ⟨bound, clear, -⟩ := firstClearBit_eq_some_iff.mp found
        rw [full j bound] at clear
        contradiction

namespace FrameMap

/-- The frames whose bits the loops of `first_frame` look at. -/
def scanned (map : FrameMap) : Nat := 32 * indexFromBit map.nframes

/-- Some frame that `first_frame` looks at is not marked. -/
def HasFree (map : FrameMap) : Prop := ∃ f, f < map.scanned ∧ map.used f = false

theorem word_full_iff (map : FrameMap) (i : Nat) :
    firstClearBit (map.frames i) = none ↔ ∀ f, f / 32 = i → map.used f = true := by
  rw [firstClearBit_eq_none_iff]
  constructor
  · rintro full f rfl
    exact full (f % 32) (by omega)
  · intro full j bound
    have marked := full (32 * i + j) (by omega)
    rw [used, show (32 * i + j) / 32 = i by omega, show (32 * i + j) % 32 = j by omega] at marked
    exact marked

/-- With a free frame left, `first_frame` returns the least one. -/
theorem firstFrame_spec {map : FrameMap} (free : map.HasFree) (undef : BitVec 32) :
    firstFrame map undef < map.scanned ∧ map.used (firstFrame map undef) = false ∧
      ∀ f, f < firstFrame map undef → map.used f = true := by
  unfold firstFrame
  cases found : (List.range (indexFromBit map.nframes)).findSome? fun i =>
      (firstClearBit (map.frames i)).map fun j => i * 4 * 8 + j with
  | none =>
      obtain ⟨f, bound, clear⟩ := free
      rw [List.findSome?_eq_none_iff] at found
      have wordFull := found (f / 32) (List.mem_range.mpr (by unfold scanned at bound; omega))
      rw [Option.map_eq_none_iff, map.word_full_iff] at wordFull
      rw [wordFull f rfl] at clear
      contradiction
  | some r =>
      obtain ⟨i, bound, hit, earlier⟩ := findSome?_range found
      obtain ⟨j, inWord, rfl⟩ := Option.map_eq_some_iff.mp hit
      obtain ⟨jBound, clear, before⟩ := firstClearBit_eq_some_iff.mp inWord
      simp only [Option.getD_some]
      have wordIndex : (i * 4 * 8 + j) / 32 = i := by omega
      have bitIndex : (i * 4 * 8 + j) % 32 = j := by omega
      refine ⟨by unfold scanned; omega, by rw [used, wordIndex, bitIndex, clear], ?_⟩
      intro f below
      rcases Nat.lt_or_ge (f / 32) i with lower | upper
      · have wordFull := earlier (f / 32) lower
        rw [Option.map_eq_none_iff, map.word_full_iff] at wordFull
        exact wordFull f rfl
      · have sameWord : f / 32 = i := by omega
        rw [used, sameWord]
        exact before (f % 32) (by omega)

/-- With every frame marked, `first_frame` falls off its end. -/
theorem firstFrame_full {map : FrameMap} (full : ¬ map.HasFree) (undef : BitVec 32) :
    firstFrame map undef = undef.toNat := by
  unfold firstFrame
  rw [List.findSome?_eq_none_iff.mpr, Option.getD_none]
  intro i member
  rw [Option.map_eq_none_iff, map.word_full_iff]
  rintro f rfl
  by_contra clear
  have inRange := List.mem_range.mp member
  exact full ⟨f, by unfold scanned; omega, by simpa using clear⟩

end FrameMap

/-! ### `alloc_frame` -/

/-- `first_frame` never runs past `nframes`, so with at most `2 ^ 20` frames
and a free one left `alloc_frame` hands out the least free frame. -/
theorem allocFrame_free {map : FrameMap} {page : PageT} (empty : page.frame = 0)
    (free : map.HasFree) (bound : map.scanned ≤ 2 ^ 20) (isKernel isWriteable : Bool)
    (undef : BitVec 32) :
    allocFrame map page isKernel isWriteable undef =
      some (setFrame map (firstFrame map undef * 0x1000),
        { page with present := true, rw := isWriteable, user := !isKernel,
                    frame := firstFrame map undef }) := by
  have below := (map.firstFrame_spec free undef).1
  have small : firstFrame map undef * 0x1000 % 2 ^ 32 = firstFrame map undef * 0x1000 :=
    Nat.mod_eq_of_lt (by omega)
  have index : firstFrame map undef % 2 ^ 20 = firstFrame map undef :=
    Nat.mod_eq_of_lt (by omega)
  simp only [allocFrame, empty, ne_eq, not_true_eq_false, if_false, small, index]
  rw [if_neg (by omega)]

theorem allocFrame_held {map : FrameMap} {page : PageT} (held : page.frame ≠ 0)
    (isKernel isWriteable : Bool) (undef : BitVec 32) :
    allocFrame map page isKernel isWriteable undef = some (map, page) := if_pos held

theorem freeFrame_empty {map : FrameMap} {page : PageT} (empty : page.frame = 0) :
    freeFrame map page = (map, page) := if_pos empty

end Balloon.Frames
