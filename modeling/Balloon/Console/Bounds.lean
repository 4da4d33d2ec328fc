import Balloon.Foundation.Transition
import Balloon.Console.Model

/-!
Owns where `console_putchar` stores: which cells one call writes, and along which
sequences of characters every store stays inside the 25 rows of 80 columns.

Only `console_scroll` limits the cursor, and only its row.
-/

namespace Balloon.Console

open Balloon.Foundation
open Balloon.Libc

namespace Screen

variable {s : Screen}

/-! ### Stores -/

/-- Below row 25 `console_scroll` does nothing. -/
theorem consoleScroll_of_lt (onScreen : s.yPos < 25) : s.consoleScroll = s :=
  if_neg (Nat.not_le.mpr onScreen)

theorem consoleScroll_xPos (s : Screen) : s.consoleScroll.xPos = s.xPos := by
  by_cases low : s.yPos < 25
  · rw [consoleScroll_of_lt low]
  · rw [consoleScroll, if_pos (Nat.not_lt.mp low)]
    simp only [xPos_storeRange]

theorem consoleScroll_yPos (s : Screen) : s.consoleScroll.yPos < 25 := by
  by_cases low : s.yPos < 25
  · rw [consoleScroll_of_lt low]
    exact low
  · rw [consoleScroll, if_pos (Nat.not_lt.mp low)]
    exact (by decide : 24 < 25)

/-- `console_scroll` stores on the screen only. -/
theorem mem_stored_consoleScroll {i : Nat} (stored : i ∈ s.consoleScroll.stored) :
    i ∈ s.stored ∨ i < 80 * 25 := by
  by_cases low : s.yPos < 25
  · rw [consoleScroll_of_lt low] at stored
    exact Or.inl stored
  · rw [consoleScroll, if_pos (Nat.not_lt.mp low)] at stored
    simp only [mem_stored_storeRange] at stored
    rcases stored with (old | moved) | cleared
    · exact Or.inl old
    · exact Or.inr (by omega)
    · exact Or.inr (by omega)

/-! ### One character -/

/-- Every store so far is on the screen, and so is the cursor; column 80 is where a
full line leaves it. -/
structure InBounds (s : Screen) : Prop where
  stored : ∀ i ∈ s.stored, i < 80 * 25
  row : s.yPos < 25
  column : s.xPos ≤ 80

/-- The character does not move a cursor that has left the line further right. -/
def StaysInLine (s : Screen) (c : UInt8) : Prop :=
  printable c = true ∨ c = 0x09 → s.xPos < 80

theorem placeChar_printable {c : UInt8} (print : printable c = true) :
    s.placeChar c =
      { s.store (wrap32 (wrap32 (s.yPos * 80) + s.xPos))
          (BitVec.ofNat 16 c.toNat ||| attributeOf s.backColour s.foreColour) with
        xPos := wrap32 (s.xPos + 1) } := by
  have visible : 0x20 ≤ c.toNat := by
    simp only [printable, decide_eq_true_eq] at print
    exact print.1
  have notControl : ∀ d : UInt8, d.toNat < 0x20 → c ≠ d := by
    rintro d low rfl
    omega
  rw [placeChar, if_neg fun both => notControl 0x08 (by decide) both.1,
    if_neg (notControl 0x09 (by decide)), if_neg (notControl 0x0D (by decide)),
    if_neg (notControl 0x0A (by decide)), if_pos print]

theorem placeChar_tab : s.placeChar 0x09 = { s with xPos := wrap32 (s.xPos + 8) / 8 * 8 } := by
  have notBackspace : ¬ ((0x09 : UInt8) = 0x08 ∧ s.xPos > 0) := fun both =>
    absurd both.1 (by decide)
  rw [placeChar, if_neg notBackspace, if_pos rfl]

/-- No other character stores a cell or moves the cursor to the right. -/
theorem placeChar_other {c : UInt8} (notPrint : ¬ (printable c = true ∨ c = 0x09)) :
    (s.placeChar c).stored = s.stored ∧ (s.placeChar c).xPos ≤ s.xPos := by
  obtain ⟨notPrintable, notTab⟩ := not_or.mp notPrint
  rw [placeChar, if_neg notTab]
  split_ifs
  · exact ⟨rfl, Nat.sub_le _ _⟩
  · exact ⟨rfl, Nat.zero_le _⟩
  · exact ⟨rfl, Nat.zero_le _⟩
  · exact ⟨rfl, Nat.le_refl _⟩

/-- A character that stays in its line keeps every store on the screen. -/
theorem inBounds_consolePutchar (bounds : InBounds s) {c : UInt8} (stays : StaysInLine s c) :
    InBounds (s.consolePutchar c) := by
  have row := bounds.row
  have column := bounds.column
  have placed : (∀ i ∈ (s.placeChar c).stored, i < 80 * 25) ∧ (s.placeChar c).xPos ≤ 80 := by
    by_cases print : printable c = true
    · have room := stays (Or.inl print)
      rw [placeChar_printable print]
      constructor
      · intro i member
        rcases List.mem_cons.mp member with rfl | old
        · rw [wrap32_of_lt (by omega : s.yPos * 80 < 2 ^ 32), wrap32_of_lt (by omega)]
          omega
        · exact bounds.stored i old
      · simp only [wrap32]
        omega
    · by_cases tab : c = 0x09
      · have room := stays (Or.inr tab)
        subst tab
        rw [placeChar_tab]
        refine ⟨bounds.stored, ?_⟩
        simp only [wrap32]
        omega
      · obtain ⟨sameStored, left⟩ := placeChar_other (s := s) (not_or.mpr ⟨print, tab⟩)
        rw [sameStored]
        exact ⟨bounds.stored, Nat.le_trans left column⟩
  refine ⟨fun i member => ?_, consoleScroll_yPos _, ?_⟩
  · rcases mem_stored_consoleScroll member with old | onScreen
    · exact placed.1 i old
    · exact onScreen
  · exact Nat.le_trans (Nat.le_of_eq (consoleScroll_xPos _)) placed.2

/-- A printable character or a tab behind the last column moves the cursor out of
the line. -/
theorem not_inBounds_consolePutchar (bounds : InBounds s) {c : UInt8}
    (leaves : ¬ StaysInLine s c) : ¬ InBounds (s.consolePutchar c) := by
  have column := bounds.column
  obtain ⟨kind, right⟩ := Classical.not_imp.mp leaves
  have full : s.xPos = 80 := by omega
  have moved : 80 < (s.placeChar c).xPos := by
    rcases kind with print | rfl
    · rw [placeChar_printable print]
      simp only [full]
      decide
    · rw [placeChar_tab]
      simp only [full]
      decide
  intro inBounds
  have stillColumn : (s.placeChar c).consoleScroll.xPos ≤ 80 := inBounds.column
  rw [consoleScroll_xPos] at stillColumn
  omega

/-! ### Any sequence of characters -/

/-- One call of `console_putchar`. -/
def putcharStep (s : Screen) (c : UInt8) : Option Screen := some (s.consolePutchar c)

theorem inBounds_consoleClear (videomem : Nat → BitVec 16) :
    InBounds (initial videomem).consoleClear where
  stored := by
    intro i member
    simp only [consoleClear, consoleMoveCursor, mem_stored_storeRange, initial, List.not_mem_nil,
      false_or] at member
    omega
  row := (by decide : 0 < 25)
  column := Nat.zero_le _

/-- From `console_clear`, every store is on the screen and the cursor stays in its
25 rows and 80 columns after every character exactly when printable characters and
tabs come only while the cursor is left of column 80. -/
theorem inBounds_iff_staysInLine (videomem : Nat → BitVec 16) (chars : List UInt8) :
    (∀ s ∈ visited putcharStep (initial videomem).consoleClear chars, InBounds s) ↔
      EveryStep putcharStep StaysInLine (initial videomem).consoleClear chars := by
  refine visited_good_iff_everyStep (fun s inv => inv) ?_ ?_ (inBounds_consoleClear videomem)
    (everyStep_true _ _ _)
  · intro s c s' bounds _ stays returned
    exact Option.some.inj returned ▸ inBounds_consolePutchar bounds stays
  · intro s c bounds _ leaves
    exact ⟨_, rfl, not_inBounds_consolePutchar bounds leaves⟩

theorem foldlM_putcharStep (s : Screen) (chars : List UInt8) :
    chars.foldlM putcharStep s = some (chars.foldl consolePutchar s) := by
  induction chars generalizing s with
  | nil => rfl
  | cons c rest inductionHypothesis => exact inductionHypothesis (s.consolePutchar c)

theorem xPos_tabs (start : s.xPos = 0) {n : Nat} (few : n ≤ 100) :
    ((List.replicate n 0x09).foldl consolePutchar s).xPos = 8 * n := by
  induction n with
  | zero => exact start
  | succ n inductionHypothesis =>
      rw [List.replicate_succ', List.foldl_append, List.foldl_cons, List.foldl_nil]
      have before := inductionHypothesis (by omega)
      generalize (List.replicate n 0x09).foldl consolePutchar s = t at before
      have moved : (t.consolePutchar 0x09).xPos = (t.placeChar 0x09).xPos := consoleScroll_xPos _
      rw [moved, placeChar_tab]
      simp only [before, wrap32]
      omega

/-- Eleven tabs leave the cursor in column 88. -/
theorem eleven_tabs_leave_line :
    ¬ ∀ (videomem : Nat → BitVec 16) (chars : List UInt8),
      ∀ s ∈ visited putcharStep (initial videomem).consoleClear chars, InBounds s := by
  intro always
  have column := (always (fun _ => blank) (List.replicate 11 0x09) _ 
    (mem_visited_of_foldlM (foldlM_putcharStep _ _))).column
  rw [xPos_tabs rfl (by decide)] at column
  exact absurd column (by decide)

end Screen

end Balloon.Console
