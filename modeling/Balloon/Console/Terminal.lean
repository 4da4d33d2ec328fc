import Mathlib.Data.List.Induction
import Mathlib.Data.List.TakeWhile
import Balloon.Console.Bounds

/-!
Owns what the screen shows: the abstract terminal is the list of the lines printed
so far, of which the last 24 are visible, and `console_puts` refines it for lines
that fit the 80 columns.
-/

namespace Balloon.Console

open Balloon.Foundation
open Balloon.Libc

/-- A line of printable characters that fits the screen. -/
structure Line (line : List UInt8) : Prop where
  fits : line.length ≤ 80
  visible : ∀ c ∈ line, 0x20 ≤ c.toNat ∧ c.toNat ≤ 0x7F

/-- White on black. -/
def glyph (c : UInt8) : BitVec 16 := BitVec.ofNat 16 c.toNat ||| attributeOf 0#8 15#8

/-- Column `column` of a line, padded with blanks. -/
def lineCell (text : List UInt8) (column : Nat) : BitVec 16 := (text[column]?.map glyph).getD blank

/-- The lines on the screen: the last 24 printed. -/
def window (lines : List (List UInt8)) : List (List UInt8) := lines.drop (lines.length - 24)

/-- Row `row`, column `column` of the terminal that has printed `lines`. -/
def terminalCell (lines : List (List UInt8)) (row column : Nat) : BitVec 16 :=
  ((window lines)[row]?.map (lineCell · column)).getD blank

namespace Screen

/-- The screen shows the terminal that has printed `lines`, with the cursor below
the last one. -/
structure Shows (s : Screen) (lines : List (List UInt8)) : Prop where
  cells : ∀ row column, row < 25 → column < 80 →
    s.videomem (row * 80 + column) = terminalCell lines row column
  column : s.xPos = 0
  row : s.yPos = min lines.length 24
  cursor : s.cursor = min lines.length 24 * 80
  back : s.backColour = 0#8
  fore : s.foreColour = 15#8

/-- `console_puts` of a line followed by a newline. -/
def printLine (s : Screen) (line : List UInt8) : Screen := (s.consolePuts line).consolePutchar 0x0A

variable {s : Screen} {lines : List (List UInt8)} {line : List UInt8}

theorem shows_consoleClear (videomem : Nat → BitVec 16) :
    Shows (initial videomem).consoleClear [] where
  cells := by
    intro row column rowLt columnLt
    have inRange : 0 ≤ row * 80 + column ∧ row * 80 + column < 0 + 80 * 25 := by omega
    simp only [consoleClear, consoleMoveCursor, videomem_storeRange_blank, if_pos inRange]
    rfl
  column := rfl
  row := rfl
  cursor := rfl
  back := by simp only [consoleClear, consoleMoveCursor, backColour_storeRange, initial]
  fore := by simp only [consoleClear, consoleMoveCursor, foreColour_storeRange, initial]

/-! ### Characters of a line -/

theorem printable_of_visible {c : UInt8} (visible : 0x20 ≤ c.toNat ∧ c.toNat ≤ 0x7F) :
    printable c = true := by
  simp only [printable, decide_eq_true_eq]
  omega

/-- `console_puts` on a line without NUL characters. -/
theorem consolePuts_eq (s : Screen) (good : Line line) :
    s.consolePuts line = line.foldl consolePutchar s := by
  have all : line.takeWhile (· ≠ 0) = line := by
    rw [List.takeWhile_eq_self_iff]
    intro c member
    have visible := (good.visible c member).1
    simp only [ne_eq, decide_eq_true_eq]
    rintro rfl
    exact absurd visible (by decide)
  rw [consolePuts, all]

/-- What printing the characters of a text from the cursor on leaves. -/
structure Typed (s : Screen) (text : List UInt8) (t : Screen) : Prop where
  cells : ∀ i, t.videomem i =
    if s.yPos * 80 + s.xPos ≤ i ∧ i < s.yPos * 80 + s.xPos + text.length then
      (text[i - (s.yPos * 80 + s.xPos)]?.map glyph).getD blank
    else s.videomem i
  column : t.xPos = s.xPos + text.length
  row : t.yPos = s.yPos
  back : t.backColour = 0#8
  fore : t.foreColour = 15#8

theorem typed_foldl (onScreen : s.yPos < 25) (back : s.backColour = 0#8)
    (fore : s.foreColour = 15#8) (room : s.xPos + line.length ≤ 80)
    (visible : ∀ c ∈ line, 0x20 ≤ c.toNat ∧ c.toNat ≤ 0x7F) :
    Typed s line (line.foldl consolePutchar s) := by
  induction line generalizing s with
  | nil =>
      exact ⟨fun i => (if_neg (by simp only [List.length_nil]; omega)).symm, rfl, rfl, back, fore⟩
  | cons c rest inductionHypothesis =>
      rw [List.length_cons] at room
      obtain ⟨visibleHead, visibleTail⟩ := List.forall_mem_cons.mp visible
      have placed := placeChar_printable (s := s) (printable_of_visible visibleHead)
      have here : wrap32 (wrap32 (s.yPos * 80) + s.xPos) = s.yPos * 80 + s.xPos := by
        rw [wrap32_of_lt (by omega : s.yPos * 80 < 2 ^ 32), wrap32_of_lt (by omega)]
      have next : wrap32 (s.xPos + 1) = s.xPos + 1 := wrap32_of_lt (by omega)
      rw [here, next, back, fore] at placed
      have step : s.consolePutchar c = (s.placeChar c).consoleMoveCursor := by
        rw [consolePutchar, consoleScroll_of_lt (by rw [placed]; exact onScreen)]
      rw [placed] at step
      have typed := inductionHypothesis (s := s.consolePutchar c) (by rw [step]; exact onScreen)
        (by rw [step]; exact back) (by rw [step]; exact fore)
        (by rw [step]; change s.xPos + 1 + rest.length ≤ 80; omega) visibleTail
      have cells : ∀ i, (s.consolePutchar c).videomem i =
          if i = s.yPos * 80 + s.xPos then glyph c else s.videomem i := by
        intro i
        rw [step]
        exact videomem_store s _ i _
      have column : (s.consolePutchar c).xPos = s.xPos + 1 := by
        rw [step]
        rfl
      have row : (s.consolePutchar c).yPos = s.yPos := by
        rw [step]
        rfl
      refine ⟨fun i => ?_, ?_, typed.row.trans row, typed.back, typed.fore⟩
      · rw [List.foldl_cons, typed.cells, column, row, cells, List.length_cons]
        by_cases first : i = s.yPos * 80 + s.xPos
        · subst first
          rw [if_neg (by omega), if_pos rfl, if_pos (by omega), Nat.sub_self]
          rfl
        · rw [if_neg first]
          by_cases inside : s.yPos * 80 + s.xPos ≤ i ∧ i < s.yPos * 80 + s.xPos + (rest.length + 1)
          · rw [if_pos (by omega), if_pos inside]
            have index : i - (s.yPos * 80 + s.xPos) = (i - (s.yPos * 80 + (s.xPos + 1))) + 1 := by
              omega
            rw [index, List.getElem?_cons_succ]
          · rw [if_neg (by omega), if_neg inside]
      · rw [List.foldl_cons, typed.column, column, List.length_cons]
        omega

/-! ### The end of a line -/

theorem terminalCell_eq (lines : List (List UInt8)) (row column : Nat) :
    terminalCell lines row column =
      (lines[lines.length - 24 + row]?.map (lineCell · column)).getD blank := by
  rw [terminalCell, window, List.getElem?_drop]

/-- Below the last line the terminal is blank. -/
theorem terminalCell_below {row : Nat} (below : min lines.length 24 ≤ row) (column : Nat) :
    terminalCell lines row column = blank := by
  rw [terminalCell_eq, List.getElem?_eq_none (by omega)]
  rfl

/-- A line printed while the screen is not full goes below the others. -/
theorem terminalCell_short (few : lines.length < 24) (line : List UInt8) (row column : Nat) :
    terminalCell (lines ++ [line]) row column =
      if row = lines.length then lineCell line column else terminalCell lines row column := by
  have start : (lines ++ [line]).length - 24 = 0 := by
    rw [List.length_append, List.length_singleton]
    omega
  have start' : lines.length - 24 = 0 := by omega
  rw [terminalCell_eq, terminalCell_eq, start, start', Nat.zero_add]
  by_cases last : row = lines.length
  · rw [if_pos last, last, List.getElem?_append_right (Nat.le_refl _), Nat.sub_self]
    rfl
  · rw [if_neg last]
    rcases Nat.lt_or_gt_of_ne last with above | below
    · rw [List.getElem?_append_left above]
    · rw [List.getElem?_eq_none (by rw [List.length_append, List.length_singleton]; omega),
        List.getElem?_eq_none (by omega)]

/-- A line printed on a full screen pushes the others up. -/
theorem terminalCell_full (full : 24 ≤ lines.length) (line : List UInt8) {row : Nat}
    (onScreen : row < 24) (column : Nat) :
    terminalCell (lines ++ [line]) row column =
      if row = 23 then lineCell line column else terminalCell lines (row + 1) column := by
  have start : (lines ++ [line]).length - 24 + row = lines.length - 24 + (row + 1) := by
    rw [List.length_append, List.length_singleton]
    omega
  rw [terminalCell_eq, terminalCell_eq, start]
  by_cases last : row = 23
  · rw [if_pos last, List.getElem?_append_right (by omega)]
    have index : lines.length - 24 + (row + 1) - lines.length = 0 := by omega
    rw [index]
    rfl
  · rw [if_neg last, List.getElem?_append_left (by omega)]

theorem consolePutchar_newline_eq (s : Screen) :
    s.consolePutchar 0x0A =
      ({ s with yPos := wrap32 (s.yPos + 1), xPos := 0 } : Screen).consoleScroll.consoleMoveCursor := by
  have notBackspace : ¬ ((0x0A : UInt8) = 0x08 ∧ s.xPos > 0) := fun both =>
    absurd both.1 (by decide)
  rw [consolePutchar, placeChar, if_neg notBackspace, if_neg (by decide), if_neg (by decide),
    if_pos rfl]

/-- The row of the cursor after the characters of `line`, and the other rows. -/
theorem Shows.typed_cell (shows : Shows s lines) {t : Screen} (typed : Typed s line t)
    {row column : Nat} (rowLt : row < 25) (columnLt : column < 80) (fits : line.length ≤ 80) :
    t.videomem (row * 80 + column) =
      if row = min lines.length 24 then lineCell line column
      else terminalCell lines row column := by
  have cursorRow := shows.row
  rw [typed.cells, shows.column, Nat.add_zero]
  by_cases here : row = s.yPos
  · have sameRow : row = min lines.length 24 := here.trans cursorRow
    rw [if_pos sameRow]
    by_cases inLine : column < line.length
    · rw [if_pos (by omega), here, Nat.add_sub_cancel_left]
      rfl
    · rw [if_neg (by omega), shows.cells row column rowLt columnLt,
        terminalCell_below (Nat.le_of_eq sameRow.symm), lineCell,
        List.getElem?_eq_none (Nat.not_lt.mp inLine)]
      rfl
  · have otherRow : row ≠ min lines.length 24 := fun same => here (same.trans cursorRow.symm)
    rw [if_neg otherRow, if_neg (by omega), shows.cells row column rowLt columnLt]

/-- One line and its newline. -/
theorem Shows.printLine (shows : Shows s lines) (good : Line line) :
    Shows (s.printLine line) (lines ++ [line]) := by
  have cursorRow := shows.row
  have cursorColumn := shows.column
  have fits := good.fits
  have typed := typed_foldl (s := s) (by omega) shows.back shows.fore
    (by rw [cursorColumn]; omega) good.visible
  rw [Screen.printLine, consolePuts_eq s good, consolePutchar_newline_eq]
  generalize line.foldl consolePutchar s = t at typed
  have cells := fun (row column : Nat) (rowLt : row < 25) (columnLt : column < 80) =>
    shows.typed_cell typed rowLt columnLt fits
  have next : wrap32 (t.yPos + 1) = min lines.length 24 + 1 := by
    rw [typed.row, cursorRow]
    exact wrap32_of_lt (by omega)
  rw [next]
  have length : (lines ++ [line]).length = lines.length + 1 := by
    rw [List.length_append, List.length_singleton]
  by_cases few : lines.length < 24
  · rw [consoleScroll_of_lt (by simp only; omega)]
    refine ⟨?_, rfl, ?_, ?_, typed.back, typed.fore⟩
    · intro row column rowLt columnLt
      refine (cells row column rowLt columnLt).trans ?_
      rw [terminalCell_short few, Nat.min_eq_left (Nat.le_of_lt few)]
    · change min lines.length 24 + 1 = _
      omega
    · change ((min lines.length 24 + 1) * 80 + 0) % 2 ^ 16 = _
      omega
  · have full : 24 ≤ lines.length := Nat.not_lt.mp few
    have scrolls : (25 : Nat) ≤ min lines.length 24 + 1 := by omega
    rw [consoleScroll, if_pos scrolls]
    refine ⟨?_, ?_, ?_, ?_, ?_, ?_⟩
    · intro row column rowLt columnLt
      simp only [consoleMoveCursor, videomem_storeRange_blank, videomem_storeRange_shift,
        Nat.zero_mul]
      by_cases lastRow : row = 24
      · rw [if_pos (by omega), terminalCell_below (by omega)]
      · rw [if_neg (by omega), if_pos (by omega),
          show row * 80 + column + 80 = (row + 1) * 80 + column by omega,
          cells (row + 1) column (by omega) columnLt, terminalCell_full full line (by omega)]
        exact if_congr (by omega) rfl rfl
    · simp only [consoleMoveCursor, xPos_storeRange]
    · simp only [consoleMoveCursor]
      omega
    · simp only [consoleMoveCursor, xPos_storeRange]
      omega
    · simp only [consoleMoveCursor, backColour_storeRange, typed.back]
    · simp only [consoleMoveCursor, foreColour_storeRange, typed.fore]

end Screen

end Balloon.Console
