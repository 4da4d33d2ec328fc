import Mathlib.Logic.Function.Basic
import Balloon.Libc.Memory

/-!
Owns the embedding of console.c: the text-mode video memory, the cursor, and
`console_clear`, `console_scroll`, `console_putchar` and `console_puts`.

`stored` lists the index of every cell of `videomem` written so far, newest
first; no function reads it.
-/

namespace Balloon.Console

open Balloon.Libc

/-- The variables of console.c, the cells behind `videomem`, and the position
`console_move_cursor` last gave to the display. -/
structure Screen where
  videomem : Nat → BitVec 16
  xPos : Nat
  yPos : Nat
  backColour : BitVec 8
  foreColour : BitVec 8
  cursor : Nat
  stored : List Nat

/-- `attributeByte << 8` for the given colours. -/
def attributeOf (back fore : BitVec 8) : BitVec 16 :=
  (back <<< 4 ||| fore &&& 0x0F#8).setWidth 16 <<< 8

/-- A white-on-black space. -/
def blank : BitVec 16 := 0x20#16 ||| attributeOf 0#8 15#8

namespace Screen

/-- The variables as console.c initialises them. -/
def initial (videomem : Nat → BitVec 16) : Screen where
  videomem := videomem
  xPos := 0
  yPos := 0
  backColour := 0#8
  foreColour := 15#8
  cursor := 0
  stored := []

/-- `videomem[i] = v`. -/
def store (s : Screen) (i : Nat) (v : BitVec 16) : Screen :=
  { s with videomem := Function.update s.videomem i v, stored := i :: s.stored }

/-- `for (i = from; i < from + count; i++) videomem[i] = cell(i);`, where a cell may
be read off the memory of its round. -/
def storeRange (s : Screen) (cell : (Nat → BitVec 16) → Nat → BitVec 16) (first : Nat) :
    Nat → Screen
  | 0 => s
  | count + 1 =>
      let s := s.storeRange cell first count
      s.store (first + count) (cell s.videomem (first + count))

def consoleMoveCursor (s : Screen) : Screen :=
  { s with cursor := (s.yPos * 80 + s.xPos) % 2 ^ 16 }

def consoleScroll (s : Screen) : Screen :=
  if s.yPos ≥ 25 then
    let s := s.storeRange (fun videomem i => videomem (i + 80)) (0 * 80) (24 * 80)
    let s := s.storeRange (fun _ _ => blank) (24 * 80) 80
    { s with yPos := 24 }
  else s

def consoleClear (s : Screen) : Screen :=
  let s := s.storeRange (fun _ _ => blank) 0 (80 * 25)
  { s with xPos := 0, yPos := 0 }.consoleMoveCursor

/-- `c >= ' '`, where `char` is signed. -/
def printable (c : UInt8) : Bool := 0x20 ≤ c.toNat ∧ c.toNat < 0x80

/-- `console_putchar` up to its call of `console_scroll`. -/
def placeChar (s : Screen) (c : UInt8) : Screen :=
  if c = 0x08 ∧ s.xPos > 0 then { s with xPos := s.xPos - 1 }
  else if c = 0x09 then { s with xPos := wrap32 (s.xPos + 8) / 8 * 8 }
  else if c = 0x0D then { s with xPos := 0 }
  else if c = 0x0A then { s with yPos := wrap32 (s.yPos + 1), xPos := 0 }
  else if printable c then
    { s.store (wrap32 (wrap32 (s.yPos * 80) + s.xPos))
        (BitVec.ofNat 16 c.toNat ||| attributeOf s.backColour s.foreColour) with
      xPos := wrap32 (s.xPos + 1) }
  else s

def consolePutchar (s : Screen) (c : UInt8) : Screen :=
  (s.placeChar c).consoleScroll.consoleMoveCursor

/-- `console_puts` on the characters of an array: it stops at the first NUL. -/
def consolePuts (s : Screen) (txt : List UInt8) : Screen :=
  (txt.takeWhile (· ≠ 0)).foldl consolePutchar s

/-! ### Ranges of cells -/

theorem videomem_store (s : Screen) (i j : Nat) (v : BitVec 16) :
    (s.store i v).videomem j = if j = i then v else s.videomem j := by
  by_cases same : j = i
  · rw [if_pos same, same]
    exact Function.update_self i v s.videomem
  · rw [if_neg same]
    exact Function.update_of_ne same v s.videomem

section StoreRange

variable (s : Screen) (cell : (Nat → BitVec 16) → Nat → BitVec 16) (first count : Nat)

/-- A loop over cells changes `videomem` and nothing else. -/
theorem storeRange_eq : ∃ videomem stored,
    s.storeRange cell first count = { s with videomem := videomem, stored := stored } := by
  induction count with
  | zero => exact ⟨s.videomem, s.stored, rfl⟩
  | succ count inductionHypothesis =>
      obtain ⟨videomem, stored, same⟩ := inductionHypothesis
      rw [storeRange, same]
      exact ⟨_, _, rfl⟩

theorem mem_stored_storeRange {i : Nat} :
    i ∈ (s.storeRange cell first count).stored ↔
      i ∈ s.stored ∨ (first ≤ i ∧ i < first + count) := by
  induction count with
  | zero => exact ⟨Or.inl, fun either => either.resolve_right (by omega)⟩
  | succ count inductionHypothesis =>
      rw [storeRange, store, List.mem_cons, inductionHypothesis]
      constructor
      · rintro (rfl | old | inside)
        · exact Or.inr ⟨by omega, by omega⟩
        · exact Or.inl old
        · exact Or.inr ⟨inside.1, by omega⟩
      · rintro (old | inside)
        · exact Or.inr (Or.inl old)
        · by_cases last : i = first + count
          · exact Or.inl last
          · exact Or.inr (Or.inr ⟨inside.1, by omega⟩)

theorem videomem_storeRange_blank (value : BitVec 16) (j : Nat) :
    (s.storeRange (fun _ _ => value) first count).videomem j =
      if first ≤ j ∧ j < first + count then value else s.videomem j := by
  induction count with
  | zero => rw [if_neg (by omega), storeRange]
  | succ count inductionHypothesis =>
      rw [storeRange, videomem_store, inductionHypothesis]
      by_cases last : j = first + count
      · rw [if_pos last, if_pos (by omega)]
      · rw [if_neg last]
        exact if_congr (by omega) rfl rfl

/-- Moving cells down by `distance` reads each cell before it is overwritten. -/
theorem videomem_storeRange_shift {distance : Nat} (j : Nat) :
    (s.storeRange (fun videomem i => videomem (i + distance)) 0 count).videomem j =
      if j < count then s.videomem (j + distance) else s.videomem j := by
  induction count generalizing j with
  | zero => rw [if_neg (by omega), storeRange]
  | succ count inductionHypothesis =>
      rw [storeRange, videomem_store, inductionHypothesis, inductionHypothesis]
      by_cases last : j = 0 + count
      · rw [if_pos last, if_neg (by omega), if_pos (by omega), last]
      · rw [if_neg last]
        exact if_congr (by omega) rfl rfl

theorem xPos_storeRange : (s.storeRange cell first count).xPos = s.xPos := by
  obtain ⟨videomem, stored, same⟩ := s.storeRange_eq cell first count
  rw [same]

theorem backColour_storeRange :
    (s.storeRange cell first count).backColour = s.backColour := by
  obtain ⟨videomem, stored, same⟩ := s.storeRange_eq cell first count
  rw [same]

theorem foreColour_storeRange :
    (s.storeRange cell first count).foreColour = s.foreColour := by
  obtain ⟨videomem, stored, same⟩ := s.storeRange_eq cell first count
  rw [same]

end StoreRange

-- The loops run for thousands of rounds; only the rules above speak about them.
attribute [irreducible] storeRange

end Screen

end Balloon.Console
