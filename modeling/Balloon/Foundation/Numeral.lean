import Mathlib.Data.Nat.Digits.Lemmas
import Mathlib.Data.Nat.Log

/-!
Owns positional numerals over any alphabet: reading one in a base, the numeral that `digits`
of Mathlib spells, and that the two are inverse. `value` gives the digit a symbol stands for,
`symbol` the symbol of a digit. A numeral has its most significant symbol first.
-/

namespace Balloon.Foundation

variable {α : Type*}

/-- The digits that the symbols of a numeral stand for. -/
def digitsOf (value : α → Option Nat) (base : Nat) (s : List α) : Option (List Nat) :=
  s.mapM fun c => (value c).filter (· < base)

/-- The number that a numeral denotes. No symbols at all are not a numeral. -/
def readNumeral (value : α → Option Nat) (base : Nat) (s : List α) : Option Nat :=
  if s = [] then none
  else (digitsOf value base s).map fun digits => Nat.ofDigits base digits.reverse

/-- A numeral has a zero in front only as its one digit. -/
def Minimal (value : α → Option Nat) (s : List α) : Prop :=
  s.head?.bind value = some 0 → s.length = 1

/-- The numeral of `n`. -/
def writeNumeral (symbol : Nat → α) (base n : Nat) : List α :=
  if n = 0 then [symbol 0] else ((Nat.digits base n).map symbol).reverse

variable {value : α → Option Nat} {symbol : Nat → α} {base n : Nat}

theorem digitsOf_map {digits : List Nat}
    (spelled : ∀ d, d ∈ digits → d < base ∧ value (symbol d) = some d) :
    digitsOf value base (digits.map symbol) = some digits := by
  induction digits with
  | nil => rfl
  | cons d rest inductionHypothesis =>
      obtain ⟨small, read⟩ := spelled d List.mem_cons_self
      have remaining := inductionHypothesis fun d member => spelled d (List.mem_cons_of_mem _ member)
      unfold digitsOf at remaining ⊢
      rw [List.map_cons, List.mapM_cons, remaining, read, Option.filter_some, if_pos (by simpa)]
      rfl

/-- Digits given from the least significant one, spelled in the other direction. -/
theorem readNumeral_map_reverse {digits : List Nat} (nonempty : digits ≠ [])
    (spelled : ∀ d, d ∈ digits → d < base ∧ value (symbol d) = some d) :
    readNumeral value base (digits.map symbol).reverse = some (Nat.ofDigits base digits) := by
  have reversed : digitsOf value base (digits.map symbol).reverse = some digits.reverse := by
    rw [← List.map_reverse]
    exact digitsOf_map fun d member => spelled d (List.mem_reverse.mp member)
  rw [readNumeral, if_neg (by simpa using nonempty), reversed, Option.map_some,
    List.reverse_reverse]

theorem writeNumeral_of_pos (positive : n ≠ 0) :
    writeNumeral symbol base n = ((Nat.digits base n).map symbol).reverse := if_neg positive

/-- What is written reads back. -/
theorem readNumeral_writeNumeral (valid : 1 < base)
    (inverse : ∀ d, d < base → value (symbol d) = some d) (n : Nat) :
    readNumeral value base (writeNumeral symbol base n) = some n := by
  by_cases zero : n = 0
  · subst zero
    have positive : 0 < base := Nat.zero_lt_of_lt valid
    have single : readNumeral value base ([0].map symbol).reverse = some (Nat.ofDigits base [0]) :=
      readNumeral_map_reverse (List.cons_ne_nil 0 [])
        (by simpa using ⟨positive, inverse 0 positive⟩)
    simpa [writeNumeral] using single
  · rw [writeNumeral_of_pos zero, readNumeral_map_reverse (Nat.digits_ne_nil_iff_ne_zero.mpr zero),
      Nat.ofDigits_digits]
    intro d member
    have small := Nat.digits_lt_base valid member
    exact ⟨small, inverse d small⟩

theorem writeNumeral_minimal (valid : 1 < base)
    (inverse : ∀ d, d < base → value (symbol d) = some d) (n : Nat) :
    Minimal value (writeNumeral symbol base n) := by
  unfold Minimal writeNumeral
  by_cases zero : n = 0
  · simp [zero]
  · have nonempty : Nat.digits base n ≠ [] := Nat.digits_ne_nil_iff_ne_zero.mpr zero
    have last := List.getLast_mem nonempty
    rw [if_neg zero, List.head?_reverse, List.getLast?_map,
      List.getLast?_eq_getLast_of_ne_nil nonempty, Option.map_some, Option.bind_some,
      inverse _ (Nat.digits_lt_base valid last), Option.some.injEq]
    intro isZero
    exact absurd isZero (Nat.getLast_digit_ne_zero base zero)

theorem writeNumeral_length (valid : 1 < base) (n : Nat) :
    (writeNumeral symbol base n).length = Nat.log base n + 1 := by
  by_cases zero : n = 0
  · simp [writeNumeral, zero]
  · rw [writeNumeral_of_pos zero, List.length_reverse, List.length_map,
      Nat.length_digits base n valid zero]

/-- The symbols of a numeral are those of digits. -/
theorem mem_writeNumeral (valid : 1 < base) {c : α} (member : c ∈ writeNumeral symbol base n) :
    ∃ d, d < base ∧ c = symbol d := by
  by_cases zero : n = 0
  · rw [writeNumeral, if_pos zero, List.mem_singleton] at member
    exact ⟨0, Nat.zero_lt_of_lt valid, member⟩
  · rw [writeNumeral_of_pos zero, List.mem_reverse, List.mem_map] at member
    obtain ⟨d, isDigit, rfl⟩ := member
    exact ⟨d, Nat.digits_lt_base valid isDigit, rfl⟩

/-- One step of a loop that takes digits from the end. -/
theorem writeNumeral_step (valid : 1 < base) (large : base ≤ n) :
    writeNumeral symbol base n = writeNumeral symbol base (n / base) ++ [symbol (n % base)] := by
  have positive : n ≠ 0 := by omega
  have rest : n / base ≠ 0 := (Nat.div_pos large (Nat.zero_lt_of_lt valid)).ne'
  rw [writeNumeral_of_pos positive, writeNumeral_of_pos rest,
    Nat.digits_eq_cons_digits_div valid positive, List.map_cons, List.reverse_cons]

theorem writeNumeral_digit (small : n < base) : writeNumeral symbol base n = [symbol n] := by
  by_cases zero : n = 0
  · rw [writeNumeral, if_pos zero, zero]
  · rw [writeNumeral_of_pos zero, Nat.digits_of_lt base n zero small]
    rfl

end Balloon.Foundation
