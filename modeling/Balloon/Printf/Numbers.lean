import Balloon.Foundation.Numeral
import Balloon.Printf.Buffer

/-!
Owns what `number` writes: the parts of a field in order, its digits as a numeral of the number,
and its length. Every padding loop counts `size` one below zero, so the law of the length ends
where the counter passes the smallest `int` in front of the last loop.
-/

namespace Balloon.Printf

open Balloon.Foundation

/-! ### The parts of a field -/

/-- The sign in front of a number. -/
def signText (num : UInt32) (type : Flags) : List Char :=
  if type.sign ∧ 2 ^ 31 ≤ num.toNat then ['-']
  else if type.plus then ['+'] else if type.space then [' '] else []

/-- The `0` or `0x` of `#`. -/
def prefixText (base : Nat) (type : Flags) : List Char :=
  if type.special then
    if base = 8 then ['0']
    else if base = 16 then ['0', if type.small then 'x' else 'X'] else []
  else []

/-- The digit that a character stands for, in either case. -/
def digitValue (c : Char) : Option Nat :=
  if '0' ≤ c ∧ c ≤ '9' then some (c.toNat - '0'.toNat)
  else if 'a' ≤ c ∧ c ≤ 'z' then some (c.toNat - 'a'.toNat + 10)
  else if 'A' ≤ c ∧ c ≤ 'Z' then some (c.toNat - 'A'.toNat + 10)
  else none

/-- The parts of a field whose sign and prefix are given: spaces, zeros, digits, spaces. -/
structure Parts where
  left : Nat
  zeros : Nat
  digits : List Char
  right : Nat

/-- The field with its parts in order. -/
def Parts.text (parts : Parts) (num : UInt32) (base : Nat) (type : Flags) : List Char :=
  List.replicate parts.left ' ' ++ signText num type ++ prefixText base type ++
    List.replicate parts.zeros '0' ++ parts.digits ++ List.replicate parts.right ' '

/-- A field for `num`: `digits`, which were in `tmp`, are the numeral of its magnitude, the
precision is reached, and the width is kept where the text leaves room for it. -/
structure Formatted (num : UInt32) (base : Nat) (size precision : Int) (type : Flags)
    (parts : Parts) : Prop where
  cells : parts.digits.length ≤ 32
  minimal : Minimal digitValue parts.digits
  value : readNumeral digitValue base parts.digits = some (magnitude num type.sign)
  enough : precision ≤ (parts.zeros + parts.digits.length : Nat)
  length : ((parts.text num base type).length : Int) =
    max size ((signText num type).length + (prefixText base type).length +
      max precision parts.digits.length)

/-- The padding of a field, of `spare` characters, and the zeros of the precision where the output
loops of `number` put them. -/
def sharePadding (type : Flags) (spare zeros : Nat) (digits : List Char) : Parts :=
  if type.left then ⟨0, zeros, digits, spare⟩
  else if type.zeropad then ⟨0, spare + zeros, digits, 0⟩
  else ⟨spare, zeros, digits, 0⟩

/-- The padding stands on the side that the flags select: spaces on the right, zeros in front of the
digits, or spaces on the left. -/
def Parts.OnSide (parts : Parts) (precision : Int) (type : Flags) : Prop :=
  ∃ spare, parts =
    sharePadding type spare (precision - parts.digits.length).toNat parts.digits

/-- The sign, the prefix and the digits with the zeros of the precision. -/
def textLength (num : UInt32) (base : Nat) (precision : Int) (type : Flags) : Nat :=
  prefixLength num base type + max precision.toNat (Nat.log base (magnitude num type.sign) + 1)

/-- The padding loops of `number` in front of the last. -/
def earlierLoops (type : Flags) : Nat := if type.left then 0 else if type.zeropad then 1 else 2

/-! ### Digits -/

theorem digitValue_digits (small : Bool) :
    ∀ d, d < 36 → digitValue ((digits small).getD d '\x00') = some d := by
  cases small <;> decide

/-- The digits of the table, the first 36 of which are all there is. -/
def digitSymbol (small : Bool) (d : Nat) : Char := (digits small).getD d '\x00'

theorem digitLoop_eq (small : Bool) {base : Nat} (valid : 2 ≤ base) {fuel num : Nat}
    (fits : num < 2 ^ fuel) :
    digitLoop (digits small) base fuel num = (Nat.digits base num).map (digitSymbol small) := by
  induction fuel generalizing num with
  | zero =>
      have zero : num = 0 := by omega
      rw [zero, Nat.digits_zero]
      rfl
  | succ fuel inductionHypothesis =>
      rw [digitLoop]
      by_cases zero : num = 0
      · rw [if_pos zero, zero, Nat.digits_zero]
        rfl
      · have shrinks : num / base < 2 ^ fuel := by
          apply Nat.div_lt_of_lt_mul
          calc num < 2 * 2 ^ fuel := by omega
            _ ≤ base * 2 ^ fuel := Nat.mul_le_mul_right _ valid
        rw [if_neg zero, inductionHypothesis shrinks, Nat.digits_eq_cons_digits_div valid zero,
          List.map_cons]
        rfl

/-- `tmp` holds the numeral of the number, the last digit first. -/
theorem tmp_reverse (small : Bool) {base : Nat} (valid : 2 ≤ base) (num : UInt32) :
    (if num = 0 then ['0'] else digitLoop (digits small) base 32 num.toNat).reverse =
      writeNumeral (digitSymbol small) base num.toNat := by
  unfold writeNumeral
  have zero_iff : num = 0 ↔ num.toNat = 0 := UInt32.toNat_inj.symm
  by_cases zero : num = 0
  · rw [if_pos zero, if_pos (zero_iff.mp zero)]
    cases small <;> rfl
  · rw [if_neg zero, if_neg (mt zero_iff.mpr zero), digitLoop_eq small valid num.toNat_lt]

/-! ### Output -/

namespace Sink

theorem fill_eq_puts (k : Sink) (c : Char) (rounds : Nat) :
    k.fill c rounds = k.puts (List.replicate rounds c) := by
  induction rounds generalizing k with
  | zero => rfl
  | succ rounds inductionHypothesis => exact inductionHypothesis (k.put c)

theorem puts_puts (k : Sink) (first second : List Char) :
    (k.puts first).puts second = k.puts (first ++ second) := List.foldl_append.symm

end Sink

theorem put_sign (k : Sink) (num : UInt32) (type : Flags) :
    (if (if type.sign ∧ 2 ^ 31 ≤ num.toNat then '-' else if type.plus then '+'
        else if type.space then ' ' else '\x00') ≠ '\x00' then
      k.put (if type.sign ∧ 2 ^ 31 ≤ num.toNat then '-' else if type.plus then '+'
        else if type.space then ' ' else '\x00') else k) = k.puts (signText num type) := by
  unfold signText
  split_ifs <;> first | rfl | contradiction

theorem put_prefix (k : Sink) (base : Nat) (type : Flags) :
    (if type.special then
        if base = 8 then k.put '0'
        else if base = 16 then (k.put '0').put ((digits type.small).getD 33 '\x00') else k
      else k) = k.puts (prefixText base type) := by
  have x : (digits type.small).getD 33 '\x00' = if type.small then 'x' else 'X' := by
    cases type.small <;> rfl
  rw [x, prefixText]
  generalize (if type.small then 'x' else 'X') = x
  split_ifs <;> rfl

theorem prefixLength_eq (num : UInt32) (base : Nat) (type : Flags) :
    prefixLength num base type = (signText num type).length + (prefixText base type).length := by
  unfold prefixLength signText prefixText
  congr 1
  · by_cases negative : type.sign ∧ 2 ^ 31 ≤ num.toNat
    · rw [if_pos negative, if_pos (Or.inl negative)]
      rfl
    · simp only [negative, if_false, false_or]
      cases type.plus <;> cases type.space <;> rfl
  · generalize (if type.small then 'x' else 'X') = x
    split_ifs <;> first | rfl | omega

/-- What a padding loop leaves in a counter that does not wrap: nothing to pad. -/
theorem countdown_toNat {size : Int} (above : -2 ^ 31 < size) (below : size < 2 ^ 31) :
    wrapInt (min size 0 - 1) = min size 0 - 1 ∧ (min size 0 - 1).toNat = 0 := by
  rw [wrapInt_countdown (Int.le_of_lt above) below, if_neg (by omega)]
  exact ⟨rfl, by omega⟩

/-- The output loops of `number`, when no counter wraps in front of the last of them. -/
theorem writeNumber_eq_text (k : Sink) (tmp : List Char) (num : UInt32) (base : Nat)
    {size precision : Int} {type : Flags} (masked : type.left = true → type.zeropad = false)
    (noWrap : -2 ^ 31 + (earlierLoops type : Int) ≤ size) (below : size < 2 ^ 31) :
    writeNumber k tmp (if type.sign ∧ 2 ^ 31 ≤ num.toNat then '-' else if type.plus then '+'
        else if type.space then ' ' else '\x00') base size precision type =
      k.puts ((sharePadding type size.toNat (precision - tmp.length).toNat tmp.reverse).text
        num base type) := by
  unfold writeNumber Parts.text sharePadding
  unfold earlierLoops at noWrap
  simp only [put_sign, put_prefix]
  cases left : type.left with
  | true =>
      simp only [masked left, Bool.false_eq_true, false_or, if_true, Sink.padAfter,
        Sink.fill_eq_puts, Sink.puts_puts]
      simp only [List.replicate_zero, List.nil_append, List.append_assoc]
  | false =>
      cases zeropad : type.zeropad with
      | true =>
          -- The loop behind the prefix pads, with zeros.
          simp only [left, zeropad, Bool.false_eq_true, if_false, if_true] at noWrap
          obtain ⟨rest, none⟩ := countdown_toNat (by omega) below
          simp only [Bool.false_eq_true, true_or, if_true, if_false, Sink.padAfter, rest, none,
            Sink.fill_eq_puts, Sink.puts_puts]
          simp only [List.replicate_zero, List.nil_append, List.append_nil, List.append_assoc,
            List.replicate_add]
      | false =>
          -- The first loop pads, with spaces; the other two find a negative counter.
          simp only [left, zeropad, Bool.false_eq_true, if_false] at noWrap
          obtain ⟨rest, none⟩ := countdown_toNat (by omega) below
          obtain ⟨restAgain, noneAgain⟩ := @countdown_toNat (min size 0 - 1) (by omega) (by omega)
          simp only [Bool.false_eq_true, or_self, if_false, Sink.padAfter, rest, none, restAgain,
            noneAgain, Sink.fill_eq_puts, Sink.puts_puts]
          simp only [List.replicate_zero, List.append_nil, List.append_assoc]

/-! ### `number` -/

theorem earlierLoops_le (type : Flags) : earlierLoops type ≤ 2 := by
  unfold earlierLoops
  split_ifs <;> decide

theorem earlierLoops_masked (type : Flags) :
    earlierLoops { type with zeropad := type.zeropad && !type.left } = earlierLoops type := by
  unfold earlierLoops
  cases type.left <;> simp

/-- The numeral that `number` spells. -/
def numeral (num : UInt32) (base : Nat) (type : Flags) : List Char :=
  writeNumeral (digitSymbol type.small) base (magnitude num type.sign)

theorem numeral_length (num : UInt32) {base : Nat} (valid : 2 ≤ base) (type : Flags) :
    (numeral num base type).length = Nat.log base (magnitude num type.sign) + 1 :=
  writeNumeral_length valid _

/-- The flags as `number` goes on with them. -/
def Flags.masked (type : Flags) : Flags := { type with zeropad := type.zeropad && !type.left }

/-- `number` hands its output loops the digits, the last one first, and what its decrements leave
of the size. -/
theorem number_eq_writeNumber (k : Sink) (num : UInt32) {base : Nat} (valid : 2 ≤ base ∧ base ≤ 36)
    (size precision : Int) (type : Flags) :
    number k num base size precision type =
      some (writeNumber k (numeral num base type).reverse
        (if type.sign ∧ 2 ^ 31 ≤ num.toNat then '-' else if type.plus then '+'
          else if type.space then ' ' else '\x00') base
        (wrapInt (size - textLength num base precision type))
        (max precision (numeral num base type).length) type.masked) := by
  have spelled := tmp_reverse type.small valid.1
    (if type.sign = true ∧ 2 ^ 31 ≤ num.toNat then -num else num)
  have length := numeral_length num valid.1 type
  rw [magnitude_eq] at spelled
  have tmp := List.reverse_eq_iff.mp spelled
  change _ = (numeral num base type).reverse at tmp
  have longest : (if ((numeral num base type).length : Int) > precision then
      ((numeral num base type).length : Int) else precision) =
      max precision (numeral num base type).length := by
    split_ifs <;> omega
  have decrements : size - (prefixLength num base type : Int) -
      max precision (numeral num base type).length = size - textLength num base precision type := by
    rw [textLength, length]
    omega
  unfold number
  rw [if_neg (by omega)]
  simp only [magnitude_eq, size_eq, sign_length, tmp, List.length_reverse, longest]
  rw [← decrements]
  rfl

theorem masked_zeropad {type : Flags} (left : type.masked.left = true) :
    type.masked.zeropad = false := by
  change type.left = true at left
  change (type.zeropad && !type.left) = false
  rw [left, Bool.not_true, Bool.and_false]

theorem sharePadding_masked (type : Flags) (spare zeros : Nat) (digits : List Char) :
    sharePadding type.masked spare zeros digits = sharePadding type spare zeros digits := by
  cases left : type.left <;> simp [sharePadding, Flags.masked, left]

theorem sharePadding_sum (type : Flags) (spare zeros : Nat) (digits : List Char) :
    zeros ≤ (sharePadding type spare zeros digits).zeros ∧
      (sharePadding type spare zeros digits).left + (sharePadding type spare zeros digits).zeros +
        (sharePadding type spare zeros digits).right = zeros + spare := by
  unfold sharePadding
  split_ifs <;> exact ⟨by dsimp only; omega, by dsimp only; omega⟩

theorem sharePadding_digits (type : Flags) (spare zeros : Nat) (digits : List Char) :
    (sharePadding type spare zeros digits).digits = digits := by
  unfold sharePadding
  split_ifs <;> rfl

/-- `number` writes its field, when no counter wraps. -/
theorem number_eq_text (k : Sink) (num : UInt32) {base : Nat} (valid : 2 ≤ base ∧ base ≤ 36)
    {size precision : Int} {type : Flags} (below : size < 2 ^ 31)
    (noWrap : -2 ^ 31 + (earlierLoops type : Int) ≤ size - textLength num base precision type) :
    number k num base size precision type =
      some (k.puts ((sharePadding type (size - textLength num base precision type).toNat
        (precision - (numeral num base type).length).toNat (numeral num base type)).text
          num base type)) := by
  have range : wrapInt (size - textLength num base precision type) =
      size - textLength num base precision type := wrapInt_of_range (by omega) (by omega)
  have written := @writeNumber_eq_text k (numeral num base type).reverse num base
    (size - textLength num base precision type)
    (max precision (numeral num base type).length) type.masked masked_zeropad
    (by rw [Flags.masked, earlierLoops_masked]; exact noWrap) (by omega)
  have zeros : (max precision (numeral num base type).length -
      ((numeral num base type).length : Int)).toNat =
        (precision - (numeral num base type).length).toNat := by omega
  rw [List.reverse_reverse, List.length_reverse, sharePadding_masked, zeros] at written
  rw [number_eq_writeNumber k num valid, range]
  exact congrArg some written

/-- No base needs more than the 32 digits of binary. -/
theorem numeral_length_le (num : UInt32) {base : Nat} (valid : 2 ≤ base) (type : Flags) :
    (numeral num base type).length ≤ 32 := by
  have digits : Nat.log base (magnitude num type.sign) < 32 :=
    calc Nat.log base (magnitude num type.sign) ≤ Nat.log 2 (magnitude num type.sign) :=
          Nat.log_anti_left (by decide) valid
      _ < 32 := Nat.log_lt_of_lt_pow' (by decide) (magnitude_lt num type.sign)
  rw [numeral_length num valid]
  exact digits

theorem digitValue_symbol {base : Nat} (valid : base ≤ 36) (small : Bool) :
    ∀ d, d < base → digitValue (digitSymbol small d) = some d :=
  fun d below => digitValue_digits small d (Nat.lt_of_lt_of_le below valid)

theorem text_length (parts : Parts) (num : UInt32) (base : Nat) (type : Flags) :
    (parts.text num base type).length =
      parts.left + prefixLength num base type + parts.zeros + parts.digits.length + parts.right := by
  simp only [Parts.text, List.length_append, List.length_replicate, prefixLength_eq]
  omega

/-- The parts that `number` writes form a field for its number. -/
theorem formatted_of_parts {num : UInt32} {base : Nat} (valid : 2 ≤ base ∧ base ≤ 36)
    {size precision : Int} {type : Flags} {parts : Parts}
    (spelled : parts.digits = numeral num base type)
    (enough : (precision - (numeral num base type).length).toNat ≤ parts.zeros)
    (total : parts.left + parts.zeros + parts.right =
      (precision - (numeral num base type).length).toNat +
        (size - textLength num base precision type).toNat) :
    Formatted num base size precision type parts where
  cells := spelled ▸ numeral_length_le num valid.1 type
  minimal := spelled ▸ writeNumeral_minimal valid.1 (digitValue_symbol valid.2 type.small) _
  value := spelled ▸ readNumeral_writeNumeral valid.1 (digitValue_symbol valid.2 type.small) _
  enough := by
    rw [spelled]
    omega
  length := by
    have digits := numeral_length num valid.1 type
    have prefixed := prefixLength_eq num base type
    rw [text_length, spelled]
    unfold textLength at total
    omega

/-- A counter that wraps pads with the largest `int`. -/
theorem numberLength_of_wrap {num : UInt32} {base : Nat} {size precision : Int} {type : Flags}
    (inRange : -2 ^ 31 - 1 ≤ size - textLength num base precision type)
    (wraps : size - textLength num base precision type < -2 ^ 31 + earlierLoops type) :
    numberLength num base size precision type =
      textLength num base precision type + (2 ^ 31 - 1) := by
  change textLength num base precision type +
    padding (wrapInt (size - textLength num base precision type)) (earlierLoops type) = _
  have few := earlierLoops_le type
  congr 1
  unfold padding
  by_cases below : size - textLength num base precision type < -2 ^ 31
  · have lowest : size - textLength num base precision type = -2 ^ 31 - 1 := by omega
    rw [lowest, show wrapInt (-2 ^ 31 - 1) = 2 ^ 31 - 1 by decide, if_neg (by omega)]
    rfl
  · rw [wrapInt_of_range (by omega) (by omega), if_pos wraps]

/-- A field has its length only where no counter has wrapped. -/
theorem noWrap_of_formatted {k : Sink} {num : UInt32} {base : Nat} (valid : 2 ≤ base ∧ base ≤ 36)
    {size precision : Int} (sizeAbove : -2 ^ 30 < size) (sizeBelow : size < 2 ^ 30)
    (precisionBelow : precision < 2 ^ 30) {type : Flags} {parts : Parts}
    (written : number k num base size precision type = some (k.puts (parts.text num base type)))
    (formatted : Formatted num base size precision type parts) :
    -2 ^ 31 + (earlierLoops type : Int) ≤ size - textLength num base precision type := by
  by_contra wraps
  obtain ⟨k', written', grown⟩ := number_grown k num valid size precision type
  obtain rfl := Option.some.inj (written.symm.trans written')
  have stored : (parts.text num base type).length = numberLength num base size precision type :=
    Nat.add_left_cancel ((Sink.grown_puts k _).str.symm.trans grown.str)
  have length := formatted.length
  have cells := formatted.cells
  have digits := numeral_length_le num valid.1 type
  have prefixed := prefixLength_eq num base type
  have few := earlierLoops_le type
  have short : prefixLength num base type ≤ 3 := by
    unfold prefixLength
    split_ifs <;> decide
  have text : textLength num base precision type =
      prefixLength num base type + max precision.toNat (numeral num base type).length := by
    rw [textLength, numeral_length num valid.1]
  rw [numberLength_of_wrap (by omega) (by omega)] at stored
  omega

/-- `number` writes a field for its number, padded where the flags say, exactly when the counter of
the padding does not pass the smallest `int` in front of the last padding loop. -/
theorem number_formatted_iff (k : Sink) (num : UInt32) {base : Nat} (valid : 2 ≤ base ∧ base ≤ 36)
    {size precision : Int} (sizeAbove : -2 ^ 30 < size) (sizeBelow : size < 2 ^ 30)
    (precisionBelow : precision < 2 ^ 30) (type : Flags) :
    (∃ parts, number k num base size precision type = some (k.puts (parts.text num base type)) ∧
        Formatted num base size precision type parts ∧ parts.OnSide precision type) ↔
      -2 ^ 31 + (earlierLoops type : Int) ≤ size - textLength num base precision type := by
  constructor
  · rintro ⟨parts, written, formatted, -⟩
    exact noWrap_of_formatted valid sizeAbove sizeBelow precisionBelow written formatted
  · intro noWrap
    have written := number_eq_text k num valid (by omega) noWrap
    have spelled := sharePadding_digits type (size - textLength num base precision type).toNat
      (precision - (numeral num base type).length).toNat (numeral num base type)
    have shared := sharePadding_sum type (size - textLength num base precision type).toNat
      (precision - (numeral num base type).length).toNat (numeral num base type)
    refine ⟨_, written, formatted_of_parts valid spelled shared.1 shared.2,
      (size - textLength num base precision type).toNat, ?_⟩
    rw [spelled]

/-- `-42` with a width of 8 and a precision of 3. -/
theorem number_formatted_iff_minus :
    (∃ parts, number ⟨0, [], []⟩ (-42) 10 8 3 { Flags.none with sign := true } =
          some (Sink.puts ⟨0, [], []⟩ (parts.text (-42) 10 { Flags.none with sign := true })) ∧
        Formatted (-42) 10 8 3 { Flags.none with sign := true } parts ∧
          parts.OnSide 3 { Flags.none with sign := true }) ↔
      -2 ^ 31 + (earlierLoops { Flags.none with sign := true } : Int) ≤
        8 - textLength (-42) 10 3 { Flags.none with sign := true } :=
  number_formatted_iff ⟨0, [], []⟩ (-42) (by decide) (by decide) (by decide) (by decide)
    { Flags.none with sign := true }

/-- A `5` with a `+`, the smallest size and the largest precision: the counter is one above the
smallest `int` in front of three padding loops. -/
theorem extreme_size_wraps :
    ¬ ∀ (k : Sink) (num : UInt32) (base : Nat) (size precision : Int) (type : Flags),
      2 ≤ base ∧ base ≤ 36 → -2 ^ 30 < size → size < 2 ^ 30 → -2 ^ 30 < precision →
      precision < 2 ^ 30 →
      ∃ parts, number k num base size precision type = some (k.puts (parts.text num base type)) ∧
        Formatted num base size precision type parts := by
  intro always
  obtain ⟨parts, written, formatted⟩ := always ⟨0, [], []⟩ 5 10 (-2 ^ 30 + 1) (2 ^ 30 - 1)
    { Flags.none with plus := true } (by decide) (by decide) (by decide) (by decide) (by decide)
  have noWrap :=
    noWrap_of_formatted (by decide) (by decide) (by decide) (by decide) written formatted
  have long : 1 + (2 ^ 30 - 1) ≤ textLength 5 10 (2 ^ 30 - 1) { Flags.none with plus := true } :=
    Nat.add_le_add (show 1 ≤ prefixLength 5 10 { Flags.none with plus := true } by decide)
      (Nat.le_max_left (2 ^ 30 - 1) _)
  have loops : earlierLoops { Flags.none with plus := true } = 2 := rfl
  omega

end Balloon.Printf
