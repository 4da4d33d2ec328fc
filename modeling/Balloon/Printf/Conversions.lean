import Balloon.Printf.Numbers

/-!
Owns what a conversion writes, as a text of its directive and its argument: a field of at least
the width, with the text of the argument on one side of it and spaces or zeros on the other. The
loops of `vsprintf` and `number` write exactly these texts for every width and precision below
2^30.
-/

namespace Balloon.Printf

/-! ### Fields -/

/-- A text in a field of at least `width` characters. -/
def justify (left : Bool) (width : Nat) (text : List Char) : List Char :=
  if left then text.rightpad width ' ' else text.leftpad width ' '

/-- A number in its field: zeros fill it behind the sign and the prefix, spaces outside. -/
def numberText (num : UInt32) (base width precision : Nat) (type : Flags) : List Char :=
  let head := signText num type ++ prefixText base type
  let digits := (numeral num base type).leftpad precision '0'
  if type.zeropad && !type.left then head ++ digits.leftpad (width - head.length) '0'
  else justify type.left width (head ++ digits)

/-- A character in its field. -/
def charText (d : Directive) (value : UInt32) : List Char :=
  justify d.flags.left d.fieldWidth.toNat [Char.ofNat (value.toNat % 256)]

/-- A string in its field; a precision cuts it. -/
def cutText (d : Directive) (s : List Char) : List Char :=
  justify d.flags.left d.fieldWidth.toNat
    (if d.precision < 0 then s else s.take d.precision.toNat)

/-- The conversions that call `number`. -/
inductive Radix where
  | octal
  | pointer
  | hex
  | upperHex
  | decimal
  | integer
  | unsigned
  | binary
deriving DecidableEq

/-- The letter of a conversion. -/
def Radix.letter : Radix → Char
  | octal => 'o'
  | pointer => 'p'
  | hex => 'x'
  | upperHex => 'X'
  | decimal => 'd'
  | integer => 'i'
  | unsigned => 'u'
  | binary => 'b'

def Radix.base : Radix → Nat
  | octal => 8
  | pointer | hex | upperHex => 16
  | decimal | integer | unsigned => 10
  | binary => 2

/-- The directive as the case of a conversion changes it. -/
def Radix.adjust (d : Directive) : Radix → Directive
  | pointer => d.pointer
  | hex => { d with flags := { d.flags with small := true } }
  | decimal | integer => { d with flags := { d.flags with sign := true } }
  | octal | upperHex | unsigned | binary => d

/-- The text of an argument that is a number. -/
def Radix.text (radix : Radix) (d : Directive) (value : UInt32) : List Char :=
  numberText value radix.base (radix.adjust d).fieldWidth.toNat (radix.adjust d).precision.toNat
    (radix.adjust d).flags

/-- A directive whose numbers `skip_atoi` has read without wrapping. -/
structure Directive.Moderate (d : Directive) : Prop where
  width : -1 ≤ d.fieldWidth ∧ d.fieldWidth < 2 ^ 30
  precision : -1 ≤ d.precision ∧ d.precision < 2 ^ 30

/-! ### Numbers -/

/-- The five parts of a number are its text. -/
theorem sharePadding_text (num : UInt32) {base : Nat} (valid : 2 ≤ base)
    (size precision : Int) (type : Flags) :
    (sharePadding type (size - textLength num base precision type).toNat
        (precision - (numeral num base type).length).toNat (numeral num base type)).text
      num base type = numberText num base size.toNat precision.toNat type := by
  have digits := numeral_length num valid type
  have prefixed := prefixLength_eq num base type
  have zeros : (precision - ((numeral num base type).length : Int)).toNat =
      precision.toNat - (numeral num base type).length := by omega
  have text : textLength num base precision type =
      (signText num type).length + (prefixText base type).length +
        max precision.toNat (numeral num base type).length := by
    rw [textLength, prefixed, digits]
  have spare : (size - (textLength num base precision type : Int)).toNat =
      size.toNat - textLength num base precision type := by omega
  rw [zeros, spare, text]
  unfold sharePadding numberText justify
  cases type.left with
  | true =>
      simp only [Bool.not_true, Bool.and_false, Bool.false_eq_true, if_true, if_false, Parts.text,
        List.rightpad, List.leftpad, List.length_append, List.length_replicate,
        List.replicate_zero, List.nil_append, List.append_assoc]
      congr 5
      omega
  | false =>
      cases type.zeropad with
      | true =>
          simp only [Bool.not_false, Bool.and_true, Bool.false_eq_true, if_true, if_false,
            Parts.text, List.leftpad, List.length_append, List.length_replicate,
            List.replicate_zero, List.nil_append, List.append_nil, List.append_assoc,
            List.replicate_add]
          congr 4
          omega
      | false =>
          simp only [Bool.not_false, Bool.and_true, Bool.false_eq_true, if_false,
            Parts.text, List.leftpad, List.length_append, List.length_replicate,
            List.replicate_zero, List.append_nil, List.append_assoc]
          congr 2
          omega

theorem Radix.base_valid (radix : Radix) : 2 ≤ radix.base ∧ radix.base ≤ 36 := by
  cases radix <;> decide

theorem Directive.Moderate.adjust {d : Directive} (moderate : d.Moderate) (radix : Radix) :
    (radix.adjust d).Moderate := by
  cases radix with
  | pointer =>
      unfold Radix.adjust Directive.pointer
      split_ifs
      · exact ⟨⟨by norm_num, by norm_num⟩, moderate.precision⟩
      · exact moderate
  | _ => exact ⟨moderate.width, moderate.precision⟩

theorem number_eq_numberText (k : Sink) (num : UInt32) {base : Nat}
    (valid : 2 ≤ base ∧ base ≤ 36) {d : Directive} (moderate : d.Moderate) :
    number k num base d.fieldWidth d.precision d.flags =
      some (k.puts (numberText num base d.fieldWidth.toNat d.precision.toNat d.flags)) := by
  have width := moderate.width
  have precision := moderate.precision
  have digits := numeral_length_le num valid.1 d.flags
  have loops := earlierLoops_le d.flags
  have short : prefixLength num base d.flags ≤ 3 := by
    unfold prefixLength
    split_ifs <;> decide
  have text : textLength num base d.precision d.flags ≤ 3 + max d.precision.toNat 32 := by
    rw [textLength, ← numeral_length num valid.1]
    omega
  rw [number_eq_text k num valid (by omega) (by omega), sharePadding_text num valid.1]

/-! ### Characters and strings -/

theorem justify_puts (k : Sink) (left : Bool) (width : Nat) (text : List Char) :
    k.puts (justify left width text) =
      if left then (k.puts text).fill ' ' (width - text.length)
      else (k.fill ' ' (width - text.length)).puts text := by
  unfold justify
  split_ifs
  · rw [List.rightpad, ← Sink.puts_puts, Sink.fill_eq_puts]
  · rw [List.leftpad, ← Sink.puts_puts, Sink.fill_eq_puts]

theorem convertChar_eq_puts (k : Sink) {d : Directive} (moderate : d.Moderate) (value : UInt32) :
    convertChar k d value = k.puts (charText d value) := by
  have width := moderate.width
  have first : wrapInt (d.fieldWidth - 1) = d.fieldWidth - 1 :=
    wrapInt_of_range (by omega) (by omega)
  have spare : (d.fieldWidth - 1).toNat = d.fieldWidth.toNat - 1 := by omega
  rw [charText, justify_puts, convertChar]
  cases d.flags.left with
  | true =>
      simp only [if_true, Sink.padBefore, first, spare]
      rfl
  | false =>
      have last : (wrapInt (min (d.fieldWidth - 1) 0 - 1)).toNat = 0 := by
        rw [wrapInt_of_range (by omega) (by omega)]
        omega
      simp only [Bool.false_eq_true, if_false, Sink.padBefore, first, spare, last]
      rfl

theorem convertString_eq_puts (k : Sink) {d : Directive} (moderate : d.Moderate) {s : List Char}
    (short : s.length < 2 ^ 31) : convertString k d s = k.puts (cutText d s) := by
  have width := moderate.width
  have precision := moderate.precision
  have length : wrapInt s.length = s.length := wrapInt_of_range (by omega) (by omega)
  -- `len` is the length of what the precision leaves.
  have cut : s.take (if d.precision < 0 then (s.length : Int)
      else if s.length > d.precision then d.precision else s.length).toNat =
        if d.precision < 0 then s else s.take d.precision.toNat := by
    split_ifs with absent long
    · exact List.take_length
    · rfl
    · rw [Int.toNat_natCast, List.take_length, List.take_of_length_le (by omega)]
  have len : (if d.precision < 0 then (s.length : Int)
      else if s.length > d.precision then d.precision else s.length) =
        ((if d.precision < 0 then s else s.take d.precision.toNat).length : Int) := by
    split_ifs <;> simp only [List.length_take] <;> omega
  simp only [cutText, justify_puts, convertString, length, cut, Sink.padTo]
  rw [len]
  generalize (if d.precision < 0 then s else s.take d.precision.toNat) = text
  have spare : (d.fieldWidth - (text.length : Int)).toNat = d.fieldWidth.toNat - text.length := by
    omega
  cases d.flags.left with
  | true => simp only [if_true, spare]
  | false =>
      have last : (wrapInt (min d.fieldWidth text.length - 1) - (text.length : Int)).toNat = 0 := by
        rw [wrapInt_of_range (by omega) (by omega)]
        omega
      simp only [Bool.false_eq_true, if_false, spare, last]
      rfl

/-! ### Directives -/

theorem convert_radix (k : Sink) (radix : Radix) {d : Directive} (moderate : d.Moderate)
    (value : UInt32) (args : List Arg) (fmt : List Char) :
    convert k d (.word value :: args) (radix.letter :: fmt) =
      some (k.puts (radix.text d value), fmt, args) := by
  have written := number_eq_numberText k value radix.base_valid (moderate.adjust radix)
  have converted : convertNumber k (radix.adjust d) radix.base (.word value :: args) fmt =
      some (k.puts (radix.text d value), fmt, args) := by
    simp only [convertNumber, vaWord, Option.bind_eq_bind, Option.bind_some, written]
    rfl
  rw [← converted]
  cases radix <;> rfl

end Balloon.Printf
