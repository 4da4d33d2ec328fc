import Balloon.Printf.Session

/-!
Owns calls of `kprintf` that print one line: formats of literal text and of directives without
flags, the texts of their directives, and what such a call adds to the screen.
-/

namespace Balloon.Printf

open Balloon.Foundation
open Balloon.Console

/-! ### Formats -/

/-- Literal text of a format. -/
def literal (s : List Char) (plain : '%' ∉ s) : List Piece :=
  s.attach.map fun c => .text c.1 fun percent => plain (percent ▸ c.2)

theorem plain_newline : '%' ∉ ['\n'] := by decide

theorem plain_bracket : '%' ∉ "] ".toList := by decide

/-- A directive without flags, width, precision and qualifier. -/
def directly (conversion : Conversion) : Piece := .directive ⟨[], none, none, none, conversion⟩

variable {s : List Char} {plain : '%' ∉ s} {pieces : List Piece} {position : Nat} {args : List Arg}

theorem literal_cons {c : Char} {plain : '%' ∉ c :: s} :
    ∃ other plain', literal (c :: s) plain = .text c other :: literal s plain' := by
  refine ⟨fun percent => plain (percent ▸ List.mem_cons_self),
    fun member => plain (List.mem_cons_of_mem c member), ?_⟩
  simp only [literal, List.attach_cons, List.map_cons, List.map_map]
  rfl

theorem spell_literal : spell (literal s plain ++ pieces) = s ++ spell pieces := by
  induction s with
  | nil => rfl
  | cons c s inductionHypothesis =>
      obtain ⟨other, plain', split⟩ := @literal_cons s c plain
      rw [split, List.cons_append, spell, inductionHypothesis, List.cons_append]

theorem spell_directly (conversion : Conversion) :
    spell (directly conversion :: pieces) = '%' :: conversion.letter :: spell pieces := rfl

theorem render_literal : render (literal s plain ++ pieces) position args =
    (render pieces (position + s.length) args).map fun r => (s ++ r.1, r.2) := by
  induction s generalizing position with
  | nil =>
      change render pieces position args = _
      cases render pieces position args <;> rfl
  | cons c s inductionHypothesis =>
      obtain ⟨other, plain', split⟩ := @literal_cons s c plain
      rw [split, List.cons_append, render, inductionHypothesis, List.length_cons, Option.map_map,
        Nat.add_assoc, Nat.add_comm 1]
      rfl

theorem render_end : render (literal s plain) position args = some (s, []) := by
  have rendered := @render_literal s plain [] position args
  rwa [List.append_nil, render, Option.map_some, List.append_nil] at rendered

/-! ### Directives -/

/-- The lower-case hexadecimal numeral. -/
def hexText (n : Nat) : List Char := writeNumeral (digitSymbol true) 16 n

/-- The decimal numeral. -/
def decimalText (n : Nat) : List Char := writeNumeral (digitSymbol false) 10 n

theorem render_directly {conversion : Conversion} {text : List Char} {rest : List Arg}
    (rendered : ∀ position, Spec.render ⟨[], none, none, none, conversion⟩ position args =
      some (text, [], rest)) :
    render (directly conversion :: pieces) position args =
      (render pieces (position + text.length) rest).map fun r => (text ++ r.1, r.2) := by
  rw [directly, render, rendered]
  simp only [Option.bind_eq_bind, Option.bind_some, List.nil_append]
  cases render pieces (position + text.length) rest <;> rfl

theorem justify_zero (left : Bool) (text : List Char) : justify left 0 text = text := by
  simp [justify, List.leftpad, List.rightpad]

/-- A number without a sign, a prefix and a field. -/
theorem numberText_zero {num : UInt32} {type : Flags} (base : Nat)
    (noSign : signText num type = []) (noPrefix : prefixText base type = [])
    (spaces : type.zeropad = false) : numberText num base 0 0 type = numeral num base type := by
  simp [numberText, noSign, noPrefix, spaces, justify_zero, List.leftpad]

theorem render_hex (value : UInt32) :
    render (directly (.number .hex) :: pieces) position (.word value :: args) =
      (render pieces (position + (hexText value.toNat).length) args).map
        fun r => (hexText value.toNat ++ r.1, r.2) := by
  refine render_directly fun position => ?_
  have text : Radix.text .hex (Spec.directive ⟨[], none, none, none, .number .hex⟩) value =
      hexText value.toNat := numberText_zero 16 rfl rfl rfl
  exact congrArg (fun text => some (text, [], args)) text

/-- `%d` of a number that is not negative as an `int`. -/
theorem render_decimal {value : UInt32} (positive : value.toNat < 2 ^ 31) :
    render (directly (.number .decimal) :: pieces) position (.word value :: args) =
      (render pieces (position + (decimalText value.toNat).length) args).map
        fun r => (decimalText value.toNat ++ r.1, r.2) := by
  refine render_directly fun position => ?_
  have notNegative : ¬ 2 ^ 31 ≤ value.toNat := by omega
  have text : Radix.text .decimal (Spec.directive ⟨[], none, none, none, .number .decimal⟩) value =
      decimalText value.toNat := by
    refine (numberText_zero 10 ?_ rfl rfl).trans ?_
    · rw [signText, if_neg fun negative => notNegative negative.2]
      rfl
    · rw [numeral, magnitude, if_neg fun negative => notNegative negative.2]
      rfl
  exact congrArg (fun text => some (text, [], args)) text

theorem render_string (text : List Char) :
    render (directly .string :: pieces) position (.string text :: args) =
      (render pieces (position + text.length) args).map fun r => (text ++ r.1, r.2) := by
  refine render_directly fun position => ?_
  have whole : cutText (Spec.directive ⟨[], none, none, none, .string⟩) text = text :=
    justify_zero false text
  exact congrArg (fun text => some (text, [], args)) whole

theorem shortStrings_nil : ShortStrings [] := nofun

theorem ShortStrings.word (short : ShortStrings args) (value : UInt32) :
    ShortStrings (.word value :: args) := by
  intro s member
  rcases List.mem_cons.mp member with word | later
  · contradiction
  · exact short s later

theorem ShortStrings.string (short : ShortStrings args) {text : List Char}
    (bounded : text.length < 2 ^ 31) : ShortStrings (.string text :: args) := by
  intro s member
  rcases List.mem_cons.mp member with same | later
  · cases same
    exact bounded
  · exact short s later

/-! ### Characters -/

def charOf (c : UInt8) : Char := Char.ofNat c.toNat

/-- Characters that the screen shows, at most `width` of them. -/
structure Visible (width : Nat) (text : List Char) : Prop where
  fits : text.length ≤ width
  chars : ∀ c ∈ text, 0x20 ≤ (byteOf c).toNat ∧ (byteOf c).toNat ≤ 0x7F

theorem Visible.of_all {width : Nat} {text : List Char} (fits : text.length ≤ width)
    (shown : (text.all fun c => 0x20 ≤ (byteOf c).toNat ∧ (byteOf c).toNat ≤ 0x7F) = true) :
    Visible width text where
  fits := fits
  chars := fun c member => of_decide_eq_true (List.all_eq_true.mp shown c member)

theorem Visible.line {text : List Char} (visible : Visible 80 text) : Line (text.map byteOf) where
  fits := by
    rw [List.length_map]
    exact visible.fits
  visible := by
    intro c member
    obtain ⟨d, listed, rfl⟩ := List.mem_map.mp member
    exact visible.chars d listed

theorem Visible.append {n n' width : Nat} {first second : List Char} (before : Visible n first)
    (after : Visible n' second) (fits : n + n' ≤ width) : Visible width (first ++ second) where
  fits := by
    have first := before.fits
    have second := after.fits
    rw [List.length_append]
    omega
  chars := by
    intro c member
    rcases List.mem_append.mp member with inFirst | inSecond
    · exact before.chars c inFirst
    · exact after.chars c inSecond

/-- A numeral of at most `width` digits. -/
theorem visible_writeNumeral {locase : Bool} {base n width : Nat} (valid : 2 ≤ base)
    (symbols : ∀ d, d < base → 0x20 ≤ (byteOf (digitSymbol locase d)).toNat ∧
      (byteOf (digitSymbol locase d)).toNat ≤ 0x7F)
    (some_width : width ≠ 0) (small : n < base ^ width) :
    Visible width (writeNumeral (digitSymbol locase) base n) where
  fits := by
    rw [writeNumeral_length valid]
    exact Nat.log_lt_of_lt_pow' some_width small
  chars := by
    intro c member
    rw [writeNumeral] at member
    split_ifs at member
    · rw [List.mem_singleton] at member
      exact member ▸ symbols 0 (by omega)
    · obtain ⟨d, digit, rfl⟩ := List.mem_map.mp (List.mem_reverse.mp member)
      exact symbols d (Nat.digits_lt_base valid digit)

theorem visible_hexText {n : Nat} (word : n < 2 ^ 32) : Visible 8 (hexText n) :=
  visible_writeNumeral (by decide) (by decide) (by decide) word

theorem visible_decimalText {n width : Nat} (some_width : width ≠ 0) (small : n < 10 ^ width) :
    Visible width (decimalText n) :=
  visible_writeNumeral (by decide) (by decide) some_width small

/-! ### Lines -/

/-- The call prints these lines, which fit the screen and, together, the buffer. -/
structure PrintsLines (call : Call) (lines : List (List Char)) : Prop where
  short : ShortStrings call.args
  rendered : render call.pieces 0 call.args = some (lines.flatMap (· ++ ['\n']), [])
  fits : (lines.flatMap (· ++ ['\n'])).length < 1024
  visible : ∀ line ∈ lines, Visible 80 line

variable {call : Call} {line : List Char} {lines : List (List Char)}

theorem printsLine (short : ShortStrings call.args)
    (rendered : render call.pieces 0 call.args = some (line ++ ['\n'], []))
    (visible : Visible 80 line) : PrintsLines call [line] where
  short := short
  rendered := by rw [rendered, List.flatMap_singleton]
  fits := by
    have fits := visible.fits
    rw [List.flatMap_singleton, List.length_append, List.length_singleton]
    omega
  visible := fun other member => List.mem_singleton.mp member ▸ visible

theorem PrintsLines.prints (printsLines : PrintsLines call lines) :
    Prints call (lines.flatMap (· ++ ['\n'])) where
  short := printsLines.short
  rendered := printsLines.rendered
  fits := printsLines.fits
  noNul := by
    intro c member nul
    obtain ⟨line, listed, inText⟩ := List.mem_flatMap.mp member
    rcases List.mem_append.mp inText with inLine | newline
    · have visible := ((printsLines.visible line listed).chars c inLine).1
      rw [nul] at visible
      exact absurd visible (by decide)
    · rw [List.mem_singleton.mp newline] at nul
      exact absurd nul (by decide)

/-- A call that prints lines adds them to what the screen shows. -/
theorem PrintsLines.shows (printsLines : PrintsLines call lines) {o : Output}
    {before : List (List UInt8)} (shows : o.screen.Shows before) :
    ∃ o', o.kprintf (spell call.pieces) call.args = some o' ∧
      o'.screen.Shows (before ++ lines.map (·.map byteOf)) := by
  obtain ⟨buf, printed⟩ := printsLines.prints.kprintf o
  have good : ∀ line ∈ lines.map (·.map byteOf), Line line := by
    intro line member
    obtain ⟨text, listed, rfl⟩ := List.mem_map.mp member
    exact (printsLines.visible text listed).line
  have text : (lines.flatMap (· ++ ['\n'])).map byteOf =
      (lines.map (·.map byteOf)).flatMap (· ++ [0x0A]) := by
    simp only [List.map_flatMap, List.flatMap_map, List.map_append]
    rfl
  refine ⟨_, printed, ?_⟩
  rw [text, foldl_lines good]
  exact shows_more shows good

end Balloon.Printf
