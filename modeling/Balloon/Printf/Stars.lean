import Balloon.Foundation.Numeral
import Balloon.Printf.Buffer

/-!
Owns what a `*` in a directive does. `vsprintf` takes its argument and leaves the pointer on the
`*`, so the conversion that is looked up is `*`: the directive prints itself, and the argument
that its conversion should take is left for the next one.
-/

namespace Balloon.Printf

open Balloon.Foundation

/-! ### Directives with a number -/

/-- The decimal digits of a number. -/
def decimal (n : Nat) : List Char := writeNumeral (fun d => Char.ofNat (48 + d)) 10 n

def flagChars : List Char := ['-', '+', ' ', '#', '0']

def conversions : List Char := ['c', 's', 'd', 'i', 'u', 'x', 'X', 'o', 'b', 'p']

/-- Where a directive has the number: in its width, with the precision there is, or in its
precision, with the width there is. -/
inductive Place where
  | inWidth (precision : Option Nat)
  | inPrecision (width : Option Nat)

/-- A directive between its `%` and the number. -/
def Place.before (flags : List Char) : Place → List Char
  | .inWidth _ => flags
  | .inPrecision width => flags ++ (width.elim [] decimal ++ ['.'])

/-- A directive behind the number. -/
def Place.after (conversion : Char) : Place → List Char
  | .inWidth precision => precision.elim [] (fun p => '.' :: decimal p) ++ [conversion]
  | .inPrecision _ => [conversion]

/-- A format that starts with a directive whose number is written as `number`. -/
def Place.format (place : Place) (flags number : List Char) (conversion : Char)
    (fmt : List Char) : List Char :=
  '%' :: (place.before flags ++ (number ++ (place.after conversion ++ fmt)))

/-- The loop of `vsprintf`, with the arguments that it leaves. -/
def vsprintfRest : Nat → Sink → List Char → List Arg → Option (Sink × List Arg)
  | _, k, [], args => some (k, args)
  | 0, _, _ :: _, _ => none
  | fuel + 1, k, c :: fmt, args =>
      if c ≠ '%' then vsprintfRest fuel (k.put c) fmt args
      else do
        let (d, fmt, args) ← scanDirective fmt args
        let (k, fmt, args) ← convert k d args fmt
        vsprintfRest fuel k fmt args

theorem vsprintfRest_fst (fuel : Nat) (k : Sink) (fmt : List Char) (args : List Arg) :
    (vsprintfRest fuel k fmt args).map Prod.fst = vsprintfLoop fuel k fmt args := by
  induction fuel generalizing k fmt args with
  | zero => cases fmt <;> rfl
  | succ fuel inductionHypothesis =>
      cases fmt with
      | nil => rfl
      | cons c fmt =>
          rw [vsprintfRest, vsprintfLoop]
          split_ifs
          · exact inductionHypothesis _ _ _
          · simp only [Option.bind_eq_bind, Option.map_bind, Function.comp_def, inductionHypothesis]

/-! ### Arguments taken -/

variable {k k' : Sink} {d d' : Directive} {fmt fmt' rest rest' : List Char}
  {args args' left left' : List Arg} {c : Char}

theorem vaWord_length {value : UInt32} (taken : vaWord args = some (value, left)) :
    args.length = left.length + 1 := by
  unfold vaWord at taken
  split at taken
  · cases taken
    rfl
  · contradiction

theorem vaString_length {s : List Char} (taken : vaString args = some (s, left)) :
    args.length = left.length + 1 := by
  unfold vaString at taken
  split at taken
  · cases taken
    rfl
  · contradiction

theorem scanFlags_rest (fmt : List Char) (flags : Flags) :
    (scanFlags fmt flags).2 = fmt.dropWhile (· ∈ flagChars) := by
  fun_induction scanFlags fmt flags with
  | case6 fmt flags left plus space special zeropad =>
      cases fmt with
      | nil => rfl
      | cons c fmt =>
          have plain : c ∉ flagChars := by
            simp only [flagChars, List.mem_cons, List.not_mem_nil, or_false, not_or]
            exact ⟨fun same => left fmt (same ▸ rfl), fun same => plus fmt (same ▸ rfl),
              fun same => space fmt (same ▸ rfl), fun same => special fmt (same ▸ rfl),
              fun same => zeropad fmt (same ▸ rfl)⟩
          rw [List.dropWhile_cons_of_neg (by simpa using plain)]
  | _ =>
      rw [List.dropWhile_cons_of_pos (by decide)]
      assumption

theorem skipAtoi_rest (fmt : List Char) (i : Int) : (skipAtoi fmt i).2 = fmt.dropWhile isDigit := by
  fun_induction skipAtoi fmt i with
  | case1 i => rfl
  | case2 i c rest digit inductionHypothesis =>
      rw [inductionHypothesis, List.dropWhile_cons_of_pos digit]
  | case3 i c rest noDigit => rw [List.dropWhile_cons_of_neg noDigit]

/-- Where the scan of a number or a `*` ends, and the arguments it takes. -/
def widthEnd (fmt : List Char) : List Char × Nat :=
  if fmt.head? = some '*' then (fmt, 1) else (fmt.dropWhile isDigit, 0)

def precisionEnd : List Char → List Char × Nat
  | '.' :: fmt => widthEnd fmt
  | fmt => (fmt, 0)

theorem widthEnd_digit (digit : isDigit c = true) :
    widthEnd (c :: fmt) = ((skipAtoi (c :: fmt) 0).2, 0) := by
  have plain : c ≠ '*' := by
    rintro rfl
    contradiction
  rw [widthEnd, if_neg (by simpa using plain), skipAtoi_rest]

theorem widthEnd_star : widthEnd ('*' :: fmt) = ('*' :: fmt, 1) := rfl

theorem widthEnd_other (noDigit : ¬ isDigit c = true) (noStar : c ≠ '*') :
    widthEnd (c :: fmt) = (c :: fmt, 0) := by
  rw [widthEnd, if_neg (by simpa using noStar), List.dropWhile_cons_of_neg noDigit]

theorem scanWidth_end {flags flags' : Flags} {width : Int}
    (scanned : scanWidth flags args fmt = some (flags', width, rest, left)) :
    rest = (widthEnd fmt).1 ∧ args.length = left.length + (widthEnd fmt).2 := by
  cases fmt with
  | nil =>
      cases scanned
      exact ⟨rfl, rfl⟩
  | cons c fmt =>
      rw [scanWidth] at scanned
      split_ifs at scanned with digit star
      · obtain ⟨-, -, rfl, rfl⟩ := by
          simpa only [Option.some.injEq, Prod.mk.injEq] using scanned
        rw [widthEnd_digit digit]
        exact ⟨rfl, rfl⟩
      · obtain ⟨⟨value, args₁⟩, taken, same⟩ := Option.map_eq_some_iff.mp scanned
        subst star
        rw [widthEnd_star]
        dsimp only at same
        split_ifs at same
        all_goals
          obtain ⟨-, -, rfl, rfl⟩ := by simpa only [Prod.mk.injEq] using same
          exact ⟨rfl, vaWord_length taken⟩
      · obtain ⟨-, -, rfl, rfl⟩ := by
          simpa only [Option.some.injEq, Prod.mk.injEq] using scanned
        rw [widthEnd_other digit star]
        exact ⟨rfl, rfl⟩

theorem scanPrecision_end {precision : Int}
    (scanned : scanPrecision args fmt = some (precision, rest, left)) :
    rest = (precisionEnd fmt).1 ∧ args.length = left.length + (precisionEnd fmt).2 := by
  unfold scanPrecision at scanned
  split at scanned
  · next fmt =>
    obtain ⟨⟨precision₁, rest₁, args₁⟩, scannedRest, same⟩ := Option.map_eq_some_iff.mp scanned
    obtain ⟨-, rfl, rfl⟩ := by simpa only [Prod.mk.injEq] using same
    rw [precisionEnd]
    cases fmt with
    | nil =>
        cases scannedRest
        exact ⟨rfl, rfl⟩
    | cons c fmt =>
        dsimp only at scannedRest
        split_ifs at scannedRest with digit star
        · obtain ⟨-, rfl, rfl⟩ := by
            simpa only [Option.some.injEq, Prod.mk.injEq] using scannedRest
          rw [widthEnd_digit digit]
          exact ⟨rfl, rfl⟩
        · obtain ⟨⟨value, args₂⟩, taken, given⟩ := Option.map_eq_some_iff.mp scannedRest
          obtain ⟨-, rfl, rfl⟩ := by simpa only [Prod.mk.injEq] using given
          subst star
          exact ⟨rfl, vaWord_length taken⟩
        · obtain ⟨-, rfl, rfl⟩ := by
            simpa only [Option.some.injEq, Prod.mk.injEq] using scannedRest
          rw [widthEnd_other digit star]
          exact ⟨rfl, rfl⟩
  · next noPoint =>
    obtain ⟨-, rfl, rfl⟩ := by simpa only [Option.some.injEq, Prod.mk.injEq] using scanned
    unfold precisionEnd
    split
    · exact absurd rfl (noPoint _)
    · exact ⟨rfl, rfl⟩

/-- Where the scan of a directive ends, and the arguments it takes. -/
def directiveEnd (fmt : List Char) : List Char × Nat :=
  let width := widthEnd (fmt.dropWhile (· ∈ flagChars))
  let precision := precisionEnd width.1
  (scanQualifier precision.1, width.2 + precision.2)

theorem scanDirective_end (scanned : scanDirective fmt args = some (d, rest, left)) :
    rest = (directiveEnd fmt).1 ∧ args.length = left.length + (directiveEnd fmt).2 := by
  simp only [scanDirective, Option.bind_eq_bind, Option.bind_eq_some_iff, Prod.exists] at scanned
  obtain ⟨flags, width, rest₁, args₁, scannedWidth, precision, rest₂, args₂, scannedPrecision,
    same⟩ := scanned
  obtain ⟨-, rfl, rfl⟩ := by simpa only [pure, Option.some.injEq, Prod.mk.injEq] using same
  obtain ⟨rfl, takenWidth⟩ := scanWidth_end scannedWidth
  rw [scanFlags_rest] at *
  obtain ⟨rfl, takenPrecision⟩ := scanPrecision_end scannedPrecision
  refine ⟨rfl, ?_⟩
  simp only [directiveEnd]
  omega

/-- The arguments that a conversion takes. -/
def convertTaken : List Char → Nat
  | [] => 0
  | c :: _ => if c ∈ 'n' :: conversions then 1 else 0

theorem convertNumber_end {base : Nat}
    (converted : convertNumber k d base args fmt = some (k', rest, left)) :
    rest = fmt ∧ args.length = left.length + 1 := by
  simp only [convertNumber, Option.bind_eq_bind, Option.bind_eq_some_iff, Prod.exists] at converted
  obtain ⟨value, args₁, taken, k₁, -, same⟩ := converted
  obtain ⟨-, rfl, rfl⟩ := by simpa only [pure, Option.some.injEq, Prod.mk.injEq] using same
  exact ⟨rfl, vaWord_length taken⟩

theorem convert_end (converted : convert k d args fmt = some (k', rest, left)) :
    rest = fmt.tail ∧ args.length = left.length + convertTaken fmt := by
  unfold convert at converted
  split at converted
  · cases converted
    exact ⟨rfl, rfl⟩
  · next c fmt =>
    dsimp only at converted
    split at converted
    · obtain ⟨⟨value, args₁⟩, taken, same⟩ := Option.map_eq_some_iff.mp converted
      obtain ⟨-, rfl, rfl⟩ := by simpa only [Prod.mk.injEq] using same
      exact ⟨rfl, vaWord_length taken⟩
    · obtain ⟨⟨s, args₁⟩, taken, same⟩ := Option.map_eq_some_iff.mp converted
      obtain ⟨-, rfl, rfl⟩ := by simpa only [Prod.mk.injEq] using same
      exact ⟨rfl, vaString_length taken⟩
    iterate 8
      · exact convertNumber_end converted
    · obtain ⟨⟨ip, args₁⟩, taken, same⟩ := Option.map_eq_some_iff.mp converted
      obtain ⟨-, rfl, rfl⟩ := by simpa only [Prod.mk.injEq] using same
      exact ⟨rfl, vaWord_length taken⟩
    · obtain ⟨-, rfl, rfl⟩ := by simpa only [Option.some.injEq, Prod.mk.injEq] using converted
      exact ⟨rfl, rfl⟩
    · obtain ⟨-, rfl, rfl⟩ := by simpa only [Option.some.injEq, Prod.mk.injEq] using converted
      have other : c ∉ 'n' :: conversions := by
        simp only [conversions, List.mem_cons, List.not_mem_nil, or_false, not_or]
        exact ⟨‹_›, ‹_›, ‹_›, ‹_›, ‹_›, ‹_›, ‹_›, ‹_›, ‹_›, ‹_›, ‹_›⟩
      rw [convertTaken, if_neg other]
      exact ⟨rfl, rfl⟩

/-- However far apart they start, two runs of one format take the same number of arguments. -/
theorem vsprintfRest_taken (fuel fuel' : Nat) {k₁ k₂ : Sink}
    (ran : vsprintfRest fuel k fmt args = some (k₁, left))
    (ran' : vsprintfRest fuel' k' fmt args' = some (k₂, left')) :
    args.length + left'.length = args'.length + left.length := by
  induction fuel generalizing fuel' k k' fmt args args' with
  | zero =>
      cases fmt with
      | nil =>
          cases fuel' <;> cases ran <;> cases ran' <;> exact Nat.add_comm _ _
      | cons c fmt => exact absurd ran (by simp [vsprintfRest])
  | succ fuel inductionHypothesis =>
      cases fmt with
      | nil =>
          cases fuel' <;> cases ran <;> cases ran' <;> exact Nat.add_comm _ _
      | cons c fmt =>
          cases fuel' with
          | zero => exact absurd ran' (by simp [vsprintfRest])
          | succ fuel' =>
              rw [vsprintfRest] at ran ran'
              by_cases plain : c ≠ '%'
              · rw [if_pos plain] at ran ran'
                exact inductionHypothesis fuel' ran ran'
              · rw [if_neg plain] at ran ran'
                obtain ⟨⟨d₁, fmt₁, args₁⟩, scanned, converts⟩ := Option.bind_eq_some_iff.mp ran
                obtain ⟨⟨k₃, fmt₂, args₂⟩, converted, runs⟩ := Option.bind_eq_some_iff.mp converts
                obtain ⟨⟨d₁', fmt₁', args₁'⟩, scanned', converts'⟩ :=
                  Option.bind_eq_some_iff.mp ran'
                obtain ⟨⟨k₃', fmt₂', args₂'⟩, converted', runs'⟩ :=
                  Option.bind_eq_some_iff.mp converts'
                obtain ⟨rfl, taken⟩ := scanDirective_end scanned
                obtain ⟨rfl, taken'⟩ := scanDirective_end scanned'
                obtain ⟨rfl, given⟩ := convert_end converted
                obtain ⟨rfl, given'⟩ := convert_end converted'
                have rest := inductionHypothesis fuel' runs runs'
                omega

/-! ### Numbers in a directive -/

theorem decimal_digit {n : Nat} (member : c ∈ decimal n) : isDigit c = true := by
  obtain ⟨d, small, rfl⟩ := mem_writeNumeral (by decide) member
  interval_cases d <;> rfl

/-- A number starts with a character that is no flag, unless it is 0. -/
theorem decimal_head {n : Nat} (positive : n ≠ 0) :
    ∃ c digits, decimal n = c :: digits ∧ c ∉ flagChars := by
  have nonempty : Nat.digits 10 n ≠ [] := Nat.digits_ne_nil_iff_ne_zero.mpr positive
  have head : (decimal n).head? = some (Char.ofNat (48 + (Nat.digits 10 n).getLast nonempty)) := by
    rw [decimal, writeNumeral_of_pos positive, List.head?_reverse, List.getLast?_map,
      List.getLast?_eq_getLast_of_ne_nil nonempty, Option.map_some]
  obtain ⟨digits, spelled⟩ := List.head?_eq_some_iff.mp head
  refine ⟨_, digits, spelled, ?_⟩
  have small := Nat.digits_lt_base (by decide) (List.getLast_mem nonempty)
  have leading := Nat.getLast_digit_ne_zero 10 positive
  generalize (Nat.digits 10 n).getLast nonempty = d at small leading
  interval_cases d <;> first | contradiction | decide

/-- What may stand behind a number. -/
def Ends (fmt : List Char) : Prop :=
  ∃ c rest, fmt = c :: rest ∧ c ∉ flagChars ∧ isDigit c = false ∧ c ≠ '*'

theorem widthEnd_ends (ends : Ends fmt) : widthEnd fmt = (fmt, 0) := by
  obtain ⟨c, rest, rfl, -, noDigit, noStar⟩ := ends
  exact widthEnd_other (by simpa using noDigit) noStar

theorem widthEnd_decimal (n : Nat) (ends : Ends fmt) : widthEnd (decimal n ++ fmt) = (fmt, 0) := by
  obtain ⟨c, rest, rfl, -, noDigit, noStar⟩ := ends
  have noStarAhead : (decimal n ++ c :: rest).head? ≠ some '*' := by
    intro starts
    rw [List.head?_append, List.head?_cons] at starts
    cases first : (decimal n).head? with
    | none =>
        rw [first] at starts
        exact noStar (Option.some.inj starts)
    | some d =>
        rw [first] at starts
        obtain rfl : d = '*' := Option.some.inj starts
        exact absurd (decimal_digit (List.mem_of_head? first)) (by decide)
  rw [widthEnd, if_neg noStarAhead, List.dropWhile_append_of_pos fun d => decimal_digit,
    List.dropWhile_cons_of_neg (by simpa using noDigit)]

/-- The digits of a number are read as a width, or, when there is only a 0, as a flag. -/
theorem widthEnd_flags_decimal (n : Nat) (ends : Ends fmt) :
    widthEnd ((decimal n ++ fmt).dropWhile (· ∈ flagChars)) = (fmt, 0) := by
  by_cases zero : n = 0
  · subst zero
    obtain ⟨c, rest, rfl, noFlag, noDigit, noStar⟩ := ends
    have skipped : (decimal 0 ++ c :: rest).dropWhile (· ∈ flagChars) = c :: rest := by
      rw [show decimal 0 = ['0'] from rfl, List.singleton_append,
        List.dropWhile_cons_of_pos (by decide), List.dropWhile_cons_of_neg (by simpa using noFlag)]
    rw [skipped]
    exact widthEnd_other (by simpa using noDigit) noStar
  · obtain ⟨c, digits, spelled, noFlag⟩ := decimal_head zero
    have kept : (decimal n ++ fmt).dropWhile (· ∈ flagChars) = decimal n ++ fmt := by
      rw [spelled, List.cons_append, List.dropWhile_cons_of_neg (by simpa using noFlag)]
    rw [kept]
    exact widthEnd_decimal n ends

/-! ### Directives -/

variable {flags : List Char} {conversion : Char} {place : Place}

theorem conversion_ends (converts : conversion ∈ conversions) : Ends (conversion :: fmt) := by
  refine ⟨conversion, fmt, rfl, ?_⟩
  have each : ∀ c ∈ conversions, c ∉ flagChars ∧ isDigit c = false ∧ c ≠ '*' :=
    List.forall_iff_forall_mem.mp (by simp [conversions, flagChars, isDigit])
  exact each conversion converts

theorem precisionEnd_conversion (converts : conversion ∈ conversions) :
    precisionEnd (conversion :: fmt) = (conversion :: fmt, 0) := by
  have noPoint : conversion ≠ '.' := by
    rintro rfl
    exact absurd converts (by decide)
  unfold precisionEnd
  split
  · next same => exact absurd (List.cons.inj same).1 noPoint
  · rfl

theorem scanQualifier_conversion (converts : conversion ∈ conversions) :
    scanQualifier (conversion :: fmt) = conversion :: fmt := by
  unfold scanQualifier
  split
  iterate 3
    · next same =>
      obtain rfl := (List.cons.inj same).1
      exact absurd converts (by decide)
  · rfl

theorem point_ends : Ends ('.' :: fmt) := ⟨'.', fmt, rfl, by decide, by decide, by decide⟩

theorem directiveEnd_flags (flagged : ∀ c, c ∈ flags → c ∈ flagChars) :
    directiveEnd (flags ++ fmt) = directiveEnd fmt := by
  have skipped : (flags ++ fmt).dropWhile (· ∈ flagChars) = fmt.dropWhile (· ∈ flagChars) :=
    List.dropWhile_append_of_pos fun c member => decide_eq_true (flagged c member)
  rw [directiveEnd, directiveEnd, skipped]

theorem after_ends (converts : conversion ∈ conversions) :
    Ends (place.after conversion ++ fmt) := by
  rcases place with (_ | precision) | width
  · exact conversion_ends converts
  · exact point_ends
  · exact conversion_ends converts

theorem precisionEnd_after (converts : conversion ∈ conversions) (precision : Option Nat) :
    precisionEnd ((Place.inWidth precision).after conversion ++ fmt) = (conversion :: fmt, 0) := by
  cases precision with
  | none => exact precisionEnd_conversion converts
  | some p =>
      rw [Place.after, Option.elim_some, List.append_assoc, List.cons_append, precisionEnd]
      exact widthEnd_decimal p (conversion_ends converts)

/-- With the number in digits, the scan ends on the conversion and takes no argument. -/
theorem directiveEnd_digits (flagged : ∀ c, c ∈ flags → c ∈ flagChars)
    (converts : conversion ∈ conversions) (n : Nat) :
    directiveEnd (place.before flags ++ (decimal n ++ (place.after conversion ++ fmt))) =
      (conversion :: fmt, 0) := by
  cases place with
  | inWidth precision =>
      rw [Place.before, directiveEnd_flags flagged, directiveEnd,
        widthEnd_flags_decimal n (after_ends converts), precisionEnd_after converts,
        scanQualifier_conversion converts]
      rfl
  | inPrecision width =>
      have pointed : widthEnd ((width.elim [] decimal ++
          ('.' :: (decimal n ++ conversion :: fmt))).dropWhile (· ∈ flagChars)) =
            ('.' :: (decimal n ++ conversion :: fmt), 0) := by
        cases width with
        | none => exact widthEnd_ends point_ends
        | some w => exact widthEnd_flags_decimal w point_ends
      simp only [Place.before, Place.after, List.append_assoc, List.singleton_append]
      rw [directiveEnd_flags flagged, directiveEnd, pointed, precisionEnd,
        widthEnd_decimal n (conversion_ends converts), scanQualifier_conversion converts]
      rfl

/-- With a `*` for the number, the scan takes its argument and stays on the `*`. -/
theorem directiveEnd_star (flagged : ∀ c, c ∈ flags → c ∈ flagChars) :
    directiveEnd (place.before flags ++ ('*' :: fmt)) = ('*' :: fmt, 1) := by
  cases place with
  | inWidth precision =>
      rw [Place.before, directiveEnd_flags flagged]
      rfl
  | inPrecision width =>
      have pointed : widthEnd ((width.elim [] decimal ++ ('.' :: '*' :: fmt)).dropWhile
          (· ∈ flagChars)) = ('.' :: '*' :: fmt, 0) := by
        cases width with
        | none => exact widthEnd_ends point_ends
        | some w => exact widthEnd_flags_decimal w point_ends
      simp only [Place.before, List.append_assoc, List.singleton_append]
      rw [directiveEnd_flags flagged, directiveEnd, pointed]
      rfl

/-! ### Runs -/

variable {fuel : Nat}

/-- What a run does with a directive, as far as its arguments go. -/
theorem vsprintfRest_directive {k₁ : Sink}
    (ran : vsprintfRest fuel k ('%' :: fmt) args = some (k₁, left)) :
    ∃ fuel' k' args', vsprintfRest fuel' k' (directiveEnd fmt).1.tail args' = some (k₁, left) ∧
      args.length = args'.length + (directiveEnd fmt).2 + convertTaken (directiveEnd fmt).1 := by
  cases fuel with
  | zero => exact absurd ran (by simp [vsprintfRest])
  | succ fuel =>
      rw [vsprintfRest, if_neg (by decide)] at ran
      obtain ⟨⟨d₁, fmt₁, args₁⟩, scanned, converts⟩ := Option.bind_eq_some_iff.mp ran
      obtain ⟨⟨k₂, fmt₂, args₂⟩, converted, runs⟩ := Option.bind_eq_some_iff.mp converts
      obtain ⟨rfl, taken⟩ := scanDirective_end scanned
      obtain ⟨rfl, given⟩ := convert_end converted
      exact ⟨fuel, k₂, args₂, runs, by omega⟩

theorem vsprintfRest_plain {text : List Char} {k₁ : Sink} (plain : '%' ∉ text)
    (ran : vsprintfRest fuel k (text ++ fmt) args = some (k₁, left)) :
    ∃ fuel' k', vsprintfRest fuel' k' fmt args = some (k₁, left) := by
  induction text generalizing fuel k with
  | nil => exact ⟨fuel, k, ran⟩
  | cons c text inductionHypothesis =>
      cases fuel with
      | zero => exact absurd ran (by simp [vsprintfRest])
      | succ fuel =>
          rw [List.mem_cons, not_or] at plain
          rw [List.cons_append, vsprintfRest, if_pos (Ne.symm plain.1)] at ran
          exact inductionHypothesis plain.2 ran

theorem after_plain (converts : conversion ∈ conversions) : '%' ∉ place.after conversion := by
  have other : '%' ≠ conversion := by
    rintro rfl
    exact absurd converts (by decide)
  rcases place with (_ | precision) | width
  · simpa [Place.after] using other
  · have digits : '%' ∉ decimal precision := fun member =>
      absurd (decimal_digit member) (by decide)
    simpa [Place.after, digits] using other
  · simpa [Place.after] using other

/-- `vsprintf` and the arguments that it leaves. -/
def vsprintfLeft (fmt : List Char) (args : List Arg) : Option (Sink × List Arg) :=
  vsprintfRest fmt.length ⟨0, [], []⟩ fmt args

theorem vsprintf_eq_left (fmt : List Char) (args : List Arg) :
    vsprintf fmt args = (vsprintfLeft fmt args).map fun (k, _) =>
      ({ k with stores := (k.str, '\x00') :: k.stores }, k.str) := by
  rw [vsprintf, ← vsprintfRest_fst, Option.map_map]
  rfl

/-- The number in the argument list does what the number in the format does. -/
def StarAgrees (place : Place) (flags : List Char) (n : UInt32) (conversion : Char)
    (fmt : List Char) (args : List Arg) : Prop :=
  vsprintfLeft (place.format flags ['*'] conversion fmt) (.word n :: args) =
    vsprintfLeft (place.format flags (decimal n.toNat) conversion fmt) args

/-- A number in the argument list never does what it does in the format: behind the `*`, which is
printed, the rest of the directive is text and takes no argument. -/
theorem star_disagrees {n : UInt32} (flagged : ∀ c, c ∈ flags → c ∈ flagChars)
    (converts : conversion ∈ conversions)
    (accepted : vsprintfLeft (place.format flags (decimal n.toNat) conversion fmt) args ≠ none) :
    ¬ StarAgrees place flags n conversion fmt args := by
  intro agrees
  obtain ⟨⟨k, left⟩, printed⟩ := Option.ne_none_iff_exists'.mp accepted
  have starred := agrees.trans printed
  obtain ⟨fuel₁, k₁, args₁, runs, taken⟩ := vsprintfRest_directive printed
  obtain ⟨fuel₂, k₂, args₂, runsStarred, takenStarred⟩ := vsprintfRest_directive starred
  rw [directiveEnd_digits flagged converts] at runs taken
  rw [List.singleton_append, directiveEnd_star flagged] at runsStarred takenStarred
  -- Behind the `*` the rest of the directive is text.
  obtain ⟨fuel₃, k₃, remaining⟩ := vsprintfRest_plain (after_plain converts) runsStarred
  have same := vsprintfRest_taken fuel₁ fuel₃ runs remaining
  have one : convertTaken (conversion :: fmt) = 1 :=
    if_pos (List.mem_cons_of_mem _ converts)
  have none : convertTaken ('*' :: (place.after conversion ++ fmt)) = 0 := rfl
  rw [one] at taken
  rw [none, List.length_cons] at takenStarred
  omega

theorem star_disagrees_five :
    ¬ StarAgrees (.inWidth none) ['-'] 5 'd' [] [.word 42] :=
  star_disagrees (List.forall_mem_singleton.mpr (by decide)) (by decide) (by decide)

theorem star_leaves_argument :
    vsprintfLeft "%*d".toList [.word 5, .word 42] =
        some (⟨3, [(2, 'd'), (1, '*'), (0, '%')], []⟩, [.word 42]) ∧
      vsprintfLeft "%5d".toList [.word 42] =
        some (⟨5, [(4, '2'), (3, '4'), (2, ' '), (1, ' '), (0, ' ')], []⟩, []) ∧
      ¬ StarAgrees (.inWidth none) [] 5 'd' [] [.word 42] := by
  have starred : vsprintfLeft "%*d".toList [.word 5, .word 42] =
      some (⟨3, [(2, 'd'), (1, '*'), (0, '%')], []⟩, [.word 42]) := rfl
  have digits : vsprintfLeft "%5d".toList [.word 42] =
      some (⟨5, [(4, '2'), (3, '4'), (2, ' '), (1, ' '), (0, ' ')], []⟩, []) := rfl
  refine ⟨starred, digits, fun agrees => ?_⟩
  have same := (starred.symm.trans agrees).trans digits
  simp at same

end Balloon.Printf
