import Balloon.Printf.Conversions
import Balloon.Printf.Stars

/-!
Owns the language of formats: a format is a list of characters and directives, a directive is its
flags, width, precision, qualifier and conversion, and `spell` writes it down. What a format means
is the text that `render` gives for its arguments. `vsprintf` reads every spelled format as that
list and stores that text.

A `*` is not in the language, because `vsprintf` does not skip it, nor is a `%` in front of a
character that is no conversion.
-/

namespace Balloon.Printf

/-! ### Directives -/

inductive Flag where
  | left
  | plus
  | space
  | special
  | zeropad
deriving DecidableEq

def Flag.char : Flag → Char
  | left => '-'
  | plus => '+'
  | space => ' '
  | special => '#'
  | zeropad => '0'

def Flags.add (flags : Flags) : Flag → Flags
  | .left => { flags with left := true }
  | .plus => { flags with plus := true }
  | .space => { flags with space := true }
  | .special => { flags with special := true }
  | .zeropad => { flags with zeropad := true }

inductive Qualifier where
  | short
  | long
  | longDouble
deriving DecidableEq

def Qualifier.char : Qualifier → Char
  | short => 'h'
  | long => 'l'
  | longDouble => 'L'

inductive Conversion where
  | number (radix : Radix)
  | char
  | string
  | count
  | percent
deriving DecidableEq

def Conversion.letter : Conversion → Char
  | number radix => radix.letter
  | char => 'c'
  | string => 's'
  | count => 'n'
  | percent => '%'

/-- A directive as it is written. A `.` without a number is the precision `some none`; a width
has no zero in front, which would be a flag. -/
structure Spec where
  flags : List Flag
  width : Option { n : Nat // 0 < n ∧ n < 2 ^ 30 }
  precision : Option (Option { n : Nat // n < 2 ^ 30 })
  qualifier : Option Qualifier
  conversion : Conversion

inductive Piece where
  | text (c : Char) (plain : c ≠ '%')
  | directive (spec : Spec)

namespace Spec

def widthText (spec : Spec) : List Char := spec.width.elim [] fun width => decimal width

def precisionText (spec : Spec) : List Char :=
  spec.precision.elim [] fun precision => '.' :: precision.elim [] fun n => decimal n

def qualifierText (spec : Spec) : List Char := spec.qualifier.elim [] fun qualifier => [qualifier.char]

/-- A directive behind its `%`. -/
def spell (spec : Spec) : List Char :=
  spec.flags.map Flag.char ++ (spec.widthText ++ (spec.precisionText ++
    (spec.qualifierText ++ [spec.conversion.letter])))

/-- The directive that is meant. -/
def directive (spec : Spec) : Directive where
  flags := spec.flags.foldl Flags.add Flags.none
  fieldWidth := spec.width.elim (-1) fun width => (width : Nat)
  precision := spec.precision.elim (-1) fun precision => precision.elim 0 fun n => ((n : Nat) : Int)

/-- The text of a directive, the counts that it stores when `position` characters stand in front
of it, and the arguments behind its own. -/
def render (spec : Spec) (position : Nat) (args : List Arg) :
    Option (List Char × List (UInt32 × Nat) × List Arg) :=
  match spec.conversion, args with
  | .number radix, .word value :: args => some (radix.text spec.directive value, [], args)
  | .char, .word value :: args => some (charText spec.directive value, [], args)
  | .string, .string s :: args => some (cutText spec.directive s, [], args)
  | .count, .word ip :: args => some ([], [(ip, position)], args)
  | .percent, args => some (['%'], [], args)
  | _, _ => none

end Spec

/-- A format, written down. -/
def spell : List Piece → List Char
  | [] => []
  | .text c _ :: pieces => c :: spell pieces
  | .directive spec :: pieces => '%' :: (spec.spell ++ spell pieces)

/-- The text of a format, and the counts that it stores, in order. -/
def render : List Piece → Nat → List Arg → Option (List Char × List (UInt32 × Nat))
  | [], _, _ => some ([], [])
  | .text c _ :: pieces, position, args =>
      (render pieces (position + 1) args).map fun (text, counts) => (c :: text, counts)
  | .directive spec :: pieces, position, args => do
      let (text, counts, args) ← spec.render position args
      let (rest, restCounts) ← render pieces (position + text.length) args
      return (text ++ rest, counts ++ restCounts)

/-! ### Scanning -/

variable {fmt : List Char}

theorem scanFlags_spelled (written : List Flag) (flags : Flags) :
    scanFlags (written.map Flag.char ++ fmt) flags =
      scanFlags fmt (written.foldl Flags.add flags) := by
  induction written generalizing flags with
  | nil => rfl
  | cons flag written inductionHypothesis =>
      rw [List.map_cons, List.cons_append, List.foldl_cons, ← inductionHypothesis]
      cases flag <;> rfl

theorem scanFlags_other {c : Char} (other : c ∉ flagChars) (flags : Flags) :
    scanFlags (c :: fmt) flags = (flags, c :: fmt) := by
  simp only [flagChars, List.mem_cons, List.not_mem_nil, or_false, not_or] at other
  unfold scanFlags
  split <;> simp_all

theorem skipAtoi_other {c : Char} (other : isDigit c = false) (i : Int) :
    skipAtoi (c :: fmt) i = (i, c :: fmt) := by
  rw [skipAtoi, if_neg (by simp [other])]

theorem skipAtoi_append {text : List Char} (all : ∀ c ∈ text, isDigit c = true) (i : Int) :
    skipAtoi (text ++ fmt) i = skipAtoi fmt (skipAtoi text i).1 := by
  induction text generalizing i with
  | nil => rfl
  | cons c text inductionHypothesis =>
      obtain ⟨digit, rest⟩ := List.forall_mem_cons.mp all
      rw [List.cons_append, skipAtoi, if_pos digit, skipAtoi, if_pos digit]
      exact inductionHypothesis rest _

theorem digit_toNat {d : Nat} (small : d < 10) : (Char.ofNat (48 + d)).toNat = 48 + d := by
  interval_cases d <;> rfl

/-- `skip_atoi` reads a numeral. -/
theorem skipAtoi_decimal {n : Nat} (small : n < 2 ^ 31) : skipAtoi (decimal n) 0 = ((n : Int), []) := by
  induction n using Nat.strongRecOn with
  | ind n inductionHypothesis =>
      by_cases single : n < 10
      · interval_cases n <;> rfl
      · have spelled : decimal n = decimal (n / 10) ++ [Char.ofNat (48 + n % 10)] :=
          Balloon.Foundation.writeNumeral_step (by decide) (by omega)
        have before := inductionHypothesis (n / 10) (by omega) (by omega)
        have digit : isDigit (Char.ofNat (48 + n % 10)) = true := by
          have last : n % 10 < 10 := Nat.mod_lt n (by decide)
          generalize n % 10 = d at last
          interval_cases d <;> rfl
        rw [spelled, skipAtoi_append fun c => decimal_digit, before, skipAtoi, if_pos digit,
          skipAtoi, digit_toNat (Nat.mod_lt n (by decide)), wrapInt_of_range]
        · congr 1
          change ((n / 10 : Nat) : Int) * 10 + ((48 + n % 10 : Nat) : Int) - (48 : Nat) = n
          omega
        · change (-2 ^ 31 : Int) ≤ ((n / 10 : Nat) : Int) * 10 + ((48 + n % 10 : Nat) : Int) - (48 : Nat)
          omega
        · change ((n / 10 : Nat) : Int) * 10 + ((48 + n % 10 : Nat) : Int) - (48 : Nat) < (2 ^ 31 : Int)
          omega

theorem skipAtoi_number {n : Nat} (small : n < 2 ^ 31) (ends : Ends fmt) :
    skipAtoi (decimal n ++ fmt) 0 = ((n : Int), fmt) := by
  obtain ⟨c, rest, rfl, -, noDigit, -⟩ := ends
  rw [skipAtoi_append fun c => decimal_digit, skipAtoi_decimal small, skipAtoi_other noDigit]

theorem decimal_cons (n : Nat) : ∃ c digits, decimal n = c :: digits ∧ isDigit c = true := by
  cases spelled : decimal n with
  | nil =>
      have length : (decimal n).length = Nat.log 10 n + 1 :=
        Balloon.Foundation.writeNumeral_length (by decide) n
      rw [spelled] at length
      exact absurd length (by simp)
  | cons c digits =>
      exact ⟨c, digits, rfl, decimal_digit (n := n) (spelled ▸ List.mem_cons_self)⟩

namespace Spec

variable (spec : Spec)

theorem letter_ends : Ends (spec.conversion.letter :: fmt) := by
  refine ⟨spec.conversion.letter, fmt, rfl, ?_⟩
  rcases spec.conversion with radix | _ | _ | _ | _
  · cases radix <;> decide
  all_goals decide

theorem scanQualifier_spelled :
    scanQualifier (spec.qualifierText ++ spec.conversion.letter :: fmt) =
      spec.conversion.letter :: fmt := by
  unfold qualifierText
  cases spec.qualifier with
  | some qualifier => cases qualifier <;> rfl
  | none =>
      rcases spec.conversion with radix | _ | _ | _ | _
      · cases radix <;> rfl
      all_goals rfl

/-- What stands behind a precision. -/
theorem qualifier_ends : Ends (spec.qualifierText ++ spec.conversion.letter :: fmt) := by
  unfold qualifierText
  cases spec.qualifier with
  | none => exact spec.letter_ends
  | some qualifier =>
      refine ⟨qualifier.char, _, rfl, ?_⟩
      cases qualifier <;> decide

theorem qualifier_noPoint :
    (spec.qualifierText ++ spec.conversion.letter :: fmt).head? ≠ some '.' := by
  unfold qualifierText
  cases spec.qualifier with
  | some qualifier => cases qualifier <;> simp [Qualifier.char]
  | none =>
      rcases spec.conversion with radix | _ | _ | _ | _
      · cases radix <;> simp [Conversion.letter, Radix.letter]
      all_goals simp [Conversion.letter]

/-- What stands behind a width. -/
theorem precision_ends :
    Ends (spec.precisionText ++ (spec.qualifierText ++ spec.conversion.letter :: fmt)) := by
  unfold precisionText
  cases spec.precision with
  | none => exact spec.qualifier_ends
  | some precision => exact point_ends

theorem scanWidth_spelled (flags : Flags) (args : List Arg) (ends : Ends fmt) :
    scanWidth flags args (spec.widthText ++ fmt) =
      some (flags, spec.directive.fieldWidth, fmt, args) := by
  unfold widthText directive
  cases spec.width with
  | none =>
      obtain ⟨c, rest, rfl, -, noDigit, noStar⟩ := ends
      rw [Option.elim_none, Option.elim_none, List.nil_append, scanWidth,
        if_neg (by simp [noDigit]), if_neg noStar]
  | some width =>
      obtain ⟨n, positive, small⟩ := width
      obtain ⟨c, digits, spelled, digit⟩ := decimal_cons n
      have read := skipAtoi_number (n := n) (by omega) ends
      rw [Option.elim_some, Option.elim_some]
      rw [spelled, List.cons_append] at read ⊢
      rw [scanWidth, if_pos digit, read]

theorem scanPrecision_spelled (args : List Arg) (ends : Ends fmt) (noPoint : fmt.head? ≠ some '.') :
    scanPrecision args (spec.precisionText ++ fmt) =
      some (spec.directive.precision, fmt, args) := by
  obtain ⟨c, rest, rfl, -, noDigit, noStar⟩ := id ends
  unfold precisionText directive
  rcases spec.precision with _ | _ | ⟨n, small⟩
  · rw [Option.elim_none, Option.elim_none, List.nil_append]
    unfold scanPrecision
    split
    · next same => exact absurd (congrArg List.head? same) noPoint
    · rfl
  · simp only [Option.elim_some, Option.elim_none, List.singleton_append, scanPrecision, noDigit,
      noStar, Bool.false_eq_true, if_false, Option.map_some]
    rfl
  · obtain ⟨d, digits, spelled, digit⟩ := decimal_cons n
    have read := skipAtoi_number (n := n) (by omega) ends
    rw [Option.elim_some, Option.elim_some, Option.elim_some, Option.elim_some]
    rw [spelled, List.cons_append] at read
    rw [List.cons_append, spelled, List.cons_append]
    simp only [scanPrecision, digit, if_true, read, Option.map_some]
    rw [if_neg (by omega)]

/-- What stands behind the flags is no flag. -/
theorem width_noFlag (ends : Ends fmt) :
    ∃ c rest, spec.widthText ++ fmt = c :: rest ∧ c ∉ flagChars := by
  unfold widthText
  cases spec.width with
  | none =>
      obtain ⟨c, rest, rfl, noFlag, -⟩ := ends
      exact ⟨c, rest, rfl, noFlag⟩
  | some width =>
      obtain ⟨c, digits, spelled, noFlag⟩ := decimal_head (Nat.pos_iff_ne_zero.mp width.2.1)
      exact ⟨c, digits ++ fmt, by rw [Option.elim_some, spelled]; rfl, noFlag⟩

/-- A spelled directive is read as the one that is meant, up to the letter of its conversion. -/
theorem scanDirective_spelled (args : List Arg) :
    scanDirective (spec.spell ++ fmt) args =
      some (spec.directive, spec.conversion.letter :: fmt, args) := by
  have afterWidth : Ends (spec.precisionText ++
      (spec.qualifierText ++ spec.conversion.letter :: fmt)) := spec.precision_ends
  have afterPrecision : Ends (spec.qualifierText ++ spec.conversion.letter :: fmt) :=
    spec.qualifier_ends
  have flags : scanFlags (spec.spell ++ fmt) Flags.none = (spec.directive.flags, spec.widthText ++
      (spec.precisionText ++ (spec.qualifierText ++ spec.conversion.letter :: fmt))) := by
    obtain ⟨c, rest, spelled, noFlag⟩ := spec.width_noFlag afterWidth
    simp only [spell, List.append_assoc, List.singleton_append]
    rw [scanFlags_spelled, spelled, scanFlags_other noFlag]
    rfl
  have width := spec.scanWidth_spelled spec.directive.flags args afterWidth
  have precision := spec.scanPrecision_spelled args afterPrecision spec.qualifier_noPoint
  simp only [scanDirective, flags, width, precision, scanQualifier_spelled, Option.bind_eq_bind,
    Option.bind_some]
  rfl

theorem directive_moderate : spec.directive.Moderate := by
  constructor
  · unfold directive
    rcases spec.width with _ | ⟨n, positive, small⟩
    · exact ⟨by norm_num, by norm_num⟩
    · exact ⟨by simp only [Option.elim_some]; omega, by simp only [Option.elim_some]; omega⟩
  · unfold directive
    rcases spec.precision with _ | _ | ⟨n, small⟩
    · exact ⟨by norm_num, by norm_num⟩
    · exact ⟨by norm_num, by norm_num⟩
    · exact ⟨by simp only [Option.elim_some]; omega, by simp only [Option.elim_some]; omega⟩

end Spec

/-! ### Conversions -/

/-- The sink with further values stored by `%n`, given in order. -/
def Sink.note (k : Sink) (counts : List (UInt32 × Nat)) : Sink :=
  { k with counts := counts.reverse ++ k.counts }

namespace Sink

variable (k : Sink)

theorem note_puts (counts : List (UInt32 × Nat)) (text : List Char) :
    (k.note counts).puts text = (k.puts text).note counts := by
  induction text generalizing k with
  | nil => rfl
  | cons c text inductionHypothesis => exact inductionHypothesis (k.put c)

theorem note_note (first second : List (UInt32 × Nat)) :
    (k.note first).note second = k.note (first ++ second) := by
  simp only [note, List.reverse_append, List.append_assoc]

end Sink

/-- The strings are shorter than an `int` counts. -/
def ShortStrings (args : List Arg) : Prop := ∀ s, .string s ∈ args → s.length < 2 ^ 31

variable {args : List Arg}

/-- The conversion of a spelled directive writes its text. -/
theorem convert_spelled (k : Sink) (spec : Spec) (short : ShortStrings args) :
    convert k spec.directive args (spec.conversion.letter :: fmt) =
      (spec.render k.str args).map fun (text, counts, rest) =>
        ((k.puts text).note counts, fmt, rest) := by
  have moderate := spec.directive_moderate
  unfold Spec.render
  cases spec.conversion with
  | number radix =>
      rcases args with _ | ⟨value | s, rest⟩
      · cases radix <;> rfl
      · exact convert_radix k radix moderate value rest fmt
      · cases radix <;> rfl
  | char =>
      rcases args with _ | ⟨value | s, rest⟩
      · rfl
      · exact congrArg (fun k => some (k, fmt, rest)) (convertChar_eq_puts k moderate value)
      · rfl
  | string =>
      rcases args with _ | ⟨value | s, rest⟩
      · rfl
      · rfl
      · exact congrArg (fun k => some (k, fmt, rest))
          (convertString_eq_puts k moderate (short s List.mem_cons_self))
  | count => rcases args with _ | ⟨value | s, rest⟩ <;> rfl
  | percent => rfl

theorem render_suffix {spec : Spec} {position : Nat} {text : List Char}
    {counts : List (UInt32 × Nat)} {rest : List Arg}
    (rendered : spec.render position args = some (text, counts, rest)) : rest <:+ args := by
  unfold Spec.render at rendered
  split at rendered <;> cases rendered
  iterate 4 exact List.suffix_cons _ _
  exact List.suffix_refl _

theorem ShortStrings.suffix {rest : List Arg} (short : ShortStrings args) (suffix : rest <:+ args) :
    ShortStrings rest := fun s member => short s (suffix.subset member)

/-! ### Formats -/

/-- From any point of the buffer on, the loop of `vsprintf` writes the text of a spelled format, or
fails where the arguments do not match it. -/
theorem vsprintfLoop_spell (pieces : List Piece) (k : Sink) (short : ShortStrings args) {fuel : Nat}
    (enough : (spell pieces).length ≤ fuel) :
    vsprintfLoop fuel k (spell pieces) args =
      (render pieces k.str args).map fun (text, counts) => (k.puts text).note counts := by
  induction pieces generalizing k args fuel with
  | nil => cases fuel <;> rfl
  | cons piece pieces inductionHypothesis =>
      cases fuel with
      | zero => cases piece <;> exact absurd enough (Nat.not_succ_le_zero _)
      | succ fuel =>
          cases piece with
          | text c plain =>
              rw [spell, vsprintfLoop, if_pos plain,
                inductionHypothesis (k.put c) short (Nat.le_of_succ_le_succ enough), render,
                Option.map_map]
              rfl
          | directive spec =>
              rw [spell, vsprintfLoop, if_neg (not_not.mpr rfl), spec.scanDirective_spelled]
              simp only [Option.bind_eq_bind, Option.bind_some, convert_spelled k spec short, render]
              cases rendered : spec.render k.str args with
              | none => rfl
              | some result =>
                  obtain ⟨text, counts, rest⟩ := result
                  have room : (spell pieces).length ≤ fuel := by
                    rw [spell, List.length_cons, List.length_append] at enough
                    omega
                  have position : ((k.puts text).note counts).str = k.str + text.length :=
                    (Sink.grown_puts k text).str
                  rw [Option.map_some, Option.bind_some, Option.bind_some,
                    inductionHypothesis _ (short.suffix (render_suffix rendered)) room, position]
                  cases render pieces (k.str + text.length) rest with
                  | none => rfl
                  | some further =>
                      simp only [Option.map_some, Option.bind_some, Sink.note_puts, Sink.note_note,
                        Sink.puts_puts]
                      rfl

/-- The stores of a text and its NUL from the start of the buffer on, newest first. -/
def bufferStores (text : List Char) : List (Nat × Char) :=
  ((text ++ ['\x00']).zipIdx.map Prod.swap).reverse

theorem puts_stores (k : Sink) (text : List Char) :
    (k.puts text).stores = ((text.zipIdx k.str).map Prod.swap).reverse ++ k.stores := by
  induction text generalizing k with
  | nil => rfl
  | cons c text inductionHypothesis =>
      refine (inductionHypothesis (k.put c)).trans ?_
      simp [Sink.put]

theorem puts_counts (k : Sink) (text : List Char) : (k.puts text).counts = k.counts := by
  induction text generalizing k with
  | nil => rfl
  | cons c text inductionHypothesis => exact inductionHypothesis (k.put c)

/-- What `vsprintf` stores for a format whose arguments match it. -/
theorem vsprintf_rendered {pieces : List Piece} {args : List Arg} (short : ShortStrings args)
    {text : List Char} {counts : List (UInt32 × Nat)}
    (rendered : render pieces 0 args = some (text, counts)) :
    vsprintf (spell pieces) args =
      some (⟨text.length, bufferStores text, counts.reverse⟩, text.length) := by
  have length : (Sink.puts ⟨0, [], []⟩ text).str = text.length :=
    (Sink.grown_puts ⟨0, [], []⟩ text).str.trans (Nat.zero_add _)
  have stores : bufferStores text =
      (text.length, '\x00') :: (Sink.puts ⟨0, [], []⟩ text).stores := by
    rw [puts_stores, bufferStores, List.zipIdx_append, List.map_append, List.reverse_append,
      List.append_nil, Nat.zero_add]
    rfl
  have kept : (Sink.puts ⟨0, [], []⟩ text).counts = [] := puts_counts ⟨0, [], []⟩ text
  rw [vsprintf, vsprintfLoop_spell pieces ⟨0, [], []⟩ short (Nat.le_refl _), Option.map_map, rendered]
  simp only [Option.map_some, Function.comp_apply, Sink.note, length, stores, kept,
    List.append_nil]

/-- `vsprintf` on a format of the language stores its text and a NUL, each character once, and the
counts of its `%n`; the arguments it refuses are those that do not match. -/
theorem vsprintf_spell (pieces : List Piece) {args : List Arg} (short : ShortStrings args) :
    vsprintf (spell pieces) args =
      (render pieces 0 args).map fun (text, counts) =>
        (⟨text.length, bufferStores text, counts.reverse⟩, text.length) := by
  cases rendered : render pieces 0 args with
  | none =>
      rw [vsprintf, vsprintfLoop_spell pieces ⟨0, [], []⟩ short (Nat.le_refl _), rendered]
      rfl
  | some result => exact vsprintf_rendered short rendered

/-- `kprintf("%-6s|%+05d%%", "ab", 42)`. -/
theorem vsprintf_spell_fields :
    vsprintf (spell [.directive ⟨[.left], some ⟨6, by decide⟩, none, none, .string⟩,
        .text '|' (by decide),
        .directive ⟨[.plus, .zeropad], some ⟨5, by decide⟩, none, none, .number .decimal⟩,
        .directive ⟨[], none, none, none, .percent⟩]) [.string ['a', 'b'], .word 42] =
      some (⟨13, bufferStores "ab    |+0042%".toList, []⟩, 13) := by
  refine (vsprintf_spell _ ?_).trans ?_
  · intro s member
    obtain rfl : s = ['a', 'b'] := by simpa using member
    decide
  · rfl

end Balloon.Printf
