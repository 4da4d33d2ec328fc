import Balloon.Printf.Buffer

/-!
Owns the scan of `vsprintf` at the level of its pointer: the format is an array that ends in a
NUL, `fmt` is a position in it, and every `*fmt` is a read at that position, which fails behind
the NUL. The scan over lists of the model is what this one does; `++fmt` and `--fmt` stand as
in the source.
-/

namespace Balloon.Printf

/-! ### The scan -/

/-- `*fmt`. Behind the NUL of the format there is nothing to read. -/
def charAt (format : List Char) (fmt : Nat) : Option Char := (format ++ ['\x00'])[fmt]?

/-- The loop of `skip_atoi`. -/
def skipAtoiAt (format : List Char) : Nat → Nat → Int → Option (Int × Nat)
  | 0, _, _ => none
  | fuel + 1, fmt, i => do
      let c ← charAt format fmt
      if isDigit c then skipAtoiAt format fuel (fmt + 1) (wrapInt (i * 10 + c.toNat - '0'.toNat))
      else return (i, fmt)

/-- From `repeat` on, with `fmt` at the `%` or at a flag. -/
def scanFlagsAt (format : List Char) : Nat → Nat → Flags → Option (Flags × Nat)
  | 0, _, _ => none
  | fuel + 1, fmt, flags => do
      let fmt := fmt + 1
      let c ← charAt format fmt
      match c with
      | '-' => scanFlagsAt format fuel fmt { flags with left := true }
      | '+' => scanFlagsAt format fuel fmt { flags with plus := true }
      | ' ' => scanFlagsAt format fuel fmt { flags with space := true }
      | '#' => scanFlagsAt format fuel fmt { flags with special := true }
      | '0' => scanFlagsAt format fuel fmt { flags with zeropad := true }
      | _ => return (flags, fmt)

def scanWidthAt (format : List Char) (fuel : Nat) (flags : Flags) (args : List Arg) (fmt : Nat) :
    Option (Flags × Int × Nat × List Arg) := do
  let c ← charAt format fmt
  if isDigit c then
    let (fieldWidth, fmt) ← skipAtoiAt format fuel fmt 0
    return (flags, fieldWidth, fmt, args)
  else if c = '*' then
    let (value, args) ← vaWord args
    let fieldWidth := wrapInt value.toNat
    if fieldWidth < 0 then
      return ({ flags with left := true }, wrapInt (-fieldWidth), fmt, args)
    else return (flags, fieldWidth, fmt, args)
  else return (flags, -1, fmt, args)

def scanPrecisionAt (format : List Char) (fuel : Nat) (args : List Arg) (fmt : Nat) :
    Option (Int × Nat × List Arg) := do
  let c ← charAt format fmt
  if c = '.' then
    let fmt := fmt + 1
    let c ← charAt format fmt
    let (precision, fmt, args) ←
      if isDigit c then (skipAtoiAt format fuel fmt 0).map fun (precision, fmt) =>
        (precision, fmt, args)
      else if c = '*' then (vaWord args).map fun (value, args) => (wrapInt value.toNat, fmt, args)
      else some (-1, fmt, args)
    return (if precision < 0 then 0 else precision, fmt, args)
  else return (-1, fmt, args)

def scanQualifierAt (format : List Char) (fmt : Nat) : Option Nat := do
  let c ← charAt format fmt
  if c = 'h' ∨ c = 'l' ∨ c = 'L' then return fmt + 1 else return fmt

/-- A directive whose `%` is at `fmt`, up to its conversion. -/
def scanDirectiveAt (format : List Char) (fuel : Nat) (args : List Arg) (fmt : Nat) :
    Option (Directive × Nat × List Arg) := do
  let (flags, fmt) ← scanFlagsAt format fuel fmt Flags.none
  let (flags, fieldWidth, fmt, args) ← scanWidthAt format fuel flags args fmt
  let (precision, fmt, args) ← scanPrecisionAt format fuel args fmt
  let fmt ← scanQualifierAt format fmt
  return (⟨flags, fieldWidth, precision⟩, fmt, args)

/-- A case that calls `number`. -/
def convertNumberAt (k : Sink) (d : Directive) (base : Nat) (args : List Arg) (fmt : Nat) :
    Option (Sink × Nat × List Arg) := do
  let (value, args) ← vaWord args
  let k ← number k value base d.fieldWidth d.precision d.flags
  return (k, fmt, args)

/-- The conversion, which leaves `fmt` where the `++fmt` of the loop goes on from. -/
def convertAt (format : List Char) (k : Sink) (d : Directive) (args : List Arg) (fmt : Nat) :
    Option (Sink × Nat × List Arg) := do
  let c ← charAt format fmt
  match c with
  | 'c' =>
      let (value, args) ← vaWord args
      return (convertChar k d value, fmt, args)
  | 's' =>
      let (s, args) ← vaString args
      return (convertString k d s, fmt, args)
  | 'o' => convertNumberAt k d 8 args fmt
  | 'p' => convertNumberAt k d.pointer 16 args fmt
  | 'x' => convertNumberAt k { d with flags := { d.flags with small := true } } 16 args fmt
  | 'X' => convertNumberAt k d 16 args fmt
  | 'd' | 'i' => convertNumberAt k { d with flags := { d.flags with sign := true } } 10 args fmt
  | 'u' => convertNumberAt k d 10 args fmt
  | 'b' => convertNumberAt k d 2 args fmt
  | 'n' =>
      let (ip, args) ← vaWord args
      return ({ k with counts := (ip, k.str) :: k.counts }, fmt, args)
  | c =>
      let k := if c ≠ '%' then k.put '%' else k
      if c ≠ '\x00' then return (k.put c, fmt, args) else return (k, fmt - 1, args)

/-- The loop of `vsprintf` with `fmt` at its test. -/
def vsprintfLoopAt (format : List Char) : Nat → Sink → Nat → List Arg → Option Sink
  | 0, _, _, _ => none
  | fuel + 1, k, fmt, args => do
      let c ← charAt format fmt
      if c = '\x00' then return k
      else if c ≠ '%' then vsprintfLoopAt format fuel (k.put c) (fmt + 1) args
      else
        let (d, fmt, args) ← scanDirectiveAt format (format.length + 1) args fmt
        let (k, fmt, args) ← convertAt format k d args fmt
        vsprintfLoopAt format fuel k (fmt + 1) args

/-- `vsprintf`: the stores and the returned length. -/
def vsprintfAt (format : List Char) (args : List Arg) : Option (Sink × Nat) :=
  (vsprintfLoopAt format (format.length + 1) ⟨0, [], []⟩ 0 args).map fun k =>
    ({ k with stores := (k.str, '\x00') :: k.stores }, k.str)

/-! ### Positions -/

/-- At position `p` of the format `rest` is left. -/
def At (format : List Char) (p : Nat) (rest : List Char) : Prop :=
  ∃ before, format = before ++ rest ∧ before.length = p

variable {format rest rest' : List Char} {p : Nat} {c : Char} {args args' : List Arg} {k k' : Sink}

theorem at_start (format : List Char) : At format 0 format := ⟨[], rfl, rfl⟩

theorem At.next (at_ : At format p (c :: rest)) : At format (p + 1) rest := by
  obtain ⟨before, rfl, rfl⟩ := at_
  exact ⟨before ++ [c], by simp, by simp⟩

theorem At.length (at_ : At format p rest) : p + rest.length = format.length := by
  obtain ⟨before, rfl, rfl⟩ := at_
  exact List.length_append.symm

theorem At.char_cons (at_ : At format p (c :: rest)) : charAt format p = some c := by
  obtain ⟨before, rfl, rfl⟩ := at_
  simp [charAt]

theorem At.char_nil (at_ : At format p []) : charAt format p = some '\x00' := by
  obtain ⟨before, rfl, rfl⟩ := at_
  simp [charAt]

theorem At.mem (at_ : At format p (c :: rest)) : c ∈ format := by
  obtain ⟨before, rfl, -⟩ := at_
  simp

/-! ### The scan of the model -/

theorem skipAtoiAt_eq (at_ : At format p rest) (i : Int) {fuel : Nat}
    (enough : rest.length < fuel) :
    ∃ q, skipAtoiAt format fuel p i = some ((skipAtoi rest i).1, q) ∧
      At format q (skipAtoi rest i).2 := by
  induction rest generalizing p i fuel with
  | nil =>
      obtain ⟨fuel, rfl⟩ := Nat.exists_eq_add_one_of_ne_zero (Nat.ne_zero_of_lt enough)
      refine ⟨p, ?_, at_⟩
      rw [skipAtoiAt, at_.char_nil]
      rfl
  | cons c rest inductionHypothesis =>
      obtain ⟨fuel, rfl⟩ := Nat.exists_eq_add_one_of_ne_zero (Nat.ne_zero_of_lt enough)
      simp only [skipAtoiAt, at_.char_cons, skipAtoi, Option.bind_eq_bind, Option.bind_some]
      split_ifs with digit
      · exact inductionHypothesis at_.next _ (Nat.lt_of_succ_lt_succ enough)
      · exact ⟨p, rfl, at_⟩

theorem scanFlagsAt_eq (flags : Flags) (at_ : At format (p + 1) rest) {fuel : Nat}
    (enough : rest.length < fuel) :
    ∃ q, scanFlagsAt format fuel p flags = some ((scanFlags rest flags).1, q) ∧ p < q ∧
      At format q (scanFlags rest flags).2 := by
  fun_induction scanFlags rest flags generalizing p fuel with
  | case1 _ _ inductionHypothesis | case2 _ _ inductionHypothesis
  | case3 _ _ inductionHypothesis | case4 _ _ inductionHypothesis
  | case5 _ _ inductionHypothesis =>
      obtain ⟨fuel, rfl⟩ := Nat.exists_eq_add_one_of_ne_zero (Nat.ne_zero_of_lt enough)
      obtain ⟨q, scanned, later, atEnd⟩ :=
        inductionHypothesis at_.next (Nat.lt_of_succ_lt_succ enough)
      refine ⟨q, ?_, Nat.lt_of_succ_lt later, atEnd⟩
      simp only [scanFlagsAt, at_.char_cons, Option.bind_eq_bind, Option.bind_some]
      exact scanned
  | case6 rest flags notLeft notPlus notSpace notSpecial notZero =>
      obtain ⟨fuel, rfl⟩ := Nat.exists_eq_add_one_of_ne_zero (Nat.ne_zero_of_lt enough)
      refine ⟨p + 1, ?_, Nat.lt_succ_self p, at_⟩
      cases rest with
      | nil =>
          simp only [scanFlagsAt, at_.char_nil, Option.bind_eq_bind, Option.bind_some]
          rfl
      | cons c rest =>
          simp only [scanFlagsAt, at_.char_cons, Option.bind_eq_bind, Option.bind_some]
          split
          · exact absurd rfl (notLeft rest)
          · exact absurd rfl (notPlus rest)
          · exact absurd rfl (notSpace rest)
          · exact absurd rfl (notSpecial rest)
          · exact absurd rfl (notZero rest)
          · rfl

theorem scanWidthAt_eq {flags flags' : Flags} {width : Int} (at_ : At format p rest) {fuel : Nat}
    (enough : rest.length < fuel)
    (scanned : scanWidth flags args rest = some (flags', width, rest', args')) :
    ∃ q, scanWidthAt format fuel flags args p = some (flags', width, q, args') ∧ p ≤ q ∧
      At format q rest' := by
  cases rest with
  | nil =>
      cases scanned
      refine ⟨p, ?_, Nat.le_refl p, at_⟩
      simp only [scanWidthAt, at_.char_nil, Option.bind_eq_bind, Option.bind_some]
      rfl
  | cons c rest =>
      simp only [scanWidthAt, at_.char_cons, Option.bind_eq_bind, Option.bind_some]
      rw [scanWidth] at scanned
      split_ifs at scanned with digit star
      · cases scanned
        obtain ⟨q, skipped, atEnd⟩ := skipAtoiAt_eq at_ 0 enough
        refine ⟨q, ?_, ?_, atEnd⟩
        · rw [if_pos digit, skipped]
          rfl
        · have before := at_.length
          have after := atEnd.length
          have suffix := (skipAtoi_suffix (c :: rest) 0).length_le
          omega
      · obtain ⟨⟨value, args₁⟩, taken, same⟩ := Option.map_eq_some_iff.mp scanned
        rw [if_neg digit, if_pos star, taken, Option.bind_some]
        dsimp only at same ⊢
        split_ifs at same ⊢ with negative
        · obtain ⟨rfl, rfl, rfl, rfl⟩ := by simpa only [Prod.mk.injEq] using same
          exact ⟨p, rfl, Nat.le_refl p, at_⟩
        · obtain ⟨rfl, rfl, rfl, rfl⟩ := by simpa only [Prod.mk.injEq] using same
          exact ⟨p, rfl, Nat.le_refl p, at_⟩
      · cases scanned
        exact ⟨p, by rw [if_neg digit, if_neg star]; rfl, Nat.le_refl p, at_⟩

theorem scanPrecisionAt_eq {precision : Int} (at_ : At format p rest) {fuel : Nat}
    (enough : rest.length < fuel)
    (scanned : scanPrecision args rest = some (precision, rest', args')) :
    ∃ q, scanPrecisionAt format fuel args p = some (precision, q, args') ∧ p ≤ q ∧
      At format q rest' := by
  unfold scanPrecision at scanned
  split at scanned
  · next rest =>
    rw [List.length_cons] at enough
    obtain ⟨⟨precision₁, rest₁, args₁⟩, scannedRest, same⟩ := Option.map_eq_some_iff.mp scanned
    obtain ⟨rfl, rfl, rfl⟩ := by simpa only [Prod.mk.injEq] using same
    simp only [scanPrecisionAt, at_.char_cons, Option.bind_eq_bind, Option.bind_some, if_true]
    have next := at_.next
    split at scannedRest
    · cases scannedRest
      refine ⟨p + 1, ?_, Nat.le_succ p, next⟩
      rw [next.char_nil]
      rfl
    · next c rest =>
      rw [next.char_cons, Option.bind_some]
      by_cases digit : isDigit c = true
      · rw [if_pos digit] at scannedRest ⊢
        obtain ⟨rfl, rfl, rfl⟩ := by
          simpa only [Option.some.injEq, Prod.mk.injEq] using scannedRest
        obtain ⟨q, skipped, atEnd⟩ := @skipAtoiAt_eq _ _ _ next 0 fuel (by omega)
        refine ⟨q, by rw [skipped]; rfl, ?_, atEnd⟩
        have before := next.length
        have after := atEnd.length
        have suffix := (skipAtoi_suffix (c :: rest) 0).length_le
        omega
      · rw [if_neg digit] at scannedRest ⊢
        by_cases star : c = '*'
        · rw [if_pos star] at scannedRest ⊢
          obtain ⟨⟨value, args₂⟩, taken, given⟩ := Option.map_eq_some_iff.mp scannedRest
          obtain ⟨rfl, rfl, rfl⟩ := by simpa only [Prod.mk.injEq] using given
          refine ⟨p + 1, ?_, Nat.le_succ p, next⟩
          simp only [taken, Option.map_some, Option.bind_some, Option.pure_def]
        · rw [if_neg star] at scannedRest ⊢
          obtain ⟨rfl, rfl, rfl⟩ := by
            simpa only [Option.some.injEq, Prod.mk.injEq] using scannedRest
          exact ⟨p + 1, rfl, Nat.le_succ p, next⟩
  · next noPoint =>
    obtain ⟨rfl, rfl, rfl⟩ := by simpa only [Option.some.injEq, Prod.mk.injEq] using scanned
    refine ⟨p, ?_, Nat.le_refl p, at_⟩
    cases rest with
    | nil =>
        simp only [scanPrecisionAt, at_.char_nil, Option.bind_eq_bind, Option.bind_some]
        rfl
    | cons c rest =>
        have other : c ≠ '.' := fun point => noPoint rest (by rw [point])
        simp only [scanPrecisionAt, at_.char_cons, Option.bind_eq_bind, Option.bind_some,
          if_neg other]
        rfl

theorem scanQualifierAt_eq (at_ : At format p rest) :
    ∃ q, scanQualifierAt format p = some q ∧ p ≤ q ∧ At format q (scanQualifier rest) := by
  unfold scanQualifier
  split
  · exact ⟨p + 1, by simp [scanQualifierAt, at_.char_cons], Nat.le_succ p, at_.next⟩
  · exact ⟨p + 1, by simp [scanQualifierAt, at_.char_cons], Nat.le_succ p, at_.next⟩
  · exact ⟨p + 1, by simp [scanQualifierAt, at_.char_cons], Nat.le_succ p, at_.next⟩
  · next notShort notLong notLongDouble =>
    refine ⟨p, ?_, Nat.le_refl p, at_⟩
    cases rest with
    | nil =>
        simp only [scanQualifierAt, at_.char_nil, Option.bind_eq_bind, Option.bind_some]
        rfl
    | cons c rest =>
        have none : ¬ (c = 'h' ∨ c = 'l' ∨ c = 'L') := by
          rintro (rfl | rfl | rfl)
          · exact notShort rest rfl
          · exact notLong rest rfl
          · exact notLongDouble rest rfl
        simp only [scanQualifierAt, at_.char_cons, Option.bind_eq_bind, Option.bind_some, if_neg none]
        rfl

/-- A directive is scanned as in the model, with its `%` behind. -/
theorem scanDirectiveAt_eq {d : Directive} (at_ : At format (p + 1) rest)
    (scanned : scanDirective rest args = some (d, rest', args')) :
    ∃ q, scanDirectiveAt format (format.length + 1) args p = some (d, q, args') ∧ p < q ∧
      At format q rest' := by
  have short : ∀ {q s}, At format q s → s.length < format.length + 1 := by
    intro q s at_
    have length := at_.length
    omega
  simp only [scanDirective, Option.bind_eq_bind, Option.bind_eq_some_iff, Prod.exists] at scanned
  obtain ⟨flags, width, rest₁, args₁, scannedWidth, precision, rest₂, args₂, scannedPrecision,
    same⟩ := scanned
  obtain ⟨rfl, rfl, rfl⟩ := by simpa only [pure, Option.some.injEq, Prod.mk.injEq] using same
  obtain ⟨q₁, flagsAt, later, at₁⟩ := scanFlagsAt_eq Flags.none at_ (short at_)
  obtain ⟨q₂, widthAt, later₂, at₂⟩ := scanWidthAt_eq at₁ (short at₁) scannedWidth
  obtain ⟨q₃, precisionAt, later₃, at₃⟩ := scanPrecisionAt_eq at₂ (short at₂) scannedPrecision
  obtain ⟨q₄, qualifierAt, later₄, at₄⟩ := scanQualifierAt_eq at₃
  refine ⟨q₄, ?_, by omega, at₄⟩
  simp only [scanDirectiveAt, flagsAt, widthAt, precisionAt, qualifierAt, Option.bind_eq_bind,
    Option.bind_some]
  rfl

theorem convertNumberAt_eq {d : Directive} {base q : Nat}
    (converted : convertNumber k d base args rest = some (k', rest', args')) :
    convertNumberAt k d base args q = some (k', q, args') ∧ rest' = rest := by
  simp only [convertNumber, Option.bind_eq_bind, Option.bind_eq_some_iff, Prod.exists] at converted
  obtain ⟨value, args₁, taken, k₁, written, same⟩ := converted
  obtain ⟨rfl, rfl, rfl⟩ := by simpa only [pure, Option.some.injEq, Prod.mk.injEq] using same
  refine ⟨?_, rfl⟩
  simp only [convertNumberAt, taken, written, Option.bind_eq_bind, Option.bind_some]
  rfl

/-- The conversion leaves the pointer on its last character, or in front of the NUL. -/
theorem convertAt_eq {d : Directive} {q : Nat} (terminated : '\x00' ∉ format)
    (at_ : At format q rest) (positive : 0 < q)
    (converted : convert k d args rest = some (k', rest', args')) :
    ∃ q', convertAt format k d args q = some (k', q', args') ∧ q ≤ q' + 1 ∧
      At format (q' + 1) rest' := by
  cases rest with
  | nil =>
      cases converted
      refine ⟨q - 1, ?_, by omega, by rw [Nat.sub_add_cancel positive]; exact at_⟩
      simp only [convertAt, at_.char_nil, Option.bind_eq_bind, Option.bind_some]
      rfl
  | cons c rest =>
      unfold convert at converted
      simp only [convertAt, at_.char_cons, Option.bind_eq_bind, Option.bind_some]
      dsimp only at converted
      split at converted
      · obtain ⟨⟨value, args₁⟩, taken, same⟩ := Option.map_eq_some_iff.mp converted
        obtain ⟨rfl, rfl, rfl⟩ := by simpa only [Prod.mk.injEq] using same
        exact ⟨q, by rw [taken]; rfl, Nat.le_succ q, at_.next⟩
      · obtain ⟨⟨s, args₁⟩, taken, same⟩ := Option.map_eq_some_iff.mp converted
        obtain ⟨rfl, rfl, rfl⟩ := by simpa only [Prod.mk.injEq] using same
        exact ⟨q, by rw [taken]; rfl, Nat.le_succ q, at_.next⟩
      -- The eight cases that call `number`.
      iterate 8
        · obtain ⟨written, rfl⟩ := convertNumberAt_eq (q := q) converted
          exact ⟨q, written, Nat.le_succ q, at_.next⟩
      · obtain ⟨⟨value, args₁⟩, taken, same⟩ := Option.map_eq_some_iff.mp converted
        obtain ⟨rfl, rfl, rfl⟩ := by simpa only [Prod.mk.injEq] using same
        exact ⟨q, by rw [taken]; rfl, Nat.le_succ q, at_.next⟩
      · obtain ⟨rfl, rfl, rfl⟩ := by simpa only [Option.some.injEq, Prod.mk.injEq] using converted
        exact ⟨q, rfl, Nat.le_succ q, at_.next⟩
      · next noPercent =>
        obtain ⟨rfl, rfl, rfl⟩ := by simpa only [Option.some.injEq, Prod.mk.injEq] using converted
        have visible : c ≠ '\x00' := fun nul => terminated (nul ▸ at_.mem)
        have plain : c ≠ '%' := noPercent
        refine ⟨q, ?_, Nat.le_succ q, at_.next⟩
        simp [*]

/-- The loop over positions does what the loop over lists does. -/
theorem vsprintfLoopAt_eq (terminated : '\x00' ∉ format) (lists : Nat) {fuel : Nat}
    (at_ : At format p rest) (enough : rest.length < fuel)
    (ran : vsprintfLoop lists k rest args = some k') :
    vsprintfLoopAt format fuel k p args = some k' := by
  induction lists generalizing p k rest args fuel with
  | zero =>
      cases rest with
      | nil =>
          obtain ⟨fuel, rfl⟩ := Nat.exists_eq_add_one_of_ne_zero (Nat.ne_zero_of_lt enough)
          simp only [vsprintfLoopAt, at_.char_nil, Option.bind_eq_bind, Option.bind_some, if_true]
          exact ran
      | cons c rest => exact absurd ran (by simp [vsprintfLoop])
  | succ lists inductionHypothesis =>
      obtain ⟨fuel, rfl⟩ := Nat.exists_eq_add_one_of_ne_zero (Nat.ne_zero_of_lt enough)
      cases rest with
      | nil =>
          simp only [vsprintfLoopAt, at_.char_nil, Option.bind_eq_bind, Option.bind_some, if_true]
          exact ran
      | cons c rest =>
          have visible : c ≠ '\x00' := fun nul => terminated (nul ▸ at_.mem)
          rw [List.length_cons] at enough
          simp only [vsprintfLoopAt, at_.char_cons, Option.bind_eq_bind, Option.bind_some,
            if_neg visible]
          rw [vsprintfLoop] at ran
          by_cases plain : c ≠ '%'
          · rw [if_pos plain] at ran ⊢
            exact inductionHypothesis at_.next (by omega) ran
          · rw [if_neg plain] at ran ⊢
            obtain ⟨⟨d, rest₁, args₁⟩, scanned, converts⟩ := Option.bind_eq_some_iff.mp ran
            obtain ⟨⟨k₁, rest₂, args₂⟩, converted, runs⟩ := Option.bind_eq_some_iff.mp converts
            obtain ⟨q₁, scannedAt, later, at₁⟩ := scanDirectiveAt_eq at_.next scanned
            obtain ⟨q₂, convertedAt, noFurtherBack, at₂⟩ :=
              convertAt_eq terminated at₁ (by omega) converted
            simp only [scannedAt, convertedAt, Option.bind_some]
            have before := at_.next.length
            have after := at₂.length
            exact inductionHypothesis at₂ (by omega) runs

/-! ### What the output keeps -/

/-- Storing a character and storing a count for `%n` keep `P`. -/
structure Kept (P : Sink → Prop) : Prop where
  put : ∀ k c, P k → P (k.put c)
  count : ∀ k ip, P k → P { k with counts := (ip, k.str) :: k.counts }

namespace Kept

variable {P : Sink → Prop} {k k' : Sink}

theorem puts (kept : Kept P) (chars : List Char) (holds : P k) : P (k.puts chars) := by
  induction chars generalizing k with
  | nil => exact holds
  | cons c rest inductionHypothesis => exact inductionHypothesis (kept.put k c holds)

theorem fill (kept : Kept P) (c : Char) (rounds : Nat) (holds : P k) : P (k.fill c rounds) := by
  induction rounds generalizing k with
  | zero => exact holds
  | succ rounds inductionHypothesis => exact inductionHypothesis (kept.put k c holds)

theorem putIf (kept : Kept P) (p : Prop) [Decidable p] (c : Char) (holds : P k) :
    P (if p then k.put c else k) := by
  split_ifs
  · exact kept.put k c holds
  · exact holds

theorem padUnless (kept : Kept P) (p : Prop) [Decidable p] (c : Char) (size : Int) (holds : P k) :
    P (if p then (k, size) else k.padAfter c size).1 := by
  split_ifs
  · exact holds
  · exact kept.fill c size.toNat holds

theorem special (kept : Kept P) (special : Bool) (base : Nat) (x : Char) (holds : P k) :
    P (if special then
        if base = 8 then k.put '0' else if base = 16 then (k.put '0').put x else k
      else k) := by
  split_ifs
  · exact kept.put k '0' holds
  · exact kept.put _ x (kept.put k '0' holds)
  · exact holds
  · exact holds

theorem writeNumber (kept : Kept P) (tmp : List Char) (sign : Char) (base : Nat)
    (size precision : Int) (type : Flags) (holds : P k) :
    P (writeNumber k tmp sign base size precision type) := by
  have spaced := kept.padUnless (type.zeropad ∨ type.left) ' ' size holds
  have signed := kept.putIf (sign ≠ '\x00') sign spaced
  have prefixed := kept.special type.special base ((digits type.small).getD 33 '\x00') signed
  have filled := kept.padUnless (type.left = true) (if type.zeropad then '0' else ' ')
    (if type.zeropad ∨ type.left then (k, size) else k.padAfter ' ' size).2 prefixed
  exact kept.fill ' ' _ (kept.puts tmp.reverse (kept.fill '0' _ filled))

theorem number (kept : Kept P) {num : UInt32} {base : Nat} {size precision : Int} {type : Flags}
    (holds : P k) (written : number k num base size precision type = some k') : P k' := by
  unfold Printf.number at written
  by_cases refused : base < 2 ∨ base > 36
  · rw [if_pos refused] at written
    contradiction
  · rw [if_neg refused] at written
    obtain rfl := Option.some.inj written
    exact kept.writeNumber _ _ _ _ _ _ holds

theorem convertChar (kept : Kept P) (d : Directive) (value : UInt32) (holds : P k) :
    P (convertChar k d value) := by
  unfold Printf.convertChar
  refine kept.fill ' ' _ (kept.put _ _ ?_)
  split_ifs
  · exact holds
  · exact kept.fill ' ' _ holds

theorem convertString (kept : Kept P) (d : Directive) (s : List Char) (holds : P k) :
    P (convertString k d s) := by
  unfold Printf.convertString
  refine kept.fill ' ' _ (kept.puts _ ?_)
  cases d.flags.left with
  | true => exact holds
  | false => exact kept.fill ' ' _ holds

theorem convertNumber (kept : Kept P) {d : Directive} {base : Nat} {args args' : List Arg}
    {fmt fmt' : List Char} (holds : P k)
    (converted : convertNumber k d base args fmt = some (k', fmt', args')) : P k' := by
  simp only [Printf.convertNumber, Option.bind_eq_bind, Option.bind_eq_some_iff,
    Prod.exists] at converted
  obtain ⟨value, args₁, -, k₁, written, same⟩ := converted
  obtain ⟨rfl, -⟩ := by simpa only [pure, Option.some.injEq, Prod.mk.injEq] using same
  exact kept.number holds written

theorem convert (kept : Kept P) {d : Directive} {args args' : List Arg} {fmt fmt' : List Char}
    (holds : P k) (converted : convert k d args fmt = some (k', fmt', args')) : P k' := by
  unfold Printf.convert at converted
  split at converted
  · cases converted
    exact kept.put k '%' holds
  · next c rest =>
    dsimp only at converted
    split at converted
    · obtain ⟨⟨value, args₁⟩, -, same⟩ := Option.map_eq_some_iff.mp converted
      obtain ⟨rfl, -⟩ := by simpa only [Prod.mk.injEq] using same
      exact kept.convertChar d value holds
    · obtain ⟨⟨s, args₁⟩, -, same⟩ := Option.map_eq_some_iff.mp converted
      obtain ⟨rfl, -⟩ := by simpa only [Prod.mk.injEq] using same
      exact kept.convertString d s holds
    iterate 8
      · exact kept.convertNumber holds converted
    · obtain ⟨⟨ip, args₁⟩, -, same⟩ := Option.map_eq_some_iff.mp converted
      obtain ⟨rfl, -⟩ := by simpa only [Prod.mk.injEq] using same
      exact kept.count k ip holds
    · obtain ⟨rfl, -⟩ := by simpa only [Option.some.injEq, Prod.mk.injEq] using converted
      exact kept.put k '%' holds
    · obtain ⟨rfl, -⟩ := by simpa only [Option.some.injEq, Prod.mk.injEq] using converted
      exact kept.put _ c (kept.put k '%' holds)

theorem vsprintfLoop (kept : Kept P) (fuel : Nat) {fmt : List Char} {args : List Arg} (holds : P k)
    (ran : vsprintfLoop fuel k fmt args = some k') : P k' := by
  induction fuel generalizing k fmt args with
  | zero =>
      cases fmt with
      | nil => exact Option.some.inj ran ▸ holds
      | cons c fmt => exact absurd ran (by simp [Printf.vsprintfLoop])
  | succ fuel inductionHypothesis =>
      cases fmt with
      | nil => exact Option.some.inj ran ▸ holds
      | cons c fmt =>
          rw [Printf.vsprintfLoop] at ran
          split_ifs at ran
          · exact inductionHypothesis (kept.put k c holds) ran
          · obtain ⟨⟨d, fmt₁, args₁⟩, -, converts⟩ := Option.bind_eq_some_iff.mp ran
            obtain ⟨⟨k₁, fmt₂, args₂⟩, converted, runs⟩ := Option.bind_eq_some_iff.mp converts
            exact inductionHypothesis (kept.convert holds converted) runs

end Kept

/-- `str` counts the stores. -/
theorem kept_stores : Kept fun k => k.stores.length = k.str where
  put := fun _ _ counted => congrArg (· + 1) counted
  count := fun _ _ counted => counted

/-! ### `vsprintf` -/

/-- On every format that ends in a NUL, with arguments that match it, the scan stays in front of
the NUL and ends as the scan of `vsprintf` over the list does, and the length it returns is the
number of characters stored in front of the last one, the NUL. -/
theorem vsprintfAt_returns_count {lengths : List Nat} (terminated : '\x00' ∉ format)
    (fields : Fields format args lengths) :
    ∃ k count earlier, vsprintfAt format args = some (k, count) ∧
      vsprintf format args = some (k, count) ∧
      k.stores = (count, '\x00') :: earlier ∧ earlier.length = count := by
  obtain ⟨k, ran, -⟩ := vsprintfLoop_grown fields ⟨0, [], []⟩ (Nat.le_refl format.length)
  have ranAt := vsprintfLoopAt_eq terminated format.length (at_start format)
    (Nat.lt_succ_self _) ran
  refine ⟨{ k with stores := (k.str, '\x00') :: k.stores }, k.str, k.stores, ?_, ?_, rfl,
    kept_stores.vsprintfLoop _ rfl ran⟩
  · rw [vsprintfAt, ranAt]
    rfl
  · rw [vsprintf, ran]
    rfl

/-- `"%5"`, which ends inside its directive. -/
theorem vsprintfAt_returns_count_cut :
    ∃ k count earlier, vsprintfAt ['%', '5'] [] = some (k, count) ∧
      vsprintf ['%', '5'] [] = some (k, count) ∧
      k.stores = (count, '\x00') :: earlier ∧ earlier.length = count :=
  vsprintfAt_returns_count (by decide) (.directive rfl rfl (.done []))

end Balloon.Printf
