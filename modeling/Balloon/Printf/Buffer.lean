import Balloon.Printf.Model

/-!
Owns how much `vsprintf` stores: a length for every directive, in terms of its
fields and its argument, and the law that `kprintf` stays in its buffer exactly when
these lengths and the characters between them leave room for the NUL.
-/

namespace Balloon.Printf

/-! ### Lengths of fields -/

/-- The padding of a field whose width exceeds its text by `size`. Every padding loop
counts one further down; a counter that passes the smallest `int` in the `earlier`
loops before the last goes on from the largest. -/
def padding (size : Int) (earlier : Nat) : Nat :=
  if size < -2 ^ 31 + earlier then 2 ^ 31 - 1 else size.toNat

/-- The value `number` writes the digits of. -/
def magnitude (num : UInt32) (sign : Bool) : Nat :=
  if sign ∧ 2 ^ 31 ≤ num.toNat then 2 ^ 32 - num.toNat else num.toNat

/-- The sign, and the `0` or `0x` of `#`. -/
def prefixLength (num : UInt32) (base : Nat) (type : Flags) : Nat :=
  (if (type.sign ∧ 2 ^ 31 ≤ num.toNat) ∨ type.plus ∨ type.space then 1 else 0) +
    if type.special then if base = 16 then 2 else if base = 8 then 1 else 0 else 0

def numberLength (num : UInt32) (base : Nat) (size precision : Int) (type : Flags) : Nat :=
  let text := prefixLength num base type +
    max precision.toNat (Nat.log base (magnitude num type.sign) + 1)
  text + padding (wrapInt (size - text)) (if type.left then 0 else if type.zeropad then 1 else 2)

def charLength (d : Directive) : Nat := 
  1 + padding (wrapInt (d.fieldWidth - 1)) (if d.flags.left then 0 else 1)

/-- The part of a string that is written. -/
def stringText (d : Directive) (s : List Char) : Int :=
  if d.precision < 0 then wrapInt s.length else min (wrapInt s.length) d.precision

def stringLength (d : Directive) (s : List Char) : Nat :=
  let len := stringText d s
  len.toNat + (d.fieldWidth - len).toNat +
    if min d.fieldWidth len = -2 ^ 31 ∧ d.flags.left = false then (2 ^ 31 - 1 - len).toNat else 0

/-- The length of a converted number and the arguments behind it. -/
def numberField (d : Directive) (base : Nat) (args : List Arg) : Option (Nat × List Arg) :=
  (vaWord args).map fun (value, args) =>
    (numberLength value base d.fieldWidth d.precision d.flags, args)

/-- The length of a directive's output and the arguments behind it. -/
def fieldLength (d : Directive) (args : List Arg) : List Char → Option (Nat × List Arg)
  | [] => some (1, args)
  | c :: _ =>
      match c with
      | 'c' => (vaWord args).map fun (_, args) => (charLength d, args)
      | 's' => (vaString args).map fun (s, args) => (stringLength d s, args)
      | 'o' => numberField d 8 args
      | 'p' => numberField d.pointer 16 args
      | 'x' | 'X' => numberField d 16 args
      | 'd' | 'i' => numberField { d with flags := { d.flags with sign := true } } 10 args
      | 'u' => numberField d 10 args
      | 'b' => numberField d 2 args
      | 'n' => (vaWord args).map fun (_, args) => (0, args)
      | '%' => some (1, args)
      | _ => some (2, args)

/-- The arguments match the format; `lengths` lists what its characters and its
directives store. -/
inductive Fields : List Char → List Arg → List Nat → Prop where
  | done (args : List Arg) : Fields [] args []
  | char {c : Char} {fmt : List Char} {args : List Arg} {lengths : List Nat} (plain : c ≠ '%')
      (rest : Fields fmt args lengths) : Fields (c :: fmt) args (1 :: lengths)
  | directive {fmt fmt' : List Char} {args args' args'' : List Arg} {d : Directive} {length : Nat}
      {lengths : List Nat} (scanned : scanDirective fmt args = some (d, fmt', args'))
      (field : fieldLength d args' fmt' = some (length, args''))
      (rest : Fields fmt'.tail args'' lengths) : Fields ('%' :: fmt) args (length :: lengths)

/-! ### Wrapping -/

theorem wrapInt_of_range {n : Int} (above : -2 ^ 31 ≤ n) (below : n < 2 ^ 31) : wrapInt n = n :=
  Int.bmod_eq_of_le above below

theorem wrapInt_range (n : Int) : -2 ^ 31 ≤ wrapInt n ∧ wrapInt n < 2 ^ 31 :=
  ⟨Int.le_bmod (by decide), Int.bmod_lt (by decide)⟩

theorem wrapInt_wrapInt_sub (a b : Int) : wrapInt (wrapInt a - b) = wrapInt (a - b) :=
  Int.bmod_sub_bmod

/-! ### Lengths without wrap -/

theorem padding_of_small {size : Int} (above : -2 ^ 31 + 2 ≤ size) {earlier : Nat}
    (few : earlier ≤ 2) : padding size earlier = size.toNat := by
  unfold padding
  rw [if_neg (by omega)]

theorem magnitude_lt (num : UInt32) (sign : Bool) : magnitude num sign < 2 ^ 32 := by
  have below := num.toNat_lt
  unfold magnitude
  split_ifs <;> omega

/-- A number takes its width or, where that is more, its prefix and its digits. -/
theorem numberLength_eq_max (num : UInt32) {base : Nat} (valid : 2 ≤ base) {size precision : Int}
    (above : -2 ^ 29 ≤ size) (below : size < 2 ^ 30) (short : precision < 2 ^ 30) (type : Flags) :
    numberLength num base size precision type =
      max size.toNat (prefixLength num base type +
        max precision.toNat (Nat.log base (magnitude num type.sign) + 1)) := by
  have digits : Nat.log base (magnitude num type.sign) < 32 :=
    calc Nat.log base (magnitude num type.sign) ≤ Nat.log 2 (magnitude num type.sign) :=
          Nat.log_anti_left (by decide) valid
      _ < 32 := Nat.log_lt_of_lt_pow' (by decide) (magnitude_lt num type.sign)
  have sign : prefixLength num base type ≤ 3 := by
    unfold prefixLength
    split_ifs <;> decide
  have few : (if type.left = true then 0 else if type.zeropad = true then 1 else 2) ≤ 2 := by
    split_ifs <;> decide
  unfold numberLength
  dsimp only
  generalize Nat.log base (magnitude num type.sign) = count at digits ⊢
  rw [wrapInt_of_range (by omega) (by omega), padding_of_small (by omega) few]
  omega

theorem charLength_eq_max {d : Directive} (above : -2 ^ 30 ≤ d.fieldWidth)
    (below : d.fieldWidth < 2 ^ 30) : charLength d = max d.fieldWidth.toNat 1 := by
  have few : (if d.flags.left = true then 0 else 1) ≤ 2 := by split_ifs <;> decide
  unfold charLength
  rw [wrapInt_of_range (by omega) (by omega), padding_of_small (by omega) few]
  omega

/-- A string takes its width or, where that is more, the part the precision leaves. -/
theorem stringLength_eq_max {d : Directive} (above : -2 ^ 30 ≤ d.fieldWidth) {s : List Char}
    (short : s.length < 2 ^ 31) :
    stringLength d s = max d.fieldWidth.toNat
      (if d.precision < 0 then s.length else min s.length d.precision.toNat) := by
  have length : wrapInt s.length = s.length := wrapInt_of_range (by omega) (by omega)
  unfold stringLength stringText
  rw [length]
  dsimp only
  split_ifs <;> omega

/-! ### Stores -/

/-- Every store is behind `str`. -/
def Sink.Behind (k : Sink) : Prop := ∀ store ∈ k.stores, store.1 < k.str

/-- `k'` is `k` after `n` stores at `str`. -/
structure Sink.Grown (k k' : Sink) (n : Nat) : Prop where
  str : k'.str = k.str + n
  behind : k.Behind → k'.Behind

namespace Sink

variable {k k' k'' : Sink} {n n' : Nat}

theorem Grown.refl (k : Sink) : k.Grown k 0 := ⟨rfl, id⟩

theorem Grown.trans (first : k.Grown k' n) (second : k'.Grown k'' n') : k.Grown k'' (n + n') :=
  ⟨by rw [second.str, first.str, Nat.add_assoc], second.behind ∘ first.behind⟩

theorem Grown.congr (grown : k.Grown k' n) (same : n = n') : k.Grown k' n' := same ▸ grown

theorem grown_put (k : Sink) (c : Char) : k.Grown (k.put c) 1 where
  str := rfl
  behind := by
    intro behind store member
    rcases List.mem_cons.mp member with rfl | older
    · exact Nat.lt_succ_self k.str
    · exact Nat.lt_succ_of_lt (behind store older)

theorem grown_puts (k : Sink) (chars : List Char) : k.Grown (k.puts chars) chars.length := by
  induction chars generalizing k with
  | nil => exact Grown.refl k
  | cons c rest inductionHypothesis =>
      exact ((grown_put k c).trans (inductionHypothesis (k.put c))).congr (Nat.add_comm 1 _)

theorem grown_fill (k : Sink) (c : Char) (rounds : Nat) : k.Grown (k.fill c rounds) rounds := by
  induction rounds generalizing k with
  | zero => exact Grown.refl k
  | succ rounds inductionHypothesis =>
      exact ((grown_put k c).trans (inductionHypothesis (k.put c))).congr (Nat.add_comm 1 _)

theorem grown_putIf (k : Sink) (p : Prop) [Decidable p] (c : Char) :
    k.Grown (if p then k.put c else k) (if p then 1 else 0) := by
  split_ifs
  · exact grown_put k c
  · exact Grown.refl k

/-- The three padding loops of `number`, of which the flags leave out some. -/
theorem grown_padAfterUnless (k : Sink) (p : Prop) [Decidable p] (c : Char) (size : Int) :
    k.Grown (if p then (k, size) else k.padAfter c size).1 (if p then 0 else size.toNat) := by
  split_ifs
  · exact Grown.refl k
  · exact grown_fill k c size.toNat

theorem padAfterUnless_size (k : Sink) (p : Prop) [Decidable p] (c : Char) (size : Int) :
    (if p then (k, size) else k.padAfter c size).2 =
      if p then size else wrapInt (min size 0 - 1) := by
  split_ifs <;> rfl

end Sink

/-! ### `number` -/

/-- What a padding loop leaves in its counter. -/
theorem wrapInt_countdown {size : Int} (above : -2 ^ 31 ≤ size) (below : size < 2 ^ 31) :
    wrapInt (min size 0 - 1) = if size = -2 ^ 31 then 2 ^ 31 - 1 else min size 0 - 1 := by
  split_ifs with smallest
  · subst smallest
    decide
  · apply wrapInt_of_range <;> omega

/-- Together the three padding loops of `number` write its padding. -/
theorem padding_sum (zeropad left : Bool) {size : Int} (above : -2 ^ 31 ≤ size)
    (below : size < 2 ^ 31) :
    (if zeropad ∨ left then 0 else size.toNat) +
        (if left then 0
          else (if zeropad ∨ left then size else wrapInt (min size 0 - 1)).toNat) +
        (if left then if zeropad ∨ left then size else wrapInt (min size 0 - 1)
          else wrapInt
            (min (if zeropad ∨ left then size else wrapInt (min size 0 - 1)) 0 - 1)).toNat =
      padding size (if left then 0 else if zeropad then 1 else 2) := by
  have first := wrapInt_countdown above below
  have range := wrapInt_range (min size 0 - 1)
  have second := wrapInt_countdown range.1 range.2
  cases left with
  | true =>
      have noWrap : ¬ size < -2 ^ 31 + ((0 : Nat) : Int) := by omega
      simp only [or_true, if_true, padding, if_neg noWrap, Nat.zero_add]
  | false =>
      cases zeropad with
      | true =>
          simp only [true_or, if_true, Bool.false_eq_true, if_false, padding, first]
          split_ifs <;> omega
      | false =>
          simp only [Bool.false_eq_true, or_self, if_false, padding, second]
          simp only [first]
          split_ifs <;> omega

theorem digitLoop_length (digits : List Char) {base : Nat} (valid : 2 ≤ base) {fuel num : Nat}
    (small : num < 2 ^ fuel) (positive : num ≠ 0) :
    (digitLoop digits base fuel num).length = Nat.log base num + 1 := by
  induction fuel generalizing num with
  | zero => omega
  | succ fuel inductionHypothesis =>
      rw [digitLoop, if_neg positive, List.length_cons]
      by_cases last : num < base
      · rw [Nat.div_eq_of_lt last, Nat.log_of_lt last]
        cases fuel <;> simp [digitLoop]
      · have shrinks : num / base < 2 ^ fuel := by
          apply Nat.div_lt_of_lt_mul
          calc num < 2 * 2 ^ fuel := by omega
            _ ≤ base * 2 ^ fuel := Nat.mul_le_mul_right _ valid
        have remains : num / base ≠ 0 :=
          (Nat.div_pos (Nat.not_lt.mp last) (Nat.zero_lt_of_lt valid)).ne'
        rw [inductionHypothesis shrinks remains, Nat.log_of_one_lt_of_le valid (Nat.not_lt.mp last)]

theorem magnitude_eq (num : UInt32) (sign : Bool) :
    (if sign ∧ 2 ^ 31 ≤ num.toNat then -num else num).toNat = magnitude num sign := by
  unfold magnitude
  split_ifs with negative
  · rw [UInt32.toNat_neg]
    apply Nat.mod_eq_of_lt
    simp only [UInt32.size]
    omega
  · rfl

/-- The cells of `tmp` that `number` fills. -/
theorem tmp_length (digits : List Char) {base : Nat} (valid : 2 ≤ base) (num : UInt32) :
    (if num = 0 then ['0'] else digitLoop digits base 32 num.toNat).length =
      Nat.log base num.toNat + 1 := by
  split_ifs with zero
  · subst zero
    simp
  · apply digitLoop_length digits valid num.toNat_lt
    exact fun toNat => zero (UInt32.toNat_inj.mp toNat)

theorem grown_special (k : Sink) (special : Bool) (base : Nat) (x : Char) :
    k.Grown
      (if special then if base = 8 then k.put '0' else if base = 16 then (k.put '0').put x else k
        else k)
      (if special then if base = 16 then 2 else if base = 8 then 1 else 0 else 0) := by
  split_ifs with isSpecial octal hex
  · omega
  · exact Sink.grown_put k '0'
  · exact (Sink.grown_put k '0').trans (Sink.grown_put _ x)
  · exact Sink.Grown.refl k
  · exact Sink.Grown.refl k

/-- The decrements of `size` before the padding, all at once. -/
theorem size_eq (signed special : Prop) [Decidable signed] [Decidable special] (base : Nat)
    (size precision : Int) :
    wrapInt
        ((if special then
            if base = 16 then wrapInt ((if signed then wrapInt (size - 1) else size) - 2)
            else if base = 8 then wrapInt ((if signed then wrapInt (size - 1) else size) - 1)
            else if signed then wrapInt (size - 1) else size
          else if signed then wrapInt (size - 1) else size) - precision) =
      wrapInt (size - (((if signed then 1 else 0) +
        if special then if base = 16 then 2 else if base = 8 then 1 else 0 else 0 : Nat) : Int) -
          precision) := by
  split_ifs <;> (try simp only [wrapInt_wrapInt_sub]) <;> congr 1 <;> omega

theorem writeNumber_grown (k : Sink) (tmp : List Char) (sign : Char) (base : Nat)
    {size precision : Int} (above : -2 ^ 31 ≤ size) (below : size < 2 ^ 31)
    (enough : (tmp.length : Int) ≤ precision) (type : Flags) :
    k.Grown (writeNumber k tmp sign base size precision type)
      ((if sign ≠ '\x00' then 1 else 0) +
        (if type.special then if base = 16 then 2 else if base = 8 then 1 else 0 else 0) +
        precision.toNat +
        padding size (if type.left then 0 else if type.zeropad then 1 else 2)) := by
  let spaced := if type.zeropad ∨ type.left then (k, size) else k.padAfter ' ' size
  have grownSpaced : k.Grown spaced.1 _ := Sink.grown_padAfterUnless k _ ' ' size
  have grownSigned := grownSpaced.trans (Sink.grown_putIf spaced.1 (sign ≠ '\x00') sign)
  have grownPrefixed := grownSigned.trans
    (grown_special _ type.special base ((digits type.small).getD 33 '\x00'))
  have grownFilled := grownPrefixed.trans (Sink.grown_padAfterUnless _ (type.left = true)
    (if type.zeropad then '0' else ' ') spaced.2)
  have grownZeros := grownFilled.trans (Sink.grown_fill _ '0' (precision - tmp.length).toNat)
  have grownDigits := grownZeros.trans (Sink.grown_puts _ tmp.reverse)
  apply (grownDigits.trans (Sink.grown_fill _ ' ' _)).congr
  rw [← padding_sum type.zeropad type.left above below, Sink.padAfterUnless_size,
    Sink.padAfterUnless_size, List.length_reverse]
  omega

/-- The length of the sign, which is 0 where there is none. -/
theorem sign_length (negative plus space : Prop) [Decidable negative] [Decidable plus]
    [Decidable space] :
    (if (if negative then '-' else if plus then '+' else if space then ' ' else '\x00') ≠ '\x00'
      then 1 else 0) = if negative ∨ plus ∨ space then 1 else 0 := by
  split_ifs <;> simp_all

theorem number_grown (k : Sink) (num : UInt32) {base : Nat} (valid : 2 ≤ base ∧ base ≤ 36)
    (size precision : Int) (type : Flags) :
    ∃ k', number k num base size precision type = some k' ∧
      k.Grown k' (numberLength num base size precision type) := by
  unfold number
  rw [if_neg (by omega)]
  have cells := tmp_length (digits type.small) valid.1
    (if type.sign = true ∧ 2 ^ 31 ≤ num.toNat then -num else num)
  rw [magnitude_eq num type.sign] at cells
  refine ⟨_, rfl, (writeNumber_grown k _ _ base (wrapInt_range _).1 (wrapInt_range _).2 ?_ _).congr
    ?_⟩
  · split_ifs <;> omega
  · simp only [magnitude_eq, size_eq, cells, sign_length, numberLength]
    change prefixLength num base type + _ + _ = _
    generalize Nat.log base (magnitude num type.sign) + 1 = count
    have longest : (if (count : Int) > precision then (count : Int) else precision) =
        (max precision.toNat count : Nat) := by
      split_ifs <;> omega
    have earlier : (if type.left = true then 0
        else if (type.zeropad && !type.left) = true then 1 else 2) =
        if type.left = true then 0 else if type.zeropad = true then 1 else 2 := by
      cases type.left <;> simp
    rw [longest, earlier, Int.toNat_natCast, Int.sub_sub, ← Int.natCast_add]
    rfl

/-! ### Directives -/

/-- The loops of the case `'c'` on both sides of the character. -/
theorem convertChar_grown (k : Sink) (d : Directive) (value : UInt32) :
    k.Grown (convertChar k d value) (charLength d) := by
  unfold convertChar charLength
  have range := wrapInt_range (d.fieldWidth - 1)
  have countdown := wrapInt_countdown range.1 range.2
  cases left : d.flags.left with
  | true =>
      have grown := (Sink.grown_put k (Char.ofNat (value.toNat % 256))).trans
        (Sink.grown_fill _ ' ' (wrapInt (d.fieldWidth - 1)).toNat)
      have noWrap : ¬ wrapInt (d.fieldWidth - 1) < -2 ^ 31 + ((0 : Nat) : Int) := by omega
      exact grown.congr (by simp only [if_true, padding, if_neg noWrap])
  | false =>
      have grown := ((Sink.grown_fill k ' ' (wrapInt (d.fieldWidth - 1)).toNat).trans
        (Sink.grown_put _ (Char.ofNat (value.toNat % 256)))).trans
        (Sink.grown_fill _ ' ' (wrapInt (min (wrapInt (d.fieldWidth - 1)) 0 - 1)).toNat)
      apply grown.congr
      simp only [Bool.false_eq_true, if_false, padding, countdown]
      split_ifs <;> omega

theorem stringText_le (d : Directive) (s : List Char) : (stringText d s).toNat ≤ s.length := by
  have short : wrapInt s.length ≤ s.length := by
    by_cases small : (s.length : Int) < 2 ^ 31
    · rw [wrapInt_of_range (by omega) small]
    · have below := (wrapInt_range s.length).2
      omega
  unfold stringText
  split_ifs <;> omega

theorem stringText_range (d : Directive) (s : List Char) :
    stringText d s < 2 ^ 31 ∧ (-2 ^ 31 ≤ stringText d s) := by
  have range := wrapInt_range s.length
  unfold stringText
  split_ifs <;> omega

/-- The loops of the case `'s'` on both sides of the text. -/
theorem convertString_grown (k : Sink) {d : Directive} (range : -2 ^ 31 ≤ d.fieldWidth)
    (s : List Char) : k.Grown (convertString k d s) (stringLength d s) := by
  have text : (s.take (stringText d s).toNat).length = (stringText d s).toNat := by
    rw [List.length_take, Nat.min_eq_left (stringText_le d s)]
  have same : (if d.precision < 0 then wrapInt s.length
      else if wrapInt s.length > d.precision then d.precision else wrapInt s.length) =
      stringText d s := by
    unfold stringText
    split_ifs <;> omega
  have textRange := stringText_range d s
  simp only [convertString, stringLength, same]
  generalize stringText d s = len at text textRange ⊢
  cases left : d.flags.left with
  | true =>
      have grown := (Sink.grown_puts k (s.take len.toNat)).trans
        (Sink.grown_fill _ ' ' (d.fieldWidth - len).toNat)
      apply grown.congr
      rw [text]
      simp
  | false =>
      have grown := ((Sink.grown_fill k ' ' (d.fieldWidth - len).toNat).trans
        (Sink.grown_puts _ (s.take len.toNat))).trans
        (Sink.grown_fill _ ' ' (wrapInt (min d.fieldWidth len - 1) - len).toNat)
      apply grown.congr
      rw [text]
      by_cases smallest : min d.fieldWidth len = -2 ^ 31
      · have wraps : wrapInt (min d.fieldWidth len - 1) = 2 ^ 31 - 1 := by
          rw [smallest]
          decide
        rw [wraps, if_pos ⟨smallest, rfl⟩]
        omega
      · have noWrap : wrapInt (min d.fieldWidth len - 1) = min d.fieldWidth len - 1 := by
          apply wrapInt_of_range <;> omega
        rw [noWrap, if_neg fun both => smallest both.1]
        omega

/-- The scanned width is an `int`. -/
theorem skipAtoi_range (fmt : List Char) {i : Int} (range : -2 ^ 31 ≤ i) :
    -2 ^ 31 ≤ (skipAtoi fmt i).1 := by
  induction fmt generalizing i with
  | nil => exact range
  | cons c rest inductionHypothesis =>
      rw [skipAtoi]
      split_ifs
      · exact inductionHypothesis (wrapInt_range _).1
      · exact range

theorem scanWidth_range {flags flags' : Flags} {args args' : List Arg} {fmt fmt' : List Char}
    {width : Int} (scanned : scanWidth flags args fmt = some (flags', width, fmt', args')) :
    -2 ^ 31 ≤ width := by
  cases fmt with
  | nil =>
      cases scanned
      decide
  | cons c rest =>
      rw [scanWidth] at scanned
      split_ifs at scanned
      · obtain ⟨-, rfl, -⟩ := by simpa only [Option.some.injEq, Prod.mk.injEq] using scanned
        exact skipAtoi_range (c :: rest) (show (-2 : Int) ^ 31 ≤ 0 by decide)
      · obtain ⟨⟨value, rest⟩, -, same⟩ := Option.map_eq_some_iff.mp scanned
        dsimp only at same
        split_ifs at same
        · obtain ⟨-, rfl, -⟩ := by simpa only [Prod.mk.injEq] using same
          exact (wrapInt_range _).1
        · obtain ⟨-, rfl, -⟩ := by simpa only [Prod.mk.injEq] using same
          exact (wrapInt_range _).1
      · obtain ⟨-, rfl, -⟩ := by simpa only [Option.some.injEq, Prod.mk.injEq] using scanned
        decide

theorem scanDirective_range {fmt fmt' : List Char} {args args' : List Arg} {d : Directive}
    (scanned : scanDirective fmt args = some (d, fmt', args')) : -2 ^ 31 ≤ d.fieldWidth := by
  simp only [scanDirective, Option.bind_eq_bind, Option.bind_eq_some_iff, Prod.exists] at scanned
  obtain ⟨flags, fieldWidth, fmt₁, args₁, width, precision, fmt₂, args₂, -, same⟩ := scanned
  obtain ⟨rfl, -⟩ := by simpa only [pure, Option.some.injEq, Prod.mk.injEq] using same
  exact scanWidth_range width

theorem convertNumber_grown (k : Sink) (d : Directive) {base : Nat} (valid : 2 ≤ base ∧ base ≤ 36)
    (fmt : List Char) {args args' : List Arg} {length : Nat}
    (field : numberField d base args = some (length, args')) :
    ∃ k', convertNumber k d base args fmt = some (k', fmt, args') ∧ k.Grown k' length := by
  obtain ⟨⟨value, rest⟩, taken, same⟩ := Option.map_eq_some_iff.mp field
  cases same
  obtain ⟨k', written, grown⟩ := number_grown k value valid d.fieldWidth d.precision d.flags
  exact ⟨k', by simp [convertNumber, taken, written], grown⟩

/-- The conversion behind a scanned directive stores as much as its length says, and
leaves the format and the arguments behind it. -/
theorem convert_grown (k : Sink) {d : Directive} (range : -2 ^ 31 ≤ d.fieldWidth)
    {fmt : List Char} {args args' : List Arg} {length : Nat}
    (field : fieldLength d args fmt = some (length, args')) :
    ∃ k', convert k d args fmt = some (k', fmt.tail, args') ∧ k.Grown k' length := by
  unfold fieldLength at field
  unfold convert
  split at field
  · cases field
    exact ⟨_, rfl, Sink.grown_put k '%'⟩
  · next c rest =>
    dsimp only at field ⊢
    split at field
    · obtain ⟨⟨value, rest⟩, taken, same⟩ := Option.map_eq_some_iff.mp field
      cases same
      exact ⟨_, by rw [taken]; rfl, convertChar_grown k d value⟩
    · obtain ⟨⟨s, rest⟩, taken, same⟩ := Option.map_eq_some_iff.mp field
      cases same
      exact ⟨_, by rw [taken]; rfl, convertString_grown k range s⟩
    · exact convertNumber_grown k d (by decide) rest field
    · exact convertNumber_grown k d.pointer (by decide) rest field
    · exact convertNumber_grown k { d with flags := { d.flags with small := true } } (by decide)
        rest field
    · exact convertNumber_grown k d (by decide) rest field
    · exact convertNumber_grown k _ (by decide) rest field
    · exact convertNumber_grown k _ (by decide) rest field
    · exact convertNumber_grown k d (by decide) rest field
    · exact convertNumber_grown k d (by decide) rest field
    · obtain ⟨⟨ip, rest⟩, taken, same⟩ := Option.map_eq_some_iff.mp field
      cases same
      exact ⟨{ k with counts := (ip, k.str) :: k.counts }, by rw [taken]; rfl, rfl, id⟩
    · cases field
      exact ⟨_, rfl, Sink.grown_put k '%'⟩
    · cases field
      refine ⟨(k.put '%').put c, ?_, (Sink.grown_put k '%').trans (Sink.grown_put _ c)⟩
      simp [*]

/-! ### Progress of the scan -/

theorem skipAtoi_suffix (fmt : List Char) (i : Int) : (skipAtoi fmt i).2 <:+ fmt := by
  induction fmt generalizing i with
  | nil => exact List.suffix_refl []
  | cons c rest inductionHypothesis =>
      rw [skipAtoi]
      split_ifs
      · exact (inductionHypothesis _).trans (List.suffix_cons c rest)
      · exact List.suffix_refl _

theorem scanFlags_suffix (fmt : List Char) (flags : Flags) : (scanFlags fmt flags).2 <:+ fmt := by
  fun_induction scanFlags fmt flags with
  | case6 => exact List.suffix_refl _
  | case1 _ _ inductionHypothesis | case2 _ _ inductionHypothesis
  | case3 _ _ inductionHypothesis | case4 _ _ inductionHypothesis
  | case5 _ _ inductionHypothesis => exact inductionHypothesis.trans (List.suffix_cons _ _)

theorem scanWidth_suffix {flags flags' : Flags} {args args' : List Arg} {fmt fmt' : List Char}
    {width : Int} (scanned : scanWidth flags args fmt = some (flags', width, fmt', args')) :
    fmt' <:+ fmt := by
  cases fmt with
  | nil =>
      cases scanned
      exact List.suffix_refl []
  | cons c rest =>
      rw [scanWidth] at scanned
      split_ifs at scanned
      · obtain ⟨-, -, rfl, -⟩ := by simpa only [Option.some.injEq, Prod.mk.injEq] using scanned
        exact skipAtoi_suffix (c :: rest) 0
      · obtain ⟨⟨value, rest⟩, -, same⟩ := Option.map_eq_some_iff.mp scanned
        dsimp only at same
        split_ifs at same
        · obtain ⟨-, -, rfl, -⟩ := by simpa only [Prod.mk.injEq] using same
          exact List.suffix_refl _
        · obtain ⟨-, -, rfl, -⟩ := by simpa only [Prod.mk.injEq] using same
          exact List.suffix_refl _
      · obtain ⟨-, -, rfl, -⟩ := by simpa only [Option.some.injEq, Prod.mk.injEq] using scanned
        exact List.suffix_refl _

theorem scanPrecision_suffix {args args' : List Arg} {fmt fmt' : List Char} {precision : Int}
    (scanned : scanPrecision args fmt = some (precision, fmt', args')) : fmt' <:+ fmt := by
  unfold scanPrecision at scanned
  split at scanned
  · next rest =>
    obtain ⟨⟨value, fmt₁, args₁⟩, scannedRest, same⟩ := Option.map_eq_some_iff.mp scanned
    obtain ⟨-, rfl, -⟩ := by simpa only [Prod.mk.injEq] using same
    have suffix : fmt₁ <:+ rest := by
      split at scannedRest
      · cases scannedRest
        exact List.suffix_refl []
      · next c rest =>
        split_ifs at scannedRest
        · obtain ⟨-, rfl, -⟩ := by
            simpa only [Option.some.injEq, Prod.mk.injEq] using scannedRest
          exact skipAtoi_suffix (c :: rest) 0
        · obtain ⟨⟨word, args₂⟩, -, taken⟩ := Option.map_eq_some_iff.mp scannedRest
          obtain ⟨-, rfl, -⟩ := by simpa only [Prod.mk.injEq] using taken
          exact List.suffix_refl _
        · obtain ⟨-, rfl, -⟩ := by
            simpa only [Option.some.injEq, Prod.mk.injEq] using scannedRest
          exact List.suffix_refl _
    exact suffix.trans (List.suffix_cons '.' rest)
  · obtain ⟨-, rfl, -⟩ := by simpa only [Option.some.injEq, Prod.mk.injEq] using scanned
    exact List.suffix_refl _

theorem scanQualifier_suffix (fmt : List Char) : scanQualifier fmt <:+ fmt := by
  unfold scanQualifier
  split
  · exact List.suffix_cons _ _
  · exact List.suffix_cons _ _
  · exact List.suffix_cons _ _
  · exact List.suffix_refl _

theorem scanDirective_suffix {fmt fmt' : List Char} {args args' : List Arg} {d : Directive}
    (scanned : scanDirective fmt args = some (d, fmt', args')) : fmt' <:+ fmt := by
  simp only [scanDirective, Option.bind_eq_bind, Option.bind_eq_some_iff, Prod.exists] at scanned
  obtain ⟨flags, fieldWidth, fmt₁, args₁, width, precision, fmt₂, args₂, isPrecision, same⟩ :=
    scanned
  obtain ⟨-, rfl, -⟩ := by simpa only [pure, Option.some.injEq, Prod.mk.injEq] using same
  apply (scanQualifier_suffix fmt₂).trans
  apply (scanPrecision_suffix isPrecision).trans
  exact (scanWidth_suffix width).trans (scanFlags_suffix fmt Flags.none)

/-! ### Formats -/

theorem vsprintfLoop_grown {fmt : List Char} {args : List Arg} {lengths : List Nat}
    (fields : Fields fmt args lengths) (k : Sink) {fuel : Nat} (enough : fmt.length ≤ fuel) :
    ∃ k', vsprintfLoop fuel k fmt args = some k' ∧ k.Grown k' lengths.sum := by
  induction fields generalizing k fuel with
  | done args =>
      refine ⟨k, ?_, Sink.Grown.refl k⟩
      cases fuel <;> rfl
  | @char c fmt args lengths plain rest inductionHypothesis =>
      cases fuel with
      | zero => exact absurd enough (Nat.not_succ_le_zero _)
      | succ fuel =>
          obtain ⟨k', run, grown⟩ :=
            inductionHypothesis (k.put c) (Nat.le_of_succ_le_succ enough)
          refine ⟨k', ?_, (Sink.grown_put k c).trans grown⟩
          rw [vsprintfLoop, if_pos plain, run]
  | @directive fmt fmt' args args' args'' d length lengths scanned field rest inductionHypothesis =>
      cases fuel with
      | zero => exact absurd enough (Nat.not_succ_le_zero _)
      | succ fuel =>
          obtain ⟨k₁, converted, first⟩ := convert_grown k (scanDirective_range scanned) field
          have shorter : fmt'.tail.length ≤ fuel := by
            have suffix := (scanDirective_suffix scanned).length_le
            rw [List.length_tail]
            rw [List.length_cons] at enough
            omega
          obtain ⟨k', run, grown⟩ := inductionHypothesis k₁ shorter
          refine ⟨k', ?_, first.trans grown⟩
          rw [vsprintfLoop, if_neg (not_not.mpr rfl)]
          simp only [scanned, converted, run, Option.bind_eq_bind, Option.bind_some]

/-- The stores of `kprintf` reach to the NUL behind the fields and no further. -/
theorem kprintf_stores {msg : List Char} {args : List Arg} {lengths : List Nat}
    (fields : Fields msg args lengths) :
    ∃ stores, kprintf msg args = some stores ∧ (lengths.sum, '\x00') ∈ stores ∧
      ∀ store ∈ stores, store.1 ≤ lengths.sum := by
  obtain ⟨k, run, grown⟩ := vsprintfLoop_grown fields ⟨0, [], []⟩ (Nat.le_refl msg.length)
  have length : k.str = lengths.sum := by rw [grown.str, Nat.zero_add]
  have behind : k.Behind := grown.behind nofun
  refine ⟨(k.str, '\x00') :: (k.str, '\x00') :: k.stores, ?_, ?_, ?_⟩
  · simp only [kprintf, vsprintf, run, Option.map_some]
  · exact length ▸ List.mem_cons_self
  · rw [List.forall_mem_cons, List.forall_mem_cons, ← length]
    exact ⟨Nat.le_refl k.str, Nat.le_refl k.str, fun store member =>
      Nat.le_of_lt (behind store member)⟩

/-- `kprintf` returns for every format and arguments that match it, and stores inside
its 1024-byte buffer only, the terminating NUL included, exactly when the characters
and fields of the format come to less than 1024. -/
theorem kprintf_inside_iff {msg : List Char} {args : List Arg} {lengths : List Nat}
    (fields : Fields msg args lengths) :
    ∃ stores, kprintf msg args = some stores ∧
      ((∀ store ∈ stores, store.1 < 1024) ↔ lengths.sum < 1024) := by
  obtain ⟨stores, run, nul, within⟩ := kprintf_stores fields
  refine ⟨stores, run, fun inside => inside _ nul, fun fits store member => ?_⟩
  exact Nat.lt_of_le_of_lt (within store member) fits

/-- `kprintf("%5d!", 42)`. -/
theorem kprintf_inside_number :
    ∃ stores, kprintf ['%', '5', 'd', '!'] [.word 42] = some stores ∧
      ((∀ store ∈ stores, store.1 < 1024) ↔ [5, 1].sum < 1024) := by
  apply kprintf_inside_iff
  exact .directive rfl rfl (.char (by decide) (.done []))

/-- `kprintf("%s", s)` with a string of 1024 characters. -/
theorem long_string_leaves_buffer :
    ¬ ∀ (msg : List Char) (args : List Arg) (lengths : List Nat), Fields msg args lengths →
      ∃ stores, kprintf msg args = some stores ∧ ∀ store ∈ stores, store.1 < 1024 := by
  intro always
  have length : stringLength ⟨Flags.none, -1, -1⟩ (List.replicate 1024 'a') = 1024 := by
    simp only [stringLength, stringText, List.length_replicate]
    decide
  have fields : Fields ['%', 's'] [.string (List.replicate 1024 'a')] [1024] := by
    refine .directive rfl ?_ (.done [])
    exact congrArg (fun n => some (n, [])) length
  obtain ⟨stores, run, inside⟩ := always _ _ _ fields
  obtain ⟨stores', run', nul, -⟩ := kprintf_stores fields
  obtain rfl := Option.some.inj (run.symm.trans run')
  exact absurd (inside _ nul) (by decide)

end Balloon.Printf
