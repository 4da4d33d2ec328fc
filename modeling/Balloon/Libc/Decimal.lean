import Balloon.Foundation.Numeral
import Balloon.Libc.Compare

/-!
Owns `reverse` and `itoa` of utils.c. `itoa` makes its argument positive by negating it, takes
the digits from the last one on, and turns the string around; the one value that has no
negation stays negative, and its digits come out below `'0'`.
-/

namespace Balloon.Libc

open Balloon.Foundation

/-- The loop of `reverse`. -/
def reverseLoop (s : Nat) : Nat → Memory → Nat → Int → Option Memory
  | 0, _, _, _ => none
  | fuel + 1, m, i, j =>
      if (i : Int) < j then
        let c := m (wrap32 (s + i))
        let m := m.write8 (wrap32 (s + i)) (m (wrap32 (s + j.toNat))).toNat
        let m := m.write8 (wrap32 (s + j.toNat)) c.toNat
        reverseLoop s fuel m (i + 1) (j - 1)
      else some m

/-- `reverse`; `j` is an `int32_t`. -/
def reverse (m : Memory) (s : Nat) : Option Memory :=
  (strlen m s).bind fun len => reverseLoop s (2 ^ 31) m 0 (signed (sub32 len 1))

/-- The digit loop of `itoa`, with the operators of `int32_t`; it yields `i` as well. -/
def itoaLoop (s : Nat) : Nat → Memory → BitVec 32 → Nat → Option (Memory × Nat)
  | 0, _, _, _ => none
  | fuel + 1, m, n, i =>
      let m := m.write8 (wrap32 (s + i)) (n.srem 10#32 + 48#32).toNat
      let n := n.sdiv 10#32
      if BitVec.slt 0#32 n then itoaLoop s fuel m n (i + 1) else some (m, i + 1)

/-- `itoa`; a 32-bit number has ten digits at most. -/
def itoa (m : Memory) (n : BitVec 32) (s : Nat) : Option Memory :=
  let sign := n
  let n := if BitVec.slt sign 0#32 then -n else n
  (itoaLoop s 10 m n 0).bind fun (m, i) =>
    let (m, i) := if BitVec.slt sign 0#32 then (m.write8 (wrap32 (s + i)) 45, i + 1) else (m, i)
    reverse (m.write8 (wrap32 (s + i)) 0) s

/-! ### `reverse` -/

variable {m m' : Memory} {s : Nat} {text : List UInt8}

/-- `m'` is `m` with the first `i` of the `len` bytes at `s` exchanged with the last `i`. -/
structure Swapped (m m' : Memory) (s len i : Nat) : Prop where
  ends : ∀ k, k < len → k < i ∨ len ≤ k + i → m' (s + k) = m (s + (len - 1 - k))
  middle : ∀ k, i ≤ k → k + i < len → m' (s + k) = m (s + k)

/-- A round of the loop of `reverse`. -/
theorem Swapped.step {len i : Nat} (swapped : Swapped m m' s len i) (more : 2 * i + 1 < len) :
    Swapped m ((m'.write8 (s + i) (m' (s + (len - 1 - i))).toNat).write8 (s + (len - 1 - i))
      (m' (s + i)).toNat) s len (i + 1) := by
  constructor
  · intro k inside atEnd
    by_cases last : k = len - 1 - i
    · subst last
      rw [Memory.write8_same, UInt8.ofNat_toNat, swapped.middle i (Nat.le_refl i) (by omega)]
      congr 1
      omega
    · rw [Memory.write8_of_ne _ _ (by omega)]
      by_cases first : k = i
      · subst first
        rw [Memory.write8_same, UInt8.ofNat_toNat, swapped.middle _ (by omega) (by omega)]
      · rw [Memory.write8_of_ne _ _ (by omega)]
        exact swapped.ends k inside (by omega)
  · intro k above below
    rw [Memory.write8_of_ne _ _ (by omega), Memory.write8_of_ne _ _ (by omega)]
    exact swapped.middle k (by omega) (by omega)

theorem reverseLoop_spec {len : Nat} (fits : s + len ≤ 2 ^ 32) (fuel i : Nat)
    (swapped : Swapped m m' s len i) (before : 2 * i ≤ len) (enough : len < 2 * (i + fuel))
    (nul : m' (s + len) = 0) :
    ∃ m'', reverseLoop s fuel m' i ((len : Int) - 1 - i) = some m'' ∧
      (∀ k, k < len → m'' (s + k) = m (s + (len - 1 - k))) ∧ m'' (s + len) = 0 := by
  induction fuel generalizing i m' with
  | zero => omega
  | succ fuel inductionHypothesis =>
      rw [reverseLoop]
      by_cases more : 2 * i + 1 < len
      · have last : ((len : Int) - 1 - i).toNat = len - 1 - i := by omega
        have next : (len : Int) - 1 - i - 1 = len - 1 - (i + 1 : Nat) := by omega
        rw [if_pos (by omega), last, next, wrap32_of_lt (by omega), wrap32_of_lt (by omega)]
        refine inductionHypothesis (i + 1) (swapped.step more) (by omega) (by omega) ?_
        rw [Memory.write8_of_ne _ _ (by omega), Memory.write8_of_ne _ _ (by omega), nul]
      · rw [if_neg (by omega)]
        refine ⟨m', rfl, fun k inside => ?_, nul⟩
        by_cases middle : i ≤ k ∧ k + i < len
        · rw [swapped.middle k middle.1 middle.2]
          congr 1
          omega
        · exact swapped.ends k inside (by omega)

/-- `reverse` turns a string around in its place. -/
theorem reverse_text (string : Text m s text) (fits : s + text.length < 2 ^ 32)
    (short : text.length < 2 ^ 31) :
    ∃ m', reverse m s = some m' ∧ Text m' s text.reverse := by
  obtain ⟨bytes, nonzero, nul⟩ := text_iff.mp string
  have cString : CString m s text.length :=
    { nul := nul
      chars := fun k inside => by
        have byte := bytes k inside
        exact nonzero _ (List.mem_of_getElem? byte) }
  have last : signed (sub32 text.length 1) = (text.length : Int) - 1 - (0 : Nat) := by
    simp only [signed, sub32, wrap32, BitVec.toInt_ofNat']
    rw [Int.bmod_def]
    split_ifs <;> omega
  have start : Swapped m m s text.length 0 := ⟨fun k inside outside => by omega, fun _ _ _ => rfl⟩
  obtain ⟨m', ran, turned, end'⟩ := reverseLoop_spec (Nat.le_of_lt fits) (2 ^ 31) 0 start
    (by omega) (by omega) nul
  refine ⟨m', ?_, text_iff.mpr ⟨fun k inside => ?_, fun c member => ?_, ?_⟩⟩
  · rw [reverse, strlen_eq cString fits, Option.bind_some, last, ran]
  · rw [List.length_reverse] at inside
    rw [List.getElem?_reverse inside, turned k inside]
    exact bytes _ (by omega)
  · exact nonzero c (List.mem_reverse.mp member)
  · rw [List.length_reverse]
    exact end'

/-! ### Decimal numerals -/

/-- The character of a decimal digit. -/
def decimalSymbol (d : Nat) : UInt8 := UInt8.ofNat (d + 48)

/-- The digit that a character stands for. -/
def decimalValue (c : UInt8) : Option Nat :=
  if 48 ≤ c ∧ c ≤ 57 then some (c.toNat - 48) else none

/-- A numeral without its sign. -/
def unsigned (text : List UInt8) : List UInt8 := if text.head? = some 45 then text.tail else text

/-- The integer that an optional `-` and decimal digits denote. -/
def readDecimal (text : List UInt8) : Option Int :=
  (readNumeral decimalValue 10 (unsigned text)).map fun (n : Nat) =>
    if text.head? = some 45 then -(n : Int) else n

/-- The string at `s` is the decimal numeral of `n`. -/
def Spells (m : Memory) (s : Nat) (n : Int) : Prop :=
  ∃ text, Text m s text ∧ readDecimal text = some n ∧ Minimal decimalValue (unsigned text)

theorem decimalSymbol_toNat {d : Nat} (digit : d < 10) : (decimalSymbol d).toNat = d + 48 := by
  rw [decimalSymbol, UInt8.toNat_ofNat']
  omega

theorem decimalValue_symbol (d : Nat) (digit : d < 10) : decimalValue (decimalSymbol d) = some d := by
  have char := decimalSymbol_toNat digit
  simp only [decimalValue, UInt8.le_iff_toNat_le, char]
  rw [if_pos ⟨by simp, by simp; omega⟩, Nat.add_sub_cancel]

/-- The numeral that `itoa` should write, its sign included. -/
def signedNumeral (negative : Bool) (n : Nat) : List UInt8 :=
  (if negative then [45] else []) ++ writeNumeral decimalSymbol 10 n

theorem mem_numeral {n : Nat} {c : UInt8} (member : c ∈ writeNumeral decimalSymbol 10 n) :
    48 ≤ c.toNat := by
  obtain ⟨d, digit, rfl⟩ := mem_writeNumeral (by decide) member
  rw [decimalSymbol_toNat digit]
  omega

theorem numeral_head (n : Nat) : (writeNumeral decimalSymbol 10 n).head? ≠ some 45 := by
  intro minus
  have member := mem_numeral (List.mem_of_mem_head? minus)
  exact absurd member (by decide)

theorem unsigned_numeral (negative : Bool) (n : Nat) :
    unsigned (signedNumeral negative n) = writeNumeral decimalSymbol 10 n := by
  cases negative with
  | true => rfl
  | false => exact if_neg (numeral_head n)

/-- The numeral reads back. -/
theorem Spells.of_text {m : Memory} {s : Nat} {negative : Bool} {n : Nat}
    (text : Text m s (signedNumeral negative n)) : Spells m s (if negative then -(n : Int) else n) := by
  refine ⟨_, text, ?_, ?_⟩
  · rw [readDecimal, unsigned_numeral, readNumeral_writeNumeral (by decide) decimalValue_symbol,
      Option.map_some]
    cases negative with
    | true => rfl
    | false => exact congrArg some (if_neg (numeral_head n))
  · rw [unsigned_numeral]
    exact writeNumeral_minimal (by decide) decimalValue_symbol n

/-! ### `itoa` -/

/-- On numbers that are not negative the operators of `int32_t` are those of the naturals. -/
theorem signed_division {n : BitVec 32} (small : n.toNat < 2 ^ 31) :
    (n.srem 10#32).toNat = n.toNat % 10 ∧ (n.sdiv 10#32).toNat = n.toNat / 10 := by
  have positive : n.msb = false := by
    rw [BitVec.msb_eq_decide, decide_eq_false_iff_not]
    omega
  have ten : (10#32).msb = false := by decide
  constructor
  · rw [BitVec.srem_eq, positive, ten]
    rfl
  · rw [BitVec.sdiv_eq, positive, ten]
    rfl

/-- A round of the loop on a number that is not negative. -/
theorem itoaLoop_round {n : BitVec 32} (small : n.toNat < 2 ^ 31) (fuel i : Nat)
    (fits : s + i < 2 ^ 32) :
    itoaLoop s (fuel + 1) m n i =
      if 10 ≤ n.toNat then
        itoaLoop s fuel (m.write8 (s + i) (n.toNat % 10 + 48)) (n.sdiv 10#32) (i + 1)
      else some (m.write8 (s + i) (n.toNat % 10 + 48), i + 1) := by
  obtain ⟨rem, quot⟩ := signed_division small
  have char : (n.srem 10#32 + 48#32).toNat = n.toNat % 10 + 48 := by
    rw [BitVec.toNat_add, rem]
    exact Nat.mod_eq_of_lt (by simp; omega)
  have more : BitVec.slt 0#32 (n.sdiv 10#32) = true ↔ 10 ≤ n.toNat := by
    rw [BitVec.slt_iff_toInt_lt, BitVec.toInt_eq_toNat_of_lt (x := n.sdiv 10#32) (by omega), quot]
    simp
    omega
  rw [itoaLoop, wrap32_of_lt fits, char]
  simp only [more]

/-- The loop stores the digits, the last one first. -/
theorem itoaLoop_spec (fuel : Nat) {n : BitVec 32} {i : Nat} (small : n.toNat < 2 ^ 31)
    (few : n.toNat < 10 ^ (fuel + 1)) (room : s + i + fuel < 2 ^ 32) :
    ∃ m' count, itoaLoop s (fuel + 1) m n i = some (m', i + count) ∧ count ≤ fuel + 1 ∧
      (writeNumeral decimalSymbol 10 n.toNat).length = count ∧
      Bytes m' (s + i) (writeNumeral decimalSymbol 10 n.toNat).reverse ∧
      ∀ a, a < s + i → m' a = m a := by
  induction fuel generalizing m n i with
  | zero =>
      have digit : n.toNat < 10 := few
      rw [itoaLoop_round small 0 i room, if_neg (by omega), writeNumeral_digit digit]
      refine ⟨_, 1, rfl, by omega, rfl, bytes_cons.mpr ⟨?_, nofun⟩, fun a below => ?_⟩
      · rw [Memory.write8_same, Nat.mod_eq_of_lt digit, decimalSymbol]
      · exact Memory.write8_of_ne m _ (by omega)
  | succ fuel inductionHypothesis =>
      obtain ⟨rem, quot⟩ := signed_division small
      rw [itoaLoop_round small (fuel + 1) i (by omega)]
      by_cases more : 10 ≤ n.toNat
      · have fewer : n.toNat / 10 < 10 ^ (fuel + 1) := by
          rw [Nat.div_lt_iff_lt_mul (by decide), ← pow_succ]
          exact few
        obtain ⟨m', count, ran, bound, length, bytes, frame⟩ :=
          inductionHypothesis (m := m.write8 (s + i) (n.toNat % 10 + 48)) (n := n.sdiv 10#32)
            (i := i + 1) (by omega) (by rw [quot]; exact fewer) (by omega)
        rw [quot] at length bytes
        rw [if_pos more, ran, writeNumeral_step (by decide) more, List.reverse_append]
        refine ⟨m', count + 1, by rw [Nat.add_assoc, Nat.add_comm 1], by omega, ?_, ?_, ?_⟩
        · rw [List.length_append, length]
          rfl
        · refine bytes_cons.mpr ⟨?_, bytes⟩
          rw [frame _ (by omega), Memory.write8_same, decimalSymbol]
        · intro a below
          rw [frame a (by omega), Memory.write8_of_ne m _ (by omega)]
      · have digit : n.toNat < 10 := Nat.lt_of_not_le more
        rw [if_neg more, writeNumeral_digit digit]
        refine ⟨_, 1, rfl, by omega, rfl, bytes_cons.mpr ⟨?_, nofun⟩, fun a below => ?_⟩
        · rw [Memory.write8_same, Nat.mod_eq_of_lt digit, decimalSymbol]
        · exact Memory.write8_of_ne m _ (by omega)

theorem bytes_snoc {a v : Nat} (bytes : Bytes m a text) :
    Bytes (m.write8 (a + text.length) v) a (text ++ [UInt8.ofNat v]) := by
  intro k inside
  rw [List.length_append, List.length_singleton] at inside
  rcases Nat.lt_or_eq_of_le (Nat.le_of_lt_succ inside) with below | rfl
  · rw [List.getElem?_append_left below, bytes k below, Memory.write8_of_ne m _ (by omega)]
  · rw [Memory.write8_same]
    simp

/-- A NUL behind bytes ends their text. -/
theorem text_ended {a : Nat} (bytes : Bytes m a text) (nonzero : ∀ c, c ∈ text → c ≠ 0) :
    Text (m.write8 (a + text.length) 0) a text := by
  refine text_iff.mpr ⟨fun k inside => ?_, nonzero, Memory.write8_same m _ 0⟩
  rw [bytes k inside, Memory.write8_of_ne m _ (by omega)]

/-- `itoa` behind its loop: the sign, the NUL, and the string turned around. -/
theorem itoa_of_loop {n : BitVec 32} {m₁ : Memory} {digits : List UInt8}
    (loop : itoaLoop s 10 m (if BitVec.slt n 0#32 then -n else n) 0 = some (m₁, digits.length))
    (bytes : Bytes m₁ s digits) (nonzero : ∀ c, c ∈ digits → c ≠ 0) (few : digits.length ≤ 10)
    (room : s + 12 ≤ 2 ^ 32) :
    ∃ m', itoa m n s = some m' ∧
      Text m' s ((if BitVec.slt n 0#32 then [45] else []) ++ digits.reverse) := by
  have last : wrap32 (s + digits.length) = s + digits.length := wrap32_of_lt (by omega)
  rw [itoa, loop, Option.bind_some]
  by_cases negative : BitVec.slt n 0#32 = true
  · have length : (digits ++ [45]).length = digits.length + 1 := List.length_append
    have nonzeroAll : ∀ c, c ∈ digits ++ [45] → c ≠ 0 :=
      List.forall_mem_append.mpr ⟨nonzero, List.forall_mem_singleton.mpr (by decide)⟩
    have withSign : Bytes (m₁.write8 (s + digits.length) 45) s (digits ++ [45]) := bytes_snoc bytes
    have ended := text_ended withSign nonzeroAll
    obtain ⟨m', ran, turned⟩ := reverse_text ended (by omega) (by omega)
    refine ⟨m', ?_, ?_⟩
    · simp only [if_pos negative]
      rw [last, wrap32_of_lt (show s + (digits.length + 1) < 2 ^ 32 by omega), ← length]
      exact ran
    · rw [if_pos negative]
      rwa [List.reverse_append] at turned
  · obtain ⟨m', ran, turned⟩ := reverse_text (text_ended bytes nonzero) (by omega) (by omega)
    refine ⟨m', ?_, ?_⟩
    · simp only [if_neg negative]
      rw [last]
      exact ran
    · rw [if_neg negative]
      exact turned

/-- What `itoa` takes the digits of, the value without a negation apart. -/
theorem toNat_magnitude {n : BitVec 32} (negatable : n ≠ BitVec.intMin 32) :
    (if BitVec.slt n 0#32 then -n else n).toNat < 2 ^ 31 ∧
      n.toInt = if BitVec.slt n 0#32 then
        -(((if BitVec.slt n 0#32 then -n else n).toNat : Nat) : Int)
        else ((if BitVec.slt n 0#32 then -n else n).toNat : Nat) := by
  have bound := n.isLt
  have smallest : n.toNat ≠ 2 ^ 31 := fun same => negatable (BitVec.eq_of_toNat_eq same)
  have sign : BitVec.slt n 0#32 = true ↔ 2 ^ 31 ≤ n.toNat := by
    rw [BitVec.slt_iff_toInt_lt, BitVec.toInt_eq_toNat_cond]
    split_ifs <;> simp <;> omega
  by_cases negative : 2 ^ 31 ≤ n.toNat
  · have flipped : (-n).toNat = 2 ^ 32 - n.toNat := by
      rw [BitVec.toNat_neg]
      exact Nat.mod_eq_of_lt (by omega)
    rw [if_pos (sign.mpr negative), if_pos (sign.mpr negative), flipped,
      BitVec.toInt_eq_toNat_cond, if_neg (by omega)]
    omega
  · rw [if_neg (mt sign.mp negative), if_neg (mt sign.mp negative), BitVec.toInt_eq_toNat_cond,
      if_pos (by omega)]
    exact ⟨by omega, rfl⟩

/-- `itoa` writes every number that has a negation. -/
theorem itoa_spells {n : BitVec 32} (negatable : n ≠ BitVec.intMin 32) (room : s + 12 ≤ 2 ^ 32) :
    ∃ m', itoa m n s = some m' ∧ Spells m' s n.toInt := by
  obtain ⟨small, value⟩ := toNat_magnitude negatable
  obtain ⟨m₁, count, loop, few, length, bytes, -⟩ :=
    itoaLoop_spec (m := m) (s := s) 9 (i := 0) small (Nat.lt_trans small (by decide)) (by omega)
  rw [Nat.zero_add, ← length, ← List.length_reverse] at loop
  have nonzero : ∀ c, c ∈ (writeNumeral decimalSymbol 10
      (if BitVec.slt n 0#32 then -n else n).toNat).reverse → c ≠ 0 := by
    rintro c member rfl
    exact absurd (mem_numeral (List.mem_reverse.mp member)) (by decide)
  obtain ⟨m', ran, text⟩ :=
    itoa_of_loop loop bytes nonzero (by rw [List.length_reverse, length]; exact few) room
  rw [List.reverse_reverse] at text
  refine ⟨m', ran, ?_⟩
  rw [value]
  exact Spells.of_text text

/-- The smallest number comes out as `-(`. -/
theorem itoa_intMin (m : Memory) (room : s + 12 ≤ 2 ^ 32) :
    ∃ m', itoa m (BitVec.intMin 32) s = some m' ∧ Text m' s [45, 40] := by
  have loop : itoaLoop s 10 m (BitVec.intMin 32) 0 = some (m.write8 s 40, 1) := by
    rw [itoaLoop, Nat.add_zero, wrap32_of_lt (show s < 2 ^ 32 by omega),
      if_neg (by decide), show ((BitVec.intMin 32).srem 10#32 + 48#32).toNat = 40 by decide]
  have bytes : Bytes (m.write8 s 40) s [40] :=
    bytes_cons.mpr ⟨Memory.write8_same m s 40, nofun⟩
  exact itoa_of_loop (n := BitVec.intMin 32) loop bytes (by simp) (by decide) room

/-- `itoa` writes the decimal numeral of its argument, except of the one number that has no
negation. -/
theorem itoa_spells_iff (m : Memory) (n : BitVec 32) (room : s + 12 ≤ 2 ^ 32) :
    (∃ m', itoa m n s = some m' ∧ Spells m' s n.toInt) ↔ n ≠ BitVec.intMin 32 := by
  constructor
  · rintro ⟨m', ran, text, string, read, -⟩ rfl
    obtain ⟨m'', ran', written⟩ := itoa_intMin m room
    obtain rfl := Option.some.inj (ran.symm.trans ran')
    rw [string.unique written] at read
    exact absurd read (by decide)
  · intro negatable
    exact itoa_spells negatable room

/-- `itoa(-5, s)`. -/
theorem itoa_spells_iff_minus_five :
    (∃ m', itoa (fun _ => 0) (-5) 0x1000 = some m' ∧ Spells m' 0x1000 (-5 : BitVec 32).toInt) ↔
      (-5 : BitVec 32) ≠ BitVec.intMin 32 :=
  itoa_spells_iff (fun _ => 0) (-5) (by decide)

/-- `itoa(-2147483648, s)`. -/
theorem smallest_number_has_no_numeral :
    ¬ ∀ (m : Memory) (n : BitVec 32) (s : Nat), s + 12 ≤ 2 ^ 32 →
      ∃ m', itoa m n s = some m' ∧ Spells m' s n.toInt := by
  intro always
  obtain ⟨m', ran, text, string, read, -⟩ :=
    always (fun _ => 0) (BitVec.intMin 32) 0x1000 (by decide)
  obtain ⟨m'', ran', written⟩ := itoa_intMin (s := 0x1000) (fun _ => 0) (by decide)
  obtain rfl := Option.some.inj (ran.symm.trans ran')
  rw [string.unique written] at read
  exact absurd read (by decide)

end Balloon.Libc
