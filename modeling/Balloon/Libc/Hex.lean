import Balloon.Foundation.Numeral
import Balloon.Libc.Compare

/-!
Owns `i2hex` of utils.c. It skips the leading zeros of the number but not their places in the
string, and ends without a NUL, so what is read back depends on what the bytes held before.
-/

namespace Balloon.Libc

open Balloon.Foundation

/-- The character of a hexadecimal digit. -/
def hexSymbol (tmp : Nat) : UInt8 := UInt8.ofNat (if 0xA ≤ tmp then tmp - 0xA + 97 else tmp + 48)

/-- The stores of `i2hex` with `i` at `4 * rounds`: an offset and a character each. `continue`
leaves the place of a leading zero as it is. -/
def hexStores (n : Nat) : Nat → Nat → Bool → List (Nat × UInt8)
  | 0, j, _ => [(j, hexSymbol (n &&& 0xF))]
  | rounds + 1, j, noZeroes =>
      let tmp := n >>> (4 * (rounds + 1)) &&& 0xF
      if tmp = 0 ∧ noZeroes then hexStores n rounds (j + 1) noZeroes
      else (j, hexSymbol tmp) :: hexStores n rounds (j + 1) false

/-- The memory after `stores` into `dest`, in order. -/
def storeAll (m : Memory) (dest : Nat) (stores : List (Nat × UInt8)) : Memory :=
  stores.foldl (fun m (j, c) => m.write8 (wrap32 (dest + j)) c.toNat) m

/-- `i2hex`, which does not read `len`. -/
def i2hex (m : Memory) (val dest : Nat) (_len : Int) : Memory :=
  storeAll m dest (hexStores val 7 0 true)

/-- The digit that a character stands for. -/
def hexValue (c : UInt8) : Option Nat :=
  if 48 ≤ c ∧ c ≤ 57 then some (c.toNat - 48)
  else if 97 ≤ c ∧ c ≤ 102 then some (c.toNat - 87)
  else if 65 ≤ c ∧ c ≤ 70 then some (c.toNat - 55)
  else none

/-- The string at `dest` after `i2hex` is a hexadecimal numeral of `val`, and the call has
stored every byte of it. -/
def WritesHex (m : Memory) (val dest : Nat) (len : Int) : Prop :=
  ∃ text, Text (i2hex m val dest len) dest text ∧
    (∀ k, k < text.length → k ∈ (hexStores val 7 0 true).map Prod.fst) ∧
    readNumeral hexValue 16 text = some val

variable {m : Memory} {n dest : Nat}

/-! ### Digits -/

/-- The low `rounds + 1` digits, the most significant first. -/
def hexDigits (n : Nat) : Nat → List Nat
  | 0 => [n % 16]
  | rounds + 1 => n / 16 ^ (rounds + 1) % 16 :: hexDigits n rounds

theorem nibble_eq (n i : Nat) : n >>> (4 * i) &&& 0xF = n / 16 ^ i % 16 := by
  have mask : n >>> (4 * i) &&& 2 ^ 4 - 1 = n >>> (4 * i) % 2 ^ 4 := Nat.and_two_pow_sub_one_eq_mod _ 4
  rw [show (0xF : Nat) = 2 ^ 4 - 1 from rfl, mask, Nat.shiftRight_eq_div_pow, pow_mul,
    show (2 : Nat) ^ 4 = 16 from rfl]

theorem hexDigits_length (n rounds : Nat) : (hexDigits n rounds).length = rounds + 1 := by
  induction rounds with
  | zero => rfl
  | succ rounds inductionHypothesis => rw [hexDigits, List.length_cons, inductionHypothesis]

theorem mem_hexDigits {rounds d : Nat} (member : d ∈ hexDigits n rounds) : d < 16 := by
  induction rounds with
  | zero =>
      rw [hexDigits, List.mem_singleton] at member
      omega
  | succ rounds inductionHypothesis =>
      rcases List.mem_cons.mp member with rfl | rest
      · exact Nat.mod_lt _ (by decide)
      · exact inductionHypothesis rest

theorem ofDigits_hexDigits (n rounds : Nat) :
    Nat.ofDigits 16 (hexDigits n rounds).reverse = n % 16 ^ (rounds + 1) := by
  induction rounds with
  | zero => simp [hexDigits]
  | succ rounds inductionHypothesis =>
      rw [hexDigits, List.reverse_cons, Nat.ofDigits_append, inductionHypothesis,
        Nat.ofDigits_singleton, List.length_reverse, hexDigits_length, ← Nat.mod_pow_succ]

theorem hexSymbol_toNat {d : Nat} (digit : d < 16) :
    (hexSymbol d).toNat = if 0xA ≤ d then d - 0xA + 97 else d + 48 := by
  rw [hexSymbol, UInt8.toNat_ofNat']
  split_ifs <;> omega

theorem hexValue_symbol {d : Nat} (digit : d < 16) : hexValue (hexSymbol d) = some d := by
  have char := hexSymbol_toNat digit
  simp only [hexValue, UInt8.le_iff_toNat_le, char, UInt8.reduceToNat]
  split_ifs <;> first | omega | (congr 1 <;> omega)

theorem hexSymbol_ne_zero {d : Nat} (digit : d < 16) : hexSymbol d ≠ 0 := by
  intro zero
  have char := hexSymbol_toNat digit
  rw [zero] at char
  split_ifs at char <;> simp at char

/-! ### Stores -/

theorem storeAll_cons (m : Memory) (dest j : Nat) (c : UInt8) (stores : List (Nat × UInt8)) :
    storeAll m dest ((j, c) :: stores) =
      storeAll (m.write8 (wrap32 (dest + j)) c.toNat) dest stores := rfl

theorem hexStores_false (n rounds j : Nat) :
    hexStores n (rounds + 1) j false =
      (j, hexSymbol (n >>> (4 * (rounds + 1)) &&& 0xF)) :: hexStores n rounds (j + 1) false := by
  rw [hexStores, if_neg (by simp)]

theorem hexStores_offsets (n rounds j : Nat) (noZeroes : Bool) {k : Nat}
    (member : k ∈ (hexStores n rounds j noZeroes).map Prod.fst) : j ≤ k ∧ k ≤ j + rounds := by
  induction rounds generalizing j noZeroes with
  | zero =>
      have same : k = j := by simpa [hexStores] using member
      omega
  | succ rounds inductionHypothesis =>
      rw [hexStores] at member
      split_ifs at member with skipped
      · have later := inductionHypothesis (j + 1) noZeroes member
        omega
      · rcases List.mem_cons.mp member with rfl | rest
        · exact ⟨Nat.le_refl _, Nat.le_add_right _ _⟩
        · have later := inductionHypothesis (j + 1) false rest
          omega

/-- Past the leading zeros every place is stored to. -/
theorem hexStores_running (n rounds j : Nat) (m : Memory) (fits : dest + j + rounds < 2 ^ 32) :
    Bytes (storeAll m dest (hexStores n rounds j false)) (dest + j)
        ((hexDigits n rounds).map hexSymbol) ∧
      (∀ k, j ≤ k → k ≤ j + rounds → k ∈ (hexStores n rounds j false).map Prod.fst) ∧
      ∀ a, a < dest + j ∨ dest + j + rounds < a →
        storeAll m dest (hexStores n rounds j false) a = m a := by
  induction rounds generalizing j m with
  | zero =>
      have stored : storeAll m dest (hexStores n 0 j false) =
          m.write8 (dest + j) (hexSymbol (n % 16)).toNat := by
        have digit := nibble_eq n 0
        rw [Nat.mul_zero, Nat.shiftRight_zero, pow_zero, Nat.div_one] at digit
        simp only [storeAll, hexStores, List.foldl_cons, List.foldl_nil, digit]
        rw [wrap32_of_lt (by omega)]
      rw [stored]
      refine ⟨bytes_cons.mpr ⟨?_, nofun⟩, fun k above below => ?_, fun a outside => ?_⟩
      · rw [Memory.write8_same, UInt8.ofNat_toNat]
      · simp [hexStores, Nat.le_antisymm below above]
      · exact Memory.write8_of_ne m _ (by omega)
  | succ rounds inductionHypothesis =>
      have unfolded : hexStores n (rounds + 1) j false =
          (j, hexSymbol (n / 16 ^ (rounds + 1) % 16)) :: hexStores n rounds (j + 1) false := by
        rw [hexStores_false, nibble_eq]
      have stored : storeAll m dest (hexStores n (rounds + 1) j false) =
          storeAll (m.write8 (dest + j) (hexSymbol (n / 16 ^ (rounds + 1) % 16)).toNat) dest
            (hexStores n rounds (j + 1) false) := by
        rw [unfolded, storeAll_cons, wrap32_of_lt (by omega)]
      obtain ⟨bytes, offsets, frame⟩ := inductionHypothesis (j + 1)
        (m.write8 (dest + j) (hexSymbol (n / 16 ^ (rounds + 1) % 16)).toNat) (by omega)
      rw [stored]
      refine ⟨bytes_cons.mpr ⟨?_, bytes⟩, fun k above below => ?_, fun a outside => ?_⟩
      · rw [frame _ (by omega), Memory.write8_same, UInt8.ofNat_toNat]
      · rw [unfolded, List.map_cons, List.mem_cons]
        rcases Nat.eq_or_lt_of_le above with rfl | later
        · exact Or.inl rfl
        · exact Or.inr (offsets k later (by omega))
      · rw [frame a (by omega), Memory.write8_of_ne m _ (by omega)]

/-- The first digit decides whether the first place is stored to. -/
theorem hexStores_first (small : n < 2 ^ 32) :
    (2 ^ 28 ≤ n ∧ hexStores n 7 0 true = hexStores n 7 0 false) ∨
      (n < 2 ^ 28 ∧ hexStores n 7 0 true = hexStores n 6 1 true) := by
  have digit := nibble_eq n 7
  have power : (16 : Nat) ^ 7 = 2 ^ 28 := by decide
  rw [power] at digit
  rcases Nat.lt_or_ge n (2 ^ 28) with below | above
  · right
    rw [Nat.div_eq_of_lt below] at digit
    exact ⟨below, by rw [hexStores, digit, if_pos ⟨rfl, rfl⟩]⟩
  · left
    have nonzero : n >>> (4 * (6 + 1)) &&& 0xF ≠ 0 := by
      rw [digit]
      omega
    refine ⟨above, ?_⟩
    rw [hexStores_false n 6 0, hexStores, if_neg fun both => nonzero both.1]

/-! ### The numeral -/

/-- `i2hex` writes a numeral exactly when its number has eight digits and the byte behind them
is a NUL already. -/
theorem i2hex_writes_iff (m : Memory) {val dest : Nat} (small : val < 2 ^ 32)
    (room : dest + 9 ≤ 2 ^ 32) (len : Int) :
    WritesHex m val dest len ↔ 2 ^ 28 ≤ val ∧ m (dest + 8) = 0 := by
  obtain ⟨bytes, offsets, frame⟩ := @hexStores_running dest val 7 0 m (by omega)
  rw [Nat.add_zero] at bytes frame
  have behind := frame (dest + 8) (by omega)
  have length : ((hexDigits val 7).map hexSymbol).length = 8 := by
    rw [List.length_map, hexDigits_length]
  have nonzero : ∀ c, c ∈ (hexDigits val 7).map hexSymbol → c ≠ 0 := by
    intro c member
    obtain ⟨d, isDigit, rfl⟩ := List.mem_map.mp member
    exact hexSymbol_ne_zero (mem_hexDigits isDigit)
  unfold WritesHex i2hex
  rcases hexStores_first small with ⟨eight, running⟩ | ⟨fewer, skipped⟩
  · rw [running, and_iff_right eight, ← behind]
    constructor
    · rintro ⟨text, string, inside, -⟩
      obtain ⟨-, -, nul⟩ := text_iff.mp string
      have short : text.length ≤ 8 := by
        by_contra long
        have last := hexStores_offsets val 7 0 false (inside 8 (by omega))
        omega
      rcases Nat.lt_or_eq_of_le short with early | exact_length
      · have digit := bytes text.length (by omega)
        rw [nul] at digit
        exact absurd rfl (nonzero 0 (List.mem_of_getElem? digit))
      · rwa [exact_length] at nul
    · intro nul
      refine ⟨(hexDigits val 7).map hexSymbol, text_iff.mpr ⟨bytes, nonzero, ?_⟩, ?_, ?_⟩
      · rw [length]
        exact nul
      · intro k inside
        exact offsets k (Nat.zero_le k) (by omega)
      · have read : readNumeral hexValue 16 ((hexDigits val 7).reverse.map hexSymbol).reverse =
            some (Nat.ofDigits 16 (hexDigits val 7).reverse) :=
          readNumeral_map_reverse (by simp [hexDigits]) fun d member =>
            ⟨mem_hexDigits (List.mem_reverse.mp member),
              hexValue_symbol (mem_hexDigits (List.mem_reverse.mp member))⟩
        rw [List.map_reverse, List.reverse_reverse, ofDigits_hexDigits,
          Nat.mod_eq_of_lt (by simpa using small)] at read
        exact read
  · rw [skipped]
    constructor
    · rintro ⟨text, -, inside, read⟩
      have nonempty : text ≠ [] := by
        rintro rfl
        exact absurd read (by simp [readNumeral])
      have first := hexStores_offsets val 6 1 true (inside 0 (List.length_pos_iff.mpr nonempty))
      omega
    · rintro ⟨eight, -⟩
      omega

/-- Eight digits into a buffer of zeros. -/
theorem i2hex_writes_iff_eight :
    WritesHex (fun _ => 0) 0xDEADBEEF 0x1000 8 ↔
      2 ^ 28 ≤ 0xDEADBEEF ∧ (fun _ => 0 : Memory) (0x1000 + 8) = 0 :=
  i2hex_writes_iff (fun _ => 0) (by decide) (by decide) 8

/-- The number 1 in a buffer of zeros: its one digit is behind seven NULs. -/
theorem one_reads_as_nothing :
    ¬ ∀ (m : Memory) (val dest : Nat) (len : Int), val < 2 ^ 32 → dest + 9 ≤ 2 ^ 32 →
      WritesHex m val dest len := by
  intro always
  obtain ⟨text, string, inside, read⟩ := always (fun _ => 0) 1 0x1000 8 (by decide) (by decide)
  have empty : text = [] := by
    refine string.nul_iff.mp ?_
    decide
  rw [empty] at read
  exact absurd read (by decide)

end Balloon.Libc
