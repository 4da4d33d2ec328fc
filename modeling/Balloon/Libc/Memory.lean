import Balloon.Foundation.ByteMemory

/-!
Owns 32-bit unsigned arithmetic and the byte loops `memset`, `memcpy` and `memmove` of
utils.c, with the block operations they amount to when no pointer wraps.
-/

namespace Balloon.Libc

open Balloon.Foundation

/-- The value of a `uint32_t` expression. -/
def wrap32 (n : Nat) : Nat := n % 2 ^ 32

theorem wrap32_lt (n : Nat) : wrap32 n < 2 ^ 32 := Nat.mod_lt _ (by decide)

theorem wrap32_of_lt {n : Nat} (small : n < 2 ^ 32) : wrap32 n = n := Nat.mod_eq_of_lt small

/-- `a - b` on `uint32_t` values. -/
def sub32 (a b : Nat) : Nat := wrap32 (a + (2 ^ 32 - b))

theorem sub32_of_le {a b : Nat} (small : a < 2 ^ 32) (le : b ≤ a) : sub32 a b = a - b := by
  simp only [sub32, wrap32]
  omega

/-- `for ( ; len != 0; len--) *temp++ = val;` -/
def memset (m : Memory) (dest val : Nat) : Nat → Memory
  | 0 => m
  | len + 1 => memset (m.write8 dest val) (wrap32 (dest + 1)) val len

/-- `for(; len != 0; len--) *dp++ = *sp++;` -/
def memcpy (m : Memory) (dest src : Nat) : Nat → Memory
  | 0 => m
  | len + 1 => memcpy (m.write8 dest (m src).toNat) (wrap32 (dest + 1)) (wrap32 (src + 1)) len

theorem memset_eq_fill (m : Memory) {dest len : Nat} (val : Nat) (fits : dest + len ≤ 2 ^ 32) :
    memset m dest val len = m.fill dest len (UInt8.ofNat val) := by
  induction len generalizing m dest with
  | zero =>
      funext b
      rw [Memory.fill_outside m _ (by omega)]
      rfl
  | succ len inductionHypothesis =>
      rw [memset]
      cases len with
      | zero =>
          funext b
          by_cases atDest : b = dest
          · subst atDest
            rw [Memory.fill_inside m _ (by omega)]
            exact Memory.write8_same m b val
          · rw [Memory.fill_outside m _ (by omega)]
            exact Memory.write8_of_ne m val atDest
      | succ len =>
          rw [wrap32_of_lt (by omega), inductionHypothesis _ (by omega)]
          funext b
          rcases Nat.lt_trichotomy b dest with below | rfl | above
          · rw [Memory.fill_outside _ _ (by omega), Memory.fill_outside _ _ (by omega),
              Memory.write8_of_ne m val (by omega)]
          · rw [Memory.fill_outside _ _ (by omega), Memory.fill_inside _ _ (by omega),
              Memory.write8_same]
          · by_cases inside : b < dest + (len + 1 + 1)
            · rw [Memory.fill_inside _ _ (by omega), Memory.fill_inside _ _ (by omega)]
            · rw [Memory.fill_outside _ _ (by omega), Memory.fill_outside _ _ (by omega),
                Memory.write8_of_ne m val (by omega)]

/-- A copy writes its destination only. -/
theorem memcpy_outside (m : Memory) {dest src len a : Nat} (fits : dest + len ≤ 2 ^ 32)
    (outside : a < dest ∨ dest + len ≤ a) : memcpy m dest src len a = m a := by
  induction len generalizing m dest src with
  | zero => rfl
  | succ len inductionHypothesis =>
      rw [memcpy]
      have untouched : (m.write8 dest (m src).toNat) a = m a :=
        Memory.write8_of_ne m _ (by omega)
      cases len with
      | zero => exact untouched
      | succ len =>
          rw [wrap32_of_lt (show dest + 1 < 2 ^ 32 by omega),
            inductionHypothesis _ (by omega) (by omega), untouched]

theorem wrap32_add (a b : Nat) : wrap32 (wrap32 a + b) = wrap32 (a + b) := Nat.mod_add_mod a _ b

/-- A copy delivers the source bytes when it does not overwrite them; the source
may wrap around. -/
theorem memcpy_inside (m : Memory) {dest src len k : Nat} (fits : dest + len ≤ 2 ^ 32)
    (source : src < 2 ^ 32)
    (apart : ∀ i j, i < len → j < len → wrap32 (src + i) ≠ dest + j) (inside : k < len) :
    memcpy m dest src len (dest + k) = m (wrap32 (src + k)) := by
  induction len generalizing m dest src k with
  | zero => contradiction
  | succ len inductionHypothesis =>
      rw [memcpy]
      cases k with
      | zero =>
          rw [Nat.add_zero dest, Nat.add_zero src, wrap32_of_lt source]
          have first : (m.write8 dest (m src).toNat) dest = m src := by simp
          cases len with
          | zero => exact first
          | succ len =>
              have next : wrap32 (dest + 1) = dest + 1 := wrap32_of_lt (by omega)
              rw [next]
              exact (memcpy_outside _ (by omega) (by omega)).trans first
      | succ k =>
          have apartRest : ∀ i j, i < len → j < len →
              wrap32 (wrap32 (src + 1) + i) ≠ dest + 1 + j := by
            intro i j belowI belowJ
            have step := apart (i + 1) (j + 1) (by omega) (by omega)
            rw [wrap32_add, show src + 1 + i = src + (i + 1) by omega,
              show dest + 1 + j = dest + (j + 1) by omega]
            exact step
          rw [wrap32_of_lt (show dest + 1 < 2 ^ 32 by omega),
            show dest + (k + 1) = dest + 1 + k by omega,
            inductionHypothesis _ (by omega) (wrap32_lt _) apartRest (by omega), wrap32_add,
            show src + 1 + k = src + (k + 1) by omega]
          exact Memory.write8_of_ne m _ (by simpa using apart (k + 1) 0 inside (by omega))

/-- A forward copy that writes no source byte before it reads it is a block copy. -/
theorem memcpy_eq_copy_ahead (m : Memory) {dest src len : Nat} (destFits : dest + len ≤ 2 ^ 32)
    (srcFits : src + len ≤ 2 ^ 32) (ahead : dest ≤ src ∨ src + len ≤ dest) :
    memcpy m dest src len = m.copy dest src len := by
  induction len generalizing m dest src with
  | zero =>
      funext b
      rw [Memory.copy_outside m (by omega)]
      rfl
  | succ len inductionHypothesis =>
      rw [memcpy]
      cases len with
      | zero =>
          funext b
          by_cases atDest : b = dest
          · subst atDest
            rw [Memory.copy_inside m (by omega), Nat.sub_self]
            simp [memcpy]
          · rw [Memory.copy_outside m (by omega)]
            exact Memory.write8_of_ne m _ atDest
      | succ len =>
          rw [wrap32_of_lt (by omega), wrap32_of_lt (by omega),
            inductionHypothesis _ (by omega) (by omega) (by omega)]
          funext b
          rcases Nat.lt_trichotomy b dest with below | rfl | above
          · rw [Memory.copy_outside _ (by omega), Memory.copy_outside _ (by omega),
              Memory.write8_of_ne m _ (by omega)]
          · rw [Memory.copy_outside _ (by omega), Memory.copy_inside _ (by omega)]
            simp
          · by_cases inside : b < dest + (len + 1 + 1)
            · rw [Memory.copy_inside _ (by omega), Memory.copy_inside _ (by omega),
                Memory.write8_of_ne m _ (by omega)]
              congr 1
              omega
            · rw [Memory.copy_outside _ (by omega), Memory.copy_outside _ (by omega),
                Memory.write8_of_ne m _ (by omega)]

/-- A forward copy between disjoint ranges is a block copy. -/
theorem memcpy_eq_copy (m : Memory) {dest src len : Nat} (destFits : dest + len ≤ 2 ^ 32)
    (srcFits : src + len ≤ 2 ^ 32) (disjoint : dest + len ≤ src ∨ src + len ≤ dest) :
    memcpy m dest src len = m.copy dest src len :=
  memcpy_eq_copy_ahead m destFits srcFits (by omega)

/-! ### `memmove` -/

/-- `while ( n-- ) *--_dest = *--_src;` -/
def moveDown (m : Memory) (dest src : Nat) : Nat → Memory
  | 0 => m
  | n + 1 =>
      let dest := sub32 dest 1
      let src := sub32 src 1
      moveDown (m.write8 dest (m src).toNat) dest src n

/-- `memmove`: the memory and the returned pointer. Its other loop is the one of `memcpy`. -/
def memmove (m : Memory) (dest src n : Nat) : Memory × Nat :=
  if dest < src then (memcpy m dest src n, dest)
  else (moveDown m (wrap32 (dest + n)) (wrap32 (src + n)) n, dest)

/-- One step down from an end that may be the end of the address space. -/
theorem sub32_wrap32_succ {a n : Nat} (fits : a + (n + 1) ≤ 2 ^ 32) :
    sub32 (wrap32 (a + (n + 1))) 1 = a + n := by
  simp only [sub32, wrap32]
  omega

/-- A backward copy from `src` up to `dest`: what it has written is above what it reads. -/
theorem moveDown_eq_copy (m : Memory) {dest src n : Nat} (destFits : dest + n ≤ 2 ^ 32)
    (srcFits : src + n ≤ 2 ^ 32) (behind : src ≤ dest) :
    moveDown m (wrap32 (dest + n)) (wrap32 (src + n)) n = m.copy dest src n := by
  induction n generalizing m with
  | zero =>
      funext b
      rw [Memory.copy_outside m (by omega)]
      rfl
  | succ n inductionHypothesis =>
      have last : wrap32 (dest + n) = dest + n := wrap32_of_lt (by omega)
      have lastRead : wrap32 (src + n) = src + n := wrap32_of_lt (by omega)
      have rest := inductionHypothesis (m.write8 (dest + n) (m (src + n)).toNat) (by omega) (by omega)
      rw [last, lastRead] at rest
      rw [moveDown, sub32_wrap32_succ destFits, sub32_wrap32_succ srcFits]
      refine rest.trans ?_
      funext b
      by_cases below : dest ≤ b ∧ b < dest + n
      · rw [Memory.copy_inside _ below, Memory.copy_inside _ (by omega),
          Memory.write8_of_ne m _ (by omega)]
      · rw [Memory.copy_outside _ (by omega)]
        by_cases atLast : b = dest + n
        · subst atLast
          rw [Memory.copy_inside _ (by omega), Nat.add_sub_cancel_left]
          simp
        · rw [Memory.copy_outside _ (by omega), Memory.write8_of_ne m _ atLast]

theorem memmove_eq_copy (m : Memory) {dest src n : Nat} (destFits : dest + n ≤ 2 ^ 32)
    (srcFits : src + n ≤ 2 ^ 32) : memmove m dest src n = (m.copy dest src n, dest) := by
  unfold memmove
  by_cases before : dest < src
  · rw [if_pos before, memcpy_eq_copy_ahead m destFits srcFits (Or.inl (Nat.le_of_lt before))]
  · rw [if_neg before, moveDown_eq_copy m destFits srcFits (Nat.not_lt.mp before)]

/-- `memmove` moves the bytes of `src`, as they were, to `dest` however the two overlap. -/
theorem memmove_moves (m : Memory) {dest src n : Nat} (destFits : dest + n ≤ 2 ^ 32)
    (srcFits : src + n ≤ 2 ^ 32) :
    (∀ k, k < n → (memmove m dest src n).1 (dest + k) = m (src + k)) ∧
      (∀ a, a < dest ∨ dest + n ≤ a → (memmove m dest src n).1 a = m a) ∧
      (memmove m dest src n).2 = dest := by
  rw [memmove_eq_copy m destFits srcFits]
  refine ⟨fun k inside => ?_, fun a outside => Memory.copy_outside m outside, rfl⟩
  dsimp only
  rw [Memory.copy_inside m (by omega), Nat.add_sub_cancel_left]

/-- A range moved up by one byte, to the last byte of the address space. -/
theorem memmove_moves_overlap :
    (∀ k, k < 3 → (memmove (fun a => UInt8.ofNat a) 0xFFFFFFFD 0xFFFFFFFC 3).1 (0xFFFFFFFD + k) =
        UInt8.ofNat (0xFFFFFFFC + k)) ∧
      (∀ a, a < 0xFFFFFFFD ∨ 0xFFFFFFFD + 3 ≤ a →
        (memmove (fun a => UInt8.ofNat a) 0xFFFFFFFD 0xFFFFFFFC 3).1 a = UInt8.ofNat a) ∧
      (memmove (fun a => UInt8.ofNat a) 0xFFFFFFFD 0xFFFFFFFC 3).2 = 0xFFFFFFFD :=
  memmove_moves (fun a => UInt8.ofNat a) (by decide) (by decide)

-- The loops run for thousands of steps; only the rules above speak about them.
attribute [irreducible] memset memcpy moveDown

end Balloon.Libc
