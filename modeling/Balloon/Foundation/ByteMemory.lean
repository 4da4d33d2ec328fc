import Mathlib.Algebra.Group.Nat.Defs
import Mathlib.Algebra.Group.Int.Defs
import Mathlib.Logic.Function.Basic

/-!
Owns byte-addressed memory: single bytes, little-endian 32-bit words, filling
a block and copying a block, and what a later read sees after each of them. It
does not own address arithmetic modulo a word size: addresses are natural
numbers and every access names its bytes explicitly.
-/

namespace Balloon.Foundation

/-- Byte-addressed memory. -/
abbrev Memory := Nat → UInt8

namespace Memory

/-- The memory after the low byte of `v` is stored at `a`. -/
def write8 (m : Memory) (a v : Nat) : Memory := Function.update m a (UInt8.ofNat v)

/-- The little-endian 32-bit word at `a`. -/
def read32 (m : Memory) (a : Nat) : Nat :=
  (m a).toNat + 0x100 * (m (a + 1)).toNat + 0x10000 * (m (a + 2)).toNat +
    0x1000000 * (m (a + 3)).toNat

/-- The memory after the low 32 bits of `v` are stored little-endian at `a`. -/
def write32 (m : Memory) (a v : Nat) : Memory :=
  (((m.write8 a v).write8 (a + 1) (v / 0x100)).write8 (a + 2) (v / 0x10000)).write8
    (a + 3) (v / 0x1000000)

/-- The memory after the `n` bytes from `a` on are set to `v`. -/
def fill (m : Memory) (a n : Nat) (v : UInt8) : Memory :=
  fun b => if a ≤ b ∧ b < a + n then v else m b

/-- The memory after the `n` bytes from `src` on are written from `dst` on. -/
def copy (m : Memory) (dst src n : Nat) : Memory :=
  fun b => if dst ≤ b ∧ b < dst + n then m (src + (b - dst)) else m b

/-- The memory after `bytes` are stored from `a` on. -/
def storeBytes (m : Memory) (a : Nat) (bytes : List UInt8) : Memory :=
  fun b => if a ≤ b ∧ b < a + bytes.length then bytes.getD (b - a) 0 else m b

/-- The `n` bytes from `a` on. -/
def bytesAt (m : Memory) (a n : Nat) : List UInt8 := (List.range n).map fun k => m (a + k)

/-- Two memories hold the same bytes wherever `p` holds. -/
def AgreeOn (p : Nat → Prop) (m m' : Memory) : Prop := ∀ a, p a → m' a = m a

theorem AgreeOn.refl (p : Nat → Prop) (m : Memory) : AgreeOn p m m := fun _ _ => rfl

theorem AgreeOn.trans {p : Nat → Prop} {m₁ m₂ m₃ : Memory} (first : AgreeOn p m₁ m₂)
    (second : AgreeOn p m₂ m₃) : AgreeOn p m₁ m₃ :=
  fun a inside => (second a inside).trans (first a inside)

theorem AgreeOn.mono {p q : Nat → Prop} {m m' : Memory} (agree : AgreeOn q m m')
    (weaker : ∀ a, p a → q a) : AgreeOn p m m' :=
  fun a inside => agree a (weaker a inside)

/-! ### Bytes and words -/

@[simp] theorem write8_same (m : Memory) (a v : Nat) : (m.write8 a v) a = UInt8.ofNat v := by
  simp [write8]

theorem write8_of_ne (m : Memory) {a b : Nat} (v : Nat) (different : b ≠ a) :
    (m.write8 a v) b = m b := by
  simp [write8, different]

theorem read32_lt (m : Memory) (a : Nat) : m.read32 a < 2 ^ 32 := by
  have b0 := (m a).toNat_lt
  have b1 := (m (a + 1)).toNat_lt
  have b2 := (m (a + 2)).toNat_lt
  have b3 := (m (a + 3)).toNat_lt
  unfold read32
  omega

/-- Words at two places that hold the same bytes. -/
theorem read32_of_bytes {m m' : Memory} {a b : Nat} (same : ∀ k, k < 4 → m' (b + k) = m (a + k)) :
    m'.read32 b = m.read32 a := by
  have s0 := same 0 (by omega)
  have s1 := same 1 (by omega)
  have s2 := same 2 (by omega)
  have s3 := same 3 (by omega)
  simp only [Nat.add_zero] at s0
  simp only [read32, s0, s1, s2, s3]

theorem read32_congr {m m' : Memory} {a : Nat} (same : ∀ k, k < 4 → m' (a + k) = m (a + k)) :
    m'.read32 a = m.read32 a := read32_of_bytes same

theorem read32_zero {m : Memory} {a : Nat} (zero : ∀ k, k < 4 → m (a + k) = 0) :
    m.read32 a = 0 := by
  have z0 := zero 0 (by omega)
  rw [Nat.add_zero] at z0
  simp only [read32, z0, zero 1 (by omega), zero 2 (by omega), zero 3 (by omega)]
  rfl

/-- A word inside the region on which two memories agree. -/
theorem AgreeOn.read32 {p : Nat → Prop} {m m' : Memory} (agree : AgreeOn p m m') {a : Nat}
    (inside : ∀ k, k < 4 → p (a + k)) : m'.read32 a = m.read32 a :=
  read32_congr fun k bound => agree _ (inside k bound)

theorem write32_outside (m : Memory) {a b : Nat} (v : Nat) (outside : b < a ∨ a + 4 ≤ b) :
    (m.write32 a v) b = m b := by
  unfold write32
  rw [write8_of_ne _ _ (by omega), write8_of_ne _ _ (by omega), write8_of_ne _ _ (by omega),
    write8_of_ne _ _ (by omega)]

theorem write32_byte (m : Memory) (a v : Nat) :
    (m.write32 a v) a = UInt8.ofNat v ∧ (m.write32 a v) (a + 1) = UInt8.ofNat (v / 0x100) ∧
      (m.write32 a v) (a + 2) = UInt8.ofNat (v / 0x10000) ∧
      (m.write32 a v) (a + 3) = UInt8.ofNat (v / 0x1000000) := by
  unfold write32
  refine ⟨?_, ?_, ?_, write8_same _ _ _⟩
  · rw [write8_of_ne _ _ (by omega), write8_of_ne _ _ (by omega), write8_of_ne _ _ (by omega),
      write8_same]
  · rw [write8_of_ne _ _ (by omega), write8_of_ne _ _ (by omega), write8_same]
  · rw [write8_of_ne _ _ (by omega), write8_same]

@[simp] theorem read32_write32_same (m : Memory) (a v : Nat) :
    (m.write32 a v).read32 a = v % 2 ^ 32 := by
  obtain ⟨b0, b1, b2, b3⟩ := write32_byte m a v
  simp only [read32, b0, b1, b2, b3, UInt8.toNat_ofNat']
  omega

/-- Storing the word read at `b` copies its bytes. -/
theorem write32_read32_byte (m : Memory) (a b : Nat) {o : Nat} (inWord : o < 4) :
    (m.write32 a (m.read32 b)) (a + o) = m (b + o) := by
  have b0 := (m b).toNat_lt
  have b1 := (m (b + 1)).toNat_lt
  have b2 := (m (b + 2)).toNat_lt
  have b3 := (m (b + 3)).toNat_lt
  obtain ⟨w0, w1, w2, w3⟩ := write32_byte m a (m.read32 b)
  have cases : o = 0 ∨ o = 1 ∨ o = 2 ∨ o = 3 := by omega
  rcases cases with rfl | rfl | rfl | rfl
  · rw [Nat.add_zero, Nat.add_zero, w0]
    apply UInt8.toNat.inj
    simp only [read32, UInt8.toNat_ofNat']
    omega
  · rw [w1]
    apply UInt8.toNat.inj
    simp only [read32, UInt8.toNat_ofNat']
    omega
  · rw [w2]
    apply UInt8.toNat.inj
    simp only [read32, UInt8.toNat_ofNat']
    omega
  · rw [w3]
    apply UInt8.toNat.inj
    simp only [read32, UInt8.toNat_ofNat']
    omega

/-- Storing the word that is there changes nothing. -/
theorem write32_read32 (m : Memory) (a : Nat) : m.write32 a (m.read32 a) = m := by
  funext b
  by_cases outside : b < a ∨ a + 4 ≤ b
  · exact write32_outside m _ outside
  · obtain ⟨o, rfl⟩ : ∃ o, b = a + o := ⟨b - a, by omega⟩
    exact write32_read32_byte m a a (by omega)

theorem read32_write32_disjoint (m : Memory) {a b : Nat} (v : Nat)
    (disjoint : b + 4 ≤ a ∨ a + 4 ≤ b) : (m.write32 a v).read32 b = m.read32 b :=
  read32_congr fun k bound => write32_outside m v (by omega)

/-- Two word-aligned words are equal or disjoint, so one store changes one
aligned word. -/
theorem read32_write32_aligned (m : Memory) {a b : Nat} (v : Nat) (alignedStore : a % 4 = 0)
    (alignedLoad : b % 4 = 0) :
    (m.write32 a v).read32 b = if b = a then v % 2 ^ 32 else m.read32 b := by
  by_cases same : b = a
  · rw [if_pos same, same, read32_write32_same]
  · rw [if_neg same, read32_write32_disjoint m v (by omega)]

/-! ### Blocks -/

theorem fill_inside (m : Memory) {a n b : Nat} (v : UInt8) (inside : a ≤ b ∧ b < a + n) :
    (m.fill a n v) b = v := if_pos inside

theorem fill_outside (m : Memory) {a n b : Nat} (v : UInt8) (outside : b < a ∨ a + n ≤ b) :
    (m.fill a n v) b = m b := if_neg (by omega)

theorem read32_fill_zero (m : Memory) {a n b : Nat} (inside : a ≤ b ∧ b + 4 ≤ a + n) :
    (m.fill a n 0).read32 b = 0 :=
  read32_zero fun k bound => fill_inside m 0 (by omega)

theorem read32_fill_disjoint (m : Memory) {a n b : Nat} (v : UInt8)
    (disjoint : b + 4 ≤ a ∨ a + n ≤ b) : (m.fill a n v).read32 b = m.read32 b :=
  read32_congr fun k bound => fill_outside m v (by omega)

theorem copy_inside (m : Memory) {dst src n b : Nat} (inside : dst ≤ b ∧ b < dst + n) :
    (m.copy dst src n) b = m (src + (b - dst)) := if_pos inside

theorem copy_outside (m : Memory) {dst src n b : Nat} (outside : b < dst ∨ dst + n ≤ b) :
    (m.copy dst src n) b = m b := if_neg (by omega)

theorem read32_copy_disjoint (m : Memory) {dst src n b : Nat}
    (disjoint : b + 4 ≤ dst ∨ dst + n ≤ b) : (m.copy dst src n).read32 b = m.read32 b :=
  read32_congr fun k bound => copy_outside m (by omega)

theorem storeBytes_inside (m : Memory) {a b : Nat} {bytes : List UInt8}
    (inside : a ≤ b ∧ b < a + bytes.length) :
    (m.storeBytes a bytes) b = bytes.getD (b - a) 0 := if_pos inside

theorem storeBytes_outside (m : Memory) {a b : Nat} {bytes : List UInt8}
    (outside : b < a ∨ a + bytes.length ≤ b) : (m.storeBytes a bytes) b = m b :=
  if_neg (by omega)

/-- What is stored reads back. -/
theorem bytesAt_storeBytes (m : Memory) (a : Nat) (bytes : List UInt8) :
    (m.storeBytes a bytes).bytesAt a bytes.length = bytes := by
  apply List.ext_getElem
  · simp [bytesAt]
  · intro k bound inside
    have stored := @storeBytes_inside m a (a + k) bytes (by omega)
    rw [Nat.add_sub_cancel_left, List.getD_eq_getElem?_getD, List.getElem?_eq_getElem inside,
        Option.getD_some] at stored
    simpa [bytesAt] using stored

/-- A store sees nothing of what was in its place. -/
theorem storeBytes_congr {m m' : Memory} {a : Nat} {bytes : List UInt8}
    (agree : AgreeOn (fun b => b < a ∨ a + bytes.length ≤ b) m m') :
    m'.storeBytes a bytes = m.storeBytes a bytes := by
  funext b
  by_cases outside : b < a ∨ a + bytes.length ≤ b
  · rw [storeBytes_outside m' outside, storeBytes_outside m outside, agree b outside]
  · rw [storeBytes_inside m' (by omega), storeBytes_inside m (by omega)]

end Memory

end Balloon.Foundation
