import Balloon.Foundation.ByteMemory

/-!
Owns words in memory as lists: the 32-bit words from an address on, what a push puts in front of
them, and which changes of memory leave them. It does not own a stack pointer.
-/

namespace Balloon.Foundation

namespace Memory

/-- The words from `a` on, the lowest address first. -/
def WordsAt (m : Memory) : Nat → List (BitVec 32) → Prop
  | _, [] => True
  | a, word :: words => m.read32 a = word.toNat ∧ WordsAt m (a + 4) words

variable {m m' : Memory} {a : Nat} {word : BitVec 32} {words : List (BitVec 32)}

theorem WordsAt.congr (held : m.WordsAt a words)
    (same : ∀ b, a ≤ b → b < a + 4 * words.length → m' b = m b) : m'.WordsAt a words := by
  induction words generalizing a with
  | nil => trivial
  | cons word words inductionHypothesis =>
      rw [List.length_cons] at same
      have first : m'.read32 a = m.read32 a :=
        read32_congr fun k bound => same (a + k) (by omega) (by omega)
      refine ⟨first.trans held.1, inductionHypothesis held.2 ?_⟩
      intro b above below
      exact same b (by omega) (by omega)

/-- A word pushed below the others. -/
theorem WordsAt.push (held : m.WordsAt (a + 4) words) (word : BitVec 32) :
    (m.write32 a word.toNat).WordsAt a (word :: words) := by
  constructor
  · rw [read32_write32_same]
    exact Nat.mod_eq_of_lt word.isLt
  · apply held.congr
    intro b above below
    exact write32_outside m _ (by omega)

theorem wordsAt_append {first second : List (BitVec 32)} :
    m.WordsAt a (first ++ second) ↔
      m.WordsAt a first ∧ m.WordsAt (a + 4 * first.length) second := by
  induction first generalizing a with
  | nil => simp [WordsAt]
  | cons word first inductionHypothesis =>
      rw [List.cons_append, WordsAt, WordsAt, inductionHypothesis, List.length_cons, and_assoc,
        show a + 4 + 4 * first.length = a + 4 * (first.length + 1) by omega]

/-- The word at an index. -/
theorem WordsAt.get (held : m.WordsAt a words) {i : Nat} (found : words[i]? = some word) :
    m.read32 (a + 4 * i) = word.toNat := by
  induction words generalizing a i with
  | nil => simp at found
  | cons first words inductionHypothesis =>
      cases i with
      | zero =>
          rw [List.getElem?_cons_zero] at found
          exact Option.some.inj found ▸ held.1
      | succ i =>
          rw [List.getElem?_cons_succ] at found
          rw [← inductionHypothesis held.2 found]
          congr 1
          omega

end Memory

end Balloon.Foundation
