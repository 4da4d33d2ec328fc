import Mathlib.Data.List.Infix
import Balloon.Libc.Strings

/-!
Owns `strcmp` of utils.c. Its loop advances both pointers in the test that ends it, so behind
a difference it looks at the characters after the two that differ, and asks only which of
them ends its string.
-/

namespace Balloon.Libc

open Balloon.Foundation

/-- The loop of `strcmp`: the pointers behind it. -/
def strcmpLoop (m : Memory) : Nat → Nat → Nat → Option (Nat × Nat)
  | 0, _, _ => none
  | fuel + 1, str1, str2 =>
      if m str1 ≠ 0 ∧ m str2 ≠ 0 then
        if m str1 = m str2 then strcmpLoop m fuel (wrap32 (str1 + 1)) (wrap32 (str2 + 1))
        else some (wrap32 (str1 + 1), wrap32 (str2 + 1))
      else some (str1, str2)

/-- `strcmp`; strings that agree through the whole address space keep the loop running. -/
def strcmp (m : Memory) (str1 str2 : Nat) : Option Nat :=
  (strcmpLoop m (2 ^ 32) str1 str2).map fun (str1, str2) =>
    if m str1 = 0 ∧ m str2 = 0 then 0 else if m str1 = 0 then 0xFFFFFFFF else 1

/-! ### Texts -/

/-- The string at `a` reads `s`. -/
def Text (m : Memory) : Nat → List UInt8 → Prop
  | a, [] => m a = 0
  | a, c :: s => m a = c ∧ c ≠ 0 ∧ Text m (a + 1) s

instance decidableText (m : Memory) : (a : Nat) → (s : List UInt8) → Decidable (Text m a s)
  | a, [] => inferInstanceAs (Decidable (m a = 0))
  | a, c :: s =>
      have := decidableText m (a + 1) s
      inferInstanceAs (Decidable (m a = c ∧ c ≠ 0 ∧ Text m (a + 1) s))

variable {m : Memory} {a b : Nat} {s t : List UInt8} {c d : UInt8}

theorem Text.nul_iff (text : Text m a s) : m a = 0 ↔ s = [] := by
  cases s with
  | nil => exact iff_of_true text rfl
  | cons c s => exact iff_of_false (text.1 ▸ text.2.1) (List.cons_ne_nil c s)

/-- Every string reads some text. -/
theorem CString.text {len : Nat} (string : CString m a len) : ∃ s, s.length = len ∧ Text m a s := by
  induction len generalizing a with
  | zero => exact ⟨[], rfl, string.nul⟩
  | succ len inductionHypothesis =>
      have rest : CString m (a + 1) len :=
        { nul := by
            have nul := string.nul
            rwa [Nat.add_comm len 1, ← Nat.add_assoc] at nul
          chars := fun k below => by
            have char := string.chars (k + 1) (by omega)
            rwa [Nat.add_comm k 1, ← Nat.add_assoc] at char }
      obtain ⟨s, length, text⟩ := inductionHypothesis rest
      exact ⟨m a :: s, by rw [List.length_cons, length],
        rfl, string.chars 0 (by omega), text⟩

/-- The bytes from `a` on. -/
def Bytes (m : Memory) (a : Nat) (s : List UInt8) : Prop :=
  ∀ k, k < s.length → s[k]? = some (m (a + k))

theorem bytes_cons : Bytes m a (c :: s) ↔ m a = c ∧ Bytes m (a + 1) s := by
  constructor
  · intro bytes
    refine ⟨(Option.some.inj (bytes 0 (Nat.succ_pos _))).symm, fun k inside => ?_⟩
    have byte := bytes (k + 1) (Nat.succ_lt_succ inside)
    rwa [List.getElem?_cons_succ, Nat.add_comm k 1, ← Nat.add_assoc] at byte
  · rintro ⟨first, rest⟩ k inside
    cases k with
    | zero => exact congrArg some first.symm
    | succ k =>
        rw [List.getElem?_cons_succ, rest k (Nat.lt_of_succ_lt_succ inside), Nat.add_assoc,
          Nat.add_comm 1 k]

/-- A text is its bytes and then a NUL. -/
theorem text_iff :
    Text m a s ↔ Bytes m a s ∧ (∀ c, c ∈ s → c ≠ 0) ∧ m (a + s.length) = 0 := by
  induction s generalizing a with
  | nil => exact ⟨fun nul => ⟨nofun, nofun, nul⟩, fun text => text.2.2⟩
  | cons c s inductionHypothesis =>
      rw [Text, inductionHypothesis, bytes_cons, List.forall_mem_cons, List.length_cons,
        Nat.add_assoc, Nat.add_comm 1 s.length]
      tauto

/-- A string reads one text. -/
theorem Text.unique (text : Text m a s) (other : Text m a t) : s = t := by
  induction s generalizing a t with
  | nil => exact (other.nul_iff.mp text).symm
  | cons c s inductionHypothesis =>
      cases t with
      | nil => exact absurd (text.1.symm.trans other) text.2.1
      | cons d t =>
          rw [text.1.symm.trans other.1, inductionHypothesis text.2.2 other.2.2]

/-! ### What `strcmp` returns -/

/-- The three returns, with the texts that the loop has left. -/
def outcome (s t : List UInt8) : Nat :=
  if s = [] ∧ t = [] then 0 else if s = [] then 0xFFFFFFFF else 1

/-- `strcmp` on texts. -/
def compared : List UInt8 → List UInt8 → Nat
  | c :: s, d :: t => if c = d then compared s t else outcome s t
  | s, t => outcome s t

theorem strcmpLoop_eq (fuel : Nat) (text : Text m a s) (other : Text m b t)
    (fits : a + s.length < 2 ^ 32) (otherFits : b + t.length < 2 ^ 32) (enough : s.length < fuel) :
    ∃ a' b' s' t', strcmpLoop m fuel a b = some (a', b') ∧ Text m a' s' ∧ Text m b' t' ∧
      compared s t = outcome s' t' := by
  induction fuel generalizing a b s t with
  | zero => omega
  | succ fuel inductionHypothesis =>
      simp only [strcmpLoop, ne_eq, text.nul_iff, other.nul_iff]
      cases s with
      | nil => exact ⟨a, b, [], t, by simp, text, other, rfl⟩
      | cons c s =>
          cases t with
          | nil => exact ⟨a, b, c :: s, [], by simp, text, other, rfl⟩
          | cons d t =>
              rw [List.length_cons] at fits otherFits enough
              rw [if_pos (by simp), text.1, other.1, wrap32_of_lt (show a + 1 < 2 ^ 32 by omega),
                wrap32_of_lt (show b + 1 < 2 ^ 32 by omega)]
              by_cases same : c = d
              · rw [if_pos same, compared, if_pos same]
                exact inductionHypothesis text.2.2 other.2.2 (by omega) (by omega) (by omega)
              · rw [if_neg same, compared, if_neg same]
                exact ⟨a + 1, b + 1, s, t, rfl, text.2.2, other.2.2, rfl⟩

/-- On two strings that lie in the address space `strcmp` returns. -/
theorem strcmp_eq (text : Text m a s) (other : Text m b t) (fits : a + s.length < 2 ^ 32)
    (otherFits : b + t.length < 2 ^ 32) : strcmp m a b = some (compared s t) := by
  obtain ⟨a', b', s', t', ran, left, right, result⟩ :=
    strcmpLoop_eq (2 ^ 32) text other fits otherFits (by omega)
  simp only [strcmp, ran, Option.map_some, left.nul_iff, right.nul_iff, result, outcome]

attribute [irreducible] strcmp

/-- Two texts that differ in their last character at most. -/
def Lookalike (text name : List UInt8) : Prop := ∃ u c d, name = u ++ [c] ∧ text = u ++ [d]

theorem lookalike_self (nonempty : t ≠ []) : Lookalike t t :=
  ⟨t.dropLast, t.getLast nonempty, t.getLast nonempty,
    (List.dropLast_append_getLast nonempty).symm, (List.dropLast_append_getLast nonempty).symm⟩

theorem lookalike_cons_self : Lookalike (c :: t) (c :: s) ↔ (s = [] ∧ t = []) ∨ Lookalike t s := by
  constructor
  · rintro ⟨u, x, y, left, right⟩
    cases u with
    | nil =>
        simp only [List.nil_append, List.cons.injEq] at left right
        exact Or.inl ⟨left.2, right.2⟩
    | cons e u =>
        simp only [List.cons_append, List.cons.injEq] at left right
        exact Or.inr ⟨u, x, y, left.2, right.2⟩
  · rintro (⟨rfl, rfl⟩ | ⟨u, x, y, rfl, rfl⟩)
    · exact ⟨[], c, c, rfl, rfl⟩
    · exact ⟨c :: u, x, y, rfl, rfl⟩

theorem lookalike_cons_ne (different : c ≠ d) : Lookalike (d :: t) (c :: s) ↔ s = [] ∧ t = [] := by
  constructor
  · rintro ⟨u, x, y, left, right⟩
    cases u with
    | nil =>
        simp only [List.nil_append, List.cons.injEq] at left right
        exact ⟨left.2, right.2⟩
    | cons e u =>
        simp only [List.cons_append, List.cons.injEq] at left right
        exact absurd (left.1.trans right.1.symm) different
  · rintro ⟨rfl, rfl⟩
    exact ⟨[], c, d, rfl, rfl⟩

theorem outcome_eq_zero_iff : outcome s t = 0 ↔ s = [] ∧ t = [] := by
  unfold outcome
  split_ifs with both first
  · exact iff_of_true rfl both
  · exact iff_of_false (by decide) both
  · exact iff_of_false (by decide) both

/-- The zero test takes a lookalike for the text. -/
theorem compared_eq_zero_iff : compared s t = 0 ↔ (s = [] ∧ t = []) ∨ Lookalike t s := by
  induction s generalizing t with
  | nil =>
      have noLookalike : ¬ Lookalike t [] := by
        rintro ⟨u, c, d, isNil, -⟩
        exact absurd isNil.symm (by simp)
      rw [or_iff_left noLookalike, ← outcome_eq_zero_iff]
      cases t <;> rfl
  | cons c s inductionHypothesis =>
      cases t with
      | nil =>
          have noLookalike : ¬ Lookalike [] (c :: s) := by
            rintro ⟨u, x, y, -, isNil⟩
            exact absurd isNil.symm (by simp)
          rw [or_iff_left noLookalike, ← outcome_eq_zero_iff]
          rfl
      | cons d t =>
          rw [or_iff_right (by simp), compared]
          by_cases same : c = d
          · subst same
            rw [if_pos rfl, inductionHypothesis, lookalike_cons_self]
          · rw [if_neg same, outcome_eq_zero_iff, lookalike_cons_ne same]

/-! ### What callers expect -/

/-- The order that the first difference gives, where the end of a string is below every
character. -/
def firstDifference : List UInt8 → List UInt8 → Ordering
  | [], [] => .eq
  | [], _ :: _ => .lt
  | _ :: _, [] => .gt
  | c :: s, d :: t => if c = d then firstDifference s t else if c < d then .lt else .gt

/-- A 32-bit result read as signed. -/
def signed (r : Nat) : Int := (BitVec.ofNat 32 r).toInt

/-- `r` and `r'` are the results for two texts and for the texts exchanged. -/
structure Ordered (s t : List UInt8) (r r' : Nat) : Prop where
  zero : r = 0 ↔ s = t
  sign : s ≠ t → (firstDifference s t = .lt ∧ signed r < 0 ∧ 0 < signed r') ∨
    (firstDifference s t = .gt ∧ 0 < signed r ∧ signed r' < 0)

/-- The strings first differ where `s` has its last character, a smaller one, and `t` goes
on behind that position. -/
def EndsThere (s t : List UInt8) : Prop :=
  ∃ u c d v, s = u ++ [c] ∧ t = u ++ d :: v ∧ c < d ∧ v ≠ []

/-- One string is a prefix of the other, or the smaller one ends at the first difference and
the other does not. -/
def Decided (s t : List UInt8) : Prop := s <+: t ∨ t <+: s ∨ EndsThere s t ∨ EndsThere t s

theorem endsThere_cons_self : EndsThere (c :: s) (c :: t) ↔ EndsThere s t := by
  constructor
  · rintro ⟨u, x, y, v, left, right, less, more⟩
    cases u with
    | nil =>
        simp only [List.nil_append, List.cons.injEq] at left right
        rw [← left.1, ← right.1] at less
        exact absurd less (UInt8.lt_irrefl c)
    | cons e u =>
        simp only [List.cons_append, List.cons.injEq] at left right
        exact ⟨u, x, y, v, left.2, right.2, less, more⟩
  · rintro ⟨u, x, y, v, rfl, rfl, less, more⟩
    exact ⟨c :: u, x, y, v, rfl, rfl, less, more⟩

theorem endsThere_cons_ne (different : c ≠ d) :
    EndsThere (c :: s) (d :: t) ↔ s = [] ∧ t ≠ [] ∧ c < d := by
  constructor
  · rintro ⟨u, x, y, v, left, right, less, more⟩
    cases u with
    | nil =>
        simp only [List.nil_append, List.cons.injEq] at left right
        obtain ⟨rfl, rfl⟩ := left
        obtain ⟨rfl, rfl⟩ := right
        exact ⟨rfl, more, less⟩
    | cons e u =>
        simp only [List.cons_append, List.cons.injEq] at left right
        exact absurd (left.1.trans right.1.symm) different
  · rintro ⟨rfl, more, less⟩
    exact ⟨[], c, d, t, rfl, rfl, less, more⟩

theorem decided_cons_self : Decided (c :: s) (c :: t) ↔ Decided s t := by
  simp only [Decided, List.cons_prefix_cons, endsThere_cons_self, true_and]

theorem decided_cons_ne (different : c ≠ d) :
    Decided (c :: s) (d :: t) ↔ (s = [] ∧ t ≠ [] ∧ c < d) ∨ (t = [] ∧ s ≠ [] ∧ d < c) := by
  simp only [Decided, List.cons_prefix_cons, endsThere_cons_ne different,
    endsThere_cons_ne different.symm, different, different.symm, false_and, false_or]

theorem ordered_cons_self {r r' : Nat} : Ordered (c :: s) (c :: t) r r' ↔ Ordered s t r r' := by
  constructor
  · rintro ⟨zero, sign⟩
    simp only [List.cons.injEq, true_and, firstDifference, if_true, ne_eq] at zero sign
    exact ⟨zero, sign⟩
  · rintro ⟨zero, sign⟩
    refine ⟨?_, ?_⟩ <;> simp only [List.cons.injEq, true_and, firstDifference, if_true, ne_eq]
    · exact zero
    · exact sign

theorem ordered_cons_ne {r r' : Nat} (different : c ≠ d) :
    Ordered (c :: s) (d :: t) r r' ↔ r ≠ 0 ∧ ((c < d ∧ signed r < 0 ∧ 0 < signed r') ∨
      (d < c ∧ 0 < signed r ∧ signed r' < 0)) := by
  have lists : c :: s ≠ d :: t := fun same => different (List.cons.inj same).1
  have first : (firstDifference (c :: s) (d :: t) = .lt ↔ c < d) ∧
      (firstDifference (c :: s) (d :: t) = .gt ↔ d < c) := by
    rw [firstDifference, if_neg different]
    rcases UInt8.lt_or_lt_of_ne different with less | greater
    · simp [less, UInt8.lt_asymm less]
    · simp [greater, UInt8.lt_asymm greater]
  constructor
  · rintro ⟨zero, sign⟩
    have decided := sign lists
    rw [first.1, first.2] at decided
    exact ⟨mt zero.mp lists, decided⟩
  · rintro ⟨nonzero, decided⟩
    refine ⟨iff_of_false nonzero lists, fun _ => ?_⟩
    rw [first.1, first.2]
    exact decided

theorem signed_values : signed 0 = 0 ∧ signed 0xFFFFFFFF = -1 ∧ signed 1 = 1 := by decide

theorem ordered_nil_cons : Ordered [] (d :: t) 0xFFFFFFFF 1 where
  zero := iff_of_false (by decide) (List.cons_ne_nil d t).symm
  sign := fun _ => Or.inl ⟨rfl, by decide⟩

theorem ordered_cons_nil : Ordered (c :: s) [] 1 0xFFFFFFFF where
  zero := iff_of_false (by decide) (List.cons_ne_nil c s)
  sign := fun _ => Or.inr ⟨rfl, by decide⟩

/-- On two texts, in either order, the results are right exactly when the texts are decided. -/
theorem ordered_compared_iff : Ordered s t (compared s t) (compared t s) ↔ Decided s t := by
  induction s generalizing t with
  | nil =>
      have decided : Decided [] t := Or.inl (List.nil_prefix)
      refine iff_of_true ?_ decided
      cases t with
      | nil => exact ⟨iff_of_true rfl rfl, fun different => absurd rfl different⟩
      | cons d t => exact ordered_nil_cons
  | cons c s inductionHypothesis =>
      cases t with
      | nil => exact iff_of_true ordered_cons_nil (Or.inr (Or.inl List.nil_prefix))
      | cons d t =>
          by_cases same : c = d
          · subst same
            rw [compared, if_pos rfl, compared, if_pos rfl, ordered_cons_self, decided_cons_self]
            exact inductionHypothesis
          · rw [compared, if_neg same, compared, if_neg (Ne.symm same), decided_cons_ne same,
              ordered_cons_ne same]
            obtain ⟨zero, minus, one⟩ := signed_values
            -- Which of the rests is empty settles the signs.
            cases s <;> cases t <;> simp [outcome, zero, minus, one]

/-! ### Strings in memory -/

/-- `strcmp` decides equality and order of the two strings. -/
def ComparesRight (m : Memory) (a b : Nat) (s t : List UInt8) : Prop :=
  ∃ r r', strcmp m a b = some r ∧ strcmp m b a = some r' ∧ Ordered s t r r'

/-- `strcmp` is right about two strings exactly when one is a prefix of the other or the
smaller one ends at the first difference and the other does not. -/
theorem comparesRight_iff_decided (text : Text m a s) (other : Text m b t)
    (fits : a + s.length < 2 ^ 32) (otherFits : b + t.length < 2 ^ 32) :
    ComparesRight m a b s t ↔ Decided s t := by
  rw [← ordered_compared_iff, ComparesRight, strcmp_eq text other fits otherFits,
    strcmp_eq other text otherFits fits]
  simp only [Option.some.injEq, exists_and_left, exists_eq_left']

/-- The strings `a` at 16 and `b` at 32. -/
def twoLetters : Memory := (Memory.write8 (fun _ => 0) 16 97).write8 32 98

theorem text_twoLetters : Text twoLetters 16 [97] ∧ Text twoLetters 32 [98] := by decide

theorem comparesRight_iff_decided_twoLetters :
    ComparesRight twoLetters 16 32 [97] [98] ↔ Decided [97] [98] :=
  comparesRight_iff_decided text_twoLetters.1 text_twoLetters.2 (by decide) (by decide)

/-- `strcmp` takes the strings `a` and `b` for equal. -/
theorem different_letters_compare_equal :
    ¬ ∀ (m : Memory) (a b : Nat) (s t : List UInt8), Text m a s → Text m b t →
      a + s.length < 2 ^ 32 → b + t.length < 2 ^ 32 → ComparesRight m a b s t := by
  intro always
  obtain ⟨text, other⟩ := text_twoLetters
  obtain ⟨r, r', returned, -, ordered⟩ :=
    always twoLetters 16 32 [97] [98] text other (by decide) (by decide)
  rw [strcmp_eq text other (by decide) (by decide), Option.some.injEq] at returned
  exact absurd (ordered.zero.mp returned.symm) (by decide)

end Balloon.Libc
