import Balloon.Libc.Memory

/-!
Owns NUL-terminated strings in memory and `strlen` of utils.c.
-/

namespace Balloon.Libc

open Balloon.Foundation

/-- The string at `a` has `len` characters before its terminating NUL. -/
structure CString (m : Memory) (a len : Nat) : Prop where
  nul : m (a + len) = 0
  chars : ∀ k, k < len → m (a + k) ≠ 0

theorem CString.unique {m : Memory} {a len len' : Nat} (first : CString m a len)
    (second : CString m a len') : len = len' := by
  rcases Nat.lt_trichotomy len len' with below | same | above
  · exact absurd first.nul (second.chars len below)
  · exact same
  · exact absurd second.nul (first.chars len' above)

theorem CString.congr {m m' : Memory} {a b len : Nat} (string : CString m a len)
    (same : ∀ k, k ≤ len → m' (b + k) = m (a + k)) : CString m' b len where
  nul := (same len (Nat.le_refl len)).trans string.nul
  chars := fun k below => by
    rw [same k (Nat.le_of_lt below)]
    exact string.chars k below

/-- The loop of `strlen` from `len` on. -/
def strlenFrom (m : Memory) (txt : Nat) : Nat → Nat → Option Nat
  | 0, _ => none
  | fuel + 1, len =>
      if m (wrap32 (txt + len)) ≠ 0 then strlenFrom m txt fuel (len + 1) else some len

/-- `strlen`; without a NUL in the whole address space the loop does not end. -/
def strlen (m : Memory) (txt : Nat) : Option Nat := strlenFrom m txt (2 ^ 32) 0

theorem strlenFrom_eq {m : Memory} {txt len : Nat} (string : CString m txt len)
    (fits : txt + len < 2 ^ 32) {fuel i : Nat} (before : i ≤ len) (enough : len < i + fuel) :
    strlenFrom m txt fuel i = some len := by
  induction fuel generalizing i with
  | zero => omega
  | succ fuel inductionHypothesis =>
      rw [strlenFrom, wrap32_of_lt (by omega)]
      rcases Nat.lt_or_eq_of_le before with below | rfl
      · rw [if_pos (string.chars i below)]
        exact inductionHypothesis (by omega) (by omega)
      · rw [if_neg (not_not.mpr string.nul)]

theorem strlen_eq {m : Memory} {txt len : Nat} (string : CString m txt len)
    (fits : txt + len < 2 ^ 32) : strlen m txt = some len :=
  strlenFrom_eq string fits (Nat.zero_le len) (by omega)

attribute [irreducible] strlen

end Balloon.Libc
