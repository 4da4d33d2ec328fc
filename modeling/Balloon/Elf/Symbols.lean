import Mathlib.Data.Nat.Find
import Balloon.Elf.Model
import Balloon.Foundation.Transition

/-!
Owns `elf_lookup_symbol` for every table and address. The end of a symbol's range is a sum
that wraps around, so a range that reaches the top of the address space holds nothing, and an
address in no range gets no null name but whatever the return register holds.
-/

namespace Balloon.Elf

open Balloon.Foundation
open Balloon.Libc

variable {m : Memory} {elf : ElfT} {addr i j : Nat}

/-- Symbol `i` is a function whose range, over unbounded integers, contains the address. -/
structure Covers (m : Memory) (elf : ElfT) (addr i : Nat) : Prop where
  inTable : i < symbolCount elf
  isFunction : symbolType m elf i = 2
  above : symbolValue m elf i ≤ addr
  below : addr < symbolValue m elf i + symbolSize m elf i

/-- The range also ends below `2 ^ 32`. -/
structure CoversLow (m : Memory) (elf : ElfT) (addr i : Nat) :
    Prop extends Covers m elf addr i where
  low : symbolValue m elf i + symbolSize m elf i < 2 ^ 32

/-- The least index with a property. -/
def IsFirst (p : Nat → Prop) (i : Nat) : Prop := p i ∧ ∀ k, k < i → ¬ p k

theorem IsFirst.unique {p : Nat → Prop} (first : IsFirst p i) (other : IsFirst p j) : i = j := by
  rcases Nat.lt_trichotomy i j with below | same | above
  · exact absurd first.1 (other.2 i below)
  · exact same
  · exact absurd other.1 (first.2 j above)

theorem exists_isFirst {p : Nat → Prop} (some : ∃ i, p i) : ∃ i, IsFirst p i := by
  classical
  exact ⟨Nat.find some, Nat.find_spec some, fun k below => Nat.find_min some below⟩

/-- The name of the first function symbol that contains the address, or null, whatever the
return register holds. -/
def LooksUp (m : Memory) (elf : ElfT) (addr : Nat) : Prop :=
  ∀ undef,
    (∀ i, IsFirst (Covers m elf addr) i →
      elfLookupSymbol m addr elf undef = symbolName m elf i) ∧
    ((∀ i, ¬ Covers m elf addr i) → elfLookupSymbol m addr elf undef = 0)

/-- A function symbol whose range ends below `2 ^ 32` contains the address, and the first one
has the name of the first function symbol that contains it at all. -/
def NamedLow (m : Memory) (elf : ElfT) (addr : Nat) : Prop :=
  ∃ i j, IsFirst (Covers m elf addr) i ∧ IsFirst (CoversLow m elf addr) j ∧
    symbolName m elf j = symbolName m elf i

/-- The wrapping test finds the ranges that end below `2 ^ 32`. -/
theorem test_iff : symbolType m elf i = 2 ∧ symbolValue m elf i ≤ addr ∧
    addr < wrap32 (symbolValue m elf i + symbolSize m elf i) ↔
      symbolType m elf i = 2 ∧ symbolValue m elf i ≤ addr ∧
        addr < symbolValue m elf i + symbolSize m elf i ∧
          symbolValue m elf i + symbolSize m elf i < 2 ^ 32 := by
  have valueLt : symbolValue m elf i < 2 ^ 32 := load32_lt m _
  have sizeLt : symbolSize m elf i < 2 ^ 32 := load32_lt m _
  refine and_congr_right fun _ => and_congr_right fun above => ?_
  unfold wrap32
  omega

theorem CoversLow.matchSymbol (covers : CoversLow m elf addr i) :
    matchSymbol m addr elf i = some (symbolName m elf i) := by
  have test := test_iff.mpr ⟨covers.isFunction, covers.above, covers.below, covers.low⟩
  rw [Elf.matchSymbol, if_neg (not_not.mpr test.1), if_pos test.2]

theorem matchSymbol_eq_some {name : Nat} (inTable : i < symbolCount elf)
    (found : matchSymbol m addr elf i = some name) :
    CoversLow m elf addr i ∧ name = symbolName m elf i := by
  unfold matchSymbol at found
  split_ifs at found with otherType inRange
  obtain ⟨isFunction, above, below, low⟩ := test_iff.mp ⟨not_not.mp otherType, inRange⟩
  exact ⟨{ inTable, isFunction, above, below, low }, (Option.some.inj found).symm⟩

/-- What the loop returns. -/
theorem IsFirst.elfLookupSymbol (first : IsFirst (CoversLow m elf addr) i) (undef : Nat) :
    elfLookupSymbol m addr elf undef = symbolName m elf i := by
  unfold Elf.elfLookupSymbol
  cases found : (List.range (symbolCount elf)).findSome? (matchSymbol m addr elf) with
  | none =>
      have missed := List.findSome?_eq_none_iff.mp found i (List.mem_range.mpr first.1.inTable)
      rw [first.1.matchSymbol] at missed
      contradiction
  | some name =>
      obtain ⟨j, inTable, hit, earlier⟩ := findSome?_range found
      obtain ⟨covers, rfl⟩ := matchSymbol_eq_some inTable hit
      have least : IsFirst (CoversLow m elf addr) j := by
        refine ⟨covers, fun k below coversK => ?_⟩
        exact absurd (coversK.matchSymbol.symm.trans (earlier k below)) (Option.some_ne_none _)
      rw [Option.getD_some, least.unique first]

theorem elfLookupSymbol_none (uncovered : ∀ i, ¬ CoversLow m elf addr i) (undef : Nat) :
    elfLookupSymbol m addr elf undef = undef := by
  unfold elfLookupSymbol
  rw [List.findSome?_eq_none_iff.mpr, Option.getD_none]
  intro i member
  cases hit : matchSymbol m addr elf i with
  | none => rfl
  | some name =>
      exact absurd (matchSymbol_eq_some (List.mem_range.mp member) hit).1 (uncovered i)

/-- `elf_lookup_symbol` is right about an address exactly when a range that ends below
`2 ^ 32` contains it and the first such names what the first range of all names. -/
theorem looksUp_iff_namedLow : LooksUp m elf addr ↔ NamedLow m elf addr := by
  constructor
  · intro looksUp
    by_cases low : ∃ j, CoversLow m elf addr j
    · obtain ⟨j, firstLow⟩ := exists_isFirst low
      obtain ⟨i, first⟩ := exists_isFirst ⟨j, firstLow.1.toCovers⟩
      exact ⟨i, j, first, firstLow,
        (firstLow.elfLookupSymbol 0).symm.trans ((looksUp 0).1 i first)⟩
    · -- What is returned is arbitrary, so neither a name nor null.
      have arbitrary := elfLookupSymbol_none (not_exists.mp low)
      by_cases covered : ∃ i, Covers m elf addr i
      · obtain ⟨i, first⟩ := exists_isFirst covered
        have zero := (arbitrary 0).symm.trans ((looksUp 0).1 i first)
        have one := (arbitrary 1).symm.trans ((looksUp 1).1 i first)
        exact absurd (zero.trans one.symm) (by decide)
      · have one := (arbitrary 1).symm.trans ((looksUp 1).2 (not_exists.mp covered))
        contradiction
  · rintro ⟨i, j, first, firstLow, sameName⟩ undef
    rw [firstLow.elfLookupSymbol undef, sameName]
    exact ⟨fun k other => by rw [first.unique other],
      fun uncovered => absurd first.1 (uncovered i)⟩

/-- The words of a table of two functions: 0x1000 bytes up to the last address, with the name 1, and
a range from 0x100000 on that holds the same addresses but the last, with the name 2. -/
def twoSymbols : Memory :=
  [(0, 1), (4, 0xFFFFF000), (8, 0x1000), (12, 2), (16, 2), (20, 0x100000), (24, 0xFFEFFFFF),
    (28, 2)].foldl (fun m word => m.write32 (0x1000 + word.1) word.2) fun _ => 0

/-- The range that reaches the last address is missed, and the next one gives its name. -/
theorem last_range_is_missed : ¬ ∀ (m : Memory) (elf : ElfT) (addr : Nat),
    addr < 2 ^ 32 → LooksUp m elf addr := by
  intro always
  have first : IsFirst (Covers twoSymbols ⟨0x1000, 32, 0x2000, 0⟩ 0xFFFFF800) 0 :=
    ⟨⟨by decide, by decide, by decide, by decide⟩, fun k below => absurd below (Nat.not_lt_zero k)⟩
  have named := (always twoSymbols ⟨0x1000, 32, 0x2000, 0⟩ 0xFFFFF800 (by decide) 0).1 0 first
  have other : elfLookupSymbol twoSymbols 0xFFFFF800 ⟨0x1000, 32, 0x2000, 0⟩ 0 = 0x2002 := by decide
  have expected : symbolName twoSymbols ⟨0x1000, 32, 0x2000, 0⟩ 0 = 0x2001 := by decide
  rw [other, expected] at named
  contradiction

end Balloon.Elf
