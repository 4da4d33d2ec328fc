import Balloon.Elf.Model
import Balloon.Foundation.Transition

/-!
Owns `elf_from_multiboot` for every section table. Its name test is `strcmp`, which takes a
name that differs in the last character for the name itself, and the fields of a section that
is missing stay what they were on the stack.
-/

namespace Balloon.Elf

open Balloon.Foundation
open Balloon.Libc

/-- The characters of a string literal. -/
def literalText (literal : String) : List UInt8 :=
  literal.toList.map fun c => UInt8.ofNat c.toNat

/-! ### The last of many -/

/-- The greatest index below `n` with a property. -/
def IsLast (n : Nat) (p : Nat → Prop) (i : Nat) : Prop :=
  i < n ∧ p i ∧ ∀ k, i < k → k < n → ¬ p k

theorem IsLast.unique {n i j : Nat} {p : Nat → Prop} (last : IsLast n p i) (other : IsLast n p j) :
    i = j := by
  rcases Nat.lt_trichotomy i j with below | same | above
  · exact absurd other.2.1 (last.2.2 j below other.1)
  · exact same
  · exact absurd last.2.1 (other.2.2 i above last.1)

/-- `r` is the value at the last index with the property, or `stale` when there is none. -/
def Chosen {Value : Type} (n : Nat) (p : Nat → Prop) (value : Nat → Value) (stale r : Value) :
    Prop :=
  (∃ i, IsLast n p i ∧ r = value i) ∨ ((∀ i, i < n → ¬ p i) ∧ r = stale)

section Chosen

variable {Value : Type} {n : Nat} {p : Nat → Prop} {value : Nat → Value} {stale r : Value}

theorem Chosen.take (p : Nat → Prop) (value : Nat → Value) (stale : Value) (hit : p n) :
    Chosen (n + 1) p value stale (value n) :=
  Or.inl ⟨n, ⟨Nat.lt_succ_self n, hit, fun k above below => by omega⟩, rfl⟩

theorem Chosen.skip (chosen : Chosen n p value stale r) (missed : ¬ p n) :
    Chosen (n + 1) p value stale r := by
  rcases chosen with ⟨i, ⟨below, hit, later⟩, same⟩ | ⟨noHit, same⟩
  · refine Or.inl ⟨i, ⟨by omega, hit, fun k above inRange => ?_⟩, same⟩
    rcases Nat.lt_succ_iff_lt_or_eq.mp inRange with inside | rfl
    · exact later k above inside
    · exact missed
  · refine Or.inr ⟨fun i inRange => ?_, same⟩
    rcases Nat.lt_succ_iff_lt_or_eq.mp inRange with inside | rfl
    · exact noHit i inside
    · exact missed

theorem Chosen.of_last (chosen : Chosen n p value stale r) {i : Nat} (last : IsLast n p i) :
    r = value i := by
  rcases chosen with ⟨j, other, same⟩ | ⟨noHit, -⟩
  · rw [same, other.unique last]
  · exact absurd last.2.1 (noHit i last.1)

end Chosen

/-! ### What callers expect -/

/-- The section names in memory read `name`, and the literals read what they say. -/
structure Named (m : Memory) (literals : Literals) (mb : Multiboot) (name : Nat → List UInt8) :
    Prop where
  strtab : Text m literals.strtab (literalText ".strtab")
  strtabFits : literals.strtab + 7 < 2 ^ 32
  symtab : Text m literals.symtab (literalText ".symtab")
  symtabFits : literals.symtab + 7 < 2 ^ 32
  sections : ∀ i, i < mb.num → Text m (sectionName m mb i) (name i)
  sectionsFit : ∀ i, i < mb.num → sectionName m mb i + (name i).length < 2 ^ 32

/-- `sh[i].addr` and `sh[i].size`. -/
def extent (m : Memory) (mb : Multiboot) (i : Nat) : Nat × Nat :=
  (sectionAddr m mb i, sectionSize m mb i)

/-- The field pair `r` is taken from the last section with this very name, or its size is 0. -/
def TakenFrom (m : Memory) (mb : Multiboot) (name : Nat → List UInt8) (text : List UInt8)
    (r : Nat × Nat) : Prop :=
  (∀ i, IsLast mb.num (fun j => name j = text) i → r = extent m mb i) ∧
    ((∀ i, i < mb.num → name i ≠ text) → r.2 = 0)

/-- Whatever the stack holds, both pairs of fields are taken from the sections, and without a
symbol table `elf_lookup_symbol` has no symbol to look at. -/
def FindsSections (m : Memory) (literals : Literals) (mb : Multiboot) (name : Nat → List UInt8) :
    Prop :=
  ∀ stale, ∃ elf, elfFromMultiboot m literals mb stale = some elf ∧
    TakenFrom m mb name (literalText ".strtab") (elf.strtab, elf.strtabsz) ∧
    TakenFrom m mb name (literalText ".symtab") (elf.symtab, elf.symtabsz) ∧
    ((∀ i, i < mb.num → name i ≠ literalText ".symtab") → symbolCount elf = 0)

/-- Some section has this name or a lookalike, and the last such section gives the fields
that the last section with the very name would give. -/
def Settled (m : Memory) (mb : Multiboot) (name : Nat → List UInt8) (text : List UInt8) : Prop :=
  ∃ l, IsLast mb.num (fun j => Lookalike text (name j)) l ∧
    TakenFrom m mb name text (extent m mb l)

/-! ### The loop -/

variable {m : Memory} {literals : Literals} {mb : Multiboot} {name : Nat → List UInt8}

/-- The first `n` headers have been read. -/
structure ReadTo (m : Memory) (mb : Multiboot) (name : Nat → List UInt8) (stale : ElfT) (n : Nat)
    (elf : ElfT) : Prop where
  strtab : Chosen n (fun j => Lookalike (literalText ".strtab") (name j)) (extent m mb)
    (stale.strtab, stale.strtabsz) (elf.strtab, elf.strtabsz)
  symtab : Chosen n (fun j => Lookalike (literalText ".symtab") (name j)) (extent m mb)
    (stale.symtab, stale.symtabsz) (elf.symtab, elf.symtabsz)

/-- The zero test on a section name. -/
theorem strcmp_literal {a b : Nat} {s t : List UInt8} (text : Text m a s) (literal : Text m b t)
    (fits : a + s.length < 2 ^ 32) (literalFits : b + 7 < 2 ^ 32) (length : t.length = 7) :
    ∃ r, strcmp m a b = some r ∧ (r = 0 ↔ Lookalike t s) := by
  refine ⟨_, strcmp_eq text literal fits (by omega), ?_⟩
  rw [compared_eq_zero_iff, or_iff_right]
  rintro ⟨-, rfl⟩
  contradiction

theorem ReadTo.round {stale elf : ElfT} {n : Nat} (read : ReadTo m mb name stale n elf)
    (named : Named m literals mb name) (inTable : n < mb.num) :
    ∃ elf', readSection m literals mb elf n = some elf' ∧ ReadTo m mb name stale (n + 1) elf' := by
  have text := named.sections n inTable
  have fits := named.sectionsFit n inTable
  obtain ⟨r, returned, isStrtab⟩ :=
    strcmp_literal text named.strtab fits named.strtabFits (by decide)
  obtain ⟨q, returned', isSymtab⟩ :=
    strcmp_literal text named.symtab fits named.symtabFits (by decide)
  refine ⟨_, Option.bind_eq_some_iff.mpr ⟨r, returned, Option.map_eq_some_iff.mpr
    ⟨q, returned', rfl⟩⟩, ?_, ?_⟩
  · by_cases strtab : r = 0
    · have taken := Chosen.take (fun j => Lookalike (literalText ".strtab") (name j))
        (extent m mb) (stale.strtab, stale.strtabsz) (isStrtab.mp strtab)
      by_cases symtab : q = 0 <;> simpa [strtab, symtab, extent] using taken
    · have skipped := read.strtab.skip (mt isStrtab.mpr strtab)
      by_cases symtab : q = 0 <;> simpa [strtab, symtab] using skipped
  · by_cases symtab : q = 0
    · have taken := Chosen.take (fun j => Lookalike (literalText ".symtab") (name j))
        (extent m mb) (stale.symtab, stale.symtabsz) (isSymtab.mp symtab)
      simpa [symtab, extent] using taken
    · have skipped := read.symtab.skip (mt isSymtab.mpr symtab)
      by_cases strtab : r = 0 <;> simpa [strtab, symtab] using skipped

/-- `elf_from_multiboot` returns with every header read. -/
theorem Named.elfFromMultiboot (named : Named m literals mb name) (stale : ElfT) :
    ∃ elf, elfFromMultiboot m literals mb stale = some elf ∧
      ReadTo m mb name stale mb.num elf :=
  foldlM_range (readSection m literals mb) (ReadTo m mb name stale)
    (fun _ _ inTable read => read.round named inTable)
    ⟨Or.inr ⟨fun i below => absurd below (Nat.not_lt_zero i), rfl⟩,
      Or.inr ⟨fun i below => absurd below (Nat.not_lt_zero i), rfl⟩⟩

/-! ### Both fields -/

theorem Settled.takenFrom {text : List UInt8} {stale r : Nat × Nat}
    (settled : Settled m mb name text)
    (chosen : Chosen mb.num (fun j => Lookalike text (name j)) (extent m mb) stale r) :
    TakenFrom m mb name text r := by
  obtain ⟨l, last, taken⟩ := settled
  rw [chosen.of_last last]
  exact taken

/-- With a size other than 0 on the stack, some section must have been read. -/
theorem settled_of_takenFrom {text : List UInt8} {stale r : Nat × Nat} (nonempty : text ≠ [])
    (size : stale.2 ≠ 0)
    (chosen : Chosen mb.num (fun j => Lookalike text (name j)) (extent m mb) stale r)
    (taken : TakenFrom m mb name text r) : Settled m mb name text := by
  rcases chosen with ⟨l, last, same⟩ | ⟨noHit, same⟩
  · exact ⟨l, last, same ▸ taken⟩
  · have missing : ∀ i, i < mb.num → name i ≠ text := by
      intro i below isText
      have lookalike : Lookalike text (name i) := by
        rw [isText]
        exact lookalike_self nonempty
      exact noHit i below lookalike
    rw [same] at taken
    exact absurd (taken.2 missing) size

theorem FindsSections.settled (named : Named m literals mb name)
    (finds : FindsSections m literals mb name) :
    Settled m mb name (literalText ".strtab") ∧ Settled m mb name (literalText ".symtab") := by
  obtain ⟨elf, returned, strtab, symtab, -⟩ := finds ⟨0, 1, 0, 1⟩
  obtain ⟨elf', returned', read⟩ := named.elfFromMultiboot ⟨0, 1, 0, 1⟩
  obtain rfl := Option.some.inj (returned.symm.trans returned')
  exact ⟨settled_of_takenFrom (by decide) Nat.one_ne_zero read.strtab strtab,
    settled_of_takenFrom (by decide) Nat.one_ne_zero read.symtab symtab⟩

/-- `elf_from_multiboot` finds the sections exactly when both names are settled. -/
theorem findsSections_iff_settled (named : Named m literals mb name) :
    FindsSections m literals mb name ↔
      Settled m mb name (literalText ".strtab") ∧ Settled m mb name (literalText ".symtab") := by
  constructor
  · exact FindsSections.settled named
  · rintro ⟨strtab, symtab⟩ stale
    obtain ⟨elf, returned, read⟩ := named.elfFromMultiboot stale
    have taken := symtab.takenFrom read.symtab
    refine ⟨elf, returned, strtab.takenFrom read.strtab, taken, fun missing => ?_⟩
    have size : elf.symtabsz = 0 := taken.2 missing
    rw [symbolCount, size]
    exact Nat.zero_div sizeofSymbol

/-! ### A table of three sections -/

/-- The literals are at `0x1000` and `0x1008`, and three headers are at `0x2000`: the section
names at `0x1000`, then `.strtab`, then a section called `.symtab`. -/
def bootTables : Memory :=
  let words : List (Nat × Nat) := [(0x2000, 16), (0x200C, 0x1000), (0x2028, 0), (0x2034, 0x5000),
    (0x203C, 0x10), (0x2050, 8), (0x205C, 0x6000), (0x2064, 0x20)]
  words.foldl (fun m word => m.write32 word.1 word.2) fun a =>
    (literalText ".strtab\x00.symtab\x00").getD (a - 0x1000) 0

def bootLiterals : Literals := ⟨0x1000, 0x1008⟩

/-- The kernel with its symbols, or stripped of its sections. -/
def bootHeader (num : Nat) : Multiboot := ⟨num, 0x2000, 0⟩

def bootName : Nat → List UInt8
  | 1 => literalText ".strtab"
  | 2 => literalText ".symtab"
  | _ => []

theorem named_bootTables {num : Nat} (few : num ≤ 3) :
    Named bootTables bootLiterals (bootHeader num) bootName := by
  have literals : Text bootTables 0x1000 (literalText ".strtab") ∧
      Text bootTables 0x1008 (literalText ".symtab") := by decide
  have names : ∀ i, i < 3 → Text bootTables (sectionName bootTables (bootHeader 3) i) (bootName i) ∧
      sectionName bootTables (bootHeader 3) i + (bootName i).length < 2 ^ 32 := by decide
  exact
    { strtab := literals.1
      strtabFits := by decide
      symtab := literals.2
      symtabFits := by decide
      sections := fun i inTable => (names i (Nat.lt_of_lt_of_le inTable few)).1
      sectionsFit := fun i inTable => (names i (Nat.lt_of_lt_of_le inTable few)).2 }

theorem findsSections_iff_settled_bootTables :
    FindsSections bootTables bootLiterals (bootHeader 3) bootName ↔
      Settled bootTables (bootHeader 3) bootName (literalText ".strtab") ∧
        Settled bootTables (bootHeader 3) bootName (literalText ".symtab") :=
  findsSections_iff_settled (named_bootTables (Nat.le_refl 3))

/-- Without sections the sizes are what was on the stack. -/
theorem stripped_kernel_keeps_stack :
    ¬ ∀ (m : Memory) (literals : Literals) (mb : Multiboot) (name : Nat → List UInt8),
      Named m literals mb name → FindsSections m literals mb name := by
  intro always
  have finds := always _ _ _ _ (named_bootTables (Nat.zero_le 3))
  obtain ⟨-, l, last, -⟩ := finds.settled (named_bootTables (Nat.zero_le 3))
  exact absurd last.1 (Nat.not_lt_zero l)

end Balloon.Elf
