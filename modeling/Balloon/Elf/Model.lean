import Balloon.Libc.Compare

/-!
Owns the embedding of elf.c: the packed section headers and symbols of elf.h,
`elf_from_multiboot` and `elf_lookup_symbol`. Of `multiboot_t` it has the three fields that
are read. The string literals `".strtab"` and `".symtab"` enter through their addresses.

`elf_from_multiboot` never initialises its result and `elf_lookup_symbol` has no `return`
behind its loop: what the stack and the return register hold there are arguments.
-/

namespace Balloon.Elf

open Balloon.Foundation
open Balloon.Libc

/-- A word of the 32-bit address space, at whose end it wraps around. -/
def load32 (m : Memory) (a : Nat) : Nat := Memory.read32 (fun b => m (wrap32 b)) a

theorem load32_lt (m : Memory) (a : Nat) : load32 m a < 2 ^ 32 := Memory.read32_lt _ a

/-- The section header table in `multiboot_t`. -/
structure Multiboot where
  num : Nat
  addr : Nat
  shndx : Nat

/-- `elf_t`. -/
structure ElfT where
  symtab : Nat
  symtabsz : Nat
  strtab : Nat
  strtabsz : Nat

/-- The addresses of the string literals. -/
structure Literals where
  strtab : Nat
  symtab : Nat

/-! ### Sections -/

/-- `sizeof(elf_section_header_t)`: `name` at 0, `addr` at 12 and `size` at 20. -/
def sizeofSection : Nat := 40

/-- `sh[i]`. -/
def sectionAt (mb : Multiboot) (i : Nat) : Nat := wrap32 (mb.addr + sizeofSection * i)

def sectionAddr (m : Memory) (mb : Multiboot) (i : Nat) : Nat := load32 m (sectionAt mb i + 12)

def sectionSize (m : Memory) (mb : Multiboot) (i : Nat) : Nat := load32 m (sectionAt mb i + 20)

/-- `shstrtab + sh[i].name`. -/
def sectionName (m : Memory) (mb : Multiboot) (i : Nat) : Nat :=
  wrap32 (sectionAddr m mb mb.shndx + load32 m (sectionAt mb i))

/-- The round of `elf_from_multiboot` for `sh[i]`. -/
def readSection (m : Memory) (literals : Literals) (mb : Multiboot) (elf : ElfT) (i : Nat) :
    Option ElfT :=
  (strcmp m (sectionName m mb i) literals.strtab).bind fun differs =>
    let elf :=
      if differs = 0 then
        { elf with strtab := sectionAddr m mb i, strtabsz := sectionSize m mb i }
      else elf
    (strcmp m (sectionName m mb i) literals.symtab).map fun differs =>
      if differs = 0 then
        { elf with symtab := sectionAddr m mb i, symtabsz := sectionSize m mb i }
      else elf

/-- `elf_from_multiboot`, where `stale` is what the stack holds in the place of `elf`. -/
def elfFromMultiboot (m : Memory) (literals : Literals) (mb : Multiboot) (stale : ElfT) :
    Option ElfT :=
  (List.range mb.num).foldlM (readSection m literals mb) stale

/-! ### Symbols -/

/-- `sizeof(elf_symbol_t)`: `name` at 0, `value` at 4, `size` at 8 and `info` at 12. -/
def sizeofSymbol : Nat := 16

/-- `elf->symtab[i]`. -/
def symbolAt (elf : ElfT) (i : Nat) : Nat := wrap32 (elf.symtab + sizeofSymbol * i)

/-- The pointer `elf->strtab + elf->symtab[i].name`. -/
def symbolName (m : Memory) (elf : ElfT) (i : Nat) : Nat :=
  wrap32 (elf.strtab + load32 m (symbolAt elf i))

def symbolValue (m : Memory) (elf : ElfT) (i : Nat) : Nat := load32 m (symbolAt elf i + 4)

def symbolSize (m : Memory) (elf : ElfT) (i : Nat) : Nat := load32 m (symbolAt elf i + 8)

/-- `ELF32_ST_TYPE(elf->symtab[i].info)`. -/
def symbolType (m : Memory) (elf : ElfT) (i : Nat) : Nat :=
  (m (wrap32 (symbolAt elf i + 12))).toNat % 16

/-- `elf->symtabsz / sizeof(elf_symbol_t)`. -/
def symbolCount (elf : ElfT) : Nat := elf.symtabsz / sizeofSymbol

/-- The round of `elf_lookup_symbol` for `elf->symtab[i]`. -/
def matchSymbol (m : Memory) (addr : Nat) (elf : ElfT) (i : Nat) : Option Nat :=
  if symbolType m elf i ≠ 2 then none
  else if addr ≥ symbolValue m elf i ∧
      addr < wrap32 (symbolValue m elf i + symbolSize m elf i) then
    some (symbolName m elf i)
  else none

/-- `elf_lookup_symbol`; a call that finds nothing yields what the return register holds,
here `undef`. -/
def elfLookupSymbol (m : Memory) (addr : Nat) (elf : ElfT) (undef : Nat) : Nat :=
  ((List.range (symbolCount elf)).findSome? (matchSymbol m addr elf)).getD undef

end Balloon.Elf
