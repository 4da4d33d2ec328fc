import Balloon.Paging.AddressSpace
import Balloon.Paging.Blocks

/-!
Owns `get_page` as a map from pages to entries with insertion: what a lookup finds, what
making a table leaves of the entries that were there, and that both hold before and after
`init_heap`. It does not own what the entries say.
-/

namespace Balloon.Paging

open Balloon.Foundation
open Balloon.Libc
open Balloon.Allocator
open Balloon.Frames

/-- The slot of the table that covers `address`. -/
def tableIndex (address : Nat) : Nat := address / 0x1000 / 1024

theorem tableIndex_lt {address : Nat} (small : address < 2 ^ 32) : tableIndex address < 1024 := by
  unfold tableIndex
  omega

/-- The bytes of a directory and of its tables. -/
def DirectoryMemory (m : Memory) (dir a : Nat) : Prop :=
  Inside dir sizeofDirectory a ∨
    ∃ i, i < 1024 ∧ tableOf m dir i ≠ 0 ∧ Inside (tableOf m dir i) sizeofTable a

/-- The directory at `dir` and its tables are distinct blocks of the allocator. -/
structure PageMap (k : Kernel) (dir : Nat) : Prop where
  ordered : Ordered k.heap (DirectoryMemory k.mem dir)
  beside : ∀ i a, i < 1024 → tableOf k.mem dir i ≠ 0 → Inside (tableOf k.mem dir i) sizeofTable a →
    ¬ Inside dir sizeofDirectory a
  distinct : ∀ i j a, i < 1024 → j < 1024 → tableOf k.mem dir i ≠ 0 → tableOf k.mem dir j ≠ 0 →
    Inside (tableOf k.mem dir i) sizeofTable a → Inside (tableOf k.mem dir j) sizeofTable a → i = j

/-- The kernel `k'` after `get_page(address, 1, dir)` returned `page`. -/
structure Inserted (k : Kernel) (dir address page : Nat) (k' : Kernel) : Prop where
  map : PageMap k' dir
  positive : page ≠ 0
  found : k'.getPage address false dir = some (page, k')
  kept : ∀ b, b < 2 ^ 32 → findPage k.mem b dir ≠ 0 →
    findPage k'.mem b dir = findPage k.mem b dir ∧
      k'.mem.read32 (findPage k.mem b dir) = k.mem.read32 (findPage k.mem b dir)
  others : ∀ b, b < 2 ^ 32 → tableIndex b ≠ tableIndex address →
    findPage k'.mem b dir = findPage k.mem b dir
  blank : tableOf k.mem dir (tableIndex address) = 0 → ∀ e, e < 1024 →
    k'.mem.read32 (tableOf k'.mem dir (tableIndex address) + 4 * e) = 0

section

variable {k k₁ : Kernel} {dir address table phys : Nat}

/-! ### Looking up -/

theorem findPage_eq_zero_iff (m : Memory) (address dir : Nat) :
    findPage m address dir = 0 ↔ tableOf m dir (tableIndex address) = 0 := by
  simp only [findPage, tableIndex]
  split
  next covered => exact iff_of_false (by omega) covered
  next absent => exact iff_of_true rfl (not_not.mp absent)

theorem findPage_of_table {m : Memory} (here : tableOf m dir (tableIndex address) = table)
    (made : table ≠ 0) : findPage m address dir = table + 4 * (address / 0x1000 % 1024) := by
  unfold tableIndex at here
  simp only [findPage, here, if_pos made]

theorem findPage_congr {m m' : Memory}
    (same : tableOf m' dir (tableIndex address) = tableOf m dir (tableIndex address)) :
    findPage m' address dir = findPage m address dir := by
  unfold tableIndex at same
  simp only [findPage, same]

theorem findPage_covered {m : Memory} (covered : findPage m address dir ≠ 0) :
    tableOf m dir (tableIndex address) ≠ 0 ∧
      findPage m address dir =
        tableOf m dir (tableIndex address) + 4 * (address / 0x1000 % 1024) := by
  have made : tableOf m dir (tableIndex address) ≠ 0 :=
    fun absent => covered ((findPage_eq_zero_iff m address dir).mpr absent)
  exact ⟨made, if_pos made⟩

/-- `get_page(address, 0, dir)` changes nothing. -/
theorem getPage_lookup (k : Kernel) (address dir : Nat) :
    k.getPage address false dir = some (findPage k.mem address dir, k) := by
  by_cases made : tableOf k.mem dir (address / 0x1000 / 1024) ≠ 0
  · exact getPage_found false made
  · simp only [Kernel.getPage, findPage, if_neg made, Bool.false_eq_true, if_false]

/-- Two addresses have one entry when they are on one page. -/
theorem PageMap.findPage_inj (map : PageMap k dir) {b c : Nat} (smallB : b < 2 ^ 32)
    (smallC : c < 2 ^ 32) (covered : findPage k.mem b dir ≠ 0) :
    findPage k.mem b dir = findPage k.mem c dir ↔ b / 0x1000 = c / 0x1000 := by
  constructor
  · intro same
    obtain ⟨madeB, entryB⟩ := findPage_covered covered
    obtain ⟨madeC, entryC⟩ := findPage_covered (same ▸ covered)
    have size : sizeofTable = 0x1000 := rfl
    have indices : tableIndex b = tableIndex c :=
      map.distinct _ _ (findPage k.mem b dir) (tableIndex_lt smallB) (tableIndex_lt smallC) madeB
        madeC ⟨by omega, by omega⟩ ⟨by omega, by omega⟩
    rw [entryB, entryC, indices] at same
    unfold tableIndex at indices
    omega
  · intro same
    simp only [findPage, same]

/-! ### Making a table -/

/-- An entry of a table lies in the table. -/
theorem PageMap.entry_kept (map : PageMap k dir) {i e a : Nat} (index : i < 1024)
    (made : tableOf k.mem dir i ≠ 0) (bound : e < 1024)
    (inWord : tableOf k.mem dir i + 4 * e ≤ a ∧ a < tableOf k.mem dir i + 4 * e + 4) :
    DirectoryMemory k.mem dir a ∧ ¬ Inside dir sizeofDirectory a := by
  have size : sizeofTable = 0x1000 := rfl
  have inside : Inside (tableOf k.mem dir i) sizeofTable a := ⟨by omega, by omega⟩
  exact ⟨Or.inr ⟨i, index, made, inside⟩, map.beside i a index made inside⟩

/-- The table of `new` does not meet the directory. -/
theorem NewBlock.beside_directory
    (new : NewBlock k (DirectoryMemory k.mem dir) sizeofTable table k₁) :
    dir + sizeofDirectory ≤ table ∨ table + 0x1000 ≤ dir := by
  have size : sizeofDirectory = 8196 := rfl
  refine (beside_of_apart (p := table) (q := dir) (by decide) fun a inside => ?_).symm
  by_contra reaches
  exact new.apart a (Or.inl ⟨by omega, by omega⟩) (new.inside a inside)

/-- The new table is the only one that the directory gets. -/
theorem NewBlock.tableOf_made
    (new : NewBlock k (DirectoryMemory k.mem dir) sizeofTable table k₁) {i j : Nat}
    (index : i < 1024) (bound : j < 1024) :
    tableOf (makeTable k₁.mem dir i table phys) dir j =
      if j = i then table else tableOf k.mem dir j := by
  have size : sizeofDirectory = 8196 := rfl
  have fits := new.fits
  have tableSize : sizeofTable = 0x1000 := rfl
  rw [tableOf_makeTable _ _ (by omega) new.beside_directory index bound]
  have before : tableOf k₁.mem dir j = tableOf k.mem dir j :=
    Memory.read32_congr fun o inWord => new.kept _ (Or.inl ⟨by omega, by omega⟩)
  rw [before]

/-- Bytes of the tables that were there. -/
theorem NewBlock.byte_made
    (new : NewBlock k (DirectoryMemory k.mem dir) sizeofTable table k₁) {i a : Nat}
    (index : i < 1024) (isLive : DirectoryMemory k.mem dir a)
    (offDirectory : ¬ Inside dir sizeofDirectory a) :
    makeTable k₁.mem dir i table phys a = k.mem a := by
  have size : sizeofDirectory = 8196 := rfl
  have tableSize : sizeofTable = 0x1000 := rfl
  have fits := new.fits
  have offTable : ¬ Inside table sizeofTable a := fun inside => new.apart a isLive (new.inside a inside)
  unfold Inside at offDirectory offTable
  rw [makeTable_outside _ _ (by omega) (by omega) (by omega) (by omega)]
  exact new.kept a isLive

theorem PageMap.made (map : PageMap k dir)
    (new : NewBlock k (DirectoryMemory k.mem dir) sizeofTable table k₁) {i : Nat}
    (index : i < 1024) : PageMap (k₁.withMem (makeTable k₁.mem dir i table phys)) dir := by
  have tables : ∀ j, j < 1024 → tableOf (makeTable k₁.mem dir i table phys) dir j =
      if j = i then table else tableOf k.mem dir j := fun j bound => new.tableOf_made index bound
  have tableSize : sizeofTable = 0x1000 := rfl
  have size : sizeofDirectory = 8196 := rfl
  have fits := new.fits
  have live : ∀ a, DirectoryMemory (makeTable k₁.mem dir i table phys) dir a →
      DirectoryMemory k.mem dir a ∨ Inside table sizeofTable a := by
    rintro a (inside | ⟨j, bound, made, inside⟩)
    · exact Or.inl (Or.inl inside)
    · rw [tables j bound] at made inside
      split at inside
      next new => exact Or.inr inside
      next old =>
        rw [if_neg old] at made
        exact Or.inl (Or.inr ⟨j, bound, made, inside⟩)
  have oldTable : ∀ j a, j < 1024 → tableOf k.mem dir j ≠ 0 →
      Inside (tableOf k.mem dir j) sizeofTable a → ¬ Inside table sizeofTable a :=
    fun j a bound made inside inTable =>
      new.apart a (Or.inr ⟨j, bound, made, inside⟩) (new.inside a inTable)
  refine ⟨?_, ?_, ?_⟩
  · refine (new.ordered.write (m := makeTable k₁.mem dir i table phys) fun a => ?_).mono
      fun a isLive => (live a isLive).imp_right (new.inside a)
    by_cases inDirectory : Inside dir sizeofDirectory a
    · exact Or.inl (Or.inl (Or.inl inDirectory))
    · by_cases inTable : Inside table sizeofTable a
      · exact Or.inl (Or.inr (new.inside a inTable))
      · unfold Inside at inDirectory inTable
        exact Or.inr (Or.inr (Or.inr
          (makeTable_outside _ _ (by omega) (by omega) (by omega) (by omega))))
  · intro j a bound made inside
    rw [Kernel.mem_withMem, tables j bound] at made inside
    split at inside
    next => exact fun inDirectory => new.apart a (Or.inl inDirectory) (new.inside a inside)
    next old =>
      rw [if_neg old] at made
      exact map.beside j a bound made inside
  · intro j l a boundJ boundL madeJ madeL insideJ insideL
    rw [Kernel.mem_withMem, tables j boundJ] at madeJ insideJ
    rw [Kernel.mem_withMem, tables l boundL] at madeL insideL
    by_cases newJ : j = i <;> by_cases newL : l = i
    · exact newJ.trans newL.symm
    · rw [if_pos newJ] at insideJ
      rw [if_neg newL] at madeL insideL
      exact absurd insideJ (oldTable l a boundL madeL insideL)
    · rw [if_neg newJ] at madeJ insideJ
      rw [if_pos newL] at insideL
      exact absurd insideL (oldTable j a boundJ madeJ insideJ)
    · rw [if_neg newJ] at madeJ insideJ
      rw [if_neg newL] at madeL insideL
      exact map.distinct j l a boundJ boundL madeJ madeL insideJ insideL

/-- `get_page(address, 1, dir)` when no table covers the address. -/
theorem PageMap.inserted (map : PageMap k dir) (small : address < 2 ^ 32)
    (absent : tableOf k.mem dir (tableIndex address) = 0)
    (new : NewBlock k (DirectoryMemory k.mem dir) sizeofTable table k₁) :
    Inserted k dir address (table + 4 * (address / 0x1000 % 1024))
      (k₁.withMem (makeTable k₁.mem dir (tableIndex address) table phys)) := by
  have index := tableIndex_lt small
  have positive := new.positive
  have fits := new.fits
  have tableSize : sizeofTable = 0x1000 := rfl
  have tables : ∀ j, j < 1024 →
      tableOf (makeTable k₁.mem dir (tableIndex address) table phys) dir j =
        if j = tableIndex address then table else tableOf k.mem dir j :=
    fun j bound => new.tableOf_made index bound
  have unchanged : ∀ b, b < 2 ^ 32 → tableIndex b ≠ tableIndex address →
      findPage (makeTable k₁.mem dir (tableIndex address) table phys) b dir =
        findPage k.mem b dir :=
    fun b smallB different =>
      findPage_congr ((tables _ (tableIndex_lt smallB)).trans (if_neg different))
  exact
    { map := map.made new index
      positive := by omega
      found := by
        have here := (tables _ index).trans (if_pos rfl)
        rw [getPage_lookup, Kernel.mem_withMem, findPage_of_table here (by omega)]
      kept := by
        intro b smallB covered
        obtain ⟨made, entry⟩ := findPage_covered covered
        have different : tableIndex b ≠ tableIndex address := fun same => made (same ▸ absent)
        refine ⟨unchanged b smallB different, Memory.read32_congr fun o inWord => ?_⟩
        obtain ⟨isLive, offDirectory⟩ := map.entry_kept (tableIndex_lt smallB) made
          (e := b / 0x1000 % 1024) (a := findPage k.mem b dir + o) (by omega) (by omega)
        exact new.byte_made index isLive offDirectory
      others := unchanged
      blank := by
        intro _ e bound
        rw [Kernel.mem_withMem, (tables _ index).trans (if_pos rfl)]
        exact makeTable_clear _ _ (by omega) new.beside_directory index bound }

/-- `get_page(address, 1, dir)` when a table covers the address. -/
theorem PageMap.unchanged (map : PageMap k dir)
    (covered : tableOf k.mem dir (tableIndex address) ≠ 0) :
    Inserted k dir address (findPage k.mem address dir) k where
  map := map
  positive := fun absent => covered ((findPage_eq_zero_iff _ _ _).mp absent)
  found := getPage_lookup k address dir
  kept := fun _ _ _ => ⟨rfl, rfl⟩
  others := fun _ _ _ => rfl
  blank := fun absent => absurd absent covered

/-- Inserting a page keeps every other entry. -/
theorem PageMap.insert {page : Nat} {k' : Kernel} (map : PageMap k dir)
    (space : BumpSpace k.heap sizeofTable) (small : address < 2 ^ 32)
    (returned : k.getPage address true dir = some (page, k')) :
    Inserted k dir address page k' := by
  by_cases covered : tableOf k.mem dir (tableIndex address) ≠ 0
  · rw [getPage_found true covered] at returned
    obtain ⟨rfl, rfl⟩ := Prod.mk.inj (Option.some.inj returned)
    exact map.unchanged covered
  · have absent := not_not.mp covered
    cases allocated : k.kmallocAlignedPhysical sizeofTable with
    | none =>
        have stuck : k.getPage address true dir = none := by
          unfold tableIndex at covered
          simp only [Kernel.getPage, if_neg covered, if_true, allocated, Option.map_none]
        rw [stuck] at returned
        contradiction
    | some result =>
        obtain ⟨table, phys, k₁⟩ := result
        rw [getPage_made address absent allocated] at returned
        obtain ⟨rfl, rfl⟩ := Prod.mk.inj (Option.some.inj returned)
        exact map.inserted small absent (map.ordered.newBlock (Or.inl rfl) space allocated)

/-- With room for the table it needs, inserting a page returns. -/
theorem PageMap.insert_returns (map : PageMap k dir) (space : BumpSpace k.heap sizeofTable)
    (room : tableOf k.mem dir (tableIndex address) ≠ 0 ∨ HasRoom k.heap sizeofTable) :
    ∃ page k', k.getPage address true dir = some (page, k') := by
  by_cases covered : tableOf k.mem dir (tableIndex address) ≠ 0
  · exact ⟨_, _, getPage_found true covered⟩
  · obtain ⟨table, phys, k₁, allocated⟩ :=
      map.ordered.allocates space (room.resolve_left covered)
    exact ⟨_, _, getPage_made address (not_not.mp covered) allocated⟩

/-! ### The map -/

/-- `get_page` is a lookup with insertion. Two calls for addresses on one page return one
entry, and calls for addresses on two pages return two. -/
theorem getPage_isMap (map : PageMap k dir) (space : BumpSpace k.heap sizeofTable)
    (small : address < 2 ^ 32) :
    (k.getPage address false dir = some (findPage k.mem address dir, k) ∧
      (findPage k.mem address dir = 0 ↔ tableOf k.mem dir (tableIndex address) = 0) ∧
      ∀ b, b < 2 ^ 32 → findPage k.mem address dir ≠ 0 →
        (findPage k.mem address dir = findPage k.mem b dir ↔ address / 0x1000 = b / 0x1000)) ∧
    (tableOf k.mem dir (tableIndex address) ≠ 0 ∨ HasRoom k.heap sizeofTable →
      ∃ page k', k.getPage address true dir = some (page, k')) ∧
    ∀ page k', k.getPage address true dir = some (page, k') →
      Inserted k dir address page k' ∧
        ∀ b other k'', b < 2 ^ 32 → BumpSpace k'.heap sizeofTable →
          k'.getPage b true dir = some (other, k'') →
            (other = page ↔ b / 0x1000 = address / 0x1000) := by
  refine ⟨⟨getPage_lookup k address dir, findPage_eq_zero_iff _ _ _,
    fun b smallB => map.findPage_inj small smallB⟩,
    map.insert_returns space, fun page k' returned => ?_⟩
  have first := map.insert space small returned
  refine ⟨first, fun b other k'' smallB space' again => ?_⟩
  have second := first.map.insert space' smallB again
  have here : findPage k'.mem address dir = page := by
    have found := first.found
    rw [getPage_lookup] at found
    exact (Prod.mk.inj (Option.some.inj found)).1
  have kept : findPage k''.mem address dir = page :=
    (second.kept address small (here ▸ first.positive)).1.trans here
  have there : findPage k''.mem b dir = other := by
    have found := second.found
    rw [getPage_lookup] at found
    exact (Prod.mk.inj (Option.some.inj found)).1
  rw [← kept, ← there]
  exact second.map.findPage_inj smallB small (there ▸ second.positive)

end

/-! ### A second table -/

theorem pageMap_spaceKernel (kd word : Nat) : PageMap (spaceKernel kd word) 0x44000 := by
  have first : ∀ i, i < 1024 → tableOf (spaceKernel kd word).mem 0x44000 i ≠ 0 →
      i = 0 ∧ tableOf (spaceKernel kd word).mem 0x44000 i = 0x50000 := by
    intro i index made
    rw [tableOf_spaceKernel index] at made ⊢
    split at made
    next zero => exact ⟨zero, if_pos zero⟩
    next => exact absurd rfl made
  have size : sizeofDirectory = 8196 := rfl
  have tableSize : sizeofTable = 0x1000 := rfl
  refine ⟨.bump rfl (show 0x1000 ≤ 0x100000 by decide) fun a isLive => ?_, ?_, ?_⟩
  · change a < 0x100000
    rcases isLive with inDirectory | ⟨i, index, made, inTable⟩
    · have below := inDirectory.2
      omega
    · have below := inTable.2
      rw [(first i index made).2] at below
      omega
  · intro i a index made inTable inDirectory
    have above := inTable.1
    rw [(first i index made).2] at above
    have below := inDirectory.2
    omega
  · intro i j _ index bound madeI madeJ _ _
    exact (first i index madeI).1.trans (first j bound madeJ).1.symm

/-- `getPage_isMap` for the page at 4 MB, which gets a table. -/
theorem getPage_isMap_secondTable :
    ∃ page k', (spaceKernel 0x40000 0).getPage 0x400000 true 0x44000 = some (page, k') ∧
      Inserted (spaceKernel 0x40000 0) 0x44000 0x400000 page k' := by
  obtain ⟨-, returns, inserts⟩ := getPage_isMap (pageMap_spaceKernel 0x40000 0)
    (fun _ => by decide) (show 0x400000 < 2 ^ 32 by decide)
  obtain ⟨page, k', returned⟩ := returns (Or.inr (Or.inl rfl))
  exact ⟨page, k', returned, (inserts page k' returned).1⟩

end Balloon.Paging
