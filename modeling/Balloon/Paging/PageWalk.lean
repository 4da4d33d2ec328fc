import Balloon.Paging.PageMap

/-!
Owns the page walk of the processor and when it finds what `get_page` finds: the two arrays of a
directory name the same tables, and `physicalAddr` names the second array. It does not own how
directories come to be in that state.
-/

namespace Balloon.Paging

open Balloon.Foundation
open Balloon.Libc
open Balloon.Allocator
open Balloon.Frames

/-! ### The two walks -/

/-- What a page entry that is present says of its page. -/
structure Translation where
  frame : Nat
  writeable : Bool
  user : Bool
deriving DecidableEq, Repr

/-- The walk of the processor with `cr3` loaded: a word of the directory, then a word of the
table it names. A page is writeable, or open to user mode, if both words say so. -/
def mmuWalk (m : Memory) (cr3 v : Nat) : Option Translation :=
  let tableEntry := entryAt m (cr3 / 0x1000 * 0x1000 + 4 * tableIndex v)
  let entry := entryAt m (tableEntry.frame * 0x1000 + 4 * (v / 0x1000 % 1024))
  if tableEntry.present ∧ entry.present then
    some
      { frame := entry.frame
        writeable := tableEntry.rw && entry.rw
        user := tableEntry.user && entry.user }
  else none

/-- What the kernel finds with `get_page(v, 0, dir)`. -/
def kernelWalk (k : Kernel) (v dir : Nat) : Option Translation :=
  (k.getPage v false dir).bind fun (page, k) =>
    let entry := entryAt k.mem page
    if page ≠ 0 ∧ entry.present then
      some { frame := entry.frame, writeable := entry.rw, user := entry.user }
    else none

/-- The words of one slot: no table, or the address of a table and that address with the flags
present, writeable and user. -/
def SameTable (table physical : Nat) : Prop :=
  (table = 0 ∧ physical = 0) ∨
    (table ≠ 0 ∧ table % 0x1000 = 0 ∧ physical = table ||| 0x7)

/-- `tablesPhysical` and `physicalAddr` of the directory at `dir` say what `tables` says. -/
structure Mirrored (m : Memory) (dir : Nat) : Prop where
  page : dir % 0x1000 = 0
  positive : 0x1000 ≤ dir
  physicalAddr : physicalAddrOf m dir = dir + 4096
  slot : ∀ i, i < 1024 → SameTable (tableOf m dir i) (tablePhysicalOf m dir i)

section

variable {m m' : Memory} {k : Kernel} {dir table v : Nat}

theorem or_seven (page : table % 0x1000 = 0) : table ||| 0x7 = table + 7 := by
  have split := Nat.two_pow_add_eq_or_of_lt (show 7 < 2 ^ 12 by decide) (table / 2 ^ 12)
  rw [show 2 ^ 12 * (table / 2 ^ 12) = table by omega] at split
  exact split.symm

/-- The word that `get_page` and `clone_directory` store for a table. -/
theorem decode_tableEntry (page : table % 0x1000 = 0) (small : table < 2 ^ 32) :
    (decode (table ||| 0x7)).present = true ∧ (decode (table ||| 0x7)).rw = true ∧
      (decode (table ||| 0x7)).user = true ∧
      (decode (table ||| 0x7)).frame * 0x1000 = table := by
  simp only [or_seven page, decode, decide_eq_true_eq]
  omega

/-- In a mirrored directory both walks find the same. -/
theorem Mirrored.walks_agree (mirrored : Mirrored k.mem dir) (small : v < 2 ^ 32) :
    mmuWalk k.mem (physicalAddrOf k.mem dir) v = kernelWalk k v dir := by
  have page := mirrored.page
  have index := tableIndex_lt small
  have start : (dir + 4096) / 0x1000 * 0x1000 = dir + 4096 := by omega
  rw [kernelWalk, getPage_lookup, Option.bind_some]
  simp only [mmuWalk, mirrored.physicalAddr, start]
  have word : entryAt k.mem (dir + 4096 + 4 * tableIndex v) =
      decode (tablePhysicalOf k.mem dir (tableIndex v)) := rfl
  rw [word]
  rcases mirrored.slot _ index with ⟨absent, zero⟩ | ⟨made, tablePage, physical⟩
  · have notFound := (findPage_eq_zero_iff k.mem v dir).mpr absent
    rw [zero, notFound]
    simp [PageT.zero]
  · obtain ⟨present, rw, user, address⟩ := decode_tableEntry tablePage (k.mem.read32_lt _)
    have found : findPage k.mem v dir = tableOf k.mem dir (tableIndex v) + 4 * (v / 0x1000 % 1024) :=
      findPage_of_table rfl made
    rw [physical, found, present, rw, user, address]
    have positive : tableOf k.mem dir (tableIndex v) + 4 * (v / 0x1000 % 1024) ≠ 0 := by omega
    simp only [positive, ne_eq, not_false_eq_true, true_and, Bool.true_and]

/-- A directory is mirrored by its own words. -/
theorem Mirrored.congr (mirrored : Mirrored m dir)
    (same : ∀ a, Inside dir sizeofDirectory a → m' a = m a) : Mirrored m' dir := by
  have size : sizeofDirectory = 8196 := rfl
  have word : ∀ o, o + 4 ≤ sizeofDirectory → m'.read32 (dir + o) = m.read32 (dir + o) :=
    fun o bound => Memory.read32_congr fun b inWord => same _ ⟨by omega, by omega⟩
  refine ⟨mirrored.page, mirrored.positive, (word 8192 (by decide)).trans mirrored.physicalAddr,
    fun i index => ?_⟩
  have table : tableOf m' dir i = tableOf m dir i := word (4 * i) (by omega)
  have physical : tablePhysicalOf m' dir i = tablePhysicalOf m dir i := by
    unfold tablePhysicalOf
    rw [Nat.add_assoc]
    exact word (4096 + 4 * i) (by omega)
  rw [table, physical]
  exact mirrored.slot i index

theorem tableOf_congr {i : Nat} (index : i < 1024)
    (same : ∀ a, Inside dir sizeofDirectory a → m' a = m a) :
    tableOf m' dir i = tableOf m dir i := by
  have size : sizeofDirectory = 8196 := rfl
  exact Memory.read32_congr fun o inWord => same _ ⟨by omega, by omega⟩

end

/-! ### Physical addresses -/

/-- `kernel_directory` maps the address `a` to itself. -/
def IdentityMaps (k : Kernel) (a : Nat) : Prop :=
  findPage k.mem a k.kernelDirectory ≠ 0 ∧
    (entryAt k.mem (findPage k.mem a k.kernelDirectory)).present ∧
    (entryAt k.mem (findPage k.mem a k.kernelDirectory)).frame = a / 0x1000

/-- The physical address that `kmalloc_raw` reports for the address `a`. -/
def physicalOf (k : Kernel) (a : Nat) : Nat :=
  if k.heap.heapEnd ≠ 0 then
    wrap32 ((entryAt k.mem (findPage k.mem a k.kernelDirectory)).frame * 0x1000 + a % 0x1000)
  else a

/-- `k'` still has the directory and the tables that `kmalloc_raw` looks addresses up in. -/
structure KeepsKernel (k k' : Kernel) : Prop where
  mode : k'.heap.heapEnd = 0 ↔ k.heap.heapEnd = 0
  directory : k'.kernelDirectory = k.kernelDirectory
  bytes : ∀ a, DirectoryMemory k.mem k.kernelDirectory a → k'.mem a = k.mem a

section

variable {k k₁ k' : Kernel} {a p phys size : Nat} {live : Nat → Prop}

theorem IdentityMaps.physicalOf (identity : IdentityMaps k a) (small : a < 2 ^ 32) :
    physicalOf k a = a := by
  unfold Paging.physicalOf
  split
  · rw [identity.2.2, wrap32_of_lt (by omega)]
    omega
  · rfl

theorem PlacedBlock.physical (placed : PlacedBlock k live size p k₁)
    (returned : k.kmallocAlignedPhysical size = some (p, phys, k₁)) : phys = physicalOf k₁ p := by
  obtain ⟨⟨p', h⟩, -, result⟩ := Option.map_eq_some_iff.mp returned
  obtain ⟨rfl, rfl, rfl⟩ := by simpa only [Prod.mk.injEq] using result
  have mode := placed.mode
  unfold physicalOf
  by_cases booted : k.heap.heapEnd = 0
  · rw [if_neg (not_not.mpr booted), if_neg (not_not.mpr (mode.mpr booted))]
  · rw [if_pos booted, if_pos (mode.not.mpr booted)]
    rfl

theorem KeepsKernel.tables (keeps : KeepsKernel k k') {i : Nat} (index : i < 1024) :
    tableOf k'.mem k.kernelDirectory i = tableOf k.mem k.kernelDirectory i :=
  tableOf_congr index fun a inside => keeps.bytes a (Or.inl inside)

theorem KeepsKernel.lookup (keeps : KeepsKernel k k') (small : a < 2 ^ 32) :
    findPage k'.mem a k'.kernelDirectory = findPage k.mem a k.kernelDirectory := by
  rw [keeps.directory]
  exact findPage_congr (keeps.tables (tableIndex_lt small))

/-- The bytes of an entry that is found. -/
theorem entry_directoryMemory {m : Memory} {dir : Nat} (small : a < 2 ^ 32)
    (found : findPage m a dir ≠ 0) {o : Nat} (inWord : o < 4) :
    DirectoryMemory m dir (findPage m a dir + o) := by
  have size : sizeofTable = 0x1000 := rfl
  obtain ⟨made, entry⟩ := findPage_covered found
  exact Or.inr ⟨_, tableIndex_lt small, made, by omega, by omega⟩

theorem KeepsKernel.entry (keeps : KeepsKernel k k') (small : a < 2 ^ 32)
    (found : findPage k.mem a k.kernelDirectory ≠ 0) :
    entryAt k'.mem (findPage k'.mem a k'.kernelDirectory) =
      entryAt k.mem (findPage k.mem a k.kernelDirectory) := by
  rw [keeps.lookup small]
  exact congrArg decode (Memory.read32_congr fun o inWord =>
    keeps.bytes _ (entry_directoryMemory small found inWord))

theorem KeepsKernel.physicalOf (keeps : KeepsKernel k k') (small : a < 2 ^ 32)
    (found : findPage k.mem a k.kernelDirectory ≠ 0) : physicalOf k' a = physicalOf k a := by
  unfold Paging.physicalOf
  rw [keeps.entry small found]
  by_cases fresh : k.heap.heapEnd = 0
  · rw [if_neg (not_not.mpr (keeps.mode.mpr fresh)), if_neg (not_not.mpr fresh)]
  · rw [if_pos (keeps.mode.not.mpr fresh), if_pos fresh]

theorem KeepsKernel.identityMaps_iff (keeps : KeepsKernel k k') (small : a < 2 ^ 32) :
    IdentityMaps k' a ↔ IdentityMaps k a := by
  by_cases found : findPage k.mem a k.kernelDirectory = 0
  · exact iff_of_false (fun identity => identity.1 ((keeps.lookup small).trans found))
      fun identity => identity.1 found
  · unfold IdentityMaps
    rw [keeps.entry small found, keeps.lookup small]

theorem KeepsKernel.refl (k : Kernel) : KeepsKernel k k :=
  ⟨Iff.rfl, rfl, fun _ _ => rfl⟩

end

end Balloon.Paging
