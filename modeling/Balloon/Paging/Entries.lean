import Balloon.Paging.Model

/-!
Owns the rules of page entries in memory: the 32 bits of a `page_t`, what
`alloc_frame` stores, and the translation of an address through the tables of a
directory. It does not own where directories and tables lie.
-/

namespace Balloon.Paging

open Balloon.Foundation
open Balloon.Libc
open Balloon.Allocator
open Balloon.Frames

/-! ### The bits of an entry -/

/-- The fields hold their width. -/
structure Fits (p : PageT) : Prop where
  unused : p.unused < 128
  frame : p.frame < 2 ^ 20

theorem fits_decode (w : Nat) : Fits (decode w) where
  unused := Nat.mod_lt _ (by decide)
  frame := Nat.mod_lt _ (by decide)

theorem encode_lt (p : PageT) : encode p < 2 ^ 32 := by
  have bits := And.intro p.present.toNat_le (And.intro p.rw.toNat_le (And.intro p.user.toNat_le
    (And.intro p.accessed.toNat_le p.dirty.toNat_le)))
  simp only [encode]
  omega

private theorem decide_bit {b : Bool} {n : Nat} (bit : n % 2 = b.toNat) :
    decide (n % 2 = 1) = b := by
  rw [bit]
  cases b <;> rfl

theorem decode_encode {p : PageT} (fits : Fits p) : decode (encode p) = p := by
  obtain ⟨present, rw, user, accessed, dirty, unused, frame⟩ := p
  have unusedLt : unused < 128 := fits.unused
  have frameLt : frame < 2 ^ 20 := fits.frame
  have presentLe := present.toNat_le
  have rwLe := rw.toNat_le
  have userLe := user.toNat_le
  have accessedLe := accessed.toNat_le
  have dirtyLe := dirty.toNat_le
  simp only [decode, encode, PageT.mk.injEq]
  refine ⟨?_, ?_, ?_, ?_, ?_, by omega, by omega⟩
  all_goals
    apply decide_bit
    omega

theorem encode_decode {w : Nat} (small : w < 2 ^ 32) : encode (decode w) = w := by
  have bit : ∀ n, (decide (n % 2 = 1)).toNat = n % 2 := by
    intro n
    rcases Nat.mod_two_eq_zero_or_one n with even | odd
    · rw [even]
      rfl
    · rw [odd]
      rfl
  simp only [decode, encode, bit]
  omega

@[simp] theorem decode_zero : decode 0 = PageT.zero := rfl

theorem entryAt_write (m : Memory) (page : Nat) {p : PageT} (fits : Fits p) :
    entryAt (m.write32 page (encode p)) page = p := by
  rw [entryAt, Memory.read32_write32_same, Nat.mod_eq_of_lt (encode_lt p), decode_encode fits]

theorem fits_entryAt (m : Memory) (page : Nat) : Fits (entryAt m page) := fits_decode _

/-- The entry of a table that `alloc_frame` has not touched. -/
theorem entryAt_zero {m : Memory} {page : Nat} (clear : m.read32 page = 0) :
    entryAt m page = PageT.zero := by
  rw [entryAt, clear, decode_zero]

/-! ### Translation -/

theorem findPage_eq {m : Memory} {dir table n : Nat} (table_eq : tableOf m dir (n / 1024) = table)
    (made : table ≠ 0) : findPage m (n * 0x1000) dir = table + 4 * (n % 1024) := by
  have page : n * 0x1000 / 0x1000 = n := by omega
  simp only [findPage, page, table_eq, if_pos made]

/-- `get_page` on a table that is there. -/
theorem getPage_found {k : Kernel} {address dir : Nat} (make : Bool)
    (made : tableOf k.mem dir (address / 0x1000 / 1024) ≠ 0) :
    k.getPage address make dir = some (findPage k.mem address dir, k) := by
  simp only [Kernel.getPage, findPage, if_pos made]

/-! ### Making a table -/

/-- `a` is one of the `size` bytes at `p`. -/
def Inside (p size a : Nat) : Prop := p ≤ a ∧ a < p + size

/-- The memory after `get_page` has made the table `table` of `dir->tables[i]`, at
the physical address `phys`. -/
def makeTable (m : Memory) (dir i table phys : Nat) : Memory :=
  (memset (m.write32 (dir + 4 * i) table) table 0 0x1000).write32 (dir + 4096 + 4 * i)
    (phys ||| 0x7)

/-- `get_page` on a table that is not there. -/
theorem getPage_made {k k' : Kernel} (address : Nat) {dir table phys : Nat}
    (absent : tableOf k.mem dir (address / 0x1000 / 1024) = 0)
    (returned : k.kmallocAlignedPhysical sizeofTable = some (table, phys, k')) :
    k.getPage address true dir =
      some (table + 4 * (address / 0x1000 % 1024),
        k'.withMem (makeTable k'.mem dir (address / 0x1000 / 1024) table phys)) := by
  simp only [Kernel.getPage, absent, ne_eq, not_true_eq_false, if_false, if_true, returned,
    Option.map_some, makeTable]

/-- What `get_page(address, 1, dir)` can do: find the entry, or make its table. -/
theorem getPage_eq_some {k k' : Kernel} {address dir page : Nat}
    (returned : k.getPage address true dir = some (page, k')) :
    (tableOf k.mem dir (address / 0x1000 / 1024) ≠ 0 ∧ page = findPage k.mem address dir ∧
        k' = k) ∨
      tableOf k.mem dir (address / 0x1000 / 1024) = 0 ∧ ∃ table phys k₁,
        k.kmallocAlignedPhysical sizeofTable = some (table, phys, k₁) ∧
          page = table + 4 * (address / 0x1000 % 1024) ∧
            k' = k₁.withMem (makeTable k₁.mem dir (address / 0x1000 / 1024) table phys) := by
  by_cases covered : tableOf k.mem dir (address / 0x1000 / 1024) ≠ 0
  · rw [getPage_found true covered] at returned
    obtain ⟨rfl, rfl⟩ := Prod.mk.inj (Option.some.inj returned)
    exact Or.inl ⟨covered, rfl, rfl⟩
  · have absent := not_not.mp covered
    cases allocated : k.kmallocAlignedPhysical sizeofTable with
    | none =>
        simp only [Kernel.getPage, if_neg covered, if_true, allocated, Option.map_none] at returned
        contradiction
    | some result =>
        obtain ⟨table, phys, k₁⟩ := result
        rw [getPage_made address absent allocated] at returned
        obtain ⟨rfl, rfl⟩ := Prod.mk.inj (Option.some.inj returned)
        exact Or.inr ⟨absent, table, phys, k₁, rfl, rfl, rfl⟩

section MakeTable

variable (m : Memory) {dir i table : Nat} (phys : Nat)

theorem makeTable_outside (fits : table + 0x1000 ≤ 2 ^ 32) {a : Nat}
    (notTables : a < dir + 4 * i ∨ dir + 4 * i + 4 ≤ a)
    (notPhysical : a < dir + 4096 + 4 * i ∨ dir + 4096 + 4 * i + 4 ≤ a)
    (notTable : a < table ∨ table + 0x1000 ≤ a) : makeTable m dir i table phys a = m a := by
  rw [makeTable, Memory.write32_outside _ _ notPhysical, memset_eq_fill _ _ fits,
    Memory.fill_outside _ _ notTable, Memory.write32_outside _ _ notTables]

theorem tableOf_makeTable (fits : table + 0x1000 ≤ 2 ^ 32)
    (apart : dir + sizeofDirectory ≤ table ∨ table + 0x1000 ≤ dir) (index : i < 1024) {j : Nat}
    (bound : j < 1024) :
    tableOf (makeTable m dir i table phys) dir j = if j = i then table else tableOf m dir j := by
  simp only [sizeofDirectory] at apart
  rw [tableOf, makeTable, Memory.read32_write32_disjoint _ _ (by omega), memset_eq_fill _ _ fits,
    Memory.read32_fill_disjoint _ _ (by omega)]
  by_cases same : j = i
  · rw [if_pos same, same, Memory.read32_write32_same, Nat.mod_eq_of_lt (by omega)]
  · rw [if_neg same, Memory.read32_write32_disjoint _ _ (by omega), tableOf]

theorem tablePhysicalOf_makeTable {phys : Nat} (fits : table + 0x1000 ≤ 2 ^ 32)
    (physFits : phys < 2 ^ 32)
    (apart : dir + sizeofDirectory ≤ table ∨ table + 0x1000 ≤ dir) (index : i < 1024) {j : Nat}
    (bound : j < 1024) :
    tablePhysicalOf (makeTable m dir i table phys) dir j =
      if j = i then phys ||| 0x7 else tablePhysicalOf m dir j := by
  simp only [sizeofDirectory] at apart
  rw [tablePhysicalOf, makeTable]
  by_cases same : j = i
  · rw [if_pos same, same, Memory.read32_write32_same,
      Nat.mod_eq_of_lt (Nat.or_lt_two_pow physFits (by decide))]
  · rw [if_neg same, Memory.read32_write32_disjoint _ _ (by omega), memset_eq_fill _ _ fits,
      Memory.read32_fill_disjoint _ _ (by omega), Memory.read32_write32_disjoint _ _ (by omega),
      tablePhysicalOf]

theorem makeTable_clear (fits : table + 0x1000 ≤ 2 ^ 32)
    (apart : dir + sizeofDirectory ≤ table ∨ table + 0x1000 ≤ dir) (index : i < 1024) {e : Nat}
    (bound : e < 1024) : (makeTable m dir i table phys).read32 (table + 4 * e) = 0 := by
  simp only [sizeofDirectory] at apart
  rw [makeTable, Memory.read32_write32_disjoint _ _ (by omega), memset_eq_fill _ _ fits]
  exact Memory.read32_fill_zero _ (by omega)

theorem read32_makeTable (fits : table + 0x1000 ≤ 2 ^ 32) (index : i < 1024) {a : Nat}
    (notDirectory : a + 4 ≤ dir ∨ dir + sizeofDirectory ≤ a)
    (notTable : a + 4 ≤ table ∨ table + 0x1000 ≤ a) :
    (makeTable m dir i table phys).read32 a = m.read32 a := by
  simp only [sizeofDirectory] at notDirectory
  exact Memory.read32_congr fun o bound =>
    makeTable_outside m phys fits (by omega) (by omega) (by omega)

end MakeTable

/-! ### `alloc_frame` on an entry -/

/-- What `alloc_frame(page, is_kernel, is_writeable)` makes of the zero entry. -/
def givenPage (isKernel isWriteable : Bool) (frame : Nat) : PageT :=
  { PageT.zero with present := true, rw := isWriteable, user := !isKernel, frame := frame }

theorem fits_givenPage (isKernel isWriteable : Bool) {frame : Nat} (small : frame < 2 ^ 20) :
    Fits (givenPage isKernel isWriteable frame) :=
  ⟨by simp [givenPage, PageT.zero], small⟩

/-- On a zero entry, with a frame free, the least free frame is taken. -/
theorem allocFrame_zero {k : Kernel} {page : Nat} (clear : k.mem.read32 page = 0)
    (free : k.frames.HasFree) (bound : k.frames.scanned ≤ 2 ^ 20) (isKernel isWriteable : Bool)
    (undef : BitVec 32) :
    k.allocFrame page isKernel isWriteable undef =
      some ({ k with frames := setFrame k.frames (firstFrame k.frames undef * 0x1000) }.withMem
        (k.mem.write32 page
          (encode (givenPage isKernel isWriteable (firstFrame k.frames undef))))) := by
  rw [Kernel.allocFrame, entryAt_zero clear, allocFrame_free rfl free bound]
  rfl

/-- On an entry that holds a frame nothing happens. -/
theorem allocFrame_nonzero {k : Kernel} {page : Nat} (held : (entryAt k.mem page).frame ≠ 0)
    (isKernel isWriteable : Bool) (undef : BitVec 32) :
    k.allocFrame page isKernel isWriteable undef = some k := by
  have same : encode (entryAt k.mem page) = k.mem.read32 page :=
    encode_decode (k.mem.read32_lt page)
  rw [Kernel.allocFrame, allocFrame_held held]
  simp only [Option.map_some, same, Memory.write32_read32]
  rfl

/-- On a zero entry, with no frame free, the entry gets what the return register
holds, unless that is the value `alloc_frame` panics on. -/
theorem allocFrame_full {k : Kernel} {page : Nat} (clear : k.mem.read32 page = 0)
    (full : ¬ k.frames.HasFree) (isKernel isWriteable : Bool) (undef : BitVec 32) :
    k.allocFrame page isKernel isWriteable undef =
      if undef.toNat = 0xFFFFFFFF then none
      else some ({ k with frames := setFrame k.frames (undef.toNat * 0x1000 % 2 ^ 32) }.withMem
        (k.mem.write32 page
          (encode (givenPage isKernel isWriteable (undef.toNat % 2 ^ 20))))) := by
  rw [Kernel.allocFrame, entryAt_zero clear, Frames.allocFrame,
    if_neg (not_not.mpr rfl : ¬ PageT.zero.frame ≠ 0), FrameMap.firstFrame_full full]
  by_cases panics : undef.toNat = 0xFFFFFFFF
  · simp only [if_pos panics, Option.map_none]
  · simp only [if_neg panics, Option.map_some]
    rfl

end Balloon.Paging
