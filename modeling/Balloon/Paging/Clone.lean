import Balloon.Paging.Entries

/-!
Owns the embedding of `copy_page_physical` of process.s and of `clone_table` and
`clone_directory` of task.c.

`memset` clears `sizeof(page_directory_t)` bytes for a table as it does for a directory.
Once the heap is up, a clear that runs past `KHEAP_END` faults, and `page_fault` does not
return.
-/

namespace Balloon.Paging

open Balloon.Foundation
open Balloon.Libc
open Balloon.Allocator
open Balloon.Frames

/-- `.page_loop`, with `edx` words left. -/
def pageLoop (m : Memory) (ebx ecx : Nat) : Nat → Memory
  | 0 => m
  | edx + 1 => pageLoop (m.write32 ecx (m.read32 ebx)) (wrap32 (ebx + 4)) (wrap32 (ecx + 4)) edx

def copyPagePhysical (m : Memory) (src dest : Nat) : Memory := pageLoop m src dest 0x400

/-- `if (src->flag) dest->flag = 1;` on the entries at `src` and `dest`. -/
def cloneFlag (m : Memory) (src dest : Nat) (flag : PageT → Bool) (set : PageT → PageT) :
    Memory :=
  if flag (entryAt m src) then m.write32 dest (encode (set (entryAt m dest))) else m

/-- The five conditional sets of `clone_table`. -/
def cloneFlags (m : Memory) (src dest : Nat) : Memory :=
  let m := cloneFlag m src dest PageT.present fun page => { page with present := true }
  let m := cloneFlag m src dest PageT.rw fun page => { page with rw := true }
  let m := cloneFlag m src dest PageT.user fun page => { page with user := true }
  let m := cloneFlag m src dest PageT.accessed fun page => { page with accessed := true }
  cloneFlag m src dest PageT.dirty fun page => { page with dirty := true }

namespace Kernel

/-- `memset(p, 0, sizeof(page_directory_t))`. -/
def clearDirectory (k : Kernel) (p : Nat) : Option Kernel :=
  if k.heap.heapEnd ≠ 0 ∧ kheapEnd < p + sizeofDirectory then none
  else some (k.withMem (memset k.mem p 0 sizeofDirectory))

/-- The round of `clone_table` for `src->pages[i]` and `table->pages[i]`. -/
def cloneEntry (k : Kernel) (src table i : Nat) (undef : BitVec 32) : Option Kernel :=
  if (entryAt k.mem (src + 4 * i)).frame ≠ 0 then
    (k.allocFrame (table + 4 * i) false false undef).map fun k =>
      let m := cloneFlags k.mem (src + 4 * i) (table + 4 * i)
      k.withMem (copyPagePhysical m ((entryAt m (src + 4 * i)).frame * 0x1000)
        ((entryAt m (table + 4 * i)).frame * 0x1000))
  else some k

/-- `clone_table`: the table, its physical address and the kernel. `undef i` is what a
`first_frame` that finds nothing returns in round `i`. -/
def cloneTable (k : Kernel) (src : Nat) (undef : Nat → BitVec 32) :
    Option (Nat × Nat × Kernel) :=
  (k.kmallocAlignedPhysical sizeofTable).bind fun (table, physAddr, k) =>
    (k.clearDirectory table).bind fun k =>
      ((List.range 1024).foldlM (fun (k : Kernel) i => k.cloneEntry src table i (undef i)) k).map
        fun k => (table, physAddr, k)

/-- The round of `clone_directory` for `src->tables[i]`. -/
def cloneSlot (k : Kernel) (src dir i : Nat) (undef : Nat → BitVec 32) : Option Kernel :=
  if tableOf k.mem src i = 0 then some k
  else if tableOf k.mem k.kernelDirectory i = tableOf k.mem src i then
    let m := k.mem.write32 (dir + 4 * i) (tableOf k.mem src i)
    some (k.withMem (m.write32 (dir + 4096 + 4 * i) (tablePhysicalOf m src i)))
  else
    (k.cloneTable (tableOf k.mem src i) undef).map fun (table, phys, k) =>
      let m := k.mem.write32 (dir + 4 * i) table
      k.withMem (m.write32 (dir + 4096 + 4 * i) (phys ||| 0x7))

/-- `clone_directory`, where `tablesPhysical` is 4096 bytes behind the start of a
directory. `undef i` are the values for the table of slot `i`. -/
def cloneDirectory (k : Kernel) (src : Nat) (undef : Nat → Nat → BitVec 32) :
    Option (Nat × Kernel) :=
  (k.kmallocAlignedPhysical sizeofDirectory).bind fun (dir, phys, k) =>
    (k.clearDirectory dir).bind fun k =>
      ((List.range 1024).foldlM (fun (k : Kernel) i => k.cloneSlot src dir i (undef i))
        (k.withMem (k.mem.write32 (dir + 8192) (wrap32 (phys + 4096))))).map fun k => (dir, k)

end Kernel

/-! ### Copying a page -/

theorem pageLoop_outside {n : Nat} {m : Memory} {ebx ecx : Nat} (fits : ecx + 4 * n ≤ 2 ^ 32)
    {a : Nat} (outside : a < ecx ∨ ecx + 4 * n ≤ a) : pageLoop m ebx ecx n a = m a := by
  induction n generalizing m ebx ecx with
  | zero => rfl
  | succ n inductionHypothesis =>
      have stored : (m.write32 ecx (m.read32 ebx)) a = m a :=
        Memory.write32_outside _ _ (by omega)
      rw [pageLoop]
      cases n with
      | zero => exact stored
      | succ n =>
          rw [wrap32_of_lt (show ecx + 4 < 2 ^ 32 by omega)]
          exact (inductionHypothesis (by omega) (by omega)).trans stored

theorem pageLoop_inside {n : Nat} {m : Memory} {ebx ecx : Nat} (source : ebx + 4 * n ≤ 2 ^ 32)
    (fits : ecx + 4 * n ≤ 2 ^ 32) (apart : ebx + 4 * n ≤ ecx ∨ ecx + 4 * n ≤ ebx) {o : Nat}
    (inside : o < 4 * n) : pageLoop m ebx ecx n (ecx + o) = m (ebx + o) := by
  induction n generalizing m ebx ecx o with
  | zero => omega
  | succ n inductionHypothesis =>
      rw [pageLoop]
      by_cases first : o < 4
      · have stored := Memory.write32_read32_byte m ecx ebx first
        cases n with
        | zero => exact stored
        | succ n =>
            rw [wrap32_of_lt (show ecx + 4 < 2 ^ 32 by omega)]
            exact (pageLoop_outside (by omega) (by omega)).trans stored
      · rw [wrap32_of_lt (show ecx + 4 < 2 ^ 32 by omega),
          wrap32_of_lt (show ebx + 4 < 2 ^ 32 by omega),
          show ecx + o = ecx + 4 + (o - 4) by omega,
          inductionHypothesis (by omega) (by omega) (by omega) (by omega),
          show ebx + 4 + (o - 4) = ebx + o by omega]
        exact Memory.write32_outside _ _ (by omega)

/-- `copy_page_physical` writes the destination page only. -/
theorem copyPagePhysical_outside (m : Memory) (src : Nat) {f : Nat} (small : f < 2 ^ 20) {a : Nat}
    (outside : a < f * 0x1000 ∨ f * 0x1000 + 0x1000 ≤ a) :
    copyPagePhysical m src (f * 0x1000) a = m a :=
  pageLoop_outside (by omega) (by omega)

/-- It copies the bytes of another page. -/
theorem copyPagePhysical_inside (m : Memory) {f g : Nat} (small : f < 2 ^ 20)
    (source : g < 2 ^ 20) (different : g ≠ f) {o : Nat} (inPage : o < 0x1000) :
    copyPagePhysical m (g * 0x1000) (f * 0x1000) (f * 0x1000 + o) = m (g * 0x1000 + o) :=
  pageLoop_inside (by omega) (by omega) (by omega) (by omega)

-- 1024 rounds; only the rules above speak about the loop.
attribute [irreducible] copyPagePhysical

/-! ### Copying the flags -/

/-- The entry `page` with the flags of `source` turned on. -/
def withFlags (page source : PageT) : PageT :=
  { page with
    present := page.present || source.present
    rw := page.rw || source.rw
    user := page.user || source.user
    accessed := page.accessed || source.accessed
    dirty := page.dirty || source.dirty }

theorem cloneFlag_outside (m : Memory) (src : Nat) {dest a : Nat} (flag : PageT → Bool)
    (set : PageT → PageT) (outside : a < dest ∨ dest + 4 ≤ a) :
    cloneFlag m src dest flag set a = m a := by
  unfold cloneFlag
  split
  · exact Memory.write32_outside _ _ outside
  · rfl

theorem entryAt_cloneFlag_src (m : Memory) {src dest : Nat} (flag : PageT → Bool)
    (set : PageT → PageT) (apart : src + 4 ≤ dest ∨ dest + 4 ≤ src) :
    entryAt (cloneFlag m src dest flag set) src = entryAt m src := by
  rw [entryAt, entryAt,
    Memory.read32_congr fun o bound => cloneFlag_outside m src flag set (by omega)]

theorem entryAt_cloneFlag (m : Memory) (src dest : Nat) (flag : PageT → Bool)
    {set : PageT → PageT} (fits : Fits (set (entryAt m dest))) :
    entryAt (cloneFlag m src dest flag set) dest =
      if flag (entryAt m src) then set (entryAt m dest) else entryAt m dest := by
  unfold cloneFlag
  split
  · exact entryAt_write m dest fits
  · rfl

theorem cloneFlags_outside (m : Memory) (src : Nat) {dest a : Nat}
    (outside : a < dest ∨ dest + 4 ≤ a) : cloneFlags m src dest a = m a := by
  simp only [cloneFlags]
  rw [cloneFlag_outside _ _ _ _ outside, cloneFlag_outside _ _ _ _ outside,
    cloneFlag_outside _ _ _ _ outside, cloneFlag_outside _ _ _ _ outside,
    cloneFlag_outside _ _ _ _ outside]

/-- The conditional sets only turn flags on. -/
theorem entryAt_cloneFlags (m : Memory) {src dest : Nat}
    (apart : src + 4 ≤ dest ∨ dest + 4 ≤ src) :
    entryAt (cloneFlags m src dest) dest = withFlags (entryAt m dest) (entryAt m src) := by
  simp only [cloneFlags]
  have fits : ∀ m', Fits (entryAt m' dest) := fun m' => fits_entryAt m' dest
  rw [entryAt_cloneFlag _ _ _ _ ⟨(fits _).unused, (fits _).frame⟩,
    entryAt_cloneFlag _ _ _ _ ⟨(fits _).unused, (fits _).frame⟩,
    entryAt_cloneFlag _ _ _ _ ⟨(fits _).unused, (fits _).frame⟩,
    entryAt_cloneFlag _ _ _ _ ⟨(fits _).unused, (fits _).frame⟩,
    entryAt_cloneFlag _ _ _ _ ⟨(fits _).unused, (fits _).frame⟩]
  simp only [entryAt_cloneFlag_src _ _ _ apart]
  generalize entryAt m src = source
  generalize entryAt m dest = page
  obtain ⟨present, rw, user, accessed, dirty, unused, frame⟩ := source
  cases present <;> cases rw <;> cases user <;> cases accessed <;> cases dirty <;>
    simp [withFlags]

end Balloon.Paging
