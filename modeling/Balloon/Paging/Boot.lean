import Balloon.Foundation.Transition
import Balloon.Paging.Entries
import Balloon.Paging.FrameStorage

/-!
Owns the run of `init_paging` through its three mapping loops: where the bump
allocator puts `kernel_directory` and its tables, which frame each page gets, and
when the pages below `KHEAP_END` are identity mapped.

`nframes` covers the first half of these pages only. For the other half
`first_frame` falls off its end, and the page gets what the return register holds.
-/

namespace Balloon.Paging

open Balloon.Foundation
open Balloon.Libc
open Balloon.Allocator
open Balloon.Frames

/-! ### The layout -/

/-- `kernel_directory`, when `placement_pointer` is `start` at the call. -/
def bootDirectory (start : Nat) : Nat := (start + 128) / 0x1000 * 0x1000 + 0x1000

/-- `placement_pointer` after the loops: eight tables of mapped pages and the table
of the initial heap region are behind the directory. -/
def bootEnd (start : Nat) : Nat := bootDirectory start + 0x14000

/-- The tables that the pages below page `n` need. -/
def tablesFor (n : Nat) : Nat := (n + 1023) / 1024

/-- `kernel_directory->tables[i]` with the first `t` tables made; `KHEAP_START` is
in table 768. -/
def bootTable (dir t i : Nat) : Nat :=
  if i < t then dir + 0x5000 + 0x2000 * i else if i = 768 then dir + 0x3000 else 0

/-- The entry of page `p`. -/
def bootPage (dir p : Nat) : Nat := dir + 0x5000 + 0x2000 * (p / 1024) + 4 * (p % 1024)

/-- The frame that page `p` gets. -/
def bootFrame (undef : Nat → BitVec 32) (p : Nat) : Nat :=
  if p < bootFrames then p else (undef (p * 0x1000)).toNat % 2 ^ 20

/-- The kernel with `t` tables made, where the pages from page `n` on have no entry yet. Nothing
is said of the slots below `first`. -/
structure Tabled (dir n t first : Nat) (k : Kernel) : Prop where
  heapEnd : k.heap.heapEnd = 0
  directory : k.kernelDirectory = dir
  placement : k.heap.placementPointer = dir + 0x4000 + 0x2000 * t
  slots : ∀ i, first ≤ i → i < 1024 → tableOf k.mem dir i = bootTable dir t i
  physical : ∀ i, i < 1024 → tablePhysicalOf k.mem dir i =
    if bootTable dir t i = 0 then 0 else bootTable dir t i ||| 0x7
  clear : ∀ p, n ≤ p → p < 1024 * t → k.mem.read32 (bootPage dir p) = 0
  heapPages : ∀ e, e < 1024 → k.mem.read32 (dir + 0x3000 + 4 * e) = 0

/-- The kernel with the pages below page `n` mapped and `t` tables made for them. -/
structure Booted (dir n t : Nat) (undef : Nat → BitVec 32) (k : Kernel) : Prop extends
    Tabled dir n t 0 k where
  mapped : ∀ p, p < n → entryAt k.mem (bootPage dir p) = givenPage true false (bootFrame undef p)
  frames : k.frames.nframes = bootFrames
  used : ∀ f, f < bootFrames → k.frames.used f = decide (f < n)

variable {dir n t first : Nat} {undef : Nat → BitVec 32} {k : Kernel}

theorem Tabled.tables (tabled : Tabled dir n t 0 k) (i : Nat) (index : i < 1024) :
    tableOf k.mem dir i = bootTable dir t i :=
  tabled.slots i (Nat.zero_le i) index

/-! ### Memory below the allocator -/

/-- The page-aligned block the bump allocator hands out next. -/
def nextBlock (h : Heap) : Nat := h.placementPointer / 0x1000 * 0x1000 + 0x1000

theorem kmallocAligned_bump {h : Heap} (fresh : h.heapEnd = 0) (low : 0x1000 ≤ h.placementPointer)
    {size : Nat} (fits : nextBlock h + size < 2 ^ 32) :
    h.kmallocAligned size =
      some (nextBlock h, { h with placementPointer := nextBlock h + size }) := by
  have aligned : h.placementPointer / 0x1000 * 0x1000 ≠ 0 := by omega
  have start : wrap32 (nextBlock h) = nextBlock h := wrap32_of_lt (by omega)
  have unfolded : h.kmallocAligned size = some (wrap32 (nextBlock h),
      { h with placementPointer := wrap32 (wrap32 (nextBlock h) + size) }) := by
    simp [Heap.kmallocAligned, Heap.kmallocRaw, fresh, aligned, nextBlock]
  rw [unfolded, start, wrap32_of_lt fits]

/-- Before `init_heap` the physical address is the address. -/
theorem kmallocAlignedPhysical_bump (fresh : k.heap.heapEnd = 0)
    (low : 0x1000 ≤ k.heap.placementPointer) (size : Nat)
    (fits : nextBlock k.heap + size < 2 ^ 32) :
    k.kmallocAlignedPhysical size =
      some (nextBlock k.heap, nextBlock k.heap,
        { k with heap := { k.heap with placementPointer := nextBlock k.heap + size } }) := by
  simp [Kernel.kmallocAlignedPhysical, kmallocAligned_bump fresh low fits, fresh, Option.filter]

/-! ### One round of the mapping loops -/

theorem bootTable_lt {i : Nat} (early : i < t) : bootTable dir t i = dir + 0x5000 + 0x2000 * i :=
  if_pos early

theorem bootTable_new (fresh : t < 768) : bootTable dir t t = 0 := by
  simp only [bootTable]
  rw [if_neg (Nat.lt_irrefl t), if_neg (by omega)]

/-- Making a table changes the table entries the way `bootTable` does. -/
theorem bootTable_succ (i : Nat) :
    bootTable dir (t + 1) i = if i = t then dir + 0x5000 + 0x2000 * t else bootTable dir t i := by
  simp only [bootTable]
  split_ifs <;> omega

/-- `get_page` makes the table of page `n`, and changes nothing off it and off its slot. -/
theorem Tabled.newTable (tabled : Tabled dir n t first k) (low : 0x1000 ≤ dir)
    (aligned : dir % 0x1000 = 0) (room : dir + 0x14000 ≤ memEndPage) (few : t < 8) (address : Nat)
    (index : address / 0x1000 / 1024 = t) (known : first ≤ t) :
    ∃ k', k.getPage address true dir = some (bootPage dir (address / 0x1000), k') ∧
      Tabled dir n (t + 1) first k' ∧ k'.frames = k.frames ∧
        physicalAddrOf k'.mem dir = physicalAddrOf k.mem dir ∧
          ∀ a, ¬ Inside (dir + 4 * t) 4 a → ¬ Inside (dir + 4096 + 4 * t) 4 a →
            ¬ Inside (dir + 0x5000 + 0x2000 * t) sizeofTable a → k'.mem a = k.mem a := by
  have memEnd : memEndPage = 0x1000000 := rfl
  have size : sizeofDirectory = 8196 := rfl
  have tableSize : sizeofTable = 0x1000 := rfl
  have placement := tabled.placement
  have block : nextBlock k.heap = dir + 0x5000 + 0x2000 * t := by
    simp only [nextBlock, placement]
    omega
  have absent : tableOf k.mem dir t = 0 := by
    rw [tabled.slots t known (by omega), bootTable_new (by omega)]
  have returned := kmallocAlignedPhysical_bump tabled.heapEnd (by omega) sizeofTable
    (by rw [block, sizeofTable]; omega)
  rw [block] at returned
  have fits : dir + 0x5000 + 0x2000 * t + 0x1000 ≤ 2 ^ 32 := by omega
  have apart : dir + sizeofDirectory ≤ dir + 0x5000 + 0x2000 * t ∨
      dir + 0x5000 + 0x2000 * t + 0x1000 ≤ dir := by omega
  have index' : t < 1024 := by omega
  have elsewhere : ∀ a, a + 4 ≤ dir ∨ dir + sizeofDirectory ≤ a →
      a + 4 ≤ dir + 0x5000 + 0x2000 * t ∨ dir + 0x5000 + 0x2000 * t + 0x1000 ≤ a →
      (makeTable k.mem dir t (dir + 0x5000 + 0x2000 * t) (dir + 0x5000 + 0x2000 * t)).read32 a =
        k.mem.read32 a := fun a => read32_makeTable _ _ fits index'
  have made := getPage_made address (index ▸ absent) returned
  rw [index] at made
  have page : bootPage dir (address / 0x1000) =
      dir + 0x5000 + 0x2000 * t + 4 * (address / 0x1000 % 1024) := by
    rw [bootPage, index]
  have kept : physicalAddrOf (makeTable k.mem dir t (dir + 0x5000 + 0x2000 * t)
      (dir + 0x5000 + 0x2000 * t)) dir = physicalAddrOf k.mem dir :=
    Memory.read32_congr fun o inWord =>
      makeTable_outside _ _ fits (by omega) (by omega) (by omega)
  rw [← page] at made
  refine ⟨_, made, ?_, rfl, kept, fun a offSlot offPhysical offTable => ?_⟩
  · exact
      { heapEnd := tabled.heapEnd
        directory := tabled.directory
        placement := by
          change dir + 0x5000 + 0x2000 * t + sizeofTable = _
          rw [sizeofTable]
          omega
        slots := by
          intro i above bound
          have table := tableOf_makeTable k.mem (dir + 0x5000 + 0x2000 * t) fits apart index' bound
          rw [bootTable_succ, ← tabled.slots i above bound]
          exact table
        physical := by
          intro i bound
          refine (tablePhysicalOf_makeTable k.mem fits (by omega) apart index' bound).trans ?_
          rw [bootTable_succ, tabled.physical i bound]
          split_ifs <;> first | rfl | omega
        clear := by
          intro p above below
          rcases Nat.lt_or_ge p (1024 * t) with old | new
          · refine Eq.trans (elsewhere (bootPage dir p) ?_ ?_) (tabled.clear p above old)
            · simp only [bootPage, sizeofDirectory]
              omega
            · simp only [bootPage]
              omega
          · have sameTable : p / 1024 = t := by omega
            rw [bootPage, sameTable]
            exact makeTable_clear _ _ fits apart index' (by omega)
        heapPages := by
          intro e bound
          refine Eq.trans (elsewhere _ ?_ ?_) (tabled.heapPages e bound)
          · rw [sizeofDirectory]
            omega
          · omega }
  · unfold Inside at offSlot offPhysical offTable
    exact makeTable_outside _ _ fits (by omega) (by omega) (by omega)

theorem Booted.newTable (booted : Booted dir n t undef k) (low : 0x1000 ≤ dir)
    (aligned : dir % 0x1000 = 0) (room : dir + 0x14000 ≤ memEndPage) (few : t < 8) (address : Nat)
    (index : address / 0x1000 / 1024 = t) (mappedAll : n ≤ 1024 * t) :
    ∃ k', k.getPage address true dir = some (bootPage dir (address / 0x1000), k') ∧
      Booted dir n (t + 1) undef k' ∧ physicalAddrOf k'.mem dir = physicalAddrOf k.mem dir := by
  have size : sizeofDirectory = 8196 := rfl
  have tableSize : sizeofTable = 0x1000 := rfl
  obtain ⟨k', made, tabled, frames, kept, outside⟩ :=
    booted.toTabled.newTable low aligned room few address index (Nat.zero_le t)
  refine ⟨k', made, ⟨tabled, fun p below => ?_, frames ▸ booted.frames, frames ▸ booted.used⟩, kept⟩
  refine Eq.trans (congrArg decode (Memory.read32_congr fun o inWord => outside _ ?_ ?_ ?_))
    (booted.mapped p below)
  all_goals
    unfold Inside bootPage
    omega

theorem bootPage_inj {p q : Nat} (different : p ≠ q) :
    bootPage dir p + 4 ≤ bootPage dir q ∨ bootPage dir q + 4 ≤ bootPage dir p := by
  simp only [bootPage]
  omega

/-- The entry of page `n` is written and the bitmap marks `n`, if it has such a
frame. -/
private theorem Booted.written (booted : Booted dir n t undef k) (made : n < 1024 * t)
    (map : FrameMap) (frames : map.nframes = bootFrames)
    (used : ∀ f, f < bootFrames → map.used f = decide (f < n + 1)) :
    Booted dir (n + 1) t undef ({ k with frames := map }.withMem (k.mem.write32 (bootPage dir n)
      (encode (givenPage true false (bootFrame undef n))))) := by
  have fits : Fits (givenPage true false (bootFrame undef n)) := by
    apply fits_givenPage
    have total : bootFrames = 0x1000 := rfl
    simp only [bootFrame]
    split_ifs <;> omega
  have elsewhere : ∀ a, a + 4 ≤ bootPage dir n ∨ bootPage dir n + 4 ≤ a →
      (k.mem.write32 (bootPage dir n) (encode (givenPage true false (bootFrame undef n)))).read32 a =
        k.mem.read32 a := fun a => Memory.read32_write32_disjoint _ _
  exact
    { heapEnd := booted.heapEnd
      directory := booted.directory
      placement := booted.placement
      slots := by
        intro i _ bound
        refine Eq.trans (elsewhere _ ?_) (booted.tables i bound)
        simp only [bootPage]
        omega
      physical := by
        intro i bound
        refine Eq.trans (elsewhere _ ?_) (booted.physical i bound)
        simp only [bootPage]
        omega
      mapped := by
        intro p below
        by_cases same : p = n
        · subst same
          exact entryAt_write _ _ fits
        · exact (congrArg decode (elsewhere _ (bootPage_inj same))).trans
            (booted.mapped p (by omega))
      clear := by
        intro p above inTables
        exact (elsewhere _ (bootPage_inj (by omega))).trans (booted.clear p (by omega) inTables)
      heapPages := by
        intro e bound
        refine Eq.trans (elsewhere _ ?_) (booted.heapPages e bound)
        simp only [bootPage]
        omega
      frames := frames
      used := used }

theorem Booted.scanned (booted : Booted dir n t undef k) : k.frames.scanned = bootFrames := by
  rw [FrameMap.scanned, booted.frames]
  rfl

/-- With every frame below `n` marked and `n` free, `first_frame` returns `n`. -/
theorem firstFrame_next {map : FrameMap} (nframes : map.nframes = bootFrames)
    (marked : ∀ f, f < n → map.used f = true) (clear : map.used n = false) (inMap : n < bootFrames)
    (u : BitVec 32) : map.HasFree ∧ firstFrame map u = n := by
  have scanned : map.scanned = bootFrames := by
    rw [FrameMap.scanned, nframes]
    rfl
  have free : map.HasFree := ⟨n, by rw [scanned]; exact inMap, clear⟩
  obtain ⟨-, unmarked, least⟩ := FrameMap.firstFrame_spec free u
  refine ⟨free, Nat.le_antisymm ?_ ?_⟩
  · by_contra above
    have marked := least n (by omega)
    rw [clear] at marked
    contradiction
  · by_contra below
    rw [marked _ (by omega)] at unmarked
    contradiction

/-- `alloc_frame` on the entry of page `n`. Only a frame that `first_frame` does not
find can make it panic. -/
theorem Booted.giveFrame (booted : Booted dir n t undef k) (made : n < 1024 * t) {u : BitVec 32}
    (oracle : bootFrames ≤ n → u = undef (n * 0x1000)) :
    (bootFrames ≤ n ∧ u.toNat = 0xFFFFFFFF ∧ k.allocFrame (bootPage dir n) true false u = none) ∨
      ∃ k', k.allocFrame (bootPage dir n) true false u = some k' ∧
        Booted dir (n + 1) t undef k' ∧ physicalAddrOf k'.mem dir = physicalAddrOf k.mem dir := by
  have total : bootFrames = 0x1000 := rfl
  have address : ∀ w, physicalAddrOf (k.mem.write32 (bootPage dir n) w) dir =
      physicalAddrOf k.mem dir := by
    intro w
    apply Memory.read32_write32_disjoint
    simp only [bootPage]
    omega
  have scanned := booted.scanned
  have clear := booted.clear n (Nat.le_refl n) made
  rcases Nat.lt_or_ge n bootFrames with inMap | beyond
  · have marked : ∀ f, f < n → k.frames.used f = true := by
      intro f below
      rw [booted.used f (by omega)]
      exact decide_eq_true below
    have unmarked : k.frames.used n = false := by
      rw [booted.used n inMap]
      simp
    obtain ⟨free, next⟩ := firstFrame_next booted.frames marked unmarked inMap u
    have frame : bootFrame undef n = n := if_pos inMap
    right
    refine ⟨_, allocFrame_zero clear free (by rw [scanned, total]; omega) true false u, ?_,
      address _⟩
    rw [next]
    have step := booted.written made (setFrame k.frames (n * 0x1000)) booted.frames ?_
    · rw [frame] at step
      exact step
    · intro f fBound
      rw [FrameMap.used_setFrame, booted.used f fBound, Nat.mul_div_cancel n (by decide)]
      rw [← Bool.decide_or]
      exact decide_eq_decide.mpr (by omega)
  · have full : ¬ k.frames.HasFree := by
      rintro ⟨f, bound, unmarked⟩
      rw [scanned] at bound
      rw [booted.used f bound, decide_eq_false_iff_not] at unmarked
      omega
    have called := allocFrame_full clear full true false u
    by_cases panics : u.toNat = 0xFFFFFFFF
    · left
      rw [if_pos panics] at called
      exact ⟨beyond, panics, called⟩
    · right
      rw [if_neg panics] at called
      have frame : bootFrame undef n = u.toNat % 2 ^ 20 := by
        rw [bootFrame, if_neg (by omega), oracle beyond]
      refine ⟨_, called, ?_, address _⟩
      rw [← frame]
      apply booted.written made (setFrame k.frames (u.toNat * 0x1000 % 2 ^ 32)) booted.frames
      intro f fBound
      rw [FrameMap.used_setFrame, booted.used f fBound]
      have below : f < n := by omega
      simp [below, Nat.lt_succ_of_lt below]

theorem tablesFor_succ (n : Nat) :
    tablesFor (n + 1) = if n % 1024 = 0 then tablesFor n + 1 else tablesFor n := by
  simp only [tablesFor]
  split_ifs <;> omega

/-- The table of a page below `1024 * t` is found. -/
theorem Tabled.getPage_mapped (tabled : Tabled dir n t first k) (few : t ≤ 8) (low : 0x1000 ≤ dir)
    {p : Nat} (made : p < 1024 * t) (known : first ≤ p / 1024) :
    k.getPage (p * 0x1000) true dir = some (bootPage dir p, k) := by
  have early : p / 1024 < t := by omega
  have table : tableOf k.mem dir (p / 1024) = dir + 0x5000 + 0x2000 * (p / 1024) := by
    rw [tabled.slots _ known (by omega), bootTable_lt early]
  have page : p * 0x1000 / 0x1000 = p := Nat.mul_div_cancel p (by decide)
  rw [getPage_found true (by rw [page, table]; omega), findPage_eq table (by omega), bootPage]

/-- A round of the second or third loop on the next page. -/
theorem Booted.mapPage (booted : Booted dir n (tablesFor n) undef k) (low : 0x1000 ≤ dir)
    (aligned : dir % 0x1000 = 0) (room : dir + 0x14000 ≤ memEndPage) (bound : n < 0x2000)
    {u : BitVec 32} (oracle : bootFrames ≤ n → u = undef (n * 0x1000)) :
    (bootFrames ≤ n ∧ u.toNat = 0xFFFFFFFF ∧ k.mapPage u (n * 0x1000) = none) ∨
      ∃ k', k.mapPage u (n * 0x1000) = some k' ∧
        Booted dir (n + 1) (tablesFor (n + 1)) undef k' ∧
          physicalAddrOf k'.mem dir = physicalAddrOf k.mem dir := by
  obtain ⟨k₁, found, booted₁, kept⟩ : ∃ k₁, k.getPage (n * 0x1000) true dir =
      some (bootPage dir n, k₁) ∧ Booted dir n (tablesFor (n + 1)) undef k₁ ∧
        physicalAddrOf k₁.mem dir = physicalAddrOf k.mem dir := by
    rw [tablesFor_succ]
    by_cases first : n % 1024 = 0
    · have page : n * 0x1000 / 0x1000 = n := Nat.mul_div_cancel n (by decide)
      obtain ⟨k₁, made, booted₁, kept⟩ := booted.newTable low aligned room
        (by simp only [tablesFor]; omega) (n * 0x1000)
        (by simp only [page, tablesFor]; omega) (by simp only [tablesFor]; omega)
      rw [page] at made
      exact ⟨k₁, made, if_pos first ▸ booted₁, kept⟩
    · refine ⟨k, booted.toTabled.getPage_mapped ?_ low ?_ (Nat.zero_le _), if_neg first ▸ booted,
        rfl⟩
      · simp only [tablesFor]
        omega
      · simp only [tablesFor]
        omega
  have unfolded : k.mapPage u (n * 0x1000) = k₁.allocFrame (bootPage dir n) true false u := by
    rw [Kernel.mapPage, booted.directory, found, Option.bind_some]
  rw [unfolded, ← kept]
  exact booted₁.giveFrame (by simp only [tablesFor]; omega) oracle

/-- A round on a page that is mapped already. -/
theorem Booted.mapPage_again (booted : Booted dir n (tablesFor n) undef k) (low : 0x1000 ≤ dir)
    (bound : n ≤ 0x2000) {p : Nat} (positive : 0 < p) (before : p < n) (inMap : p < bootFrames)
    (u : BitVec 32) : k.mapPage u (p * 0x1000) = some k := by
  have held : (entryAt k.mem (bootPage dir p)).frame ≠ 0 := by
    rw [booted.mapped p before]
    simp only [givenPage, bootFrame, if_pos inMap]
    omega
  rw [Kernel.mapPage, booted.directory,
    booted.toTabled.getPage_mapped (by simp only [tablesFor]; omega) low
      (by simp only [tablesFor]; omega) (Nat.zero_le _), Option.bind_some]
  exact allocFrame_nonzero held true false u

/-! ### The loops -/

/-- The second loop ends while frames are free, with every page up to the one of
`placement_pointer` mapped and none behind the next. -/
theorem Booted.mapPlaced (low : 0x1000 ≤ dir) (aligned : dir % 0x1000 = 0)
    (room : dir + 0x14000 ≤ memEndPage) (u : Nat → BitVec 32) (fuel : Nat)
    (booted : Booted dir n (tablesFor n) undef k) (bound : n ≤ bootFrames)
    (close : n * 0x1000 < k.heap.placementPointer + 0x2000) (enough : bootFrames < fuel + n) :
    ∃ m k', Kernel.mapPlaced u fuel (n * 0x1000) k = some k' ∧ m ≤ bootFrames ∧
      k'.heap.placementPointer + 0x1000 ≤ m * 0x1000 ∧
      m * 0x1000 < k'.heap.placementPointer + 0x2000 ∧ Booted dir m (tablesFor m) undef k' := by
  have total : bootFrames = 0x1000 := rfl
  have memEnd : memEndPage = 0x1000000 := rfl
  induction fuel generalizing n k with
  | zero => omega
  | succ fuel inductionHypothesis =>
      have placement := booted.placement
      have limit : wrap32 (k.heap.placementPointer + 0x1000) =
          k.heap.placementPointer + 0x1000 := by
        apply wrap32_of_lt
        simp only [tablesFor] at placement
        omega
      rw [Kernel.mapPlaced, limit]
      by_cases more : n * 0x1000 < k.heap.placementPointer + 0x1000
      · have below : n < bootFrames := by
          simp only [tablesFor] at placement
          omega
        rw [if_pos more]
        rcases booted.mapPage low aligned room (by omega) (u := u (n * 0x1000)) (by omega) with
          ⟨beyond, -, -⟩ | ⟨k₁, mapped, booted₁, -⟩
        · omega
        · have still : (n + 1) * 0x1000 < k₁.heap.placementPointer + 0x2000 := by
            have grown : tablesFor n ≤ tablesFor (n + 1) := by
              simp only [tablesFor]
              omega
            have placement₁ := booted₁.placement
            lia
          have next : wrap32 (n * 0x1000 + 0x1000) = (n + 1) * 0x1000 := by
            rw [wrap32_of_lt (by lia)]
            omega
          rw [mapped, Option.bind_some, next]
          exact inductionHypothesis booted₁ below still (by omega)
      · rw [if_neg more]
        exact ⟨n, k, rfl, bound, by omega, close, booted⟩

/-- The third loop panics on a page without a frame of its own, or it maps every
page below `KHEAP_END`. -/
theorem Booted.mapRest (low : 0x1000 ≤ dir) (aligned : dir % 0x1000 = 0)
    (room : dir + 0x14000 ≤ memEndPage) (fuel : Nat) {p : Nat}
    (booted : Booted dir n (tablesFor n) undef k) (positive : 0 < p) (before : p ≤ n)
    (again : p < n → n ≤ bootFrames) (bound : n ≤ 0x2000) (enough : 0x2000 < fuel + p) :
    (∃ q, bootFrames ≤ q ∧ q < 0x2000 ∧ (undef (q * 0x1000)).toNat = 0xFFFFFFFF ∧
        Kernel.mapRest undef fuel (p * 0x1000) k = none) ∨
      ∃ k', Kernel.mapRest undef fuel (p * 0x1000) k = some k' ∧
        Booted dir 0x2000 8 undef k' ∧ physicalAddrOf k'.mem dir = physicalAddrOf k.mem dir := by
  have total : bootFrames = 0x1000 := rfl
  have heapLimit : kheapEnd = 0x2000000 := rfl
  induction fuel generalizing n p k with
  | zero => omega
  | succ fuel inductionHypothesis =>
      have next : wrap32 (p * 0x1000 + 0x1000) = (p + 1) * 0x1000 := by
        rw [wrap32_of_lt (by omega)]
        omega
      rw [Kernel.mapRest, next]
      by_cases more : p < 0x2000
      · have continues : Kernel.belowHeapEnd (p * 0x1000) := Or.inl (by omega)
        rw [if_pos continues]
        rcases Nat.lt_or_ge p n with old | new
        · rw [booted.mapPage_again low bound positive old (by omega), Option.bind_some]
          exact inductionHypothesis booted (by omega) old (by omega) bound (by omega)
        · obtain rfl : p = n := by omega
          rcases booted.mapPage low aligned room more (fun _ => rfl) with
            ⟨beyond, panics, none⟩ | ⟨k₁, mapped, booted₁, kept⟩
          · left
            refine ⟨p, beyond, more, panics, ?_⟩
            rw [none, Option.bind_none]
          · rw [mapped, Option.bind_some, ← kept]
            exact inductionHypothesis booted₁ (by omega) (Nat.le_refl _) (by omega) (by omega)
              (by omega)
      · have stops : ¬ Kernel.belowHeapEnd (p * 0x1000) := by
          simp only [Kernel.belowHeapEnd]
          omega
        rw [if_neg stops]
        obtain rfl : n = 0x2000 := by omega
        exact Or.inr ⟨k, rfl, booted, rfl⟩

/-! ### `init_paging` -/

/-- `kernel_directory` before its first table. -/
structure Blank (dir : Nat) (k : Kernel) : Prop where
  heapEnd : k.heap.heapEnd = 0
  directory : k.kernelDirectory = dir
  placement : k.heap.placementPointer = dir + sizeofDirectory
  clear : ∀ a, dir ≤ a → a < dir + sizeofDirectory → k.mem a = 0

theorem Blank.word (blank : Blank dir k) {a : Nat}
    (inside : dir ≤ a ∧ a + 4 ≤ dir + sizeofDirectory) :
    k.mem.read32 a = 0 :=
  Memory.read32_zero fun o bound => blank.clear _ (by omega) (by omega)

/-- Stated for any memory, so that no check of it runs the rounds of `memset`. -/
private theorem blank_of_cleared {h : Heap} {m : Memory} (heapEnd : h.heapEnd = 0)
    (cleared : ∀ a, dir ≤ a → a < dir + sizeofDirectory → m a = 0) :
    Blank dir
      { heap := { h with placementPointer := dir + sizeofDirectory, mem := m }
        frames := FrameMap.allClear (memEndPage / 0x1000)
        kernelDirectory := dir
        currentDirectory := 0 } where
  heapEnd := heapEnd
  directory := rfl
  placement := rfl
  clear := cleared

theorem blank_initDirectory {h : Heap} (fresh : h.heapEnd = 0)
    (low : 0x1000 ≤ h.placementPointer) (fits : bootEnd h.placementPointer ≤ memEndPage) :
    ∃ k, initDirectory h = some k ∧ Blank (bootDirectory h.placementPointer) k ∧
      k.frames = FrameMap.allClear bootFrames := by
  have memEnd : memEndPage = 0x1000000 := rfl
  have size : indexFromBit bootFrames = 128 := by decide
  simp only [bootEnd, bootDirectory] at fits
  have placed : wrap32 (h.placementPointer + 128) = h.placementPointer + 128 :=
    wrap32_of_lt (by omega)
  obtain ⟨h₁, frames, heapEnd, placement⟩ : ∃ h₁, initFrames h = some (h.placementPointer, h₁) ∧
      h₁.heapEnd = 0 ∧ h₁.placementPointer = h.placementPointer + 128 := by
    refine ⟨_, initFrames_eq fresh, fresh, ?_⟩
    rw [size, placed]
  have block : nextBlock h₁ = bootDirectory h.placementPointer := by
    rw [nextBlock, placement, bootDirectory]
  have small : bootDirectory h.placementPointer + sizeofDirectory < 0x1000000 := by
    simp only [bootDirectory, sizeofDirectory]
    omega
  have fits : nextBlock h₁ + sizeofDirectory < 2 ^ 32 := by
    rw [block]
    lia
  have directory := kmallocAligned_bump heapEnd (by omega) fits
  rw [block] at directory
  generalize bootDirectory h.placementPointer = dir at directory small
  have cleared : ∀ a, dir ≤ a → a < dir + sizeofDirectory →
      memset h₁.mem dir 0 sizeofDirectory a = 0 := by
    intro a above below
    rw [memset_eq_fill _ 0 (by omega)]
    exact Memory.fill_inside h₁.mem (UInt8.ofNat 0) ⟨above, below⟩
  have returned : initDirectory h = some
      { heap :=
          { h₁ with
            placementPointer := dir + sizeofDirectory
            mem := memset h₁.mem dir 0 sizeofDirectory }
        frames := FrameMap.allClear (memEndPage / 0x1000)
        kernelDirectory := dir
        currentDirectory := 0 } := by
    simp only [initDirectory, frames, Option.bind_some, directory, Option.map_some]
  exact ⟨_, returned, blank_of_cleared heapEnd cleared, rfl⟩

/-- The table of the initial heap region. -/
theorem Blank.heapTable (blank : Blank dir k) (low : 0x1000 ≤ dir) (aligned : dir % 0x1000 = 0)
    (room : dir + 0x14000 ≤ memEndPage) {address : Nat} (index : address / 0x1000 / 1024 = 768) :
    ∃ page k', k.getPage address true dir = some (page, k') ∧ Tabled dir 0 0 0 k' ∧
      k'.frames = k.frames ∧ ∀ a, ¬ Inside dir 0x4000 a → k'.mem a = k.mem a := by
  have memEnd : memEndPage = 0x1000000 := rfl
  have placement := blank.placement
  rw [sizeofDirectory] at placement
  have block : nextBlock k.heap = dir + 0x3000 := by
    simp only [nextBlock, placement]
    omega
  have returned := kmallocAlignedPhysical_bump blank.heapEnd (by omega) sizeofTable
    (by rw [block, sizeofTable]; lia)
  rw [block] at returned
  have absent : tableOf k.mem dir 768 = 0 := blank.word (by rw [sizeofDirectory]; omega)
  have made := getPage_made address (index ▸ absent) returned
  rw [index] at made
  have fits : dir + 0x3000 + 0x1000 ≤ 2 ^ 32 := by lia
  have apart : dir + sizeofDirectory ≤ dir + 0x3000 ∨ dir + 0x3000 + 0x1000 ≤ dir := by
    rw [sizeofDirectory]
    omega
  have index' : 768 < 1024 := by decide
  refine ⟨_, _, made, ?_, rfl, fun a outside => ?_⟩
  · exact
      { heapEnd := blank.heapEnd
        directory := blank.directory
        placement := by
          change dir + 0x3000 + sizeofTable = dir + 0x4000 + 0x2000 * 0
          simp only [sizeofTable]
        slots := by
          intro i _ bound
          refine (tableOf_makeTable k.mem _ fits apart index' bound).trans ?_
          have empty : tableOf k.mem dir i = 0 := blank.word (by rw [sizeofDirectory]; omega)
          simp only [bootTable, empty, Nat.not_lt_zero, if_false]
        physical := by
          intro i bound
          refine (tablePhysicalOf_makeTable k.mem fits (by omega) apart index' bound).trans ?_
          have empty : tablePhysicalOf k.mem dir i = 0 :=
            blank.word (by rw [sizeofDirectory]; omega)
          simp only [bootTable, empty, Nat.not_lt_zero, if_false]
          by_cases same : i = 768
          · have made : dir + 0x3000 ≠ 0 := by omega
            simp only [same, if_true, if_neg made]
          · simp only [if_neg same, if_true]
        clear := fun p _ none => absurd none (by omega)
        heapPages := fun e bound => makeTable_clear _ _ fits apart index' bound }
  · unfold Inside at outside
    change makeTable k.mem dir 768 (dir + 0x3000) (dir + 0x3000) a = k.mem a
    exact makeTable_outside _ _ fits (by omega) (by omega) (by omega)

/-- The first loop makes one table. -/
theorem Blank.touchHeapPages (blank : Blank dir k) (low : 0x1000 ≤ dir)
    (aligned : dir % 0x1000 = 0) (room : dir + 0x14000 ≤ memEndPage) :
    ∃ k', k.touchHeapPages = some k' ∧ Tabled dir 0 0 0 k' ∧ k'.frames = k.frames ∧
      ∀ a, ¬ Inside dir 0x4000 a → k'.mem a = k.mem a := by
  have count : kheapInitialSize / 0x1000 = 256 := by decide
  have round : ∀ i s, i < 256 →
      (s.frames = k.frames ∧ (∀ a, ¬ Inside dir 0x4000 a → s.mem a = k.mem a) ∧
        ((i = 0 ∧ s = k) ∨ Tabled dir 0 0 0 s)) →
      ∃ s', (s.getPage (kheapStart + 0x1000 * i) true s.kernelDirectory).map Prod.snd = some s' ∧
        s'.frames = k.frames ∧ (∀ a, ¬ Inside dir 0x4000 a → s'.mem a = k.mem a) ∧
          ((i + 1 = 0 ∧ s' = k) ∨ Tabled dir 0 0 0 s') := by
    intro i s below invariant
    obtain ⟨frames, outside, state⟩ := invariant
    have index : (kheapStart + 0x1000 * i) / 0x1000 / 1024 = 768 := by
      simp only [kheapStart]
      omega
    rcases state with ⟨-, rfl⟩ | tabled
    · obtain ⟨page, k', made, tabled, frames, outside⟩ := blank.heapTable low aligned room index
      exact ⟨k', by rw [blank.directory, made, Option.map_some], frames, outside, Or.inr tabled⟩
    · have found : tableOf s.mem dir 768 ≠ 0 := by
        rw [tabled.tables 768 (by omega)]
        simp [bootTable]
      refine ⟨s, ?_, frames, outside, Or.inr tabled⟩
      rw [tabled.directory, getPage_found true (by rw [index]; exact found), Option.map_some]
  obtain ⟨k', returns, frames, outside, done⟩ :=
    foldlM_range _ _ round ⟨rfl, fun _ _ => rfl, Or.inl ⟨rfl, rfl⟩⟩
  rw [Kernel.touchHeapPages, count]
  refine ⟨k', returns, ?_, frames, outside⟩
  rcases done with ⟨zero, -⟩ | tabled
  · contradiction
  · exact tabled

/-- No page is mapped yet. -/
theorem Tabled.booted (tabled : Tabled dir 0 0 0 k)
    (clear : k.frames = FrameMap.allClear bootFrames) :
    Booted dir 0 0 undef k where
  toTabled := tabled
  mapped := fun p below => absurd below (Nat.not_lt_zero p)
  frames := by rw [clear]; rfl
  used := by
    intro f bound
    rw [clear, FrameMap.used_allClear]
    rfl

/-- The first loop behind `initDirectory`. -/
theorem start_touchHeapPages {h : Heap} (fresh : h.heapEnd = 0) (low : 0x1000 ≤ h.placementPointer)
    (fits : bootEnd h.placementPointer ≤ memEndPage) :
    ∃ k₀ k, initDirectory h = some k₀ ∧ k₀.touchHeapPages = some k ∧
      ∀ undef, Booted (bootDirectory h.placementPointer) 0 0 undef k := by
  obtain ⟨k₀, made, blank, clear⟩ := blank_initDirectory fresh low fits
  obtain ⟨k, touched, tabled, frames, -⟩ :=
    blank.touchHeapPages (by simp only [bootDirectory]; omega)
    (by simp only [bootDirectory]; omega) fits
  exact ⟨k₀, k, made, touched, fun _ => tabled.booted (frames.trans clear)⟩

/-- Neither `kernel_directory->physicalAddr` nor the entry of a mapped page is part of what
`get_page` looks at. -/
theorem Tabled.congr {n' : Nat} {k' : Kernel} (tabled : Tabled dir n t first k) (few : t ≤ 8)
    (early : first ≤ 1024) (later : n ≤ n') {x : Nat}
    (exempt : x = dir + 8192 ∨ ∃ p, p < n' ∧ x = bootPage dir p)
    (heapEnd : k'.heap.heapEnd = k.heap.heapEnd)
    (placement : k'.heap.placementPointer = k.heap.placementPointer)
    (directory : k'.kernelDirectory = k.kernelDirectory)
    (same : ∀ a, Inside dir 0x14000 a → dir + 4 * first ≤ a → ¬ Inside x 4 a →
      k'.mem a = k.mem a) :
    Tabled dir n' t first k' := by
  have word : ∀ a, dir + 4 * first ≤ a → a + 4 ≤ dir + 0x14000 → a + 4 ≤ x ∨ x + 4 ≤ a →
      k'.mem.read32 a = k.mem.read32 a := by
    intro a above below apart
    exact Memory.read32_congr fun o inWord =>
      same _ ⟨by omega, by omega⟩ (by omega) (by unfold Inside; omega)
  have front : ∀ a, a + 4 ≤ dir + 8192 ∨ dir + 0x3000 ≤ a ∧ a + 4 ≤ dir + 0x4000 →
      a + 4 ≤ x ∨ x + 4 ≤ a := by
    intro a place
    rcases exempt with rfl | ⟨p, -, rfl⟩
    · omega
    · unfold bootPage
      omega
  refine ⟨heapEnd.trans tabled.heapEnd, directory.trans tabled.directory,
    placement.trans tabled.placement, fun i above index => ?_, fun i index => ?_,
    fun p above below => ?_, fun e index => ?_⟩
  · exact (word _ (by omega) (by omega) (front _ (by omega))).trans (tabled.slots i above index)
  · exact (word _ (by omega) (by omega) (front _ (by omega))).trans (tabled.physical i index)
  · refine (word _ (by unfold bootPage; omega) (by unfold bootPage; omega) ?_).trans
      (tabled.clear p (by omega) below)
    rcases exempt with rfl | ⟨q, mapped, rfl⟩
    · unfold bootPage
      omega
    · exact bootPage_inj (by omega)
  · exact (word _ (by omega) (by omega) (front _ (by omega))).trans (tabled.heapPages e index)

theorem Booted.setPhysicalAddr (booted : Booted dir n t undef k) (few : t ≤ 8) :
    Booted dir n t undef k.setPhysicalAddr := by
  have directory := booted.directory
  have elsewhere : ∀ a, a < dir + 8192 ∨ dir + 8192 + 4 ≤ a →
      k.setPhysicalAddr.mem a = k.mem a := by
    intro a apart
    rw [Kernel.setPhysicalAddr, Kernel.mem_withMem, directory]
    exact Memory.write32_outside _ _ apart
  refine ⟨booted.toTabled.congr few (Nat.zero_le _) (Nat.le_refl n) (Or.inl rfl) rfl rfl rfl
    fun a _ _ outside => elsewhere a (by unfold Inside at outside; omega), fun p below => ?_,
    booted.frames, booted.used⟩
  refine Eq.trans (congrArg decode (Memory.read32_congr fun o inWord => elsewhere _ ?_))
    (booted.mapped p below)
  unfold bootPage
  omega

/-- `init_paging` in front of `physicalAddr` and the third loop. -/
def placedMaps (undef : Nat → BitVec 32) (h : Heap) : Option Kernel :=
  (initDirectory h).bind fun k => k.touchHeapPages.bind (Kernel.mapPlaced undef rounds 0)

theorem initPagingMaps_eq (undef : Nat → Nat → BitVec 32) (h : Heap) :
    initPagingMaps undef h = (placedMaps (undef 2) h).bind fun k =>
      Kernel.mapRest (undef 3) rounds k.heap.placementPointer k.setPhysicalAddr := by
  simp only [initPagingMaps, placedMaps, Option.bind_assoc]

theorem bootDirectory_page (start : Nat) :
    0x1000 ≤ bootDirectory start ∧ bootDirectory start % 0x1000 = 0 := by
  simp only [bootDirectory]
  omega

/-- The first two loops return, with free frames left. -/
theorem placedMaps_spec {h : Heap} (fresh : h.heapEnd = 0) (low : 0x1000 ≤ h.placementPointer)
    (fits : bootEnd h.placementPointer ≤ memEndPage) (undef : Nat → Nat → BitVec 32) :
    ∃ n k, placedMaps (undef 2) h = some k ∧ n ≤ bootFrames ∧
      k.heap.placementPointer + 0x1000 ≤ n * 0x1000 ∧
        Booted (bootDirectory h.placementPointer) n (tablesFor n) (undef 3) k := by
  obtain ⟨k₀, k₁, made, touched, start⟩ := start_touchHeapPages fresh low fits
  obtain ⟨dirLow, aligned⟩ := bootDirectory_page h.placementPointer
  rw [bootEnd] at fits
  have total : bootFrames = 0x1000 := rfl
  obtain ⟨n, k₂, placed, bound, reached, -, booted⟩ :=
    Booted.mapPlaced dirLow aligned fits (undef 2) rounds (start (undef 3)) (by omega) (by omega)
      (by simp only [rounds]; omega)
  rw [Nat.zero_mul] at placed
  refine ⟨n, k₂, ?_, bound, reached, booted⟩
  rw [placedMaps, made, Option.bind_some, touched, Option.bind_some, placed]

theorem Booted.placement_page (booted : Booted dir n (tablesFor n) undef k)
    (aligned : dir % 0x1000 = 0) :
    k.heap.placementPointer / 0x1000 * 0x1000 = k.heap.placementPointer := by
  have placement := booted.placement
  simp only [tablesFor] at placement
  omega

/-- `init_paging` returns with every page below `KHEAP_END` mapped as `bootFrame` says and
`physicalAddr` that of `tablesPhysical`, or it panics because the return register holds -1. -/
theorem initPagingMaps_spec {h : Heap} (fresh : h.heapEnd = 0) (low : 0x1000 ≤ h.placementPointer)
    (fits : bootEnd h.placementPointer ≤ memEndPage) (undef : Nat → Nat → BitVec 32) :
    (∃ q, bootFrames ≤ q ∧ q < 0x2000 ∧ (undef 3 (q * 0x1000)).toNat = 0xFFFFFFFF ∧
        initPagingMaps undef h = none) ∨
      ∃ k, initPagingMaps undef h = some k ∧
        Booted (bootDirectory h.placementPointer) 0x2000 8 (undef 3) k ∧
          physicalAddrOf k.mem (bootDirectory h.placementPointer) =
            bootDirectory h.placementPointer + 4096 := by
  obtain ⟨n, k, placed, bound, reached, booted⟩ := placedMaps_spec fresh low fits undef
  obtain ⟨dirLow, aligned⟩ := bootDirectory_page h.placementPointer
  have total : bootFrames = 0x1000 := rfl
  rw [bootEnd] at fits
  have placement := booted.placement_page aligned
  have more := booted.placement
  have few : tablesFor n ≤ 8 := by
    simp only [tablesFor]
    omega
  have stored : physicalAddrOf k.setPhysicalAddr.mem (bootDirectory h.placementPointer) =
      bootDirectory h.placementPointer + 4096 := by
    have memEnd : memEndPage = 0x1000000 := rfl
    rw [Kernel.setPhysicalAddr, booted.directory, physicalAddrOf, Kernel.mem_withMem,
      Memory.read32_write32_same, Nat.mod_eq_of_lt (by omega)]
  rw [initPagingMaps_eq, placed, Option.bind_some, ← placement, ← stored]
  exact Booted.mapRest dirLow aligned fits rounds (booted.setPhysicalAddr few) (by omega) (by omega)
    (fun _ => bound) (by omega) (by simp only [rounds]; omega)

/-! ### The identity map -/

/-- Every page below `KHEAP_END` is present in `kernel_directory`, with the frame
of its own number. -/
def IdentityMapped (k : Kernel) : Prop :=
  ∀ p, p < kheapEnd / 0x1000 → findPage k.mem (p * 0x1000) k.kernelDirectory ≠ 0 ∧
    (entryAt k.mem (findPage k.mem (p * 0x1000) k.kernelDirectory)).present ∧
    (entryAt k.mem (findPage k.mem (p * 0x1000) k.kernelDirectory)).frame = p

/-- Where `get_page` finds the entry of an address below `KHEAP_END`. -/
theorem Booted.found (booted : Booted dir 0x2000 8 undef k) (low : 0x1000 ≤ dir) {a : Nat}
    (below : a / 0x1000 < 0x2000) :
    findPage k.mem a k.kernelDirectory = bootPage dir (a / 0x1000) := by
  have table : tableOf k.mem dir (a / 0x1000 / 1024) =
      dir + 0x5000 + 0x2000 * (a / 0x1000 / 1024) := by
    rw [booted.tables _ (by omega), bootTable_lt (by omega)]
  have made : dir + 0x5000 + 0x2000 * (a / 0x1000 / 1024) ≠ 0 := by omega
  rw [booted.directory]
  simp only [findPage, table, if_pos made, bootPage]

theorem Booted.identityMapped_iff (booted : Booted dir 0x2000 8 undef k) (low : 0x1000 ≤ dir) :
    IdentityMapped k ↔ ∀ p, bootFrames ≤ p → p < kheapEnd / 0x1000 →
      (undef (p * 0x1000)).toNat % 2 ^ 20 = p := by
  have count : kheapEnd / 0x1000 = 0x2000 := by decide
  have found : ∀ p, p < 0x2000 →
      findPage k.mem (p * 0x1000) k.kernelDirectory = bootPage dir p := by
    intro p below
    have page : p * 0x1000 / 0x1000 = p := Nat.mul_div_cancel p (by decide)
    rw [booted.found low (by rw [page]; exact below), page]
  rw [IdentityMapped, count]
  constructor
  · intro identity p beyond below
    obtain ⟨-, -, frame⟩ := identity p below
    rw [found p below, booted.mapped p below] at frame
    simpa only [givenPage, bootFrame, if_neg (Nat.not_lt.mpr beyond)] using frame
  · intro lucky p below
    rw [found p below, booted.mapped p below]
    refine ⟨by simp only [bootPage]; omega, rfl, ?_⟩
    change bootFrame undef p = p
    rw [bootFrame]
    split_ifs with inMap
    · rfl
    · exact lucky p (Nat.not_lt.mp inMap) below

/-- `init_paging` identity-maps the pages below `KHEAP_END` exactly when
`first_frame`, which finds no frame for the pages from `nframes` on, leaves the
number of each such page in the return register. -/
theorem identityMapped_iff_undefined (h : Heap) (fresh : h.heapEnd = 0)
    (low : 0x1000 ≤ h.placementPointer) (fits : bootEnd h.placementPointer ≤ memEndPage)
    (undef : Nat → Nat → BitVec 32) :
    (∃ k, initPagingMaps undef h = some k ∧ IdentityMapped k) ↔
      ∀ p, bootFrames ≤ p → p < kheapEnd / 0x1000 →
        (undef 3 (p * 0x1000)).toNat % 2 ^ 20 = p := by
  have dirLow : 0x1000 ≤ bootDirectory h.placementPointer := by
    simp only [bootDirectory]
    omega
  have count : kheapEnd / 0x1000 = 0x2000 := by decide
  rcases initPagingMaps_spec fresh low fits undef with
    ⟨q, beyond, below, panics, none⟩ | ⟨k, returned, booted, -⟩
  · constructor
    · rintro ⟨k, returned, -⟩
      rw [none] at returned
      contradiction
    · intro lucky
      have page := lucky q beyond (count ▸ below)
      omega
  · have exact_iff := booted.identityMapped_iff dirLow
    constructor
    · rintro ⟨k', returned', identity⟩
      rw [returned] at returned'
      exact exact_iff.mp (Option.some.inj returned' ▸ identity)
    · intro lucky
      exact ⟨k, returned, exact_iff.mpr lucky⟩

/-- `identityMapped_iff_undefined` for an image that ends at `0x100000` and a
register that holds 0. -/
theorem identityMapped_iff_undefined_boot :
    (∃ k, initPagingMaps (fun _ _ => 0) (Client.boot (fun _ => 0) 0x100000).heap = some k ∧
        IdentityMapped k) ↔
      ∀ p, bootFrames ≤ p → p < kheapEnd / 0x1000 → (0 : BitVec 32).toNat % 2 ^ 20 = p :=
  identityMapped_iff_undefined _ rfl (by decide) (by decide) _

/-- With 0 in the return register page `0x1000000` is mapped to frame 0. -/
theorem page_beyond_frames :
    ¬ ∀ (h : Heap) (undef : Nat → Nat → BitVec 32), h.heapEnd = 0 →
      0x1000 ≤ h.placementPointer → bootEnd h.placementPointer ≤ memEndPage →
      ∃ k, initPagingMaps undef h = some k ∧ IdentityMapped k := by
  intro always
  obtain ⟨k, returned, identity⟩ :=
    always (Client.boot (fun _ => 0) 0x100000).heap (fun _ _ => 0) rfl (by decide) (by decide)
  rcases initPagingMaps_spec (h := (Client.boot (fun _ => 0) 0x100000).heap) rfl (by decide)
    (by decide) (fun _ _ => 0) with ⟨q, -, -, panics, -⟩ | ⟨k', returned', booted, -⟩
  · exact absurd panics (by decide)
  · rw [returned] at returned'
    obtain rfl := Option.some.inj returned'
    have frame := (booted.identityMapped_iff (by decide)).mp identity 0x1000 (by decide) (by decide)
    exact absurd frame (by decide)

end Balloon.Paging
