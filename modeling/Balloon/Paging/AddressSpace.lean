import Balloon.Paging.CloneDirectory

/-!
Owns what `clone_directory` is for: the copy of an address space, page by page. Tables of
the kernel are in both directories, every other page with a frame has a frame of its own
with the same bytes, and the source stays as it was.
-/

namespace Balloon.Paging

open Balloon.Foundation
open Balloon.Allocator
open Balloon.Frames

/-- The entry of the virtual page `v` in `dir`, all zero without a table. -/
def pageOf (m : Memory) (dir v : Nat) : PageT :=
  if tableOf m dir (v / 1024) = 0 then PageT.zero
  else entryAt m (tableOf m dir (v / 1024) + 4 * (v % 1024))

/-- The table of the virtual page `v` is the kernel's. -/
def SharedPage (k : Kernel) (src v : Nat) : Prop :=
  tableOf k.mem k.kernelDirectory (v / 1024) = tableOf k.mem src (v / 1024)

/-- The virtual page `v` has a frame and is not the kernel's. -/
def OwnPage (k : Kernel) (src v : Nat) : Prop :=
  v < 2 ^ 20 ∧ ¬ SharedPage k src v ∧ (pageOf k.mem src v).frame ≠ 0

/-- The directory `dir` in `k'` is a copy of the address space of `src` in `k`. -/
structure AddressSpaceCopy (k : Kernel) (src : Nat) (k' : Kernel) (dir : Nat) : Prop where
  shared : ∀ v, v < 2 ^ 20 → SharedPage k src v →
    tableOf k'.mem dir (v / 1024) = tableOf k.mem src (v / 1024)
  copied : ∀ v g, OwnPage k src v → (pageOf k.mem src v).frame = g →
    ∃ f, (pageOf k'.mem dir v).present ∧ (pageOf k'.mem dir v).frame = f ∧
      f < k.frames.scanned ∧ k.frames.used f = false ∧ k'.frames.used f = true ∧
        ∀ o, o < 0x1000 → k'.mem (f * 0x1000 + o) = k.mem (g * 0x1000 + o)
  distinct : ∀ v v', OwnPage k src v → OwnPage k src v' → v ≠ v' →
    (pageOf k'.mem dir v).frame ≠ (pageOf k'.mem dir v').frame
  unmapped : ∀ v, v < 2 ^ 20 → ¬ SharedPage k src v → (pageOf k.mem src v).frame = 0 →
    pageOf k'.mem dir v = PageT.zero
  tables : ∀ a, SourceMemory k src a → k'.mem a = k.mem a
  frames : ∀ v g, v < 2 ^ 20 → (pageOf k.mem src v).frame = g → g ≠ 0 →
    (SharedPage k src v → k.frames.used g = true ∧ OffReserve k src g) →
      ∀ o, o < 0x1000 → k'.mem (g * 0x1000 + o) = k.mem (g * 0x1000 + o)

section

variable {k k' : Kernel} {src dir v : Nat}

theorem OwnPage.table (own : OwnPage k src v) : Private k src (v / 1024) ∧
    pageOf k.mem src v = entryAt k.mem (tableOf k.mem src (v / 1024) + 4 * (v % 1024)) ∧
      HoldsFrame k.mem (tableOf k.mem src (v / 1024)) (v % 1024) := by
  obtain ⟨-, notShared, holds⟩ := own
  have hasTable : tableOf k.mem src (v / 1024) ≠ 0 := by
    intro zero
    rw [pageOf, if_pos zero] at holds
    exact holds rfl
  have page : pageOf k.mem src v =
      entryAt k.mem (tableOf k.mem src (v / 1024) + 4 * (v % 1024)) := if_neg hasTable
  rw [page] at holds
  exact ⟨⟨hasTable, notShared⟩, page, holds⟩

theorem Slots.pageOf_own (slots : Slots k src dir 1024 k') (own : OwnPage k src v) :
    pageOf k'.mem dir v = entryAt k'.mem (tableOf k'.mem dir (v / 1024) + 4 * (v % 1024)) := by
  have index : v / 1024 < 1024 := by have := own.1; omega
  exact if_neg (slots.made _ index own.table.1)

/-- The frame of an own page is none of those `clone_directory` may write to. -/
theorem Copyable.ownFrame (copyable : Copyable k src) (own : OwnPage k src v) {g : Nat}
    (frame : (pageOf k.mem src v).frame = g) :
    k.frames.used g = true ∧ OffReserve k src g := by
  obtain ⟨bound, -, holds⟩ := id own
  obtain ⟨isPrivate, page, -⟩ := own.table
  exact copyable.held _ (v % 1024) g (by omega) (by omega) isPrivate (page ▸ frame)
    fun zero => holds (frame.trans zero)

theorem Slots.ownCopy (slots : Slots k src dir 1024 k') (copyable : Copyable k src)
    (own : OwnPage k src v) {g : Nat} (frame : (pageOf k.mem src v).frame = g) :
    ∃ f, (pageOf k'.mem dir v).present ∧ (pageOf k'.mem dir v).frame = f ∧
      f < k.frames.scanned ∧ k.frames.used f = false ∧ k'.frames.used f = true ∧
        ∀ o, o < 0x1000 → k'.mem (f * 0x1000 + o) = k.mem (g * 0x1000 + o) := by
  have index : v / 1024 < 1024 := by have := own.1; omega
  obtain ⟨isPrivate, page, holds⟩ := own.table
  obtain ⟨used, off⟩ := copyable.ownFrame own frame
  obtain ⟨f, copied⟩ := slots.copied _ _ index (by omega) isPrivate holds
  have entry : pageOf k'.mem dir v = clonedPage (pageOf k.mem src v) f := by
    rw [slots.pageOf_own own, copied.entry, page]
  refine ⟨f, by rw [entry]; rfl, by rw [entry]; rfl, copied.inMap, copied.free, copied.taken, ?_⟩
  refine copied.content g (page ▸ frame) used ?_
  -- The table of the copy is in the reserve, the frame is not.
  have size : sizeofTable = 0x1000 := rfl
  have inReserve : ∀ o, o < 0x1000 → _ := fun o inTable =>
    slots.region (tableOf k'.mem dir (v / 1024) + o)
      (Or.inr ⟨_, index, isPrivate, by omega, by omega⟩)
  have first := inReserve 0 (by decide)
  have last := inReserve 0xFFF (by decide)
  unfold OffReserve at off
  unfold Misses
  omega

end

/-- `clone_directory` copies the address space. -/
theorem cloneDirectory_copies {k : Kernel} {src : Nat} (copyable : Copyable k src)
    (undef : Nat → Nat → BitVec 32) :
    ∃ dir k', k.cloneDirectory src undef = some (dir, k') ∧ AddressSpaceCopy k src k' dir := by
  obtain ⟨dir, k', returned, slots⟩ := copyable.clones undef
  refine ⟨dir, k', returned, ?_⟩
  exact
    { shared := by
        intro v bound shared
        exact slots.kept _ (by omega) fun isPrivate => isPrivate.2 shared
      copied := fun v g own frame => slots.ownCopy copyable own frame
      distinct := by
        intro v v' own own' different
        have bound := own.1
        have bound' := own'.1
        rw [slots.pageOf_own own, slots.pageOf_own own']
        exact slots.distinct _ _ _ _ (by omega) (by omega) (by omega) (by omega) own.table.1
          own'.table.1 own.table.2.2 own'.table.2.2 (by omega)
      unmapped := by
        intro v bound notShared holdsNone
        by_cases empty : tableOf k.mem src (v / 1024) = 0
        · refine if_pos ?_
          rw [slots.kept _ (by omega) fun isPrivate => isPrivate.1 empty, empty]
        · rw [pageOf, if_neg empty] at holdsNone
          have isPrivate : Private k src (v / 1024) := ⟨empty, notShared⟩
          rw [pageOf, if_neg (slots.made _ (by omega) isPrivate)]
          exact entryAt_zero (slots.empty _ _ (by omega) (by omega) isPrivate
            fun holds => holds holdsNone)
      tables := slots.source
      frames := by
        intro v g bound frame positive ofKernel o inPage
        by_cases shared : SharedPage k src v
        · obtain ⟨used, off⟩ := ofKernel shared
          exact slots.frame_kept used off ⟨by omega, by omega⟩
        · have own : OwnPage k src v := ⟨bound, shared, fun zero => positive (frame ▸ zero)⟩
          obtain ⟨used, off⟩ := copyable.ownFrame own frame
          exact slots.frame_kept used off ⟨by omega, by omega⟩ }

/-! ### An address space with one page -/

theorem sourceMemory_lt {k : Kernel} {src limit a : Nat} (source : src + sizeofDirectory ≤ limit)
    (kernel : k.kernelDirectory + sizeofDirectory ≤ limit)
    (tables : ∀ i, i < 1024 → tableOf k.mem src i ≠ 0 → tableOf k.mem src i + sizeofTable ≤ limit)
    (isSource : SourceMemory k src a) : a < limit := by
  rcases isSource with inSource | inKernel | ⟨i, index, hasTable, inTable⟩
  · exact inSource.2.trans_le source
  · exact inKernel.2.trans_le kernel
  · exact inTable.2.trans_le (tables i index hasTable)

/-- A directory without tables behind the first needs the frames of one table. -/
theorem demand_le_of_first {k : Kernel} {src : Nat}
    (first : ∀ i, i < 1024 → Private k src i → i = 0) : demand k src 1024 ≤ 1024 := by
  have single : demand k src 1024 = if Private k src 0 then
      Nat.count (HoldsFrame k.mem (tableOf k.mem src 0)) 1024 else 0 := by
    refine Finset.sum_eq_single_of_mem 0 (Finset.mem_range.mpr (by decide)) ?_
    intro i index later
    exact if_neg fun isPrivate => later (first i (Finset.mem_range.mp index) isPrivate)
  have few := Nat.count_le (p := HoldsFrame k.mem (tableOf k.mem src 0)) (n := 1024)
  rw [single]
  split <;> omega

/-- The heap is not up, the frames from `0xE00` on are free, the kernel's directory is at
`kd`, and the directory at `0x44000` has one table, at `0x50000`, whose first entry is
`word`. -/
def spaceKernel (kd word : Nat) : Kernel where
  heap := (Client.boot (((Memory.write32 (fun _ => 0) 0x44000 0x50000).write32 0x50000
    word).write32 0x101000 1) 0x100000).heap
  frames := FrameMap.lowUsed 0x70 0x2000
  kernelDirectory := kd
  currentDirectory := 0x44000

section SpaceKernel

variable {kd word : Nat}

theorem read32_spaceKernel {a : Nat} (aligned : a % 4 = 0) :
    (spaceKernel kd word).mem.read32 a =
      if a = 0x101000 then 1 else if a = 0x50000 then word % 2 ^ 32
      else if a = 0x44000 then 0x50000 else 0 := by
  change (((Memory.write32 (fun _ => 0) 0x44000 0x50000).write32 0x50000 word).write32 0x101000
    1).read32 a = _
  rw [Memory.read32_write32_aligned _ _ (by decide) aligned,
    Memory.read32_write32_aligned _ _ (by decide) aligned,
    Memory.read32_write32_aligned _ _ (by decide) aligned]
  rfl

theorem tableOf_spaceKernel {i : Nat} (index : i < 1024) :
    tableOf (spaceKernel kd word).mem 0x44000 i = if i = 0 then 0x50000 else 0 := by
  rw [tableOf, read32_spaceKernel (by omega), if_neg (by omega), if_neg (by omega)]
  exact if_congr (by omega) rfl rfl

theorem entryAt_spaceKernel {j : Nat} (index : j < 1024) :
    entryAt (spaceKernel kd word).mem (0x50000 + 4 * j) =
      if j = 0 then decode (word % 2 ^ 32) else PageT.zero := by
  rw [entryAt, read32_spaceKernel (by omega), if_neg (by omega)]
  by_cases first : j = 0
  · rw [if_pos (by omega), if_pos first]
  · rw [if_neg (by omega), if_neg (by omega), if_neg first]
    rfl

theorem sourceMemory_spaceKernel (low : kd ≤ 0x44000) {a : Nat}
    (isSource : SourceMemory (spaceKernel kd word) 0x44000 a) : a < 0x100000 := by
  refine sourceMemory_lt (by decide) (show kd + 8196 ≤ _ by omega) ?_ isSource
  intro i index hasTable
  rw [tableOf_spaceKernel index] at hasTable ⊢
  split
  next => decide
  next later => exact absurd (if_neg later) hasTable

theorem Private.first {i : Nat} (isPrivate : Private (spaceKernel kd word) 0x44000 i)
    (index : i < 1024) : i = 0 := by
  by_contra later
  exact isPrivate.1 (by rw [tableOf_spaceKernel index, if_neg later])

theorem copyable_spaceKernel (low : kd ≤ 0x44000)
    (frame : tableOf (spaceKernel kd word).mem kd 0 = 0x50000 ∨
      0xD0A ≤ (decode (word % 2 ^ 32)).frame ∧ (decode (word % 2 ^ 32)).frame < 0xE00) :
    Copyable (spaceKernel kd word) 0x44000 := by
  have scanned : (spaceKernel kd word).frames.scanned = 32 * 0x70 + 0x1200 := by
    change (FrameMap.lowUsed 0x70 0x2000).scanned = _
    decide
  have most : Nat.count (Private (spaceKernel kd word) 0x44000) 1024 ≤ 1024 := Nat.count_le _
  have limit : reserve (spaceKernel kd word) 0x44000 ≤ 0xD0A000 := by
    change 0x100000 + 0xA000 + 0x3000 * Nat.count (Private (spaceKernel kd word) 0x44000) 1024 ≤ _
    omega
  exact
    { arena := .bump rfl (show 0x1000 ≤ 0x100000 by decide)
        fun a isSource => sourceMemory_spaceKernel low isSource
      room := limit.trans (show 0xD0A000 ≤ 0x02000000 by decide)
      frames := by
        rw [scanned]
        decide
      free := by
        intro f _ free
        change (FrameMap.lowUsed 0x70 0x2000).used f = false at free
        rw [FrameMap.used_lowUsed, decide_eq_false_iff_not] at free
        refine ⟨Or.inr (by omega), fun a isSource => Or.inl ?_⟩
        have below := sourceMemory_spaceKernel low isSource
        omega
      held := by
        intro i j f index indexJ isPrivate isFrame positive
        obtain rfl := isPrivate.first index
        rw [tableOf_spaceKernel index, if_pos rfl, entryAt_spaceKernel indexJ] at isFrame
        have different := isPrivate.2
        change tableOf (spaceKernel kd word).mem kd 0 ≠ _ at different
        rw [tableOf_spaceKernel index, if_pos rfl] at different
        have range := frame.resolve_left different
        split at isFrame
        · rw [isFrame] at range
          refine ⟨?_, Or.inr (by omega)⟩
          change (FrameMap.lowUsed 0x70 0x2000).used f = true
          rw [FrameMap.used_lowUsed]
          exact decide_eq_true (by omega)
        · exact absurd isFrame.symm positive
      enough := by
        have free : (spaceKernel kd word).frames.freeCount = 0x1200 :=
          FrameMap.freeCount_lowUsed scanned
        rw [free]
        exact (demand_le_of_first fun i index isPrivate => isPrivate.first index).trans (by decide) }

end SpaceKernel

/-- `cloneDirectory_copies` for a directory with one page of its own. -/
theorem cloneDirectory_copies_onePage :
    ∃ dir k', (spaceKernel 0x40000 0xD80007).cloneDirectory 0x44000 (fun _ _ => 0) =
      some (dir, k') ∧ AddressSpaceCopy (spaceKernel 0x40000 0xD80007) 0x44000 k' dir :=
  cloneDirectory_copies
    (copyable_spaceKernel (by decide) (Or.inr (by decide))) (fun _ _ => 0)

theorem cloneDirectory_eq_some {k k' : Kernel} {src dir : Nat} {undef : Nat → Nat → BitVec 32}
    (returned : k.cloneDirectory src undef = some (dir, k')) :
    ∃ phys k₁, k.kmallocAlignedPhysical sizeofDirectory = some (dir, phys, k₁) := by
  rw [Kernel.cloneDirectory, Option.bind_eq_some_iff] at returned
  obtain ⟨⟨dir', phys, k₁⟩, allocated, rest⟩ := returned
  simp only [Option.bind_eq_some_iff, Option.map_eq_some_iff, Prod.mk.injEq] at rest
  obtain ⟨s, -, k₂, -, rfl, -⟩ := rest
  exact ⟨phys, k₁, allocated⟩

/-- A page of the kernel on which the new directory is put does not keep its contents. -/
theorem kernel_frame_is_written :
    ¬ ∀ (k : Kernel) (src : Nat) (undef : Nat → Nat → BitVec 32) (dir : Nat) (k' : Kernel),
      Copyable k src →
        (∀ v g, v < 2 ^ 20 → (pageOf k.mem src v).frame = g → g ≠ 0 → k.frames.used g = true) →
          k.cloneDirectory src undef = some (dir, k') →
            ∀ v g, v < 2 ^ 20 → (pageOf k.mem src v).frame = g → g ≠ 0 →
              ∀ o, o < 0x1000 → k'.mem (g * 0x1000 + o) = k.mem (g * 0x1000 + o) := by
  intro always
  have table : tableOf (spaceKernel 0x44000 0x101003).mem 0x44000 0 = 0x50000 := by
    rw [tableOf_spaceKernel (by decide), if_pos rfl]
  have copyable : Copyable (spaceKernel 0x44000 0x101003) 0x44000 :=
    copyable_spaceKernel (Nat.le_refl _) (Or.inl table)
  obtain ⟨dir, k', returned, slots⟩ := copyable.clones fun _ _ => 0
  have page : ∀ v, v < 2 ^ 20 → (pageOf (spaceKernel 0x44000 0x101003).mem 0x44000 v).frame =
      if v = 0 then 0x101 else 0 := by
    intro v bound
    rw [pageOf, tableOf_spaceKernel (by omega)]
    by_cases first : v / 1024 = 0
    · rw [if_pos first, if_neg (by decide), entryAt_spaceKernel (by omega)]
      by_cases zero : v = 0
      · rw [zero]
        decide
      · rw [if_neg (by omega), if_neg zero]
        rfl
    · rw [if_neg first, if_pos rfl, if_neg (by omega)]
      rfl
  -- The new directory is page 0x101, and its first word is now the shared table.
  obtain ⟨phys, k₁, allocated⟩ := cloneDirectory_eq_some returned
  have place : dir = 0x101000 := by
    rw [kmallocAlignedPhysical_bump rfl (show 0x1000 ≤ 0x100000 by decide) _ (by decide)]
      at allocated
    exact (congrArg Prod.fst (Option.some.inj allocated)).symm
  have shared : tableOf k'.mem dir 0 = 0x50000 := by
    rw [slots.kept 0 (by decide) fun isPrivate => isPrivate.2 rfl, table]
  have unchanged := always _ _ _ dir k' copyable ?_ returned 0 0x101 (by decide)
    ((page 0 (by decide)).trans (if_pos rfl)) (by decide)
  · have word : k'.mem.read32 0x101000 = (spaceKernel 0x44000 0x101003).mem.read32 0x101000 :=
      Memory.read32_congr fun o inWord => unchanged o (by omega)
    rw [read32_spaceKernel (by decide), if_pos rfl] at word
    rw [tableOf, place, word] at shared
    exact absurd shared (by decide)
  · intro v g bound isFrame positive
    rw [page v bound] at isFrame
    split at isFrame
    · rw [← isFrame]
      exact FrameMap.used_lowUsed 0x70 0x2000 0x101
    · exact absurd isFrame.symm positive

end Balloon.Paging
