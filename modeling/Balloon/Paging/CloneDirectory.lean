import Mathlib.Algebra.Order.BigOperators.Group.Finset
import Balloon.Paging.Arena
import Balloon.Paging.CloneTable

/-!
Owns what `clone_directory` leaves: the directory, the tables and the frames of the copy,
and the memory of the source. The frames of the source that the kernel shares are not owned
here; the kernel goes on writing to them, and so does `clone_directory` itself.
-/

namespace Balloon.Paging

open Balloon.Foundation
open Balloon.Libc
open Balloon.Allocator
open Balloon.Frames

/-- The table of slot `i` is to be copied. -/
def Private (k : Kernel) (src i : Nat) : Prop :=
  tableOf k.mem src i ≠ 0 ∧ tableOf k.mem k.kernelDirectory i ≠ tableOf k.mem src i

instance (k : Kernel) (src : Nat) : DecidablePred (Private k src) :=
  fun _ => inferInstanceAs (Decidable (_ ∧ _))

/-- The two directories and the tables of the source. -/
def SourceMemory (k : Kernel) (src a : Nat) : Prop :=
  Inside src sizeofDirectory a ∨ Inside k.kernelDirectory sizeofDirectory a ∨
    ∃ i, i < 1024 ∧ tableOf k.mem src i ≠ 0 ∧ Inside (tableOf k.mem src i) sizeofTable a

/-- How many frames the first `n` slots need. -/
def demand (k : Kernel) (src n : Nat) : Nat :=
  ∑ i ∈ Finset.range n,
    if Private k src i then Nat.count (HoldsFrame k.mem (tableOf k.mem src i)) 1024 else 0

/-- What the directory and the new tables need at most, behind the memory in use. -/
def reserve (k : Kernel) (src : Nat) : Nat :=
  topOf k.heap + 0xA000 + 0x3000 * Nat.count (Private k src) 1024

/-- Frame `f` has no byte of the memory that `clone_directory` may get. -/
def OffReserve (k : Kernel) (src f : Nat) : Prop :=
  f * 0x1000 + 0x1000 ≤ k.heap.placementPointer ∨ reserve k src ≤ f * 0x1000

/-- What `clone_directory` is called with: a source in memory that the allocator has given
out, room for the copy, private frames that are marked and not the kernel's, and enough free
frames, none of them the kernel's. -/
structure Copyable (k : Kernel) (src : Nat) : Prop where
  arena : Arena k.heap (SourceMemory k src)
  room : reserve k src ≤ kheapEnd
  frames : k.frames.scanned ≤ 2 ^ 20
  free : ∀ f, f < k.frames.scanned → k.frames.used f = false → OffReserve k src f ∧
    ∀ a, SourceMemory k src a → a < f * 0x1000 ∨ f * 0x1000 + 0x1000 ≤ a
  held : ∀ i j f, i < 1024 → j < 1024 → Private k src i →
    (entryAt k.mem (tableOf k.mem src i + 4 * j)).frame = f → f ≠ 0 →
      k.frames.used f = true ∧ OffReserve k src f
  enough : demand k src 1024 ≤ k.frames.freeCount

/-! ### The loop over the slots -/

/-- The memory of the copy: its directory and the tables of the first `n` slots. -/
def CopyMemory (k : Kernel) (src dir n : Nat) (s : Kernel) (a : Nat) : Prop :=
  Inside dir sizeofDirectory a ∨
    ∃ i, i < n ∧ Private k src i ∧ Inside (tableOf s.mem dir i) sizeofTable a

/-- The first `n` slots are done. -/
structure Slots (k : Kernel) (src dir n : Nat) (s : Kernel) : Prop where
  arena : Arena s.heap fun a => SourceMemory k src a ∨ CopyMemory k src dir n s a
  directory : s.kernelDirectory = k.kernelDirectory
  placement : k.heap.placementPointer ≤ s.heap.placementPointer
  top : topOf s.heap ≤ topOf k.heap + 0x4004 + 0x3000 * Nat.count (Private k src) n
  nframes : s.frames.nframes = k.frames.nframes
  used : ∀ f, k.frames.used f = true → s.frames.used f = true
  supply : s.frames.freeCount + demand k src n = k.frames.freeCount
  source : ∀ a, SourceMemory k src a → s.mem a = k.mem a
  fresh : ∀ a, SourceMemory k src a → ¬ Inside dir sizeofDirectory a
  apart : ∀ i a, i < n → Private k src i → Inside (tableOf s.mem dir i) sizeofTable a →
    ¬ Inside dir sizeofDirectory a
  region : ∀ a, CopyMemory k src dir n s a → k.heap.placementPointer ≤ a ∧ a < reserve k src
  kept : ∀ i, i < n → ¬ Private k src i → tableOf s.mem dir i = tableOf k.mem src i
  blank : ∀ i, i < 1024 → n ≤ i → tableOf s.mem dir i = 0
  made : ∀ i, i < n → Private k src i → tableOf s.mem dir i ≠ 0
  copied : ∀ i j, i < n → j < 1024 → Private k src i →
    HoldsFrame k.mem (tableOf k.mem src i) j →
      ∃ f, CopiedTo k (tableOf k.mem src i) (tableOf s.mem dir i) s j f
  empty : ∀ i j, i < n → j < 1024 → Private k src i →
    ¬ HoldsFrame k.mem (tableOf k.mem src i) j → s.mem.read32 (tableOf s.mem dir i + 4 * j) = 0
  distinct : ∀ i j i' j', i < n → i' < n → j < 1024 → j' < 1024 →
    Private k src i → Private k src i' → HoldsFrame k.mem (tableOf k.mem src i) j →
      HoldsFrame k.mem (tableOf k.mem src i') j' → ¬ (i = i' ∧ j = j') →
        (entryAt s.mem (tableOf s.mem dir i + 4 * j)).frame ≠
          (entryAt s.mem (tableOf s.mem dir i' + 4 * j')).frame
  outside : ∀ a, (a < k.heap.placementPointer ∨ reserve k src ≤ a) →
    (∀ f, f < k.frames.scanned → k.frames.used f = false → s.frames.used f = true →
      a < f * 0x1000 ∨ f * 0x1000 + 0x1000 ≤ a) → s.mem a = k.mem a

section Slots

variable {k s : Kernel} {src dir n : Nat}

/-- A range that meets no byte of a page lies beside it. -/
theorem beside_of_apart {p q w : Nat} (positive : 0 < w)
    (apart : ∀ a, Inside p 0x1000 a → a < q ∨ q + w ≤ a) :
    p + 0x1000 ≤ q ∨ q + w ≤ p := by
  by_cases below : p < q
  · left
    by_contra reaches
    have hit := apart q ⟨by omega, by omega⟩
    omega
  · have hit := apart p ⟨Nat.le_refl p, by omega⟩
    omega

theorem Private.sourceMemory {i : Nat} (isPrivate : Private k src i) (index : i < 1024) {a : Nat}
    (inside : Inside (tableOf k.mem src i) 0x1000 a) : SourceMemory k src a :=
  Or.inr (Or.inr ⟨i, index, isPrivate.1, inside⟩)

/-- A free frame misses the tables that are copied. -/
theorem Copyable.misses_source (copyable : Copyable k src) {i f : Nat} (index : i < 1024)
    (isPrivate : Private k src i) (inMap : f < k.frames.scanned)
    (free : k.frames.used f = false) : Misses f (tableOf k.mem src i) := by
  have apart := beside_of_apart (w := 0x1000) (q := f * 0x1000) (by decide) fun a inside =>
    (copyable.free f inMap free).2 a (isPrivate.sourceMemory index inside)
  exact apart.symm

/-- The kernel reads the slots of both directories as they were. -/
theorem Slots.tables (slots : Slots k src dir n s) {i : Nat} (index : i < 1024) :
    tableOf s.mem src i = tableOf k.mem src i ∧
      tableOf s.mem s.kernelDirectory i = tableOf k.mem k.kernelDirectory i ∧
      tablePhysicalOf s.mem src i = tablePhysicalOf k.mem src i := by
  have size : sizeofDirectory = 8196 := rfl
  rw [slots.directory]
  refine ⟨?_, ?_, ?_⟩
  · exact Memory.read32_congr fun o inWord =>
      slots.source _ (Or.inl ⟨by omega, by omega⟩)
  · exact Memory.read32_congr fun o inWord =>
      slots.source _ (Or.inr (Or.inl ⟨by omega, by omega⟩))
  · exact Memory.read32_congr fun o inWord =>
      slots.source _ (Or.inl ⟨by omega, by omega⟩)

/-! ### What a round leaves of the rounds before it -/

/-- The kernel `s'` still has what the first `n` slots of `s` have. -/
structure Carries (k : Kernel) (src dir n : Nat) (s s' : Kernel) : Prop where
  tables : ∀ i, i < n → tableOf s'.mem dir i = tableOf s.mem dir i
  entries : ∀ i j, i < n → j < 1024 → Private k src i →
    s'.mem.read32 (tableOf s.mem dir i + 4 * j) = s.mem.read32 (tableOf s.mem dir i + 4 * j)
  frames : ∀ f, f < k.frames.scanned → k.frames.used f = false → s.frames.used f = true →
    s'.frames.used f = true ∧
      ∀ o, o < 0x1000 → s'.mem (f * 0x1000 + o) = s.mem (f * 0x1000 + o)

variable {s' : Kernel}

theorem Carries.entry (carries : Carries k src dir n s s') {i j : Nat} (before : i < n)
    (index : j < 1024) (isPrivate : Private k src i) :
    entryAt s'.mem (tableOf s'.mem dir i + 4 * j) =
      entryAt s.mem (tableOf s.mem dir i + 4 * j) := by
  rw [carries.tables i before, entryAt, carries.entries i j before index isPrivate, entryAt]

theorem Carries.copied (carries : Carries k src dir n s s') (slots : Slots k src dir n s)
    {i j : Nat} (before : i < n) (index : j < 1024) (isPrivate : Private k src i)
    (held : HoldsFrame k.mem (tableOf k.mem src i) j) :
    ∃ f, s.frames.used f = true ∧
      CopiedTo k (tableOf k.mem src i) (tableOf s'.mem dir i) s' j f := by
  obtain ⟨f, copied⟩ := slots.copied i j before index isPrivate held
  obtain ⟨taken, bytes⟩ := carries.frames f copied.inMap copied.free copied.taken
  rw [carries.tables i before]
  refine ⟨f, copied.taken, copied.keep taken ?_ bytes⟩
  rw [entryAt, carries.entries i j before index isPrivate, entryAt]

theorem Carries.empty (carries : Carries k src dir n s s') (slots : Slots k src dir n s)
    {i j : Nat} (before : i < n) (index : j < 1024) (isPrivate : Private k src i)
    (holdsNone : ¬ HoldsFrame k.mem (tableOf k.mem src i) j) :
    s'.mem.read32 (tableOf s'.mem dir i + 4 * j) = 0 := by
  rw [carries.tables i before, carries.entries i j before index isPrivate]
  exact slots.empty i j before index isPrivate holdsNone

/-! ### A slot without a copy -/

section WriteSlot

variable (m : Memory) {v w : Nat}

/-- The memory after `dir->tables[n]` and `dir->tablesPhysical[n]` are set. -/
def writeSlot (dir n v w : Nat) : Memory :=
  (m.write32 (dir + 4 * n) v).write32 (dir + 4096 + 4 * n) w

theorem writeSlot_outside (index : n < 1024) {a : Nat}
    (outside : ¬ Inside dir sizeofDirectory a) : writeSlot m dir n v w a = m a := by
  have size : sizeofDirectory = 8196 := rfl
  unfold Inside at outside
  rw [writeSlot, Memory.write32_outside _ _ (by omega), Memory.write32_outside _ _ (by omega)]

theorem tableOf_writeSlot (index : n < 1024) (small : v < 2 ^ 32) {i : Nat} (bound : i < 1024) :
    tableOf (writeSlot m dir n v w) dir i = if i = n then v else tableOf m dir i := by
  rw [tableOf, writeSlot, Memory.read32_write32_disjoint _ _ (by omega)]
  by_cases same : i = n
  · rw [if_pos same, same, Memory.read32_write32_same, Nat.mod_eq_of_lt small]
  · rw [if_neg same, Memory.read32_write32_disjoint _ _ (by omega), tableOf]

end WriteSlot

theorem demand_succ (k : Kernel) (src n : Nat) :
    demand k src (n + 1) = demand k src n +
      if Private k src n then Nat.count (HoldsFrame k.mem (tableOf k.mem src n)) 1024 else 0 :=
  Finset.sum_range_succ _ _

/-- Frames that were free have no byte of the new memory. -/
theorem Slots.frame_off (slots : Slots k src dir n s) (copyable : Copyable k src) {f a : Nat}
    (inMap : f < k.frames.scanned) (free : k.frames.used f = false)
    (inside : Inside (f * 0x1000) 0x1000 a) :
    ¬ SourceMemory k src a ∧ ¬ CopyMemory k src dir n s a := by
  obtain ⟨offReserve, offSource⟩ := copyable.free f inMap free
  unfold Inside at inside
  constructor
  · intro isSource
    have off := offSource a isSource
    omega
  · intro isCopy
    have range := slots.region a isCopy
    unfold OffReserve at offReserve
    omega

/-- Writing the directory keeps what the rounds before have done. -/
theorem Slots.carries_write (slots : Slots k src dir n s) (copyable : Copyable k src)
    {m : Memory} (outside : ∀ a, ¬ Inside dir sizeofDirectory a → m a = s.mem a)
    (tables : ∀ i, i < n → tableOf m dir i = tableOf s.mem dir i) :
    Carries k src dir n s (s.withMem m) where
  tables := tables
  entries := by
    intro i j before indexJ isPrivate
    refine Memory.read32_congr fun o inWord => outside _ ?_
    have size : sizeofTable = 0x1000 := rfl
    exact slots.apart i _ before isPrivate ⟨by omega, by omega⟩
  frames := by
    intro f inMap free taken
    refine ⟨taken, fun o inPage => outside _ fun inDirectory => ?_⟩
    exact (slots.frame_off copyable inMap free ⟨by omega, by omega⟩).2 (Or.inl inDirectory)

/-- A slot that is empty or the kernel's. -/
theorem Slots.pass (slots : Slots k src dir n s) (copyable : Copyable k src) (index : n < 1024)
    (notPrivate : ¬ Private k src n) {m : Memory}
    (outside : ∀ a, ¬ Inside dir sizeofDirectory a → m a = s.mem a)
    (tables : ∀ i, i < 1024 →
      tableOf m dir i = if i = n then tableOf k.mem src n else tableOf s.mem dir i) :
    Slots k src dir (n + 1) (s.withMem m) := by
  have before : ∀ i, i < n + 1 → Private k src i → i < n := by
    intro i below isPrivate
    have different : i ≠ n := fun same => notPrivate (same ▸ isPrivate)
    omega
  have earlier : ∀ i, i < n → tableOf m dir i = tableOf s.mem dir i := by
    intro i below
    rw [tables i (by omega), if_neg (by omega)]
  have carries := slots.carries_write copyable outside earlier
  have same : ∀ a, CopyMemory k src dir (n + 1) (s.withMem m) a ↔
      CopyMemory k src dir n s a := by
    intro a
    refine or_congr Iff.rfl (exists_congr fun i => ⟨?_, ?_⟩)
    · rintro ⟨below, isPrivate, inside⟩
      rw [Kernel.mem_withMem, earlier i (before i below isPrivate)] at inside
      exact ⟨before i below isPrivate, isPrivate, inside⟩
    · rintro ⟨below, isPrivate, inside⟩
      rw [Kernel.mem_withMem, earlier i below]
      exact ⟨by omega, isPrivate, inside⟩
  exact
    { arena := by
        refine (slots.arena.write (m := m) fun a => ?_).mono fun a isLive => ?_
        · by_cases inDirectory : Inside dir sizeofDirectory a
          · exact Or.inl (Or.inr (Or.inl inDirectory))
          · exact Or.inr (Or.inr (Or.inr (outside a inDirectory)))
        · exact isLive.imp_right (same a).mp
      directory := slots.directory
      placement := slots.placement
      top := by
        rw [Nat.count_succ, if_neg notPrivate]
        exact slots.top
      nframes := slots.nframes
      used := slots.used
      supply := by
        rw [demand_succ, if_neg notPrivate]
        exact slots.supply
      source := fun a isSource => (outside a (slots.fresh a isSource)).trans (slots.source a isSource)
      fresh := slots.fresh
      apart := by
        intro i a below isPrivate inside
        rw [Kernel.mem_withMem, earlier i (before i below isPrivate)] at inside
        exact slots.apart i a (before i below isPrivate) isPrivate inside
      region := fun a isCopy => slots.region a ((same a).mp isCopy)
      kept := by
        intro i below passed
        rw [Kernel.mem_withMem, tables i (by omega)]
        split
        next last => rw [last]
        next other => exact slots.kept i (by omega) passed
      blank := by
        intro i bound above
        rw [Kernel.mem_withMem, tables i bound, if_neg (by omega)]
        exact slots.blank i bound (by omega)
      made := by
        intro i below isPrivate
        rw [Kernel.mem_withMem, earlier i (before i below isPrivate)]
        exact slots.made i (before i below isPrivate) isPrivate
      copied := by
        intro i j below indexJ isPrivate held
        obtain ⟨f, -, copied⟩ :=
          carries.copied slots (before i below isPrivate) indexJ isPrivate held
        exact ⟨f, copied⟩
      empty := fun i j below indexJ isPrivate =>
        carries.empty slots (before i below isPrivate) indexJ isPrivate
      distinct := by
        intro i j i' j' below below' indexJ indexJ' isPrivate isPrivate' held held' different
        rw [carries.entry (before i below isPrivate) indexJ isPrivate,
          carries.entry (before i' below' isPrivate') indexJ' isPrivate']
        exact slots.distinct i j i' j' (before i below isPrivate) (before i' below' isPrivate')
          indexJ indexJ' isPrivate isPrivate' held held' different
      outside := by
        intro a off offFrames
        refine (outside a fun inDirectory => ?_).trans (slots.outside a off offFrames)
        have range := slots.region a (Or.inl inDirectory)
        omega }

theorem Slots.cloneSlot_pass (slots : Slots k src dir n s) (copyable : Copyable k src)
    (index : n < 1024) (notPrivate : ¬ Private k src n) (undef : Nat → BitVec 32) :
    ∃ s', s.cloneSlot src dir n undef = some s' ∧ Slots k src dir (n + 1) s' := by
  obtain ⟨srcTable, kernelTable, -⟩ := slots.tables index
  by_cases empty : tableOf k.mem src n = 0
  · refine ⟨s, ?_, ?_⟩
    · rw [Kernel.cloneSlot, srcTable, if_pos empty]
    · refine slots.pass copyable index notPrivate (m := s.mem) (fun _ _ => rfl) fun i bound => ?_
      split
      next last => rw [last, slots.blank n index (Nat.le_refl n), empty]
      next other => rfl
  · have shared : tableOf k.mem k.kernelDirectory n = tableOf k.mem src n := by
      by_contra different
      exact notPrivate ⟨empty, different⟩
    refine ⟨s.withMem (writeSlot s.mem dir n (tableOf k.mem src n) (tablePhysicalOf
      (s.mem.write32 (dir + 4 * n) (tableOf k.mem src n)) src n)), ?_, ?_⟩
    · rw [Kernel.cloneSlot, srcTable, kernelTable, if_neg empty, if_pos shared]
      rfl
    · exact slots.pass copyable index notPrivate
        (fun a outside => writeSlot_outside s.mem index outside)
        fun i bound => tableOf_writeSlot s.mem index (k.mem.read32_lt _) bound

/-! ### A slot with a copy -/

/-- The kernel `t` after `clone_table` has made the table at `p` for slot `n`. -/
structure TableMade (k : Kernel) (src dir n : Nat) (s : Kernel) (p : Nat) (t : Kernel) : Prop where
  arena : Arena t.heap fun a =>
    (SourceMemory k src a ∨ CopyMemory k src dir n s a) ∨ Inside p sizeofTable a
  directory : t.kernelDirectory = s.kernelDirectory
  placement : s.heap.placementPointer ≤ t.heap.placementPointer
  top : topOf t.heap ≤ topOf s.heap + 0x3000
  nframes : t.frames.nframes = s.frames.nframes
  used : ∀ f, s.frames.used f = true → t.frames.used f = true
  supply : t.frames.freeCount + Nat.count (HoldsFrame k.mem (tableOf k.mem src n)) 1024 =
    s.frames.freeCount
  positive : 0x1000 ≤ p
  low : k.heap.placementPointer ≤ p
  high : p + 0x1000 ≤ reserve k src
  apart : ∀ a, SourceMemory k src a ∨ CopyMemory k src dir n s a → ¬ Inside p sizeofTable a
  quiet : ∀ a, SourceMemory k src a ∨ CopyMemory k src dir n s a → t.mem a = s.mem a
  frames : ∀ f, f < k.frames.scanned → k.frames.used f = false → s.frames.used f = true →
    ∀ o, o < 0x1000 → t.mem (f * 0x1000 + o) = s.mem (f * 0x1000 + o)
  copied : ∀ j, j < 1024 → HoldsFrame k.mem (tableOf k.mem src n) j →
    ∃ f, s.frames.used f = false ∧ CopiedTo k (tableOf k.mem src n) p t j f
  empty : ∀ j, j < 1024 → ¬ HoldsFrame k.mem (tableOf k.mem src n) j →
    t.mem.read32 (p + 4 * j) = 0
  distinct : ∀ j j', j < 1024 → j' < 1024 → HoldsFrame k.mem (tableOf k.mem src n) j →
    HoldsFrame k.mem (tableOf k.mem src n) j' → j ≠ j' →
      (entryAt t.mem (p + 4 * j)).frame ≠ (entryAt t.mem (p + 4 * j')).frame
  outside : ∀ a, (a < k.heap.placementPointer ∨ reserve k src ≤ a) →
    (∀ f, f < k.frames.scanned → k.frames.used f = false → t.frames.used f = true →
      a < f * 0x1000 ∨ f * 0x1000 + 0x1000 ≤ a) → t.mem a = s.mem a

/-- Room for one more table. -/
theorem Slots.room (slots : Slots k src dir n s) (index : n < 1024)
    (isPrivate : Private k src n) : topOf s.heap + 0x5FFC ≤ reserve k src := by
  have top := slots.top
  have more := Nat.count_strict_mono isPrivate index
  unfold reserve
  omega

/-- A frame that is free now was free at the start. -/
theorem Slots.wasFree (slots : Slots k src dir n s) {f : Nat} (free : s.frames.used f = false) :
    k.frames.used f = false := by
  rw [Bool.eq_false_iff]
  intro wasUsed
  rw [slots.used f wasUsed] at free
  contradiction

theorem Slots.scanned (slots : Slots k src dir n s) : s.frames.scanned = k.frames.scanned := by
  rw [FrameMap.scanned, FrameMap.scanned, slots.nframes]

section CopySlot

/-- The block at `p` for the table of slot `n`, allocated and cleared. -/
abbrev TableBlock (k : Kernel) (src dir n : Nat) (s : Kernel) (p : Nat) (k₂ : Kernel) : Prop :=
  BlankBlock s (fun a => SourceMemory k src a ∨ CopyMemory k src dir n s a) sizeofTable p k₂

variable {p : Nat} {k₂ : Kernel}

/-- The source table behind the clear. -/
theorem Slots.source_kept (slots : Slots k src dir n s) (index : n < 1024)
    (isPrivate : Private k src n) (block : TableBlock k src dir n s p k₂)
    {a : Nat} (inside : Inside (tableOf k.mem src n) 0x1000 a) :
    k₂.mem a = k.mem a := by
  have isSource := isPrivate.sourceMemory index inside
  exact (block.kept a (Or.inl isSource)).trans (slots.source a isSource)

theorem Slots.entry_kept (slots : Slots k src dir n s) (index : n < 1024)
    (isPrivate : Private k src n) (block : TableBlock k src dir n s p k₂)
    {j : Nat} (indexJ : j < 1024) :
    entryAt k₂.mem (tableOf k.mem src n + 4 * j) = entryAt k.mem (tableOf k.mem src n + 4 * j) :=
  congrArg decode (Memory.read32_congr fun o inWord =>
    slots.source_kept index isPrivate block ⟨by omega, by omega⟩)

theorem Slots.holdsFrame_kept (slots : Slots k src dir n s) (index : n < 1024)
    (isPrivate : Private k src n) (block : TableBlock k src dir n s p k₂)
    {j : Nat} (indexJ : j < 1024) :
    HoldsFrame k₂.mem (tableOf k.mem src n) j ↔ HoldsFrame k.mem (tableOf k.mem src n) j := by
  rw [HoldsFrame, HoldsFrame, slots.entry_kept index isPrivate block indexJ]

theorem Slots.count_kept (slots : Slots k src dir n s) (index : n < 1024)
    (isPrivate : Private k src n) (block : TableBlock k src dir n s p k₂) :
    Nat.count (HoldsFrame k₂.mem (tableOf k.mem src n)) 1024 =
      Nat.count (HoldsFrame k.mem (tableOf k.mem src n)) 1024 :=
  count_holdsFrame fun _ above below => slots.source_kept index isPrivate block ⟨above, below⟩

/-- The cleared block is ready for the entries. -/
theorem Slots.ready (slots : Slots k src dir n s) (copyable : Copyable k src) (index : n < 1024)
    (isPrivate : Private k src n) (block : TableBlock k src dir n s p k₂) :
    Ready k₂ (tableOf k.mem src n) p := by
  have size : sizeofDirectory = 8196 := rfl
  have room := slots.room index isPrivate
  have high := block.high
  have low := slots.placement.trans block.low
  have apart := beside_of_apart (q := p) (w := sizeofDirectory) (by decide)
    fun a inside => block.apart a (Or.inl (isPrivate.sourceMemory index inside))
  exact
    { apart := by omega
      blank := fun i bound => Memory.read32_zero fun o inWord =>
        block.blank _ (by omega) (by omega)
      frames := by
        rw [block.frames, slots.scanned]
        exact copyable.frames
      misses := by
        rw [block.frames, slots.scanned]
        intro f inMap free
        have wasFree := slots.wasFree free
        have offReserve := (copyable.free f inMap wasFree).1
        refine ⟨copyable.misses_source index isPrivate inMap wasFree, ?_⟩
        unfold OffReserve at offReserve
        unfold Misses
        omega
      enough := by
        have supply := slots.supply
        have enough := copyable.enough
        have grows : demand k src (n + 1) ≤ demand k src 1024 :=
          Finset.sum_le_sum_of_subset_of_nonneg (Finset.range_mono index) fun _ _ _ => Nat.zero_le _
        rw [demand_succ, if_pos isPrivate] at grows
        rw [block.frames, slots.count_kept index isPrivate block]
        omega }

/-- The frame of a page that is copied has its bytes until then. -/
theorem Slots.frame_kept (slots : Slots k src dir n s) {g a : Nat}
    (used : k.frames.used g = true) (off : OffReserve k src g)
    (inside : Inside (g * 0x1000) 0x1000 a) : s.mem a = k.mem a := by
  unfold Inside at inside
  unfold OffReserve at off
  refine slots.outside a (by omega) fun f _ free _ => ?_
  have different : f ≠ g := by
    rintro rfl
    rw [free] at used
    contradiction
  omega

/-- Bytes off the reserve are those in front of the allocation. -/
theorem Slots.block_outside (slots : Slots k src dir n s) (index : n < 1024)
    (isPrivate : Private k src n) (block : TableBlock k src dir n s p k₂)
    {a : Nat} (off : a < k.heap.placementPointer ∨ reserve k src ≤ a) :
    k₂.mem a = s.mem a := by
  have room := slots.room index isPrivate
  have placement := slots.placement
  exact block.outside a (by omega)

section Loop

variable {t : Kernel}

theorem Slots.block_scanned (slots : Slots k src dir n s) (block : TableBlock k src dir n s p k₂) :
    k₂.frames.scanned = k.frames.scanned := by rw [block.frames, slots.scanned]

theorem Slots.block_wasFree (slots : Slots k src dir n s) (block : TableBlock k src dir n s p k₂)
    {f : Nat} (free : k₂.frames.used f = false) : k.frames.used f = false := by
  rw [block.frames] at free
  exact slots.wasFree free

/-- Off the new table and the frames taken for it, the loop changes nothing. -/
theorem Slots.loop_quiet (slots : Slots k src dir n s) (copyable : Copyable k src)
    (block : TableBlock k src dir n s p k₂) (cloned : Cloned k₂ (tableOf k.mem src n) p 1024 t)
    {a : Nat} (isLive : SourceMemory k src a ∨ CopyMemory k src dir n s a) :
    t.mem a = k₂.mem a := by
  have size : sizeofDirectory = 8196 := rfl
  refine cloned.outside a (by have := block.apart a isLive; omega) fun f inMap free _ => ?_
  by_contra hit
  have off := slots.frame_off copyable (f := f) (a := a) (slots.block_scanned block ▸ inMap)
    (slots.block_wasFree block free) ⟨by omega, by omega⟩
  exact isLive.elim off.1 off.2

theorem Slots.loop_arena (slots : Slots k src dir n s) (copyable : Copyable k src)
    (index : n < 1024) (isPrivate : Private k src n) (block : TableBlock k src dir n s p k₂)
    (cloned : Cloned k₂ (tableOf k.mem src n) p 1024 t) :
    Arena t.heap fun a =>
      (SourceMemory k src a ∨ CopyMemory k src dir n s a) ∨ Inside p sizeofTable a := by
  have size : sizeofDirectory = 8196 := rfl
  have tableSize : sizeofTable = 0x1000 := rfl
  have room := slots.room index isPrivate
  have blockTop := block.top
  have placement := slots.placement.trans block.placement
  rw [cloned.heap]
  refine block.arena.write fun a => ?_
  by_cases inTable : p ≤ a ∧ a < p + sizeofTable
  · exact Or.inl (Or.inr inTable)
  · by_cases offFrames : ∀ f, f < k₂.frames.scanned → k₂.frames.used f = false →
        t.frames.used f = true → a < f * 0x1000 ∨ f * 0x1000 + 0x1000 ≤ a
    · exact Or.inr (Or.inr (Or.inr (cloned.outside a (by omega) offFrames)))
    · push Not at offFrames
      obtain ⟨f, inMap, free, -, inFrame⟩ := offFrames
      have off := (copyable.free f (slots.block_scanned block ▸ inMap)
        (slots.block_wasFree block free)).1
      unfold OffReserve at off
      omega

/-- The frames of the rounds before keep their bytes. -/
theorem Slots.loop_frames (slots : Slots k src dir n s) (copyable : Copyable k src)
    (index : n < 1024) (isPrivate : Private k src n) (block : TableBlock k src dir n s p k₂)
    (cloned : Cloned k₂ (tableOf k.mem src n) p 1024 t) {f : Nat} (inMap : f < k.frames.scanned)
    (free : k.frames.used f = false) (taken : s.frames.used f = true) {o : Nat}
    (inPage : o < 0x1000) : t.mem (f * 0x1000 + o) = s.mem (f * 0x1000 + o) := by
  have size : sizeofDirectory = 8196 := rfl
  have tableSize : sizeofTable = 0x1000 := rfl
  have low := slots.placement.trans block.low
  have high := block.high
  have room := slots.room index isPrivate
  have off := (copyable.free f inMap free).1
  unfold OffReserve at off
  rw [← slots.block_outside index isPrivate block (a := f * 0x1000 + o) (by omega)]
  refine cloned.outside _ (by omega) fun g _ free' _ => ?_
  have different : f ≠ g := by
    rintro rfl
    rw [block.frames, taken] at free'
    exact Bool.noConfusion free'
  omega

/-- The copies that the loop made, seen from the kernel in front of all rounds. -/
theorem Slots.loop_copied (slots : Slots k src dir n s) (copyable : Copyable k src)
    (index : n < 1024) (isPrivate : Private k src n) (block : TableBlock k src dir n s p k₂)
    (cloned : Cloned k₂ (tableOf k.mem src n) p 1024 t) {j : Nat} (indexJ : j < 1024)
    (held : HoldsFrame k.mem (tableOf k.mem src n) j) :
    ∃ f, s.frames.used f = false ∧ CopiedTo k (tableOf k.mem src n) p t j f := by
  obtain ⟨f, copy⟩ := cloned.copied j indexJ
    ((slots.holdsFrame_kept index isPrivate block indexJ).mpr held)
  have free : s.frames.used f = false := block.frames ▸ copy.free
  have entry := slots.entry_kept index isPrivate block indexJ
  refine ⟨f, free, ?_⟩
  exact
    { inMap := slots.block_scanned block ▸ copy.inMap
      free := slots.wasFree free
      taken := copy.taken
      entry := by rw [copy.entry, entry]
      content := by
        intro g isFrame used misses o inPage
        have off := (copyable.held n j g index indexJ isPrivate isFrame
          (fun zero => held (isFrame.trans zero))).2
        rw [copy.content g (entry ▸ isFrame) (by rw [block.frames, slots.used g used]) misses o
          inPage]
        have beside := off
        unfold OffReserve at beside
        exact (slots.block_outside index isPrivate block (by omega)).trans
          (slots.frame_kept used off ⟨by omega, by omega⟩) }

end Loop

/-- A private table of the source gets its copy. -/
theorem Slots.makeTable (slots : Slots k src dir n s) (copyable : Copyable k src)
    (index : n < 1024) (isPrivate : Private k src n) (undef : Nat → BitVec 32) :
    ∃ p phys t, s.cloneTable (tableOf k.mem src n) undef = some (p, phys, t) ∧
      TableMade k src dir n s p t := by
  have size : sizeofDirectory = 8196 := rfl
  have tableSize : sizeofTable = 0x1000 := rfl
  have room := slots.room index isPrivate
  have limit := copyable.room
  obtain ⟨p, phys, k₁, k₂, allocated, cleared, block⟩ :=
    slots.arena.blankBlock (Or.inl rfl) (by omega)
  obtain ⟨t, ran, cloned⟩ := (slots.ready copyable index isPrivate block).loop undef
  have returned : s.cloneTable (tableOf k.mem src n) undef = some (p, phys, t) :=
    Option.bind_eq_some_iff.mpr ⟨_, allocated, Option.bind_eq_some_iff.mpr ⟨_, cleared,
      Option.map_eq_some_iff.mpr ⟨t, ran, rfl⟩⟩⟩
  refine ⟨p, phys, t, returned, ?_⟩
  have low := slots.placement.trans block.low
  have high := block.high
  exact
    { arena := slots.loop_arena copyable index isPrivate block cloned
      directory := cloned.directory.trans block.directory
      placement := by
        rw [cloned.heap]
        exact block.placement
      top := by
        rw [cloned.heap]
        exact block.top
      nframes := by rw [cloned.nframes, block.frames]
      used := fun f taken => cloned.used f (block.frames ▸ taken)
      supply := by
        rw [← slots.count_kept index isPrivate block, cloned.supply, block.frames]
      positive := block.positive
      low := low
      high := by omega
      apart := by
        intro a isLive inTable
        have beside := block.apart a isLive
        unfold Inside at inTable
        omega
      quiet := fun a isLive =>
        (slots.loop_quiet copyable block cloned isLive).trans (block.kept a isLive)
      frames := fun f inMap free taken o =>
        slots.loop_frames copyable index isPrivate block cloned inMap free taken
      copied := fun j => slots.loop_copied copyable index isPrivate block cloned
      empty := by
        intro j indexJ holdsNone
        refine cloned.blank j indexJ (Or.inr fun holds => holdsNone ?_)
        exact (slots.holdsFrame_kept index isPrivate block indexJ).mp holds
      distinct := by
        intro j j' indexJ indexJ' held held' different
        exact cloned.distinct j j' indexJ indexJ'
          ((slots.holdsFrame_kept index isPrivate block indexJ).mpr held)
          ((slots.holdsFrame_kept index isPrivate block indexJ').mpr held') different
      outside := by
        intro a off offFrames
        rw [← slots.block_outside index isPrivate block off]
        refine cloned.outside a (by omega) fun f inMap free taken => ?_
        exact offFrames f (slots.block_scanned block ▸ inMap) (slots.block_wasFree block free)
          taken }

/-- The copied page is in the frame `f`. -/
theorem copiedTo_frame {k s : Kernel} {src table i f : Nat} (copied : CopiedTo s src table k i f) :
    (entryAt k.mem (table + 4 * i)).frame = f := by
  rw [copied.entry, clonedPage_frame]

variable {t : Kernel} {m : Memory}

/-- The new table and its entry in the directory keep what the rounds before have done. -/
theorem TableMade.carries (made : TableMade k src dir n s p t) (slots : Slots k src dir n s)
    (copyable : Copyable k src) (outside : ∀ a, ¬ Inside dir sizeofDirectory a → m a = t.mem a)
    (earlier : ∀ i, i < n → tableOf m dir i = tableOf s.mem dir i) :
    Carries k src dir n s (t.withMem m) where
  tables := earlier
  entries := by
    intro i j before indexJ isPrivate
    refine Memory.read32_congr fun o inWord => ?_
    have size : sizeofTable = 0x1000 := rfl
    have inTable : Inside (tableOf s.mem dir i) sizeofTable (tableOf s.mem dir i + 4 * j + o) :=
      ⟨by omega, by omega⟩
    rw [Kernel.mem_withMem, outside _ (slots.apart i _ before isPrivate inTable)]
    exact made.quiet _ (Or.inr (Or.inr ⟨i, before, isPrivate, inTable⟩))
  frames := by
    intro f inMap free taken
    refine ⟨made.used f taken, fun o inPage => ?_⟩
    rw [Kernel.mem_withMem, outside _ fun inDirectory =>
      (slots.frame_off copyable inMap free ⟨by omega, by omega⟩).2 (Or.inl inDirectory)]
    exact made.frames f inMap free taken o inPage

/-- The pages of the new table. -/
theorem TableMade.newEntry (made : TableMade k src dir n s p t)
    (outside : ∀ a, ¬ Inside dir sizeofDirectory a → m a = t.mem a) {j : Nat}
    (indexJ : j < 1024) : m.read32 (p + 4 * j) = t.mem.read32 (p + 4 * j) := by
  refine Memory.read32_congr fun o inWord => outside _ fun inDirectory => ?_
  have size : sizeofTable = 0x1000 := rfl
  exact made.apart _ (Or.inr (Or.inl inDirectory)) ⟨by omega, by omega⟩

theorem TableMade.newCopy (made : TableMade k src dir n s p t) (slots : Slots k src dir n s)
    (copyable : Copyable k src) (outside : ∀ a, ¬ Inside dir sizeofDirectory a → m a = t.mem a)
    {j : Nat} (indexJ : j < 1024) (held : HoldsFrame k.mem (tableOf k.mem src n) j) :
    ∃ f, s.frames.used f = false ∧ CopiedTo k (tableOf k.mem src n) p (t.withMem m) j f := by
  obtain ⟨f, free, copied⟩ := made.copied j indexJ held
  refine ⟨f, free, copied.keep copied.taken ?_ fun o inPage => outside _ fun inDirectory => ?_⟩
  · rw [entryAt, Kernel.mem_withMem, made.newEntry outside indexJ, entryAt]
  · exact (slots.frame_off copyable copied.inMap copied.free ⟨by omega, by omega⟩).2
      (Or.inl inDirectory)

/-- The frames of the new table were free behind the rounds before. -/
theorem TableMade.newFrame (made : TableMade k src dir n s p t) (slots : Slots k src dir n s)
    (copyable : Copyable k src) (outside : ∀ a, ¬ Inside dir sizeofDirectory a → m a = t.mem a)
    (earlier : ∀ i, i < n → tableOf m dir i = tableOf s.mem dir i) {i j j' : Nat}
    (before : i < n) (indexJ : j < 1024) (indexJ' : j' < 1024) (isPrivate : Private k src i)
    (held : HoldsFrame k.mem (tableOf k.mem src i) j)
    (held' : HoldsFrame k.mem (tableOf k.mem src n) j') :
    (entryAt m (tableOf m dir i + 4 * j)).frame ≠ (entryAt m (p + 4 * j')).frame := by
  obtain ⟨f, free, new⟩ := made.newCopy slots copyable outside indexJ' held'
  obtain ⟨g, taken, old⟩ :=
    (made.carries slots copyable outside earlier).copied slots before indexJ isPrivate held
  rw [← Kernel.mem_withMem t m, copiedTo_frame old, copiedTo_frame new]
  rintro rfl
  rw [taken] at free
  exact Bool.noConfusion free

/-- A slot whose table was copied. -/
theorem TableMade.slots (made : TableMade k src dir n s p t) (slots : Slots k src dir n s)
    (copyable : Copyable k src) (index : n < 1024) (isPrivate : Private k src n)
    (outside : ∀ a, ¬ Inside dir sizeofDirectory a → m a = t.mem a)
    (tables : ∀ i, i < 1024 →
      tableOf m dir i = if i = n then p else tableOf t.mem dir i) :
    Slots k src dir (n + 1) (t.withMem m) := by
  have size : sizeofDirectory = 8196 := rfl
  have tableSize : sizeofTable = 0x1000 := rfl
  have inDirectory : ∀ a, Inside dir sizeofDirectory a → CopyMemory k src dir n s a :=
    fun _ => Or.inl
  have others : ∀ i, i < 1024 → i ≠ n → tableOf m dir i = tableOf s.mem dir i := by
    intro i bound different
    rw [tables i bound, if_neg different]
    exact Memory.read32_congr fun o inWord =>
      made.quiet _ (Or.inr (inDirectory _ ⟨by omega, by omega⟩))
  have last : tableOf m dir n = p := by rw [tables n index, if_pos rfl]
  have earlier : ∀ i, i < n → tableOf m dir i = tableOf s.mem dir i :=
    fun i below => others i (by omega) (by omega)
  have carries := made.carries slots copyable outside earlier
  have grown : ∀ a, CopyMemory k src dir (n + 1) (t.withMem m) a →
      CopyMemory k src dir n s a ∨ Inside p sizeofTable a := by
    rintro a (inside | ⟨i, below, isPrivate', inside⟩)
    · exact Or.inl (Or.inl inside)
    · by_cases isLast : i = n
      · rw [isLast, Kernel.mem_withMem, last] at inside
        exact Or.inr inside
      · rw [Kernel.mem_withMem, earlier i (by omega)] at inside
        exact Or.inl (Or.inr ⟨i, by omega, isPrivate', inside⟩)
  exact
    { arena := by
        refine (made.arena.write (m := m) fun a => ?_).mono fun a isLive => ?_
        · by_cases inside : Inside dir sizeofDirectory a
          · exact Or.inl (Or.inl (Or.inr (inDirectory a inside)))
          · exact Or.inr (Or.inr (Or.inr (outside a inside)))
        · rcases isLive with isSource | isCopy
          · exact Or.inl (Or.inl isSource)
          · exact (grown a isCopy).imp_left Or.inr
      directory := made.directory.trans slots.directory
      placement := slots.placement.trans made.placement
      top := by
        have grows : topOf (t.withMem m).heap ≤ topOf s.heap + 0x3000 := made.top
        rw [Nat.count_succ, if_pos isPrivate, Nat.mul_succ, ← Nat.add_assoc]
        exact grows.trans (Nat.add_le_add_right slots.top _)
      nframes := made.nframes.trans slots.nframes
      used := fun f wasUsed => made.used f (slots.used f wasUsed)
      supply := by
        have before := slots.supply
        have taken := made.supply
        rw [demand_succ, if_pos isPrivate, Kernel.frames_withMem]
        omega
      source := by
        intro a isSource
        rw [Kernel.mem_withMem, outside a (slots.fresh a isSource), made.quiet a (Or.inl isSource)]
        exact slots.source a isSource
      fresh := slots.fresh
      apart := by
        intro i a below isPrivate' inside
        by_cases isLast : i = n
        · rw [isLast, Kernel.mem_withMem, last] at inside
          exact fun inDir => made.apart a (Or.inr (inDirectory a inDir)) inside
        · rw [Kernel.mem_withMem, earlier i (by omega)] at inside
          exact slots.apart i a (by omega) isPrivate' inside
      region := by
        intro a isCopy
        rcases grown a isCopy with old | inTable
        · exact slots.region a old
        · have low := made.low
          have high := made.high
          unfold Inside at inTable
          omega
      kept := by
        intro i below passed
        have different : i ≠ n := fun same => passed (same ▸ isPrivate)
        rw [Kernel.mem_withMem, earlier i (by omega)]
        exact slots.kept i (by omega) passed
      blank := by
        intro i bound above
        rw [Kernel.mem_withMem, others i bound (by omega)]
        exact slots.blank i bound (by omega)
      made := by
        intro i below isPrivate'
        by_cases isLast : i = n
        · have positive := made.positive
          rw [isLast, Kernel.mem_withMem, last]
          omega
        · rw [Kernel.mem_withMem, earlier i (by omega)]
          exact slots.made i (by omega) isPrivate'
      copied := by
        intro i j below indexJ isPrivate' held
        by_cases isLast : i = n
        · rw [isLast] at held ⊢
          obtain ⟨f, -, copied⟩ := made.newCopy slots copyable outside indexJ held
          exact ⟨f, by rwa [Kernel.mem_withMem, last]⟩
        · obtain ⟨f, -, copied⟩ := carries.copied slots (by omega) indexJ isPrivate' held
          exact ⟨f, copied⟩
      empty := by
        intro i j below indexJ isPrivate' holdsNone
        by_cases isLast : i = n
        · rw [isLast] at holdsNone ⊢
          rw [Kernel.mem_withMem, last, made.newEntry outside indexJ]
          exact made.empty j indexJ holdsNone
        · exact carries.empty slots (by omega) indexJ isPrivate' holdsNone
      distinct := by
        intro i j i' j' below below' indexJ indexJ' isPrivate₁ isPrivate₂ held held' different
        by_cases isLast : i = n <;> by_cases isLast' : i' = n
        · subst isLast isLast'
          rw [Kernel.mem_withMem, last, entryAt, entryAt, made.newEntry outside indexJ,
            made.newEntry outside indexJ']
          exact made.distinct j j' indexJ indexJ' held held' fun same => different ⟨rfl, same⟩
        · subst isLast
          rw [Kernel.mem_withMem, last]
          exact (made.newFrame slots copyable outside earlier (by omega) indexJ' indexJ isPrivate₂
            held' held).symm
        · subst isLast'
          rw [Kernel.mem_withMem, last]
          exact made.newFrame slots copyable outside earlier (by omega) indexJ indexJ' isPrivate₁
            held held'
        · rw [carries.entry (by omega) indexJ isPrivate₁,
            carries.entry (by omega) indexJ' isPrivate₂]
          exact slots.distinct i j i' j' (by omega) (by omega) indexJ indexJ' isPrivate₁ isPrivate₂
            held held' different
      outside := by
        intro a off offFrames
        rw [Kernel.mem_withMem, outside a fun inDir => ?_, made.outside a off offFrames]
        · exact slots.outside a off fun f inMap free taken =>
            offFrames f inMap free (made.used f taken)
        · have range := slots.region a (inDirectory a inDir)
          omega }

theorem Slots.cloneSlot_copy (slots : Slots k src dir n s) (copyable : Copyable k src)
    (index : n < 1024) (isPrivate : Private k src n) (undef : Nat → BitVec 32) :
    ∃ s', s.cloneSlot src dir n undef = some s' ∧ Slots k src dir (n + 1) s' := by
  obtain ⟨srcTable, kernelTable, -⟩ := slots.tables index
  obtain ⟨p, phys, t, returned, made⟩ := slots.makeTable copyable index isPrivate undef
  have small : p < 2 ^ 32 := by
    have high := made.high
    have limit : kheapEnd = 0x02000000 := rfl
    have room := copyable.room
    omega
  refine ⟨t.withMem (writeSlot t.mem dir n p (phys ||| 0x7)), ?_, ?_⟩
  · rw [Kernel.cloneSlot, srcTable, kernelTable, if_neg isPrivate.1, if_neg isPrivate.2, returned]
    rfl
  · exact made.slots slots copyable index isPrivate
      (fun a outside => writeSlot_outside t.mem index outside)
      fun i bound => tableOf_writeSlot t.mem index small bound

end CopySlot

/-- One round. -/
theorem Slots.cloneSlot (slots : Slots k src dir n s) (copyable : Copyable k src)
    (index : n < 1024) (undef : Nat → BitVec 32) :
    ∃ s', s.cloneSlot src dir n undef = some s' ∧ Slots k src dir (n + 1) s' := by
  by_cases isPrivate : Private k src n
  · exact slots.cloneSlot_copy copyable index isPrivate undef
  · exact slots.cloneSlot_pass copyable index isPrivate undef

/-! ### The loop -/

/-- The new directory in front of the loop. -/
theorem Copyable.start (copyable : Copyable k src) :
    ∃ dir phys k₁ k₂, k.kmallocAlignedPhysical sizeofDirectory = some (dir, phys, k₁) ∧
      k₁.clearDirectory dir = some k₂ ∧
        Slots k src dir 0
          (k₂.withMem (k₂.mem.write32 (dir + 8192) (wrap32 (phys + 4096)))) := by
  have size : sizeofDirectory = 8196 := rfl
  have limit := copyable.room
  obtain ⟨dir, phys, k₁, k₂, allocated, cleared, block⟩ :=
    copyable.arena.blankBlock (Or.inr rfl) (by unfold reserve at limit; omega)
  refine ⟨dir, phys, k₁, k₂, allocated, cleared, ?_⟩
  have outside : ∀ a, ¬ Inside dir sizeofDirectory a →
      (k₂.mem.write32 (dir + 8192) (wrap32 (phys + 4096))) a = k₂.mem a := by
    intro a apart
    unfold Inside at apart
    exact Memory.write32_outside _ _ (by omega)
  have fresh : ∀ a, SourceMemory k src a → ¬ Inside dir sizeofDirectory a := by
    intro a isSource inDirectory
    have apart := block.apart a isSource
    unfold Inside at inDirectory
    omega
  have onlyDirectory : ∀ s a, CopyMemory k src dir 0 s a → Inside dir sizeofDirectory a := by
    rintro s a (inside | ⟨i, below, -⟩)
    · exact inside
    · exact absurd below (Nat.not_lt_zero i)
  have low := block.low
  have high := block.high
  exact
    { arena := by
        refine (block.arena.write fun a => ?_).mono fun a isLive => ?_
        · by_cases inside : Inside dir sizeofDirectory a
          · exact Or.inl (Or.inr inside)
          · exact Or.inr (Or.inr (Or.inr (outside a inside)))
        · exact isLive.imp_right (onlyDirectory _ a)
      directory := block.directory
      placement := block.placement
      top := block.top.trans (by rw [Nat.count_zero]; omega)
      nframes := by rw [Kernel.frames_withMem, block.frames]
      used := fun f taken => by rwa [Kernel.frames_withMem, block.frames]
      supply := by
        rw [Kernel.frames_withMem, block.frames]
        rfl
      source := fun a isSource => (outside a (fresh a isSource)).trans (block.kept a isSource)
      fresh := fresh
      apart := fun i a below => absurd below (Nat.not_lt_zero i)
      region := by
        intro a isCopy
        have inside := onlyDirectory _ a isCopy
        unfold Inside at inside
        unfold reserve
        omega
      kept := fun i below => absurd below (Nat.not_lt_zero i)
      blank := by
        intro i bound _
        rw [Kernel.mem_withMem, tableOf, Memory.read32_write32_disjoint _ _ (by omega)]
        exact Memory.read32_zero fun o inWord => block.blank _ (by omega) (by omega)
      made := fun i below => absurd below (Nat.not_lt_zero i)
      copied := fun i j below => absurd below (Nat.not_lt_zero i)
      empty := fun i j below => absurd below (Nat.not_lt_zero i)
      distinct := fun i j i' j' below => absurd below (Nat.not_lt_zero i)
      outside := by
        intro a off _
        unfold reserve at off
        rw [Kernel.mem_withMem, outside a (by unfold Inside; omega)]
        exact block.outside a (by omega) }

/-- `clone_directory` returns with every slot done. -/
theorem Copyable.clones (copyable : Copyable k src) (undef : Nat → Nat → BitVec 32) :
    ∃ dir k', k.cloneDirectory src undef = some (dir, k') ∧ Slots k src dir 1024 k' := by
  obtain ⟨dir, phys, k₁, k₂, allocated, cleared, start⟩ := copyable.start
  obtain ⟨k', ran, slots⟩ := foldlM_range
    (fun (s : Kernel) i => s.cloneSlot src dir i (undef i)) (Slots k src dir)
    (fun i s index slots => slots.cloneSlot copyable index (undef i)) start
  refine ⟨dir, k', ?_, slots⟩
  exact Option.bind_eq_some_iff.mpr ⟨_, allocated, Option.bind_eq_some_iff.mpr ⟨_, cleared,
    Option.map_eq_some_iff.mpr ⟨k', ran, rfl⟩⟩⟩

end Slots

end Balloon.Paging
