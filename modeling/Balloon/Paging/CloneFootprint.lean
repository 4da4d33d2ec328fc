import Balloon.Allocator.Exhaustion
import Balloon.Paging.AddressSpace
import Balloon.Paging.Overrun

/-!
Owns which bytes `clone_directory` changes, with the calls of `clone_table` that it makes: the
block of the directory, those of the tables and the frames it takes, as long as no `memset`
of a table clears something behind the block.
-/

namespace Balloon.Paging

open Balloon.Foundation
open Balloon.Libc
open Balloon.Allocator
open Balloon.Frames

/-! ### One round of `clone_directory` -/

/-- The kernel in front of the entry of slot `i`, behind `clone_table` where it is called. -/
def beforeEntry (s : Kernel) (src i : Nat) (undef : Nat → BitVec 32) : Option Kernel :=
  if Private s src i then
    (s.cloneTable (tableOf s.mem src i) undef).map fun result => result.2.2
  else some s

/-- The round of slot `i`: its call of `clone_table` changes no byte but those of the
directory, the tables up to its own and the frames it takes, and the rest of the round
changes the directory. -/
structure SlotWritesOwn (src dir : Nat) (undef : Nat → Nat → BitVec 32) (s : Kernel) (i : Nat) :
    Prop where
  call : Private s src i →
    TableWritesOwn (CopyMemory s src dir i s) (undef i) s (tableOf s.mem src i)
  entry : ∀ t s', beforeEntry s src i (undef i) = some t →
    s.cloneSlot src dir i (undef i) = some s' →
      ∀ a, ¬ Inside dir sizeofDirectory a → s'.mem a = t.mem a

/-- The round copies no table, or its `memset` clears blank bytes behind the block. -/
def SlotBlank (src : Nat) (s : Kernel) (i : Nat) : Prop := Private s src i → OverrunBlank s

/-- How far the memory of the copy can reach. -/
def ceiling (k : Kernel) (src : Nat) : Nat :=
  if k.heap.heapEnd = 0 then reserve k src else min (reserve k src) kheapEnd

/-- What `clone_directory` is called with: directories and page tables in memory that the
allocator has given out, and enough free frames, none of them the kernel's. -/
structure Forkable (k : Kernel) (src : Nat) : Prop where
  ordered : Ordered k.heap (SourceMemory k src)
  space : k.heap.heapEnd = 0 → reserve k src ≤ 2 ^ 32
  tables : ∀ i, i < 1024 → Private k src i → tableOf k.mem src i % 0x1000 = 0
  frames : k.frames.scanned ≤ 2 ^ 20
  free : ∀ f, f < k.frames.scanned → k.frames.used f = false →
    (f * 0x1000 + 0x1000 ≤ k.heap.placementPointer ∨ ceiling k src ≤ f * 0x1000) ∧
      ∀ a, SourceMemory k src a → ¬ Inside (f * 0x1000) 0x1000 a
  enough : demand k src 1024 ≤ k.frames.freeCount

/-- The first `n` rounds wrote their own memory only. -/
structure Rounds (k : Kernel) (src dir n : Nat) (s : Kernel) : Prop where
  ordered : Ordered s.heap fun a => SourceMemory k src a ∨ CopyMemory k src dir n s a
  mode : s.heap.heapEnd = 0 ↔ k.heap.heapEnd = 0
  directory : s.kernelDirectory = k.kernelDirectory
  placement : k.heap.placementPointer ≤ s.heap.placementPointer
  top : topOf s.heap ≤ topOf k.heap + 0x4004 + 0x3000 * Nat.count (Private k src) n
  nframes : s.frames.nframes = k.frames.nframes
  used : ∀ f, k.frames.used f = true → s.frames.used f = true
  supply : s.frames.freeCount + demand k src n = k.frames.freeCount
  source : ∀ a, SourceMemory k src a → s.mem a = k.mem a
  fresh : ∀ a, SourceMemory k src a → ¬ Inside dir sizeofDirectory a
  region : ∀ a, Inside dir sizeofDirectory a → k.heap.placementPointer ≤ a ∧ a < ceiling k src

section Rounds

variable {k s : Kernel} {src dir n : Nat} {undef : Nat → Nat → BitVec 32}

/-- A round without a copy writes the slot of the directory at most. -/
theorem cloneSlot_pass {s s' : Kernel} {u : Nat → BitVec 32} (index : n < 1024)
    (notPrivate : ¬ Private s src n) (returned : s.cloneSlot src dir n u = some s') :
    ∃ m, s' = s.withMem m ∧ (∀ a, ¬ Inside dir sizeofDirectory a → m a = s.mem a) ∧
      ∀ i, i < n → tableOf m dir i = tableOf s.mem dir i := by
  rw [Kernel.cloneSlot] at returned
  split at returned
  next => exact ⟨s.mem, (Option.some.inj returned).symm, fun _ _ => rfl, fun _ _ => rfl⟩
  next present =>
    have shared : tableOf s.mem s.kernelDirectory n = tableOf s.mem src n := by
      by_contra different
      exact notPrivate ⟨present, different⟩
    rw [if_pos shared] at returned
    refine ⟨_, (Option.some.inj returned).symm,
      fun a outside => writeSlot_outside s.mem index outside, fun i before => ?_⟩
    exact (tableOf_writeSlot s.mem index (s.mem.read32_lt _) (by omega)).trans (if_neg (by omega))

/-- The rest of a round writes the directory, whatever the round does. -/
theorem entry_writesOwn {s t s' : Kernel} {u : Nat → BitVec 32} (index : n < 1024)
    (before : beforeEntry s src n u = some t) (returned : s.cloneSlot src dir n u = some s')
    {a : Nat} (outside : ¬ Inside dir sizeofDirectory a) : s'.mem a = t.mem a := by
  rw [beforeEntry] at before
  by_cases isPrivate : Private s src n
  · rw [if_pos isPrivate] at before
    rw [Kernel.cloneSlot, if_neg isPrivate.1, if_neg isPrivate.2] at returned
    obtain ⟨result, cloned, rfl⟩ := Option.map_eq_some_iff.mp before
    rw [cloned] at returned
    obtain rfl := Option.some.inj returned
    exact writeSlot_outside result.2.2.mem index outside
  · rw [if_neg isPrivate] at before
    obtain rfl := Option.some.inj before
    obtain ⟨m, rfl, kept, -⟩ := cloneSlot_pass index isPrivate returned
    exact kept a outside

/-- The slots of both directories read as they did. -/
theorem Rounds.tables (rounds : Rounds k src dir n s) {i : Nat} (index : i < 1024) :
    tableOf s.mem src i = tableOf k.mem src i ∧
      tableOf s.mem s.kernelDirectory i = tableOf k.mem k.kernelDirectory i := by
  have size : sizeofDirectory = 8196 := rfl
  rw [rounds.directory]
  constructor
  · exact Memory.read32_congr fun o inWord => rounds.source _ (Or.inl ⟨by omega, by omega⟩)
  · exact Memory.read32_congr fun o inWord =>
      rounds.source _ (Or.inr (Or.inl ⟨by omega, by omega⟩))

theorem Rounds.private_iff (rounds : Rounds k src dir n s) {i : Nat} (index : i < 1024) :
    Private s src i ↔ Private k src i := by
  obtain ⟨srcTable, kernelTable⟩ := rounds.tables index
  rw [Private, Private, srcTable, kernelTable]

theorem Rounds.wasFree (rounds : Rounds k src dir n s) {f : Nat}
    (free : s.frames.used f = false) : k.frames.used f = false := by
  rw [Bool.eq_false_iff]
  intro wasUsed
  rw [rounds.used f wasUsed] at free
  contradiction

theorem Rounds.scanned (rounds : Rounds k src dir n s) :
    s.frames.scanned = k.frames.scanned := by
  rw [FrameMap.scanned, FrameMap.scanned, rounds.nframes]

/-- Room for one more table. -/
theorem Rounds.room (rounds : Rounds k src dir n s) (index : n < 1024)
    (isPrivate : Private k src n) : topOf s.heap + 0x5FFC ≤ reserve k src := by
  have top := rounds.top
  have more := Nat.count_strict_mono isPrivate index
  unfold reserve
  omega

/-- Memory below the ceiling, and above what was handed out at the start, is not in a free
frame. -/
theorem Forkable.off_frame (forkable : Forkable k src) {f a : Nat} (inMap : f < k.frames.scanned)
    (free : k.frames.used f = false) (above : k.heap.placementPointer ≤ a)
    (below : a < ceiling k src) : ¬ Inside (f * 0x1000) 0x1000 a := by
  intro inside
  have off := (forkable.free f inMap free).1
  unfold Inside at inside
  omega

theorem lt_ceiling {a : Nat} (inReserve : a < reserve k src)
    (mapped : k.heap.heapEnd ≠ 0 → a < kheapEnd) : a < ceiling k src := by
  unfold ceiling
  split
  next => exact inReserve
  next booted => exact lt_min inReserve (mapped booted)

/-- Where the copy of an address space is complete, the call is also one of these. -/
theorem Copyable.forkable (copyable : Copyable k src)
    (tables : ∀ i, i < 1024 → Private k src i → tableOf k.mem src i % 0x1000 = 0) :
    Forkable k src where
  ordered := copyable.arena.ordered
  space := fun _ => copyable.room.trans (by decide)
  tables := tables
  frames := copyable.frames
  free := by
    intro f inMap free
    obtain ⟨off, beside⟩ := copyable.free f inMap free
    refine ⟨off.imp_right fun above => le_trans ?_ above, fun a isSource inside => ?_⟩
    · unfold ceiling
      split
      next => exact Nat.le_refl _
      next => exact Nat.min_le_left _ _
    · have outside := beside a isSource
      unfold Inside at inside
      omega
  enough := copyable.enough

/-- A copying round calls `clone_table` as it should be called. -/
theorem Rounds.tableCall (rounds : Rounds k src dir n s) (forkable : Forkable k src)
    (index : n < 1024) (isPrivate : Private k src n) : TableCall s (tableOf k.mem src n) := by
  have room := rounds.room index isPrivate
  have placement := rounds.placement
  have size : sizeofDirectory = 8196 := rfl
  have isTable : IsTable s (tableOf k.mem src n) := by
    refine rounds.ordered.isTable (forkable.tables n index isPrivate)
      (fun a inside => Or.inl (isPrivate.sourceMemory index inside)) fun fresh => ?_
    have space := forkable.space (rounds.mode.mp fresh)
    have low : s.heap.placementPointer ≤ topOf s.heap := Nat.le_max_left _ _
    omega
  exact
    { table := isTable
      frames := rounds.scanned ▸ forkable.frames
      source := by
        intro f inMap free
        refine (beside_of_apart (by decide) fun a inside => ?_).symm
        have off := (forkable.free f (rounds.scanned ▸ inMap) (rounds.wasFree free)).2 a
          (isPrivate.sourceMemory index inside)
        unfold Inside at off
        omega
      off := by
        intro mapped f a inMap free inside
        obtain ⟨table, phys, k₁, allocated⟩ := isTable.hasBlock mapped
        have new := isTable.newTable allocated
        have low := new.low
        have high : table + 0x1000 ≤ topOf s.heap + 0x3000 := new.high
        have start := (isTable.nextTable allocated).start
        unfold Inside at inside
        refine forkable.off_frame (rounds.scanned ▸ inMap) (rounds.wasFree free) (by omega) ?_
        refine lt_ceiling (by omega) fun booted => ?_
        have clears := mapped (rounds.mode.not.mpr booted)
        omega
      enough := by
        have supply := rounds.supply
        have enough := forkable.enough
        have grows : demand k src (n + 1) ≤ demand k src 1024 :=
          Finset.sum_le_sum_of_subset_of_nonneg (Finset.range_mono index) fun _ _ _ => Nat.zero_le _
        rw [demand_succ, if_pos isPrivate] at grows
        rw [count_holdsFrame fun a above below =>
          rounds.source a (isPrivate.sourceMemory index ⟨above, below⟩)]
        omega }

/-- The memory of the copy is the same for the kernel in front of the round. -/
theorem Rounds.copyMemory_iff (rounds : Rounds k src dir n s) (index : n < 1024) (a : Nat) :
    CopyMemory s src dir n s a ↔ CopyMemory k src dir n s a := by
  refine or_congr Iff.rfl (exists_congr fun i => and_congr_right fun below => ?_)
  rw [rounds.private_iff (by omega)]

/-- A round without a copy. -/
theorem Rounds.pass (rounds : Rounds k src dir n s) (notPrivate : ¬ Private k src n)
    {m : Memory} (outside : ∀ a, ¬ Inside dir sizeofDirectory a → m a = s.mem a)
    (tables : ∀ i, i < n → tableOf m dir i = tableOf s.mem dir i) :
    Rounds k src dir (n + 1) (s.withMem m) where
  ordered := by
    refine (rounds.ordered.write (m := m) fun a => ?_).mono fun a isLive => ?_
    · by_cases inside : Inside dir sizeofDirectory a
      · exact Or.inl (Or.inr (Or.inl inside))
      · exact Or.inr (Or.inr (Or.inr (outside a inside)))
    · refine isLive.imp_right (Or.imp_right ?_)
      rintro ⟨i, below, isPrivate, inside⟩
      have different : i ≠ n := fun same => notPrivate (same ▸ isPrivate)
      rw [Kernel.mem_withMem, tables i (by omega)] at inside
      exact ⟨i, by omega, isPrivate, inside⟩
  mode := rounds.mode
  directory := rounds.directory
  placement := rounds.placement
  top := by
    rw [Nat.count_succ, if_neg notPrivate]
    exact rounds.top
  nframes := rounds.nframes
  used := rounds.used
  supply := by
    rw [demand_succ, if_neg notPrivate]
    exact rounds.supply
  source := fun a isSource => (outside a (rounds.fresh a isSource)).trans (rounds.source a isSource)
  fresh := rounds.fresh
  region := rounds.region

/-- A call for slot `n` that changed nothing but the new block and the frames it took. -/
structure OwnCall (k : Kernel) (src dir n : Nat) (s : Kernel) (table : Nat) (k₁ t : Kernel) :
    Prop where
  block : NewBlock s (fun a => SourceMemory k src a ∨ CopyMemory k src dir n s a) sizeofTable
    table k₁
  loop : ∃ m, Cloned (k₁.withMem m) (tableOf k.mem src n) table 1024 t
  same : ∀ a, ¬ InBlock k₁.heap sizeofTable table a → ¬ InNewFrame s t a → t.mem a = k₁.mem a

section OwnCall

variable {table : Nat} {k₁ t : Kernel}

theorem Rounds.ownCall (rounds : Rounds k src dir n s) (forkable : Forkable k src)
    (index : n < 1024) (isPrivate : Private k src n) {u : Nat → BitVec 32} {phys : Nat}
    (writesOwn : TableWritesOwn (CopyMemory s src dir n s) u s (tableOf k.mem src n))
    (returned : s.cloneTable (tableOf k.mem src n) u = some (table, phys, t)) :
    ∃ k₁, OwnCall k src dir n s table k₁ t := by
  have room := rounds.room index isPrivate
  have tableSize : sizeofTable = 0x1000 := rfl
  have call := rounds.tableCall forkable index isPrivate
  obtain ⟨k₁, allocated, done⟩ := call.done returned
  have space : BumpSpace s.heap sizeofTable := by
    intro fresh
    have space := forkable.space (rounds.mode.mp fresh)
    have low : s.heap.placementPointer ≤ topOf s.heap := Nat.le_max_left _ _
    have block : nextBlock s.heap = s.heap.placementPointer / 0x1000 * 0x1000 + 0x1000 := rfl
    omega
  have ordered : Ordered s.heap (CopyMemory s src dir n s) :=
    rounds.ordered.mono fun a isCopy => Or.inr ((rounds.copyMemory_iff index a).mp isCopy)
  -- Nothing behind the block was changed, so nothing of the copy was either.
  have strict : TableWritesOwn (fun _ => False) u s (tableOf k.mem src n) :=
    (call.writesOwn_iff (rounds.ordered.mono fun _ => False.elim) u).mpr
      ((call.writesOwn_iff ordered u).mp writesOwn)
  obtain ⟨m, -, cloned⟩ := done.loop
  exact ⟨k₁, rounds.ordered.newBlock (Or.inl rfl) space allocated, ⟨m, cloned⟩,
    fun a => strict table phys k₁ t allocated returned a not_false⟩

/-- Such a call keeps the source and the copy. -/
theorem OwnCall.quiet (own : OwnCall k src dir n s table k₁ t) (rounds : Rounds k src dir n s)
    (forkable : Forkable k src) {a : Nat}
    (isLive : SourceMemory k src a ∨ Inside dir sizeofDirectory a) : t.mem a = s.mem a := by
  have live : SourceMemory k src a ∨ CopyMemory k src dir n s a := isLive.imp_right Or.inl
  rw [own.same a (own.block.apart a live), own.block.kept a live]
  rintro ⟨f, inMap, free, -, inFrame⟩
  rcases isLive with isSource | inDirectory
  · exact (forkable.free f (rounds.scanned ▸ inMap) (rounds.wasFree free)).2 a isSource inFrame
  · obtain ⟨low, high⟩ := rounds.region a inDirectory
    exact forkable.off_frame (rounds.scanned ▸ inMap) (rounds.wasFree free) low high inFrame

theorem OwnCall.tables (own : OwnCall k src dir n s table k₁ t) (rounds : Rounds k src dir n s)
    (forkable : Forkable k src) {i : Nat} (bound : i < 1024) :
    tableOf t.mem dir i = tableOf s.mem dir i := by
  have size : sizeofDirectory = 8196 := rfl
  exact Memory.read32_congr fun o inWord =>
    own.quiet rounds forkable (Or.inr ⟨by omega, by omega⟩)

/-- A round whose call wrote its own memory only. -/
theorem OwnCall.rounds (own : OwnCall k src dir n s table k₁ t) (rounds : Rounds k src dir n s)
    (forkable : Forkable k src) (index : n < 1024) (isPrivate : Private k src n) {m : Memory}
    (outside : ∀ a, ¬ Inside dir sizeofDirectory a → m a = t.mem a)
    (tables : ∀ i, i < 1024 → tableOf m dir i = if i = n then table else tableOf t.mem dir i) :
    Rounds k src dir (n + 1) (t.withMem m) := by
  have room := rounds.room index isPrivate
  have tableSize : sizeofTable = 0x1000 := rfl
  obtain ⟨cleared, cloned⟩ := own.loop
  have heap : (t.withMem m).heap = { k₁.heap with mem := m } := by
    change { t.heap with mem := m } = _
    rw [cloned.heap]
    rfl
  have top := own.block.top
  have quiet : ∀ a, SourceMemory k src a → t.mem a = s.mem a :=
    fun a isSource => own.quiet rounds forkable (Or.inl isSource)
  exact
    { ordered := by
        rw [heap]
        refine (own.block.ordered.write (m := m) fun a => ?_).mono fun a isLive => ?_
        · by_cases inDirectory : Inside dir sizeofDirectory a
          · exact Or.inl (Or.inl (Or.inr (Or.inl inDirectory)))
          by_cases inBlock : InBlock k₁.heap sizeofTable table a
          · exact Or.inl (Or.inr inBlock)
          by_cases inFrame : InNewFrame s t a
          · obtain ⟨f, inMap, free, -, inside⟩ := inFrame
            have off := forkable.off_frame (a := a) (rounds.scanned ▸ inMap) (rounds.wasFree free)
            have low := rounds.placement.trans own.block.placement
            by_cases below : a < k₁.heap.placementPointer
            · exact Or.inr (Or.inl below)
            · refine Or.inr (Or.inr (Or.inl ?_))
              by_contra reached
              refine off (by omega) (lt_ceiling (by omega) fun booted => ?_) inside
              have limit := own.block.ordered.top_le
                (own.block.mode.not.mpr (rounds.mode.not.mpr booted))
              omega
          · exact Or.inr (Or.inr (Or.inr
              ((outside a inDirectory).trans (own.same a inBlock inFrame))))
        · rcases isLive with isSource | inDirectory | ⟨i, below, isPrivate', inside⟩
          · exact Or.inl (Or.inl isSource)
          · exact Or.inl (Or.inr (Or.inl inDirectory))
          · rw [Kernel.mem_withMem, tables i (by omega)] at inside
            split at inside
            next last => exact Or.inr (own.block.inside a inside)
            next earlier =>
              rw [own.tables rounds forkable (by omega)] at inside
              exact Or.inl (Or.inr (Or.inr ⟨i, by omega, isPrivate', inside⟩))
      mode := by
        rw [heap]
        exact own.block.mode.trans rounds.mode
      directory := (cloned.directory.trans own.block.directory).trans rounds.directory
      placement := by
        rw [heap]
        exact rounds.placement.trans own.block.placement
      top := by
        have before := rounds.top
        have same : topOf (t.withMem m).heap = topOf k₁.heap := by rw [heap, topOf, topOf]
        rw [same, Nat.count_succ, if_pos isPrivate]
        omega
      nframes := by
        rw [Kernel.frames_withMem, cloned.nframes, Kernel.frames_withMem, own.block.frames,
          rounds.nframes]
      used := by
        intro f taken
        refine cloned.used f ?_
        rw [Kernel.frames_withMem, own.block.frames]
        exact rounds.used f taken
      supply := by
        have before := rounds.supply
        have taken := cloned.supply
        have asked : Nat.count (HoldsFrame (k₁.withMem cleared).mem (tableOf k.mem src n)) 1024 =
            Nat.count (HoldsFrame k.mem (tableOf k.mem src n)) 1024 := by
          refine count_holdsFrame fun a above below => ?_
          have isSource := isPrivate.sourceMemory index ⟨above, below⟩
          rw [← cloned.source a above below, quiet a isSource, rounds.source a isSource]
        rw [asked, Kernel.frames_withMem, own.block.frames] at taken
        rw [demand_succ, if_pos isPrivate, Kernel.frames_withMem]
        omega
      source := by
        intro a isSource
        rw [Kernel.mem_withMem, outside a (rounds.fresh a isSource), quiet a isSource,
          rounds.source a isSource]
      fresh := rounds.fresh
      region := rounds.region }

end OwnCall

/-- Rounds that write their own memory follow each other. -/
theorem Rounds.next (rounds : Rounds k src dir n s) (forkable : Forkable k src) (index : n < 1024)
    (writesOwn : SlotWritesOwn src dir undef s n) {s' : Kernel}
    (returned : s.cloneSlot src dir n (undef n) = some s') : Rounds k src dir (n + 1) s' := by
  by_cases isPrivate : Private k src n
  · have isNow := (rounds.private_iff index).mpr isPrivate
    have srcTable := (rounds.tables index).1
    have call := writesOwn.call isNow
    rw [srcTable] at call
    rw [Kernel.cloneSlot, if_neg isNow.1, if_neg isNow.2, srcTable] at returned
    obtain ⟨⟨table, phys, t⟩, cloned, rfl⟩ := Option.map_eq_some_iff.mp returned
    obtain ⟨k₁, own⟩ := rounds.ownCall forkable index isPrivate call cloned
    have small : table < 2 ^ 32 := (Nat.le_add_right _ _).trans_lt own.block.fits
    exact own.rounds rounds forkable index isPrivate
      (fun a outside => writeSlot_outside t.mem index outside)
      fun i bound => tableOf_writeSlot t.mem index small bound
  · obtain ⟨m, rfl, outside, tables⟩ :=
      cloneSlot_pass index ((rounds.private_iff index).not.mpr isPrivate) returned
    exact rounds.pass isPrivate outside tables

/-- A round writes its own memory only when its `memset` clears nothing behind the block. -/
theorem Rounds.slotWritesOwn_iff (rounds : Rounds k src dir n s) (forkable : Forkable k src)
    (index : n < 1024) : SlotWritesOwn src dir undef s n ↔ SlotBlank src s n := by
  have own : SlotWritesOwn src dir undef s n ↔ (Private s src n →
      TableWritesOwn (CopyMemory s src dir n s) (undef n) s (tableOf s.mem src n)) :=
    ⟨SlotWritesOwn.call, fun call =>
      ⟨call, fun _ _ before returned _ => entry_writesOwn index before returned⟩⟩
  rw [own]
  refine forall_congr' fun isNow => ?_
  have isPrivate := (rounds.private_iff index).mp isNow
  rw [(rounds.tables index).1]
  refine (rounds.tableCall forkable index isPrivate).writesOwn_iff
    (rounds.ordered.mono fun a isCopy => Or.inr ?_) (undef n)
  exact (rounds.copyMemory_iff index a).mp isCopy

/-! ### `clone_directory` -/

/-- The kernel in front of the loop of `clone_directory`. -/
def loopStart (k₂ : Kernel) (dir phys : Nat) : Kernel :=
  k₂.withMem (k₂.mem.write32 (dir + 8192) (wrap32 (phys + 4096)))

/-- `clone_directory` and the calls it makes change no byte that is not theirs: up to the
loop the block of the new directory, then in each round what the round owns. -/
def CloneWritesOwn (undef : Nat → Nat → BitVec 32) (k : Kernel) (src : Nat) : Prop :=
  ∀ dir phys k₁ k₂, k.kmallocAlignedPhysical sizeofDirectory = some (dir, phys, k₁) →
    k₁.clearDirectory dir = some k₂ →
      (∀ a, ¬ InBlock k₁.heap sizeofDirectory dir a → (loopStart k₂ dir phys).mem a = k₁.mem a) ∧
      EveryStep (fun s i => s.cloneSlot src dir i (undef i)) (SlotWritesOwn src dir undef)
        (loopStart k₂ dir phys) (List.range 1024)

/-- In front of every round that copies a table, the bytes that its `memset` clears behind
the block are blank. -/
def EveryOverrunBlank (undef : Nat → Nat → BitVec 32) (k : Kernel) (src : Nat) : Prop :=
  ∀ dir phys k₁ k₂, k.kmallocAlignedPhysical sizeofDirectory = some (dir, phys, k₁) →
    k₁.clearDirectory dir = some k₂ →
      EveryStep (fun s i => s.cloneSlot src dir i (undef i)) (SlotBlank src)
        (loopStart k₂ dir phys) (List.range 1024)

variable {k₁ k₂ : Kernel} {phys : Nat}

/-- The first round writes its own memory as every round does. -/
theorem CloneWritesOwn.first (writesOwn : CloneWritesOwn undef k src)
    (allocated : k.kmallocAlignedPhysical sizeofDirectory = some (dir, phys, k₁))
    (cleared : k₁.clearDirectory dir = some k₂) :
    SlotWritesOwn src dir undef (loopStart k₂ dir phys) 0 := by
  -- The pair is not split, as Lean would unfold the loop round by round.
  have head : ∀ (P : Prop) slots, slots.head? = some 0 →
      P ∧ EveryStep (fun s i => s.cloneSlot src dir i (undef i)) (SlotWritesOwn src dir undef)
        (loopStart k₂ dir phys) slots → SlotWritesOwn src dir undef (loopStart k₂ dir phys) 0 :=
    fun _ slots first both => both.2.head first
  refine head _ (List.range 1024) ?_ (writesOwn dir phys k₁ k₂ allocated cleared)
  rw [List.head?_range]
  rfl

/-- Up to the loop only the directory is written. -/
theorem loopStart_outside (fits : dir + sizeofDirectory ≤ 2 ^ 32)
    (cleared : k₁.clearDirectory dir = some k₂) {a : Nat}
    (outside : ¬ Inside dir sizeofDirectory a) : (loopStart k₂ dir phys).mem a = k₁.mem a := by
  have size : sizeofDirectory = 8196 := rfl
  unfold Inside at outside
  obtain rfl := clearDirectory_eq_some cleared
  rw [loopStart, Kernel.mem_withMem, Memory.write32_outside _ _ (by omega), Kernel.mem_withMem,
    memset_eq_fill _ _ fits]
  exact Memory.fill_outside _ _ (by omega)

theorem Forkable.directoryBlock (forkable : Forkable k src)
    (allocated : k.kmallocAlignedPhysical sizeofDirectory = some (dir, phys, k₁)) :
    NewBlock k (SourceMemory k src) sizeofDirectory dir k₁ := by
  refine forkable.ordered.newBlock (Or.inr rfl) (fun fresh => ?_) allocated
  have space := forkable.space fresh
  have size : sizeofDirectory = 8196 := rfl
  have low : k.heap.placementPointer ≤ topOf k.heap := Nat.le_max_left _ _
  have block : nextBlock k.heap = k.heap.placementPointer / 0x1000 * 0x1000 + 0x1000 := rfl
  unfold reserve at space
  omega

/-- The loop starts with the source as it was. -/
theorem Forkable.start (forkable : Forkable k src)
    (allocated : k.kmallocAlignedPhysical sizeofDirectory = some (dir, phys, k₁))
    (cleared : k₁.clearDirectory dir = some k₂) :
    Rounds k src dir 0 (loopStart k₂ dir phys) := by
  have block := forkable.directoryBlock allocated
  have size : sizeofDirectory = 8196 := rfl
  have outside : ∀ a, ¬ Inside dir sizeofDirectory a →
      (loopStart k₂ dir phys).mem a = k₁.mem a :=
    fun a off => loopStart_outside block.fits.le cleared off
  have low := block.low
  have high := block.high
  have reach := block.top
  have fresh : ∀ a, SourceMemory k src a → ¬ Inside dir sizeofDirectory a :=
    fun a isSource inside => block.apart a isSource (block.inside a inside)
  obtain ⟨m, kernel⟩ : ∃ m, loopStart k₂ dir phys = k₁.withMem m := by
    obtain rfl := clearDirectory_eq_some cleared
    exact ⟨_, Kernel.withMem_withMem _ _ _⟩
  rw [kernel] at outside ⊢
  exact
    { ordered := by
        refine (block.ordered.write (m := m) fun a => ?_).mono fun a isLive => ?_
        · by_cases inside : Inside dir sizeofDirectory a
          · exact Or.inl (Or.inr (block.inside a inside))
          · exact Or.inr (Or.inr (Or.inr (outside a inside)))
        · rcases isLive with isSource | inside | ⟨i, below, -⟩
          · exact Or.inl isSource
          · exact Or.inr (block.inside a inside)
          · exact absurd below (Nat.not_lt_zero i)
      mode := block.mode
      directory := block.directory
      placement := block.placement
      top := by
        have top : topOf (k₁.withMem m).heap ≤ topOf k.heap + 0x2000 + sizeofDirectory := block.top
        omega
      nframes := by rw [Kernel.frames_withMem, block.frames]
      used := fun f taken => by rwa [Kernel.frames_withMem, block.frames]
      supply := by
        rw [Kernel.frames_withMem, block.frames]
        rfl
      source := fun a isSource => (outside a (fresh a isSource)).trans (block.kept a isSource)
      fresh := fresh
      region := by
        intro a inside
        refine ⟨low.trans inside.1, lt_ceiling ?_ fun booted => ?_⟩
        · have below := inside.2
          unfold reserve
          omega
        · have limit := block.ordered.top_le (block.mode.not.mpr booted)
          exact (inside.2.trans_le high).trans_le limit }

/-- `clone_directory` writes its own memory exactly when no `memset` of a new table clears a
byte behind the block of the table that was not zero. -/
theorem cloneWritesOwn_iff_everyOverrunBlank (forkable : Forkable k src)
    (undef : Nat → Nat → BitVec 32) :
    CloneWritesOwn undef k src ↔ EveryOverrunBlank undef k src := by
  refine forall₄_congr fun dir phys k₁ k₂ => forall₂_congr fun allocated cleared => ?_
  have block := forkable.directoryBlock allocated
  have first : ∀ a, ¬ InBlock k₁.heap sizeofDirectory dir a →
      (loopStart k₂ dir phys).mem a = k₁.mem a := fun a off =>
    loopStart_outside block.fits.le cleared fun inside => off (block.inside a inside)
  rw [and_iff_right first, List.range_eq_range']
  refine everyStep_range_iff (Rounds k src dir) ?_ ?_ (forkable.start allocated cleared)
  · intro i s index rounds
    exact rounds.slotWritesOwn_iff forkable (by omega)
  · intro i s s' index rounds writesOwn returned
    exact rounds.next forkable (by omega) writesOwn returned

end Rounds

/-- `cloneWritesOwn_iff_everyOverrunBlank` for a directory with one page of its own. -/
theorem cloneWritesOwn_iff_everyOverrunBlank_onePage :
    CloneWritesOwn (fun _ _ => 0) (spaceKernel 0x40000 0xD80007) 0x44000 ↔
      EveryOverrunBlank (fun _ _ => 0) (spaceKernel 0x40000 0xD80007) 0x44000 := by
  refine cloneWritesOwn_iff_everyOverrunBlank
    ((copyable_spaceKernel (by decide) (Or.inr (by decide))).forkable ?_) _
  intro i index isPrivate
  rw [tableOf_spaceKernel index, if_pos (isPrivate.first index)]

/-! ### A block in use behind a free one -/

/-- A free block of two pages at `x`, the only free one, in front of one in use. -/
structure FreeInFront (h : Heap) (base x : Nat) (L : Layout) : Prop where
  wf : WellFormed h base L
  front : L.bins x = some (.big 2)
  behind : L.bins (x + 0x2000) = some (.big 2)
  free : ∀ y, y ∈ L.level 0 ↔ y = x

section FreeInFront

variable {k k₁ k₂ : Kernel} {h : Heap} {src dir phys base x : Nat} {L : Layout}

/-- The new table is put into the free block, and its `memset` clears the header behind. -/
theorem FreeInFront.not_overrunBlank (block : FreeInFront k.heap base x L)
    (mapped : x + 0x4000 ≤ kheapEnd) : ¬ OverrunBlank k := by
  intro blank
  have size : sizeofDirectory = 8196 := rfl
  have booted := block.wf.heapEnd_pos.ne'
  have below := block.wf.range block.front
  have positive := (block.wf.skipPages ((block.free x).mpr rfl)).2.1
  obtain ⟨-, sizeOf, -, -⟩ := block.wf.bin x _ block.front
  obtain ⟨y, found, head⟩ := block.wf.findbest (sizeofTable + (0x1000 - 48))
  have inFilter : x ∈ (L.level 0).filter fun y =>
      !decide (k.heap.sizeOf y < sizeofTable + (0x1000 - 48)) := by
    have large : ¬ k.heap.sizeOf x < sizeofTable + (0x1000 - 48) := by
      rw [show k.heap.sizeOf x = 8144 by omega]
      decide
    simp [block.free, large]
  have isFront : y = x := by
    obtain ⟨z, rest, split⟩ := List.exists_cons_of_ne_nil (List.ne_nil_of_mem inFilter)
    rw [split, List.head?_cons, nodeAt_eq_some_iff] at head
    have member := (List.mem_filter.mp (split ▸ List.mem_cons_self : z ∈ _)).1
    rw [head.1]
    exact (block.free z).mp member
  have bin : tableBin k.heap = x := by
    rw [tableBin, found, Option.getD_some, isFront]
    exact if_neg (by omega)
  have stop : tableEnd k.heap = x + 0x2000 := by
    rw [tableEnd, if_neg booted, bin, if_neg (by omega)]
    omega
  have start : tableStart k.heap = x + 0x1000 := by rw [tableStart, if_neg booted, bin]
  rw [OverrunBlank, start, stop] at blank
  have zero : k.heap.magicOf (x + 0x2000) = 0 :=
    Memory.read32_zero fun o inWord => blank (fun _ => by omega) _ (by omega) (by omega)
  have magic : k.heap.magicOf (x + 0x2000) = binMagic := (block.wf.bin _ _ block.behind).1
  rw [zero] at magic
  exact absurd magic (by decide)

/-- The new directory does not fit into the free block, so it leaves it to the tables. -/
theorem FreeInFront.loopStart (block : FreeInFront k.heap base x L)
    (room : topOf k.heap + 0x5000 ≤ kheapEnd) :
    ∃ dir phys k₁ k₂ L', k.kmallocAlignedPhysical sizeofDirectory = some (dir, phys, k₁) ∧
      k₁.clearDirectory dir = some k₂ ∧ FreeInFront (loopStart k₂ dir phys).heap base x L' := by
  have size : sizeofDirectory = 8196 := rfl
  have limit : kheapEnd = 0x02000000 := rfl
  obtain ⟨y, n, h', L', served, extends', slot, page, large, -, place⟩ :=
    kmallocAligned_slots (Or.inr rfl) block.wf room
  have range := extends'.wf.slot_range slot
  have endLe := extends'.wf.endLe
  have levels : L'.level = L.level := by
    rcases place with ⟨free, isBin, -⟩ | ⟨-, rfl, -⟩
    · rw [(block.free y).mp free, block.front] at isBin
      obtain rfl : 2 = n := by simpa using isBin
      omega
    · rfl
  obtain ⟨m, cleared, outside, -⟩ := clear_spec { k with heap := h' } (p := y + 0x1000) (by omega)
  have filtered : (k.heap.kmallocAligned sizeofDirectory).filter
      (fun result => result.2.heapEnd ≤ kheapEnd) = some (y + 0x1000, h') :=
    Option.filter_eq_some_iff.mpr ⟨served, decide_eq_true (show h'.heapEnd ≤ kheapEnd by omega)⟩
  refine ⟨_, _, _, _, L', Option.map_eq_some_iff.mpr ⟨_, filtered, rfl⟩, cleared, ?_⟩
  exact
    { wf := extends'.wf.writeSlots fun a _ _ elsewhere => by
        have beside := elsewhere _ _ slot
        exact (Memory.write32_outside _ _ (by omega)).trans (outside a (by omega))
      front := extends'.bins _ _ block.front
      behind := extends'.bins _ _ block.behind
      free := by
        rw [levels]
        exact block.free }

theorem FreeInFront.not_cloneWritesOwn (block : FreeInFront k.heap base x L)
    (forkable : Forkable k src) (first : Private k src 0)
    (room : topOf k.heap + 0x5000 ≤ kheapEnd) (undef : Nat → Nat → BitVec 32) :
    ¬ CloneWritesOwn undef k src := by
  intro writesOwn
  obtain ⟨dir, phys, k₁, k₂, L', allocated, cleared, block'⟩ := block.loopStart room
  have start := forkable.start allocated cleared
  have blank := (start.slotWritesOwn_iff forkable (by decide)).mp
    (writesOwn.first allocated cleared)
  have below := block.wf.range block.front
  have top : k.heap.heapEnd ≤ topOf k.heap := Nat.le_max_right _ _
  exact block'.not_overrunBlank (by omega) (blank ((start.private_iff (by decide)).mpr first))

end FreeInFront

/-- Two blocks of two pages are taken, and the first is released. -/
def releaseFirst (h : Heap) : Option Heap :=
  (h.kmalloc 8000).bind fun first =>
    (first.2.kmalloc 8000).bind fun second => second.2.kfree (fun _ => 0x7fffffff) first.1

theorem kmalloc_twoPages {h : Heap} {base : Nat} {L : Layout} (wf : WellFormed h base L)
    (noneFree : L.level 0 = []) (room : h.heapEnd + 0x2000 ≤ kheapEnd) :
    ∃ h', h.kmalloc 8000 = some (h.heapEnd + 48, h') ∧
      Extends h base L h' (L.addBig h.heapEnd 2) ∧ h'.heapEnd = h.heapEnd + 0x2000 := by
  have pages : bigPages 8000 = 2 := by decide
  have fits : h.heapEnd + 0x1000 * bigPages 8000 ≤ kheapEnd := by rwa [pages]
  obtain ⟨x, n, h', L', served, extends', -, -, -, -, place⟩ := wf.klmallocBig (Or.inr fits)
  rcases place with ⟨free, -⟩ | ⟨rfl, rfl, rfl, heapEnd⟩
  · rw [noneFree] at free
    exact absurd free List.not_mem_nil
  · rw [pages] at extends' heapEnd
    refine ⟨h', ?_, extends', heapEnd⟩
    rw [Heap.kmalloc, Heap.kmallocRaw, if_pos wf.heapEnd_pos.ne', if_neg Bool.false_ne_true,
      Heap.klmalloc, if_neg (by decide), if_neg (by decide), served]

theorem releaseFirst_spec {h : Heap} {base : Nat} {L : Layout} (wf : WellFormed h base L)
    (noneFree : L.level 0 = []) (room : h.heapEnd + 0x4000 ≤ kheapEnd) :
    ∃ h' L', releaseFirst h = some h' ∧ FreeInFront h' base h.heapEnd L' ∧
      h'.heapEnd = h.heapEnd + 0x4000 ∧ h'.placementPointer = h.placementPointer ∧
      ∀ a, a < base → h'.mem a = h.mem a := by
  obtain ⟨h₁, first, extends₁, end₁⟩ := kmalloc_twoPages wf noneFree (by omega)
  obtain ⟨h₂, second, extends₂, end₂⟩ := kmalloc_twoPages extends₁.wf noneFree (by omega)
  have added : (L.addBig h.heapEnd 2).bins h.heapEnd = some (.big 2) := Function.update_self _ _ _
  have front := extends₂.bins _ _ added
  have behind : ((L.addBig h.heapEnd 2).addBig h₁.heapEnd 2).bins (h.heapEnd + 0x2000) =
      some (.big 2) := end₁ ▸ Function.update_self _ _ _
  have taken : h.heapEnd ∉ ((L.addBig h.heapEnd 2).addBig h₁.heapEnd 2).level 0 := by
    change _ ∉ L.level 0
    rw [noneFree]
    exact List.not_mem_nil
  obtain ⟨h₃, L₃, released, wf₃, bins, -, level, end₃, placement, bytes⟩ :=
    extends₂.wf.returnBlock front taken (Or.inl rfl) fun _ => 0x7fffffff
  have samePlacement := extends₂.placement.trans extends₁.placement
  have above := wf.placementLt
  have baseLe := wf.baseLe
  refine ⟨h₃, L₃, ?_, ⟨wf₃, bins ▸ front, bins ▸ behind, fun y => ?_⟩, by omega,
    placement.trans samePlacement, fun a below => ?_⟩
  · rw [releaseFirst, first, Option.bind_some, second, Option.bind_some, Heap.kfree,
      if_pos (show h₂.placementPointer < h.heapEnd + 48 by omega), released]
  · rw [level]
    change y = h.heapEnd ∨ y ∈ L.level 0 ↔ _
    rw [noneFree]
    simp
  · refine (bytes a ⟨?_, Or.inl (by omega)⟩).trans
      ((extends₂.bytes a (Or.inl below)).trans (extends₁.bytes a (Or.inl below)))
    rintro y ⟨m, isBig⟩
    have range := (extends₂.wf.placed.range y _ isBig).1
    omega

/-- The heap after `init_heap` at `0x200000`, with one table in the directory at `0x44000`. -/
def gapHeap : Heap :=
  (Client.started (Memory.write32 (fun _ => 0) 0x44000 0x50000) 0x1FF000 []).heap

/-- The kernel around a heap, whose frames from `0x2000` on are free. -/
def gapKernel (h : Heap) : Kernel where
  heap := h
  frames := FrameMap.lowUsed 0x100 0x2800
  kernelDirectory := 0x40000
  currentDirectory := 0x44000

section GapKernel

variable {h : Heap} {base : Nat} {L : Layout}

/-- The words below the heap: one table in the directory at `0x44000`. -/
def OneTable (h : Heap) : Prop :=
  ∀ a, a % 4 = 0 → a + 4 ≤ 0x1FF000 → h.mem.read32 a = if a = 0x44000 then 0x50000 else 0

theorem OneTable.tableOf (words : OneTable h) {i : Nat} (index : i < 1024) :
    tableOf (gapKernel h).mem 0x44000 i = if i = 0 then 0x50000 else 0 :=
  (words _ (by omega) (by omega)).trans (if_congr (by omega) rfl rfl)

theorem OneTable.first (words : OneTable h) {i : Nat} (index : i < 1024)
    (isPrivate : Private (gapKernel h) 0x44000 i) : i = 0 := by
  by_contra later
  exact isPrivate.1 ((words.tableOf index).trans (if_neg later))

theorem OneTable.private (words : OneTable h) : Private (gapKernel h) 0x44000 0 := by
  have ofKernel : Paging.tableOf (gapKernel h).mem (gapKernel h).kernelDirectory 0 = 0 :=
    words 0x40000 (by decide) (by decide)
  rw [Private, ofKernel, words.tableOf (by decide)]
  decide

theorem OneTable.sourceMemory (words : OneTable h) {a : Nat}
    (isSource : SourceMemory (gapKernel h) 0x44000 a) : a < 0x100000 := by
  refine sourceMemory_lt (by decide) (show 0x40000 + sizeofDirectory ≤ _ by decide) ?_ isSource
  intro i index hasTable
  rw [words.tableOf index] at hasTable ⊢
  split
  next => decide
  next later => exact absurd (if_neg later) hasTable

theorem OneTable.forkable (words : OneTable h) (wf : WellFormed h base L)
    (above : 0x100000 ≤ base) : Forkable (gapKernel h) 0x44000 := by
  have scanned : (gapKernel h).frames.scanned = 32 * 0x100 + 0x800 := by
    change (FrameMap.lowUsed 0x100 0x2800).scanned = _
    decide
  have booted : (gapKernel h).heap.heapEnd ≠ 0 := wf.heapEnd_pos.ne'
  exact
    { ordered := .slots wf fun a isSource => Or.inl ((words.sourceMemory isSource).trans_le above)
      space := fun fresh => absurd fresh booted
      tables := by
        intro i index isPrivate
        rw [words.tableOf index, if_pos (words.first index isPrivate)]
      frames := by
        rw [scanned]
        decide
      free := by
        intro f _ free
        change (FrameMap.lowUsed 0x100 0x2800).used f = false at free
        rw [FrameMap.used_lowUsed, decide_eq_false_iff_not] at free
        refine ⟨Or.inr ?_, fun a isSource inside => ?_⟩
        · rw [ceiling, if_neg booted]
          exact (Nat.min_le_right _ _).trans (show 0x02000000 ≤ _ by omega)
        · have below := words.sourceMemory isSource
          unfold Inside at inside
          omega
      enough := by
        have free : (gapKernel h).frames.freeCount = 0x800 := FrameMap.freeCount_lowUsed scanned
        rw [free]
        exact (demand_le_of_first fun i => words.first).trans (by decide) }

end GapKernel

/-- The block behind the table that `clone_table` puts into a released block loses its header. -/
theorem neighbour_header_is_cleared : ∃ h, releaseFirst gapHeap = some h ∧
    Forkable (gapKernel h) 0x44000 ∧ ¬ CloneWritesOwn (fun _ _ => 0) (gapKernel h) 0x44000 := by
  obtain ⟨base, managed⟩ := Client.managed_started
    (Memory.write32 (fun _ => 0) 0x44000 0x50000) (Client.bumped_nil 0x1FF000) (by decide)
  have wf : WellFormed gapHeap base Client.emptyLayout := managed.wf
  have gapEnd : gapHeap.heapEnd = 0x200000 := by decide
  have gapPlacement : gapHeap.placementPointer = 0x1FF000 := rfl
  have low := wf.placementLt
  obtain ⟨h, L, released, block, heapEnd, placement, bytes⟩ :=
    releaseFirst_spec wf rfl (by rw [gapEnd]; decide)
  have words : OneTable h := by
    intro a aligned below
    rw [Memory.read32_congr fun o inWord => bytes (a + o) (by omega)]
    exact Memory.read32_write32_aligned _ _ (by decide) aligned
  have top : topOf h + 0x5000 ≤ kheapEnd := by
    rw [topOf, placement, heapEnd, gapEnd, gapPlacement]
    decide
  have forkable := words.forkable block.wf (by omega)
  exact ⟨h, released, forkable, block.not_cloneWritesOwn forkable words.private top fun _ _ => 0⟩

end Balloon.Paging
