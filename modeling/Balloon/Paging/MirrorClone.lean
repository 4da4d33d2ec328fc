import Balloon.Paging.Directories

/-!
Owns the rounds of `clone_directory` once no frame is free: each copied page goes to the frame
whose number `first_frame` leaves in the return register. While these frames have no byte of a
directory, of a table or of the memory the call gets, the copy is mirrored and the directories and
tables that were there keep their bytes.
-/

namespace Balloon.Paging

open Balloon.Foundation
open Balloon.Libc
open Balloon.Allocator
open Balloon.Frames

/-! ### The entries of one table -/

/-- The bytes off its entry that the copy of a page changes, with no frame free: the frame in the
return register, and its bit if that is behind the bitmap. -/
def Touches (frames : Nat) (undef : BitVec 32) (a : Nat) : Prop :=
  Inside (fallenFrame undef * 0x1000) 0x1000 a ∨ Marks frames undef a

/-- `t` is `s` but for its memory. -/
structure Machine.OnlyMemory (s t : Machine) : Prop where
  heap : t.heap = { s.heap with mem := t.mem }
  pointer : t.frames = s.frames
  nframes : t.nframes = s.nframes
  directory : t.kernelDirectory = s.kernelDirectory

section Entry

variable {s s' : Machine} {src table i : Nat} {undef : BitVec 32}

theorem Machine.onlyMemory_giveFrame (s : Machine) (page : Nat) (isKernel isWriteable : Bool)
    (idx : Nat) : s.OnlyMemory (s.giveFrame page isKernel isWriteable idx) := by
  obtain ⟨w, unfolded⟩ := s.giveFrame_eq page isKernel isWriteable idx
  rw [unfolded]
  exact ⟨rfl, rfl, rfl, rfl⟩

theorem Machine.OnlyMemory.write {t : Machine} (only : s.OnlyMemory t) (m : Memory) :
    s.OnlyMemory (t.withMem m) :=
  ⟨congrArg (fun h : Heap => { h with mem := m }) only.heap, only.pointer, only.nframes,
    only.directory⟩

/-- With every frame marked a round changes its entry and what the copy touches. -/
theorem Machine.Full.cloneEntry (full : s.Full) (held : HoldsFrame s.mem src i)
    (apart : src + 4 * i + 4 ≤ table + 4 * i ∨ table + 4 * i + 4 ≤ src + 4 * i)
    (clear : s.mem.read32 (table + 4 * i) = 0)
    (misses : ∀ a, Touches s.frames undef a → ¬ Inside (table + 4 * i) 4 a)
    (returned : s.cloneEntry src table i undef = some s') :
    s.OnlyMemory s' ∧ ∀ a, ¬ Inside (table + 4 * i) 4 a → ¬ Touches s.frames undef a →
      s'.mem a = s.mem a := by
  have blank : entryAt s.mem (table + 4 * i) = PageT.zero := entryAt_zero clear
  have holds : (entryAt s.mem (src + 4 * i)).frame ≠ 0 := held
  rw [Machine.cloneEntry, if_pos holds] at returned
  obtain ⟨t, given, rfl⟩ := Option.map_eq_some_iff.mp returned
  rcases Machine.allocFrame_returned given with ⟨heldNow, -⟩ | ⟨-, isGiven⟩
  · exact absurd (congrArg PageT.frame blank) heldNow
  · rw [full.firstFrame] at isGiven
    have entry : entryAt t.mem (table + 4 * i) = givenPage false false (fallenFrame undef) := by
      rw [isGiven]
      exact full.entry_giveFrame (fun a marks => misses a (Or.inr marks)) blank
    have outside : ∀ a, ¬ Inside (table + 4 * i) 4 a → ¬ Marks s.frames undef a →
        t.mem a = s.mem a := by
      intro a offEntry offMarks
      rw [isGiven]
      exact full.giveFrame_outside offEntry offMarks
    have only : s.OnlyMemory t := isGiven ▸ s.onlyMemory_giveFrame _ _ _ _
    have frame : (entryAt (cloneFlags t.mem (src + 4 * i) (table + 4 * i)) (table + 4 * i)).frame =
        fallenFrame undef := by
      rw [entryAt_cloneFlags _ apart, entry]
      rfl
    refine ⟨only.write _, fun a offEntry offTouches => ?_⟩
    rw [Machine.mem_withMem, frame, copyPagePhysical_outside _ _ (fallenFrame_lt undef),
      cloneFlags_outside]
    · exact outside a offEntry fun marks => offTouches (Or.inr marks)
    · unfold Inside at offEntry
      omega
    · have offFrame : ¬ Inside (fallenFrame undef * 0x1000) 0x1000 a :=
        fun inFrame => offTouches (Or.inl inFrame)
      unfold Inside at offFrame
      omega

end Entry

/-- A blank table, every frame marked, and copies that touch neither table nor the bitmap. -/
structure Fillable (s : Machine) (src table : Nat) (undef : Nat → BitVec 32) : Prop where
  full : s.Full
  apart : src + 0x1000 ≤ table ∨ table + 0x1000 ≤ src
  blank : ∀ j, j < 1024 → s.mem.read32 (table + 4 * j) = 0
  bitmap : ∀ a, Inside s.frames bitmapSize a → ¬ Inside table sizeofTable a
  misses : ∀ j, j < 1024 → HoldsFrame s.mem src j → ∀ a, Touches s.frames (undef j) a →
    ¬ Inside src sizeofTable a ∧ ¬ Inside table sizeofTable a ∧ ¬ Inside s.frames bitmapSize a

/-- The first `n` entries are done. -/
structure Filled (s : Machine) (src table : Nat) (undef : Nat → BitVec 32) (n : Nat) (t : Machine) :
    Prop where
  only : s.OnlyMemory t
  blank : ∀ j, n ≤ j → j < 1024 → t.mem.read32 (table + 4 * j) = 0
  outside : ∀ a, ¬ Inside table sizeofTable a →
    (∀ j, j < n → HoldsFrame s.mem src j → ¬ Touches s.frames (undef j) a) → t.mem a = s.mem a

section Fill

variable {s t t' : Machine} {src table n : Nat} {undef : Nat → BitVec 32}

theorem Fillable.start (fillable : Fillable s src table undef) : Filled s src table undef 0 s :=
  ⟨⟨rfl, rfl, rfl, rfl⟩, fun j _ => fillable.blank j, fun _ _ _ => rfl⟩

theorem Filled.sameMap (filled : Filled s src table undef n t)
    (fillable : Fillable s src table undef)
    (below : n ≤ 1024) : s.SameMap t := by
  refine ⟨filled.only.pointer, filled.only.nframes, fun a inMap => ?_⟩
  refine filled.outside a (fillable.bitmap a inMap) fun j bound held touches => ?_
  exact (fillable.misses j (by omega) held a touches).2.2 inMap

theorem Filled.holdsFrame_iff (filled : Filled s src table undef n t)
    (fillable : Fillable s src table undef) (below : n ≤ 1024) {j : Nat} (index : j < 1024) :
    HoldsFrame t.mem src j ↔ HoldsFrame s.mem src j := by
  have size : sizeofTable = 0x1000 := rfl
  have apart := fillable.apart
  have entry : entryAt t.mem (src + 4 * j) = entryAt s.mem (src + 4 * j) := by
    refine congrArg decode (Memory.read32_congr fun o inWord =>
      filled.outside _ ?_ fun i bound held touches => ?_)
    · unfold Inside
      omega
    · exact (fillable.misses i (by omega) held _ touches).1 ⟨by omega, by omega⟩
  rw [HoldsFrame, HoldsFrame, entry]

/-- A round that returned. -/
theorem Filled.round (filled : Filled s src table undef n t) (fillable : Fillable s src table undef)
    (index : n < 1024) (returned : t.cloneEntry src table n (undef n) = some t') :
    Filled s src table undef (n + 1) t' := by
  have size : sizeofTable = 0x1000 := rfl
  have pointer := filled.only.pointer
  by_cases held : HoldsFrame s.mem src n
  · have misses := fillable.misses n index held
    have apart := fillable.apart
    have inTable : ∀ a, Inside (table + 4 * n) 4 a → Inside table sizeofTable a := by
      intro a inEntry
      unfold Inside at *
      omega
    obtain ⟨only, outside⟩ := (fillable.full.keep (filled.sameMap fillable index.le)).cloneEntry
      ((filled.holdsFrame_iff fillable index.le index).mpr held) (by omega)
      (filled.blank n (Nat.le_refl n) index)
      (fun a touches inEntry => (misses a (pointer ▸ touches)).2.1 (inTable a inEntry)) returned
    rw [pointer] at outside
    refine ⟨⟨?_, only.pointer.trans pointer, only.nframes.trans filled.only.nframes,
      only.directory.trans filled.only.directory⟩, fun j above bound => ?_,
      fun a offTable offTouches => ?_⟩
    · rw [only.heap, filled.only.heap]
    · refine Eq.trans (Memory.read32_congr fun o inWord => outside _ ?_ fun touches => ?_)
        (filled.blank j (by omega) bound)
      · unfold Inside
        omega
      · exact (misses _ touches).2.1 ⟨by omega, by omega⟩
    · refine (outside a (fun inEntry => offTable (inTable a inEntry))
        (offTouches n (Nat.lt_succ_self n) held)).trans ?_
      exact filled.outside a offTable fun j below => offTouches j (by omega)
  · have none := (filled.holdsFrame_iff fillable index.le index).not.mpr held
    have same : t.cloneEntry src table n (undef n) = some t := if_neg none
    rw [same] at returned
    obtain rfl := Option.some.inj returned
    exact ⟨filled.only, fun j above => filled.blank j (by omega), fun a offTable offTouches =>
      filled.outside a offTable fun j below => offTouches j (by omega)⟩

theorem Fillable.loop (fillable : Fillable s src table undef)
    (ran : (List.range 1024).foldlM
      (fun (t : Machine) i => t.cloneEntry src table i (undef i)) s = some t) :
    Filled s src table undef 1024 t :=
  foldlM_range_returned _ (Filled s src table undef)
    (fun _ _ _ index filled returned => filled.round fillable index returned) fillable.start ran

end Fill

/-! ### The slots of the directory -/

/-- The copy of a page touches no byte of a directory, of a table, of the bitmap, or of the memory
that `clone_directory(src)` may get. -/
def OffDirectories (s : Machine) (dirs : List Nat) (src : Nat) (undef : BitVec 32) : Prop :=
  ∀ a, Touches s.frames undef a → ¬ Live s.frames s.mem dirs a ∧
    (a < s.heap.placementPointer ∨ reserve s.kernel src ≤ a)

/-- Entry `j` of the table in slot `i` is one that `clone_directory(src)` copies. -/
def Copies (k : Kernel) (src i j : Nat) : Prop :=
  i < 1024 ∧ j < 1024 ∧ Private k src i ∧ HoldsFrame k.mem (tableOf k.mem src i) j

/-- The call may start: `src` is one of the directories, and before `init_heap` the memory for
the copy ends in the address space. -/
structure MayClone (frames : Nat) (k : Kernel) (dirs : List Nat) (src : Nat) : Prop where
  sound : Sound frames k dirs
  member : src ∈ dirs
  space : k.heap.heapEnd = 0 → reserve k src ≤ 2 ^ 32

/-- `phys` is what `kmalloc_raw` finds for the block at `a`, if `kernel_directory` has a table
for it. -/
def LookedUp (k : Kernel) (a phys : Nat) : Prop :=
  findPage k.mem a k.kernelDirectory ≠ 0 → phys = physicalOf k a

/-- The first `n` slots of the directory at `dir` are done. -/
structure Copying (frames : Nat) (k : Kernel) (dirs : List Nat) (src dir n : Nat) (s : Kernel) :
    Prop where
  arena : Arena s.heap fun a => Live frames k.mem dirs a ∨ CopyMemory k src dir n s a
  mode : s.heap.heapEnd = 0 ↔ k.heap.heapEnd = 0
  unused : s.heap.heapEnd = 0 → Unused s.heap
  directory : s.kernelDirectory = k.kernelDirectory
  placement : k.heap.placementPointer ≤ s.heap.placementPointer
  top : topOf s.heap ≤ topOf k.heap + 0x4004 + 0x3000 * Nat.count (Private k src) n
  live : ∀ a, Live frames k.mem dirs a → s.mem a = k.mem a
  page : dir % 0x1000 = 0
  positive : 0x1000 ≤ dir
  low : k.heap.placementPointer ≤ dir
  high : dir + sizeofDirectory ≤ topOf k.heap + 0x4000
  fresh : ∀ a, Live frames k.mem dirs a → ¬ Inside dir sizeofDirectory a
  address : ∃ phys, LookedUp k dir phys ∧ physicalAddrOf s.mem dir = wrap32 (phys + 4096)
  blank : ∀ i, n ≤ i → i < 1024 → tableOf s.mem dir i = 0 ∧ tablePhysicalOf s.mem dir i = 0
  kept : ∀ i, i < n → ¬ Private k src i → tableOf s.mem dir i = tableOf k.mem src i ∧
    tablePhysicalOf s.mem dir i = tablePhysicalOf k.mem src i
  made : ∀ i, i < n → Private k src i → 0x1000 ≤ tableOf s.mem dir i ∧
    tableOf s.mem dir i % 0x1000 = 0 ∧
      ∃ phys, LookedUp k (tableOf s.mem dir i) phys ∧
        tablePhysicalOf s.mem dir i = (phys ||| 0x7) % 2 ^ 32
  apart : ∀ i, i < n → Private k src i → ∀ a, Inside (tableOf s.mem dir i) sizeofTable a →
    ¬ Live frames k.mem dirs a ∧ ¬ Inside dir sizeofDirectory a

section Copying

variable {k s s' t : Kernel} {frames : Nat} {dirs : List Nat} {src dir n : Nat}

theorem Copying.of_heap (copying : Copying frames k dirs src dir n s) (heap : s'.heap = s.heap)
    (directory : s'.kernelDirectory = s.kernelDirectory) :
    Copying frames k dirs src dir n s' := by
  obtain ⟨h, map, kd, current⟩ := s
  obtain ⟨h', map', kd', current'⟩ := s'
  obtain rfl : h' = h := heap
  obtain rfl : kd' = kd := directory
  exact
    { arena := copying.arena
      mode := copying.mode
      unused := copying.unused
      directory := copying.directory
      placement := copying.placement
      top := copying.top
      live := copying.live
      page := copying.page
      positive := copying.positive
      low := copying.low
      high := copying.high
      fresh := copying.fresh
      address := copying.address
      blank := copying.blank
      kept := copying.kept
      made := copying.made
      apart := copying.apart }

theorem Copying.room (copying : Copying frames k dirs src dir n s) (index : n < 1024)
    (isPrivate : Private k src n) : topOf s.heap + 0x5FFC ≤ reserve k src := by
  have top := copying.top
  have more := Nat.count_strict_mono isPrivate index
  unfold reserve
  omega

/-- The words of the directories that were there. -/
theorem Copying.word (copying : Copying frames k dirs src dir n s) {d o : Nat} (member : d ∈ dirs)
    (inside : o + 4 ≤ sizeofDirectory) : s.mem.read32 (d + o) = k.mem.read32 (d + o) :=
  Memory.read32_congr fun b inWord =>
    copying.live _ (Live.directory member ⟨by omega, by omega⟩)

theorem Copying.tables (copying : Copying frames k dirs src dir n s) {d : Nat} (member : d ∈ dirs)
    {i : Nat} (index : i < 1024) : tableOf s.mem d i = tableOf k.mem d i :=
  copying.word member (show 4 * i + 4 ≤ 8196 by omega)

theorem Copying.physical (copying : Copying frames k dirs src dir n s) {d : Nat} (member : d ∈ dirs)
    {i : Nat} (index : i < 1024) : tablePhysicalOf s.mem d i = tablePhysicalOf k.mem d i := by
  unfold tablePhysicalOf
  rw [Nat.add_assoc]
  exact copying.word member (show 4096 + 4 * i + 4 ≤ 8196 by omega)

theorem tablePhysicalOf_writeSlot (m : Memory) {v w : Nat} (index : n < 1024) {i : Nat}
    (bound : i < 1024) :
    tablePhysicalOf (writeSlot m dir n v w) dir i =
      if i = n then w % 2 ^ 32 else tablePhysicalOf m dir i := by
  rw [tablePhysicalOf, writeSlot]
  by_cases same : i = n
  · rw [if_pos same, same, Memory.read32_write32_same]
  · rw [if_neg same, Memory.read32_write32_disjoint _ _ (by omega),
      Memory.read32_write32_disjoint _ _ (by omega), tablePhysicalOf]

theorem physicalAddrOf_writeSlot (m : Memory) {v w : Nat} (index : n < 1024) :
    physicalAddrOf (writeSlot m dir n v w) dir = physicalAddrOf m dir := by
  rw [physicalAddrOf, writeSlot, Memory.read32_write32_disjoint _ _ (by omega),
    Memory.read32_write32_disjoint _ _ (by omega), physicalAddrOf]

/-- A slot that is empty or the kernel's. -/
theorem Copying.pass (copying : Copying frames k dirs src dir n s) (index : n < 1024)
    (notPrivate : ¬ Private k src n) {m : Memory}
    (outside : ∀ a, ¬ Inside dir sizeofDirectory a → m a = s.mem a)
    (address : physicalAddrOf m dir = physicalAddrOf s.mem dir)
    (tables : ∀ i, i < 1024 →
      tableOf m dir i = if i = n then tableOf k.mem src n else tableOf s.mem dir i)
    (physicals : ∀ i, i < 1024 → tablePhysicalOf m dir i =
      if i = n then tablePhysicalOf k.mem src n else tablePhysicalOf s.mem dir i) :
    Copying frames k dirs src dir (n + 1) (s.withMem m) := by
  have before : ∀ i, i < n + 1 → Private k src i → i < n := by
    intro i below isPrivate
    have different : i ≠ n := fun same => notPrivate (same ▸ isPrivate)
    omega
  have others : ∀ i, i < 1024 → i ≠ n → tableOf m dir i = tableOf s.mem dir i ∧
      tablePhysicalOf m dir i = tablePhysicalOf s.mem dir i := by
    intro i bound different
    rw [tables i bound, physicals i bound, if_neg different, if_neg different]
    exact ⟨rfl, rfl⟩
  have earlier : ∀ i, i < n → tableOf m dir i = tableOf s.mem dir i :=
    fun i below => (others i (by omega) (by omega)).1
  exact
    { arena := by
        refine (copying.arena.write (m := m) fun a => ?_).mono fun a isLive => ?_
        · by_cases inDirectory : Inside dir sizeofDirectory a
          · exact Or.inl (Or.inr (Or.inl inDirectory))
          · exact Or.inr (Or.inr (Or.inr (outside a inDirectory)))
        · refine isLive.imp_right (Or.imp_right ?_)
          rintro ⟨i, below, isPrivate, inside⟩
          have bound := before i below isPrivate
          rw [Kernel.mem_withMem, earlier i bound] at inside
          exact ⟨i, bound, isPrivate, inside⟩
      mode := copying.mode
      unused := fun fresh => (copying.unused fresh).write m
      directory := copying.directory
      placement := copying.placement
      top := by
        rw [Nat.count_succ, if_neg notPrivate]
        exact copying.top
      live := fun a isLive => (outside a (copying.fresh a isLive)).trans (copying.live a isLive)
      page := copying.page
      positive := copying.positive
      low := copying.low
      high := copying.high
      fresh := copying.fresh
      address := by
        obtain ⟨phys, lookedUp, stored⟩ := copying.address
        exact ⟨phys, lookedUp, address.trans stored⟩
      blank := by
        intro i above bound
        rw [Kernel.mem_withMem, (others i bound (by omega)).1, (others i bound (by omega)).2]
        exact copying.blank i (by omega) bound
      kept := by
        intro i below passed
        rw [Kernel.mem_withMem]
        by_cases last : i = n
        · rw [tables i (by omega), physicals i (by omega), if_pos last, if_pos last, last]
          exact ⟨rfl, rfl⟩
        · rw [(others i (by omega) last).1, (others i (by omega) last).2]
          exact copying.kept i (by omega) passed
      made := by
        intro i below isPrivate
        have bound := before i below isPrivate
        rw [Kernel.mem_withMem, (others i (by omega) (by omega)).1,
          (others i (by omega) (by omega)).2]
        exact copying.made i bound isPrivate
      apart := by
        intro i below isPrivate a inside
        have bound := before i below isPrivate
        rw [Kernel.mem_withMem, earlier i bound] at inside
        exact copying.apart i bound isPrivate a inside }

/-- The machine in front of round `n`. -/
structure InRounds (s₀ : Machine) (dirs : List Nat) (src dir n : Nat) (s : Machine) : Prop where
  copying : Copying s₀.frames s₀.kernel dirs src dir n s.kernel
  pointer : s.frames = s₀.frames
  nframes : s.nframes = s₀.nframes

theorem InRounds.sameMap {s₀ s : Machine} (rounds : InRounds s₀ dirs src dir n s) : s₀.SameMap s :=
  ⟨rounds.pointer, rounds.nframes, fun a inMap => rounds.copying.live a (Or.inr inMap)⟩

/-- The round of a slot that is empty or the kernel's returns. -/
theorem InRounds.cloneSlot_pass {s₀ s : Machine} (rounds : InRounds s₀ dirs src dir n s)
    (mayClone : MayClone s₀.frames s₀.kernel dirs src) (index : n < 1024)
    (notPrivate : ¬ Private s₀.kernel src n) (undef : Nat → BitVec 32) :
    ∃ s', s.cloneSlot src dir n undef = some s' ∧ InRounds s₀ dirs src dir (n + 1) s' := by
  have copying := rounds.copying
  have directory : s.kernelDirectory = s₀.kernelDirectory := copying.directory
  have srcTable : tableOf s.mem src n = tableOf s₀.mem src n := copying.tables mayClone.member index
  have kernelTable : tableOf s.mem s₀.kernelDirectory n = tableOf s₀.mem s₀.kernelDirectory n :=
    copying.tables mayClone.sound.member index
  by_cases empty : tableOf s₀.mem src n = 0
  · refine ⟨s, ?_, ?_, rounds.pointer, rounds.nframes⟩
    · rw [Machine.cloneSlot, srcTable, if_pos empty]
    · have blank := copying.blank n (Nat.le_refl n) index
      have physical : tablePhysicalOf s₀.mem src n = 0 := by
        rcases (mayClone.sound.laid.mirrored src mayClone.member).slot n index with
          ⟨-, zero⟩ | ⟨made, -⟩
        · exact zero
        · exact absurd empty made
      refine copying.pass index notPrivate (m := s.mem) (fun _ _ => rfl) rfl
        (fun i bound => ?_) fun i bound => ?_
      · split
        next last => exact last ▸ blank.1.trans empty.symm
        next => rfl
      · split
        next last => exact last ▸ blank.2.trans physical.symm
        next => rfl
  · have shared : tableOf s₀.mem s₀.kernelDirectory n = tableOf s₀.mem src n := by
      by_contra different
      exact notPrivate ⟨empty, different⟩
    have size : sizeofDirectory = 8196 := rfl
    -- The word for `tables` is not one of the source.
    have physical : tablePhysicalOf (s.mem.write32 (dir + 4 * n) (tableOf s₀.mem src n)) src n =
        tablePhysicalOf s₀.mem src n := by
      refine Eq.trans ?_ (copying.physical mayClone.member index)
      refine Memory.read32_congr fun o inWord => Memory.write32_outside _ _ ?_
      by_contra inSlot
      exact copying.fresh (src + 4096 + 4 * n + o)
        (Live.directory mayClone.member ⟨by omega, by omega⟩) ⟨by omega, by omega⟩
    refine ⟨s.withMem (writeSlot s.mem dir n (tableOf s₀.mem src n)
      (tablePhysicalOf s₀.mem src n)), ?_, ?_, rounds.pointer, rounds.nframes⟩
    · rw [Machine.cloneSlot, directory, srcTable, kernelTable, if_neg empty, if_pos shared]
      simp only [physical, writeSlot]
    · refine (copying.pass index notPrivate
        (fun a outside => writeSlot_outside s.mem index outside)
        (physicalAddrOf_writeSlot s.mem index)
        (fun i bound => tableOf_writeSlot s.mem index (s₀.mem.read32_lt _) bound)
          fun i bound => ?_).of_heap rfl rfl
      refine (tablePhysicalOf_writeSlot s.mem index bound).trans ?_
      rw [Nat.mod_eq_of_lt (show tablePhysicalOf s₀.mem src n < 2 ^ 32 from s₀.mem.read32_lt _)]
      rfl

/-! ### A slot with a copy -/

/-- No page that the call copies touches the directories, the bitmap or the memory for the copy. -/
def CopiesOff (s : Machine) (dirs : List Nat) (src : Nat) (undef : Nat → Nat → BitVec 32) : Prop :=
  ∀ i j, Copies s.kernel src i j → OffDirectories s dirs src (undef i j)

/-- The kernel `t` after `clone_table` returned the table at `p` for slot `n`. -/
structure TableCopied (frames : Nat) (k : Kernel) (dirs : List Nat) (src dir n : Nat)
    (s : Kernel) (p phys : Nat)
    (t : Kernel) : Prop where
  arena : Arena t.heap fun a =>
    (Live frames k.mem dirs a ∨ CopyMemory k src dir n s a) ∨ Inside p sizeofTable a
  mode : t.heap.heapEnd = 0 ↔ s.heap.heapEnd = 0
  unused : t.heap.heapEnd = 0 → Unused t.heap
  directory : t.kernelDirectory = s.kernelDirectory
  placement : s.heap.placementPointer ≤ t.heap.placementPointer
  top : topOf t.heap ≤ topOf s.heap + 0x3000
  quiet : ∀ a, Live frames k.mem dirs a ∨ Inside dir sizeofDirectory a → t.mem a = s.mem a
  page : p % 0x1000 = 0
  positive : 0x1000 ≤ p
  small : p < 2 ^ 32
  lookedUp : LookedUp k p phys
  apart : ∀ a, Live frames k.mem dirs a ∨ Inside dir sizeofDirectory a → ¬ Inside p sizeofTable a

variable {p phys : Nat} {k₁ : Kernel} {undef : Nat → Nat → BitVec 32}

/-- The memory for the copy ends in the address space. -/
theorem Copying.space (copying : Copying frames k dirs src dir n s)
    (mayClone : MayClone frames k dirs src)
    (index : n < 1024) (isPrivate : Private k src n) : topOf s.heap + 0x5FFC ≤ 2 ^ 32 := by
  have room := copying.room index isPrivate
  by_cases fresh : k.heap.heapEnd = 0
  · have within := mayClone.space fresh
    omega
  · have limit : kheapEnd = 0x02000000 := rfl
    have within := copying.arena.ordered.top_le (copying.mode.not.mpr fresh)
    omega

theorem Copying.placed (copying : Copying frames k dirs src dir n s)
    (mayClone : MayClone frames k dirs src)
    (index : n < 1024) (isPrivate : Private k src n)
    (allocated : s.kmallocAlignedPhysical sizeofTable = some (p, phys, k₁)) :
    PlacedBlock s (fun a => Live frames k.mem dirs a ∨ CopyMemory k src dir n s a) sizeofTable p
      k₁ := by
  have space := copying.space mayClone index isPrivate
  refine copying.arena.placedBlock (Or.inl rfl) (fun _ => ?_) allocated
  have placement : s.heap.placementPointer ≤ topOf s.heap := Nat.le_max_left _ _
  have block : nextBlock s.heap = s.heap.placementPointer / 0x1000 * 0x1000 + 0x1000 := rfl
  have size : sizeofTable = 0x1000 := rfl
  omega

/-- A lookup in front of the copy is one in front of the call. -/
theorem lookedUp_of_placed {live : Nat → Prop} {size : Nat} (placed : PlacedBlock s live size p k₁)
    (kernel : k.kernelDirectory ∈ dirs) (mode : s.heap.heapEnd = 0 ↔ k.heap.heapEnd = 0)
    (directory : s.kernelDirectory = k.kernelDirectory)
    (kept : ∀ a, Live frames k.mem dirs a → live a ∧ s.mem a = k.mem a) (small : p < 2 ^ 32)
    (allocated : s.kmallocAlignedPhysical size = some (p, phys, k₁)) : LookedUp k p phys := by
  intro found
  have keeps : KeepsKernel k k₁ :=
    { mode := placed.mode.trans mode
      directory := placed.directory.trans directory
      bytes := fun a inKernel =>
        have isLive := kept a (Or.inl ⟨_, kernel, inKernel⟩)
        (placed.kept a isLive.1).trans isLive.2 }
  exact (placed.physical allocated).trans (keeps.physicalOf small found)

/-- `memset` clears a new table. -/
theorem Copying.cleared (copying : Copying frames k dirs src dir n s)
    (mayClone : MayClone frames k dirs src)
    (index : n < 1024) (isPrivate : Private k src n)
    (placed : PlacedBlock s (fun a => Live frames k.mem dirs a ∨ CopyMemory k src dir n s a)
      sizeofTable
      p k₁) :
    BlankBlock s (fun a => Live frames k.mem dirs a ∨ CopyMemory k src dir n s a) sizeofTable p
      (k₁.withMem (memset k₁.mem p 0 sizeofDirectory)) := by
  have high := placed.high
  have space := copying.space mayClone index isPrivate
  have fits : p + sizeofDirectory ≤ 2 ^ 32 := by omega
  refine placed.blankBlock (Or.inl rfl) rfl (fun a outside => ?_) fun a above below => ?_
  · rw [memset_eq_fill _ _ fits]
    exact Memory.fill_outside _ _ outside
  · rw [memset_eq_fill _ _ fits]
    exact Memory.fill_inside _ _ ⟨above, below⟩

/-- The entries of the source table behind the clear. -/
theorem Copying.holdsFrame_iff (copying : Copying frames k dirs src dir n s)
    (mayClone : MayClone frames k dirs src) (index : n < 1024) (isPrivate : Private k src n)
    (block : BlankBlock s (fun a => Live frames k.mem dirs a ∨ CopyMemory k src dir n s a)
      sizeofTable p k₁) {j : Nat} (bound : j < 1024) :
    HoldsFrame k₁.mem (tableOf k.mem src n) j ↔ HoldsFrame k.mem (tableOf k.mem src n) j := by
  have size : sizeofTable = 0x1000 := rfl
  rw [HoldsFrame, HoldsFrame, entryAt, entryAt, Memory.read32_congr fun o inWord => ?_]
  have isLive : Live frames k.mem dirs (tableOf k.mem src n + 4 * j + o) :=
    Live.table mayClone.member index isPrivate.1 ⟨by omega, by omega⟩
  exact (block.kept _ (Or.inl isLive)).trans (copying.live _ isLive)

section Table

variable {s₀ s t : Machine} {m : Memory} (rounds : InRounds s₀ dirs src dir n s)
  (mayClone : MayClone s₀.frames s₀.kernel dirs src) (full : s₀.Full) (index : n < 1024)
  (isPrivate : Private s₀.kernel src n) (off : CopiesOff s₀ dirs src undef)
  (block : BlankBlock s.kernel (fun a => Live s₀.frames s₀.mem dirs a ∨
    CopyMemory s₀.kernel src dir n s.kernel a) sizeofTable p (k₁.withMem m))

include rounds full block in
theorem InRounds.full_cleared : ((s.withHeap k₁.heap).withMem m).Full := by
  refine full.keep ⟨rounds.pointer, rounds.nframes, fun a inMap => ?_⟩
  exact (block.kept a (Or.inl (Or.inr inMap))).trans (rounds.copying.live a (Or.inr inMap))

include rounds mayClone index isPrivate off block in
/-- A copy touches neither table, nor the bitmap, nor the memory for the copy. -/
theorem InRounds.misses {j : Nat} (bound : j < 1024)
    (held : HoldsFrame m (tableOf s₀.mem src n) j) {a : Nat}
    (touches : Touches s.frames (undef n j) a) :
    ¬ Live s₀.frames s₀.mem dirs a ∧ ¬ Inside p sizeofTable a ∧
      (a < s₀.heap.placementPointer ∨ reserve s₀.kernel src ≤ a) := by
  have size : sizeofDirectory = 8196 := rfl
  have tableSize : sizeofTable = 0x1000 := rfl
  have room := rounds.copying.room index isPrivate
  have high := block.high
  have low : s₀.heap.placementPointer ≤ p := rounds.copying.placement.trans block.low
  rw [rounds.pointer] at touches
  obtain ⟨offLive, apart⟩ := off n j ⟨index, bound, isPrivate,
    (rounds.copying.holdsFrame_iff mayClone index isPrivate block bound).mp held⟩ a touches
  refine ⟨offLive, ?_, apart⟩
  unfold Inside
  omega

include rounds mayClone full index isPrivate off block in
theorem InRounds.fillable :
    Fillable ((s.withHeap k₁.heap).withMem m) (tableOf s₀.mem src n) p (undef n) := by
  have size : sizeofDirectory = 8196 := rfl
  have tableSize : sizeofTable = 0x1000 := rfl
  have isLive : ∀ a, Inside (tableOf s₀.mem src n) sizeofTable a →
      Live s₀.frames s₀.mem dirs a := fun a => Live.table mayClone.member index isPrivate.1
  have apart := beside_of_apart (q := p) (w := sizeofDirectory) (by decide)
    fun a inside => block.apart a (Or.inl (isLive a inside))
  have pointer : s.frames = s₀.frames := rounds.pointer
  have isMap : ∀ a, Inside s.frames bitmapSize a → Live s₀.frames s₀.mem dirs a :=
    fun a inMap => Or.inr (pointer ▸ inMap)
  refine ⟨rounds.full_cleared full block, by omega, fun j bound => ?_, fun a inMap inTable => ?_,
    fun j bound held a touches => ?_⟩
  · exact Memory.read32_zero fun o inWord => block.blank _ (by omega) (by omega)
  · have beside := block.apart a (Or.inl (isMap a inMap))
    unfold Inside at inTable
    omega
  · obtain ⟨offLive, offTable, -⟩ :=
      rounds.misses mayClone index isPrivate off block bound held touches
    exact ⟨fun inTable => offLive (isLive a inTable), offTable,
      fun inMap => offLive (isMap a inMap)⟩

include rounds mayClone index isPrivate off block in
/-- `clone_table` for a private table of the source, behind its rounds. -/
theorem InRounds.tableCopied
    (allocated : s.kernel.kmallocAlignedPhysical sizeofTable = some (p, phys, k₁))
    (filled : Filled ((s.withHeap k₁.heap).withMem m) (tableOf s₀.mem src n) p (undef n) 1024 t) :
    TableCopied s₀.frames s₀.kernel dirs src dir n s.kernel p phys t.kernel := by
  have size : sizeofDirectory = 8196 := rfl
  have tableSize : sizeofTable = 0x1000 := rfl
  have copying := rounds.copying
  have placed := copying.placed mayClone index isPrivate allocated
  have heap : t.heap = { k₁.heap with mem := t.mem } := filled.only.heap
  have directory : t.kernelDirectory = s.kernelDirectory := filled.only.directory
  have small := placed.small
  have room := copying.room index isPrivate
  have low := copying.placement.trans placed.low
  have placement := copying.placement.trans placed.placement
  have blockTop := block.top
  -- A byte that the loop changes off the table is off the directories.
  have elsewhere : ∀ a, ¬ Inside p sizeofTable a → t.mem a ≠ m a →
      ¬ Live s₀.frames s₀.mem dirs a ∧
        (a < s₀.heap.placementPointer ∨ reserve s₀.kernel src ≤ a) := by
    intro a offTable changed
    by_contra kept
    refine changed (filled.outside a offTable fun j bound held touches => kept ?_)
    obtain ⟨offLive, -, apart⟩ :=
      rounds.misses mayClone index isPrivate off block bound held touches
    exact ⟨offLive, apart⟩
  have apart : ∀ a, Live s₀.frames s₀.mem dirs a ∨ Inside dir sizeofDirectory a →
      ¬ Inside p sizeofTable a := by
    intro a isKept inTable
    have beside := placed.apart a (isKept.imp_right Or.inl)
    unfold Inside at inTable
    omega
  exact
    { arena := by
        change Arena t.heap _
        rw [heap]
        refine block.arena.write fun a => ?_
        by_cases inTable : Inside p sizeofTable a
        · exact Or.inl (Or.inr inTable)
        · by_cases same : t.mem a = m a
          · exact Or.inr (Or.inr (Or.inr same))
          · have off := (elsewhere a inTable same).2
            change _ ∨ a < k₁.heap.placementPointer ∨ topOf k₁.heap ≤ a ∨ _
            change topOf k₁.heap ≤ _ at blockTop
            change s₀.heap.placementPointer ≤ _ at placement
            omega
      mode := by
        change t.heap.heapEnd = 0 ↔ _
        rw [heap]
        exact placed.mode
      unused := by
        change t.heap.heapEnd = 0 → Unused t.heap
        rw [heap]
        exact fun fresh => ((placed.unused copying.unused fresh).write m).write t.mem
      directory := directory
      placement := by
        change _ ≤ t.heap.placementPointer
        rw [heap]
        exact placed.placement
      top := by
        change topOf t.heap ≤ _
        rw [heap]
        exact blockTop
      quiet := by
        intro a isKept
        by_contra changed
        have inTable := apart a isKept
        refine changed (Eq.trans ?_ (block.kept a (isKept.imp_right Or.inl)))
        by_contra differs
        obtain ⟨notLive, off⟩ := elsewhere a inTable differs
        rcases isKept with isLive | inDirectory
        · exact notLive isLive
        · have dirLow : s₀.heap.placementPointer ≤ dir := copying.low
          have dirHigh := copying.high
          unfold Inside at inDirectory
          unfold reserve at off
          omega
      page := placed.page
      positive := placed.positive
      small := by omega
      lookedUp := lookedUp_of_placed placed mayClone.sound.member copying.mode copying.directory
        (fun a isLive => ⟨Or.inl isLive, copying.live a isLive⟩) (by omega) allocated
      apart := apart }

end Table

/-- The copied table in its slot. -/
theorem TableCopied.copying (copied : TableCopied frames k dirs src dir n s p phys t)
    (copying : Copying frames k dirs src dir n s) (index : n < 1024) (isPrivate : Private k src n) :
    Copying frames k dirs src dir (n + 1) (t.withMem (writeSlot t.mem dir n p (phys ||| 0x7))) := by
  have size : sizeofDirectory = 8196 := rfl
  have outside : ∀ a, ¬ Inside dir sizeofDirectory a →
      writeSlot t.mem dir n p (phys ||| 0x7) a = t.mem a :=
    fun a => writeSlot_outside t.mem index
  have word : ∀ o, o + 4 ≤ sizeofDirectory → t.mem.read32 (dir + o) = s.mem.read32 (dir + o) :=
    fun o bound => Memory.read32_congr fun b inWord =>
      copied.quiet _ (Or.inr ⟨by omega, by omega⟩)
  have oldTable : ∀ i, i < 1024 → tableOf t.mem dir i = tableOf s.mem dir i :=
    fun i bound => word (4 * i) (by omega)
  have oldPhysical : ∀ i, i < 1024 → tablePhysicalOf t.mem dir i = tablePhysicalOf s.mem dir i := by
    intro i bound
    unfold tablePhysicalOf
    rw [Nat.add_assoc]
    exact word (4096 + 4 * i) (by omega)
  have others : ∀ i, i < 1024 → i ≠ n →
      tableOf (writeSlot t.mem dir n p (phys ||| 0x7)) dir i = tableOf s.mem dir i ∧
        tablePhysicalOf (writeSlot t.mem dir n p (phys ||| 0x7)) dir i =
          tablePhysicalOf s.mem dir i := by
    intro i bound different
    rw [tableOf_writeSlot t.mem index copied.small bound,
      tablePhysicalOf_writeSlot t.mem index bound,
      if_neg different, if_neg different]
    exact ⟨oldTable i bound, oldPhysical i bound⟩
  have last : tableOf (writeSlot t.mem dir n p (phys ||| 0x7)) dir n = p := by
    rw [tableOf_writeSlot t.mem index copied.small index, if_pos rfl]
  exact
    { arena := by
        refine (copied.arena.write (m := writeSlot t.mem dir n p (phys ||| 0x7))
          fun a => ?_).mono fun a isLive => ?_
        · by_cases inDirectory : Inside dir sizeofDirectory a
          · exact Or.inl (Or.inl (Or.inr (Or.inl inDirectory)))
          · exact Or.inr (Or.inr (Or.inr (outside a inDirectory)))
        · rcases isLive with isLive | inDirectory | ⟨i, below, isPrivate', inside⟩
          · exact Or.inl (Or.inl isLive)
          · exact Or.inl (Or.inr (Or.inl inDirectory))
          · by_cases isLast : i = n
            · rw [isLast, Kernel.mem_withMem, last] at inside
              exact Or.inr inside
            · rw [Kernel.mem_withMem, (others i (by omega) isLast).1] at inside
              exact Or.inl (Or.inr (Or.inr ⟨i, by omega, isPrivate', inside⟩))
      mode := copied.mode.trans copying.mode
      unused := fun fresh => (copied.unused fresh).write _
      directory := copied.directory.trans copying.directory
      placement := copying.placement.trans copied.placement
      top := by
        have grows : topOf (t.withMem (writeSlot t.mem dir n p (phys ||| 0x7))).heap ≤
            topOf s.heap + 0x3000 := copied.top
        rw [Nat.count_succ, if_pos isPrivate, Nat.mul_succ, ← Nat.add_assoc]
        exact grows.trans (Nat.add_le_add_right copying.top _)
      live := fun a isLive => (outside a (copying.fresh a isLive)).trans
        ((copied.quiet a (Or.inl isLive)).trans (copying.live a isLive))
      page := copying.page
      positive := copying.positive
      low := copying.low
      high := copying.high
      fresh := copying.fresh
      address := by
        obtain ⟨phys', lookedUp, stored⟩ := copying.address
        refine ⟨phys', lookedUp, ?_⟩
        rw [Kernel.mem_withMem, physicalAddrOf_writeSlot t.mem index]
        exact (word 8192 (by decide)).trans stored
      blank := by
        intro i above bound
        rw [Kernel.mem_withMem, (others i bound (by omega)).1, (others i bound (by omega)).2]
        exact copying.blank i (by omega) bound
      kept := by
        intro i below passed
        have different : i ≠ n := fun same => passed (same ▸ isPrivate)
        rw [Kernel.mem_withMem, (others i (by omega) different).1,
          (others i (by omega) different).2]
        exact copying.kept i (by omega) passed
      made := by
        intro i below isPrivate'
        rw [Kernel.mem_withMem]
        by_cases isLast : i = n
        · rw [isLast, last, tablePhysicalOf_writeSlot t.mem index index, if_pos rfl]
          exact ⟨copied.positive, copied.page, phys, copied.lookedUp, rfl⟩
        · rw [(others i (by omega) isLast).1, (others i (by omega) isLast).2]
          exact copying.made i (by omega) isPrivate'
      apart := by
        intro i below isPrivate' a inside
        by_cases isLast : i = n
        · rw [isLast, Kernel.mem_withMem, last] at inside
          exact ⟨fun isLive => copied.apart a (Or.inl isLive) inside,
            fun inDirectory => copied.apart a (Or.inr inDirectory) inside⟩
        · rw [Kernel.mem_withMem, (others i (by omega) isLast).1] at inside
          exact copying.apart i (by omega) isPrivate' a inside }

theorem Machine.withMem_withMem (s : Machine) (m m' : Memory) :
    (s.withMem m).withMem m' = s.withMem m' := rfl

theorem Machine.withHeap_cleared (s : Machine) (m : Memory) :
    s.withHeap (s.kernel.withMem m).heap = s.withMem m := rfl

theorem Machine.kernel_withHeap_mem (s : Machine) (k : Kernel) :
    (s.withHeap k.heap).kernel.mem = k.mem := rfl

theorem Machine.cloneTable_eq_some {s t : Machine} {table : Nat} {u : Nat → BitVec 32}
    (returned : s.cloneTable src u = some (table, phys, t)) :
    ∃ k₁, s.kernel.kmallocAlignedPhysical sizeofTable = some (table, phys, k₁) ∧
      (List.range 1024).foldlM (fun (s : Machine) i => s.cloneEntry src table i (u i))
        ((s.withHeap k₁.heap).withMem (memset k₁.mem table 0 sizeofDirectory)) = some t := by
  rw [Machine.cloneTable, Option.bind_eq_some_iff] at returned
  obtain ⟨⟨table', phys', s₁⟩, allocated, rest⟩ := returned
  simp only [Option.bind_eq_some_iff, Option.map_eq_some_iff, Prod.mk.injEq] at rest
  obtain ⟨s₂, cleared, t', ran, rfl, rfl, rfl⟩ := rest
  obtain ⟨⟨table'', phys'', k₁⟩, called, same⟩ := Option.map_eq_some_iff.mp allocated
  simp only [Prod.mk.injEq] at same
  obtain ⟨rfl, rfl, rfl⟩ := same
  obtain ⟨k₂, clear, rfl⟩ := Option.map_eq_some_iff.mp cleared
  have isClear := clearDirectory_eq_some clear
  rw [Machine.kernel_withHeap_mem] at isClear
  rw [isClear, Machine.withHeap_cleared] at ran
  exact ⟨k₁, called, ran⟩

/-- The round of a private slot, behind the clear of its table. -/
theorem InRounds.copyTable {s₀ s t : Machine} {m : Memory} (rounds : InRounds s₀ dirs src dir n s)
    (mayClone : MayClone s₀.frames s₀.kernel dirs src) (full : s₀.Full) (index : n < 1024)
    (isPrivate : Private s₀.kernel src n) (off : CopiesOff s₀ dirs src undef)
    (allocated : s.kernel.kmallocAlignedPhysical sizeofTable = some (p, phys, k₁))
    (block : BlankBlock s.kernel (fun a => Live s₀.frames s₀.mem dirs a ∨
      CopyMemory s₀.kernel src dir n s.kernel a) sizeofTable p (k₁.withMem m))
    (ran : (List.range 1024).foldlM (fun (s : Machine) i =>
        s.cloneEntry (tableOf s₀.mem src n) p i (undef n i)) ((s.withHeap k₁.heap).withMem m) =
      some t) :
    InRounds s₀ dirs src dir (n + 1) (t.withMem (writeSlot t.mem dir n p (phys ||| 0x7))) := by
  have filled := (rounds.fillable mayClone full index isPrivate off block).loop ran
  have copied := rounds.tableCopied mayClone index isPrivate off block allocated filled
  exact ⟨(copied.copying rounds.copying index isPrivate).of_heap rfl rfl,
    filled.only.pointer.trans rounds.pointer, filled.only.nframes.trans rounds.nframes⟩

/-- One round that returned. -/
theorem InRounds.cloneSlot {s₀ s s' : Machine} (rounds : InRounds s₀ dirs src dir n s)
    (mayClone : MayClone s₀.frames s₀.kernel dirs src) (full : s₀.Full) (index : n < 1024)
    (off : CopiesOff s₀ dirs src undef) (returned : s.cloneSlot src dir n (undef n) = some s') :
    InRounds s₀ dirs src dir (n + 1) s' := by
  by_cases isPrivate : Private s₀.kernel src n
  · have copying := rounds.copying
    have directory : s.kernelDirectory = s₀.kernelDirectory := copying.directory
    have srcTable : tableOf s.mem src n = tableOf s₀.mem src n :=
      copying.tables mayClone.member index
    have kernelTable : tableOf s.mem s₀.kernelDirectory n = tableOf s₀.mem s₀.kernelDirectory n :=
      copying.tables mayClone.sound.member index
    have own : tableOf s₀.mem src n ≠ 0 ∧
      tableOf s₀.mem s₀.kernelDirectory n ≠ tableOf s₀.mem src n := isPrivate
    rw [Machine.cloneSlot, directory, srcTable, kernelTable, if_neg own.1, if_neg own.2] at returned
    obtain ⟨⟨p, phys, t⟩, cloned, rfl⟩ := Option.map_eq_some_iff.mp returned
    obtain ⟨k₁, allocated, ran⟩ := Machine.cloneTable_eq_some cloned
    have placed := copying.placed mayClone index isPrivate allocated
    have block := copying.cleared mayClone index isPrivate placed
    exact rounds.copyTable mayClone full index isPrivate off allocated block ran
  · obtain ⟨s'', passed, done⟩ := rounds.cloneSlot_pass mayClone index isPrivate (undef n)
    rw [returned] at passed
    exact Option.some.inj passed ▸ done

/-! ### `clone_directory` -/

theorem MayClone.top_le (mayClone : MayClone frames k dirs src) :
    topOf k.heap + 0xA000 ≤ 2 ^ 32 := by
  by_cases fresh : k.heap.heapEnd = 0
  · have within := mayClone.space fresh
    unfold reserve at within
    omega
  · have limit : kheapEnd = 0x02000000 := rfl
    have within := mayClone.sound.arena.ordered.top_le fresh
    omega

/-- `memset` clears the new directory. -/
theorem MayClone.cleared (mayClone : MayClone frames k dirs src)
    (placed : PlacedBlock k (Live frames k.mem dirs) sizeofDirectory dir k₁) :
    BlankBlock k (Live frames k.mem dirs) sizeofDirectory dir
      (k₁.withMem (memset k₁.mem dir 0 sizeofDirectory)) := by
  have high := placed.high
  have space := mayClone.top_le
  have fits : dir + sizeofDirectory ≤ 2 ^ 32 := by omega
  refine placed.blankBlock (Or.inr rfl) rfl (fun a outside => ?_) fun a above below => ?_
  · rw [memset_eq_fill _ _ fits]
    exact Memory.fill_outside _ _ outside
  · rw [memset_eq_fill _ _ fits]
    exact Memory.fill_inside _ _ ⟨above, below⟩

/-- The new directory in front of the rounds. -/
theorem MayClone.copying {m : Memory} (mayClone : MayClone frames k dirs src)
    (allocated : k.kmallocAlignedPhysical sizeofDirectory = some (dir, phys, k₁))
    (placed : PlacedBlock k (Live frames k.mem dirs) sizeofDirectory dir k₁)
    (blank : BlankBlock k (Live frames k.mem dirs) sizeofDirectory dir (k₁.withMem m)) :
    Copying frames k dirs src dir 0
      (k₁.withMem (m.write32 (dir + 8192) (wrap32 (phys + 4096)))) := by
  have size : sizeofDirectory = 8196 := rfl
  have sound := mayClone.sound
  have space := mayClone.top_le
  have high := placed.high
  have outside : ∀ a, ¬ Inside dir sizeofDirectory a →
      (m.write32 (dir + 8192) (wrap32 (phys + 4096))) a = m a := by
    intro a apart
    unfold Inside at apart
    exact Memory.write32_outside _ _ (by omega)
  have fresh : ∀ a, Live frames k.mem dirs a → ¬ Inside dir sizeofDirectory a := by
    intro a isLive inDirectory
    have apart := placed.apart a isLive
    unfold Inside at inDirectory
    omega
  have word : ∀ o, o + 4 ≤ 8192 →
      (m.write32 (dir + 8192) (wrap32 (phys + 4096))).read32 (dir + o) = 0 := by
    intro o bound
    rw [Memory.read32_write32_disjoint _ _ (by omega)]
    exact Memory.read32_zero fun b inWord => blank.blank _ (by omega) (by omega)
  exact
    { arena := by
        refine (blank.arena.write (m := m.write32 (dir + 8192) (wrap32 (phys + 4096)))
          fun a => ?_).mono fun a isLive => ?_
        · by_cases inside : Inside dir sizeofDirectory a
          · exact Or.inl (Or.inr inside)
          · exact Or.inr (Or.inr (Or.inr (outside a inside)))
        · rcases isLive with isLive | inside | ⟨i, below, -⟩
          · exact Or.inl isLive
          · exact Or.inr inside
          · exact absurd below (Nat.not_lt_zero i)
      mode := placed.mode
      unused := fun fresh => (placed.unused sound.unused fresh).write _
      directory := placed.directory
      placement := placed.placement
      top := blank.top.trans (by rw [Nat.count_zero]; omega)
      live := fun a isLive => (outside a (fresh a isLive)).trans (blank.kept a isLive)
      page := placed.page
      positive := placed.positive
      low := placed.low
      high := placed.high
      fresh := fresh
      address := by
        refine ⟨phys, lookedUp_of_placed placed sound.member Iff.rfl rfl
          (fun a isLive => ⟨isLive, rfl⟩) (by omega) allocated, ?_⟩
        rw [Kernel.mem_withMem, physicalAddrOf, Memory.read32_write32_same,
          Nat.mod_eq_of_lt (wrap32_lt _)]
      blank := by
        intro i _ bound
        refine ⟨word (4 * i) (by omega), ?_⟩
        rw [tablePhysicalOf, Nat.add_assoc]
        exact word (4096 + 4 * i) (by omega)
      kept := fun i below => absurd below (Nat.not_lt_zero i)
      made := fun i below => absurd below (Nat.not_lt_zero i)
      apart := fun i below => absurd below (Nat.not_lt_zero i) }

theorem MayClone.start (mayClone : MayClone frames k dirs src)
    (allocated : k.kmallocAlignedPhysical sizeofDirectory = some (dir, phys, k₁)) :
    Copying frames k dirs src dir 0 (k₁.withMem
      ((memset k₁.mem dir 0 sizeofDirectory).write32 (dir + 8192) (wrap32 (phys + 4096)))) := by
  have space := mayClone.top_le
  have placement : k.heap.placementPointer ≤ topOf k.heap := Nat.le_max_left _ _
  have block : nextBlock k.heap = k.heap.placementPointer / 0x1000 * 0x1000 + 0x1000 := rfl
  have size : sizeofDirectory = 8196 := rfl
  have placed := mayClone.sound.arena.placedBlock (Or.inr rfl) (fun _ => by omega) allocated
  exact mayClone.copying allocated placed (mayClone.cleared placed)

/-- The directories and tables from before are still there. -/
theorem Copying.keepsTables (copying : Copying frames k dirs src dir n s) :
    KeepsTables k dirs s where
  directory := copying.directory
  tables := fun _ member _ index _ => copying.tables member index
  contents := fun _ member _ a index made inside =>
    copying.live a (Live.table member index made inside)

theorem Copying.keepsKernel (copying : Copying frames k dirs src dir n s)
    (kernel : k.kernelDirectory ∈ dirs) : KeepsKernel k s where
  mode := copying.mode
  directory := copying.directory
  bytes := fun a inKernel => copying.live a (Or.inl ⟨_, kernel, inKernel⟩)

/-- A block at an address that `kernel_directory` maps to itself has that physical address. -/
theorem Copying.lookedUp_eq (copying : Copying frames k dirs src dir n s)
    (kernel : k.kernelDirectory ∈ dirs) {a : Nat} (small : a < 2 ^ 32)
    (identity : IdentityMaps s a) (lookedUp : LookedUp k a phys) : phys = a := by
  have before := ((copying.keepsKernel kernel).identityMaps_iff small).mp identity
  exact (lookedUp before.1).trans (before.physicalOf small)

section Done

variable (copying : Copying frames k dirs src dir 1024 s) (mayClone : MayClone frames k dirs src)
  (placed : IdentityPlaced s (dir :: dirs))

include copying in
/-- A table of the copy is a table of the source or a new one. -/
theorem Copying.table_cases {i : Nat} (index : i < 1024) :
    (¬ Private k src i ∧ tableOf s.mem dir i = tableOf k.mem src i ∧
      tablePhysicalOf s.mem dir i = tablePhysicalOf k.mem src i) ∨ Private k src i := by
  by_cases isPrivate : Private k src i
  · exact Or.inr isPrivate
  · exact Or.inl ⟨isPrivate, copying.kept i index isPrivate⟩

include copying mayClone in
/-- The bytes of the directories behind the call. -/
theorem Copying.inDirectories_done {a : Nat} (inDirs : InDirectories s.mem (dir :: dirs) a) :
    InDirectories k.mem dirs a ∨ CopyMemory k src dir 1024 s a := by
  obtain ⟨d, member, inD⟩ := inDirs
  rcases List.mem_cons.mp member with rfl | memberD
  · rcases inD with inside | ⟨i, index, made, inside⟩
    · exact Or.inr (Or.inl inside)
    · rcases copying.table_cases index with ⟨-, table, -⟩ | isPrivate
      · rw [table] at made inside
        exact Or.inl ⟨src, mayClone.member, Or.inr ⟨i, index, made, inside⟩⟩
      · exact Or.inr (Or.inr ⟨i, index, isPrivate, inside⟩)
  · refine Or.inl ((inDirectories_congr (fun e memberE b inside => ?_) a).mp ⟨d, memberD, inD⟩)
    exact copying.live b (Live.directory memberE inside)

include copying mayClone placed in
/-- The copy is mirrored. -/
theorem Copying.mirrored : Mirrored s.mem dir := by
  have size : sizeofDirectory = 8196 := rfl
  have high := copying.high
  have space := mayClone.top_le
  have kernel := mayClone.sound.member
  have positive := copying.positive
  have isLive : ∀ a, DirectoryMemory s.mem dir a → IdentityMaps s a :=
    fun a inside => placed a ⟨dir, List.mem_cons_self, inside⟩
  refine ⟨copying.page, positive, ?_, fun i index => ?_⟩
  · obtain ⟨phys, lookedUp, stored⟩ := copying.address
    have identity := isLive dir (Or.inl ⟨Nat.le_refl dir, by omega⟩)
    rw [stored, copying.lookedUp_eq kernel (by omega) identity lookedUp, wrap32_of_lt (by omega)]
  · rcases copying.table_cases index with ⟨-, table, physical⟩ | isPrivate
    · rw [table, physical]
      exact (mayClone.sound.laid.mirrored src mayClone.member).slot i index
    · obtain ⟨above, page, phys, lookedUp, stored⟩ := copying.made i index isPrivate
      have small : tableOf s.mem dir i < 2 ^ 32 := s.mem.read32_lt _
      have identity := isLive (tableOf s.mem dir i)
        (Or.inr ⟨i, index, by omega, Nat.le_refl _, Nat.lt_add_of_pos_right (by decide)⟩)
      rw [copying.lookedUp_eq kernel small identity lookedUp,
        Nat.mod_eq_of_lt (Nat.or_lt_two_pow small (by decide))] at stored
      exact Or.inr ⟨by omega, page, stored⟩

include copying mayClone placed in
theorem Copying.laid : Laid s.mem (dir :: dirs) := by
  have laid := mayClone.sound.laid
  have same : ∀ d ∈ dirs, ∀ a, Inside d sizeofDirectory a → s.mem a = k.mem a :=
    fun d member a inside => copying.live a (Live.directory member inside)
  have oldLaid := laid.congr same
  have offNew : ∀ d ∈ dirs, ∀ a, Inside d sizeofDirectory a → ¬ Inside dir sizeofDirectory a :=
    fun d member a inside => copying.fresh a (Live.directory member inside)
  -- No table of the source or of the copy meets a directory.
  have offTables : ∀ i a, i < 1024 → tableOf s.mem dir i ≠ 0 →
      Inside (tableOf s.mem dir i) sizeofTable a →
        ¬ Inside dir sizeofDirectory a ∧ ∀ e ∈ dirs, ¬ Inside e sizeofDirectory a := by
    intro i a index made inside
    rcases copying.table_cases index with ⟨-, table, -⟩ | isPrivate
    · rw [table] at made inside
      exact ⟨copying.fresh a (Live.table mayClone.member index made inside),
        fun e memberE => laid.separate src mayClone.member e memberE i a index made inside⟩
    · obtain ⟨notLive, notNew⟩ := copying.apart i index isPrivate a inside
      exact ⟨notNew, fun e memberE inE => notLive (Live.directory memberE inE)⟩
  constructor
  · intro d member
    rcases List.mem_cons.mp member with rfl | old
    · exact copying.mirrored mayClone placed
    · exact oldLaid.mirrored d old
  · intro d member e memberE different a inside
    rcases List.mem_cons.mp member with rfl | old <;>
      rcases List.mem_cons.mp memberE with rfl | oldE
    · exact absurd rfl different
    · exact fun inE => offNew e oldE a inE inside
    · exact offNew d old a inside
    · exact laid.distinct d old e oldE different a inside
  · intro d member e memberE i a index made inside
    rcases List.mem_cons.mp member with rfl | old <;>
      rcases List.mem_cons.mp memberE with rfl | oldE
    · exact (offTables i a index made inside).1
    · exact (offTables i a index made inside).2 e oldE
    · rw [copying.tables old index] at made inside
      exact copying.fresh a (Live.table old index made inside)
    · exact oldLaid.separate d old e oldE i a index made inside

include copying mayClone placed in
theorem Copying.sound : Sound frames s (dir :: dirs) where
  arena := by
    refine copying.arena.mono fun a isLive => ?_
    rcases isLive with inDirs | inMap
    · exact (copying.inDirectories_done mayClone inDirs).imp_left Or.inl
    · exact Or.inl (Or.inr inMap)
  unused := copying.unused
  member := by
    rw [copying.directory]
    exact List.mem_cons_of_mem dir mayClone.sound.member
  laid := copying.laid mayClone placed
  bitmap := by
    intro a inMap inDirs
    rcases copying.inDirectories_done mayClone inDirs with before | inside |
      ⟨i, index, isPrivate, inTable⟩
    · exact mayClone.sound.bitmap a inMap before
    · exact copying.fresh a (Or.inr inMap) inside
    · exact (copying.apart i index isPrivate a inTable).1 (Or.inr inMap)

end Done

end Copying

section

variable {s s' : Machine} {dirs : List Nat} {src dir : Nat} {undef : Nat → Nat → BitVec 32}

theorem Machine.cloneDirectory_eq_some
    (returned : s.cloneDirectory src undef = some (dir, s')) :
    ∃ phys k₁, s.kernel.kmallocAlignedPhysical sizeofDirectory = some (dir, phys, k₁) ∧
      (List.range 1024).foldlM (fun (s : Machine) i => s.cloneSlot src dir i (undef i))
        ((s.withHeap k₁.heap).withMem ((memset k₁.mem dir 0 sizeofDirectory).write32 (dir + 8192)
          (wrap32 (phys + 4096)))) = some s' := by
  rw [Machine.cloneDirectory, Option.bind_eq_some_iff] at returned
  obtain ⟨⟨dir', phys, s₁⟩, allocated, rest⟩ := returned
  simp only [Option.bind_eq_some_iff, Option.map_eq_some_iff, Prod.mk.injEq] at rest
  obtain ⟨s₂, cleared, t, ran, rfl, rfl⟩ := rest
  obtain ⟨⟨dir'', phys'', k₁⟩, called, same⟩ := Option.map_eq_some_iff.mp allocated
  simp only [Prod.mk.injEq] at same
  obtain ⟨rfl, rfl, rfl⟩ := same
  obtain ⟨k₂, clear, rfl⟩ := Option.map_eq_some_iff.mp cleared
  have isClear := clearDirectory_eq_some clear
  rw [Machine.kernel_withHeap_mem] at isClear
  rw [isClear, Machine.withHeap_cleared, Machine.mem_withMem, Machine.withMem_withMem] at ran
  exact ⟨phys'', k₁, called, ran⟩

/-- The rounds of `clone_directory`, behind the clear of the new directory. -/
theorem MayClone.finish {m : Memory} {k₁ : Kernel}
    (mayClone : MayClone s.frames s.kernel dirs src) (full : s.Full)
    (off : CopiesOff s dirs src undef)
    (start : Copying s.frames s.kernel dirs src dir 0 (k₁.withMem m))
    (ran : (List.range 1024).foldlM (fun (s : Machine) i => s.cloneSlot src dir i (undef i))
      ((s.withHeap k₁.heap).withMem m) = some s') : InRounds s dirs src dir 1024 s' := by
  have first : InRounds s dirs src dir 0 ((s.withHeap k₁.heap).withMem m) :=
    ⟨start.of_heap rfl start.directory.symm, rfl, rfl⟩
  refine foldlM_range_returned _ (InRounds s dirs src dir) ?_ first ran
  intro n t t' index rounds returned
  exact rounds.cloneSlot mayClone full index off returned

/-- `clone_directory` keeps the system in order while its copies stay off the directories. -/
theorem Sound.cloneDirectory (sound : Sound s.frames s.kernel dirs) (full : s.Full)
    (member : src ∈ dirs) (space : s.heap.heapEnd = 0 → reserve s.kernel src ≤ 2 ^ 32)
    (off : CopiesOff s dirs src undef) (returned : s.cloneDirectory src undef = some (dir, s'))
    (placed : IdentityPlaced s'.kernel (dir :: dirs)) :
    Sound s.frames s'.kernel (dir :: dirs) ∧ s.SameMap s' ∧
      KeepsTables s.kernel dirs s'.kernel := by
  have mayClone : MayClone s.frames s.kernel dirs src := ⟨sound, member, space⟩
  obtain ⟨phys, k₁, allocated, ran⟩ := Machine.cloneDirectory_eq_some returned
  have rounds := mayClone.finish full off (mayClone.start allocated) ran
  exact ⟨rounds.copying.sound mayClone placed, rounds.sameMap, rounds.copying.keepsTables⟩

end

end Balloon.Paging
