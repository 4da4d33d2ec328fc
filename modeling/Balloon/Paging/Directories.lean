import Balloon.Allocator.Client
import Balloon.Paging.InMemory
import Balloon.Paging.PageWalk

/-!
Owns the directories of the kernel as one system with the bitmap: `get_page` and `alloc_frame` on
any of them, `clone_directory` and `init_heap` in any order, and what holds of all directories at
once while each of them stays mirrored. The rounds of `clone_directory` are owned by the next
module.
-/

namespace Balloon.Paging

open Balloon.Foundation
open Balloon.Libc
open Balloon.Allocator
open Balloon.Frames

/-! ### The system -/

/-- The machine, its directories, and the entries that `get_page` has returned. -/
structure Paged where
  machine : Machine
  directories : List Nat
  entries : List Nat

inductive PagingCall where
  | getPage (address dir : Nat)
  | allocFrame (page : Nat) (isKernel isWriteable : Bool) (undef : BitVec 32)
  | cloneDirectory (src : Nat) (undef : Nat → Nat → BitVec 32)
  | initHeap

namespace Paged

/-- One call. A call that panics or faults does not return. -/
def step (s : Paged) : PagingCall → Option Paged
  | .getPage address dir => (s.machine.getPage address true dir).map fun (page, t) =>
      { s with machine := t, entries := page :: s.entries }
  | .allocFrame page isKernel isWriteable undef =>
      (s.machine.allocFrame page isKernel isWriteable undef).map fun t => { s with machine := t }
  | .cloneDirectory src undef => (s.machine.cloneDirectory src undef).map fun (dir, t) =>
      { s with machine := t, directories := dir :: s.directories }
  | .initHeap => some { s with machine := s.machine.withHeap s.machine.heap.initHeap }

/-- `get_page` and `clone_directory` are called with a directory, `alloc_frame` with an entry that
`get_page` returned, and `init_heap` once, in front of `KHEAP_END`. -/
def Proper (s : Paged) : PagingCall → Prop
  | .getPage address dir => address < 2 ^ 32 ∧ dir ∈ s.directories
  | .allocFrame page _ _ _ => page ∈ s.entries
  | .cloneDirectory src _ => src ∈ s.directories
  | .initHeap => s.machine.heap.heapEnd = 0 ∧ s.machine.heap.placementPointer + 0x1000 ≤ kheapEnd

end Paged

/-- The bytes of the directories and of their tables. -/
def InDirectories (m : Memory) (dirs : List Nat) (a : Nat) : Prop :=
  ∃ d ∈ dirs, DirectoryMemory m d a

/-- The bytes of the directories, of their tables and of the bitmap at `frames`. -/
def Live (frames : Nat) (m : Memory) (dirs : List Nat) (a : Nat) : Prop :=
  InDirectories m dirs a ∨ Inside frames bitmapSize a

/-- Every directory and every table is at addresses that `kernel_directory` identity-maps. -/
def IdentityPlaced (k : Kernel) (dirs : List Nat) : Prop :=
  ∀ a, InDirectories k.mem dirs a → IdentityMaps k a

/-- `page` is an entry of a table of one of the directories. -/
def IsEntry (m : Memory) (dirs : List Nat) (page : Nat) : Prop :=
  ∃ d ∈ dirs, ∃ i j, i < 1024 ∧ j < 1024 ∧ tableOf m d i ≠ 0 ∧ page = tableOf m d i + 4 * j

/-! ### What holds of all directories -/

/-- The directories are mirrored, and none has a byte of another or of a table. -/
structure Laid (m : Memory) (dirs : List Nat) : Prop where
  mirrored : ∀ d ∈ dirs, Mirrored m d
  distinct : ∀ d ∈ dirs, ∀ e ∈ dirs, d ≠ e → ∀ a, Inside d sizeofDirectory a →
    ¬ Inside e sizeofDirectory a
  separate : ∀ d ∈ dirs, ∀ e ∈ dirs, ∀ i a, i < 1024 → tableOf m d i ≠ 0 →
    Inside (tableOf m d i) sizeofTable a → ¬ Inside e sizeofDirectory a

/-- The variables of the slab allocator are as the program starts with them. -/
structure Unused (h : Heap) : Prop where
  binHead : ∀ b, h.klmallocBinHead b = 0
  bigForward : ∀ i, h.klmallocBigForward i = 0
  bigLevel : h.klmallocBigLevel = 0
  newest : h.klmallocNewestBig = 0

theorem Unused.write {h : Heap} (unused : Unused h) (m : Memory) : Unused { h with mem := m } :=
  ⟨unused.binHead, unused.bigForward, unused.bigLevel, unused.newest⟩

/-- The invariant of the system with the bitmap at `frames`. -/
structure Sound (frames : Nat) (k : Kernel) (dirs : List Nat) : Prop where
  arena : Arena k.heap (Live frames k.mem dirs)
  unused : k.heap.heapEnd = 0 → Unused k.heap
  member : k.kernelDirectory ∈ dirs
  laid : Laid k.mem dirs
  bitmap : ∀ a, Inside frames bitmapSize a → ¬ InDirectories k.mem dirs a

/-- `k'` has the tables that `k` has, with the entries they had. -/
structure KeepsTables (k : Kernel) (dirs : List Nat) (k' : Kernel) : Prop where
  directory : k'.kernelDirectory = k.kernelDirectory
  tables : ∀ d ∈ dirs, ∀ i, i < 1024 → tableOf k.mem d i ≠ 0 →
    tableOf k'.mem d i = tableOf k.mem d i
  contents : ∀ d ∈ dirs, ∀ i a, i < 1024 → tableOf k.mem d i ≠ 0 →
    Inside (tableOf k.mem d i) sizeofTable a → k'.mem a = k.mem a

section

variable {k k₁ k' : Kernel} {s s' : Machine} {m m' : Memory} {dirs : List Nat} {frames dir : Nat}

theorem Laid.congr (laid : Laid m dirs)
    (same : ∀ d ∈ dirs, ∀ a, Inside d sizeofDirectory a → m' a = m a) : Laid m' dirs where
  mirrored := fun d member => (laid.mirrored d member).congr (same d member)
  distinct := laid.distinct
  separate := by
    intro d member e memberE i a index made
    rw [tableOf_congr index (same d member)] at made ⊢
    exact laid.separate d member e memberE i a index made

theorem inDirectories_congr (same : ∀ d ∈ dirs, ∀ a, Inside d sizeofDirectory a → m' a = m a)
    (a : Nat) : InDirectories m' dirs a ↔ InDirectories m dirs a := by
  refine exists_congr fun d => and_congr_right fun member => or_congr_right ?_
  refine exists_congr fun i => and_congr_right fun index => ?_
  rw [tableOf_congr index (same d member)]

theorem live_congr (same : ∀ d ∈ dirs, ∀ a, Inside d sizeofDirectory a → m' a = m a) (a : Nat) :
    Live frames m' dirs a ↔ Live frames m dirs a :=
  or_congr_left (inDirectories_congr same a)

theorem Live.directory {d a : Nat} (member : d ∈ dirs) (inside : Inside d sizeofDirectory a) :
    Live frames m dirs a :=
  Or.inl ⟨d, member, Or.inl inside⟩

theorem Live.table {d i a : Nat} (member : d ∈ dirs) (index : i < 1024)
    (made : tableOf m d i ≠ 0) (inside : Inside (tableOf m d i) sizeofTable a) :
    Live frames m dirs a :=
  Or.inl ⟨d, member, Or.inr ⟨i, index, made, inside⟩⟩

theorem IsEntry.keep {page : Nat} (isEntry : IsEntry m dirs page)
    (tables : ∀ d ∈ dirs, ∀ i, i < 1024 → tableOf m d i ≠ 0 → tableOf m' d i = tableOf m d i) :
    IsEntry m' dirs page := by
  obtain ⟨d, member, i, j, index, bound, made, rfl⟩ := isEntry
  have kept := tables d member i index made
  exact ⟨d, member, i, j, index, bound, kept ▸ made, by rw [kept]⟩

theorem IsEntry.mono {dirs' : List Nat} {page : Nat} (isEntry : IsEntry m dirs page)
    (more : dirs ⊆ dirs') : IsEntry m dirs' page := by
  obtain ⟨d, member, inD⟩ := isEntry
  exact ⟨d, more member, inD⟩

/-- An entry lies in a table, so in no directory. -/
theorem Laid.entry_off (laid : Laid m dirs) {page : Nat} (isEntry : IsEntry m dirs page) {a : Nat}
    (inWord : page ≤ a ∧ a < page + 4) :
    InDirectories m dirs a ∧ ∀ e ∈ dirs, ¬ Inside e sizeofDirectory a := by
  have size : sizeofTable = 0x1000 := rfl
  obtain ⟨d, member, i, j, index, bound, made, rfl⟩ := isEntry
  have inTable : Inside (tableOf m d i) sizeofTable a := ⟨by omega, by omega⟩
  exact ⟨⟨d, member, Or.inr ⟨i, index, made, inTable⟩⟩,
    fun e memberE => laid.separate d member e memberE i a index made inTable⟩

theorem Sound.of_heap (sound : Sound frames k dirs) (heap : k'.heap = k.heap)
    (directory : k'.kernelDirectory = k.kernelDirectory) : Sound frames k' dirs := by
  have mem : k'.mem = k.mem := congrArg Heap.mem heap
  refine ⟨?_, ?_, ?_, ?_, ?_⟩
  · rw [heap, mem]
    exact sound.arena
  · rw [heap]
    exact sound.unused
  · rw [directory]
    exact sound.member
  · rw [mem]
    exact sound.laid
  · rw [mem]
    exact sound.bitmap

theorem Sound.walks_agree (sound : Sound frames k dirs) (member : dir ∈ dirs) {v : Nat}
    (small : v < 2 ^ 32) :
    mmuWalk k.mem (physicalAddrOf k.mem dir) v = kernelWalk k v dir :=
  (sound.laid.mirrored dir member).walks_agree small

/-! ### `alloc_frame` -/

/-- Writes off the directories, and off the allocator's memory where they are not live. -/
theorem Sound.write (sound : Sound frames k dirs)
    (same : ∀ d ∈ dirs, ∀ a, Inside d sizeofDirectory a → m a = k.mem a)
    (harmless : ∀ a, Live frames k.mem dirs a ∨ a < k.heap.placementPointer ∨ topOf k.heap ≤ a ∨
      m a = k.mem a) : Sound frames (k.withMem m) dirs where
  arena := (sound.arena.write harmless).mono fun a => (live_congr same a).mp
  unused := fun fresh => (sound.unused fresh).write m
  member := sound.member
  laid := sound.laid.congr same
  bitmap := fun a inMap inDirs => sound.bitmap a inMap ((inDirectories_congr same a).mp inDirs)

/-- The bit for the frame in the return register is off the directories and off the allocator's
memory. -/
def MarksOff (s : Machine) (dirs : List Nat) (undef : BitVec 32) : Prop :=
  ∀ a, Marks s.frames undef a → ¬ InDirectories s.mem dirs a ∧
    (a < s.heap.placementPointer ∨ topOf s.heap ≤ a)

theorem Sound.allocFrame (sound : Sound s.frames s.kernel dirs) (full : s.Full) {page : Nat}
    {isKernel isWriteable : Bool} {undef : BitVec 32} (isEntry : IsEntry s.mem dirs page)
    (off : (entryAt s.mem page).frame = 0 → MarksOff s dirs undef)
    (returned : s.allocFrame page isKernel isWriteable undef = some s') :
    Sound s.frames s'.kernel dirs ∧ s.SameMap s' ∧
      ∀ d ∈ dirs, ∀ a, Inside d sizeofDirectory a → s'.mem a = s.mem a := by
  rcases Machine.allocFrame_returned returned with ⟨-, rfl⟩ | ⟨blank, given⟩
  · exact ⟨sound, ⟨rfl, rfl, fun _ _ => rfl⟩, fun _ _ _ _ => rfl⟩
  · rw [full.firstFrame] at given
    have offMarks := off blank
    have inEntry : ∀ a, Inside page 4 a → InDirectories s.mem dirs a ∧
        ∀ e ∈ dirs, ¬ Inside e sizeofDirectory a := fun a => sound.laid.entry_off isEntry
    have outside : ∀ a, ¬ Inside page 4 a → ¬ Marks s.frames undef a → s'.mem a = s.mem a := by
      intro a offEntry offWord
      rw [given]
      exact full.giveFrame_outside offEntry offWord
    have same : ∀ d ∈ dirs, ∀ a, Inside d sizeofDirectory a → s'.mem a = s.mem a := by
      intro d member a inside
      refine outside a (fun entry => (inEntry a entry).2 d member inside) fun marks => ?_
      exact (offMarks a marks).1 ⟨d, member, Or.inl inside⟩
    obtain ⟨heap, pointer, nframes, directory⟩ : s'.heap = { s.heap with mem := s'.mem } ∧
        s'.frames = s.frames ∧ s'.nframes = s.nframes ∧
          s'.kernelDirectory = s.kernelDirectory := by
      obtain ⟨w, unfolded⟩ := s.giveFrame_eq page isKernel isWriteable undef.toNat
      rw [given, unfolded]
      exact ⟨rfl, rfl, rfl, rfl⟩
    refine ⟨?_, ⟨pointer, nframes, fun a inMap => ?_⟩, same⟩
    · refine Sound.of_heap (k := s.kernel.withMem s'.mem) ?_ heap directory
      apply sound.write same
      intro a
      by_cases entry : Inside page 4 a
      · exact Or.inl (Or.inl (inEntry a entry).1)
      · by_cases marks : Marks s.frames undef a
        · exact Or.inr ((offMarks a marks).2.imp_right Or.inl)
        · exact Or.inr (Or.inr (Or.inr (outside a entry marks)))
    · refine outside a (fun entry => sound.bitmap a inMap (inEntry a entry).1) fun marks => ?_
      exact full.marks_off marks inMap
/-! ### `get_page` -/

section MakeTable

variable {table phys i : Nat}

/-- The block of a new table does not meet a directory. -/
theorem PlacedBlock.beside (block : PlacedBlock k (Live frames k.mem dirs) sizeofTable table k₁)
    {e : Nat} (member : e ∈ dirs) : e + sizeofDirectory ≤ table ∨ table + 0x1000 ≤ e := by
  have size : sizeofDirectory = 8196 := rfl
  refine (beside_of_apart (p := table) (q := e) (by decide) fun a inside => ?_).symm
  by_contra meets
  have apart := block.apart a (Live.directory member ⟨by omega, by omega⟩)
  unfold Inside at inside
  omega

/-- Off the two words of its slot and off its block, a new table changes nothing. -/
theorem PlacedBlock.made_outside
    (block : PlacedBlock k (Live frames k.mem dirs) sizeofTable table k₁)
    (index : i < 1024) {a : Nat} (isLive : Live frames k.mem dirs a)
    (offDirectory : ¬ Inside dir sizeofDirectory a) :
    makeTable k₁.mem dir i table phys a = k.mem a := by
  have size : sizeofDirectory = 8196 := rfl
  have tableSize : sizeofTable = 0x1000 := rfl
  have small := block.small
  have apart := block.apart a isLive
  unfold Inside at offDirectory
  rw [makeTable_outside _ _ (by omega) (by omega) (by omega) (by omega)]
  exact block.kept a isLive

theorem PlacedBlock.word_kept (block : PlacedBlock k (Live frames k.mem dirs) sizeofTable table k₁)
    (member : dir ∈ dirs) {o : Nat} (inside : o + 4 ≤ sizeofDirectory) :
    k₁.mem.read32 (dir + o) = k.mem.read32 (dir + o) :=
  Memory.read32_congr fun b inWord =>
    block.kept _ (Live.directory member ⟨by omega, by omega⟩)

theorem PlacedBlock.made_tableOf
    (block : PlacedBlock k (Live frames k.mem dirs) sizeofTable table k₁)
    (member : dir ∈ dirs) (index : i < 1024) {j : Nat} (bound : j < 1024) :
    tableOf (makeTable k₁.mem dir i table phys) dir j =
      if j = i then table else tableOf k.mem dir j := by
  have tableSize : sizeofTable = 0x1000 := rfl
  have small := block.small
  have before : tableOf k₁.mem dir j = tableOf k.mem dir j :=
    block.word_kept member (show 4 * j + 4 ≤ 8196 by omega)
  rw [tableOf_makeTable _ _ (by omega) (block.beside member) index bound, before]

/-- The directory with the new table is mirrored, if the table is where `tmp` says. -/
theorem PlacedBlock.made_mirrored
    (block : PlacedBlock k (Live frames k.mem dirs) sizeofTable table k₁)
    (member : dir ∈ dirs) (index : i < 1024) (mirrored : Mirrored k.mem dir)
    (physical : phys = table) : Mirrored (makeTable k₁.mem dir i table phys) dir := by
  have size : sizeofDirectory = 8196 := rfl
  have tableSize : sizeofTable = 0x1000 := rfl
  have small := block.small
  have positive := block.positive
  have beside := block.beside member
  refine ⟨mirrored.page, mirrored.positive, ?_, fun j bound => ?_⟩
  · refine (Memory.read32_congr fun b inWord => ?_).trans
      ((block.word_kept member (show 8192 + 4 ≤ 8196 by decide)).trans mirrored.physicalAddr)
    exact makeTable_outside _ _ (by omega) (by omega) (by omega) (by omega)
  · have before : tablePhysicalOf k₁.mem dir j = tablePhysicalOf k.mem dir j := by
      unfold tablePhysicalOf
      rw [Nat.add_assoc]
      exact block.word_kept member (show 4096 + 4 * j + 4 ≤ 8196 by omega)
    rw [block.made_tableOf member index bound,
      tablePhysicalOf_makeTable _ (by omega) (by omega) beside index bound, before, physical]
    split
    next => exact Or.inr ⟨by omega, block.page, rfl⟩
    next => exact mirrored.slot j bound

/-- The bytes of the directories are those from before and the new table. -/
theorem PlacedBlock.made_inDirectories
    (block : PlacedBlock k (Live frames k.mem dirs) sizeofTable table k₁) (laid : Laid k.mem dirs)
    (member : dir ∈ dirs) (index : i < 1024) {a : Nat}
    (inDirs : InDirectories (makeTable k₁.mem dir i table phys) dirs a) :
    InDirectories k.mem dirs a ∨ Inside table sizeofTable a := by
  obtain ⟨d, memberD, inside | ⟨j, bound, made, inside⟩⟩ := inDirs
  · exact Or.inl ⟨d, memberD, Or.inl inside⟩
  · by_cases same : d = dir
    · subst same
      rw [block.made_tableOf member index bound] at made inside
      split at inside
      next => exact Or.inr inside
      next new =>
        rw [if_neg new] at made
        exact Or.inl ⟨d, memberD, Or.inr ⟨j, bound, made, inside⟩⟩
    · rw [tableOf_congr bound fun b inD => block.made_outside index (Live.directory memberD inD)
        (laid.distinct d memberD dir member same b inD)] at made inside
      exact Or.inl ⟨d, memberD, Or.inr ⟨j, bound, made, inside⟩⟩

/-- The tables that were there are still in their slots. -/
theorem PlacedBlock.made_tables
    (block : PlacedBlock k (Live frames k.mem dirs) sizeofTable table k₁)
    (laid : Laid k.mem dirs) (member : dir ∈ dirs) (index : i < 1024) {e j : Nat}
    (memberE : e ∈ dirs) (bound : j < 1024) (other : ¬ (e = dir ∧ j = i)) :
    tableOf (makeTable k₁.mem dir i table phys) e j = tableOf k.mem e j := by
  by_cases same : e = dir
  · subst same
    rw [block.made_tableOf member index bound, if_neg fun isSlot => other ⟨rfl, isSlot⟩]
  · exact tableOf_congr bound fun b inE => block.made_outside index (Live.directory memberE inE)
      (laid.distinct e memberE dir member same b inE)

theorem PlacedBlock.made_contents
    (block : PlacedBlock k (Live frames k.mem dirs) sizeofTable table k₁)
    (laid : Laid k.mem dirs) (member : dir ∈ dirs) (index : i < 1024) {e j a : Nat}
    (memberE : e ∈ dirs) (bound : j < 1024) (made : tableOf k.mem e j ≠ 0)
    (inside : Inside (tableOf k.mem e j) sizeofTable a) :
    makeTable k₁.mem dir i table phys a = k.mem a :=
  block.made_outside index (Live.table memberE bound made inside)
    (laid.separate e memberE dir member j a bound made inside)

/-- An address that `kernel_directory` maps to itself afterwards, it did when `kmalloc_raw`
looked it up: the entries of the new table are blank. -/
theorem PlacedBlock.made_physical
    (block : PlacedBlock k (Live frames k.mem dirs) sizeofTable table k₁)
    (laid : Laid k.mem dirs) (member : dir ∈ dirs) (kernel : k.kernelDirectory ∈ dirs)
    (index : i < 1024) (returned : k.kmallocAlignedPhysical sizeofTable = some (table, phys, k₁))
    (identity : IdentityMaps (k₁.withMem (makeTable k₁.mem dir i table phys)) table) :
    phys = table := by
  have tableSize : sizeofTable = 0x1000 := rfl
  have small := block.small
  have positive := block.positive
  have bound : tableIndex table < 1024 := tableIndex_lt (by omega)
  obtain ⟨found, present, frame⟩ := identity
  rw [Kernel.kernelDirectory_withMem, Kernel.mem_withMem, block.directory] at found present frame
  obtain ⟨made, entry⟩ := findPage_covered found
  have other : ¬ (k.kernelDirectory = dir ∧ tableIndex table = i) := by
    rintro ⟨isKernel, rfl⟩
    rw [isKernel, block.made_tableOf member index bound, if_pos rfl] at entry
    rw [isKernel, entry, entryAt_zero (makeTable_clear _ _ (by omega) (block.beside member) index
      (by omega))] at frame
    change 0 = _ at frame
    omega
  have kept : tableOf (makeTable k₁.mem dir i table phys) k.kernelDirectory (tableIndex table) =
      tableOf k.mem k.kernelDirectory (tableIndex table) :=
    block.made_tables laid member index kernel bound other
  have tables : tableOf k₁.mem k.kernelDirectory (tableIndex table) =
      tableOf k.mem k.kernelDirectory (tableIndex table) :=
    block.word_kept kernel (show 4 * tableIndex table + 4 ≤ 8196 by omega)
  rw [kept] at made entry
  have lookup : findPage k₁.mem table k.kernelDirectory =
      findPage (makeTable k₁.mem dir i table phys) table k.kernelDirectory :=
    findPage_congr (tables.trans kept.symm)
  have word : entryAt k₁.mem (findPage k₁.mem table k.kernelDirectory) =
      entryAt (makeTable k₁.mem dir i table phys)
        (findPage (makeTable k₁.mem dir i table phys) table k.kernelDirectory) := by
    rw [lookup, entry]
    refine congrArg decode (Memory.read32_congr fun o inWord => ?_)
    have inside : Inside (tableOf k.mem k.kernelDirectory (tableIndex table)) sizeofTable
        (tableOf k.mem k.kernelDirectory (tableIndex table) +
          4 * (table / 0x1000 % 1024) + o) := ⟨by omega, by omega⟩
    rw [block.made_contents laid member index kernel bound made inside]
    exact block.kept _ (Live.table kernel bound made inside)
  have identity : IdentityMaps k₁ table := by
    unfold IdentityMaps
    rw [block.directory, word, lookup]
    exact ⟨found, present, frame⟩
  exact (block.physical returned).trans (identity.physicalOf (by omega))

end MakeTable

theorem PlacedBlock.unused {size p : Nat} {live : Nat → Prop} (block : PlacedBlock k live size p k₁)
    (unused : k.heap.heapEnd = 0 → Unused k.heap) (fresh : k₁.heap.heapEnd = 0) :
    Unused k₁.heap := by
  have wasFresh := block.mode.mp fresh
  have before := unused wasFresh
  rw [block.statics wasFresh]
  exact ⟨before.binHead, before.bigForward, before.bigLevel, before.newest⟩

/-- A new table in a slot that had none. -/
theorem Sound.tableMade (sound : Sound frames k dirs) {table phys i e : Nat}
    (block : PlacedBlock k (Live frames k.mem dirs) sizeofTable table k₁) (member : dir ∈ dirs)
    (index : i < 1024) (allocated : k.kmallocAlignedPhysical sizeofTable = some (table, phys, k₁))
    (absent : tableOf k.mem dir i = 0)
    (placed : IdentityPlaced (k₁.withMem (makeTable k₁.mem dir i table phys)) dirs)
    (bound : e < 1024) :
    Sound frames (k₁.withMem (makeTable k₁.mem dir i table phys)) dirs ∧
      KeepsTables k dirs (k₁.withMem (makeTable k₁.mem dir i table phys)) ∧
        IsEntry (makeTable k₁.mem dir i table phys) dirs (table + 4 * e) ∧
          ∀ a, Inside frames bitmapSize a → makeTable k₁.mem dir i table phys a = k.mem a := by
  have size : sizeofDirectory = 8196 := rfl
  have tableSize : sizeofTable = 0x1000 := rfl
  have positive := block.positive
  have small := block.small
  have laid := sound.laid
  have isNew : tableOf (makeTable k₁.mem dir i table phys) dir i = table := by
    rw [block.made_tableOf member index index, if_pos rfl]
  have made : tableOf (makeTable k₁.mem dir i table phys) dir i ≠ 0 := by omega
  have others : ∀ d ∈ dirs, ∀ j, j < 1024 → tableOf k.mem d j ≠ 0 →
      tableOf (makeTable k₁.mem dir i table phys) d j = tableOf k.mem d j := by
    intro d memberD j boundJ nonzero
    refine block.made_tables laid member index memberD boundJ ?_
    rintro ⟨rfl, rfl⟩
    exact nonzero absent
  have outside : ∀ d ∈ dirs, d ≠ dir → ∀ a, Inside d sizeofDirectory a →
      makeTable k₁.mem dir i table phys a = k.mem a := fun d memberD different a inside =>
    block.made_outside index (Live.directory memberD inside)
      (laid.distinct d memberD dir member different a inside)
  have physical : phys = table := by
    refine block.made_physical laid member sound.member index allocated (placed table ?_)
    refine ⟨dir, member, Or.inr ⟨i, index, made, isNew.le, ?_⟩⟩
    rw [Kernel.mem_withMem, isNew]
    omega
  refine ⟨?_, ?_, ⟨dir, member, i, e, index, bound, made, by rw [isNew]⟩, fun a inMap =>
    block.made_outside index (Or.inr inMap) fun inDirectory =>
      sound.bitmap a inMap ⟨dir, member, Or.inl inDirectory⟩⟩
  · exact
      { arena := by
          have fits := block.fits
          refine (block.arena.write (m := makeTable k₁.mem dir i table phys) fun a => ?_).mono
            fun a isLive => ?_
          · by_cases inTable : Inside table sizeofTable a
            · unfold Inside at inTable
              exact Or.inl (Or.inr ⟨by omega, by omega, by omega⟩)
            · by_cases inDirectory : Inside dir sizeofDirectory a
              · exact Or.inl (Or.inl (Live.directory member inDirectory))
              · unfold Inside at inTable inDirectory
                exact Or.inr (Or.inr (Or.inr
                  (makeTable_outside _ _ (by omega) (by omega) (by omega) (by omega))))
          · rcases isLive with inDirs | inMap
            · rcases block.made_inDirectories laid member index inDirs with before | inTable
              · exact Or.inl (Or.inl before)
              · unfold Inside at inTable
                exact Or.inr ⟨by omega, by omega, by omega⟩
            · exact Or.inl (Or.inr inMap)
        unused := fun fresh => (block.unused sound.unused fresh).write _
        member := by
          rw [Kernel.kernelDirectory_withMem, block.directory]
          exact sound.member
        laid :=
          { mirrored := by
              intro d memberD
              by_cases same : d = dir
              · subst same
                exact block.made_mirrored member index (laid.mirrored d member) physical
              · exact (laid.mirrored d memberD).congr (outside d memberD same)
            distinct := laid.distinct
            separate := by
              intro d memberD e memberE j a boundJ nonzero inside
              by_cases isSlot : d = dir ∧ j = i
              · obtain ⟨rfl, rfl⟩ := isSlot
                rw [Kernel.mem_withMem, isNew] at inside
                have beside := block.beside memberE
                unfold Inside at inside ⊢
                omega
              · rw [Kernel.mem_withMem,
                  block.made_tables laid member index memberD boundJ isSlot] at nonzero inside
                exact laid.separate d memberD e memberE j a boundJ nonzero inside }
        bitmap := by
          intro a inMap inDirs
          rcases block.made_inDirectories laid member index inDirs with before | inTable
          · exact sound.bitmap a inMap before
          · have apart := block.apart a (Or.inr inMap)
            unfold Inside at inTable
            omega }
  · exact ⟨block.directory, others, fun d memberD j a boundJ nonzero inside =>
      block.made_contents laid member index memberD boundJ nonzero inside⟩

theorem Sound.kernelGetPage (sound : Sound frames k dirs) {address page : Nat} (member : dir ∈ dirs)
    (small : address < 2 ^ 32)
    (space : tableOf k.mem dir (tableIndex address) = 0 → BumpSpace k.heap sizeofTable)
    (returned : k.getPage address true dir = some (page, k')) (placed : IdentityPlaced k' dirs) :
    Sound frames k' dirs ∧ KeepsTables k dirs k' ∧ IsEntry k'.mem dirs page ∧
      ∀ a, Inside frames bitmapSize a → k'.mem a = k.mem a := by
  have index := tableIndex_lt small
  rcases getPage_eq_some returned with ⟨covered, rfl, rfl⟩ |
    ⟨absent, table, phys, k₁, allocated, rfl, rfl⟩
  · exact ⟨sound, ⟨rfl, fun _ _ _ _ _ => rfl, fun _ _ _ _ _ _ _ => rfl⟩,
      ⟨dir, member, _, _, index, Nat.mod_lt _ (by decide), covered, findPage_of_table rfl covered⟩,
      fun _ _ => rfl⟩
  · have block := sound.arena.placedBlock (Or.inl rfl) (space absent) allocated
    exact sound.tableMade block member index allocated absent placed (Nat.mod_lt _ (by decide))

theorem getPage_directory {address page : Nat}
    (returned : k.getPage address true dir = some (page, k')) :
    k'.kernelDirectory = k.kernelDirectory := by
  rcases getPage_eq_some returned with ⟨-, -, rfl⟩ | ⟨-, table, phys, k₁, allocated, -, rfl⟩
  · rfl
  · obtain ⟨h, -, -, rfl⟩ := kmallocAlignedPhysical_eq_some allocated
    rfl

theorem IdentityPlaced.of_heap (placed : IdentityPlaced k dirs) (heap : k'.heap = k.heap)
    (directory : k'.kernelDirectory = k.kernelDirectory) : IdentityPlaced k' dirs := by
  have mem : k'.mem = k.mem := congrArg Heap.mem heap
  intro a inDirs
  unfold IdentityMaps
  rw [mem, directory]
  exact placed a (mem ▸ inDirs)

/-- `get_page(address, 1, dir)` keeps the system in order, and what it returns is an entry. -/
theorem Sound.getPage (sound : Sound s.frames s.kernel dirs) {address page : Nat}
    (member : dir ∈ dirs) (small : address < 2 ^ 32)
    (space : tableOf s.mem dir (tableIndex address) = 0 → BumpSpace s.heap sizeofTable)
    (returned : s.getPage address true dir = some (page, s'))
    (placed : IdentityPlaced s'.kernel dirs) :
    Sound s.frames s'.kernel dirs ∧ s.SameMap s' ∧ KeepsTables s.kernel dirs s'.kernel ∧
      IsEntry s'.mem dirs page := by
  obtain ⟨⟨page', k⟩, looked, same⟩ := Option.map_eq_some_iff.mp returned
  obtain ⟨rfl, rfl⟩ := Prod.mk.inj same
  have directory : k.kernelDirectory = s.kernelDirectory := getPage_directory looked
  obtain ⟨sound', keeps, isEntry, bitmap⟩ :=
    sound.kernelGetPage member small space looked (placed.of_heap rfl directory)
  exact ⟨sound'.of_heap rfl directory.symm, ⟨rfl, rfl, bitmap⟩,
    ⟨rfl, keeps.tables, keeps.contents⟩, isEntry⟩

/-! ### `init_heap` -/

theorem Arena.initHeap {h : Heap} {live : Nat → Prop} (arena : Arena h live) (fresh : h.heapEnd = 0)
    (unused : Unused h) (room : h.placementPointer + 0x1000 ≤ kheapEnd) :
    Arena h.initHeap live := by
  have limit : kheapEnd = 0x02000000 := rfl
  have heapEnd : h.initHeap.heapEnd = (h.placementPointer + 0x1000) / 0x1000 * 0x1000 := by
    rw [← wrap32_of_lt (show h.placementPointer + 0x1000 < 2 ^ 32 by omega)]
    rfl
  cases arena with
  | slots wf noTight held => exact absurd fresh wf.heapEnd_pos.ne'
  | bump fresh low below =>
      refine @Arena.slots _ _ h.initHeap.heapEnd Client.emptyLayout ?_ ?_ fun a isLive => ?_
      · refine Client.wellFormed_empty rfl ?_ ?_ ?_ unused.binHead unused.bigForward unused.bigLevel
          unused.newest
        · omega
        · change h.placementPointer < _
          omega
        · omega
      · exact fun x n free => absurd free List.not_mem_nil
      · have before := below a isLive
        exact Or.inl (by omega)

theorem Sound.initHeap (sound : Sound frames k dirs) (fresh : k.heap.heapEnd = 0)
    (room : k.heap.placementPointer + 0x1000 ≤ kheapEnd) :
    Sound frames { k with heap := k.heap.initHeap } dirs where
  arena := sound.arena.initHeap fresh (sound.unused fresh) room
  unused := fun _ =>
    ⟨(sound.unused fresh).binHead, (sound.unused fresh).bigForward, (sound.unused fresh).bigLevel,
      (sound.unused fresh).newest⟩
  member := sound.member
  laid := sound.laid
  bitmap := sound.bitmap

end

end Balloon.Paging
