import Balloon.Ramdisk.Mount
import Balloon.Allocator.Exhaustion

/-!
Owns the mounted file system as its users see it: node names, read as C
strings, and the bytes `read_fs` delivers. `ramfs_mount` writes neither a
terminator behind the name nor the field `inode`, through which `ramfs_read`
finds the header, so both are right only when the stale words of the node array
happen to be.
-/

namespace Balloon.Ramdisk

open Balloon.Foundation
open Balloon.Libc
open Balloon.Allocator

/-! ### What users expect -/

/-- The node's name, read as a C string in `m`, is the header's name in `m₀`. -/
def NameOk (m₀ m : Memory) (header node : Nat) : Prop :=
  ∃ len, CString m₀ (header + 1) len ∧ CString m node len ∧
    ∀ k, k < len → m (node + k) = m₀ (header + 1 + k)

/-- The number of bytes at `offset` that a file of this length has to offer. -/
def available (length offset size : Nat) : Nat :=
  if offset > length then 0 else min size (length - offset)

/-- The header `ramfs_read` takes for a node. -/
def selected (start : Nat) (m : Memory) (node : Nat) : Nat := fileHeader start (inodeOf m node)

/-- The number of bytes that `ramfs_read` hands to `memcpy`. -/
def copied (start : Nat) (m : Memory) (node offset size : Nat) : Nat :=
  available (lengthOf m (selected start m node)) offset size

/-- The buffer does not overlap the memory that `ramfs_read` hands to `memcpy`. -/
def Apart (start : Nat) (m : Memory) (node offset size buffer : Nat) : Prop :=
  ∀ j k, j < size → k < size →
    wrap32 (offsetOf m (selected start m node) + offset + j) ≠ buffer + k

/-- Reading from the node delivers the bytes of the file at `first`. -/
def Delivers (readAddr start : Nat) (m : Memory) (node first length : Nat) : Prop :=
  ∀ offset size buffer, offset + size < 2 ^ 32 →
    buffer + copied start m node offset size ≤ 2 ^ 32 →
    Apart start m node offset (copied start m node offset size) buffer →
    ∃ m', readFs readAddr start m node offset size buffer =
        some (available length offset size, m') ∧
      ∀ k, k < available length offset size → m' (buffer + k) = m (first + offset + k)

/-- The header has this length and names these bytes. -/
def SameFile (m : Memory) (header first length : Nat) : Prop :=
  lengthOf m header = length ∧
    ∀ k, k < length → m (wrap32 (offsetOf m header + k)) = m (first + k)

/-! ### Reading -/

variable {m₀ m : Memory} {readAddr start node first length : Nat}

/-- The two range tests of `ramfs_read`, while the sum does not wrap around. -/
theorem readCount {length offset size : Nat} (noWrap : offset + size < 2 ^ 32)
    (inFile : ¬ offset > length) :
    (if wrap32 (offset + size) > length then length - offset else size) =
      available length offset size := by
  rw [available, if_neg inFile, wrap32_of_lt noWrap]
  split <;> omega

/-- What one call of `ramfs_read` returns. -/
theorem ramfsRead_spec {offset size buffer : Nat}
    (noWrap : offset > lengthOf m (selected start m node) ∨ offset + size < 2 ^ 32)
    (fits : buffer + available (lengthOf m (selected start m node)) offset size ≤ 2 ^ 32)
    (apart : Apart start m node offset
      (available (lengthOf m (selected start m node)) offset size) buffer) :
    ∃ m', ramfsRead start m node offset size buffer =
        (available (lengthOf m (selected start m node)) offset size, m') ∧
      (∀ k, k < available (lengthOf m (selected start m node)) offset size →
        m' (buffer + k) = m (wrap32 (offsetOf m (selected start m node) + offset + k))) ∧
      ∀ a, a < buffer ∨ buffer + available (lengthOf m (selected start m node)) offset size ≤ a →
        m' a = m a := by
  have isSelected : fileHeader start (inodeOf m node) = selected start m node := rfl
  by_cases past : offset > lengthOf m (selected start m node)
  · have none : available (lengthOf m (selected start m node)) offset size = 0 := if_pos past
    rw [none]
    refine ⟨m, ?_, nofun, fun _ _ => rfl⟩
    rw [ramfsRead, isSelected]
    exact if_pos past
  · refine ⟨memcpy m buffer (wrap32 (offsetOf m (selected start m node) + offset))
      (available (lengthOf m (selected start m node)) offset size), ?_, fun k inside => ?_,
      fun a outside => memcpy_outside m fits outside⟩
    · rw [ramfsRead, isSelected]
      dsimp only
      rw [if_neg past, readCount (noWrap.resolve_left past) past]
    · rw [memcpy_inside m fits (wrap32_lt _) ?_ inside, wrap32_add]
      intro i j belowI belowJ
      rw [wrap32_add]
      exact apart i j belowI belowJ

theorem copied_le (start : Nat) (m : Memory) (node offset size : Nat) :
    copied start m node offset size ≤ size := by
  unfold copied available
  split <;> omega

/-- What one call of `read_fs` returns. -/
theorem readFs_spec (read : readOf m node = readAddr) (nonzero : readAddr ≠ 0) {offset size : Nat}
    (noWrap : offset + size < 2 ^ 32) {buffer : Nat}
    (fits : buffer + copied start m node offset size ≤ 2 ^ 32)
    (apart : Apart start m node offset (copied start m node offset size) buffer) :
    ∃ m', readFs readAddr start m node offset size buffer =
        some (copied start m node offset size, m') ∧
      ∀ k, k < copied start m node offset size →
        m' (buffer + k) = m (wrap32 (offsetOf m (selected start m node) + offset + k)) := by
  obtain ⟨m', returned, bytes, -⟩ := ramfsRead_spec (Or.inr noWrap) fits apart
  refine ⟨m', ?_, bytes⟩
  rw [readFs, read, if_neg nonzero, if_pos rfl, returned]
  rfl

theorem delivers_of_sameFile (read : readOf m node = readAddr) (nonzero : readAddr ≠ 0)
    (sameFile : SameFile m (selected start m node) first length) :
    Delivers readAddr start m node first length := by
  intro offset size buffer noWrap fits apart
  obtain ⟨m', returned, bytes⟩ := readFs_spec read nonzero noWrap fits apart
  rw [copied, sameFile.1] at returned bytes
  refine ⟨m', returned, fun k inside => ?_⟩
  have within : offset + k < length := by
    unfold available at inside
    split at inside <;> omega
  rw [bytes k inside, Nat.add_assoc, Nat.add_assoc]
  exact sameFile.2 _ within

/-- Reads of single bytes tell where the file ends and what it holds. -/
theorem sameFile_of_delivers (read : readOf m node = readAddr) (nonzero : readAddr ≠ 0)
    (small : length < 2 ^ 32 - 1) (delivers : Delivers readAddr start m node first length) :
    SameFile m (selected start m node) first length := by
  have lengthLt := lengthOf_lt m (selected start m node)
  -- One of two bytes is apart from the byte to be read.
  have readByte : ∀ offset, offset + 1 < 2 ^ 32 →
      (offset < lengthOf m (selected start m node) ↔ offset < length) ∧ (offset < length →
        m (wrap32 (offsetOf m (selected start m node) + offset)) = m (first + offset)) := by
    intro offset noWrap
    obtain ⟨buffer, fits, apart⟩ : ∃ buffer, buffer + 1 ≤ 2 ^ 32 ∧
        wrap32 (offsetOf m (selected start m node) + offset) ≠ buffer := by
      by_cases taken : wrap32 (offsetOf m (selected start m node) + offset) = 0x40000000
      · exact ⟨0x40000001, by omega, by omega⟩
      · exact ⟨0x40000000, by omega, taken⟩
    have atMostOne := copied_le start m node offset 1
    have fits' : buffer + copied start m node offset 1 ≤ 2 ^ 32 := by omega
    have apart' : Apart start m node offset (copied start m node offset 1) buffer := by
      intro j k belowJ belowK
      obtain rfl : j = 0 := by omega
      obtain rfl : k = 0 := by omega
      exact apart
    obtain ⟨m', returned, bytes⟩ := readFs_spec read nonzero noWrap fits' apart'
    obtain ⟨m'', returned', bytes'⟩ := delivers offset 1 buffer noWrap fits' apart'
    obtain ⟨count, rfl⟩ := Prod.mk.inj (Option.some.inj (returned.symm.trans returned'))
    have sameEnd : offset < lengthOf m (selected start m node) ↔ offset < length := by
      unfold copied available at count
      split at count <;> split at count <;> omega
    refine ⟨sameEnd, fun inside => ?_⟩
    have one : available length offset 1 = 1 := by
      rw [available, if_neg (by omega)]
      omega
    rw [one] at bytes'
    rw [count, one] at bytes
    exact (bytes 0 Nat.one_pos).symm.trans (bytes' 0 Nat.one_pos)
  have notPast := (readByte length (by omega)).1
  have upTo : lengthOf m (selected start m node) ≤ length := by omega
  have notBefore := (readByte (lengthOf m (selected start m node)) (by omega)).1
  refine ⟨by omega, fun k inside => (readByte k (by omega)).2 inside⟩

/-! ### After mounting -/

/-- `ramfs_mount` returns, with every file mounted. -/
theorem ramfsMount_spec {h h₁ : Heap} {base nodes modsAddr start stop : Nat} {L : Layout}
    (wf : WellFormed h base L) (isStart : h.mem.read32 modsAddr = start)
    (image : Image h.mem start stop) (below : stop ≤ h.placementPointer)
    (some_file : 0 < h.mem.read32 start) (addrLt : readAddr < 2 ^ 32)
    (allocated : h.kmallocMapped (wrap32 (sizeofNode * h.mem.read32 start)) = some (nodes, h₁)) :
    ∃ fs len, ramfsMount readAddr modsAddr h = some fs ∧ fs.ramfsHeader = start ∧
      fs.ramfsNodes = nodes ∧ Placement h₁.mem start nodes (h₁.mem.read32 start) len ∧
      Mounted h₁.mem fs.heap.mem readAddr start nodes len (h₁.mem.read32 start) ∧
      ∀ a, a < base → h₁.mem a = h.mem a := by
  have table := image.table
  have placementLt := wf.placementLt
  have baseLe := wf.baseLe
  have endLe := wf.endLe
  have asked : wrap32 (sizeofNode * h.mem.read32 start) = 160 * h.mem.read32 start :=
    wrap32_of_lt (by unfold sizeofNode; omega)
  rw [asked] at allocated
  obtain ⟨hi, L', step, slot, -, room⟩ := wf.kmallocMapped (by omega) (by omega) allocated
  have range := step.wf.slot_range slot
  have endLe' := step.wf.endLe
  have same : ∀ a, a < base → h₁.mem a = h.mem a := fun a low => step.bytes a (Or.inl low)
  have sameWord : ∀ a, a + 4 ≤ base → h₁.mem.read32 a = h.mem.read32 a := fun a low =>
    Memory.read32_congr fun k bound => same _ (by omega)
  have nfiles : h₁.mem.read32 start = h.mem.read32 start := sameWord _ (by omega)
  choose len short string using image.names
  have place : Placement h₁.mem start nodes (h₁.mem.read32 start)
      fun i => if inside : i < h.mem.read32 start then len i inside else 0 := by
    rw [nfiles]
    refine ⟨by omega, by omega, fun i inside => ?_, fun i inside => ?_, fun i inside => ?_⟩
    · rw [dif_pos inside]
      exact short i inside
    · rw [dif_pos inside]
      have shortName := short i inside
      exact (string i inside).congr fun k bound => same _ (by omega)
    · have rangeOk := image.ranges i inside
      rw [sameWord _ (by omega)]
      omega
  obtain ⟨m, looped, mounted⟩ := (mounted_zero h₁.mem readAddr start nodes _).loop place
    (Nat.zero_le _) addrLt (h₁.mem.read32 start + 1) (by omega)
  refine ⟨{ heap := { h₁ with mem := m }, ramfsHeader := start, ramfsNodes := nodes }, _, ?_, rfl,
    rfl, place, mounted, same⟩
  simp only [ramfsMount, isStart, asked, allocated, Option.bind_some, looped, Option.map_some]

/-- A node has its header's name exactly when the stale byte behind the copied
characters is zero. -/
theorem Mounted.nameOk_iff {nodes n i : Nat} {len : Nat → Nat}
    (mounted : Mounted m₀ m readAddr start nodes len n) (place : Placement m₀ start nodes n len)
    (inside : i < n) :
    NameOk m₀ m (start + 4 + 73 * i) (nodes + 160 * i) ↔
      m₀ (nodes + 160 * i + len i) = 0 := by
  have short := place.short i inside
  have stale := mounted.nodeRest place (Nat.le_refl n) inside (len i) (Nat.le_refl _) (by omega)
  have string := place.string i inside
  constructor
  · rintro ⟨len', string', nodeString, -⟩
    obtain rfl := string'.unique string
    rw [← stale]
    exact nodeString.nul
  · intro zero
    refine ⟨len i, string, ?_, mounted.name i inside⟩
    refine string.congr fun k bound => ?_
    rcases Nat.lt_or_eq_of_le bound with before | rfl
    · exact mounted.name i inside k before
    · rw [stale, zero, string.nul]

/-- A node delivers its file exactly when its stale `inode` selects a header with
the same length and bytes. -/
theorem Mounted.delivers_iff {nodes n i : Nat} {len : Nat → Nat}
    (mounted : Mounted m₀ m readAddr start nodes len n) (place : Placement m₀ start nodes n len)
    (inside : i < n) (nonzero : readAddr ≠ 0) (small : length < 2 ^ 32 - 1) :
    Delivers readAddr start m (nodes + 160 * i) first length ↔
      SameFile m (fileHeader start (inodeOf m₀ (nodes + 160 * i))) first length := by
  have short := place.short i inside
  have inode : inodeOf m (nodes + 160 * i) = inodeOf m₀ (nodes + 160 * i) :=
    Memory.read32_congr fun k bound => by
      rw [Nat.add_assoc]
      exact mounted.nodeRest place (Nat.le_refl n) inside _ (by omega) (by omega)
  rw [← inode]
  exact ⟨sameFile_of_delivers (mounted.read i inside) nonzero small,
    delivers_of_sameFile (mounted.read i inside) nonzero⟩

/-- After mounting, every node has its file's name and delivers its bytes
exactly when the stale byte behind each name is zero and each stale `inode`
selects a header with the file's length and bytes. -/
theorem filesOk_iff_stale {h h₁ : Heap} {base nodes modsAddr stop : Nat} {L : Layout}
    (wf : WellFormed h base L) (isStart : h.mem.read32 modsAddr = start)
    (image : Image h.mem start stop) (below : stop ≤ h.placementPointer) (nonzero : readAddr ≠ 0)
    (addrLt : readAddr < 2 ^ 32)
    (allocated : h.kmallocMapped (wrap32 (sizeofNode * h.mem.read32 start)) = some (nodes, h₁))
    {fs : Ramfs} (returned : ramfsMount readAddr modsAddr h = some fs) :
    (∀ i, i < h.mem.read32 start →
      NameOk h.mem fs.heap.mem (start + 4 + 73 * i) (fs.ramfsNodes + 160 * i) ∧
      Delivers readAddr fs.ramfsHeader fs.heap.mem (fs.ramfsNodes + 160 * i)
        (start + h.mem.read32 (start + 4 + 73 * i + 65))
        (h.mem.read32 (start + 4 + 73 * i + 69))) ↔
    ∀ i, i < h.mem.read32 start →
      (∀ len, CString h.mem (start + 4 + 73 * i + 1) len →
        h₁.mem (nodes + 160 * i + len) = 0) ∧
      SameFile fs.heap.mem (fileHeader start (inodeOf h₁.mem (nodes + 160 * i)))
        (start + h.mem.read32 (start + 4 + 73 * i + 65))
        (h.mem.read32 (start + 4 + 73 * i + 69)) := by
  refine forall₂_congr fun i inside => ?_
  obtain ⟨fs', len, returned', header, nodesEq, place, mounted, same⟩ :=
    ramfsMount_spec wf isStart image below (Nat.zero_lt_of_lt inside) addrLt allocated
  obtain rfl := Option.some.inj (returned'.symm.trans returned)
  have table := image.table
  have ranges := image.ranges i inside
  have placementLt := wf.placementLt
  have baseLe := wf.baseLe
  have endLe := wf.endLe
  have nfiles : h₁.mem.read32 start = h.mem.read32 start :=
    Memory.read32_congr fun k bound => same _ (by omega)
  rw [nfiles] at place mounted
  have short := place.short i inside
  have string : CString h.mem (start + 4 + 73 * i + 1) (len i) :=
    (place.string i inside).congr fun k bound => (same _ (by omega)).symm
  have nameIff : NameOk h.mem fs'.heap.mem (start + 4 + 73 * i) (nodes + 160 * i) ↔
      NameOk h₁.mem fs'.heap.mem (start + 4 + 73 * i) (nodes + 160 * i) := by
    constructor
    · rintro ⟨len', string', nodeString, chars⟩
      obtain rfl := string'.unique string
      refine ⟨_, place.string i inside, nodeString, fun k bound => ?_⟩
      rw [chars k bound, same _ (by omega)]
    · rintro ⟨len', string', nodeString, chars⟩
      obtain rfl := string'.unique (place.string i inside)
      refine ⟨_, string, nodeString, fun k bound => ?_⟩
      rw [chars k bound, same _ (by omega)]
  rw [nodesEq, header, nameIff, mounted.nameOk_iff place inside,
    mounted.delivers_iff place inside nonzero (by omega)]
  refine and_congr_left fun _ => ⟨fun zero len' string' => ?_, fun all => all _ string⟩
  rw [string'.unique string]
  exact zero

/-! ### Thirteen files on a fresh heap -/

/-- A ramdisk image at `0x1000`, named by the module list at `0x500`: thirteen
files, all named `"a"`, of which the second holds one byte and the others
none. -/
def thirteenFiles : Memory := fun a =>
  if a = 0x501 then 0x10
  else if a = 0x1000 then 13
  else if a = 0x1004 + 73 + 69 then 1
  else if 0x1004 ≤ a ∧ a < 0x1004 + 73 * 13 ∧ (a - 0x1004) % 73 = 1 then 0x61
  else 0

def thirteenHeap : Heap := (Client.started thirteenFiles 0x2000 []).heap

theorem thirteenFiles_image : thirteenFiles.read32 0x500 = 0x1000 ∧
    thirteenFiles.read32 0x1000 = 13 ∧ Image thirteenFiles 0x1000 0x2000 := by
  have nfiles : thirteenFiles.read32 0x1000 = 13 := by decide
  have bytes : ∀ i, i < 13 → thirteenFiles (0x1000 + 4 + 73 * i + 1 + 1) = 0 ∧
      thirteenFiles (0x1000 + 4 + 73 * i + 1 + 0) ≠ 0 ∧
      0x1000 + thirteenFiles.read32 (0x1000 + 4 + 73 * i + 65) +
        thirteenFiles.read32 (0x1000 + 4 + 73 * i + 69) ≤ 0x2000 := by decide
  refine ⟨by decide, nfiles, by rw [nfiles]; decide, fun i inside => ?_, fun i inside => ?_⟩
  · rw [nfiles] at inside
    obtain ⟨nul, char, -⟩ := bytes i inside
    refine ⟨1, by decide, nul, fun k bound => ?_⟩
    obtain rfl : k = 0 := by omega
    exact char
  · rw [nfiles] at inside
    exact (bytes i inside).2.2

/-- The thirteen files mount, and every node's stale words are zero. -/
theorem thirteenFiles_mount : ∃ base nodes h₁ fs, WellFormed thirteenHeap base Client.emptyLayout ∧
    thirteenHeap.kmallocMapped (wrap32 (sizeofNode * thirteenHeap.mem.read32 0x1000)) =
      some (nodes, h₁) ∧ ramfsMount 0x100000 0x500 thirteenHeap = some fs ∧
    ∀ o, o < 160 * 13 → h₁.mem (nodes + o) = 0 := by
  obtain ⟨isStart, nfiles, image⟩ := thirteenFiles_image
  obtain ⟨base, managed⟩ :=
    Client.managed_started thirteenFiles (Client.bumped_nil 0x2000) (by decide)
  have wf : WellFormed thirteenHeap base Client.emptyLayout := managed.wf
  have heapEnd : thirteenHeap.heapEnd = 0x3000 := by decide
  have pages : bigPages 2080 = 1 := by decide
  have limit : kheapEnd = 0x02000000 := rfl
  have files : thirteenHeap.mem.read32 0x1000 = 13 := nfiles
  have asked : wrap32 (sizeofNode * thirteenHeap.mem.read32 0x1000) = 2080 := by
    rw [files]
    decide
  obtain ⟨returned, grown⟩ := newBigBin_returns thirteenHeap 2080
  generalize grownHeap : (thirteenHeap.newBigBin 2080).2 = h₁ at grown
  have served : thirteenHeap.kmallocMapped 2080 = some (0x3030, h₁) := by
    have big : klmallocBinSize 2080 = 10 := by decide
    have asks : thirteenHeap.kmalloc 2080 = some (thirteenHeap.newBigBin 2080) := by
      rw [Heap.kmalloc, Heap.kmallocRaw, if_pos (by rw [heapEnd]; decide), if_neg (by decide),
        Heap.klmalloc, if_neg (by decide), big, if_neg (by decide)]
      exact wf.klmallocBig_grow rfl
    have start : (thirteenHeap.newBigBin 2080).1 = 0x3030 := by
      rw [returned, heapEnd]
      decide
    have within : h₁.heapEnd ≤ kheapEnd := by
      rw [grown, heapEnd]
      decide
    rw [Heap.kmallocMapped, asks]
    refine Option.filter_eq_some_iff.mpr ⟨?_, by simpa using within⟩
    rw [← start, ← grownHeap]
  rw [← asked] at served
  obtain ⟨fs, len, mounted, -⟩ := ramfsMount_spec wf isStart image (Nat.le_refl 0x2000)
    (by rw [files]; decide) (show 0x100000 < 2 ^ 32 by decide) served
  refine ⟨base, 0x3030, _, fs, wf, served, mounted, fun o inside => ?_⟩
  rw [← grownHeap]
  exact newBigBin_zero rfl (by rw [heapEnd, pages]; decide) (by rw [heapEnd, pages]; omega)

/-- What `filesOk_iff_stale` says about the thirteen files. -/
theorem filesOk_iff_stale_thirteen :
    ∃ (nodes : Nat) (h₁ : Heap) (fs : Ramfs),
      ramfsMount 0x100000 0x500 thirteenHeap = some fs ∧ ((∀ i, i < thirteenHeap.mem.read32 0x1000 →
        NameOk thirteenHeap.mem fs.heap.mem (0x1000 + 4 + 73 * i) (fs.ramfsNodes + 160 * i) ∧
        Delivers 0x100000 fs.ramfsHeader fs.heap.mem (fs.ramfsNodes + 160 * i)
          (0x1000 + thirteenHeap.mem.read32 (0x1000 + 4 + 73 * i + 65))
          (thirteenHeap.mem.read32 (0x1000 + 4 + 73 * i + 69))) ↔
      ∀ i, i < thirteenHeap.mem.read32 0x1000 →
        (∀ len, CString thirteenHeap.mem (0x1000 + 4 + 73 * i + 1) len →
          h₁.mem (nodes + 160 * i + len) = 0) ∧
        SameFile fs.heap.mem (fileHeader 0x1000 (inodeOf h₁.mem (nodes + 160 * i)))
          (0x1000 + thirteenHeap.mem.read32 (0x1000 + 4 + 73 * i + 65))
          (thirteenHeap.mem.read32 (0x1000 + 4 + 73 * i + 69))) := by
  obtain ⟨base, nodes, h₁, fs, wf, allocated, mounted, -⟩ := thirteenFiles_mount
  obtain ⟨isStart, -, image⟩ := thirteenFiles_image
  exact ⟨nodes, h₁, fs, mounted, filesOk_iff_stale wf isStart image (Nat.le_refl 0x2000)
    (by decide) (by decide) allocated mounted⟩

/-- On the fresh heap every `inode` is zero, and the second file cannot be
read. -/
theorem zero_inode_reads_first_file :
    ¬ ∀ (h h₁ : Heap) (base nodes modsAddr start stop readAddr : Nat) (L : Layout) (fs : Ramfs),
      WellFormed h base L → h.mem.read32 modsAddr = start → Image h.mem start stop →
      stop ≤ h.placementPointer → readAddr ≠ 0 → readAddr < 2 ^ 32 →
      h.kmallocMapped (wrap32 (sizeofNode * h.mem.read32 start)) = some (nodes, h₁) →
      ramfsMount readAddr modsAddr h = some fs → ∀ i, i < h.mem.read32 start →
        NameOk h.mem fs.heap.mem (start + 4 + 73 * i) (fs.ramfsNodes + 160 * i) ∧
        Delivers readAddr fs.ramfsHeader fs.heap.mem (fs.ramfsNodes + 160 * i)
          (start + h.mem.read32 (start + 4 + 73 * i + 65))
          (h.mem.read32 (start + 4 + 73 * i + 69)) := by
  intro always
  obtain ⟨base, nodes, h₁, fs, wf, allocated, mounted, zero⟩ := thirteenFiles_mount
  obtain ⟨isStart, nfiles, image⟩ := thirteenFiles_image
  have files : thirteenHeap.mem.read32 0x1000 = 13 := nfiles
  obtain ⟨-, delivers⟩ := always _ _ _ _ _ _ _ _ _ _ wf isStart image (Nat.le_refl 0x2000)
    (by decide) (by decide : 0x100000 < 2 ^ 32) allocated mounted 1 (by rw [files]; decide)
  obtain ⟨fs', len, mounted', header, nodesEq, place, table, same⟩ :=
    ramfsMount_spec wf isStart image (Nat.le_refl 0x2000) (by rw [files]; decide)
      (by decide : 0x100000 < 2 ^ 32) allocated
  obtain rfl := Option.some.inj (mounted'.symm.trans mounted)
  have placement : thirteenHeap.placementPointer = 0x2000 := rfl
  have placementLt := wf.placementLt
  have nfiles' : h₁.mem.read32 0x1000 = 13 :=
    (Memory.read32_congr fun k bound => same _ (by omega)).trans nfiles
  rw [nfiles'] at place table
  have inode : inodeOf h₁.mem (nodes + 160 * 1) = 0 := by
    have zeros : ∀ o, o < 4 → h₁.mem (nodes + 160 * 1 + 144 + o) = 0 := fun o low => by
      rw [Nat.add_assoc, Nat.add_assoc]
      exact zero _ (by omega)
    simp only [inodeOf, Memory.read32, zeros 0 (by decide), zeros 1 (by decide),
      zeros 2 (by decide), zeros 3 (by decide)]
    decide
  rw [header, nodesEq] at delivers
  have sameFile :=
    (table.delivers_iff place (by decide : 1 < 13) (by decide) (by decide)).mp delivers
  rw [inode] at sameFile
  have first : lengthOf fs'.heap.mem (fileHeader 0x1000 0) = 0 := by
    have kept : fs'.heap.mem.read32 (0x1000 + 4 + 73 * 0 + 69) =
        thirteenHeap.mem.read32 (0x1000 + 4 + 73 * 0 + 69) :=
      Memory.read32_congr fun k bound => by
        rw [Nat.add_assoc (0x1000 + 4 + 73 * 0)]
        exact (table.headerRest place (by decide : 0 < 13) _ (by omega)).trans (same _ (by omega))
    exact (addressed_read32 _ (by decide)).trans (kept.trans (by decide))
  exact absurd (first.symm.trans sameFile.1) (by decide)

end Balloon.Ramdisk
