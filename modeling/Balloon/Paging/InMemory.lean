import Balloon.Paging.Clone
import Balloon.Paging.FrameStorage

/-!
Owns the embedding of paging.c and task.c with the frame bitmap where `init_paging` puts it: in
memory, at the address that `frames` holds. A frame that is marked is a bit of a memory word, and
whatever else lies at that word changes with it.

`get_page`, `kmalloc_aligned_physical` and `memset` have no part in the bitmap. They are the
functions of `Kernel` on the machine's heap.
-/

namespace Balloon.Paging

open Balloon.Foundation
open Balloon.Libc
open Balloon.Allocator
open Balloon.Frames

/-- The globals of paging.c and heap.c. -/
structure Machine where
  heap : Heap
  frames : Nat
  nframes : Nat
  kernelDirectory : Nat
  currentDirectory : Nat

namespace Machine

def mem (s : Machine) : Memory := s.heap.mem

def withHeap (s : Machine) (h : Heap) : Machine := { s with heap := h }

def withMem (s : Machine) (m : Memory) : Machine := s.withHeap { s.heap with mem := m }

/-! ### The bitmap -/

/-- `frames[i]`. -/
def word (s : Machine) (i : Nat) : BitVec 32 :=
  BitVec.ofNat 32 (s.mem.read32 (wrap32 (s.frames + 4 * i)))

/-- The bitmap that the functions of paging.c read. -/
def map (s : Machine) : FrameMap := ⟨s.word, s.nframes⟩

def setFrame (s : Machine) (frameAddr : Nat) : Machine :=
  let frame := frameAddr / 0x1000
  let idx := indexFromBit frame
  let off := offsetFromBit frame
  s.withMem (s.mem.write32 (wrap32 (s.frames + 4 * idx)) (s.word idx ||| 1#32 <<< off).toNat)

/-- `alloc_frame` behind `first_frame`, which returned `idx`. The fields are stored in the word
that is there behind `set_frame`. -/
def giveFrame (s : Machine) (page : Nat) (isKernel isWriteable : Bool) (idx : Nat) : Machine :=
  let s := s.setFrame (wrap32 (idx * 0x1000))
  s.withMem (s.mem.write32 page (encode
    { entryAt s.mem page with
      present := true
      rw := isWriteable
      user := !isKernel
      frame := idx % 2 ^ 20 }))

/-- `alloc_frame` on the entry at `page`; `none` when the call panics. -/
def allocFrame (s : Machine) (page : Nat) (isKernel isWriteable : Bool) (undef : BitVec 32) :
    Option Machine :=
  if (entryAt s.mem page).frame ≠ 0 then some s
  else
    let idx := firstFrame s.map undef
    if idx = 0xFFFFFFFF then none
    else some (s.giveFrame page isKernel isWriteable idx)

/-! ### Directories -/

/-- The machine as the functions see it that leave the bitmap alone. -/
def kernel (s : Machine) : Kernel where
  heap := s.heap
  frames := s.map
  kernelDirectory := s.kernelDirectory
  currentDirectory := s.currentDirectory

def kmallocAlignedPhysical (s : Machine) (size : Nat) : Option (Nat × Nat × Machine) :=
  (s.kernel.kmallocAlignedPhysical size).map fun (address, phys, k) =>
    (address, phys, s.withHeap k.heap)

def getPage (s : Machine) (address : Nat) (make : Bool) (dir : Nat) : Option (Nat × Machine) :=
  (s.kernel.getPage address make dir).map fun (page, k) => (page, s.withHeap k.heap)

/-- `memset(p, 0, sizeof(page_directory_t))`. -/
def clearDirectory (s : Machine) (p : Nat) : Option Machine :=
  (s.kernel.clearDirectory p).map fun k => s.withHeap k.heap

/-- The round of `clone_table` for `src->pages[i]` and `table->pages[i]`. -/
def cloneEntry (s : Machine) (src table i : Nat) (undef : BitVec 32) : Option Machine :=
  if (entryAt s.mem (src + 4 * i)).frame ≠ 0 then
    (s.allocFrame (table + 4 * i) false false undef).map fun s =>
      let m := cloneFlags s.mem (src + 4 * i) (table + 4 * i)
      s.withMem (copyPagePhysical m ((entryAt m (src + 4 * i)).frame * 0x1000)
        ((entryAt m (table + 4 * i)).frame * 0x1000))
  else some s

/-- `clone_table`: the table, its physical address and the machine. `undef i` is what a
`first_frame` that finds nothing returns in round `i`. -/
def cloneTable (s : Machine) (src : Nat) (undef : Nat → BitVec 32) :
    Option (Nat × Nat × Machine) :=
  (s.kmallocAlignedPhysical sizeofTable).bind fun (table, physAddr, s) =>
    (s.clearDirectory table).bind fun s =>
      ((List.range 1024).foldlM (fun (s : Machine) i => s.cloneEntry src table i (undef i)) s).map
        fun s => (table, physAddr, s)

/-- The round of `clone_directory` for `src->tables[i]`. -/
def cloneSlot (s : Machine) (src dir i : Nat) (undef : Nat → BitVec 32) : Option Machine :=
  if tableOf s.mem src i = 0 then some s
  else if tableOf s.mem s.kernelDirectory i = tableOf s.mem src i then
    let m := s.mem.write32 (dir + 4 * i) (tableOf s.mem src i)
    some (s.withMem (m.write32 (dir + 4096 + 4 * i) (tablePhysicalOf m src i)))
  else
    (s.cloneTable (tableOf s.mem src i) undef).map fun (table, phys, s) =>
      let m := s.mem.write32 (dir + 4 * i) table
      s.withMem (m.write32 (dir + 4096 + 4 * i) (phys ||| 0x7))

/-- `clone_directory`. `undef i` are the values for the table of slot `i`. -/
def cloneDirectory (s : Machine) (src : Nat) (undef : Nat → Nat → BitVec 32) :
    Option (Nat × Machine) :=
  (s.kmallocAlignedPhysical sizeofDirectory).bind fun (dir, phys, s) =>
    (s.clearDirectory dir).bind fun s =>
      ((List.range 1024).foldlM (fun (s : Machine) i => s.cloneSlot src dir i (undef i))
        (s.withMem (s.mem.write32 (dir + 8192) (wrap32 (phys + 4096))))).map fun s => (dir, s)

/-! ### `init_paging` -/

/-- The machine with its empty directory. -/
def initDirectory (h : Heap) : Option Machine :=
  (initFrames h).bind fun (frames, h) =>
    (h.kmallocAligned sizeofDirectory).map fun (dir, h) =>
      { heap := { h with mem := memset h.mem dir 0 sizeofDirectory }
        frames := frames
        nframes := memEndPage / 0x1000
        kernelDirectory := dir
        currentDirectory := 0 }

/-- The first loop only calls `get_page`. -/
def touchHeapPages (s : Machine) : Option Machine :=
  s.kernel.touchHeapPages.map fun k => s.withHeap k.heap

/-- The body of the second and third loop. -/
def mapPage (s : Machine) (undef : BitVec 32) (i : Nat) : Option Machine :=
  (s.getPage i true s.kernelDirectory).bind fun (page, s) => s.allocFrame page true false undef

/-- `while (i < placement_pointer + 0x1000)`, where `undef i` is what a `first_frame` that finds
nothing returns in the round of `i`. -/
def mapPlaced (undef : Nat → BitVec 32) : Nat → Nat → Machine → Option Machine
  | 0, _, _ => none
  | fuel + 1, i, s =>
      if i < wrap32 (s.heap.placementPointer + 0x1000) then
        (s.mapPage (undef i) i).bind (mapPlaced undef fuel (wrap32 (i + 0x1000)))
      else some s

/-- `for (i = placement_pointer; i < KHEAP_END; i += 0x1000)`. -/
def mapRest (undef : Nat → BitVec 32) : Nat → Nat → Machine → Option Machine
  | 0, _, _ => none
  | fuel + 1, i, s =>
      if Kernel.belowHeapEnd i then
        (s.mapPage (undef i) i).bind (mapRest undef fuel (wrap32 (i + 0x1000)))
      else some s

/-- `kernel_directory->physicalAddr = (uint32_t)kernel_directory->tablesPhysical;` -/
def setPhysicalAddr (s : Machine) : Machine :=
  s.withMem (s.mem.write32 (s.kernelDirectory + 8192) (s.kernelDirectory + 4096))

/-- `init_paging` through its three mapping loops, with the values `undef 2 i` and `undef 3 i` for
a `first_frame` that finds nothing. -/
def initPagingMaps (undef : Nat → Nat → BitVec 32) (h : Heap) : Option Machine :=
  (initDirectory h).bind fun s =>
    s.touchHeapPages.bind fun s =>
      (mapPlaced (undef 2) rounds 0 s).bind fun s =>
        mapRest (undef 3) rounds s.heap.placementPointer s.setPhysicalAddr

end Machine

/-! ### What the bitmap functions write -/

/-- The frame that `alloc_frame` stores when `first_frame` ends without a result. -/
def fallenFrame (undef : BitVec 32) : Nat := undef.toNat % 2 ^ 20

theorem fallenFrame_lt (undef : BitVec 32) : fallenFrame undef < 2 ^ 20 :=
  Nat.mod_lt _ (by decide)

section

variable {s s' : Machine}

/-- A frame is marked by its word. -/
theorem Machine.used_congr (pointer : s'.frames = s.frames) {f : Nat}
    (same : ∀ a, Inside (frameWord s.frames f) 4 a → s'.mem a = s.mem a) :
    s'.map.used f = s.map.used f := by
  have word : s'.word (f / 32) = s.word (f / 32) := by
    unfold Machine.word
    rw [pointer]
    exact congrArg (BitVec.ofNat 32)
      (Memory.read32_congr fun o inWord => same _ ⟨Nat.le_add_right _ o, Nat.add_lt_add_left inWord _⟩)
  exact congrArg (fun w => w.getLsbD (f % 32)) word

theorem Machine.used_write {a f : Nat}
    (off : a + 4 ≤ frameWord s.frames f ∨ frameWord s.frames f + 4 ≤ a) (w : Nat) :
    (s.withMem (s.mem.write32 a w)).map.used f = s.map.used f := by
  apply used_congr
  · rfl
  · intro b inWord
    unfold Inside at inWord
    exact Memory.write32_outside _ _ (by omega)

theorem Machine.hasFree_iff (nframes : s.nframes = bootFrames) :
    s.map.HasFree ↔ ∃ f, f < bootFrames ∧ s.map.used f = false := by
  have scanned : s.map.scanned = bootFrames := by
    change 32 * indexFromBit s.nframes = bootFrames
    rw [nframes]
    rfl
  rw [FrameMap.HasFree, scanned]

theorem frameWord_eq {frames f : Nat} (space : frames + 0x20000 ≤ 2 ^ 32) (bound : f < 2 ^ 20) :
    frameWord frames f = frames + 4 * (f / 32) := by
  have word : indexFromBit f = f / 32 := rfl
  rw [frameWord, word, wrap32_of_lt (by omega)]

/-- `set_frame` writes the word of its frame. -/
theorem Machine.setFrame_outside {a b : Nat}
    (outside : ¬ Inside (frameWord s.frames (a / 0x1000)) 4 b) :
    (s.setFrame a).mem b = s.mem b := by
  unfold Inside frameWord at outside
  exact Memory.write32_outside _ _ (by omega)

theorem Machine.used_setFrame (space : s.frames + 0x20000 ≤ 2 ^ 32) {a f : Nat} (small : a < 2 ^ 32)
    (bound : f < 2 ^ 20) :
    (s.setFrame a).map.used f = (decide (f = a / 0x1000) || s.map.used f) := by
  have word : (s.setFrame a).map.frames (f / 32) = (Frames.setFrame s.map a).frames (f / 32) := by
    change BitVec.ofNat 32 ((s.mem.write32 (wrap32 (s.frames + 4 * indexFromBit (a / 0x1000)))
      (s.word (indexFromBit (a / 0x1000)) ||| 1#32 <<< offsetFromBit (a / 0x1000)).toNat).read32
        (wrap32 (s.frames + 4 * (f / 32)))) = Function.update s.word (indexFromBit (a / 0x1000))
          (s.word (indexFromBit (a / 0x1000)) ||| 1#32 <<< offsetFromBit (a / 0x1000)) (f / 32)
    rw [wrap32_of_lt (show s.frames + 4 * indexFromBit (a / 0x1000) < 2 ^ 32 by
        unfold indexFromBit; omega), wrap32_of_lt (show s.frames + 4 * (f / 32) < 2 ^ 32 by omega)]
    by_cases same : f / 32 = indexFromBit (a / 0x1000)
    · rw [same, Function.update_self, Memory.read32_write32_same, Nat.mod_eq_of_lt (BitVec.isLt _),
        BitVec.ofNat_toNat, BitVec.setWidth_eq]
    · rw [Function.update_of_ne same, Memory.read32_write32_disjoint _ _ (by omega),
        Machine.word, wrap32_of_lt (show s.frames + 4 * (f / 32) < 2 ^ 32 by omega)]
  rw [← FrameMap.used_setFrame, FrameMap.used, word, FrameMap.used]

theorem wrap32_frame (idx : Nat) : wrap32 (idx * 0x1000) / 0x1000 = idx % 2 ^ 20 := by
  unfold wrap32
  omega

/-- Of the machine it changes memory. -/
theorem Machine.giveFrame_eq (s : Machine) (page : Nat) (isKernel isWriteable : Bool) (idx : Nat) :
    ∃ w, s.giveFrame page isKernel isWriteable idx = (s.setFrame (wrap32 (idx * 0x1000))).withMem
      ((s.setFrame (wrap32 (idx * 0x1000))).mem.write32 page w) :=
  ⟨_, rfl⟩

/-- `alloc_frame` writes its entry and the word of the frame. -/
theorem Machine.giveFrame_outside {page idx a : Nat} {isKernel isWriteable : Bool}
    (offEntry : ¬ Inside page 4 a) (offWord : ¬ Inside (frameWord s.frames (idx % 2 ^ 20)) 4 a) :
    (s.giveFrame page isKernel isWriteable idx).mem a = s.mem a := by
  rw [← wrap32_frame] at offWord
  unfold Inside at offEntry
  obtain ⟨w, given⟩ := s.giveFrame_eq page isKernel isWriteable idx
  rw [given]
  exact (Memory.write32_outside _ _ (by omega)).trans (setFrame_outside offWord)

/-- A blank entry that `set_frame` does not write gets the frame. -/
theorem Machine.entry_giveFrame {page idx : Nat} (isKernel isWriteable : Bool)
    (apart : ∀ a, Inside (frameWord s.frames (idx % 2 ^ 20)) 4 a → ¬ Inside page 4 a)
    (blank : entryAt s.mem page = PageT.zero) :
    entryAt (s.giveFrame page isKernel isWriteable idx).mem page =
      givenPage isKernel isWriteable (idx % 2 ^ 20) := by
  have kept : entryAt (s.setFrame (wrap32 (idx * 0x1000))).mem page = PageT.zero := by
    refine Eq.trans
      (congrArg decode (Memory.read32_congr fun o inWord => setFrame_outside ?_)) blank
    rw [wrap32_frame]
    exact fun inFrame => apart _ inFrame ⟨Nat.le_add_right _ o, Nat.add_lt_add_left inWord _⟩
  have small : idx % 2 ^ 20 < 2 ^ 20 := Nat.mod_lt _ (by decide)
  unfold giveFrame
  generalize s.setFrame (wrap32 (idx * 0x1000)) = t at *
  simp only [kept]
  exact entryAt_write t.mem page (fits_givenPage isKernel isWriteable small)

/-- It marks the frame and no other, if the entry is not in the bitmap. -/
theorem Machine.used_giveFrame (space : s.frames + 0x20000 ≤ 2 ^ 32) {page idx f : Nat}
    {isKernel isWriteable : Bool}
    (off : page + 4 ≤ frameWord s.frames f ∨ frameWord s.frames f + 4 ≤ page) (bound : f < 2 ^ 20) :
    (s.giveFrame page isKernel isWriteable idx).map.used f =
      (decide (f = idx % 2 ^ 20) || s.map.used f) := by
  obtain ⟨w, given⟩ := s.giveFrame_eq page isKernel isWriteable idx
  have marked := used_setFrame (s := s) space (wrap32_lt (idx * 0x1000)) bound
  rw [wrap32_frame] at marked
  rw [given, ← marked]
  exact used_write (s := s.setFrame (wrap32 (idx * 0x1000))) off w

theorem Machine.allocFrame_held {page : Nat} (held : (entryAt s.mem page).frame ≠ 0)
    (isKernel isWriteable : Bool) (undef : BitVec 32) :
    s.allocFrame page isKernel isWriteable undef = some s := if_pos held

theorem Machine.allocFrame_given {page : Nat} (blank : (entryAt s.mem page).frame = 0)
    {undef : BitVec 32} (returns : firstFrame s.map undef ≠ 0xFFFFFFFF)
    (isKernel isWriteable : Bool) : s.allocFrame page isKernel isWriteable undef =
      some (s.giveFrame page isKernel isWriteable (firstFrame s.map undef)) := by
  rw [allocFrame, if_neg (not_not.mpr blank)]
  exact if_neg returns

theorem Machine.allocFrame_returned {page : Nat} {isKernel isWriteable : Bool} {undef : BitVec 32}
    (returned : s.allocFrame page isKernel isWriteable undef = some s') :
    ((entryAt s.mem page).frame ≠ 0 ∧ s' = s) ∨ (entryAt s.mem page).frame = 0 ∧
      s' = s.giveFrame page isKernel isWriteable (firstFrame s.map undef) := by
  by_cases held : (entryAt s.mem page).frame ≠ 0
  · rw [allocFrame_held held] at returned
    exact Or.inl ⟨held, (Option.some.inj returned).symm⟩
  · have blank := not_not.mp held
    by_cases panics : firstFrame s.map undef = 0xFFFFFFFF
    · rw [allocFrame, if_neg held] at returned
      dsimp only at returned
      rw [if_pos panics] at returned
      contradiction
    · rw [allocFrame_given blank panics] at returned
      exact Or.inr ⟨blank, (Option.some.inj returned).symm⟩

end

/-! ### With every frame marked -/

/-- The bytes of the words for the frames below `nframes`. -/
def bitmapSize : Nat := 4 * indexFromBit bootFrames

/-- The bytes behind the bitmap in which the frame of the return register is marked. -/
def Marks (frames : Nat) (undef : BitVec 32) (a : Nat) : Prop :=
  bootFrames ≤ fallenFrame undef ∧ Inside (frameWord frames (fallenFrame undef)) 4 a

/-- `init_paging` has made the bitmap and every frame is marked. -/
structure Machine.Full (s : Machine) : Prop where
  space : s.frames + 0x20000 ≤ 2 ^ 32
  nframes : s.nframes = bootFrames
  used : ∀ f, f < bootFrames → s.map.used f = true

/-- The bitmap is where it was, with the bytes that it had. -/
structure Machine.SameMap (s t : Machine) : Prop where
  pointer : t.frames = s.frames
  nframes : t.nframes = s.nframes
  bytes : ∀ a, Inside s.frames bitmapSize a → t.mem a = s.mem a

section

variable {s t : Machine} {page : Nat} {isKernel isWriteable : Bool} {undef : BitVec 32}

@[simp] theorem Machine.mem_withMem (s : Machine) (m : Memory) : (s.withMem m).mem = m := rfl

theorem Machine.Full.keep (full : s.Full) (same : s.SameMap t) : t.Full := by
  have total : bootFrames = 0x1000 := rfl
  have size : bitmapSize = 512 := rfl
  refine ⟨same.pointer ▸ full.space, same.nframes.trans full.nframes, fun f inMap => ?_⟩
  refine (used_congr same.pointer fun a inWord => same.bytes a ?_).trans (full.used f inMap)
  rw [frameWord_eq full.space (by omega)] at inWord
  unfold Inside at *
  omega

theorem Machine.Full.firstFrame (full : s.Full) (undef : BitVec 32) :
    firstFrame s.map undef = undef.toNat := by
  refine FrameMap.firstFrame_full ?_ undef
  rw [hasFree_iff full.nframes]
  rintro ⟨f, inMap, clear⟩
  rw [full.used f inMap] at clear
  contradiction

/-- A frame that is marked is marked in place. -/
theorem Machine.setFrame_used {a : Nat} (used : s.map.used (a / 0x1000) = true) :
    s.setFrame a = s := by
  have bit : (s.word (a / 0x1000 / 32)).getLsbD (a / 0x1000 % 32) = true := used
  have marked : s.word (a / 0x1000 / 32) ||| 1#32 <<< (a / 0x1000 % 32) =
      s.word (a / 0x1000 / 32) := by
    refine BitVec.eq_of_getLsbD_eq fun j bound => ?_
    rw [BitVec.getLsbD_or]
    by_cases same : j = a / 0x1000 % 32
    · rw [same, bit, Bool.true_or]
    · have other : (1#32 <<< (a / 0x1000 % 32)).getLsbD j = false := by
        simp only [BitVec.getLsbD_shiftLeft, BitVec.getLsbD_one]
        simp
        omega
      rw [other, Bool.or_false]
  have written : s.mem.write32 (wrap32 (s.frames + 4 * (a / 0x1000 / 32)))
      (s.word (a / 0x1000 / 32)).toNat = s.mem := by
    rw [Machine.word, BitVec.toNat_ofNat, Nat.mod_eq_of_lt (s.mem.read32_lt _),
      Memory.write32_read32]
  unfold Machine.setFrame indexFromBit offsetFromBit
  dsimp only
  rw [marked, written]
  rfl

/-- With every frame marked a frame of the bitmap is marked in place, and another in its word. -/
theorem Machine.Full.giveFrame (full : s.Full) :
    s.giveFrame page isKernel isWriteable undef.toNat = s.withMem (s.mem.write32 page (encode
      { entryAt s.mem page with
        present := true
        rw := isWriteable
        user := !isKernel
        frame := fallenFrame undef })) ∨ bootFrames ≤ fallenFrame undef := by
  rcases Nat.lt_or_ge (fallenFrame undef) bootFrames with inMap | behind
  · have used := full.used _ inMap
    rw [fallenFrame, ← wrap32_frame] at used
    refine Or.inl ?_
    rw [Machine.giveFrame, setFrame_used used]
    rfl
  · exact Or.inr behind

theorem Machine.Full.giveFrame_outside (full : s.Full) {a : Nat} (offEntry : ¬ Inside page 4 a)
    (offMarks : ¬ Marks s.frames undef a) :
    (s.giveFrame page isKernel isWriteable undef.toNat).mem a = s.mem a := by
  rcases @Machine.Full.giveFrame s page isKernel isWriteable undef full with inPlace | behind
  · rw [inPlace]
    unfold Inside at offEntry
    exact Memory.write32_outside _ _ (by omega)
  · exact Machine.giveFrame_outside offEntry fun inWord => offMarks ⟨behind, inWord⟩

theorem Machine.Full.entry_giveFrame (full : s.Full)
    (off : ∀ a, Marks s.frames undef a → ¬ Inside page 4 a)
    (blank : entryAt s.mem page = PageT.zero) :
    entryAt (s.giveFrame page isKernel isWriteable undef.toNat).mem page =
      givenPage isKernel isWriteable (fallenFrame undef) := by
  rcases @Machine.Full.giveFrame s page isKernel isWriteable undef full with inPlace | behind
  · rw [inPlace, blank]
    exact entryAt_write s.mem page (fits_givenPage isKernel isWriteable (fallenFrame_lt undef))
  · exact Machine.entry_giveFrame isKernel isWriteable (fun a inWord => off a ⟨behind, inWord⟩) blank

/-- A word behind the bitmap is none of its words. -/
theorem Machine.Full.marks_off (full : s.Full) {a : Nat} (marks : Marks s.frames undef a) :
    ¬ Inside s.frames bitmapSize a := by
  have total : bootFrames = 0x1000 := rfl
  have size : bitmapSize = 512 := rfl
  obtain ⟨behind, inWord⟩ := marks
  rw [frameWord_eq full.space (fallenFrame_lt undef)] at inWord
  unfold Inside at *
  omega

end

end Balloon.Paging
