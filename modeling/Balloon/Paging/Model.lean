import Balloon.Allocator.Model
import Balloon.Frames.Bitmap

/-!
Owns the embedding of paging.c apart from the frame bitmap: page entries in
memory, `get_page`, the physical address that `kmalloc_aligned_physical`
reports, `alloc_frame` on an entry, and the mapping loops of `init_paging`.

Kernel addresses are physical addresses: the model has one flat memory, as the
machine has before paging is switched on and as the identity map of the kernel
keeps it afterwards. The bitmap is an array of its own; where `init_paging` puts
it is the subject of another module.
-/

namespace Balloon.Paging

open Balloon.Foundation
open Balloon.Libc
open Balloon.Allocator
open Balloon.Frames

/-- The globals of paging.c and heap.c. -/
structure Kernel where
  heap : Heap
  frames : FrameMap
  kernelDirectory : Nat
  currentDirectory : Nat

namespace Kernel

def mem (k : Kernel) : Memory := k.heap.mem

def withMem (k : Kernel) (m : Memory) : Kernel := { k with heap := { k.heap with mem := m } }

@[simp] theorem mem_withMem (k : Kernel) (m : Memory) : (k.withMem m).mem = m := rfl

@[simp] theorem withMem_withMem (k : Kernel) (m m' : Memory) :
    (k.withMem m).withMem m' = k.withMem m' := rfl

@[simp] theorem frames_withMem (k : Kernel) (m : Memory) : (k.withMem m).frames = k.frames := rfl

@[simp] theorem kernelDirectory_withMem (k : Kernel) (m : Memory) :
    (k.withMem m).kernelDirectory = k.kernelDirectory := rfl

end Kernel

/-! ### Page entries -/

/-- The fields of `page_t`, from the least significant bit. -/
def decode (w : Nat) : PageT where
  present := decide (w % 2 = 1)
  rw := decide (w / 2 % 2 = 1)
  user := decide (w / 4 % 2 = 1)
  accessed := decide (w / 8 % 2 = 1)
  dirty := decide (w / 16 % 2 = 1)
  unused := w / 32 % 128
  frame := w / 4096 % 2 ^ 20

def encode (p : PageT) : Nat :=
  p.present.toNat + 2 * p.rw.toNat + 4 * p.user.toNat + 8 * p.accessed.toNat +
    16 * p.dirty.toNat + 32 * (p.unused % 128) + 4096 * (p.frame % 2 ^ 20)

/-- The entry at `page`. -/
def entryAt (m : Memory) (page : Nat) : PageT := decode (m.read32 page)

/-! ### Directories -/

def sizeofTable : Nat := 0x1000

/-- `sizeof(page_directory_t)`: `tables` at 0, `tablesPhysical` at 4096 and
`physicalAddr` at 8192. -/
def sizeofDirectory : Nat := 8196

/-- `dir->tables[i]`. -/
def tableOf (m : Memory) (dir i : Nat) : Nat := m.read32 (dir + 4 * i)

/-- `dir->tablesPhysical[i]`. -/
def tablePhysicalOf (m : Memory) (dir i : Nat) : Nat := m.read32 (dir + 4096 + 4 * i)

/-- `dir->physicalAddr`. -/
def physicalAddrOf (m : Memory) (dir : Nat) : Nat := m.read32 (dir + 8192)

/-- `get_page(address, 0, dir)`. -/
def findPage (m : Memory) (address dir : Nat) : Nat :=
  let page := address / 0x1000
  if tableOf m dir (page / 1024) ≠ 0 then tableOf m dir (page / 1024) + 4 * (page % 1024) else 0

namespace Kernel

/-- `kmalloc_aligned_physical`: the block, its physical address, and the kernel.
With the heap in use the address is looked up in `kernel_directory`. When `sbrk`
clears memory past `KHEAP_END` the access faults and the call does not return. -/
def kmallocAlignedPhysical (k : Kernel) (size : Nat) : Option (Nat × Nat × Kernel) :=
  ((k.heap.kmallocAligned size).filter fun result => result.2.heapEnd ≤ kheapEnd).map
    fun (address, h) =>
      let phys :=
        if k.heap.heapEnd ≠ 0 then
          wrap32 ((entryAt h.mem (findPage h.mem address k.kernelDirectory)).frame * 0x1000 +
            address % 0x1000)
        else address
      (address, phys, { k with heap := h })

/-- `get_page`. -/
def getPage (k : Kernel) (address : Nat) (make : Bool) (dir : Nat) : Option (Nat × Kernel) :=
  let page := address / 0x1000
  let tableIndex := page / 1024
  if tableOf k.mem dir tableIndex ≠ 0 then
    some (tableOf k.mem dir tableIndex + 4 * (page % 1024), k)
  else if make then
    (k.kmallocAlignedPhysical sizeofTable).map fun (table, tmp, k) =>
      let m := k.mem.write32 (dir + 4 * tableIndex) table
      let m := memset m table 0 0x1000
      let m := m.write32 (dir + 4096 + 4 * tableIndex) (tmp ||| 0x7)
      (table + 4 * (page % 1024), k.withMem m)
  else some (0, k)

/-- `alloc_frame` on the entry at `page`. -/
def allocFrame (k : Kernel) (page : Nat) (isKernel isWriteable : Bool) (undef : BitVec 32) :
    Option Kernel :=
  (Frames.allocFrame k.frames (entryAt k.mem page) isKernel isWriteable undef).map
    fun (frames, entry) =>
      { k with frames := frames }.withMem (k.mem.write32 page (encode entry))

end Kernel

/-! ### `init_paging` -/

def kheapStart : Nat := 0xC0000000

def kheapInitialSize : Nat := 0x100000

def memEndPage : Nat := 0x1000000

/-- `kmalloc` and `memset` for the bitmap: `INDEX_FROM_BIT(nframes)` bytes. -/
def initFrames (h : Heap) : Option (Nat × Heap) :=
  (h.kmalloc (indexFromBit (memEndPage / 0x1000))).map fun (frames, h) =>
    (frames, { h with mem := memset h.mem frames 0 (indexFromBit (memEndPage / 0x1000)) })

/-- The kernel with its empty directory. -/
def initDirectory (h : Heap) : Option Kernel :=
  (initFrames h).bind fun (_, h) =>
    (h.kmallocAligned sizeofDirectory).map fun (dir, h) =>
      { heap := { h with mem := memset h.mem dir 0 sizeofDirectory }
        frames := FrameMap.allClear (memEndPage / 0x1000)
        kernelDirectory := dir
        currentDirectory := 0 }

namespace Kernel

/-- The first loop makes the tables of the initial heap region. -/
def touchHeapPages (k : Kernel) : Option Kernel :=
  (List.range (kheapInitialSize / 0x1000)).foldlM
    (fun k n => (k.getPage (kheapStart + 0x1000 * n) true k.kernelDirectory).map Prod.snd) k

/-- The body of the second and third loop. -/
def mapPage (k : Kernel) (undef : BitVec 32) (i : Nat) : Option Kernel :=
  (k.getPage i true k.kernelDirectory).bind fun (page, k) => k.allocFrame page true false undef

/-- `while (i < placement_pointer + 0x1000)`, where `undef i` is what a
`first_frame` that finds nothing returns in the round of `i`. -/
def mapPlaced (undef : Nat → BitVec 32) : Nat → Nat → Kernel → Option Kernel
  | 0, _, _ => none
  | fuel + 1, i, k =>
      if i < wrap32 (k.heap.placementPointer + 0x1000) then
        (k.mapPage (undef i) i).bind (mapPlaced undef fuel (wrap32 (i + 0x1000)))
      else some k

/-- The comparison `i < KHEAP_END` of two `int` values. -/
def belowHeapEnd (i : Nat) : Prop := i < kheapEnd ∨ 2 ^ 31 ≤ i

instance (i : Nat) : Decidable (belowHeapEnd i) := inferInstanceAs (Decidable (_ ∨ _))

/-- `for (i = placement_pointer; i < KHEAP_END; i += 0x1000)`. -/
def mapRest (undef : Nat → BitVec 32) : Nat → Nat → Kernel → Option Kernel
  | 0, _, _ => none
  | fuel + 1, i, k =>
      if belowHeapEnd i then
        (k.mapPage (undef i) i).bind (mapRest undef fuel (wrap32 (i + 0x1000)))
      else some k

/-- `kernel_directory->physicalAddr = (uint32_t)kernel_directory->tablesPhysical;` -/
def setPhysicalAddr (k : Kernel) : Kernel :=
  k.withMem (k.mem.write32 (k.kernelDirectory + 8192) (k.kernelDirectory + 4096))

end Kernel

/-- As many rounds as the address space has pages; a loop that needs more does
not end. -/
def rounds : Nat := 2 ^ 20 + 1

/-- `init_paging` through its three mapping loops, with the values `undef 2 i` and
`undef 3 i` for a `first_frame` that finds nothing. -/
def initPagingMaps (undef : Nat → Nat → BitVec 32) (h : Heap) : Option Kernel :=
  (initDirectory h).bind fun k =>
    k.touchHeapPages.bind fun k =>
      (Kernel.mapPlaced (undef 2) rounds 0 k).bind fun k =>
        Kernel.mapRest (undef 3) rounds k.heap.placementPointer k.setPhysicalAddr

end Balloon.Paging
