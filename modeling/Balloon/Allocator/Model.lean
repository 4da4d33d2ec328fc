import Balloon.Foundation.SkipList
import Balloon.Libc.Memory
import Mathlib.Data.Nat.Log

/-!
Owns the embedding of heap.c: the bump allocator used before `init_heap`, the
slab allocator used after it, and `sbrk`.

A bin header is 16 bytes (`next`, `head`, `size`, `bin_magic` at offsets 0, 4,
8, 12); a big bin header is 48 bytes and adds `prev` at 16 and `forward[i]` at
`20 + 4 * i`. Headers and free-stack links live in memory at their addresses.
The static head of the skip list is the position `none`; the other allocator
variables are fields of `Heap`. `assert`, `spin_lock` and `spin_unlock` expand
to nothing in kernel.h.

A search loop that does not end within one step per heap page is `none`.
-/

namespace Balloon.Allocator

open Balloon.Foundation
open Balloon.Libc

/-- The variables of heap.c and the memory they describe. -/
structure Heap where
  mem : Memory
  placementPointer : Nat
  heapEnd : Nat
  klmallocBinHead : Nat → Nat
  klmallocBigForward : Nat → Nat
  klmallocBigLevel : Nat
  klmallocNewestBig : Nat

def kheapEnd : Nat := 0x02000000

def binMagic : Nat := 0xDEFAD00D

/-- A pointer as a list position: the null pointer points at no node. -/
def nodeAt (pointer : Nat) : Option Nat := if pointer = 0 then none else some pointer

/-! ### Bin sizes -/

/-- Leading zeros of a nonzero 32-bit word. -/
def builtinClzl (n : Nat) : Nat := 31 - Nat.log2 n

def klmallocAdjustBin (bin : Nat) : Nat :=
  if bin ≤ 2 then 0
  else if bin - (2 + 1) > 10 then 10
  else bin - (2 + 1)

def klmallocBinSize (size : Nat) : Nat :=
  klmallocAdjustBin (4 * 8 - builtinClzl size + if size &&& (size - 1) ≠ 0 then 1 else 0)

/-! ### The level generator -/

/-- The loop of `klmalloc_random_level`, from `level` on. -/
def randomLevelFrom (rand : Nat → Nat) : Nat → Nat → Nat
  | 0, level => level
  | left + 1, level =>
      if rand level < 0x7fffffff then randomLevelFrom rand left (level + 1) else level

/-- `klmalloc_random_level`, where `rand n` is what call number `n` of
`klmalloc_skip_rand` returns. -/
def klmallocRandomLevel (rand : Nat → Nat) : Nat := randomLevelFrom rand 6 0

namespace Heap

/-! ### Memory access -/

def store (h : Heap) (a v : Nat) : Heap := { h with mem := h.mem.write32 a v }

def nextOf (h : Heap) (x : Nat) : Nat := h.mem.read32 x

def headOf (h : Heap) (x : Nat) : Nat := h.mem.read32 (x + 4)

def sizeOf (h : Heap) (x : Nat) : Nat := h.mem.read32 (x + 8)

def magicOf (h : Heap) (x : Nat) : Nat := h.mem.read32 (x + 12)

/-- `node->forward[i]`. -/
def forward (h : Heap) : Option Nat → Nat → Nat
  | none, i => h.klmallocBigForward i
  | some x, i => h.mem.read32 (x + 20 + 4 * i)

/-- `node->forward[i] = v`. -/
def setForward (h : Heap) : Option Nat → Nat → Nat → Heap
  | none, i, v => { h with klmallocBigForward := Function.update h.klmallocBigForward i v }
  | some x, i, v => h.store (x + 20 + 4 * i) v

def sbrk (h : Heap) (increment : Nat) : Nat × Heap :=
  (h.heapEnd,
    { h with heapEnd := wrap32 (h.heapEnd + increment)
             mem := memset h.mem h.heapEnd 0 increment })

/-! ### Bin lists and free stacks -/

def klmallocListDecouple (h : Heap) (bucket node : Nat) : Heap :=
  { h with klmallocBinHead := Function.update h.klmallocBinHead bucket (h.nextOf node) }.store
    node 0

def klmallocListInsert (h : Heap) (bucket node : Nat) : Heap :=
  { h.store node (h.klmallocBinHead bucket) with
    klmallocBinHead := Function.update h.klmallocBinHead bucket node }

def klmallocStackPop (h : Heap) (header : Nat) : Nat × Heap :=
  (h.headOf header, h.store (header + 4) (h.mem.read32 (h.headOf header)))

def klmallocStackPush (h : Heap) (header ptr : Nat) : Heap :=
  (h.store ptr (h.headOf header)).store (header + 4) ptr

def klmallocStackEmpty (h : Heap) (header : Nat) : Prop := h.headOf header = 0

instance (h : Heap) (header : Nat) : Decidable (h.klmallocStackEmpty header) :=
  inferInstanceAs (Decidable (_ = _))

/-! ### The skip list -/

/-- The shared search loop of the skip-list functions: `update[i]` for every
level in use. The array starts uninitialised. -/
def skipSearch (h : Heap) (key : Nat) : Option (Nat → Option Nat) :=
  descend (fun p i => nodeAt (h.forward p i)) (fun x => h.sizeOf x < key)
    (h.heapEnd / 0x1000 + 1) h.klmallocBigLevel none fun _ => none

def klmallocSkipListFindbest (h : Heap) (searchSize : Nat) : Option Nat :=
  (h.skipSearch searchSize).map fun update => h.forward (update 0) 0

/-- `node->forward[i] = update[i]->forward[i]; update[i]->forward[i] = node;`
for the levels below `count`. -/
def skipLink (h : Heap) (update : Nat → Option Nat) (value : Nat) : Nat → Heap
  | 0 => h
  | i + 1 =>
      let linked := h.skipLink update value i
      (linked.setForward (some value) i (linked.forward (update i) i)).setForward (update i) i
        value

def klmallocSkipListInsert (h : Heap) (rand : Nat → Nat) (value : Nat) : Option Heap :=
  (h.skipSearch (h.sizeOf value)).map fun update =>
    if h.forward (update 0) 0 = value then h
    else
      let level := klmallocRandomLevel rand
      -- Levels above the ones in use hang off the static head.
      let update' := fun i => if h.klmallocBigLevel < i ∧ i ≤ level then none else update i
      { h with klmallocBigLevel := max h.klmallocBigLevel level }.skipLink update' value
        (level + 1)

/-- `while (node != value) node = node->forward[0];` -/
def skipFollow (h : Heap) (value : Nat) : Nat → Nat → Option Nat
  | 0, _ => none
  | fuel + 1, node =>
      if node = value then some node else h.skipFollow value fuel (h.forward (some node) 0)

/-- The unlinking loop from level `i` on, with its early exit. -/
def skipUnlink (update : Nat → Option Nat) (value : Nat) : Nat → Nat → Heap → Heap
  | 0, _, h => h
  | count + 1, i, h =>
      if h.forward (update i) i ≠ value then h
      else skipUnlink update value count (i + 1)
        (h.setForward (update i) i (h.forward (some value) i))

/-- `while (level > 0 && head.forward[level] == NULL) --level;` -/
def trimLevel (forward : Nat → Nat) : Nat → Nat
  | 0 => 0
  | level + 1 => if forward (level + 1) = 0 then trimLevel forward level else level + 1

/-- `klmalloc_skip_list_delete`. The loop before it only ends on the node
itself, so the fallback scan of the source is never entered and its last test
always succeeds. -/
def klmallocSkipListDelete (h : Heap) (value : Nat) : Option Heap :=
  (h.skipSearch (h.sizeOf value)).bind fun update =>
    (h.skipFollow value (h.heapEnd / 0x1000 + 1) (h.forward (update 0) 0)).map fun _ =>
      let unlinked := skipUnlink update value (h.klmallocBigLevel + 1) 0 h
      { unlinked with
        klmallocBigLevel := trimLevel unlinked.klmallocBigForward unlinked.klmallocBigLevel }

/-! ### `klmalloc` -/

/-- `base[i << bucket] = &base[(i + 1) << bucket]` for the cells below `count`. -/
def initStack (h : Heap) (base bucket : Nat) : Nat → Heap
  | 0 => h
  | i + 1 => (h.initStack base bucket i).store (base + 4 * (i <<< bucket))
      (base + 4 * ((i + 1) <<< bucket))

/-- The branch of `klmalloc` that grows the heap for a new small bin. -/
def newBin (h : Heap) (bucket : Nat) : Nat × Heap :=
  let bin := (h.sbrk 0x1000).1
  let h := (h.sbrk 0x1000).2.store (bin + 12) binMagic
  let h := h.store (bin + 4) (bin + 16)
  let h := h.klmallocListInsert bucket bin
  let available := ((0x1000 - 16) >>> (2 + bucket)) - 1
  let base := h.headOf bin
  let h := h.initStack base bucket available
  let h := h.store (base + 4 * (available <<< bucket)) 0
  (bin, h.store (bin + 8) bucket)

/-- The branch of `klmalloc` that grows the heap for a big block. -/
def newBigBin (h : Heap) (size : Nat) : Nat × Heap :=
  let pages := wrap32 (size + 48) / 0x1000 + 1
  let bin := (h.sbrk (wrap32 (0x1000 * pages))).1
  let h := (h.sbrk (wrap32 (0x1000 * pages))).2.store (bin + 12) binMagic
  let h := h.store (bin + 8) (wrap32 (pages * 0x1000 + (2 ^ 32 - 48)))
  let prev := h.klmallocNewestBig
  let h := h.store (bin + 16) prev
  let h := if prev ≠ 0 then h.store prev bin else h
  let h := { h with klmallocNewestBig := bin }
  let h := h.store bin 0
  let h := h.store (bin + 4) 0
  (wrap32 (bin + 48), h)

/-- The small-bin half of `klmalloc`. -/
def klmallocSmall (h : Heap) (bucket : Nat) : Nat × Heap :=
  let bin := if h.klmallocBinHead bucket = 0 then (h.newBin bucket).1
    else h.klmallocBinHead bucket
  let h := if h.klmallocBinHead bucket = 0 then (h.newBin bucket).2 else h
  let item := (h.klmallocStackPop bin).1
  let h := (h.klmallocStackPop bin).2
  (item, if h.klmallocStackEmpty bin then h.klmallocListDecouple bucket bin else h)

/-- The big-block half of `klmalloc`. -/
def klmallocBig (h : Heap) (size : Nat) : Option (Nat × Heap) :=
  (h.klmallocSkipListFindbest size).bind fun bin =>
    if bin ≠ 0 then (h.klmallocSkipListDelete bin).map fun h => h.klmallocStackPop bin
    else some (h.newBigBin size)

def klmalloc (h : Heap) (size : Nat) : Option (Nat × Heap) :=
  if size = 0 then some (0, h)
  else if klmallocBinSize size < 10 then some (h.klmallocSmall (klmallocBinSize size))
  else h.klmallocBig size

def klvalloc (h : Heap) (size : Nat) : Option (Nat × Heap) :=
  (h.klmalloc (wrap32 (size + (0x1000 - 48)))).map fun result =>
    (wrap32 (result.1 + (0x1000 - 48)), result.2)

/-! ### `klfree` -/

/-- The page of the bin header that `klfree` recovers from a pointer. -/
def headerOf (ptr : Nat) : Nat :=
  (if ptr % 0x1000 = 0 then ptr - 1 else ptr) / 0x1000 * 0x1000

def klfree (h : Heap) (rand : Nat → Nat) (ptr : Nat) : Option Heap :=
  if ptr = 0 then some h
  else
    let header := headerOf ptr
    if h.magicOf header ≠ binMagic then some h
    else if h.sizeOf header > 11 then
      (h.klmallocStackPush header (header + 48)).klmallocSkipListInsert rand header
    else
      let h := if h.klmallocStackEmpty header then
        h.klmallocListInsert (h.sizeOf header) header else h
      some (h.klmallocStackPush header (if ptr % 0x1000 = 0 then ptr - 1 else ptr))

/-! ### The kernel interface -/

/-- The block address of `kmalloc_raw`; its physical address is read off the
page tables by the paging modules. -/
def kmallocRaw (h : Heap) (size : Nat) (align : Bool) : Option (Nat × Heap) :=
  if h.heapEnd ≠ 0 then
    if align then h.klvalloc size else h.klmalloc size
  else
    let start :=
      if align ∧ h.placementPointer / 0x1000 * 0x1000 ≠ 0 then
        wrap32 (h.placementPointer / 0x1000 * 0x1000 + 0x1000)
      else h.placementPointer
    some (start, { h with placementPointer := wrap32 (start + size) })

def kmalloc (h : Heap) (size : Nat) : Option (Nat × Heap) := h.kmallocRaw size false

/-- `kmalloc` on the mapped pages: when `sbrk` clears memory past `KHEAP_END`
the access faults, and `page_fault` does not return. -/
def kmallocMapped (h : Heap) (size : Nat) : Option (Nat × Heap) :=
  (h.kmalloc size).filter fun result => result.2.heapEnd ≤ kheapEnd

def kmallocAligned (h : Heap) (size : Nat) : Option (Nat × Heap) := h.kmallocRaw size true

def kfree (h : Heap) (rand : Nat → Nat) (ptr : Nat) : Option Heap :=
  if ptr > h.placementPointer then h.klfree rand ptr else some h

def initHeap (h : Heap) : Heap :=
  { h with heapEnd := wrap32 (h.placementPointer + 0x1000) / 0x1000 * 0x1000 }

end Heap

end Balloon.Allocator
