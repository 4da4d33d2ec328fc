import Balloon.Allocator.Model
import Balloon.Libc.Strings

/-!
Owns the embedding of ramfs.c, ramfs.h and vfs.c: the packed ramdisk headers,
the `fs_node_t` fields that are read or written, `ramfs_mount`, `ramfs_read`
and `read_fs`. The address of `ramfs_read` is a parameter; `kprintf` is left
out.
-/

namespace Balloon.Ramdisk

open Balloon.Foundation
open Balloon.Libc
open Balloon.Allocator

/-! ### The packed headers -/

/-- `sizeof(ramfs_header_t)`: the word `nfiles`. -/
def sizeofHeader : Nat := 4

/-- `sizeof(ramfs_file_header_t)`: `magic` at 0, `name` at 1, `offset` at 65 and
`length` at 69. -/
def sizeofFileHeader : Nat := 73

/-- `ramfs_file_headers[i]`, for the table of an image at `start`. -/
def fileHeader (start i : Nat) : Nat := wrap32 (start + sizeofHeader + sizeofFileHeader * i)

/-- The bytes of the 32-bit address space, from which a word at its end wraps
around. -/
def addressed (m : Memory) : Memory := fun a => m (wrap32 a)

def nameOf (header : Nat) : Nat := wrap32 (header + 1)

def offsetOf (m : Memory) (header : Nat) : Nat := (addressed m).read32 (header + 65)

def lengthOf (m : Memory) (header : Nat) : Nat := (addressed m).read32 (header + 69)

theorem addressed_read32 (m : Memory) {a : Nat} (fits : a + 4 ≤ 2 ^ 32) :
    (addressed m).read32 a = m.read32 a :=
  Memory.read32_congr fun k bound => congrArg m (wrap32_of_lt (by omega))

theorem lengthOf_lt (m : Memory) (header : Nat) : lengthOf m header < 2 ^ 32 :=
  Memory.read32_lt _ _

/-! ### Nodes -/

/-- `sizeof(fs_node_t)`: `name` at 0, `inode` at 144 and `read` at 156. -/
def sizeofNode : Nat := 160

/-- `ramfs_nodes[i]`. -/
def nodeOf (nodes i : Nat) : Nat := wrap32 (nodes + sizeofNode * i)

def inodeOf (m : Memory) (node : Nat) : Nat := m.read32 (node + 144)

def readOf (m : Memory) (node : Nat) : Nat := m.read32 (node + 156)

/-- The globals of ramfs.c; `ramfs_file_headers` is the table behind
`ramfs_header`. -/
structure Ramfs where
  heap : Heap
  ramfsHeader : Nat
  ramfsNodes : Nat

/-! ### Mounting -/

/-- One round of the loop of `ramfs_mount`. -/
def mountFile (readAddr start nodes : Nat) (m : Memory) (i : Nat) : Option Memory :=
  let header := fileHeader start i
  let m := m.write32 (header + 65) (wrap32 (offsetOf m header + start))
  (strlen m (nameOf header)).map fun len =>
    let m := memcpy m (nodeOf nodes i) (nameOf header) len
    m.write32 (nodeOf nodes i + 156) readAddr

/-- The loop of `ramfs_mount`, which reads `nfiles` again in every round. -/
def mountFiles (readAddr start nodes : Nat) : Nat → Nat → Memory → Option Memory
  | 0, _, _ => none
  | fuel + 1, i, m =>
      if i < m.read32 start then
        (mountFile readAddr start nodes m i).bind (mountFiles readAddr start nodes fuel (i + 1))
      else some m

/-- `ramfs_mount`, where `modsAddr` is `multiboot->mods_addr`. -/
def ramfsMount (readAddr modsAddr : Nat) (h : Heap) : Option Ramfs :=
  let ramdiskStart := h.mem.read32 modsAddr
  (h.kmallocMapped (wrap32 (sizeofNode * h.mem.read32 ramdiskStart))).bind fun (nodes, h) =>
    (mountFiles readAddr ramdiskStart nodes (h.mem.read32 ramdiskStart + 1) 0 h.mem).map fun m =>
      { heap := { h with mem := m }, ramfsHeader := ramdiskStart, ramfsNodes := nodes }

/-! ### Reading -/

/-- `ramfs_read`: the number of bytes and the memory after the copy. -/
def ramfsRead (start : Nat) (m : Memory) (node offset size buffer : Nat) : Nat × Memory :=
  let header := fileHeader start (inodeOf m node)
  if offset > lengthOf m header then (0, m)
  else
    let size := if wrap32 (offset + size) > lengthOf m header then lengthOf m header - offset
      else size
    (size, memcpy m buffer (wrap32 (offsetOf m header + offset)) size)

/-- `read_fs`; `none` when `node->read` is the address of other code. -/
def readFs (readAddr start : Nat) (m : Memory) (node offset size buffer : Nat) :
    Option (Nat × Memory) :=
  if readOf m node = 0 then some (0, m)
  else if readOf m node = readAddr then some (ramfsRead start m node offset size buffer)
  else none

end Balloon.Ramdisk
