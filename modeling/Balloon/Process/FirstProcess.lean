import Balloon.Allocator.FreshCells
import Balloon.Allocator.TenantRuns
import Balloon.Process.Records
import Balloon.Ramdisk.Files
import Balloon.Tasking.Model

/-!
Owns the block of the first process along the boot: `init_heap`, `ramfs_mount`,
`init_kernel_process`. Nothing stores the field `next` of the first process, and nothing has
been released when `kmalloc` serves it, so the field is as `sbrk` cleared it.
-/

namespace Balloon.Process

open Balloon.Foundation
open Balloon.Allocator
open Balloon.Libc
open Balloon.Ramdisk

variable {h : Heap} {base readAddr modsAddr start stop : Nat} {L : Layout} {fs : Ramfs}

/-- `ramfs_mount` asks for one block and writes into it and into the image. -/
theorem ramfsMount_unused (wf : WellFormed h base L) (unused : Unused h L)
    (isStart : h.mem.read32 modsAddr = start) (image : Image h.mem start stop)
    (below : stop ≤ h.placementPointer) (addrLt : readAddr < 2 ^ 32)
    (mounted : ramfsMount readAddr modsAddr h = some fs) :
    ∃ L', WellFormed fs.heap base L' ∧ Unused fs.heap L' := by
  have table := image.table
  have placement := wf.placementLt
  have baseLe := wf.baseLe
  have endLe := wf.endLe
  have asked : wrap32 (sizeofNode * h.mem.read32 start) = 160 * h.mem.read32 start :=
    wrap32_of_lt (by unfold sizeofNode; omega)
  have unfolded := mounted
  simp only [ramfsMount, isStart] at unfolded
  obtain ⟨⟨nodes, h₁⟩, allocated, looped⟩ := Option.bind_eq_some_iff.mp unfolded
  obtain ⟨m, filled, rfl⟩ := Option.map_eq_some_iff.mp looped
  by_cases noFile : h.mem.read32 start = 0
  · -- `kmalloc(0)` is NULL and the loop has no round.
    have nothing : h.kmallocMapped 0 = some (0, h) := by
      have booted : h.heapEnd ≠ 0 := by omega
      have within : h.heapEnd ≤ kheapEnd := endLe
      simp [Heap.kmallocMapped, Heap.kmalloc, Heap.kmallocRaw, Heap.klmalloc, booted, within]
    rw [asked, noFile, Nat.mul_zero, nothing] at allocated
    obtain ⟨rfl, rfl⟩ := Prod.mk.inj (Option.some.inj allocated)
    rw [mountFiles, if_neg (noFile ▸ Nat.lt_irrefl 0)] at filled
    obtain rfl := Option.some.inj filled
    exact ⟨L, wf, unused⟩
  · have positive : 0 < h.mem.read32 start := Nat.pos_of_ne_zero noFile
    obtain ⟨fs, len, mounted', -, -, place, kept, -⟩ :=
      ramfsMount_spec wf isStart image below positive addrLt allocated
    obtain rfl := Option.some.inj (mounted'.symm.trans mounted)
    rw [asked] at allocated
    obtain ⟨hi, L', extends', slot, room, unused', -⟩ :=
      wf.kmallocMapped_unused unused (by omega) (by omega) allocated
    have nfiles : h₁.mem.read32 start = h.mem.read32 start :=
      Memory.read32_congr fun k bound => extends'.bytes _ (Or.inl (by omega))
    obtain ⟨wf₂, unused₂⟩ := extends'.wf.writeSlot_unused unused' slot (m := m)
      fun a above outside =>
      kept.kept a fun j inside => by
        have short := place.short j inside
        omega
    exact ⟨L', wf₂, unused₂⟩

/-- The first process has 0 in its field `next` when `init_kernel_process` returns. -/
theorem next_firstProcess {mem : Memory} {placementPointer : Nat}
    (room : placementPointer + 0x1000 ≤ kheapEnd) (isStart : mem.read32 modsAddr = start)
    (image : Image mem start stop) (below : stop ≤ placementPointer) (addrLt : readAddr < 2 ^ 32)
    (mounted : ramfsMount readAddr modsAddr (Tenants.booted mem placementPointer).heap = some fs)
    {names : Names} {initialEsp init : Nat} {system : System}
    (made : initKernelProcess names initialEsp fs.heap = some (init, system)) :
    get system.heap init .next = 0 := by
  have started := (Tenants.settled_booted mem room).wf
  obtain ⟨L, wf, unused⟩ := ramfsMount_unused started (unused_of_noBins fun _ => rfl) isStart image
    below addrLt mounted
  obtain ⟨⟨p, h⟩, allocated, rest⟩ := Option.map_eq_some_iff.mp made
  obtain ⟨rfl, rfl⟩ := Prod.mk.inj rest
  obtain ⟨hi, L', extends', slot, within, -, zero⟩ :=
    wf.kmallocMapped_unused unused (by decide : 0 < sizeofProcess) (by decide) allocated
  have bucket : klmallocBinSize sizeofProcess = 6 := by decide
  rw [bucket] at zero
  have fresh : get h p .next = 0 := zero (by decide) 164 ⟨by decide, by decide, by decide⟩
  -- The four fields that are stored are others.
  have owned : Owned h _ L' [p] :=
    ⟨extends'.wf, fun q isProc => List.mem_singleton.mp isProc ▸ ⟨hi, slot, within⟩⟩
  have isProc : p ∈ [p] := List.mem_singleton_self p
  have owned₁ := owned.set isProc .pid 0
  have owned₂ := owned₁.set isProc .name names.kernel
  have owned₃ := owned₂.set isProc .stack (wrap32 (initialEsp + 1))
  rw [owned₃.get_set isProc isProc, owned₂.get_set isProc isProc, owned₁.get_set isProc isProc,
    owned.get_set isProc isProc]
  simpa using fresh

/-- `init_tasking` and what follows it, from the heap in which `init` is the first process. -/
def startOn (interruptFlag : Bool) (h : Heap) (init : Nat) : Tasking.Machine :=
  Tasking.Machine.start interruptFlag (nodeAt (get h init .next))

/-- The boot starts the tasking machine without a stale `next`. -/
theorem startOn_firstProcess {mem : Memory} {placementPointer : Nat}
    (room : placementPointer + 0x1000 ≤ kheapEnd) (isStart : mem.read32 modsAddr = start)
    (image : Image mem start stop) (below : stop ≤ placementPointer) (addrLt : readAddr < 2 ^ 32)
    (mounted : ramfsMount readAddr modsAddr (Tenants.booted mem placementPointer).heap = some fs)
    {names : Names} {initialEsp init : Nat} {system : System}
    (made : initKernelProcess names initialEsp fs.heap = some (init, system))
    (interruptFlag : Bool) :
    startOn interruptFlag system.heap init = Tasking.Machine.start interruptFlag none := by
  rw [startOn, next_firstProcess room isStart image below addrLt mounted made, nodeAt_zero]

end Balloon.Process
