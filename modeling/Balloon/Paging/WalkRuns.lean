import Balloon.Paging.MemoryBoot
import Balloon.Paging.MirrorClone

/-!
Owns the runs of `get_page`, `alloc_frame`, `clone_directory` and `init_heap` from what
`init_paging` leaves, and the law that along them the processor and the kernel find the same
pages as long as neither a bit of the bitmap nor a copied page falls on a directory or a table.
-/

namespace Balloon.Paging

open Balloon.Foundation
open Balloon.Libc
open Balloon.Allocator
open Balloon.Frames

/-! ### The start of a run -/

namespace Paged

/-- What `init_paging` leaves, with its directory. -/
def boot (undef : Nat → Nat → BitVec 32) (h : Heap) : Option Paged :=
  (Machine.initPagingMaps undef h).map fun s => ⟨s, [s.kernelDirectory], []⟩

end Paged

/-- The words of the bitmap at `start`, and the word of each frame that `init_paging` may take from
the return register, are off `kernel_directory` and its tables. -/
structure BitmapOff (start : Nat) (undef : Nat → Nat → BitVec 32) : Prop where
  words : start + bitmapSize ≤ bootDirectory start
  values : ∀ l i, WordOff start (bootDirectory start) 0 (fallenFrame (undef l i))

section

variable {h h' : Heap} {start dir c n t : Nat} {s : Machine} {undef : Nat → Nat → BitVec 32}

theorem OnlyPlaced.unused (placed : OnlyPlaced h h') (unused : Unused h) : Unused h' where
  binHead := fun b => placed.binHead ▸ unused.binHead b
  bigForward := fun i => placed.bigForward ▸ unused.bigForward i
  bigLevel := placed.bigLevel.trans unused.bigLevel
  newest := placed.newest.trans unused.newest

/-- A frame of the bitmap has its word in front of the directory. -/
theorem Answer.wordOff {v : Nat} {u : BitVec 32} {idx : Nat} (answer : Answer s v n u idx)
    (site : Site start dir bootFrames 0) (value : WordOff start dir 0 (fallenFrame u)) :
    WordOff start dir 0 (idx % 2 ^ 20) := by
  have total : bootFrames = 0x1000 := rfl
  rcases answer.source with inMap | rfl
  · exact site.wordOff (by omega)
  · exact value

theorem Underway.close (underway : Underway start dir c bootFrames 0 n (tablesFor n) s)
    (site : Site start dir bootFrames 0)
    (close : n * 0x1000 < s.heap.placementPointer + 0x2000) : n ≤ 0x2000 := by
  have placement : s.heap.placementPointer = dir + 0x4000 + 0x2000 * tablesFor n :=
    underway.tabled.placement
  have memEnd : memEndPage = 0x1000000 := rfl
  have room := site.room
  simp only [tablesFor] at placement
  omega

/-- Whatever memory held, the rounds leave the directory as it should be. -/
theorem Site.rounds (h : Heap) (site : Site start dir bootFrames 0) (c : Nat) :
    BootRounds dir True (fun u => WordOff start dir 0 (fallenFrame u))
      (fun n s => Underway start dir c bootFrames 0 n (tablesFor n) s ∧ OnlyPlaced h s.heap) where
  placement := fun n s here => here.1.tabled.placement
  next := by
    intro n s u value bound here
    obtain ⟨underway, placed⟩ := here
    obtain ⟨idx, -, ⟨-, panics⟩ | ⟨s', returned, mapped⟩⟩ :=
      underway.next site bound (Nat.zero_le _) fun idx answer => answer.wordOff site value
    · exact Or.inl ⟨trivial, panics⟩
    · refine Or.inr ⟨s', returned, mapped.underway, ?_⟩
      exact placed.trans (onlyPlaced_mapPage underway.tabled.heapEnd returned)
  again := by
    intro p n s u value _ before close here
    obtain ⟨underway, placed⟩ := here
    rcases underway.again site (underway.close site close) before (Nat.zero_le _)
      ((underway.answer site u).wordOff site value) with ⟨may, panics⟩ | ⟨s', returned, same⟩
    · exact Or.inl ⟨may, panics⟩
    · refine Or.inr ⟨s', returned, same, ?_⟩
      exact placed.trans (onlyPlaced_mapPage underway.tabled.heapEnd returned)

/-- What `init_paging` leaves, whatever memory held. -/
theorem underway_of_boot (fresh : h.heapEnd = 0) (low : 0x1000 ≤ h.placementPointer)
    (fits : bootEnd h.placementPointer ≤ memEndPage) (off : BitmapOff h.placementPointer undef)
    (returned : Machine.initPagingMaps undef h = some s) :
    Underway h.placementPointer (bootDirectory h.placementPointer)
      (bootDirectory h.placementPointer + 4096) bootFrames 0 0x2000 8 s ∧ OnlyPlaced h s.heap := by
  obtain ⟨dirLow, aligned⟩ := bootDirectory_page h.placementPointer
  obtain ⟨s₀, s₁, made, touched, begun⟩ := begun_boot fresh low fits
  have size : bitmapSize = 512 := rfl
  have total : bootFrames = 0x1000 := rfl
  have words := off.words
  have site : Site h.placementPointer (bootDirectory h.placementPointer) bootFrames 0 :=
    { low := dirLow
      aligned := aligned
      room := fits
      order := by omega
      whole := by decide
      inMap := Nat.le_refl _
      below := by omega
      few := by decide }
  have first : Underway h.placementPointer (bootDirectory h.placementPointer)
      (physicalAddrOf s₁.mem (bootDirectory h.placementPointer)) bootFrames 0 0 0 s₁ :=
    { tabled := begun.tabled
      address := rfl
      pointer := begun.pointer
      nframes := begun.nframes
      marked := fun f none => absurd none (Nat.not_lt_zero f) }
  have early := site.rounds h
    (physicalAddrOf s₁.mem (bootDirectory h.placementPointer))
  have late := site.rounds h (bootDirectory h.placementPointer + 4096)
  have yields := early.initPagingMaps late aligned fits off.values made touched
    ⟨first, begun.placed⟩ fun n s close here => ?_
  · rcases yields with ⟨-, panics⟩ | ⟨s', isReturned, done⟩
    · rw [panics] at returned
      contradiction
    · rw [isReturned] at returned
      exact Option.some.inj returned ▸ done
  · have bound := here.1.close site close
    exact ⟨here.1.setPhysicalAddr site (by simp only [tablesFor]; omega), here.2.write _⟩

theorem Underway.table_range (underway : Underway start dir c bootFrames 0 n 8 s) {i : Nat}
    (index : i < 1024) (made : tableOf s.mem dir i ≠ 0) :
    dir + 0x3000 ≤ tableOf s.mem dir i ∧
      tableOf s.mem dir i + 0x1000 ≤ s.heap.placementPointer := by
  have placement : s.heap.placementPointer = dir + 0x4000 + 0x2000 * 8 :=
    underway.tabled.placement
  have table : tableOf s.mem dir i = bootTable dir 8 i := underway.tabled.tables i index
  rw [table] at made ⊢
  unfold bootTable at *
  split_ifs at * <;> omega

/-- The directory that `init_paging` leaves is mirrored. -/
theorem Underway.mirrored (underway : Underway start dir (dir + 4096) bootFrames 0 n 8 s)
    (low : 0x1000 ≤ dir) (aligned : dir % 0x1000 = 0) : Mirrored s.mem dir := by
  refine ⟨aligned, low, underway.address, fun i index => ?_⟩
  have table : tableOf s.mem dir i = bootTable dir 8 i := underway.tabled.tables i index
  have physical := underway.tabled.physical i index
  change tablePhysicalOf s.mem dir i = _ at physical
  rw [physical, table]
  by_cases absent : bootTable dir 8 i = 0
  · exact Or.inl ⟨absent, if_pos absent⟩
  · refine Or.inr ⟨absent, ?_, if_neg absent⟩
    unfold bootTable
    split_ifs <;> omega

theorem Underway.inDirectories (underway : Underway start dir c bootFrames 0 n 8 s) {a : Nat}
    (inDirs : InDirectories s.mem [dir] a) : dir ≤ a ∧ a < s.heap.placementPointer := by
  have size : sizeofDirectory = 8196 := rfl
  have tableSize : sizeofTable = 0x1000 := rfl
  have placement : s.heap.placementPointer = dir + 0x4000 + 0x2000 * 8 :=
    underway.tabled.placement
  obtain ⟨d, member, inD⟩ := inDirs
  obtain rfl := List.mem_singleton.mp member
  rcases inD with ⟨above, below⟩ | ⟨i, index, made, above, below⟩
  · omega
  · have range := underway.table_range index made
    omega

/-- `init_paging` leaves the system in order, with one directory and every frame marked. -/
theorem Underway.sound (underway : Underway start dir (dir + 4096) bootFrames 0 0x2000 8 s)
    (low : 0x1000 ≤ dir) (aligned : dir % 0x1000 = 0) (room : dir + 0x14000 ≤ memEndPage)
    (words : start + bitmapSize ≤ dir) (unused : Unused s.heap) :
    Sound s.frames s.kernel [dir] ∧ s.Full := by
  have size : sizeofDirectory = 8196 := rfl
  have tableSize : sizeofTable = 0x1000 := rfl
  have memEnd : memEndPage = 0x1000000 := rfl
  have total : bootFrames = 0x1000 := rfl
  have pointer := underway.pointer
  have placement : s.kernel.heap.placementPointer = dir + 0x4000 + 0x2000 * 8 :=
    underway.tabled.placement
  constructor
  · exact
      { arena := by
          refine .bump underway.tabled.heapEnd (by omega) fun a isLive => ?_
          rcases isLive with inDirs | inMap
          · exact (underway.inDirectories inDirs).2
          · unfold Inside at inMap
            omega
        unused := fun _ => unused
        member := List.mem_singleton.mpr underway.tabled.directory
        laid :=
          { mirrored := by
              intro d member
              exact List.mem_singleton.mp member ▸ underway.mirrored low aligned
            distinct := by
              intro d member e memberE different
              exact absurd
                ((List.mem_singleton.mp member).trans (List.mem_singleton.mp memberE).symm) different
            separate := by
              intro d member e memberE i a index made inTable inDirectory
              obtain rfl := List.mem_singleton.mp member
              obtain rfl := List.mem_singleton.mp memberE
              have range := underway.table_range index made
              change Inside (tableOf s.mem _ i) sizeofTable a at inTable
              unfold Inside at inTable inDirectory
              omega }
        bitmap := by
          intro a inMap inDirs
          have above := (underway.inDirectories inDirs).1
          unfold Inside at inMap
          omega }
  · refine ⟨by omega, underway.nframes, fun f inMap => underway.marked f (by omega) inMap⟩

end

/-! ### A run -/

namespace Paged

/-- A table that is made has its block in front of the end of the address space, the bit of a frame
from the return register is off the directories, and so is what a clone touches. -/
def Spares (s : Paged) : PagingCall → Prop
  | .getPage address dir => tableOf s.machine.mem dir (tableIndex address) = 0 →
      BumpSpace s.machine.heap sizeofTable
  | .allocFrame page _ _ undef => (entryAt s.machine.mem page).frame = 0 →
      MarksOff s.machine s.directories undef
  | .cloneDirectory src undef =>
      (s.machine.heap.heapEnd = 0 → reserve s.machine.kernel src ≤ 2 ^ 32) ∧
        CopiesOff s.machine s.directories src undef
  | .initHeap => True

/-- The invariant of a run. -/
structure InOrder (s : Paged) : Prop where
  sound : Sound s.machine.frames s.machine.kernel s.directories
  full : s.machine.Full
  entries : ∀ page ∈ s.entries, IsEntry s.machine.mem s.directories page

theorem InOrder.stepped {s s' : Paged} {call : PagingCall} (inOrder : InOrder s)
    (proper : s.Proper call) (spares : s.Spares call)
    (placed : IdentityPlaced s'.machine.kernel s'.directories)
    (returned : s.step call = some s') : InOrder s' := by
  cases call with
  | getPage address dir =>
      obtain ⟨⟨page, t⟩, found, rfl⟩ := Option.map_eq_some_iff.mp returned
      obtain ⟨sound, same, keeps, isEntry⟩ :=
        inOrder.sound.getPage proper.2 proper.1 spares found placed
      refine ⟨same.pointer ▸ sound, inOrder.full.keep same, List.forall_mem_cons.mpr
        ⟨isEntry, fun entry member => ?_⟩⟩
      exact (inOrder.entries entry member).keep keeps.tables
  | allocFrame page isKernel isWriteable undef =>
      obtain ⟨t, given, rfl⟩ := Option.map_eq_some_iff.mp returned
      obtain ⟨sound, same, kept⟩ := inOrder.sound.allocFrame inOrder.full
        (inOrder.entries page proper) spares given
      refine ⟨same.pointer ▸ sound, inOrder.full.keep same, fun entry member => ?_⟩
      apply (inOrder.entries entry member).keep
      intro d inDirs i index _
      exact tableOf_congr index (kept d inDirs)
  | cloneDirectory src undef =>
      obtain ⟨⟨dir, t⟩, cloned, rfl⟩ := Option.map_eq_some_iff.mp returned
      obtain ⟨sound, same, keeps⟩ :=
        inOrder.sound.cloneDirectory inOrder.full proper spares.1 spares.2 cloned placed
      refine ⟨same.pointer ▸ sound, inOrder.full.keep same, fun entry member => ?_⟩
      exact ((inOrder.entries entry member).keep keeps.tables).mono
        (List.subset_cons_self dir s.directories)
  | initHeap =>
      obtain rfl := Option.some.inj returned
      exact ⟨(inOrder.sound.initHeap proper.1 proper.2).of_heap rfl rfl,
        inOrder.full.keep ⟨rfl, rfl, fun _ _ => rfl⟩, inOrder.entries⟩

theorem InOrder.run {s : Paged} {calls : List PagingCall} (inOrder : InOrder s)
    (proper : EveryStep step Proper s calls) (spares : EveryStep step Spares s calls)
    (placed : ∀ s' ∈ visited step s calls, IdentityPlaced s'.machine.kernel s'.directories) :
    ∀ s' ∈ visited step s calls, InOrder s' := by
  refine visited_invariant ?_ inOrder ((proper.and spares).and (everyStep_of_visited placed))
  intro s call s' before allowed returned
  exact before.stepped allowed.1.1 allowed.1.2 (allowed.2 s' returned) returned

/-- What `init_paging` leaves is in order. -/
theorem inOrder_boot {h : Heap} (fresh : h.heapEnd = 0) (low : 0x1000 ≤ h.placementPointer)
    (fits : bootEnd h.placementPointer ≤ memEndPage) (unused : Unused h)
    {undef : Nat → Nat → BitVec 32} (off : BitmapOff h.placementPointer undef) {s : Paged}
    (booted : Paged.boot undef h = some s) : InOrder s := by
  obtain ⟨t, returned, rfl⟩ := Option.map_eq_some_iff.mp booted
  obtain ⟨dirLow, aligned⟩ := bootDirectory_page h.placementPointer
  obtain ⟨underway, placed⟩ := underway_of_boot fresh low fits off returned
  have directory : t.kernelDirectory = bootDirectory h.placementPointer :=
    underway.tabled.directory
  obtain ⟨sound, full⟩ := underway.sound dirLow aligned fits off.words (placed.unused unused)
  exact ⟨directory ▸ sound, full, fun page none => absurd none List.not_mem_nil⟩

/-- For every directory and every address the processor finds what `get_page` finds. -/
def WalksAgree (s : Paged) : Prop :=
  ∀ d ∈ s.directories, ∀ v, v < 2 ^ 32 →
    mmuWalk s.machine.mem (physicalAddrOf s.machine.mem d) v = kernelWalk s.machine.kernel v d

end Paged

end Balloon.Paging
