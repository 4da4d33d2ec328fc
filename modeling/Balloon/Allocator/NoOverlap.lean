import Balloon.Allocator.Client

/-!
Owns the safety of the kernel heap over whole runs: live blocks overlap neither
each other nor the allocator's own bookkeeping, aligned blocks start on a page,
and releasing what does not belong to the heap changes nothing.
-/

namespace Balloon.Allocator

open Balloon.Foundation
open Balloon.Libc

/-- The cells on the free stack of the bin at `x`. -/
def FreeCell (h : Heap) (x : Nat) : Nat → Prop := Linked (h.stackNext x)

/-- `sizeof` of the header at `x`, told apart the way `klfree` does. -/
def headerSize (h : Heap) (x : Nat) : Nat := if h.sizeOf x > 11 then 48 else 16

namespace Client

variable {c : Client} {base : Nat} {L : Layout}

/-- What holds at every point of a run. -/
structure Safe (c : Client) : Prop where
  disjoint : c.blocks.Pairwise fun b d => b.Avoids d.ptr (d.ptr + d.size)
  headers : ∀ b ∈ c.blocks, ∀ x ∈ c.headers, b.Avoids x (x + headerSize c.heap x)
  links : ∀ b ∈ c.blocks, ∀ x ∈ c.headers, ∀ cell, FreeCell c.heap x cell →
    b.Avoids cell (cell + 4)
  aligned : ∀ b ∈ c.blocks, b.aligned = true → b.ptr % 0x1000 = 0

/-- Every call returns, and releasing `NULL` or an early block leaves the
allocator as it is. -/
def Honours (c : Client) : Call → Prop
  | .kfree ptr rand => (∃ c', c.step (.kfree ptr rand) = some c') ∧
      ((ptr = 0 ∨ ∃ b ∈ c.early, b.ptr = ptr) → c.heap.kfree rand ptr = some c.heap)
  | call => ∃ c', c.step call = some c'

/-- Requests and `heap_end` stay below `KHEAP_END`. -/
def BelowLimit (c : Client) (call : Call) : Prop :=
  (∀ size align, call = .kmallocRaw size align → size < kheapEnd) ∧
    ∀ c', c.step call = some c' → c'.heap.heapEnd < kheapEnd

def Allowed (c : Client) (call : Call) : Prop := c.Proper call ∧ c.BelowLimit call

/-! ### The invariant is safe -/

theorem Managed.headerSize_eq (inv : Managed c base L) {x : Nat} {k : Bin}
    (isBin : L.bins x = some k) : headerSize c.heap x = k.header := by
  cases k with
  | small b =>
      obtain ⟨-, bucket, size, -⟩ := inv.wf.bin x _ isBin
      rw [headerSize, size, if_neg (by omega), Bin.header_small]
  | big n =>
      obtain ⟨-, size, -⟩ := inv.wf.bin x _ isBin
      have pages := (inv.wf.placed.range x _ isBin).2.1
      rw [Bin.pages_big] at pages
      rw [headerSize, if_pos (by omega), Bin.header_big]

/-- A free cell of a bin: a cell of a small bin, or the link word of a free big
block. -/
theorem Managed.freeCell (inv : Managed c base L) {x cell : Nat} {k : Bin}
    (isBin : L.bins x = some k) (free : FreeCell c.heap x cell) :
    (∃ b, k = .small b ∧ cell ∈ L.free x) ∨
      ∃ n, k = .big n ∧ x ∈ L.level 0 ∧ cell = x + 48 := by
  cases k with
  | small b =>
      obtain ⟨-, -, -, stack, -, -⟩ := inv.wf.bin x _ isBin
      exact Or.inl ⟨b, rfl, stack.mem_iff_linked.mpr free⟩
  | big n =>
      obtain ⟨-, -, freeHead, takenHead⟩ := inv.wf.bin x _ isBin
      right
      by_cases listed : x ∈ L.level 0
      · obtain ⟨head, link⟩ := freeHead listed
        have stack : Path (c.heap.stackNext x) none [x + 48] := by
          refine ⟨?_, ?_⟩
          · simp only [Heap.stackNext, head]
            exact nodeAt_pos (by omega)
          · change nodeAt (c.heap.mem.read32 (x + 48)) = none
            rw [link]
            exact nodeAt_zero
        have member := stack.mem_iff_linked.mpr free
        exact ⟨n, rfl, listed, by simpa using member⟩
      · have stack : Path (c.heap.stackNext x) none [] := by
          change nodeAt (c.heap.headOf x) = none
          rw [takenHead listed]
          exact nodeAt_zero
        have member := stack.mem_iff_linked.mpr free
        contradiction

theorem slotOf_le (ptr : Nat) : slotOf ptr ≤ ptr := by
  unfold slotOf
  split <;> omega

theorem Managed.safe (inv : Managed c base L) : Safe c := by
  have placement := inv.wf.placementLt
  have where_ : ∀ b ∈ c.blocks, b.ptr + b.size ≤ c.heap.placementPointer ∨
      ∃ lo hi, L.Slot lo hi ∧ lo ≤ b.ptr ∧ b.ptr + b.size ≤ hi := by
    intro b member
    rcases List.mem_append.mp member with early | live
    · exact Or.inl (inv.bumped.below b early).2
    · obtain ⟨hi, slot, room, -⟩ := inv.held b live
      exact Or.inr ⟨_, hi, slot, slotOf_le b.ptr, room⟩
  refine ⟨?_, ?_, ?_, ?_⟩
  · refine List.pairwise_append.mpr ⟨inv.bumped.disjoint, ?_, ?_⟩
    · refine inv.distinct.imp_of_mem ?_
      intro b d inB inD different
      obtain ⟨hi, slot, room, -⟩ := inv.held b inB
      obtain ⟨hi', slot', room', -⟩ := inv.held d inD
      have apart := inv.wf.slot_disjoint slot slot' different
      have leB := slotOf_le b.ptr
      have leD := slotOf_le d.ptr
      unfold Block.Avoids
      omega
    · intro b early d live
      have below := inv.bumped.below b early
      have above := inv.placement_lt live
      exact Or.inl (by omega)
  · intro b member x inHeaders
    obtain ⟨k, isBin⟩ := inv.headers x inHeaders
    have range := inv.wf.placed.range x k isBin
    rw [inv.headerSize_eq isBin]
    rcases where_ b member with early | ⟨lo, hi, slot, low, room⟩
    · exact Or.inl (by omega)
    · have apart := inv.wf.slot_header slot isBin
      unfold Block.Avoids
      omega
  · intro b member x inHeaders cell free
    obtain ⟨k, isBin⟩ := inv.headers x inHeaders
    have range := inv.wf.placed.range x k isBin
    rcases inv.freeCell isBin free with ⟨b', rfl, inStack⟩ | ⟨n, rfl, listed, rfl⟩
    · obtain ⟨-, -, -, -, -, isCell⟩ := inv.wf.bin x _ isBin
      have bounds := (isCell cell inStack).bounds
      have width := four_le_two_pow b'
      rcases where_ b member with early | ⟨lo, hi, slot, low, room⟩
      · exact Or.inl (by omega)
      · have apart := inv.wf.slot_freeCell slot isBin inStack
        unfold Block.Avoids
        omega
    · rw [Bin.pages_big] at range
      rcases where_ b member with early | ⟨lo, hi, slot, low, room⟩
      · exact Or.inl (by omega)
      · have apart := inv.wf.slot_freeBlock slot isBin listed
        unfold Block.Avoids
        omega
  · intro b member
    rcases List.mem_append.mp member with early | live
    · exact inv.bumped.aligned b early
    · obtain ⟨-, -, -, -, aligned⟩ := inv.held b live
      exact aligned

theorem Bumping.safe (inv : Bumping c) : Safe c where
  disjoint := inv.bumped.disjoint
  headers := by simp [inv.headers]
  links := by simp [inv.headers]
  aligned := inv.bumped.aligned

theorem Inv.safe (inv : Inv c) : Safe c := by
  rcases inv with bumping | ⟨base, L, managed⟩
  · exact bumping.safe
  · exact managed.safe

/-! ### Whole runs -/

theorem inv_boot (mem : Memory) {placementPointer : Nat} (low : 0x1000 ≤ placementPointer)
    (high : placementPointer < 2 ^ 32) : Inv (boot mem placementPointer) :=
  Or.inl ⟨rfl, ⟨low, high⟩, fun _ => rfl, fun _ => rfl, rfl, rfl, rfl, fun _ => rfl,
    bumped_nil _⟩

/-- An allowed call returns, does what it should, and keeps the invariant. -/
theorem inv_step (inv : Inv c) {call : Call} (allowed : Allowed c call) (noWrap : NoWrap c call) :
    Honours c call ∧ ∀ c', c.step call = some c' → Inv c' := by
  obtain ⟨proper, sizes, limit⟩ := allowed
  have concluded : ∀ {c'}, c.step call = some c' → Inv c' →
      ∀ c'', c.step call = some c'' → Inv c'' := by
    intro c' stepped inv' c'' stepped'
    exact Option.some.inj (stepped.symm.trans stepped') ▸ inv'
  cases call with
  | kmallocRaw size align =>
      have small := sizes size align rfl
      rcases inv with bumping | ⟨base, L, managed⟩
      · obtain ⟨c', stepped, inv'⟩ := bumping.kmallocRaw small noWrap
        exact ⟨⟨c', stepped⟩, concluded stepped (Or.inl inv')⟩
      · have fits : need size align = 0 ∨ c.heap.Fits (need size align) := by
          by_cases nothing : need size align = 0
          · exact Or.inl nothing
          · obtain ⟨result, returned, within⟩ :=
              managed.wf.fits_of_within (Nat.pos_of_ne_zero nothing) (small.trans (by decide))
            have stepped : c.step (.kmallocRaw size align) =
                some (c.served size align result.1 result.2) := by
              rw [step, returned, Option.map_some]
            exact Or.inr (within (limit _ stepped).le)
        obtain ⟨c', stepped, L', inv'⟩ := managed.kmallocRaw fits
        exact ⟨⟨c', stepped⟩, concluded stepped (Or.inr ⟨base, L', inv'⟩)⟩
  | initHeap =>
      rcases inv with bumping | ⟨base, L, managed⟩
      · obtain ⟨c', stepped, inv'⟩ := bumping.initHeap proper (limit _ rfl).le
        exact ⟨⟨c', stepped⟩, concluded stepped inv'⟩
      · have unready : c.ready = false := proper
        rw [managed.ready] at unready
        contradiction
  | kfree ptr rand =>
      rcases inv with bumping | ⟨base, L, managed⟩
      · obtain ⟨unchanged, c', stepped, inv'⟩ := bumping.kfree rand proper.2
        exact ⟨⟨⟨c', stepped⟩, fun _ => unchanged⟩, concluded stepped (Or.inl inv')⟩
      · obtain ⟨unchanged, -, c', stepped, L', inv'⟩ := managed.kfree rand proper.2
        exact ⟨⟨⟨c', stepped⟩, unchanged⟩, concluded stepped (Or.inr ⟨base, L', inv'⟩)⟩
  | write a v =>
      rcases inv with bumping | ⟨base, L, managed⟩
      · obtain ⟨c', stepped, inv'⟩ := bumping.write a v
        exact ⟨⟨c', stepped⟩, concluded stepped (Or.inl inv')⟩
      · obtain ⟨c', stepped, inv'⟩ := managed.write v proper
        exact ⟨⟨c', stepped⟩, concluded stepped (Or.inr ⟨base, L, inv'⟩)⟩

/-- In every run in which `placement_pointer` does not wrap around, every point
is safe and every call does what it should. -/
theorem safe_along_run (mem : Memory) {placementPointer : Nat} (low : 0x1000 ≤ placementPointer)
    (high : placementPointer < 2 ^ 32) (calls : List Call)
    (allowed : EveryStep step Allowed (boot mem placementPointer) calls)
    (noWrap : EveryStep step NoWrap (boot mem placementPointer) calls) :
    (∀ c ∈ visited step (boot mem placementPointer) calls, Safe c) ∧
      EveryStep step Honours (boot mem placementPointer) calls := by
  have both := allowed.and noWrap
  have start := inv_boot mem low high
  refine ⟨?_, ?_⟩
  · intro c member
    refine Inv.safe (visited_invariant ?_ start both c member)
    exact fun s call s' inv may stepped => (inv_step inv may.1 may.2).2 s' stepped
  · refine everyStep_of_invariant ?_ ?_ start both
    · exact fun s call s' inv may stepped => (inv_step inv may.1 may.2).2 s' stepped
    · exact fun s call inv may => (inv_step inv may.1 may.2).1

/-- A run to which `safe_along_run` applies: a block from before `init_heap` and
a cell of the first small bin. -/
theorem safe_along_run_firstCell :
    (∀ c ∈ visited step (boot (fun _ => 0) 0x1000)
        [.kmallocRaw 8 false, .initHeap, .kmallocRaw 16 false], Safe c) ∧
      EveryStep step Honours (boot (fun _ => 0) 0x1000)
        [.kmallocRaw 8 false, .initHeap, .kmallocRaw 16 false] := by
  let start := boot (fun _ => 0) 0x1000
  let early := start.served 8 false 0x1000 { start.heap with placementPointer := 0x1008 }
  have first : start.step (.kmallocRaw 8 false) = some early := by
    simp [step, Heap.kmallocRaw, wrap32, start, boot, early]
  let started : Client := { early with heap := early.heap.initHeap, ready := true }
  have second : early.step .initHeap = some started := rfl
  have heapEnd : started.heap.heapEnd = 0x2000 := by decide
  have third : started.step (.kmallocRaw 16 false) = some (started.served 16 false
      (started.heap.klmallocSmall 2).1 (started.heap.klmallocSmall 2).2) := by
    have bucket : klmallocBinSize 16 = 2 := by decide
    simp [step, Heap.kmallocRaw, heapEnd, Heap.klmalloc, bucket]
  have grown : (started.heap.klmallocSmall 2).2.heapEnd = 0x3000 := by
    rw [heapEnd_klmallocSmall _ rfl, heapEnd]
    decide
  refine safe_along_run _ (by decide) (by decide) _ ?_ ?_
  · refine ⟨⟨trivial, by rintro _ _ ⟨⟩; decide, fun c stepped => ?_⟩, fun c stepped => ?_⟩
    · obtain rfl := Option.some.inj (first.symm.trans stepped)
      decide
    · obtain rfl := Option.some.inj (first.symm.trans stepped)
      refine ⟨⟨rfl, by rintro _ _ ⟨⟩, fun c stepped => ?_⟩, fun c stepped => ?_⟩
      · obtain rfl := Option.some.inj (second.symm.trans stepped)
        decide
      · obtain rfl := Option.some.inj (second.symm.trans stepped)
        refine ⟨⟨trivial, by rintro _ _ ⟨⟩; decide, fun c stepped => ?_⟩, fun _ _ => trivial⟩
        obtain rfl := Option.some.inj (third.symm.trans stepped)
        change (started.heap.klmallocSmall 2).2.heapEnd < kheapEnd
        rw [grown]
        decide
  · refine ⟨fun _ result returned => ?_, fun c stepped => ?_⟩
    · simp [Heap.kmallocRaw, boot, wrap32] at returned
      subst returned
      decide
    · obtain rfl := Option.some.inj (first.symm.trans stepped)
      refine ⟨trivial, fun c stepped => ?_⟩
      obtain rfl := Option.some.inj (second.symm.trans stepped)
      refine ⟨fun bumping => ?_, fun _ _ => trivial⟩
      rw [heapEnd] at bumping
      contradiction

/-- Close to the end of the address space `placement_pointer` wraps around, and
below `0x1000` the aligned allocation is not aligned. -/
theorem bump_wrap_unaligned :
    ¬ ∀ (mem : Memory) (placementPointer : Nat) (calls : List Call), 0x1000 ≤ placementPointer →
      placementPointer < 2 ^ 32 → EveryStep step Allowed (boot mem placementPointer) calls →
      ∀ c ∈ visited step (boot mem placementPointer) calls, Safe c := by
  intro always
  let start := boot (fun _ => 0) 0xFFFFFFFF
  let wrapped := start.served 2 false 0xFFFFFFFF { start.heap with placementPointer := 1 }
  let unaligned := wrapped.served 4 true 1 { wrapped.heap with placementPointer := 5 }
  have first : start.step (.kmallocRaw 2 false) = some wrapped := by
    simp [step, Heap.kmallocRaw, wrap32, start, boot, wrapped]
  have second : wrapped.step (.kmallocRaw 4 true) = some unaligned := by
    simp [step, Heap.kmallocRaw, wrap32, start, boot, wrapped, served, unaligned]
  have allowed : EveryStep step Allowed start
      [.kmallocRaw 2 false, .kmallocRaw 4 true, .initHeap] := by
    refine ⟨⟨trivial, by rintro _ _ ⟨⟩; decide, fun c stepped => ?_⟩, fun c stepped => ?_⟩
    · obtain rfl := Option.some.inj (first.symm.trans stepped)
      decide
    · obtain rfl := Option.some.inj (first.symm.trans stepped)
      refine ⟨⟨trivial, by rintro _ _ ⟨⟩; decide, fun c stepped => ?_⟩, fun c stepped => ?_⟩
      · obtain rfl := Option.some.inj (second.symm.trans stepped)
        decide
      · obtain rfl := Option.some.inj (second.symm.trans stepped)
        refine ⟨⟨rfl, by rintro _ _ ⟨⟩, fun c stepped => ?_⟩, fun _ _ => trivial⟩
        obtain rfl := Option.some.inj stepped
        decide
  have member : unaligned ∈ visited step start
      [.kmallocRaw 2 false, .kmallocRaw 4 true, .initHeap] := by
    rw [visited_cons_some first, visited_cons_some second]
    exact List.mem_cons_of_mem _ (List.mem_cons_of_mem _ (mem_visited_self _ _ _))
  have safe := always _ _ _ (by decide) (by decide) allowed unaligned member
  have aligned := safe.aligned ⟨1, 4, true⟩ (List.mem_cons_self ..) rfl
  exact absurd aligned (by decide)

end Client

end Balloon.Allocator
