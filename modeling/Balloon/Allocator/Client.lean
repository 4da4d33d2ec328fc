import Balloon.Allocator.Requests
import Balloon.Foundation.Transition
import Mathlib.Data.List.Pairwise

/-!
Owns the allocator together with its callers: the live blocks, the bin headers
`sbrk` has created, the calls and writes callers may make, and the invariant
that every live block of the heap sits in a slot of its own. The invariant is
kept by every allowed step that stays within the heap limit.
-/

namespace Balloon.Allocator

open Balloon.Foundation
open Balloon.Libc

/-- A block a caller holds, and whether it was asked for page-aligned. -/
structure Block where
  ptr : Nat
  size : Nat
  aligned : Bool

/-- The addresses `[ptr, ptr + size)` and `[lo, hi)` have nothing in common. -/
def Block.Avoids (b : Block) (lo hi : Nat) : Prop := b.ptr + b.size ≤ lo ∨ hi ≤ b.ptr

/-- The allocator, the blocks handed out before and after `init_heap`, and the
addresses of the bins created so far. -/
structure Client where
  heap : Heap
  early : List Block
  live : List Block
  headers : List Nat
  ready : Bool

inductive Call where
  | kmallocRaw (size : Nat) (align : Bool)
  | initHeap
  | kfree (ptr : Nat) (rand : Nat → Nat)
  | write (a : Nat) (v : UInt8)

namespace Client

/-- The blocks that are live, from before `init_heap` included. -/
def blocks (c : Client) : List Block := c.early ++ c.live

/-- The client after `kmalloc_raw` returned `ptr` and left the heap `h`. A null
pointer is no block. -/
def served (c : Client) (size : Nat) (align : Bool) (ptr : Nat) (h : Heap) : Client :=
  { c with
    heap := h
    early := if c.ready then c.early else ⟨ptr, size, align⟩ :: c.early
    live := if c.ready ∧ ptr ≠ 0 then ⟨ptr, size, align⟩ :: c.live else c.live
    headers := if h.heapEnd = c.heap.heapEnd then c.headers else c.heap.heapEnd :: c.headers }

def step (c : Client) : Call → Option Client
  | .kmallocRaw size align =>
      (c.heap.kmallocRaw size align).map fun result => c.served size align result.1 result.2
  | .initHeap =>
      some { c with heap := c.heap.initHeap, ready := true }
  | .kfree ptr rand =>
      (c.heap.kfree rand ptr).map fun h =>
        { c with heap := h, live := c.live.filter fun b => b.ptr ≠ ptr }
  | .write a v =>
      some { c with heap := { c.heap with mem := Function.update c.heap.mem a v } }

/-- The allocator before its first call: the static variables of the slab
allocator are zero. -/
def boot (mem : Memory) (placementPointer : Nat) : Client where
  heap :=
    { mem := mem
      placementPointer := placementPointer
      heapEnd := 0
      klmallocBinHead := fun _ => 0
      klmallocBigForward := fun _ => 0
      klmallocBigLevel := 0
      klmallocNewestBig := 0 }
  early := []
  live := []
  headers := []
  ready := false

/-! ### What callers do -/

/-- `init_heap` is called once, `kfree` only after it and only on live blocks,
`NULL` or blocks from before it, and callers write inside their live blocks. -/
def Proper (c : Client) : Call → Prop
  | .kmallocRaw _ _ => True
  | .initHeap => c.ready = false
  | .kfree ptr _ => c.ready = true ∧ (ptr = 0 ∨ ∃ b ∈ c.blocks, b.ptr = ptr)
  | .write a _ => ∃ b ∈ c.blocks, b.ptr ≤ a ∧ a < b.ptr + b.size

/-- While `kmalloc_raw` bumps `placement_pointer`, the pointer does not wrap
around. -/
def NoWrap (c : Client) : Call → Prop
  | .kmallocRaw size align => c.heap.heapEnd = 0 → ∀ result,
      c.heap.kmallocRaw size align = some result →
        c.heap.placementPointer ≤ result.2.placementPointer
  | _ => True

/-! ### Ownership -/

/-- The start of the slot a heap block was cut from. -/
def slotOf (ptr : Nat) : Nat := if ptr % 0x1000 = 0 then ptr - 4048 else ptr

/-- A heap block lies in the slot its pointer names. -/
def Held (L : Layout) (b : Block) : Prop :=
  ∃ hi, L.Slot (slotOf b.ptr) hi ∧ b.ptr + b.size ≤ hi ∧ 4096 ≤ b.ptr ∧
    (b.aligned = true → b.ptr % 0x1000 = 0)

/-- Blocks that `kmalloc_raw` cut off in front of `placement_pointer`. -/
structure Bumped (limit : Nat) (bs : List Block) : Prop where
  below : ∀ b ∈ bs, 0x1000 ≤ b.ptr ∧ b.ptr + b.size ≤ limit
  disjoint : bs.Pairwise fun b d => b.Avoids d.ptr (d.ptr + d.size)
  aligned : ∀ b ∈ bs, b.aligned = true → b.ptr % 0x1000 = 0

/-- The invariant before the heap exists: nothing but the bump allocator has
moved. -/
structure Bumping (c : Client) : Prop where
  heapEnd : c.heap.heapEnd = 0
  placement : 0x1000 ≤ c.heap.placementPointer ∧ c.heap.placementPointer < 2 ^ 32
  binHead : ∀ b, c.heap.klmallocBinHead b = 0
  bigForward : ∀ i, c.heap.klmallocBigForward i = 0
  bigLevel : c.heap.klmallocBigLevel = 0
  newest : c.heap.klmallocNewestBig = 0
  headers : c.headers = []
  noLive : c.ready = false → c.live = []
  bumped : Bumped c.heap.placementPointer c.blocks

/-- The invariant of the heap: every live heap block holds a slot of its own. -/
structure Managed (c : Client) (base : Nat) (L : Layout) : Prop where
  wf : WellFormed c.heap base L
  ready : c.ready = true
  bumped : Bumped c.heap.placementPointer c.early
  held : ∀ b ∈ c.live, Held L b
  distinct : c.live.Pairwise fun b d => slotOf b.ptr ≠ slotOf d.ptr
  headers : ∀ x ∈ c.headers, ∃ k, L.bins x = some k

def Inv (c : Client) : Prop := Bumping c ∨ ∃ base L, Managed c base L

/-! ### Bumping -/

theorem bumped_nil (limit : Nat) : Bumped limit [] := ⟨nofun, List.Pairwise.nil, nofun⟩

theorem Bumped.sublist {limit : Nat} {bs ds : List Block} (bumped : Bumped limit bs)
    (sub : ds.Sublist bs) : Bumped limit ds :=
  ⟨fun b member => bumped.below b (sub.subset member), bumped.disjoint.sublist sub,
    fun b member => bumped.aligned b (sub.subset member)⟩

theorem Bumped.perm {limit : Nat} {bs ds : List Block} (bumped : Bumped limit bs)
    (perm : bs.Perm ds) : Bumped limit ds where
  below := fun b member => bumped.below b (perm.mem_iff.mpr member)
  disjoint := (perm.pairwise_iff fun apart => Or.symm apart).mp bumped.disjoint
  aligned := fun b member => bumped.aligned b (perm.mem_iff.mpr member)

theorem Bumped.cons {limit : Nat} {bs : List Block} (bumped : Bumped limit bs) {b : Block}
    (low : 0x1000 ≤ b.ptr) (above : limit ≤ b.ptr)
    (aligned : b.aligned = true → b.ptr % 0x1000 = 0) : Bumped (b.ptr + b.size) (b :: bs) where
  below := by
    intro d member
    rcases List.mem_cons.mp member with rfl | inOld
    · exact ⟨low, Nat.le_refl _⟩
    · have old := bumped.below d inOld
      omega
  disjoint := by
    refine List.pairwise_cons.mpr ⟨?_, bumped.disjoint⟩
    intro d inOld
    have old := bumped.below d inOld
    exact Or.inr (by omega)
  aligned := by
    intro d member
    rcases List.mem_cons.mp member with rfl | inOld
    · exact aligned
    · exact bumped.aligned d inOld

/-- The bump allocator, when `placement_pointer` does not wrap around. -/
theorem bump_spec {h : Heap} (heapEnd : h.heapEnd = 0)
    (placement : 0x1000 ≤ h.placementPointer ∧ h.placementPointer < 2 ^ 32) {size : Nat}
    {align : Bool} (small : size < kheapEnd)
    (noWrap : ∀ result, h.kmallocRaw size align = some result →
      h.placementPointer ≤ result.2.placementPointer) :
    ∃ start, h.kmallocRaw size align =
        some (start, { h with placementPointer := start + size }) ∧
      h.placementPointer ≤ start ∧ start + size < 2 ^ 32 ∧
      (align = true → start % 0x1000 = 0) := by
  unfold kheapEnd at small
  have aligned : h.placementPointer / 0x1000 * 0x1000 ≠ 0 := by omega
  cases align with
  | false =>
      have unfolded : h.kmallocRaw size false = some (h.placementPointer,
          { h with placementPointer := wrap32 (h.placementPointer + size) }) := by
        simp [Heap.kmallocRaw, heapEnd]
      have grows := noWrap _ unfolded
      simp only [wrap32] at grows
      refine ⟨h.placementPointer, ?_, Nat.le_refl _, by omega, by simp⟩
      rw [unfolded, wrap32_of_lt (by omega)]
  | true =>
      have unfolded : h.kmallocRaw size true =
          some (wrap32 (h.placementPointer / 0x1000 * 0x1000 + 0x1000),
            { h with placementPointer :=
                wrap32 (wrap32 (h.placementPointer / 0x1000 * 0x1000 + 0x1000) + size) }) := by
        simp [Heap.kmallocRaw, heapEnd, aligned]
      have grows := noWrap _ unfolded
      have rounded : h.placementPointer < h.placementPointer / 0x1000 * 0x1000 + 0x1000 ∧
          h.placementPointer / 0x1000 * 0x1000 + 0x1000 ≤ h.placementPointer + 0x1000 ∧
          (h.placementPointer / 0x1000 * 0x1000 + 0x1000) % 0x1000 = 0 := by omega
      generalize h.placementPointer / 0x1000 * 0x1000 + 0x1000 = start at unfolded grows rounded
      simp only [wrap32] at grows
      have startLt : start < 2 ^ 32 := by omega
      rw [wrap32_of_lt startLt] at unfolded
      rw [Nat.mod_eq_of_lt startLt] at grows
      refine ⟨start, ?_, by omega, by omega, fun _ => rounded.2.2⟩
      rw [unfolded, wrap32_of_lt (by omega)]

/-- A bump allocation keeps the bumping invariant. -/
theorem Bumping.kmallocRaw {c : Client} (inv : Bumping c) {size : Nat} {align : Bool}
    (small : size < kheapEnd) (noWrap : NoWrap c (.kmallocRaw size align)) :
    ∃ c', c.step (.kmallocRaw size align) = some c' ∧ Bumping c' := by
  obtain ⟨start, returned, above, within, aligned⟩ :=
    bump_spec inv.heapEnd inv.placement small (noWrap inv.heapEnd)
  have placement := inv.placement
  have nonzero : start ≠ 0 := by omega
  have low : 0x1000 ≤ start := by omega
  have lowEnd : 0x1000 ≤ start + size := by omega
  refine ⟨_, by rw [step, returned, Option.map_some], ?_⟩
  have grown : Bumped (start + size) (⟨start, size, align⟩ :: c.blocks) :=
    inv.bumped.cons (b := ⟨start, size, align⟩) low above aligned
  refine ⟨inv.heapEnd, ⟨lowEnd, within⟩, inv.binHead,
    inv.bigForward, inv.bigLevel, inv.newest, ?_, ?_, ?_⟩
  · simp [served, inv.headers]
  · intro unready
    have notReady : c.ready = false := unready
    simp [served, notReady, inv.noLive notReady]
  · refine grown.perm ?_
    cases ready : c.ready with
    | false => simp [served, blocks, ready]
    | true =>
        simp only [served, blocks, ready, nonzero, if_true, ne_eq, not_false_eq_true, and_self]
        exact List.perm_middle.symm

/-! ### Starting the heap -/

/-- The layout of a heap without bins. -/
def emptyLayout : Layout where
  bins := fun _ => none
  free := fun _ => []
  chain := fun _ => []
  level := fun _ => []

/-- The empty heap that `init_heap` sets up. -/
theorem wellFormed_empty {h : Heap} {base : Nat} (heapEnd : h.heapEnd = base)
    (page : base % 0x1000 = 0) (placement : h.placementPointer < base)
    (limit : base ≤ 0x02000000) (binHead : ∀ b, h.klmallocBinHead b = 0)
    (bigForward : ∀ i, h.klmallocBigForward i = 0) (bigLevel : h.klmallocBigLevel = 0)
    (newest : h.klmallocNewestBig = 0) : WellFormed h base emptyLayout where
  basePage := page
  placementLt := placement
  baseLe := heapEnd.ge
  endPage := heapEnd ▸ page
  endLe := heapEnd ▸ limit
  placed := ⟨nofun, nofun, nofun⟩
  bin := nofun
  chain := fun b _ => ⟨nodeAt_eq_none_iff.mpr (binHead b), List.nodup_nil, nofun⟩
  skip :=
    { list :=
        { path := fun i _ => nodeAt_eq_none_iff.mpr (bigForward i)
          sublist := fun _ => List.Sublist.refl _
          nodup := List.nodup_nil
          topLe := bigLevel ▸ Nat.zero_le 6
          empty := fun _ _ => rfl }
      bin := nofun
      sorted := List.Pairwise.nil }
  newest := Or.inl newest

theorem Bumping.initHeap {c : Client} (inv : Bumping c) (unready : c.ready = false)
    (within : c.heap.initHeap.heapEnd ≤ kheapEnd) :
    ∃ c', c.step .initHeap = some c' ∧ Inv c' := by
  refine ⟨_, rfl, ?_⟩
  have noLive := inv.noLive unready
  have placement := inv.placement
  have heapEnd : c.heap.initHeap.heapEnd =
      wrap32 (c.heap.placementPointer + 0x1000) / 0x1000 * 0x1000 := rfl
  by_cases wraps : 2 ^ 32 ≤ c.heap.placementPointer + 0x1000
  · -- The rounded address wraps to zero, and `kmalloc_raw` keeps bumping.
    left
    have zero : c.heap.initHeap.heapEnd = 0 := by
      rw [heapEnd, wrap32]
      omega
    exact ⟨zero, inv.placement, inv.binHead, inv.bigForward, inv.bigLevel, inv.newest,
      inv.headers, fun unready => Bool.noConfusion unready, inv.bumped⟩
  · right
    rw [wrap32_of_lt (by omega)] at heapEnd
    refine ⟨c.heap.initHeap.heapEnd, emptyLayout, ?_, rfl, ?_, ?_, ?_, ?_⟩
    · refine wellFormed_empty rfl ?_ ?_ within inv.binHead inv.bigForward inv.bigLevel inv.newest
      · rw [heapEnd]
        omega
      · rw [heapEnd]
        change c.heap.placementPointer < _
        omega
    · exact inv.bumped.sublist (List.sublist_append_left _ _)
    · simp [noLive]
    · simp [noLive]
    · simp [inv.headers]

/-! ### Releasing and writing while bumping -/

theorem Bumping.kfree {c : Client} (inv : Bumping c) {ptr : Nat} (rand : Nat → Nat)
    (proper : ptr = 0 ∨ ∃ b ∈ c.blocks, b.ptr = ptr) :
    c.heap.kfree rand ptr = some c.heap ∧
      ∃ c', c.step (.kfree ptr rand) = some c' ∧ Bumping c' := by
  have unchanged : c.heap.kfree rand ptr = some c.heap := by
    rw [Heap.kfree, if_neg]
    rcases proper with rfl | ⟨b, member, rfl⟩
    · exact Nat.not_lt_zero _
    · have below := inv.bumped.below b member
      omega
  refine ⟨unchanged, _, by rw [step, unchanged, Option.map_some], ?_⟩
  refine ⟨inv.heapEnd, inv.placement, inv.binHead, inv.bigForward, inv.bigLevel, inv.newest,
    inv.headers, ?_, inv.bumped.sublist ?_⟩
  · intro unready
    simp [inv.noLive unready]
  · exact (List.Sublist.refl _).append List.filter_sublist

theorem Bumping.write {c : Client} (inv : Bumping c) (a : Nat) (v : UInt8) :
    ∃ c', c.step (.write a v) = some c' ∧ Bumping c' :=
  ⟨_, rfl, inv.heapEnd, inv.placement, inv.binHead, inv.bigForward, inv.bigLevel, inv.newest,
    inv.headers, inv.noLive, inv.bumped⟩

/-! ### Steps of the heap -/

theorem slotOf_slot {lo : Nat} (offPage : lo % 0x1000 ≠ 0) : slotOf lo = lo := if_neg offPage

theorem slotOf_aligned {lo : Nat} (onPage : (lo + 4048) % 0x1000 = 0) :
    slotOf (lo + 4048) = lo := by
  rw [slotOf, if_pos onPage, Nat.add_sub_cancel]

variable {c : Client} {base : Nat} {L : Layout}

theorem Managed.placement_lt (inv : Managed c base L) {b : Block} (member : b ∈ c.live) :
    c.heap.placementPointer < b.ptr := by
  obtain ⟨hi, slot, -⟩ := inv.held b member
  have range := inv.wf.slot_range slot
  have placement := inv.wf.placementLt
  have le : slotOf b.ptr ≤ b.ptr := by
    unfold slotOf
    split <;> omega
  omega

/-- A request that fits gets a block with a slot of its own. -/
theorem Managed.kmallocRaw (inv : Managed c base L) {size : Nat} {align : Bool}
    (fits : need size align = 0 ∨ c.heap.Fits (need size align)) :
    ∃ c', c.step (.kmallocRaw size align) = some c' ∧ ∃ L', Managed c' base L' := by
  have booted : c.heap.heapEnd ≠ 0 := by
    have positive := inv.wf.heapEnd_pos
    omega
  by_cases nothing : need size align = 0
  · -- `kmalloc(0)` returns the null pointer.
    have plain : align = false ∧ size = 0 := by
      cases align <;> simp [need] at nothing
      exact ⟨rfl, nothing⟩
    obtain ⟨rfl, rfl⟩ := plain
    have returned : c.heap.kmallocRaw 0 false = some (0, c.heap) := by
      simp [Heap.kmallocRaw, booted, Heap.klmalloc]
    refine ⟨_, by rw [step, returned, Option.map_some], L, ?_⟩
    have same : c.served 0 false 0 c.heap = c := by
      rw [served, if_pos inv.ready, if_neg (by simp), if_pos rfl]
    rw [same]
    exact inv
  · obtain ⟨lo, hi, p, h', L', returned, extends', slot, fresh, room, ptr, aligned⟩ :=
      inv.wf.kmallocRaw (by omega) (fits.resolve_left nothing)
    have range := extends'.wf.slot_range slot
    have baseLe := inv.wf.placementLt
    have basePage := inv.wf.basePage
    have owner : slotOf p = lo := by
      cases align with
      | false =>
          rw [ptr]
          exact slotOf_slot range.2.2.2
      | true =>
          have onPage := aligned rfl
          rw [ptr] at onPage ⊢
          exact slotOf_aligned onPage
    have low : lo ≤ p := by
      rw [ptr]
      split <;> omega
    have nonzero : p ≠ 0 := by omega
    refine ⟨_, by rw [step, returned, Option.map_some], L', ?_⟩
    have live : (c.served size align p h').live = ⟨p, size, align⟩ :: c.live := by
      simp [served, inv.ready, nonzero]
    refine ⟨extends'.wf, inv.ready, ?_, ?_, ?_, ?_⟩
    · have early : (c.served size align p h').early = c.early := by simp [served, inv.ready]
      rw [early]
      exact extends'.placement ▸ inv.bumped
    · rw [live]
      intro b member
      rcases List.mem_cons.mp member with rfl | old
      · exact ⟨hi, owner ▸ slot, room, by change 4096 ≤ p; omega, aligned⟩
      · obtain ⟨hi', slot', rest⟩ := inv.held b old
        exact ⟨hi', extends'.slots _ _ slot', rest⟩
    · rw [live]
      refine List.pairwise_cons.mpr ⟨?_, inv.distinct⟩
      intro d old same
      obtain ⟨hi', slot', -⟩ := inv.held d old
      have atLo : slotOf d.ptr = lo := by rw [← same]; exact owner
      exact fresh hi' (atLo ▸ slot')
    · intro x member
      simp only [served] at member
      split at member
      · obtain ⟨k, isBin⟩ := inv.headers x member
        exact ⟨k, extends'.bins x k isBin⟩
      · rename_i moved
        rcases List.mem_cons.mp member with rfl | old
        · exact extends'.grown moved
        · obtain ⟨k, isBin⟩ := inv.headers x old
          exact ⟨k, extends'.bins x k isBin⟩

/-- Releasing the null pointer or an early block changes nothing; releasing a
heap block takes its slot back. -/
theorem Managed.kfree (inv : Managed c base L) {ptr : Nat} (rand : Nat → Nat)
    (proper : ptr = 0 ∨ ∃ b ∈ c.blocks, b.ptr = ptr) :
    ((ptr = 0 ∨ ∃ b ∈ c.early, b.ptr = ptr) → c.heap.kfree rand ptr = some c.heap) ∧
      (∃ h', c.heap.kfree rand ptr = some h' ∧ h'.heapEnd = c.heap.heapEnd) ∧
      ∃ c', c.step (.kfree ptr rand) = some c' ∧ ∃ L', Managed c' base L' := by
  have outside : (ptr = 0 ∨ ∃ b ∈ c.early, b.ptr = ptr) →
      c.heap.kfree rand ptr = some c.heap := by
    intro notHeap
    rw [Heap.kfree, if_neg]
    rcases notHeap with rfl | ⟨b, member, rfl⟩
    · exact Nat.not_lt_zero _
    · have below := inv.bumped.below b member
      omega
  refine ⟨outside, ?_⟩
  by_cases notHeap : ptr = 0 ∨ ∃ b ∈ c.early, b.ptr = ptr
  · have unchanged := outside notHeap
    have stepped : c.step (.kfree ptr rand) =
        some { c with live := c.live.filter fun b => b.ptr ≠ ptr } := by
      rw [step, unchanged, Option.map_some]
    refine ⟨⟨c.heap, unchanged, rfl⟩, _, stepped, L, inv.wf, inv.ready, inv.bumped, ?_,
      inv.distinct.filter _, inv.headers⟩
    exact fun b member => inv.held b (List.mem_filter.mp member).1
  · obtain ⟨b, member, rfl⟩ : ∃ b ∈ c.live, b.ptr = ptr := by
      rcases proper with zero | ⟨b, member, isPtr⟩
      · exact absurd (Or.inl zero) notHeap
      · rcases List.mem_append.mp member with early | live
        · exact absurd (Or.inr ⟨b, early, isPtr⟩) notHeap
        · exact ⟨b, live, isPtr⟩
    obtain ⟨hi, slot, room, low, -⟩ := inv.held b member
    have above := inv.placement_lt member
    have inSlot : b.ptr = slotOf b.ptr ∨ (b.ptr = slotOf b.ptr + 4048 ∧ b.ptr ≤ hi) := by
      unfold slotOf
      split <;> omega
    obtain ⟨h', L', released, wf', slots, bins, heapEnd, placement, -⟩ :=
      inv.wf.klfree slot inSlot rand
    have freed : c.heap.kfree rand b.ptr = some h' := by
      rw [Heap.kfree, if_pos above, released]
    have stepped : c.step (.kfree b.ptr rand) =
        some { c with heap := h', live := c.live.filter fun d => d.ptr ≠ b.ptr } := by
      rw [step, freed, Option.map_some]
    have bumped : Bumped h'.placementPointer c.early := by
      rw [placement]
      exact inv.bumped
    refine ⟨⟨h', freed, heapEnd⟩, _, stepped, L', wf', inv.ready, bumped, ?_,
      inv.distinct.filter _, ?_⟩
    · intro d remaining
      obtain ⟨old, different⟩ := List.mem_filter.mp remaining
      have notSame : d ≠ b := by
        rintro rfl
        simp at different
      have symmetric : Std.Symm fun b d : Block => slotOf b.ptr ≠ slotOf d.ptr :=
        ⟨fun _ _ => Ne.symm⟩
      have apart : slotOf d.ptr ≠ slotOf b.ptr := inv.distinct.forall old member notSame
      obtain ⟨hi', slot', rest⟩ := inv.held d old
      exact ⟨hi', slots _ _ slot' apart, rest⟩
    · intro x inHeaders
      obtain ⟨k, isBin⟩ := inv.headers x inHeaders
      exact ⟨k, bins ▸ isBin⟩

/-- Callers that write inside their blocks do not touch the bookkeeping. -/
theorem Managed.write (inv : Managed c base L) {a : Nat} (v : UInt8)
    (proper : ∃ b ∈ c.blocks, b.ptr ≤ a ∧ a < b.ptr + b.size) :
    ∃ c', c.step (.write a v) = some c' ∧ Managed c' base L := by
  refine ⟨_, rfl, ?_, inv.ready, inv.bumped, inv.held, inv.distinct, inv.headers⟩
  refine inv.wf.writeSlots fun a' above _ outside => ?_
  refine Function.update_of_ne ?_ _ _
  rintro rfl
  obtain ⟨b, member, low, high⟩ := proper
  rcases List.mem_append.mp member with early | live
  · have below := inv.bumped.below b early
    have placement := inv.wf.placementLt
    omega
  · obtain ⟨hi, slot, room, -⟩ := inv.held b live
    have apart := outside _ _ slot
    have le : slotOf b.ptr ≤ b.ptr := by
      unfold slotOf
      split <;> omega
    omega

end Client

end Balloon.Allocator
