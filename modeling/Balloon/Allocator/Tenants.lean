import Balloon.Allocator.NoOverlap
import Balloon.Allocator.Plan
import Balloon.Foundation.ObjectStore

/-!
Owns the heap together with the blocks its clients hold once `init_heap` has run, for the
whole interface `malloc`, `calloc`, `valloc`, `realloc` and `free`: what each call answers,
and the invariant that the slots of the heap are exactly the slots of the live blocks and
that every page of the heap belongs to a bin. It owns the view of the live blocks as an
object store, and not the calls made before `init_heap`.
-/

namespace Balloon.Allocator

open Balloon.Foundation
open Balloon.Libc

structure Tenants where
  heap : Heap
  live : List Block

/-- What clients do. `rand` is what a release draws the level of a big block from. -/
inductive Use where
  | malloc (size : Nat)
  | calloc (nmemb size : Nat)
  | valloc (size : Nat)
  | realloc (ptr size : Nat) (rand : Nat → Nat)
  | free (ptr : Nat) (rand : Nat → Nat)
  | write (a : Nat) (v : UInt8)

/-- The request to an object store that a call is. The product of `calloc` wraps around. -/
def Use.request : Use → Request UInt8
  | .malloc size => .create size
  | .calloc nmemb size => .createZero (wrap32 (nmemb * size))
  | .valloc size => .page size
  | .realloc ptr size _ => .resize ptr size
  | .free ptr _ => .delete ptr
  | .write a v => .write a v

namespace Tenants

/-- A null pointer is no block. -/
def hold (t : Tenants) (b : Block) (h : Heap) : Tenants :=
  ⟨h, if b.ptr = 0 then t.live else b :: t.live⟩

def drop (t : Tenants) (ptr : Nat) (h : Heap) : Tenants :=
  ⟨h, t.live.filter fun b => b.ptr ≠ ptr⟩

def serve (t : Tenants) : Use → Option (Nat × Tenants)
  | .malloc size =>
      (t.heap.klmalloc size).map fun r => (r.1, t.hold ⟨r.1, size, false⟩ r.2)
  | .calloc nmemb size =>
      (t.heap.klcalloc nmemb size).map fun r =>
        (r.1, t.hold ⟨r.1, wrap32 (nmemb * size), false⟩ r.2)
  | .valloc size =>
      (t.heap.klvalloc size).map fun r => (r.1, t.hold ⟨r.1, size, true⟩ r.2)
  | .realloc ptr size rand =>
      (t.heap.klrealloc rand ptr size).map fun r =>
        (r.1, if r.1 = 0 ∧ size ≠ 0 then { t with heap := r.2 }
          else (t.drop ptr r.2).hold ⟨r.1, size, false⟩ r.2)
  | .free ptr rand => (t.heap.kfree rand ptr).map fun h => (0, t.drop ptr h)
  | .write a v =>
      some (0, { t with heap := { t.heap with mem := Function.update t.heap.mem a v } })

/-- The live blocks as objects. -/
def objects (t : Tenants) : Objects UInt8 := fun p =>
  (t.live.find? fun b => b.ptr = p).map fun b => t.heap.mem.bytesAt p b.size

/-! ### What clients may do -/

/-- `realloc` of a block needs no fresh slot. -/
def StaysPut (t : Tenants) (ptr size : Nat) : Prop :=
  ptr ≠ 0 ∧ (ptr % 0x1000 = 0 ∨ size ≤ t.heap.oldSize (ptr / 0x1000 * 0x1000))

/-- Clients name live blocks or `NULL` and write inside live blocks, and every request fits
the heap. A block that starts on a page is given to `realloc` only while its bytes are not
taken for a bin header. -/
def Allowed (t : Tenants) : Use → Prop
  | .malloc size => size = 0 ∨ t.heap.Fits size
  | .calloc nmemb size => wrap32 (nmemb * size) = 0 ∨ t.heap.Fits (wrap32 (nmemb * size))
  | .valloc size => t.heap.Fits (size + 4048)
  | .realloc ptr size _ =>
      (ptr = 0 ∨ ∃ b ∈ t.live, b.ptr = ptr) ∧
        (ptr ≠ 0 → ptr % 0x1000 = 0 → t.heap.mem.read32 (ptr + 12) ≠ binMagic) ∧
        (size = 0 ∨ t.StaysPut ptr size ∨ t.heap.Fits size)
  | .free ptr _ => ptr = 0 ∨ ∃ b ∈ t.live, b.ptr = ptr
  | .write a _ => ∃ b ∈ t.live, b.ptr ≤ a ∧ a < b.ptr + b.size

end Tenants

/-! ### The plan's answers -/

/-- What a plan answers. Writes are nothing to it. -/
def Plan.answer (P : Plan) : Request UInt8 → Nat × Plan
  | .create size => P.malloc size
  | .createZero size => P.malloc size
  | .page size => ((P.malloc (size + 4048)).1 + 4048, (P.malloc (size + 4048)).2)
  | .resize ptr size =>
      if ptr = 0 then P.malloc size
      else if size = 0 then (0, P.free ptr)
      else if ptr % 0x1000 = 0 then (0, P)
      else if size ≤ P.room (Heap.headerOf ptr) then (ptr, P)
      else ((P.malloc size).1, (P.malloc size).2.free ptr)
  | .delete ptr => (0, if ptr = 0 then P else P.free ptr)
  | .write _ _ => (0, P)

theorem Plan.Offers.answer {P : Plan} (offers : P.Offers) (request : Request UInt8) :
    (P.answer request).2.Offers := by
  cases request with
  | create size | createZero size | page size => exact offers.malloc _
  | write a v => exact offers
  | delete ptr =>
      simp only [Plan.answer]
      split
      · exact offers
      · exact offers.free ptr
  | resize ptr size =>
      simp only [Plan.answer]
      split_ifs
      · exact offers.malloc size
      · exact offers.free ptr
      · exact offers
      · exact offers
      · exact (offers.malloc size).free ptr

namespace Tenants

open Client (slotOf Held slotOf_slot slotOf_aligned slotOf_le)

/-- The slots of the heap are the slots of the live blocks, one each, and every page of the
heap belongs to a bin. -/
structure Settled (t : Tenants) (base : Nat) (L : Layout) : Prop where
  wf : WellFormed t.heap base L
  held : ∀ b ∈ t.live, Held L b
  distinct : t.live.Pairwise fun b d => slotOf b.ptr ≠ slotOf d.ptr
  covered : ∀ lo hi, L.Slot lo hi → ∃ b ∈ t.live, slotOf b.ptr = lo
  tiled : L.Tiled base t.heap.heapEnd

/-- A call answers `r`, keeps the invariant, follows the plan and does what an object store
may do. -/
structure Step (t : Tenants) (base : Nat) (L : Layout) (call : Use) (r : Nat) (t' : Tenants)
    (L' : Layout) : Prop where
  answered : t.serve call = some (r, t')
  settled : t'.Settled base L'
  planned : (r, planOf t'.heap L') = (planOf t.heap L).answer call.request
  serves : t.objects.Serves 0 0x1000 call.request r t'.objects
  below : ∀ a, a < base → t'.heap.mem a = t.heap.mem a

variable {t : Tenants} {base : Nat} {L : Layout}

namespace Settled

/-! ### Blocks and slots -/

theorem slot (inv : t.Settled base L) {b : Block} (member : b ∈ t.live) :
    ∃ hi, L.Slot (slotOf b.ptr) hi ∧ slotOf b.ptr ≤ b.ptr ∧ b.ptr + b.size ≤ hi ∧ 4096 ≤ b.ptr := by
  obtain ⟨hi, slot, room, low, -⟩ := inv.held b member
  exact ⟨hi, slot, slotOf_le b.ptr, room, low⟩

/-- Blocks that name one slot are the same block. -/
theorem eq_of_slotOf (inv : t.Settled base L) {b d : Block} (memberB : b ∈ t.live)
    (memberD : d ∈ t.live) (same : slotOf b.ptr = slotOf d.ptr) : b = d := by
  by_contra different
  have symmetric : Std.Symm fun b d : Block => slotOf b.ptr ≠ slotOf d.ptr :=
    ⟨fun _ _ => Ne.symm⟩
  exact inv.distinct.forall memberB memberD different same

/-- A block and a slot of another block have nothing in common. -/
theorem block_apart (inv : t.Settled base L) {b : Block} (member : b ∈ t.live) {lo hi : Nat}
    (slot : L.Slot lo hi) (different : slotOf b.ptr ≠ lo) :
    b.ptr + b.size ≤ lo ∨ hi ≤ b.ptr := by
  obtain ⟨hi', own, above, room, -⟩ := inv.slot member
  have apart := inv.wf.slot_disjoint own slot different
  omega

end Settled

/-! ### The view -/

theorem objects_eq_some {p : Nat} {cells : List UInt8} (found : t.objects p = some cells) :
    ∃ b ∈ t.live, b.ptr = p ∧ cells = t.heap.mem.bytesAt p b.size := by
  obtain ⟨b, isFound, rfl⟩ := Option.map_eq_some_iff.mp found
  exact ⟨b, List.mem_of_find?_eq_some isFound, by simpa using List.find?_some isFound, rfl⟩

theorem objects_eq_none {p : Nat} (absent : ∀ b ∈ t.live, b.ptr ≠ p) : t.objects p = none := by
  rw [objects, Option.map_eq_none_iff, List.find?_eq_none]
  simpa using absent

theorem Settled.objects_live (inv : t.Settled base L) {b : Block} (member : b ∈ t.live) :
    t.objects b.ptr = some (t.heap.mem.bytesAt b.ptr b.size) := by
  cases found : t.objects b.ptr with
  | none =>
      rw [objects, Option.map_eq_none_iff, List.find?_eq_none] at found
      have missing := found b member
      simp at missing
  | some cells =>
      obtain ⟨d, memberD, same, rfl⟩ := objects_eq_some found
      rw [inv.eq_of_slotOf memberD member (congrArg slotOf same)]

theorem length_bytesAt (m : Memory) (a n : Nat) : (m.bytesAt a n).length = n := by
  simp [Memory.bytesAt]

theorem bytesAt_congr {m m' : Memory} {a b n : Nat}
    (same : ∀ k, k < n → m' (b + k) = m (a + k)) : m'.bytesAt b n = m.bytesAt a n :=
  List.map_congr_left fun k member => same k (List.mem_range.mp member)

theorem take_bytesAt (m : Memory) (a n k : Nat) :
    (m.bytesAt a n).take k = m.bytesAt a (min k n) := by
  rw [Memory.bytesAt, ← List.map_take, List.take_range]
  rfl

/-- Other blocks look the same to their holders. -/
def Keeps (live : List Block) (m m' : Memory) : Prop :=
  ∀ b ∈ live, ∀ k, k < b.size → m' (b.ptr + k) = m (b.ptr + k)

/-- Blocks at one address that hold the same bytes are the same object there. -/
theorem objects_congr {t' : Tenants} {p : Nat}
    (live : (t'.live.find? fun b => b.ptr = p) = t.live.find? fun b => b.ptr = p)
    (same : ∀ b ∈ t.live, b.ptr = p → ∀ k, k < b.size →
      t'.heap.mem (p + k) = t.heap.mem (p + k)) : t'.objects p = t.objects p := by
  rw [objects, objects, live]
  cases found : t.live.find? fun b => b.ptr = p with
  | none => rfl
  | some b =>
      have member := List.mem_of_find?_eq_some found
      have atP : b.ptr = p := by simpa using List.find?_some found
      rw [Option.map_some, Option.map_some, bytesAt_congr (same b member atP)]

theorem objects_hold {b : Block} {h : Heap} (nonzero : b.ptr ≠ 0)
    (keeps : Keeps t.live t.heap.mem h.mem) :
    (t.hold b h).objects =
      Function.update t.objects b.ptr (some (h.mem.bytesAt b.ptr b.size)) := by
  funext p
  by_cases isNew : p = b.ptr
  · subst isNew
    simp [objects, hold, nonzero]
  · rw [Function.update_of_ne isNew]
    apply objects_congr
    · simp only [hold, if_neg nonzero]
      rw [List.find?_cons_of_neg (by simpa using Ne.symm isNew)]
    · exact fun d member atP k inside => atP ▸ keeps d member k inside

theorem objects_drop {ptr : Nat} {h : Heap}
    (keeps : Keeps (t.live.filter fun b => b.ptr ≠ ptr) t.heap.mem h.mem) :
    (t.drop ptr h).objects = Function.update t.objects ptr none := by
  funext p
  by_cases isOld : p = ptr
  · subst isOld
    rw [Function.update_self]
    apply objects_eq_none
    intro b member
    simpa using (List.mem_filter.mp member).2
  · rw [Function.update_of_ne isOld]
    apply objects_congr
    · rw [drop, List.find?_filter]
      congr 1
      funext b
      by_cases atP : b.ptr = p <;> simp [atP, isOld]
    · intro b member atP k inside
      refine atP ▸ keeps b (List.mem_filter.mpr ⟨member, ?_⟩) k inside
      simpa [atP] using isOld

end Tenants

end Balloon.Allocator
