import Balloon.Allocator.Tenants

/-!
Owns the calls of the heap's clients one by one: granting a block, taking one back, resizing
one in place, moving one and writing into one each keep the invariant, follow the plan and do
what an object store may do.
-/

namespace Balloon.Allocator.Tenants

open Balloon.Foundation
open Balloon.Libc
open Client (slotOf Held slotOf_slot slotOf_aligned slotOf_le)

variable {t : Tenants} {base : Nat} {L : Layout}

/-! ### Granting -/

/-- The grant is one still when the caller has written the new slot. -/
theorem Granted.write {h h' : Heap} {L' : Layout} {size p : Nat} {m : Memory}
    (granted : Granted h base L size p h' L')
    (step : Extends h base L { h' with mem := m } L') :
    Granted h base L size p { h' with mem := m } L' :=
  ⟨step, granted.slot, granted.fresh, granted.only, granted.planned, granted.tiled, granted.big⟩

/-- The bytes of live blocks lie in slots, so an extension of the heap keeps them. -/
theorem Settled.keeps (inv : t.Settled base L) {h' : Heap} {L' : Layout}
    (step : Extends t.heap base L h' L') : Keeps t.live t.heap.mem h'.mem := by
  intro b member k inside
  obtain ⟨hi, slot, above, room, -⟩ := inv.slot member
  exact step.bytes _ (Or.inr ⟨_, hi, slot, by omega, by omega⟩)

/-- A granted slot makes a block of its holder. -/
theorem Settled.hold (inv : t.Settled base L) {need p : Nat} {h' : Heap} {L' : Layout}
    (granted : Granted t.heap base L need p h' L') {b : Block} (owner : slotOf b.ptr = p)
    (room : b.ptr + b.size ≤ p + need) (aligned : b.aligned = true → b.ptr % 0x1000 = 0) :
    (t.hold b h').Settled base L' ∧
      Objects.Places t.objects b.ptr (h'.mem.bytesAt b.ptr b.size) (t.hold b h').objects := by
  obtain ⟨hi, slot, roomSlot⟩ := granted.slot
  have range := granted.extends'.wf.slot_range slot
  have above := slotOf_le b.ptr
  have low : 4096 ≤ b.ptr := by
    have booted := granted.extends'.wf.placementLt
    have page := granted.extends'.wf.basePage
    omega
  have nonzero : b.ptr ≠ 0 := by omega
  have apart : ∀ d ∈ t.live, slotOf d.ptr ≠ p := by
    intro d member same
    obtain ⟨hi', own, -⟩ := inv.slot member
    exact granted.fresh hi' (same ▸ own)
  constructor
  · have live : (t.hold b h').live = b :: t.live := if_neg nonzero
    refine ⟨granted.extends'.wf, ?_, ?_, ?_, granted.tiled inv.tiled⟩
    · rw [live]
      intro d member
      rcases List.mem_cons.mp member with rfl | old
      · exact ⟨hi, owner ▸ slot, by omega, low, aligned⟩
      · obtain ⟨hi', own, rest⟩ := inv.held d old
        exact ⟨hi', granted.extends'.slots _ _ own, rest⟩
    · rw [live, List.pairwise_cons]
      exact ⟨fun d old same => apart d old (same.symm.trans owner), inv.distinct⟩
    · rw [live]
      intro lo hi' slot'
      rcases granted.only lo hi' slot' with old | rfl
      · obtain ⟨d, member, same⟩ := inv.covered lo hi' old
        exact ⟨d, List.mem_cons_of_mem b member, same⟩
      · exact ⟨b, List.mem_cons_self, owner⟩
  · refine ⟨nonzero, ?_, objects_hold nonzero (inv.keeps granted.extends'), ?_⟩
    · exact objects_eq_none fun d member same => apart d member (same ▸ owner)
    · intro q old isObject
      obtain ⟨d, member, rfl, rfl⟩ := objects_eq_some isObject
      obtain ⟨hi', own, aboveD, roomD, -⟩ := inv.slot member
      have disjoint := granted.extends'.wf.slot_disjoint slot
        (granted.extends'.slots _ _ own) (Ne.symm (apart d member))
      rw [length_bytesAt, length_bytesAt]
      omega

/-! ### Taking back -/

/-- A released slot leaves the other blocks to their holders. -/
theorem Settled.drop (inv : t.Settled base L) {b : Block} (member : b ∈ t.live) {h' : Heap}
    {L' : Layout} (released : Released t.heap base L (slotOf b.ptr) b.ptr h' L') :
    (t.drop b.ptr h').Settled base L' ∧
      (t.drop b.ptr h').objects = Function.update t.objects b.ptr none := by
  have others : ∀ d ∈ t.live.filter fun d => d.ptr ≠ b.ptr,
      d ∈ t.live ∧ slotOf d.ptr ≠ slotOf b.ptr := by
    intro d remaining
    obtain ⟨old, different⟩ := List.mem_filter.mp remaining
    refine ⟨old, fun same => ?_⟩
    rw [inv.eq_of_slotOf old member same] at different
    simp at different
  constructor
  · refine ⟨released.wf, ?_, inv.distinct.filter _, ?_, ?_⟩
    · intro d remaining
      obtain ⟨old, different⟩ := others d remaining
      obtain ⟨hi, own, rest⟩ := inv.held d old
      exact ⟨hi, (released.slots _ _).mpr ⟨own, different⟩, rest⟩
    · intro lo hi slot
      obtain ⟨old, different⟩ := (released.slots lo hi).mp slot
      obtain ⟨d, memberD, rfl⟩ := inv.covered lo hi old
      refine ⟨d, List.mem_filter.mpr ⟨memberD, ?_⟩, rfl⟩
      have notSame : d.ptr ≠ b.ptr := fun same => different (congrArg slotOf same)
      simpa using notSame
    · have tiled := inv.tiled
      rw [← released.heapEnd] at tiled
      intro a low high
      rw [released.bins]
      exact tiled a low high
  · apply objects_drop
    intro d remaining k inside
    obtain ⟨old, different⟩ := others d remaining
    obtain ⟨hi, own, above, room, -⟩ := inv.slot old
    exact released.bytes _ (Or.inr ⟨_, hi, own, different, by omega, by omega⟩)

/-- The block that `klfree` is given lies at the start of its slot or on its first page
boundary. -/
theorem Settled.released (inv : t.Settled base L) {b : Block} (member : b ∈ t.live)
    (rand : Nat → Nat) :
    ∃ h' L', t.heap.klfree rand b.ptr = some h' ∧
      Released t.heap base L (slotOf b.ptr) b.ptr h' L' := by
  obtain ⟨hi, slot, above, room, low⟩ := inv.slot member
  apply inv.wf.klfree_released slot
  unfold slotOf
  split
  · exact Or.inr ⟨by omega, by omega⟩
  · exact Or.inl rfl

/-! ### Creating -/

/-- A block that starts in the granted slot, at its start. -/
theorem Settled.hold_start (inv : t.Settled base L) {size p : Nat} {h' : Heap} {L' : Layout}
    (granted : Granted t.heap base L size p h' L') :
    (t.hold ⟨p, size, false⟩ h').Settled base L' ∧
      Objects.Places t.objects p (h'.mem.bytesAt p size) (t.hold ⟨p, size, false⟩ h').objects := by
  obtain ⟨hi, slot, -⟩ := granted.slot
  have range := granted.extends'.wf.slot_range slot
  exact inv.hold (b := ⟨p, size, false⟩) granted (slotOf_slot range.2.2.2) (Nat.le_refl _)
    (fun isAligned => Bool.noConfusion isAligned)

theorem Settled.malloc (inv : t.Settled base L) {size : Nat} (allowed : t.Allowed (.malloc size)) :
    ∃ r t' L', t.Step base L (.malloc size) r t' L' := by
  by_cases nothing : size = 0
  · subst nothing
    refine ⟨0, t, L, rfl, inv, rfl, ?_, fun _ _ => rfl⟩
    simp [Objects.Serves, Objects.Creates, Use.request]
  · obtain ⟨p, h', L', served, granted⟩ :=
      inv.wf.klmalloc_granted (Nat.pos_of_ne_zero nothing) (allowed.resolve_left nothing)
    obtain ⟨settled, places⟩ := inv.hold_start granted
    refine ⟨p, t.hold ⟨p, size, false⟩ h', L', ?_, settled, granted.planned, ?_, ?_⟩
    · rw [serve, served, Option.map_some]
    · simp only [Objects.Serves, Objects.Creates, Use.request, if_neg nothing]
      exact ⟨_, length_bytesAt _ _ _, places⟩
    · exact fun a below => granted.extends'.bytes a (Or.inl below)

theorem Settled.calloc (inv : t.Settled base L) {nmemb size : Nat}
    (allowed : t.Allowed (.calloc nmemb size)) :
    ∃ r t' L', t.Step base L (.calloc nmemb size) r t' L' := by
  generalize amount : wrap32 (nmemb * size) = n
  have allowed' : n = 0 ∨ t.heap.Fits n := amount ▸ allowed
  by_cases nothing : n = 0
  · subst nothing
    refine ⟨0, t, L, ?_, inv, ?_, ?_, fun _ _ => rfl⟩
    · rw [serve, Heap.klcalloc, amount]
      rfl
    · simp only [Use.request, amount]
      rfl
    · simp [Objects.Serves, Use.request, amount]
  · obtain ⟨p, h', L', served, granted⟩ :=
      inv.wf.klmalloc_granted (Nat.pos_of_ne_zero nothing) (allowed'.resolve_left nothing)
    obtain ⟨hi, slot, room⟩ := granted.slot
    obtain ⟨step, zeros⟩ := granted.extends'.clear slot granted.fresh room
    have cleared := Granted.write granted step
    obtain ⟨settled, places⟩ := inv.hold_start cleared
    have nonzero : p ≠ 0 := places.1
    refine ⟨p, _, L', ?_, settled, ?_, ?_, ?_⟩
    · rw [serve, Heap.klcalloc, amount, served, Option.map_some, if_pos nonzero, Option.map_some]
    · simp only [Use.request, amount]
      exact cleared.planned
    · have cells : (memset h'.mem p 0 n).bytesAt p n = List.replicate n 0 := by
        apply List.ext_getElem
        · rw [length_bytesAt, List.length_replicate]
        · intro k inside inside'
          rw [length_bytesAt] at inside
          simp [Memory.bytesAt, zeros k inside]
      simp only [Objects.Serves, Use.request, amount, if_neg nothing]
      rw [← cells]
      exact places
    · exact fun a below => step.bytes a (Or.inl below)

theorem Settled.valloc (inv : t.Settled base L) {size : Nat} (allowed : t.Allowed (.valloc size)) :
    ∃ r t' L', t.Step base L (.valloc size) r t' L' := by
  have fits : t.heap.Fits (size + 4048) := allowed
  obtain ⟨p, h', L', served, granted⟩ := inv.wf.klmalloc_granted (by omega) fits
  obtain ⟨hi, slot, room⟩ := granted.slot
  have range := granted.extends'.wf.slot_range slot
  have endLe := granted.extends'.wf.endLe
  have onPage : (p + 4048) % 0x1000 = 0 := by
    have start := granted.big (big_of_lt (by omega))
    omega
  obtain ⟨settled, places⟩ := inv.hold (b := ⟨p + 4048, size, true⟩) granted
    (slotOf_aligned onPage) (by change p + 4048 + size ≤ _; omega) (fun _ => onPage)
  refine ⟨p + 4048, _, L', ?_, settled, ?_, ⟨onPage, _, length_bytesAt _ _ _, places⟩, ?_⟩
  · rw [serve, Heap.klvalloc, wrap32_of_lt fits.size_lt, served, Option.map_some, Option.map_some,
      wrap32_of_lt (by omega)]
  · simp only [Use.request, Plan.answer, ← granted.planned]
    rfl
  · exact fun a below => granted.extends'.bytes a (Or.inl below)

/-! ### Deleting -/

/-- No live block starts at the null address. -/
theorem Settled.drop_null (inv : t.Settled base L) : t.drop 0 t.heap = t := by
  have all : t.live.filter (fun b => b.ptr ≠ 0) = t.live := by
    apply List.filter_eq_self.mpr
    intro b member
    obtain ⟨-, -, -, -, low⟩ := inv.slot member
    have nonzero : b.ptr ≠ 0 := by omega
    simpa using nonzero
  rw [Tenants.drop, all]

theorem Settled.kfree_live (inv : t.Settled base L) {b : Block} (member : b ∈ t.live)
    (rand : Nat → Nat) : t.heap.kfree rand b.ptr = t.heap.klfree rand b.ptr := by
  obtain ⟨hi, slot, above, -⟩ := inv.slot member
  have range := inv.wf.slot_range slot
  have placement := inv.wf.placementLt
  rw [Heap.kfree, if_pos (by omega)]

theorem Settled.free (inv : t.Settled base L) {ptr : Nat} {rand : Nat → Nat}
    (allowed : t.Allowed (.free ptr rand)) : ∃ r t' L', t.Step base L (.free ptr rand) r t' L' := by
  by_cases null : ptr = 0
  · subst null
    refine ⟨0, t, L, ?_, inv, ?_, ⟨rfl, ?_⟩, fun _ _ => rfl⟩
    · rw [serve, Heap.kfree, if_neg (by omega), Option.map_some, inv.drop_null]
    · simp [Use.request, Plan.answer]
    · rw [if_pos rfl]
  · obtain ⟨b, member, rfl⟩ := allowed.resolve_left null
    obtain ⟨h', L', freed, released⟩ := inv.released member rand
    obtain ⟨settled, view⟩ := inv.drop member released
    refine ⟨0, t.drop b.ptr h', L', ?_, settled, ?_, ⟨rfl, ?_⟩, ?_⟩
    · rw [serve, inv.kfree_live member, freed, Option.map_some]
    · simp only [Use.request, Plan.answer, if_neg null, ← released.planned]
      rfl
    · rw [if_neg null, view]
    · exact fun a below => released.bytes a (Or.inl below)

/-! ### Writing -/

theorem set_bytesAt (m : Memory) {a n k : Nat} (v : UInt8) :
    Memory.bytesAt (Function.update m (a + k) v) a n = (m.bytesAt a n).set k v := by
  apply List.ext_getElem
  · simp [Memory.bytesAt]
  · intro j inside _
    rw [List.getElem_set]
    by_cases same : k = j
    · subst same
      simp [Memory.bytesAt]
    · simp [Memory.bytesAt, same, Ne.symm same]

theorem Settled.write (inv : t.Settled base L) {a : Nat} {v : UInt8}
    (allowed : t.Allowed (.write a v)) : ∃ r t' L', t.Step base L (.write a v) r t' L' := by
  obtain ⟨b, member, low, high⟩ := allowed
  obtain ⟨hi, slot, above, room, -⟩ := inv.slot member
  have range := inv.wf.slot_range slot
  obtain ⟨k, rfl⟩ : ∃ k, a = b.ptr + k := ⟨a - b.ptr, by omega⟩
  have elsewhere : ∀ d ∈ t.live, d ≠ b → ∀ j, j < d.size → d.ptr + j ≠ b.ptr + k := by
    intro d memberD different j inside same
    have apart := inv.block_apart memberD slot fun sameSlot =>
      different (inv.eq_of_slotOf memberD member sameSlot)
    omega
  let t' : Tenants :=
    { t with heap := { t.heap with mem := Function.update t.heap.mem (b.ptr + k) v } }
  have settled : t'.Settled base L := by
    refine ⟨inv.wf.writeSlots fun a _ _ outside => ?_, inv.held, inv.distinct, inv.covered,
      inv.tiled⟩
    have apart := outside _ _ slot
    exact Function.update_of_ne (by omega) _ _
  refine ⟨0, t', L, rfl, settled, rfl, ⟨rfl, b.ptr, k, _, inv.objects_live member, ?_, rfl, ?_⟩, ?_⟩
  · rw [length_bytesAt]
    omega
  · funext p
    by_cases isObject : p = b.ptr
    · subst isObject
      rw [Function.update_self, settled.objects_live member, ← set_bytesAt]
    · rw [Function.update_of_ne isObject]
      have sameLive : (t'.live.find? fun d => d.ptr = p) = t.live.find? fun d => d.ptr = p := rfl
      apply objects_congr sameLive
      intro d memberD atP j inside
      have different : d ≠ b := by
        rintro rfl
        exact isObject atP.symm
      exact Function.update_of_ne (atP ▸ elsewhere d memberD different j inside) _ _
  · exact fun a below => Function.update_of_ne (by omega) _ _

/-! ### Resizing -/

/-- The plan's room of a slot is its length. -/
theorem slot_room {h : Heap} (wf : WellFormed h base L) {lo hi : Nat} (slot : L.Slot lo hi) :
    lo + (planOf h L).room (Heap.headerOf lo) = hi := by
  have range := wf.slot_range slot
  obtain ⟨x, k, isBin, inBin, above, below, -, -⟩ := wf.slot_bin slot
  have header : Heap.headerOf lo = x :=
    headerOf_slot (wf.page isBin) (by have := k.header_ge; omega) below (Or.inl rfl)
  rw [header]
  cases k with
  | small b =>
      obtain ⟨-, -, rfl⟩ := inBin
      simp only [Plan.room, planOf, isBin]
  | big n =>
      have pages := (wf.placed.range x _ isBin).2.1
      rw [Bin.pages_big] at pages
      obtain ⟨-, rfl, rfl⟩ := inBin
      simp only [Plan.room, planOf, isBin]
      omega

/-- A block that stays where it is and changes its size. -/
theorem Settled.resize (inv : t.Settled base L) {b : Block} (member : b ∈ t.live) {hi size : Nat}
    (slot : L.Slot b.ptr hi) (owner : slotOf b.ptr = b.ptr) (room : b.ptr + size ≤ hi) :
    ((t.drop b.ptr t.heap).hold ⟨b.ptr, size, false⟩ t.heap).Settled base L ∧
      Objects.Places (Function.update t.objects b.ptr none) b.ptr
        (t.heap.mem.bytesAt b.ptr size)
        ((t.drop b.ptr t.heap).hold ⟨b.ptr, size, false⟩ t.heap).objects := by
  obtain ⟨-, -, -, -, low⟩ := inv.slot member
  have nonzero : b.ptr ≠ 0 := by omega
  have others : ∀ d ∈ t.live.filter fun d => d.ptr ≠ b.ptr,
      d ∈ t.live ∧ slotOf d.ptr ≠ b.ptr := by
    intro d remaining
    obtain ⟨old, different⟩ := List.mem_filter.mp remaining
    refine ⟨old, fun same => ?_⟩
    rw [inv.eq_of_slotOf old member (same.trans owner.symm)] at different
    simp at different
  have live : ((t.drop b.ptr t.heap).hold ⟨b.ptr, size, false⟩ t.heap).live =
      ⟨b.ptr, size, false⟩ :: t.live.filter fun d => d.ptr ≠ b.ptr := if_neg nonzero
  have dropped : (t.drop b.ptr t.heap).objects = Function.update t.objects b.ptr none :=
    objects_drop fun _ _ _ _ => rfl
  constructor
  · refine ⟨inv.wf, ?_, ?_, ?_, inv.tiled⟩
    · rw [live]
      intro d isLive
      rcases List.mem_cons.mp isLive with rfl | remaining
      · exact ⟨hi, owner.symm ▸ slot, room, low, fun isAligned => Bool.noConfusion isAligned⟩
      · exact inv.held d (others d remaining).1
    · rw [live, List.pairwise_cons]
      refine ⟨fun d remaining same => ?_, inv.distinct.filter _⟩
      exact (others d remaining).2 (same.symm.trans owner)
    · rw [live]
      intro lo hi' slot'
      obtain ⟨d, memberD, rfl⟩ := inv.covered lo hi' slot'
      by_cases same : d.ptr = b.ptr
      · exact ⟨_, List.mem_cons_self, congrArg slotOf same.symm⟩
      · refine ⟨d, List.mem_cons_of_mem _ (List.mem_filter.mpr ⟨memberD, ?_⟩), rfl⟩
        simpa using same
  · refine ⟨nonzero, Function.update_self _ _ _, ?_, ?_⟩
    · rw [← dropped]
      exact objects_hold nonzero fun _ _ _ _ => rfl
    · intro q old isObject
      rw [← dropped] at isObject
      obtain ⟨d, remaining, rfl, rfl⟩ := objects_eq_some isObject
      obtain ⟨memberD, different⟩ := others d remaining
      have apart := inv.block_apart memberD slot different
      rw [length_bytesAt, length_bytesAt]
      omega

/-- A resized object begins as the old one began. -/
theorem take_cells {m m' : Memory} {p q n size : Nat}
    (same : ∀ k, k < min n size → m' (q + k) = m (p + k)) :
    (m'.bytesAt q size).take (m.bytesAt p n).length = (m.bytesAt p n).take size := by
  rw [length_bytesAt, take_bytesAt, take_bytesAt, Nat.min_comm size n]
  exact bytesAt_congr same

/-- `realloc` of a block whose slot has room. -/
theorem Settled.realloc_inPlace (inv : t.Settled base L) {b : Block} (member : b ∈ t.live)
    {hi size : Nat} (slot : L.Slot b.ptr hi) (owner : slotOf b.ptr = b.ptr) (positive : 0 < size)
    (room : b.ptr + size ≤ hi) (rand : Nat → Nat) :
    ∃ t', t.Step base L (.realloc b.ptr size rand) b.ptr t' L := by
  obtain ⟨settled, places⟩ := inv.resize member slot owner room
  have nonzero : b.ptr ≠ 0 := places.1
  have offPage := (inv.wf.slot_range slot).2.2.2
  have asked : ¬ size = 0 := by omega
  have capacity := slot_room inv.wf slot
  refine ⟨_, ?_, settled, ?_, ?_, fun _ _ => rfl⟩
  · rw [serve, inv.wf.klrealloc_inPlace slot positive room, Option.map_some,
      if_neg fun failed => nonzero failed.1]
  · simp only [Use.request, Plan.answer, if_neg nonzero, if_neg asked, if_neg offPage]
    rw [if_pos (by omega)]
    rfl
  · simp only [Objects.Serves, Objects.Resizes, Use.request, if_neg nonzero, if_neg asked,
      if_neg offPage]
    exact ⟨_, _, inv.objects_live member, length_bytesAt _ _ _, take_cells fun _ _ => rfl, places⟩

theorem drop_hold {ptr : Nat} {c : Block} (different : c.ptr ≠ ptr) (h h' : Heap) :
    (t.hold c h).drop ptr h' = (t.drop ptr h').hold c h' := by
  by_cases null : c.ptr = 0
  · simp only [drop, hold, if_pos null]
  · simp only [drop, hold, if_neg null, Tenants.mk.injEq, true_and]
    exact List.filter_cons_of_pos (by simpa using different)

/-- `realloc` of a block that outgrows its slot. -/
theorem Settled.realloc_moved (inv : t.Settled base L) {b : Block} (member : b ∈ t.live)
    {hi size : Nat} (slot : L.Slot b.ptr hi) (owner : slotOf b.ptr = b.ptr)
    (holds : b.ptr + b.size ≤ hi) (fits : t.heap.Fits size) (outgrown : hi < b.ptr + size)
    (rand : Nat → Nat) : ∃ r t' L', t.Step base L (.realloc b.ptr size rand) r t' L' := by
  have range := inv.wf.slot_range slot
  obtain ⟨p, h', L₁, served, granted⟩ := inv.wf.klmalloc_granted (by omega) fits
  obtain ⟨hi', slot', room⟩ := granted.slot
  obtain ⟨step, copied⟩ := inv.wf.copySlot slot granted.extends' slot' granted.fresh (by omega)
  have moved := Granted.write granted step
  obtain ⟨settled, places⟩ := inv.hold_start moved
  have nonzero : p ≠ 0 := places.1
  have different : p ≠ b.ptr := fun same => granted.fresh hi (same ▸ slot)
  have offPage := range.2.2.2
  have notNull : ¬ b.ptr = 0 := by omega
  have asked : ¬ size = 0 := by omega
  have capacity := slot_room inv.wf slot
  let h₁ : Heap := { h' with mem := memcpy h'.mem p b.ptr (hi - b.ptr) }
  let t₁ : Tenants := t.hold ⟨p, size, false⟩ h₁
  have member₁ : b ∈ t₁.live := by
    change b ∈ if p = 0 then t.live else _ :: t.live
    rw [if_neg nonzero]
    exact List.mem_cons_of_mem _ member
  -- The old slot is released while the new one is held.
  obtain ⟨h₂, L₂, freed, released⟩ := settled.released member₁ rand
  obtain ⟨settled₂, view⟩ := settled.drop member₁ released
  have apart : p ≠ slotOf b.ptr := fun same => different (same.trans owner)
  refine ⟨p, t₁.drop b.ptr h₂, L₂, ?_, settled₂, ?_, ?_, ?_⟩
  · have freed' : h₁.klfree rand b.ptr = some h₂ := freed
    have reallocated := inv.wf.klrealloc_moved slot outgrown rand served nonzero
    rw [show ({ h' with mem := memcpy h'.mem p b.ptr (hi - b.ptr) } : Heap) = h₁ from rfl, freed',
      Option.map_some] at reallocated
    rw [serve, reallocated, Option.map_some, if_neg fun failed => nonzero failed.1,
      ← drop_hold different h₁ h₂]
  · have planned₁ : (p, planOf h₁ L₁) = (planOf t.heap L).malloc size := moved.planned
    have planned₂ : planOf h₂ L₂ = (planOf h₁ L₁).free b.ptr := released.planned
    simp only [Use.request, Plan.answer, if_neg notNull, if_neg asked, if_neg offPage]
    rw [if_neg (by omega), ← planned₁, ← planned₂]
    rfl
  · have cellsKept : h₂.mem.bytesAt p size = h₁.mem.bytesAt p size :=
      bytesAt_congr fun k inside =>
        released.bytes _ (Or.inr ⟨p, hi', slot', apart, by omega, by omega⟩)
    simp only [Objects.Serves, Objects.Resizes, Use.request, if_neg notNull, if_neg asked,
      if_neg offPage]
    refine ⟨_, h₁.mem.bytesAt p size, inv.objects_live member, length_bytesAt _ _ _,
      take_cells fun k inside => copied k (by omega), nonzero, ?_, ?_, ?_⟩
    · rw [Function.update_of_ne different]
      exact places.2.1
    · have held : t₁.objects = Function.update t.objects p (some (h₁.mem.bytesAt p size)) :=
        places.2.2.1
      rw [view, held]
      exact Function.update_comm different _ _ _
    · intro q old isObject
      have elsewhere : q ≠ b.ptr := by
        rintro rfl
        rw [Function.update_self] at isObject
        contradiction
      rw [Function.update_of_ne elsewhere] at isObject
      exact places.2.2.2 q old isObject
  · intro a below
    exact (released.bytes a (Or.inl below)).trans (step.bytes a (Or.inl below))

/-! ### `realloc` -/

/-- `realloc(NULL, size)` is `malloc(size)`. -/
theorem Settled.realloc_null (inv : t.Settled base L) (size : Nat) (rand : Nat → Nat) :
    t.serve (.realloc 0 size rand) = t.serve (.malloc size) := by
  have all : t.live.filter (fun b => b.ptr ≠ 0) = t.live := congrArg Tenants.live inv.drop_null
  rw [serve, serve, Heap.klrealloc, if_pos rfl]
  refine congrArg (Option.map · (t.heap.klmalloc size)) ?_
  funext r
  by_cases null : r.1 = 0
  · simp only [Tenants.hold, Tenants.drop, all, null, true_and, if_true, ite_self]
  · simp only [Tenants.hold, Tenants.drop, all, null, false_and, if_false]

/-- `realloc(ptr, 0)` is `free(ptr)`. -/
theorem realloc_nothing {ptr : Nat} (nonzero : ptr ≠ 0) (rand : Nat → Nat) :
    t.serve (.realloc ptr 0 rand) = t.serve (.free ptr rand) := by
  rw [serve, serve, Heap.klrealloc, if_neg nonzero, if_pos rfl, Option.map_map]
  rfl

theorem Settled.realloc (inv : t.Settled base L) {ptr size : Nat} {rand : Nat → Nat}
    (allowed : t.Allowed (.realloc ptr size rand)) :
    ∃ r t' L', t.Step base L (.realloc ptr size rand) r t' L' := by
  obtain ⟨names, unlike, fits⟩ := allowed
  by_cases null : ptr = 0
  · subst null
    have allowed' : t.Allowed (.malloc size) := by
      rcases fits with nothing | stays | room
      · exact Or.inl nothing
      · exact absurd rfl stays.1
      · exact Or.inr room
    obtain ⟨r, t', L', step⟩ := inv.malloc allowed'
    refine ⟨r, t', L', (inv.realloc_null size rand).trans step.answered, step.settled, ?_, ?_,
      step.below⟩
    · simp only [Use.request, Plan.answer, if_true]
      exact step.planned
    · simp only [Objects.Serves, Objects.Resizes, Use.request, if_true]
      exact step.serves
  · by_cases nothing : size = 0
    · subst nothing
      have allowed' : t.Allowed (.free ptr rand) := names
      obtain ⟨r, t', L', step⟩ := inv.free allowed'
      refine ⟨r, t', L', (realloc_nothing null rand).trans step.answered, step.settled, ?_, ?_,
        step.below⟩
      · have planned := step.planned
        simp only [Use.request, Plan.answer, if_neg null, if_true] at planned ⊢
        exact planned
      · have served := step.serves
        simp only [Objects.Serves, Objects.Resizes, Use.request, if_neg null, if_true] at served ⊢
        exact served
    · have positive : 0 < size := Nat.pos_of_ne_zero nothing
      obtain ⟨b, member, rfl⟩ := names.resolve_left null
      by_cases onPage : b.ptr % 0x1000 = 0
      · refine ⟨0, t, L, ?_, inv, ?_, ?_, fun _ _ => rfl⟩
        · rw [serve, Heap.klrealloc_aligned t.heap rand null positive onPage (unlike null onPage),
            Option.map_some, if_pos ⟨rfl, nothing⟩]
        · simp only [Use.request, Plan.answer, if_neg null, if_neg nothing, if_pos onPage]
        · simp [Objects.Serves, Objects.Resizes, Use.request, null, nothing, onPage]
      · have owner : slotOf b.ptr = b.ptr := slotOf_slot onPage
        obtain ⟨hi, slot, -, holds, -⟩ := inv.slot member
        rw [owner] at slot
        by_cases room : b.ptr + size ≤ hi
        · obtain ⟨t', step⟩ :=
            inv.realloc_inPlace member slot owner positive room rand
          exact ⟨b.ptr, t', L, step⟩
        · have capacity := (inv.wf.slot_oldSize slot).2
          have fits' : t.heap.Fits size := by
            rcases fits with zero | stays | fits
            · exact absurd zero nothing
            · rcases stays.2 with isPage | small
              · exact absurd isPage onPage
              · omega
            · exact fits
          exact inv.realloc_moved member slot owner holds fits' (by omega) rand

/-- Every allowed call answers, keeps the invariant, follows the plan and does what an object
store may do. -/
theorem Settled.step (inv : t.Settled base L) {call : Use} (allowed : t.Allowed call) :
    ∃ r t' L', t.Step base L call r t' L' := by
  cases call with
  | malloc size => exact inv.malloc allowed
  | calloc nmemb size => exact inv.calloc allowed
  | valloc size => exact inv.valloc allowed
  | realloc ptr size rand => exact inv.realloc allowed
  | free ptr rand => exact inv.free allowed
  | write a v => exact inv.write allowed

end Balloon.Allocator.Tenants
