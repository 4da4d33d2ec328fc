import Balloon.Allocator.TenantSteps

/-!
Owns what the heap is to its clients over whole runs from `init_heap`: an object store that
keeps every block its clients leave alone, loses no memory, answers the same addresses
whatever levels its skip list draws, and serves a big request from the smallest free block
that has room.
-/

namespace Balloon.Allocator.Tenants

open Balloon.Foundation
open Balloon.Libc
open Client (slotOf emptyLayout wellFormed_empty)

/-- The heap right after `init_heap`. -/
def booted (mem : Memory) (placementPointer : Nat) : Tenants :=
  ⟨(Client.boot mem placementPointer).heap.initHeap, []⟩

/-- Where the heap starts. -/
def heapStart (placementPointer : Nat) : Nat := (placementPointer + 0x1000) / 0x1000 * 0x1000

theorem heapEnd_booted (mem : Memory) {placementPointer : Nat}
    (room : placementPointer + 0x1000 ≤ kheapEnd) :
    (booted mem placementPointer).heap.heapEnd = heapStart placementPointer := by
  unfold kheapEnd at room
  change wrap32 (placementPointer + 0x1000) / 0x1000 * 0x1000 = _
  rw [wrap32_of_lt (by omega), heapStart]

theorem settled_booted (mem : Memory) {placementPointer : Nat}
    (room : placementPointer + 0x1000 ≤ kheapEnd) :
    (booted mem placementPointer).Settled (heapStart placementPointer) emptyLayout := by
  have heapEnd := heapEnd_booted mem room
  unfold kheapEnd at room
  have noSlot : ∀ lo hi, ¬ emptyLayout.Slot lo hi := by
    rintro lo hi ⟨x, k, isBin, -⟩
    exact absurd isBin (by simp [emptyLayout])
  refine ⟨?_, ?_, List.Pairwise.nil, ?_, ?_⟩
  · refine wellFormed_empty heapEnd ?_ ?_ ?_ (fun _ => rfl) (fun _ => rfl) rfl rfl
    · exact Nat.mul_mod_left _ _
    · change placementPointer < heapStart placementPointer
      unfold heapStart
      omega
    · unfold heapStart
      omega
  · intro b member
    cases member
  · exact fun lo hi slot => absurd slot (noSlot lo hi)
  · intro a low high
    rw [heapEnd] at high
    omega

/-- What holds in every state of a run that starts with the memory `mem`. -/
def Running (mem : Memory) (base : Nat) (t : Tenants) : Prop :=
  (∃ L, t.Settled base L ∧ (planOf t.heap L).Offers) ∧ ∀ a, a < base → t.heap.mem a = mem a

theorem running_step {mem : Memory} {base : Nat} {t : Tenants} {call : Use}
    (running : Running mem base t) (allowed : t.Allowed call) :
    ∃ r t', t.serve call = some (r, t') ∧ Running mem base t' ∧
      t.objects.Serves 0 0x1000 call.request r t'.objects := by
  obtain ⟨⟨L, inv, offers⟩, below⟩ := running
  obtain ⟨r, t', L', step⟩ := inv.step allowed
  have planned : planOf t'.heap L' = ((planOf t.heap L).answer call.request).2 :=
    congrArg Prod.snd step.planned
  have offers' : (planOf t'.heap L').Offers := planned ▸ offers.answer call.request
  exact ⟨r, t', step.answered,
    ⟨⟨L', step.settled, offers'⟩, fun a low => (step.below a low).trans (below a low)⟩, step.serves⟩

/-- A run from such a state is one of an object store. -/
theorem running_run {mem : Memory} {base : Nat} {t : Tenants} (running : Running mem base t)
    {calls : List Use} (allowed : EveryStep (served serve) Allowed t calls) :
    ∃ answers last, replies serve t calls = some (answers, last) ∧ Running mem base last ∧
      Allows (Objects.Serves 0 0x1000) t.objects (calls.map Use.request) answers last.objects := by
  let spec (s : Objects UInt8) (call : Use) := s.Serves 0 0x1000 call.request
  have each : ∀ t call, Running mem base t → t.Allowed call →
      ∃ r t', t.serve call = some (r, t') ∧ Running mem base t' ∧ spec t.objects call r t'.objects :=
    fun t call => running_step
  obtain ⟨answers, last, answered, running', run⟩ :=
    allows_of_simulation objects each running allowed
  exact ⟨answers, last, answered, running', run.map⟩

variable (mem : Memory) {placementPointer : Nat}

theorem running_booted (room : placementPointer + 0x1000 ≤ kheapEnd) :
    Running mem (heapStart placementPointer) (booted mem placementPointer) :=
  ⟨⟨emptyLayout, settled_booted mem room, fun _ _ _ noCell => absurd rfl noCell⟩, fun _ _ => rfl⟩

/-! ### A run -/

/-- The plan of a heap without bins. -/
def emptyPlan (heapEnd : Nat) : Plan := ⟨heapEnd, fun _ => none, fun _ => [], fun _ => [], []⟩

/-- The first `malloc(16)` gets the first cell of the first bin. -/
theorem firstCell :
    ∃ t L, (booted (fun _ => 0) 0x1000).Allowed (.malloc 16) ∧
      (booted (fun _ => 0) 0x1000).Step 0x2000 emptyLayout (.malloc 16) 0x2010 t L ∧
      planOf t.heap L = ((emptyPlan 0x2000).answer (.create 16)).2 ∧
      ⟨0x2010, 16, false⟩ ∈ t.live := by
  have inv := settled_booted (fun _ => 0) (show 0x1000 + 0x1000 ≤ kheapEnd by decide)
  have start := heapEnd_booted (fun _ => 0) (show 0x1000 + 0x1000 ≤ kheapEnd by decide)
  have may : (booted (fun _ => 0) 0x1000).Allowed (.malloc 16) := by
    refine Or.inr (fits_of_room ?_)
    rw [start]
    decide
  obtain ⟨r, t, L, step⟩ := inv.step may
  have planned : (r, planOf t.heap L) = (emptyPlan 0x2000).answer (.create 16) := by
    rw [step.planned, planOf, start]
    rfl
  have cell : r = 0x2010 := congrArg Prod.fst planned
  subst cell
  refine ⟨t, L, may, step, congrArg Prod.snd planned, ?_⟩
  have answered := step.answered
  rw [serve] at answered
  obtain ⟨q, -, same⟩ := Option.map_eq_some_iff.mp answered
  obtain ⟨cell, rfl⟩ := Prod.mk.inj same
  simp only [hold, cell]
  exact List.mem_cons_self

/-- A cell of the first bin, moved to a big block, and a block on a page. -/
def firstCalls : List Use := [.malloc 16, .realloc 0x2010 3000 fun _ => 0, .valloc 8]

theorem allowed_firstCalls :
    EveryStep (served serve) Allowed (booted (fun _ => 0) 0x1000) firstCalls := by
  obtain ⟨t, L, may, step, planned, live⟩ := firstCell
  have heapEnd : t.heap.heapEnd = 0x3000 := congrArg Plan.heapEnd planned
  have may' : t.Allowed (.realloc 0x2010 3000 fun _ => 0) := by
    refine ⟨Or.inr ⟨_, live, rfl⟩, fun _ onPage => absurd onPage (by decide),
      Or.inr (Or.inr (fits_of_room ?_))⟩
    rw [heapEnd]
    decide
  obtain ⟨r', t', L', step'⟩ := step.settled.step may'
  have heapEnd' : t'.heap.heapEnd = 0x4000 := by
    have planned' := congrArg (fun answer => answer.2.heapEnd) step'.planned
    rw [planned] at planned'
    exact planned'
  refine everyStep_cons_some (served_of_some step.answered) may
    (everyStep_cons_some (served_of_some step'.answered) may' ⟨?_, fun _ _ => trivial⟩)
  refine fits_of_room ?_
  rw [heapEnd']
  decide

theorem live_malloc {t t' : Tenants} {base : Nat} {L L' : Layout} {size r : Nat}
    (step : t.Step base L (.malloc size) r t' L') (nonzero : r ≠ 0) :
    t'.live = ⟨r, size, false⟩ :: t.live := by
  have answered := step.answered
  rw [serve] at answered
  obtain ⟨⟨p, h⟩, -, same⟩ := Option.map_eq_some_iff.mp answered
  obtain ⟨rfl, rfl⟩ := Prod.mk.inj same
  exact if_neg nonzero

theorem live_free {t t' : Tenants} {base : Nat} {L L' : Layout} {ptr r : Nat} {rand : Nat → Nat}
    (step : t.Step base L (.free ptr rand) r t' L') :
    t'.live = t.live.filter fun b => b.ptr ≠ ptr := by
  have answered := step.answered
  rw [serve] at answered
  obtain ⟨h, -, same⟩ := Option.map_eq_some_iff.mp answered
  obtain ⟨-, rfl⟩ := Prod.mk.inj same
  rfl

/-- A cell, and two big blocks of different sizes that are released again. -/
def bigCalls : List Use :=
  [.malloc 16, .malloc 7000, .malloc 3000, .free 0x3030 fun _ => 0, .free 0x5030 fun _ => 0]

/-- One call of a run whose plan is known. -/
theorem Settled.step_planned {t : Tenants} {base : Nat} {L : Layout} (inv : t.Settled base L)
    {call : Use} (allowed : t.Allowed call) {P : Plan} (isPlan : planOf t.heap L = P) {r : Nat}
    (reply : (P.answer call.request).1 = r) :
    ∃ t' L', t.Step base L call r t' L' ∧ planOf t'.heap L' = (P.answer call.request).2 := by
  obtain ⟨q, t', L', step⟩ := inv.step allowed
  have planned := step.planned
  rw [isPlan] at planned
  obtain rfl : q = r := (congrArg Prod.fst planned).trans reply
  exact ⟨t', L', step, congrArg Prod.snd planned⟩

theorem bigCalls_run :
    ∃ t L, EveryStep (served serve) Allowed (booted (fun _ => 0) 0x1000) bigCalls ∧
      replies serve (booted (fun _ => 0) 0x1000) bigCalls =
        some ([0x2010, 0x3030, 0x5030, 0, 0], t) ∧
      t ∈ visited (served serve) (booted (fun _ => 0) 0x1000) bigCalls ∧
      t.Settled 0x2000 L ∧ (planOf t.heap L).blocks = [0x5000, 0x3000] ∧
      (planOf t.heap L).room 0x3000 = 8144 ∧ (planOf t.heap L).room 0x5000 = 4048 := by
  obtain ⟨t₁, L₁, may₁, step₁, planned₁, -⟩ := firstCell
  have end₁ : t₁.heap.heapEnd = 0x3000 := congrArg Plan.heapEnd planned₁
  have may₂ : t₁.Allowed (.malloc 7000) := by
    refine Or.inr (fits_of_room ?_)
    rw [end₁]
    decide
  obtain ⟨t₂, L₂, step₂, planned₂⟩ :=
    step₁.settled.step_planned may₂ planned₁ (show _ = 0x3030 from rfl)
  have end₂ : t₂.heap.heapEnd = 0x5000 := congrArg Plan.heapEnd planned₂
  have may₃ : t₂.Allowed (.malloc 3000) := by
    refine Or.inr (fits_of_room ?_)
    rw [end₂]
    decide
  obtain ⟨t₃, L₃, step₃, planned₃⟩ :=
    step₂.settled.step_planned may₃ planned₂ (show _ = 0x5030 from rfl)
  have live₃ : t₃.live = ⟨0x5030, 3000, false⟩ :: ⟨0x3030, 7000, false⟩ :: t₁.live := by
    rw [live_malloc step₃ (by decide), live_malloc step₂ (by decide)]
  have may₄ : t₃.Allowed (.free 0x3030 fun _ => 0) :=
    Or.inr ⟨⟨0x3030, 7000, false⟩, by simp [live₃], rfl⟩
  obtain ⟨t₄, L₄, step₄, planned₄⟩ :=
    step₃.settled.step_planned may₄ planned₃ (show _ = 0 from rfl)
  have may₅ : t₄.Allowed (.free 0x5030 fun _ => 0) :=
    Or.inr ⟨⟨0x5030, 3000, false⟩, by simp [live_free step₄, live₃], rfl⟩
  obtain ⟨t₅, L₅, step₅, planned₅⟩ :=
    step₄.settled.step_planned may₅ planned₄ (show _ = 0 from rfl)
  have first := served_of_some step₁.answered
  have second := served_of_some step₂.answered
  have third := served_of_some step₃.answered
  have fourth := served_of_some step₄.answered
  have fifth := served_of_some step₅.answered
  refine ⟨t₅, L₅, ?_, ?_, ?_, step₅.settled, ?_, ?_, ?_⟩
  · exact everyStep_cons_some first may₁ (everyStep_cons_some second may₂
      (everyStep_cons_some third may₃ (everyStep_cons_some fourth may₄
        (everyStep_cons_some fifth may₅ trivial))))
  · rw [bigCalls, replies_cons step₁.answered, replies_cons step₂.answered,
      replies_cons step₃.answered, replies_cons step₄.answered, replies_cons step₅.answered]
    rfl
  · rw [bigCalls, visited_cons_some first, visited_cons_some second, visited_cons_some third,
      visited_cons_some fourth, visited_cons_some fifth]
    simp [visited]
  · rw [planned₅]
    rfl
  · rw [planned₅]
    rfl
  · rw [planned₅]
    rfl

/-! ### An object store -/

/-- Along every run of requests that fit the heap, every call is answered, the live blocks are
the objects of a store that allows these calls and answers, objects stay apart, and no byte
below the heap changes. -/
theorem objects_along_run (room : placementPointer + 0x1000 ≤ kheapEnd) (calls : List Use)
    (allowed : EveryStep (served serve) Allowed (booted mem placementPointer) calls) :
    ∃ answers last, replies serve (booted mem placementPointer) calls = some (answers, last) ∧
      Allows (Objects.Serves 0 0x1000) (fun _ => none) (calls.map Use.request) answers
        last.objects ∧
      last.objects.Separate ∧
      ∀ a, a < heapStart placementPointer → last.heap.mem a = mem a := by
  obtain ⟨answers, last, answered, running, run⟩ := running_run (running_booted mem room) allowed
  have empty : (booted mem placementPointer).objects = fun _ => none := rfl
  rw [empty] at run
  refine ⟨answers, last, answered, run, ?_, running.2⟩
  have start : Objects.Separate (fun _ => none : Objects UInt8) := by
    intro p q cells cells' atP
    cases atP
  exact run.invariant (fun s request r s' separate serves => separate.serves serves) start

theorem objects_along_run_first :
    ∃ answers last, replies serve (booted (fun _ => 0) 0x1000) firstCalls = some (answers, last) ∧
      Allows (Objects.Serves 0 0x1000) (fun _ => none) (firstCalls.map Use.request) answers
        last.objects ∧
      last.objects.Separate ∧ ∀ a, a < heapStart 0x1000 → last.heap.mem a = 0 :=
  objects_along_run (fun _ => 0) (by decide) firstCalls allowed_firstCalls

/-- A block that is live after a run keeps its bytes along every further run whose calls
neither release nor resize it nor write into it. -/
theorem kept_along_run (room : placementPointer + 0x1000 ≤ kheapEnd) {earlier later : List Use}
    {answers : List Nat} {t : Tenants}
    (allowed : EveryStep (served serve) Allowed (booted mem placementPointer) earlier)
    (ran : replies serve (booted mem placementPointer) earlier = some (answers, t))
    (allowed' : EveryStep (served serve) Allowed t later) {b : Block} (member : b ∈ t.live)
    (spares : ∀ call ∈ later, Objects.Spares b.ptr b.size call.request) :
    ∃ answers' last, replies serve t later = some (answers', last) ∧
      last.objects b.ptr = some (t.heap.mem.bytesAt b.ptr b.size) := by
  obtain ⟨answers', t', ran', running, -⟩ := running_run (running_booted mem room) allowed
  obtain ⟨-, rfl⟩ := Prod.mk.inj (Option.some.inj (ran.symm.trans ran'))
  obtain ⟨answers'', last, ran'', -, run⟩ := running_run running allowed'
  obtain ⟨⟨L, inv, -⟩, -⟩ := running
  refine ⟨answers'', last, ran'', Objects.allows_keeps run (inv.objects_live member) ?_⟩
  intro request asked
  obtain ⟨call, isCall, rfl⟩ := List.mem_map.mp asked
  rw [length_bytesAt]
  exact spares call isCall

theorem kept_along_run_first :
    ∃ t answers last, replies serve (booted (fun _ => 0) 0x1000) [.malloc 16] =
        some ([0x2010], t) ∧
      replies serve t [.calloc 2 20] = some (answers, last) ∧
      last.objects 0x2010 = some (t.heap.mem.bytesAt 0x2010 16) := by
  obtain ⟨t, L, may, step, planned, live⟩ := firstCell
  have heapEnd : t.heap.heapEnd = 0x3000 := congrArg Plan.heapEnd planned
  have may' : t.Allowed (.calloc 2 20) := by
    refine Or.inr (fits_of_room ?_)
    rw [heapEnd]
    decide
  have ran : replies serve (booted (fun _ => 0) 0x1000) [.malloc 16] = some ([0x2010], t) := by
    rw [replies_cons step.answered]
    rfl
  have allowed : EveryStep (served serve) Allowed (booted (fun _ => 0) 0x1000) [.malloc 16] :=
    everyStep_cons_some (served_of_some step.answered) may trivial
  have allowed' : EveryStep (served serve) Allowed t [.calloc 2 20] := ⟨may', fun _ _ => trivial⟩
  have spares : ∀ call ∈ [Use.calloc 2 20], Objects.Spares 0x2010 16 call.request :=
    List.forall_mem_singleton.mpr trivial
  obtain ⟨answers, last, answered, kept⟩ :=
    kept_along_run (fun _ => 0) (by decide) allowed ran allowed' live spares
  exact ⟨t, answers, last, ran, answered, kept⟩

/-! ### No memory is lost -/

/-- The first address behind the bin at `x`. -/
def binEnd (h : Heap) (x : Nat) : Nat :=
  if h.sizeOf x < 10 then x + 0x1000 else x + 48 + h.sizeOf x

/-- The bin at `x` is on the list that `klmalloc` takes cells of its size from. -/
def Offered (h : Heap) (x : Nat) : Prop := Linked (h.chainNext (h.sizeOf x)) x

/-- A live block holds the slot that starts at `lo`. -/
def Holds (t : Tenants) (lo : Nat) : Prop := ∃ b ∈ t.live, slotOf b.ptr = lo

/-- Each address of the heap lies in one of the bins, and in one only. A cell of a small bin is
on the bin's free stack exactly when no live block holds it, and a bin with a free cell is
offered. A big block is on the skip list exactly when no live block holds it. -/
structure Accounts (t : Tenants) (base : Nat) (bins : Nat → Prop) : Prop where
  range : ∀ x, bins x → base ≤ x ∧ binEnd t.heap x ≤ t.heap.heapEnd
  fill : ∀ a, base ≤ a → a < t.heap.heapEnd → ∃! x, bins x ∧ x ≤ a ∧ a < binEnd t.heap x
  magic : ∀ x, bins x → t.heap.magicOf x = binMagic
  slots : ∀ x, bins x →
    (t.heap.sizeOf x < 10 ∧
      (∀ c, FreeCell t.heap x c ↔ IsCell x (t.heap.sizeOf x) c ∧ ¬ t.Holds c) ∧
      ((∃ c, FreeCell t.heap x c) → Offered t.heap x)) ∨
    (11 < t.heap.sizeOf x ∧ (FreeBlock t.heap x ↔ ¬ t.Holds (x + 48)))

def Conserved (t : Tenants) (base : Nat) : Prop := ∃ bins, t.Accounts base bins

/-- A bin ends behind its pages. -/
theorem binEnd_eq {h : Heap} {base : Nat} {L : Layout} (wf : WellFormed h base L) {x : Nat}
    {k : Bin} (isBin : L.bins x = some k) : binEnd h x = x + 0x1000 * k.pages := by
  have pages := (wf.placed.range x k isBin).2.1
  unfold binEnd
  cases k with
  | small b =>
      obtain ⟨-, bucket, size, -⟩ := wf.bin x _ isBin
      rw [if_pos (by omega), Bin.pages_small]
  | big n =>
      obtain ⟨-, size, -⟩ := wf.bin x _ isBin
      rw [Bin.pages_big] at pages ⊢
      rw [if_neg (by omega)]
      omega

theorem Settled.holds_iff {t : Tenants} {base : Nat} {L : Layout} (inv : t.Settled base L)
    (lo : Nat) : t.Holds lo ↔ ∃ hi, L.Slot lo hi := by
  constructor
  · rintro ⟨b, member, rfl⟩
    obtain ⟨hi, slot, -⟩ := inv.slot member
    exact ⟨hi, slot⟩
  · rintro ⟨hi, slot⟩
    exact inv.covered lo hi slot

/-- The cells of a bin are on its stack or held. -/
theorem Settled.freeCell_iff {t : Tenants} {base : Nat} {L : Layout} (inv : t.Settled base L)
    {x b : Nat} (isBin : L.bins x = some (.small b)) (c : Nat) :
    FreeCell t.heap x c ↔ IsCell x b c ∧ ¬ t.Holds c := by
  obtain ⟨-, -, -, stack, -, cell⟩ := inv.wf.bin x _ isBin
  have onStack : FreeCell t.heap x c ↔ c ∈ L.free x := stack.mem_iff_linked.symm
  have width := four_le_two_pow b
  rw [onStack, inv.holds_iff]
  constructor
  · intro free
    refine ⟨cell c free, ?_⟩
    rintro ⟨hi, slot⟩
    have apart := inv.wf.slot_freeCell slot isBin free
    have proper := inv.wf.slot_range slot
    omega
  · rintro ⟨isCell, notHeld⟩
    by_contra taken
    exact notHeld ⟨_, x, _, isBin, isCell, taken, rfl⟩

theorem Settled.accounts {t : Tenants} {base : Nat} {L : Layout} (inv : t.Settled base L)
    (offers : (planOf t.heap L).Offers) : t.Accounts base fun x => ∃ k, L.bins x = some k where
  range := by
    rintro x ⟨k, isBin⟩
    have range := inv.wf.placed.range x k isBin
    rw [binEnd_eq inv.wf isBin]
    exact ⟨range.1, range.2.2⟩
  fill := by
    intro a low high
    obtain ⟨x, k, isBin, above, below⟩ := inv.tiled a low high
    refine ⟨x, ⟨⟨k, isBin⟩, above, binEnd_eq inv.wf isBin ▸ below⟩, ?_⟩
    rintro y ⟨⟨l, isBinY⟩, aboveY, belowY⟩
    rw [binEnd_eq inv.wf isBinY] at belowY
    by_contra different
    have apart := inv.wf.placed.apart y x l k isBinY isBin different
    omega
  magic := by
    rintro x ⟨k, isBin⟩
    have ok := inv.wf.bin x k isBin
    cases k with
    | small b => exact ok.1
    | big n => exact ok.1
  slots := by
    rintro x ⟨k, isBin⟩
    cases k with
    | small b =>
        obtain ⟨-, bucket, size, stack, -, -⟩ := inv.wf.bin x _ isBin
        refine Or.inl ⟨size ▸ bucket, ?_, ?_⟩
        · rw [size]
          exact inv.freeCell_iff isBin
        · rintro ⟨c, free⟩
          have onStack : c ∈ L.free x := stack.mem_iff_linked.mpr free
          have listed : x ∈ L.chain b := offers x b isBin (List.ne_nil_of_mem onStack)
          rw [Offered, size]
          exact (inv.wf.chain b bucket).path.mem_iff_linked.mp listed
    | big n =>
        obtain ⟨-, size, -⟩ := inv.wf.bin x _ isBin
        have pages := (inv.wf.placed.range x _ isBin).2.1
        rw [Bin.pages_big] at pages
        refine Or.inr ⟨by omega, ?_⟩
        rw [inv.wf.freeBlock_iff, inv.holds_iff]
        constructor
        · rintro free ⟨hi, slot⟩
          exact inv.wf.slot_ne_next slot (Or.inl free) rfl
        · intro notHeld
          by_contra taken
          exact notHeld ⟨_, x, _, isBin, taken, rfl, rfl⟩

theorem running_visited (room : placementPointer + 0x1000 ≤ kheapEnd) {calls : List Use}
    (allowed : EveryStep (served serve) Allowed (booted mem placementPointer) calls) {t : Tenants}
    (member : t ∈ visited (served serve) (booted mem placementPointer) calls) :
    Running mem (heapStart placementPointer) t := by
  refine visited_invariant ?_ (running_booted mem room) allowed t member
  intro t call t' running may stepped
  obtain ⟨r, t'', answered, running', -⟩ := running_step running may
  exact Option.some.inj ((served_of_some answered).symm.trans stepped) ▸ running'

/-- In every state of every run the free lists and the live blocks account for the whole
heap. -/
theorem conserved_along_run (room : placementPointer + 0x1000 ≤ kheapEnd) (calls : List Use)
    (allowed : EveryStep (served serve) Allowed (booted mem placementPointer) calls) :
    ∀ t ∈ visited (served serve) (booted mem placementPointer) calls,
      t.Conserved (heapStart placementPointer) := by
  intro t member
  obtain ⟨⟨L, inv, offers⟩, -⟩ := running_visited mem room allowed member
  exact ⟨_, inv.accounts offers⟩

/-- With one cell held and two big blocks free. -/
theorem conserved_along_run_first :
    ∃ t, replies serve (booted (fun _ => 0) 0x1000) bigCalls =
        some ([0x2010, 0x3030, 0x5030, 0, 0], t) ∧ t.Conserved (heapStart 0x1000) := by
  obtain ⟨t, L, allowed, ran, member, -⟩ := bigCalls_run
  exact ⟨t, ran, conserved_along_run (fun _ => 0) (by decide) bigCalls allowed t member⟩

/-! ### Addresses -/

/-- A call without what the addresses do not depend on: random numbers and written bytes. -/
def shape : Use → Request UInt8
  | .write _ _ => .write 0 0
  | call => call.request

theorem answer_shape (P : Plan) (call : Use) : P.answer (shape call) = P.answer call.request := by
  cases call <;> rfl

/-- Along every run the addresses are those of the plan, which sees the shape of each call
only: neither the levels the skip list draws nor what memory holds has a part in them. -/
theorem answers_along_run (room : placementPointer + 0x1000 ≤ kheapEnd) (calls : List Use)
    (allowed : EveryStep (served serve) Allowed (booted mem placementPointer) calls) :
    ∃ answers last P, replies serve (booted mem placementPointer) calls = some (answers, last) ∧
      replies (fun (P : Plan) request => some (P.answer request))
        (emptyPlan (heapStart placementPointer)) (calls.map shape) = some (answers, P) := by
  let view (t : Tenants) (P : Plan) := ∃ L, t.Settled (heapStart placementPointer) L ∧
    P = planOf t.heap L
  have each : ∀ t P call, view t P → t.Allowed call →
      ∃ t', t.serve call = some ((P.answer (shape call)).1, t') ∧
        view t' (P.answer (shape call)).2 := by
    rintro t P call ⟨L, inv, rfl⟩ may
    obtain ⟨r, t', L', step⟩ := inv.step may
    rw [answer_shape, ← step.planned]
    exact ⟨t', step.answered, L', step.settled, rfl⟩
  have booted := settled_booted mem room
  obtain ⟨answers, last, P, answered, planned, -⟩ :=
    replies_of_determined view shape each ⟨emptyLayout, booted, rfl⟩ allowed
  refine ⟨answers, last, P, answered, ?_⟩
  rw [← planned, planOf, heapEnd_booted mem room]
  rfl

theorem answers_along_run_first :
    ∃ answers last P, replies serve (booted (fun _ => 0) 0x1000) firstCalls =
        some (answers, last) ∧
      replies (fun (P : Plan) request => some (P.answer request)) (emptyPlan (heapStart 0x1000))
        (firstCalls.map shape) = some (answers, P) :=
  answers_along_run (fun _ => 0) (by decide) firstCalls allowed_firstCalls

/-! ### Best fit -/

/-- In every state of every run a big request that fits is served from a free block that is
the smallest with room, and the heap grows exactly when there is none. -/
theorem bestFit_along_run (room : placementPointer + 0x1000 ≤ kheapEnd) (calls : List Use)
    (allowed : EveryStep (served serve) Allowed (booted mem placementPointer) calls) :
    ∀ t ∈ visited (served serve) (booted mem placementPointer) calls, ∀ size,
      klmallocBinSize size = 10 → t.heap.Fits size →
      ∃ p h, t.heap.klmalloc size = some (p, h) ∧
        (∀ x, FreeBlock t.heap x → size ≤ t.heap.sizeOf x →
          ∃ y, p = y + 48 ∧ FreeBlock t.heap y ∧ size ≤ t.heap.sizeOf y ∧
            t.heap.sizeOf y ≤ t.heap.sizeOf x ∧ h.heapEnd = t.heap.heapEnd) ∧
        ((∀ x, FreeBlock t.heap x → t.heap.sizeOf x < size) →
          p = t.heap.heapEnd + 48 ∧ h.heapEnd = t.heap.heapEnd + 0x1000 * bigPages size) := by
  intro t member size big fits
  obtain ⟨⟨L, inv, -⟩, -⟩ := running_visited mem room allowed member
  have wf := inv.wf
  have asked : ¬ size = 0 := by
    rintro rfl
    cases big
  have isBig : ∀ {p h}, t.heap.klmallocBig size = some (p, h) →
      t.heap.klmalloc size = some (p, h) := by
    intro p h served
    rw [Heap.klmalloc, if_neg asked, if_neg (by omega), served]
  have inFilter : ∀ x, x ∈ (L.level 0).filter (fun y => !decide (t.heap.sizeOf y < size)) ↔
      FreeBlock t.heap x ∧ size ≤ t.heap.sizeOf x := by
    intro x
    rw [List.mem_filter, wf.freeBlock_iff]
    simp
  cases found : (L.level 0).filter fun y => !decide (t.heap.sizeOf y < size) with
  | cons y rest =>
      obtain ⟨h, served, heapEnd, -⟩ := wf.takeBlock_extends found
      have first : FreeBlock t.heap y ∧ size ≤ t.heap.sizeOf y := by
        rw [← inFilter, found]
        exact List.mem_cons_self
      refine ⟨y + 48, h, isBig served, ?_, fun none => ?_⟩
      · intro x free large
        have sorted := wf.skip.sorted.filter fun y => !decide (t.heap.sizeOf y < size)
        rw [found, List.pairwise_cons] at sorted
        have listed := (inFilter x).mpr ⟨free, large⟩
        rw [found] at listed
        refine ⟨y, rfl, first.1, first.2, ?_, heapEnd⟩
        rcases List.mem_cons.mp listed with rfl | later
        · exact Nat.le_refl _
        · exact sorted.1 x later
      · have small := none y first.1
        omega
  | nil =>
      have noFit : ∀ x, FreeBlock t.heap x → ¬ size ≤ t.heap.sizeOf x := by
        intro x free large
        have listed := (inFilter x).mpr ⟨free, large⟩
        rw [found] at listed
        cases listed
      have growth : t.heap.heapEnd + 0x1000 * bigPages size ≤ kheapEnd := by
        rcases fits with ⟨small, -⟩ | ⟨-, ⟨x, free, large⟩ | growth⟩
        · omega
        · exact absurd large (noFit x free)
        · exact growth
      obtain ⟨h, grown, heapEnd, -⟩ := wf.newBigBin_extends growth
      refine ⟨t.heap.heapEnd + 48, h, isBig ((wf.klmallocBig_grow found).trans (by rw [grown])),
        fun x free large => absurd large (noFit x free), fun _ => ⟨rfl, heapEnd⟩⟩

/-- Of the two free blocks the smaller one is taken, which lies behind the larger one. -/
theorem bestFit_along_run_first :
    ∃ t p h, replies serve (booted (fun _ => 0) 0x1000) bigCalls =
        some ([0x2010, 0x3030, 0x5030, 0, 0], t) ∧ t.heap.klmalloc 3000 = some (p, h) ∧
      p = 0x5030 ∧ h.heapEnd = t.heap.heapEnd := by
  obtain ⟨t, L, allowed, ran, member, inv, blocks, large, small⟩ := bigCalls_run
  have listed : ∀ x, x ∈ L.level 0 ↔ x = 0x5000 ∨ x = 0x3000 := by
    intro x
    have level : L.level 0 = [0x5000, 0x3000] := blocks
    simp [level]
  have sizeLarge := (inv.wf.room_listed ((listed _).mpr (Or.inr rfl))).symm.trans large
  have sizeSmall := (inv.wf.room_listed ((listed _).mpr (Or.inl rfl))).symm.trans small
  have free : FreeBlock t.heap 0x5000 := inv.wf.freeBlock_iff.mpr ((listed _).mpr (Or.inl rfl))
  have fits : t.heap.Fits 3000 := Or.inr ⟨by decide, Or.inl ⟨0x5000, free, by omega⟩⟩
  obtain ⟨p, h, served, fit, -⟩ :=
    bestFit_along_run (fun _ => 0) (by decide) bigCalls allowed t member 3000 (by decide) fits
  obtain ⟨y, isPlace, freeY, -, least, heapEnd⟩ := fit 0x5000 free (by omega)
  refine ⟨t, p, h, ran, served, ?_, heapEnd⟩
  rcases (listed y).mp (inv.wf.freeBlock_iff.mp freeY) with rfl | rfl
  · exact isPlace
  · omega

end Balloon.Allocator.Tenants
