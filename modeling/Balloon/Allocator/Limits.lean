import Balloon.Allocator.Exhaustion

/-!
Owns the sizes of allocations near the limits of 32-bit arithmetic: `klmalloc` and
`klvalloc` add their header and their alignment to the request and round it to pages
without a check, so a request is given a block of its size exactly when that sum stays
below 2^32.
-/

namespace Balloon.Allocator

open Balloon.Foundation
open Balloon.Libc

/-- The size `kmalloc_raw` has `klmalloc` serve, in 32-bit arithmetic. -/
def asked (size : Nat) (align : Bool) : Nat := wrap32 (need size align)

/-- What `klmalloc` asks of `sbrk` when it grows the heap. -/
def increment (size : Nat) : Nat :=
  if klmallocBinSize size < 10 then 0x1000
  else wrap32 (0x1000 * (wrap32 (size + 48) / 0x1000 + 1))

/-- No available bin serves the request. -/
def Heap.Grows (h : Heap) (size : Nat) : Prop :=
  (klmallocBinSize size < 10 ∧ h.klmallocBinHead (klmallocBinSize size) = 0) ∨
    (klmallocBinSize size = 10 ∧ ∀ x, FreeBlock h x → h.sizeOf x < size)

/-- What `sbrk` clears and the header behind it end at `KHEAP_END` or before. Past it
the access faults, and `page_fault` does not return. -/
def Heap.Returns (h : Heap) (size : Nat) : Prop :=
  size ≠ 0 → h.Grows size → h.heapEnd + max (increment size) 48 ≤ kheapEnd

/-- The bytes `[lo, hi)` are a block of the heap. -/
def Heap.Block (h : Heap) (lo hi : Nat) : Prop := ∃ base L, WellFormed h base L ∧ L.Slot lo hi

namespace Client

/-- What callers may do once the heap is up: `HeapCall` with 32-bit sizes, as long as
the calls return. -/
def Served (c : Client) (call : Call) : Prop :=
  c.HeapCall call ∧ ∀ size align, call = .kmallocRaw size align →
    size < 2 ^ 32 ∧ c.heap.Returns (asked size align)

/-- A request returns 0 or an address with `size` bytes of its block behind it, on a page
boundary where it is to be aligned. -/
def Roomy (c : Client) : Call → Prop
  | .kmallocRaw size align => ∃ p h, c.heap.kmallocRaw size align = some (p, h) ∧
      (p = 0 ∨ (∃ lo hi, h.Block lo hi ∧ lo ≤ p ∧ p + size ≤ hi) ∧
        (align = true → p % 0x1000 = 0))
  | _ => True

/-- The request, its header and the rounding to pages stay below 2^32. -/
def RoundsBelow : Call → Prop
  | .kmallocRaw size align => need size align + 48 + 0x1000 < 2 ^ 32
  | _ => True

variable {c : Client} {base : Nat} {L : Layout}

/-- A request without wrap that returns is one that fits. -/
theorem fits_of_returns {h : Heap} {size : Nat} (below : size + 48 + 0x1000 < 2 ^ 32)
    (positive : size ≠ 0) (returns : h.Returns size) : h.Fits size := by
  have room := returns positive
  rcases Nat.lt_or_eq_of_le (klmallocBinSize_le size) with small | big
  · refine Or.inl ⟨small, ?_⟩
    by_cases noBin : h.klmallocBinHead (klmallocBinSize size) = 0
    · right
      have cleared := room (Or.inl ⟨small, noBin⟩)
      rw [increment, if_pos small] at cleared
      omega
    · exact Or.inl noBin
  · refine Or.inr ⟨big, ?_⟩
    by_cases free : ∃ x, FreeBlock h x ∧ size ≤ h.sizeOf x
    · exact Or.inl free
    · right
      have cleared := room (Or.inr ⟨big, fun x isFree =>
        Nat.lt_of_not_le fun large => free ⟨x, isFree, large⟩⟩)
      have rounded : increment size = 0x1000 * bigPages size := by
        have pages : 0x1000 * bigPages size < 2 ^ 32 := by
          unfold bigPages
          omega
        rw [increment, if_neg (by omega), wrap32_of_lt (show size + 48 < 2 ^ 32 by omega)]
        exact wrap32_of_lt pages
      omega

/-- A request that returns leaves `heap_end` inside its limit. -/
theorem within_of_returns {h : Heap} (wf : WellFormed h base L) {size : Nat} (positive : size ≠ 0)
    (returns : h.Returns size) {result : Nat × Heap} (returned : h.klmalloc size = some result) :
    result.2.heapEnd ≤ kheapEnd := by
  by_cases fits : h.Fits size
  · obtain ⟨p, hi, h', L', served, extends', -⟩ :=
      wf.klmalloc (Nat.pos_of_ne_zero positive) fits
    obtain rfl := Option.some.inj (served.symm.trans returned)
    exact extends'.wf.endLe
  · obtain ⟨p, h', served, small, big⟩ := wf.klmalloc_overrun (Nat.pos_of_ne_zero positive) fits
    obtain rfl := Option.some.inj (served.symm.trans returned)
    rcases Nat.lt_or_eq_of_le (klmallocBinSize_le size) with isSmall | isBig
    · have noBin : h.klmallocBinHead (klmallocBinSize size) = 0 := by
        by_contra available
        exact fits (Or.inl ⟨isSmall, Or.inl available⟩)
      have room := returns positive (Or.inl ⟨isSmall, noBin⟩)
      rw [increment, if_pos isSmall] at room
      exact absurd (Or.inl ⟨isSmall, Or.inr (by omega)⟩) fits
    · have noBlock : ∀ x, FreeBlock h x → h.sizeOf x < size := fun x isFree =>
        Nat.lt_of_not_le fun large => fits (Or.inr ⟨isBig, Or.inl ⟨x, isFree, large⟩⟩)
      have room := returns positive (Or.inr ⟨isBig, noBlock⟩)
      rw [increment, if_neg (by omega)] at room
      change h'.heapEnd ≤ kheapEnd
      rw [(big isBig).2]
      exact (Nat.mod_le _ _).trans (by omega)

/-- `kmalloc_raw` never returns the null pointer for a request of which something is
left in 32-bit arithmetic, nor where `klvalloc` moves the pointer. -/
theorem kmallocRaw_nonzero {h : Heap} (wf : WellFormed h base L) {size : Nat} {align : Bool}
    (small : size < 2 ^ 32) (asks : align = true ∨ size ≠ 0)
    (returns : h.Returns (asked size align)) {result : Nat × Heap}
    (returned : h.kmallocRaw size align = some result) :
    result.1 ≠ 0 ∧ result.2.heapEnd ≤ kheapEnd := by
  have limit : kheapEnd = 0x02000000 := rfl
  have endLe : h.heapEnd ≤ kheapEnd := wf.endLe
  have booted : h.heapEnd ≠ 0 := wf.heapEnd_pos.ne'
  rw [Heap.kmallocRaw, if_pos booted] at returned
  cases align with
  | false =>
      have positive : asked size false ≠ 0 := by
        rw [asked, need, if_neg (by decide), wrap32_of_lt small]
        exact asks.resolve_left (by decide)
      have served : h.klmalloc (asked size false) = some result := by
        rw [asked, need, if_neg (by decide), wrap32_of_lt small]
        exact returned
      have within := within_of_returns wf positive returns served
      exact ⟨(klmalloc_nonzero wf (Nat.pos_of_ne_zero positive) served within).1.ne', within⟩
  | true =>
      rw [if_pos rfl, Heap.klvalloc] at returned
      obtain ⟨⟨p, h'⟩, served, rfl⟩ := Option.map_eq_some_iff.mp returned
      by_cases nothing : wrap32 (size + (0x1000 - 48)) = 0
      · -- `klmalloc(0)` returns the null pointer, and `klvalloc` moves it.
        rw [nothing, Heap.klmalloc, if_pos rfl] at served
        obtain ⟨rfl, rfl⟩ := Prod.mk.inj (Option.some.inj served)
        exact ⟨show wrap32 (0 + (0x1000 - 48)) ≠ 0 by decide, endLe⟩
      · have within := within_of_returns wf nothing returns served
        have inside := klmalloc_nonzero wf (Nat.pos_of_ne_zero nothing) served within
        refine ⟨?_, within⟩
        change wrap32 (p + (0x1000 - 48)) ≠ 0
        rw [wrap32_of_lt (by change 0 < p ∧ p ≤ _ at inside; omega)]
        omega

/-- A block ends inside the heap. -/
theorem block_le {h : Heap} {lo hi : Nat} (block : h.Block lo hi) : hi ≤ kheapEnd := by
  obtain ⟨base, L, wf, slot⟩ := block
  have range := wf.slot_range slot
  have endLe : h.heapEnd ≤ kheapEnd := wf.endLe
  omega

/-- A request that does not wrap and returns is one that fits. -/
theorem fits_of_served {call : Call} (served : Served c call) (below : RoundsBelow call) :
    c.Fits call := by
  cases call with
  | kmallocRaw size align =>
      obtain ⟨-, returns⟩ := served.2 size align rfl
      change need size align + 48 + 0x1000 < 2 ^ 32 at below
      have noWrap : asked size align = need size align := wrap32_of_lt (by omega)
      rw [noWrap] at returns
      by_cases nothing : need size align = 0
      · exact Or.inl nothing
      · exact Or.inr (fits_of_returns below nothing returns)
  | initHeap => trivial
  | kfree ptr rand => trivial
  | write a v => trivial

/-- In every state of the heap a request that returns gets its bytes exactly when its
size does not wrap. -/
theorem Managed.roomy_iff (inv : Managed c base L) {call : Call} (served : Served c call) :
    Roomy c call ↔ RoundsBelow call := by
  cases call with
  | kmallocRaw size align =>
      obtain ⟨small, returns⟩ := served.2 size align rfl
      have booted : c.heap.heapEnd ≠ 0 := inv.wf.heapEnd_pos.ne'
      constructor
      · rintro ⟨p, h, returned, outcome⟩
        change need size align + 48 + 0x1000 < 2 ^ 32
        by_contra wraps
        have large := need_le size align
        have limit : kheapEnd = 0x02000000 := rfl
        rcases outcome with null | ⟨⟨lo, hi, block, -, room⟩, -⟩
        · exact (kmallocRaw_nonzero inv.wf small (Or.inr (by omega)) returns returned).1 null
        · have within := block_le block
          omega
      · intro below
        by_cases nothing : need size align = 0
        · have plain : align = false ∧ size = 0 := by
            cases align <;> simp [need] at nothing
            exact ⟨rfl, nothing⟩
          obtain ⟨rfl, rfl⟩ := plain
          refine ⟨0, c.heap, ?_, Or.inl rfl⟩
          simp [Heap.kmallocRaw, booted, Heap.klmalloc]
        · obtain ⟨lo, hi, p, h', L', returned, extends', slot, -, room, ptr, aligned⟩ :=
            inv.wf.kmallocRaw (Nat.pos_of_ne_zero nothing)
              ((fits_of_served served below).resolve_left nothing)
          refine ⟨p, h', returned, Or.inr ⟨⟨lo, hi, ⟨base, L', extends'.wf, slot⟩, ?_, room⟩,
            aligned⟩⟩
          rw [ptr]
          split <;> omega
  | initHeap => exact Iff.rfl
  | kfree ptr rand => exact Iff.rfl
  | write a v => exact Iff.rfl

/-- Along any run of `kmalloc`, `kmalloc_aligned` and `kfree` with 32-bit sizes whose
calls return, every request gets its bytes exactly when no request wraps. -/
theorem roomy_iff_roundsBelow (mem : Memory) {placementPointer : Nat} {early : List Block}
    (bumped : Bumped placementPointer early) (room : placementPointer + 0x1000 ≤ kheapEnd)
    (calls : List Call)
    (served : EveryStep step Served (started mem placementPointer early) calls) :
    EveryStep step Roomy (started mem placementPointer early) calls ↔
      EveryStep step (fun _ call => RoundsBelow call) (started mem placementPointer early)
        calls := by
  obtain ⟨base, start⟩ := managed_started mem bumped room
  refine everyStep_iff_of_invariant ?_ (fun s call (inv : ∃ L, Managed s base L) served => ?_)
    ⟨emptyLayout, start⟩ served
  · rintro s call s' ⟨L, inv⟩ served roomy stepped
    have below := (inv.roomy_iff served).mp roomy
    exact inv.step_of_fits served.1 (fits_of_served served below) stepped
  · obtain ⟨L, inv⟩ := inv
    exact inv.roomy_iff served

/-- The heap grows for the first request, and the last one returns whether it grows or not. -/
theorem roomy_iff_roundsBelow_firstCalls :
    EveryStep step Roomy (started (fun _ => 0) 0x1000 []) firstCalls ↔
      EveryStep step (fun _ call => RoundsBelow call) (started (fun _ => 0) 0x1000 [])
        firstCalls := by
  obtain ⟨c₁, c₂, first, second, proper, heapEnd⟩ := firstCalls_run
  apply roomy_iff_roundsBelow _ (bumped_nil _) (by decide)
  refine everyStep_cons_some first ⟨⟨trivial, nofun⟩, ?_⟩ (everyStep_cons_some second
    ⟨⟨proper, nofun⟩, nofun⟩ ⟨⟨⟨trivial, nofun⟩, ?_⟩, fun _ _ => trivial⟩)
  · rintro size align ⟨⟩
    exact ⟨by decide, fun _ _ => by decide⟩
  · rintro size align ⟨⟩
    refine ⟨by decide, fun _ _ => ?_⟩
    rw [heapEnd]
    decide

/-- `kmalloc(0xFFFFFFFF)` on a fresh heap returns a block of one page. -/
theorem wrapped_request_too_small :
    ¬ ∀ (mem : Memory) (placementPointer : Nat) (early : List Block) (calls : List Call),
      Bumped placementPointer early → placementPointer + 0x1000 ≤ kheapEnd →
      EveryStep step Served (started mem placementPointer early) calls →
      EveryStep step Roomy (started mem placementPointer early) calls := by
  intro always
  have served : EveryStep step Served (started (fun _ => 0) 0x1000 [])
      [.kmallocRaw 0xFFFFFFFF false] := by
    refine ⟨⟨⟨trivial, by simp⟩, ?_⟩, fun _ _ => trivial⟩
    rintro size align ⟨⟩
    exact ⟨by decide, fun _ _ => by decide⟩
  have roomy := always _ _ _ _ (bumped_nil _) (by decide) served
  obtain ⟨base, start⟩ := managed_started (fun _ => 0) (bumped_nil 0x1000) (by decide)
  have below := (start.roomy_iff served.1).mp roomy.1
  exact absurd below (show ¬ need 0xFFFFFFFF false + 48 + 0x1000 < 2 ^ 32 by decide)

end Client

end Balloon.Allocator
