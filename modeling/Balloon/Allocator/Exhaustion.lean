import Balloon.Allocator.Client

/-!
Owns heap exhaustion: `sbrk` checks no limit, so the heap stays inside the
mapped region exactly as long as every request fits, and a request that does
not fit is served past the limit instead of being refused.
-/

namespace Balloon.Allocator

open Balloon.Foundation
open Balloon.Libc

namespace Client

variable {c : Client} {base : Nat} {L : Layout}

/-- The heap right after `init_heap`, with the blocks handed out before it. -/
def started (mem : Memory) (placementPointer : Nat) (early : List Block) : Client :=
  { boot mem placementPointer with
    heap := (boot mem placementPointer).heap.initHeap
    early := early
    ready := true }

/-- A request the heap can meet within `KHEAP_END`; asking for nothing is met
by the null pointer. -/
def Fits (c : Client) : Call → Prop
  | .kmallocRaw size align => need size align = 0 ∨ c.heap.Fits (need size align)
  | _ => True

/-- What callers may do once the heap is up. -/
def HeapCall (c : Client) (call : Call) : Prop := c.Proper call ∧ call ≠ .initHeap

/-- `heap_end` never decreases, what `sbrk` hands out ends at `KHEAP_END` or
before, and a request that cannot be met within that limit returns 0 and
changes nothing. -/
def KeepsLimit (c : Client) : Call → Prop
  | .kmallocRaw size align => ∃ p h, c.heap.kmallocRaw size align = some (p, h) ∧
      c.heap.heapEnd ≤ h.heapEnd ∧ h.heapEnd ≤ kheapEnd ∧
      (¬ c.Fits (.kmallocRaw size align) → p = 0 ∧ h = c.heap)
  | .kfree ptr rand => ∃ h, c.heap.kfree rand ptr = some h ∧ h.heapEnd = c.heap.heapEnd
  | _ => True

theorem managed_started (mem : Memory) {placementPointer : Nat} {early : List Block}
    (bumped : Bumped placementPointer early) (room : placementPointer + 0x1000 ≤ kheapEnd) :
    ∃ base, Managed (started mem placementPointer early) base emptyLayout := by
  have limit : kheapEnd = 0x02000000 := rfl
  have heapEnd : (started mem placementPointer early).heap.heapEnd =
      (placementPointer + 0x1000) / 0x1000 * 0x1000 := by
    change wrap32 (placementPointer + 0x1000) / 0x1000 * 0x1000 = _
    rw [wrap32_of_lt (by omega)]
  refine ⟨(placementPointer + 0x1000) / 0x1000 * 0x1000, ?_, rfl, bumped, nofun,
    List.Pairwise.nil, nofun⟩
  refine wellFormed_empty heapEnd (by omega) ?_ (by omega) (fun _ => rfl) (fun _ => rfl) rfl rfl
  change placementPointer < _
  omega

/-- A request that fits keeps the limit. -/
theorem Managed.keeps_of_fits (inv : Managed c base L) {size : Nat} {align : Bool}
    (fits : c.Fits (.kmallocRaw size align)) : KeepsLimit c (.kmallocRaw size align) := by
  have booted : c.heap.heapEnd ≠ 0 := by
    have positive := inv.wf.heapEnd_pos
    omega
  by_cases nothing : need size align = 0
  · have plain : align = false ∧ size = 0 := by
      cases align <;> simp [need] at nothing
      exact ⟨rfl, nothing⟩
    obtain ⟨rfl, rfl⟩ := plain
    refine ⟨0, c.heap, ?_, Nat.le_refl _, inv.wf.endLe, fun unfit => absurd fits unfit⟩
    simp [Heap.kmallocRaw, booted, Heap.klmalloc]
  · obtain ⟨lo, hi, p, h', L', returned, extends', -⟩ :=
      inv.wf.kmallocRaw (Nat.pos_of_ne_zero nothing) (fits.resolve_left nothing)
    exact ⟨p, h', returned, extends'.heapEnd, extends'.wf.endLe, fun unfit => absurd fits unfit⟩

/-- `klmalloc` never returns the null pointer for a nonempty request that keeps
the heap inside its limit. -/
theorem klmalloc_nonzero {h : Heap} (wf : WellFormed h base L) {size : Nat} (positive : 0 < size)
    {result : Nat × Heap} (returned : h.klmalloc size = some result)
    (within : result.2.heapEnd ≤ kheapEnd) : 0 < result.1 ∧ result.1 ≤ kheapEnd + 48 := by
  have limit : kheapEnd = 0x02000000 := rfl
  by_cases fits : h.Fits size
  · obtain ⟨p, hi, h', L', served, extends', slot, -, -, -⟩ := wf.klmalloc positive fits
    obtain rfl := Option.some.inj (served.symm.trans returned)
    have range := extends'.wf.slot_range slot
    have endLe := extends'.wf.endLe
    have placement := extends'.wf.placementLt
    exact ⟨by change 0 < p; omega, by change p ≤ _; omega⟩
  · obtain ⟨p, h', served, small, big⟩ := wf.klmalloc_overrun positive fits
    obtain rfl := Option.some.inj (served.symm.trans returned)
    have bucket := klmallocBinSize_le size
    have endLe := wf.endLe
    have isBig : klmallocBinSize size = 10 := by
      by_contra notBig
      exact absurd within (Nat.not_le.mpr (small (by omega)))
    have atEnd : p = h.heapEnd + 48 := (big isBig).1
    exact ⟨by change 0 < p; omega, by change p ≤ _; omega⟩

/-- A request that does not fit is not refused. -/
theorem Managed.fits_of_keeps (inv : Managed c base L) {size : Nat} {align : Bool}
    (keeps : KeepsLimit c (.kmallocRaw size align)) :
    c.Fits (.kmallocRaw size align) := by
  by_contra unfit
  obtain ⟨p, h, returned, -, within, refused⟩ := keeps
  obtain ⟨rfl, -⟩ := refused unfit
  have limit : kheapEnd = 0x02000000 := rfl
  have booted : c.heap.heapEnd ≠ 0 := by
    have positive := inv.wf.heapEnd_pos
    omega
  have nothing : need size align ≠ 0 := fun zero => unfit (Or.inl zero)
  cases align with
  | false =>
      simp only [need, Bool.false_eq_true, if_false] at nothing
      rw [Heap.kmallocRaw, if_pos booted] at returned
      have nonzero := klmalloc_nonzero inv.wf (Nat.pos_of_ne_zero nothing) returned within
      exact absurd nonzero.1 (Nat.lt_irrefl 0)
  | true =>
      rw [Heap.kmallocRaw, if_pos booted, if_pos rfl, Heap.klvalloc] at returned
      by_cases empty : wrap32 (size + (0x1000 - 48)) = 0
      · -- The rounded size wraps to zero: `klmalloc` returns the null pointer,
        -- and `klvalloc` moves it.
        rw [empty] at returned
        simp [Heap.klmalloc, wrap32] at returned
      · cases result : c.heap.klmalloc (wrap32 (size + (0x1000 - 48))) with
        | none => simp [result] at returned
        | some block =>
            simp only [result, Option.map_some, Option.some.injEq, Prod.mk.injEq] at returned
            obtain ⟨moved, rfl⟩ := returned
            have nonzero := klmalloc_nonzero inv.wf (Nat.pos_of_ne_zero empty) result within
            rw [wrap32_of_lt (by omega)] at moved
            omega

/-- A step whose request fits keeps the invariant. -/
theorem Managed.step_of_fits (inv : Managed c base L) {call : Call} (may : HeapCall c call)
    (fits : c.Fits call) {c' : Client} (stepped : c.step call = some c') :
    ∃ L', Managed c' base L' := by
  have concluded : ∀ {c''}, c.step call = some c'' → (∃ L', Managed c'' base L') →
      ∃ L', Managed c' base L' := by
    intro c'' stepped' inv'
    exact Option.some.inj (stepped'.symm.trans stepped) ▸ inv'
  cases call with
  | kmallocRaw size align =>
      obtain ⟨c'', stepped', inv'⟩ := inv.kmallocRaw fits
      exact concluded stepped' inv'
  | initHeap => exact absurd rfl may.2
  | kfree ptr rand =>
      obtain ⟨-, -, c'', stepped', inv'⟩ := inv.kfree rand may.1.2
      exact concluded stepped' inv'
  | write a v =>
      obtain ⟨c'', stepped', inv'⟩ := inv.write v may.1
      exact concluded stepped' ⟨L, inv'⟩

/-- Along any run of `kmalloc`, `kmalloc_aligned` and `kfree`, the heap keeps
its limit exactly when every request fits. -/
theorem keepsLimit_iff_fits (mem : Memory) {placementPointer : Nat} {early : List Block}
    (bumped : Bumped placementPointer early) (room : placementPointer + 0x1000 ≤ kheapEnd)
    (calls : List Call)
    (proper : EveryStep step HeapCall (started mem placementPointer early) calls) :
    EveryStep step KeepsLimit (started mem placementPointer early) calls ↔
      EveryStep step Fits (started mem placementPointer early) calls := by
  obtain ⟨base, start⟩ := managed_started mem bumped room
  have each : ∀ s call, (∃ L, Managed s base L) → HeapCall s call →
      (KeepsLimit s call ↔ Fits s call) := by
    rintro s call ⟨L, inv⟩ ⟨may, -⟩
    cases call with
    | kmallocRaw size align => exact ⟨inv.fits_of_keeps, inv.keeps_of_fits⟩
    | initHeap => exact Iff.rfl
    | kfree ptr rand => exact iff_of_true (inv.kfree rand may.2).2.1 trivial
    | write a v => exact Iff.rfl
  refine everyStep_iff_of_invariant ?_ each ⟨emptyLayout, start⟩ proper
  rintro s call s' ⟨L, inv⟩ may keeps stepped
  exact inv.step_of_fits may ((each s call ⟨L, inv⟩ may).mp keeps) stepped

/-- An aligned request of a fresh heap, its release, and a big request. -/
def firstCalls : List Call :=
  [.kmallocRaw 5000 true, .kfree 0x3000 fun _ => 0, .kmallocRaw 3000 false]

/-- The aligned request grows the heap by three pages, and its block can be released. -/
theorem firstCalls_run :
    ∃ c₁ c₂, (started (fun _ => 0) 0x1000 []).step (.kmallocRaw 5000 true) = some c₁ ∧
      c₁.step (.kfree 0x3000 fun _ => 0) = some c₂ ∧ c₁.Proper (.kfree 0x3000 fun _ => 0) ∧
      c₂.heap.heapEnd = 0x5000 := by
  obtain ⟨base, managed⟩ := managed_started (fun _ => 0) (bumped_nil 0x1000) (by decide)
  have start : (started (fun _ => 0) 0x1000 []).heap.heapEnd = 0x2000 := by decide
  have pages : bigPages 9048 = 3 := by decide
  obtain ⟨returned, grown⟩ := newBigBin_returns (started (fun _ => 0) 0x1000 []).heap 9048
  generalize isGrown : (started (fun _ => 0) 0x1000 []).heap.newBigBin 9048 = block
    at returned grown
  have big : klmallocBinSize 9048 = 10 := by decide
  have served : (started (fun _ => 0) 0x1000 []).heap.kmallocRaw 5000 true =
      some (0x3000, block.2) := by
    rw [Heap.kmallocRaw, if_pos (by rw [start]; decide), if_pos rfl, Heap.klvalloc,
      show wrap32 (5000 + (0x1000 - 48)) = 9048 by decide, Heap.klmalloc, if_neg (by decide), big,
      if_neg (by decide), managed.wf.klmallocBig_grow rfl, isGrown, Option.map_some, returned,
      start]
    rfl
  have heapEnd : block.2.heapEnd = 0x5000 := by
    rw [grown, start]
    decide
  have fits : (started (fun _ => 0) 0x1000 []).Fits (.kmallocRaw 5000 true) := by
    refine Or.inr (fits_of_room ?_)
    rw [start]
    decide
  obtain ⟨c₁, stepped, L, managed₁⟩ := managed.kmallocRaw fits
  have isServed := stepped
  rw [step, served, Option.map_some] at isServed
  have live : (⟨0x3000, 5000, true⟩ : Block) ∈ c₁.blocks := by
    rw [← Option.some.inj isServed]
    exact List.mem_append_right _ (List.mem_singleton_self _)
  have proper : c₁.Proper (.kfree 0x3000 fun _ => 0) := ⟨managed₁.ready, Or.inr ⟨_, live, rfl⟩⟩
  obtain ⟨-, ⟨h, freed, kept⟩, c₂, stepped₂, -⟩ := managed₁.kfree (fun _ => 0) proper.2
  refine ⟨c₁, c₂, stepped, stepped₂, proper, ?_⟩
  rw [step, freed, Option.map_some] at stepped₂
  rw [← Option.some.inj stepped₂]
  refine kept.trans ?_
  rw [← Option.some.inj isServed]
  exact heapEnd

theorem keepsLimit_iff_fits_firstCalls :
    EveryStep step KeepsLimit (started (fun _ => 0) 0x1000 []) firstCalls ↔
      EveryStep step Fits (started (fun _ => 0) 0x1000 []) firstCalls := by
  obtain ⟨c₁, c₂, first, second, proper, -⟩ := firstCalls_run
  exact keepsLimit_iff_fits _ (bumped_nil _) (by decide) _
    (everyStep_cons_some first ⟨trivial, nofun⟩ (everyStep_cons_some second ⟨proper, nofun⟩
      ⟨⟨trivial, nofun⟩, fun _ _ => trivial⟩))

/-- With `heap_end` at `KHEAP_END`, a 16-byte request still gets a page. -/
theorem sbrk_past_limit :
    ¬ ∀ (mem : Memory) (placementPointer : Nat) (early : List Block) (calls : List Call),
      Bumped placementPointer early → placementPointer + 0x1000 ≤ kheapEnd →
      EveryStep step HeapCall (started mem placementPointer early) calls →
      EveryStep step KeepsLimit (started mem placementPointer early) calls := by
  intro always
  have kept := always (fun _ => 0) 0x01FFF000 [] [.kmallocRaw 16 false]
    (bumped_nil _) (by decide) ⟨⟨trivial, by simp⟩, fun _ _ => trivial⟩
  obtain ⟨p, h, returned, -, within, -⟩ := kept.1
  have heapEnd : (started (fun _ => 0) 0x01FFF000 []).heap.heapEnd = 0x02000000 := by decide
  have bucket : klmallocBinSize 16 = 2 := by decide
  have grown : ((started (fun _ => 0) 0x01FFF000 []).heap.klmallocSmall 2).2.heapEnd =
      0x02001000 := by
    rw [heapEnd_klmallocSmall _ rfl, heapEnd]
    decide
  have served : (started (fun _ => 0) 0x01FFF000 []).heap.kmallocRaw 16 false =
      some ((started (fun _ => 0) 0x01FFF000 []).heap.klmallocSmall 2) := by
    simp [Heap.kmallocRaw, heapEnd, Heap.klmalloc, bucket]
  rw [served, Option.some.injEq] at returned
  rw [returned] at grown
  rw [show h.heapEnd = 0x02001000 from grown] at within
  exact absurd within (by decide)

end Client

end Balloon.Allocator
