import Balloon.Foundation.Transition
import Balloon.Frames.Bitmap

/-!
Owns frame ownership over whole runs of `alloc_frame` and `free_frame` on a
collection of page entries: which present entries hold which frames, and when
every visited state keeps one owner for each marked frame.
-/

namespace Balloon.Frames

open Balloon.Foundation

universe u

variable {ι : Type u} [DecidableEq ι]

/-- The bitmap and a collection of page entries. -/
structure PageSystem (ι : Type u) where
  map : FrameMap
  page : ι → PageT

/-- One call on an entry of the collection. `undef` is what the return register
holds if `first_frame` falls off its end. -/
inductive FrameCall (ι : Type u) where
  | alloc (entry : ι) (isKernel isWriteable : Bool) (undef : BitVec 32)
  | free (entry : ι)

namespace PageSystem

def call (s : PageSystem ι) : FrameCall ι → Option (PageSystem ι)
  | .alloc entry isKernel isWriteable undef =>
      (allocFrame s.map (s.page entry) isKernel isWriteable undef).map fun result =>
        ⟨result.1, Function.update s.page entry result.2⟩
  | .free entry =>
      some ⟨(freeFrame s.map (s.page entry)).1,
        Function.update s.page entry (freeFrame s.map (s.page entry)).2⟩

/-- The bitmap `init_paging` starts with and entries whose bits are all zero. -/
def start : PageSystem ι := ⟨FrameMap.allClear (0x1000000 / 0x1000), fun _ => PageT.zero⟩

/-- `alloc_frame` is called only while a frame is free. -/
def Allowed (s : PageSystem ι) : FrameCall ι → Prop
  | .alloc .. => s.map.HasFree
  | .free _ => True

/-- Present entries hold distinct frames, and each of them is marked. -/
structure Owned (s : PageSystem ι) : Prop where
  distinct : ∀ i j, i ≠ j → (s.page i).present → (s.page j).present →
    (s.page i).frame ≠ (s.page j).frame
  marked : ∀ i, (s.page i).present → s.map.used (s.page i).frame

/-- The call releases no frame: it is not `free_frame` on an entry that holds
one. -/
def KeepsFrames (s : PageSystem ι) : FrameCall ι → Prop
  | .alloc .. => True
  | .free entry => (s.page entry).frame = 0

/-- Ownership, for the frames `init_paging` provides, by entries that are
present whenever they hold a nonzero frame. -/
structure Invariant (s : PageSystem ι) : Prop where
  owned : Owned s
  frames : s.map.nframes = 0x1000
  held : ∀ i, (s.page i).frame ≠ 0 → (s.page i).present
  bounded : ∀ i, (s.page i).frame < 0x1000

omit [DecidableEq ι] in
theorem invariant_start : Invariant (start : PageSystem ι) where
  owned := ⟨fun _ _ _ presentLeft => by simp [start, PageT.zero] at presentLeft,
    fun _ present => by simp [start, PageT.zero] at present⟩
  frames := rfl
  held := fun _ held => absurd rfl held
  bounded := fun _ => by simp [start, PageT.zero]

variable {s : PageSystem ι}

omit [DecidableEq ι] in
theorem Invariant.scanned (inv : Invariant s) : s.map.scanned = 0x1000 := by
  simp [FrameMap.scanned, inv.frames, indexFromBit]

/-! ### One call -/

theorem call_alloc_held {entry : ι} (held : (s.page entry).frame ≠ 0)
    (isKernel isWriteable : Bool) (undef : BitVec 32) :
    s.call (.alloc entry isKernel isWriteable undef) = some s := by
  simp [call, allocFrame_held held]

theorem call_alloc_empty (inv : Invariant s) {entry : ι} (empty : (s.page entry).frame = 0)
    (free : s.map.HasFree) (isKernel isWriteable : Bool) (undef : BitVec 32) :
    s.call (.alloc entry isKernel isWriteable undef) =
      some ⟨setFrame s.map (firstFrame s.map undef * 0x1000),
        Function.update s.page entry
          { s.page entry with present := true, rw := isWriteable, user := !isKernel,
                              frame := firstFrame s.map undef }⟩ := by
  simp [call, allocFrame_free empty free (by rw [inv.scanned]; omega)]

theorem call_free_empty {entry : ι} (empty : (s.page entry).frame = 0) :
    s.call (.free entry) = some s := by
  simp [call, freeFrame_empty empty]

/-- Handing out a frame that no bit marks keeps the invariant. -/
private theorem invariant_give (inv : Invariant s) {entry : ι} {f : Nat} (bound : f < 0x1000)
    (clear : s.map.used f = false) {s' : PageSystem ι} (map : s'.map = setFrame s.map (f * 0x1000))
    (present : (s'.page entry).present) (given : (s'.page entry).frame = f)
    (others : ∀ i, i ≠ entry → s'.page i = s.page i) : Invariant s' := by
  have address : f * 0x1000 / 0x1000 = f := by omega
  have fresh : ∀ i, (s.page i).present → (s.page i).frame ≠ f := by
    intro i isPresent equal
    rw [← equal, inv.owned.marked i isPresent] at clear
    contradiction
  refine ⟨⟨?_, ?_⟩, by rw [map]; exact inv.frames, ?_, ?_⟩
  · intro i j different presentLeft presentRight
    by_cases left : i = entry
    · have right : j ≠ entry := fun same => different (left.trans same.symm)
      rw [others j right] at presentRight
      rw [left, given, others j right]
      exact (fresh j presentRight).symm
    · rw [others i left] at presentLeft
      by_cases right : j = entry
      · rw [right, given, others i left]
        exact fresh i presentLeft
      · rw [others j right] at presentRight
        rw [others i left, others j right]
        exact inv.owned.distinct i j different presentLeft presentRight
  · intro i isPresent
    rw [map, FrameMap.used_setFrame, address]
    by_cases same : i = entry
    · simp [same, given]
    · rw [others i same] at isPresent ⊢
      simp [inv.owned.marked i isPresent]
  · intro i held
    by_cases same : i = entry
    · exact same ▸ present
    · rw [others i same] at held ⊢
      exact inv.held i held
  · intro i
    by_cases same : i = entry
    · rw [same, given]
      exact bound
    · rw [others i same]
      exact inv.bounded i

/-- Every call but the release of a held frame keeps the invariant. -/
theorem invariant_call {c : FrameCall ι} {s' : PageSystem ι} (inv : Invariant s)
    (allowed : Allowed s c) (keeps : KeepsFrames s c) (returns : s.call c = some s') :
    Invariant s' := by
  cases c with
  | alloc entry isKernel isWriteable undef =>
      by_cases empty : (s.page entry).frame = 0
      · rw [call_alloc_empty inv empty allowed] at returns
        obtain ⟨bound, clear, -⟩ := s.map.firstFrame_spec allowed undef
        rw [inv.scanned] at bound
        exact Option.some.inj returns ▸ invariant_give inv bound clear rfl (by simp) (by simp)
          fun i other => Function.update_of_ne other _ _
      · rw [call_alloc_held empty] at returns
        exact Option.some.inj returns ▸ inv
  | free entry =>
      rw [call_free_empty keeps] at returns
      exact Option.some.inj returns ▸ inv

/-- `free_frame` on a held frame clears bit 0 (it passes the frame number where
`clear_frame` expects an address) and leaves the entry present with frame 0. -/
theorem free_spoils (inv : Invariant s) {entry : ι} (held : (s.page entry).frame ≠ 0) :
    ∃ s', s.call (.free entry) = some s' ∧ ¬ Owned s' := by
  refine ⟨_, rfl, fun owned => ?_⟩
  have present := inv.held entry held
  have marked := owned.marked entry
  have bound := inv.bounded entry
  have cleared : (s.page entry).frame / 0x1000 = 0 := by omega
  simp [freeFrame, held, present, FrameMap.used_clearFrame, cleared] at marked

/-! ### Whole runs -/

/-- Along any sequence of calls in which `alloc_frame` is called only while a
frame is free, ownership holds in every visited state exactly when no call is
`free_frame` on an entry that holds a nonzero frame. -/
theorem owned_along_run_iff (calls : List (FrameCall ι))
    (allowed : EveryStep call Allowed start calls) :
    (∀ s ∈ visited call start calls, Owned s) ↔ EveryStep call KeepsFrames start calls := by
  have isGood : ∀ s : PageSystem ι, Invariant s → Owned s := fun s inv => inv.owned
  refine visited_good_iff_everyStep isGood
    (fun s c s' inv may keeps returns => invariant_call inv may keeps returns) ?_
    invariant_start allowed
  intro s c inv may releases
  cases c with
  | alloc entry isKernel isWriteable undef => exact absurd trivial releases
  | free entry => exact free_spoils inv releases

/-- Two entries get a frame each, and the second one is released. -/
def twoAllocs : List (FrameCall Bool) :=
  [.alloc false true false 0#32, .alloc true true false 0#32, .free true]

theorem allowed_twoAllocs : EveryStep call Allowed start twoAllocs := by
  refine ⟨⟨0, by decide, rfl⟩, fun s₁ first => ⟨?_, fun _ _ => ⟨trivial, fun _ _ => trivial⟩⟩⟩
  obtain rfl := Option.some.inj first
  exact ⟨1, by decide, by decide⟩

theorem owned_along_run_iff_twoAllocs :
    (∀ s ∈ visited call start twoAllocs, Owned s) ↔ EveryStep call KeepsFrames start twoAllocs :=
  owned_along_run_iff twoAllocs allowed_twoAllocs

/-- The released entry stays present with frame 0, whose bit is clear. -/
theorem release_breaks_ownership :
    ¬ ∀ calls : List (FrameCall Bool), EveryStep call Allowed start calls →
      ∀ s ∈ visited call start calls, Owned s := by
  intro always
  have owned := always twoAllocs allowed_twoAllocs _ (List.mem_cons_of_mem _
    (List.mem_cons_of_mem _ (List.mem_cons_of_mem _ (List.mem_singleton.mpr rfl))))
  have marked := owned.marked true (by decide)
  exact absurd marked (by decide)

end PageSystem

end Balloon.Frames
