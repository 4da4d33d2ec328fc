import Balloon.Paging.InMemory
import Balloon.Paging.PageMap

/-!
Owns the run of `init_paging` with the bitmap in memory: the directory and the tables that it
leaves, whatever memory held before, while the words of the bitmap stay off them. It does not own
what the processor makes of them.
-/

namespace Balloon.Paging

open Balloon.Foundation
open Balloon.Libc
open Balloon.Allocator
open Balloon.Frames

/-! ### One round -/

/-- Where `init_paging` works: the bitmap at `start`, of which the first `v` frames are looked at,
and `kernel_directory` at `dir`. The words of these frames lie in front of the directory, or in its
slots below `first`. -/
structure Site (start dir v first : Nat) : Prop where
  low : 0x1000 ≤ dir
  aligned : dir % 0x1000 = 0
  room : dir + 0x14000 ≤ memEndPage
  order : start ≤ dir
  whole : v % 32 = 0
  inMap : v ≤ bootFrames
  below : start + v / 8 ≤ dir + 4 * first
  few : first ≤ 1

/-- The word of frame `f` is off the directory, its slots below `first` excepted, and off the
tables. -/
def WordOff (start dir first f : Nat) : Prop :=
  ∀ a, Inside (frameWord start f) 4 a → Inside dir 0x14000 a → a < dir + 4 * first

/-- The machine with the pages below page `n` given frames and `t` tables made for them. -/
structure Underway (start dir c v first n t : Nat) (s : Machine) : Prop where
  tabled : Tabled dir n t first s.kernel
  address : physicalAddrOf s.mem dir = c
  pointer : s.frames = start
  nframes : s.nframes = bootFrames
  marked : ∀ f, f < n → f < v → s.map.used f = true

/-- The bytes that the round of page `n` writes off the bitmap. -/
def RoundWrites (dir n a : Nat) : Prop :=
  Inside (bootPage dir n) 4 a ∨
    n % 1024 = 0 ∧ (Inside (dir + 4 * (n / 1024)) 4 a ∨ Inside (dir + 4096 + 4 * (n / 1024)) 4 a ∨
      Inside (dir + 0x5000 + 0x2000 * (n / 1024)) sizeofTable a)

section

variable {start dir c v first n t : Nat} {s s' : Machine}

theorem Site.space (site : Site start dir v first) : start + 0x20000 ≤ 2 ^ 32 := by
  have memEnd : memEndPage = 0x1000000 := rfl
  have room := site.room
  have order := site.order
  omega

/-- A word that the allocator does not reach. -/
theorem Site.word (site : Site start dir v first) {f : Nat} (seen : f < v) :
    frameWord start f = start + 4 * (f / 32) ∧ frameWord start f + 4 ≤ dir + 4 * first := by
  have whole := site.whole
  have below := site.below
  have inMap := site.inMap
  have total : bootFrames = 0x1000 := rfl
  have word := frameWord_eq site.space (show f < 2 ^ 20 by omega)
  omega

theorem Site.wordOff (site : Site start dir v first) {f : Nat} (seen : f < v) :
    WordOff start dir first f := by
  intro a inWord _
  have word := (site.word seen).2
  unfold Inside at inWord
  omega

theorem Tabled.of_heap {k k' : Kernel} (tabled : Tabled dir n t first k) (heap : k'.heap = k.heap)
    (directory : k'.kernelDirectory = k.kernelDirectory) : Tabled dir n t first k' := by
  have mem : k'.mem = k.mem := congrArg Heap.mem heap
  exact ⟨heap ▸ tabled.heapEnd, directory.trans tabled.directory, heap ▸ tabled.placement,
    mem ▸ tabled.slots, mem ▸ tabled.physical, mem ▸ tabled.clear, mem ▸ tabled.heapPages⟩

/-- `get_page` in the round of page `n`. -/
theorem Underway.getPage (underway : Underway start dir c v first n (tablesFor n) s)
    (site : Site start dir v first) (bound : n < 0x2000) (known : first ≤ n / 1024) :
    ∃ s', s.getPage (n * 0x1000) true dir = some (bootPage dir n, s') ∧
      Underway start dir c v first n (tablesFor (n + 1)) s' ∧
        (∀ f, f < v → s'.map.used f = s.map.used f) ∧
          ∀ a, ¬ RoundWrites dir n a → s'.mem a = s.mem a := by
  have page : n * 0x1000 / 0x1000 = n := Nat.mul_div_cancel n (by decide)
  have size : sizeofTable = 0x1000 := rfl
  rw [tablesFor_succ]
  by_cases opens : n % 1024 = 0
  · obtain ⟨k, made, tabled, -, address, outside⟩ := underway.tabled.newTable site.low site.aligned
      site.room (by simp only [tablesFor]; omega) (n * 0x1000)
      (by simp only [page, tablesFor]; omega) (by simp only [tablesFor]; omega)
    have index : tablesFor n = n / 1024 := by
      simp only [tablesFor]
      omega
    rw [page] at made
    rw [index] at outside
    have elsewhere : ∀ a, ¬ RoundWrites dir n a → k.mem a = s.mem a := by
      intro a untouched
      refine outside a (fun inSlot => ?_) (fun inSlot => ?_) fun inTable => ?_
      · exact untouched (Or.inr ⟨opens, Or.inl inSlot⟩)
      · exact untouched (Or.inr ⟨opens, Or.inr (Or.inl inSlot)⟩)
      · exact untouched (Or.inr ⟨opens, Or.inr (Or.inr inTable)⟩)
    have used : ∀ f, f < v → (s.withHeap k.heap).map.used f = s.map.used f := by
      intro f seen
      apply Machine.used_congr
      · rfl
      · intro a inWord
        have word := (site.word seen).2
        refine elsewhere a fun written => ?_
        rw [underway.pointer] at inWord
        unfold RoundWrites bootPage Inside at *
        omega
    refine ⟨s.withHeap k.heap, ?_, ?_, used, elsewhere⟩
    · rw [Machine.getPage, made, Option.map_some]
    · rw [if_pos opens]
      exact
        { tabled := tabled.of_heap rfl (tabled.directory.trans underway.tabled.directory.symm).symm
          address := address.trans underway.address
          pointer := underway.pointer
          nframes := underway.nframes
          marked := fun f below seen => (used f seen).trans (underway.marked f below seen) }
  · have found := underway.tabled.getPage_mapped (by simp only [tablesFor]; omega) site.low
      (p := n) (by simp only [tablesFor]; omega) known
    refine ⟨s, ?_, ?_, fun _ _ => rfl, fun _ _ => rfl⟩
    · rw [Machine.getPage, found, Option.map_some]
      rfl
    · rw [if_neg opens]
      exact underway

/-- `alloc_frame` on the entry of page `p`, behind `first_frame`. -/
theorem Underway.giveFrame (underway : Underway start dir c v first n t s)
    (site : Site start dir v first) (few : t ≤ 8) {p idx n' : Nat} (made : p < 1024 * t)
    (later : n ≤ n') (mapped : p < n') (off : WordOff start dir first (idx % 2 ^ 20))
    (marks : ∀ f, f < n' → f < v → f = idx % 2 ^ 20 ∨ s.map.used f = true) :
    Underway start dir c v first n' t (s.giveFrame (bootPage dir p) true false idx) := by
  have siteFew := site.few
  have pointer := underway.pointer
  have outside : ∀ a, ¬ Inside (bootPage dir p) 4 a →
      ¬ Inside (frameWord start (idx % 2 ^ 20)) 4 a →
      (s.giveFrame (bootPage dir p) true false idx).mem a = s.mem a := by
    intro a offEntry offWord
    exact Machine.giveFrame_outside offEntry (pointer ▸ offWord)
  refine ⟨?_, ?_, pointer, underway.nframes, fun f below seen => ?_⟩
  · refine underway.tabled.congr few (by omega) later (Or.inr ⟨p, mapped, rfl⟩) rfl rfl rfl ?_
    intro a inside above offEntry
    refine outside a offEntry fun inWord => ?_
    have front := off a inWord inside
    omega
  · refine (Memory.read32_congr fun o inWord => outside _ ?_ fun inWord => ?_).trans
      underway.address
    · unfold Inside bootPage
      omega
    · have front := off _ inWord ⟨by omega, by omega⟩
      omega
  · have word := site.word seen
    have inMap := site.inMap
    have total : bootFrames = 0x1000 := rfl
    rw [Machine.used_giveFrame (pointer ▸ site.space) ?_ (by omega)]
    · rcases marks f below seen with rfl | used
      · simp
      · rw [used, Bool.or_true]
    · rw [pointer]
      unfold bootPage
      omega

/-- What `first_frame` may return in the round of page `n`. -/
structure Answer (s : Machine) (v n : Nat) (u : BitVec 32) (idx : Nat) : Prop where
  source : idx < bootFrames ∨ idx = u.toNat
  least : n < v → s.map.used n = false → idx = n

/-- `s'` after the round of page `n` in which `first_frame` returned `idx`. -/
structure Mapped (start dir c v first n idx : Nat) (s s' : Machine) : Prop where
  underway : Underway start dir c v first (n + 1) (tablesFor (n + 1)) s'
  used : ∀ f, f < v → s'.map.used f = (decide (f = idx % 2 ^ 20) || s.map.used f)
  entry : entryAt s'.mem (bootPage dir n) = givenPage true false (idx % 2 ^ 20)
  outside : ∀ a, ¬ RoundWrites dir n a → ¬ Inside (frameWord start (idx % 2 ^ 20)) 4 a →
    s'.mem a = s.mem a

theorem Underway.answer (underway : Underway start dir c v first n t s)
    (site : Site start dir v first) (u : BitVec 32) : Answer s v n u (firstFrame s.map u) := by
  have inMap := site.inMap
  refine ⟨?_, fun seen clear => ?_⟩
  · by_cases free : s.map.HasFree
    · have bound := (FrameMap.firstFrame_spec free u).1
      have scanned : s.map.scanned = bootFrames := by
        change 32 * indexFromBit s.nframes = bootFrames
        rw [underway.nframes]
        rfl
      exact Or.inl (by omega)
    · exact Or.inr (FrameMap.firstFrame_full free u)
  · exact (firstFrame_next underway.nframes
      (fun g less => underway.marked g less (by omega)) clear (by omega) u).2

/-- The round of page `n`. -/
theorem Underway.next (underway : Underway start dir c v first n (tablesFor n) s)
    (site : Site start dir v first) (bound : n < 0x2000) (known : first ≤ n / 1024) {u : BitVec 32}
    (off : ∀ idx, Answer s v n u idx → WordOff start dir first (idx % 2 ^ 20)) :
    ∃ idx, Answer s v n u idx ∧
      ((idx = 0xFFFFFFFF ∧ s.mapPage u (n * 0x1000) = none) ∨
        ∃ s', s.mapPage u (n * 0x1000) = some s' ∧ Mapped start dir c v first n idx s s') := by
  have few := site.few
  obtain ⟨s₁, found, underway₁, used₁, outside₁⟩ := underway.getPage site bound known
  have answer : Answer s v n u (firstFrame s₁.map u) := by
    have answer₁ := underway₁.answer site u
    exact ⟨answer₁.source, fun seen clear => answer₁.least seen ((used₁ n seen).trans clear)⟩
  have unfolded : s.mapPage u (n * 0x1000) = s₁.allocFrame (bootPage dir n) true false u := by
    have directory : s.kernelDirectory = dir := underway.tabled.directory
    rw [Machine.mapPage, directory, found, Option.bind_some]
  have made : n < 1024 * tablesFor (n + 1) := by
    simp only [tablesFor]
    omega
  have clear : entryAt s₁.mem (bootPage dir n) = PageT.zero :=
    entryAt_zero (underway₁.tabled.clear n (Nat.le_refl n) made)
  refine ⟨firstFrame s₁.map u, answer, ?_⟩
  rw [unfolded]
  by_cases panics : firstFrame s₁.map u = 0xFFFFFFFF
  · refine Or.inl ⟨panics, ?_⟩
    rw [Machine.allocFrame, if_neg (by rw [clear]; exact not_not.mpr rfl)]
    exact if_pos panics
  · refine Or.inr ⟨_, Machine.allocFrame_given (congrArg PageT.frame clear) panics true false, ?_⟩
    have offWord := off _ answer
    have pointer := underway₁.pointer
    generalize firstFrame s₁.map u = idx at answer offWord
    have apart : ∀ a, Inside (frameWord start (idx % 2 ^ 20)) 4 a →
        ¬ Inside (bootPage dir n) 4 a := by
      intro a inWord inEntry
      have front := offWord a inWord
        (by unfold Inside bootPage at *; simp only [tablesFor] at made; omega)
      unfold Inside bootPage at inEntry
      omega
    exact
      { underway := by
          refine underway₁.giveFrame site (by simp only [tablesFor]; omega) made (Nat.le_succ n)
            (Nat.lt_succ_self n) offWord fun f below seen => ?_
          rcases Nat.lt_or_ge f n with earlier | last
          · exact Or.inr (underway₁.marked f earlier seen)
          · obtain rfl : f = n := by omega
            by_cases used : s₁.map.used f = true
            · exact Or.inr used
            · have total : bootFrames = 0x1000 := rfl
              have inMap := site.inMap
              have isNext := answer.least seen ((used₁ f seen).symm.trans (by simpa using used))
              exact Or.inl (by omega)
        used := by
          intro f seen
          have word := site.word seen
          have inMap := site.inMap
          have total : bootFrames = 0x1000 := rfl
          rw [Machine.used_giveFrame (pointer ▸ site.space) ?_ (by omega), used₁ f seen]
          rw [pointer]
          unfold bootPage
          omega
        entry := Machine.entry_giveFrame true false (pointer ▸ apart) clear
        outside := by
          intro a untouched offWord
          refine (Machine.giveFrame_outside (fun inEntry => ?_) (pointer ▸ offWord)).trans
            (outside₁ a untouched)
          exact untouched (Or.inl inEntry) }

end

/-! ### What `init_paging` leaves alone -/

/-- Of the heap, only memory and `placement_pointer` have changed. -/
structure OnlyPlaced (h h' : Heap) : Prop where
  heapEnd : h'.heapEnd = h.heapEnd
  binHead : h'.klmallocBinHead = h.klmallocBinHead
  bigForward : h'.klmallocBigForward = h.klmallocBigForward
  bigLevel : h'.klmallocBigLevel = h.klmallocBigLevel
  newest : h'.klmallocNewestBig = h.klmallocNewestBig

section

variable {h h' h'' : Heap} {k k' : Kernel} {s s' : Machine}

theorem OnlyPlaced.refl (h : Heap) : OnlyPlaced h h := ⟨rfl, rfl, rfl, rfl, rfl⟩

theorem OnlyPlaced.trans (first : OnlyPlaced h h') (second : OnlyPlaced h' h'') :
    OnlyPlaced h h'' :=
  ⟨second.heapEnd.trans first.heapEnd, second.binHead.trans first.binHead,
    second.bigForward.trans first.bigForward, second.bigLevel.trans first.bigLevel,
    second.newest.trans first.newest⟩

theorem OnlyPlaced.write (placed : OnlyPlaced h h') (m : Memory) :
    OnlyPlaced h { h' with mem := m } :=
  ⟨placed.heapEnd, placed.binHead, placed.bigForward, placed.bigLevel, placed.newest⟩

theorem onlyPlaced_kmallocRaw {size p : Nat} {align : Bool} (fresh : h.heapEnd = 0)
    (returned : h.kmallocRaw size align = some (p, h')) : OnlyPlaced h h' := by
  rw [Heap.kmallocRaw, if_neg (not_not.mpr fresh)] at returned
  obtain ⟨-, rfl⟩ := Prod.mk.inj (Option.some.inj returned)
  exact ⟨rfl, rfl, rfl, rfl, rfl⟩

theorem onlyPlaced_getPage {address dir page : Nat} (fresh : k.heap.heapEnd = 0)
    (returned : k.getPage address true dir = some (page, k')) : OnlyPlaced k.heap k'.heap := by
  rcases getPage_eq_some returned with ⟨-, -, rfl⟩ | ⟨-, table, phys, k₁, allocated, -, rfl⟩
  · exact OnlyPlaced.refl _
  · obtain ⟨h₁, served, -, rfl⟩ := kmallocAlignedPhysical_eq_some allocated
    exact (onlyPlaced_kmallocRaw fresh served).write _

theorem onlyPlaced_touchHeapPages (fresh : k.heap.heapEnd = 0)
    (returned : k.touchHeapPages = some k') : OnlyPlaced k.heap k'.heap := by
  refine foldlM_range_returned _ (fun _ s => OnlyPlaced k.heap s.heap) ?_ (OnlyPlaced.refl _)
    returned
  intro n s s' _ placed ran
  obtain ⟨⟨page, s₁⟩, found, rfl⟩ := Option.map_eq_some_iff.mp ran
  exact placed.trans (onlyPlaced_getPage (placed.heapEnd.trans fresh) found)

theorem onlyPlaced_allocFrame {page : Nat} {isKernel isWriteable : Bool} {undef : BitVec 32}
    (returned : s.allocFrame page isKernel isWriteable undef = some s') :
    OnlyPlaced s.heap s'.heap := by
  rcases Machine.allocFrame_returned returned with ⟨-, rfl⟩ | ⟨-, rfl⟩
  · exact OnlyPlaced.refl _
  · exact (OnlyPlaced.refl s.heap).write _

theorem onlyPlaced_mapPage {undef : BitVec 32} {i : Nat} (fresh : s.heap.heapEnd = 0)
    (returned : s.mapPage undef i = some s') : OnlyPlaced s.heap s'.heap := by
  obtain ⟨⟨page, s₁⟩, found, given⟩ := Option.bind_eq_some_iff.mp returned
  obtain ⟨⟨page', k⟩, looked, same⟩ := Option.map_eq_some_iff.mp found
  obtain ⟨rfl, rfl⟩ := Prod.mk.inj same
  have placed : OnlyPlaced s.heap k.heap := onlyPlaced_getPage (k := s.kernel) fresh looked
  exact placed.trans (onlyPlaced_allocFrame given)

theorem onlyPlaced_initDirectory (fresh : h.heapEnd = 0)
    (returned : Machine.initDirectory h = some s) : OnlyPlaced h s.heap := by
  obtain ⟨⟨frames, h₁⟩, framesMade, rest⟩ := Option.bind_eq_some_iff.mp returned
  obtain ⟨⟨frames', h₂⟩, bitmap, cleared⟩ := Option.map_eq_some_iff.mp framesMade
  obtain ⟨-, rfl⟩ := Prod.mk.inj cleared
  have placed := onlyPlaced_kmallocRaw fresh bitmap
  obtain ⟨⟨dir, h₃⟩, made, rfl⟩ := Option.map_eq_some_iff.mp rest
  generalize memset h₂.mem frames' 0 _ = cleared at made
  have second := onlyPlaced_kmallocRaw (h := { h₂ with mem := cleared })
    (placed.heapEnd.trans fresh) made
  exact ((placed.write cleared).trans second).write _

end

/-! ### The loops -/

/-- The call panics, if calls may, or it leaves a state with `Q`. -/
def Yields (panics : Prop) (result : Option Machine) (Q : Machine → Prop) : Prop :=
  (panics ∧ result = none) ∨ ∃ s, result = some s ∧ Q s

/-- `P n` holds in front of the round of page `n`, and each round of the second and third loop
keeps it, on the next page as on one that is mapped already. The return registers hold values with
`value`. -/
structure BootRounds (dir : Nat) (panics : Prop) (value : BitVec 32 → Prop)
    (P : Nat → Machine → Prop) : Prop where
  placement : ∀ n s, P n s → s.heap.placementPointer = dir + 0x4000 + 0x2000 * tablesFor n
  next : ∀ n s u, value u → n < 0x2000 → P n s →
    Yields panics (s.mapPage u (n * 0x1000)) (P (n + 1))
  again : ∀ p n s u, value u → 0 < p → p < n → n * 0x1000 < s.heap.placementPointer + 0x2000 →
    P n s → Yields panics (s.mapPage u (p * 0x1000)) (P n)

section

variable {dir n : Nat} {panics : Prop} {value : BitVec 32 → Prop} {P : Nat → Machine → Prop}
  {s : Machine}

theorem Yields.bind {result : Option Machine} {f : Machine → Option Machine} {Q R : Machine → Prop}
    (yields : Yields panics result Q) (rest : ∀ s, Q s → Yields panics (f s) R) :
    Yields panics (result.bind f) R := by
  rcases yields with ⟨may, none⟩ | ⟨s, returned, state⟩
  · refine Or.inl ⟨may, ?_⟩
    rw [none, Option.bind_none]
  · rw [returned, Option.bind_some]
    exact rest s state

theorem BootRounds.mapPlaced (kept : BootRounds dir panics value P)
    (room : dir + 0x14000 ≤ memEndPage)
    {u : Nat → BitVec 32} (values : ∀ i, value (u i)) (fuel : Nat) (here : P n s)
    (bound : n ≤ bootFrames) (close : n * 0x1000 < s.heap.placementPointer + 0x2000)
    (enough : bootFrames < fuel + n) :
    Yields panics (Machine.mapPlaced u fuel (n * 0x1000) s) fun s' => ∃ m, P m s' ∧
      m ≤ bootFrames ∧ s'.heap.placementPointer + 0x1000 ≤ m * 0x1000 ∧
        m * 0x1000 < s'.heap.placementPointer + 0x2000 := by
  have total : bootFrames = 0x1000 := rfl
  have memEnd : memEndPage = 0x1000000 := rfl
  induction fuel generalizing n s with
  | zero => omega
  | succ fuel inductionHypothesis =>
      have placement := kept.placement n s here
      have limit : wrap32 (s.heap.placementPointer + 0x1000) =
          s.heap.placementPointer + 0x1000 := by
        apply wrap32_of_lt
        simp only [tablesFor] at placement
        omega
      rw [Machine.mapPlaced, limit]
      by_cases more : n * 0x1000 < s.heap.placementPointer + 0x1000
      · have below : n < bootFrames := by
          simp only [tablesFor] at placement
          omega
        have following : wrap32 (n * 0x1000 + 0x1000) = (n + 1) * 0x1000 := by
          rw [wrap32_of_lt (by lia)]
          omega
        rw [if_pos more, following]
        refine (kept.next n s (u (n * 0x1000)) (values _) (by omega) here).bind fun s₁ next => ?_
        refine inductionHypothesis next below ?_ (by omega)
        have grown : tablesFor n ≤ tablesFor (n + 1) := by
          simp only [tablesFor]
          omega
        have placement₁ := kept.placement _ s₁ next
        lia
      · rw [if_neg more]
        exact Or.inr ⟨s, rfl, n, here, bound, by omega, close⟩

theorem BootRounds.mapRest (kept : BootRounds dir panics value P) {u : Nat → BitVec 32}
    (values : ∀ i, value (u i)) (fuel : Nat) {p : Nat} (here : P n s) (positive : 0 < p)
    (before : p ≤ n) (close : p < n → n * 0x1000 < s.heap.placementPointer + 0x2000)
    (bound : n ≤ 0x2000) (enough : 0x2000 < fuel + p) :
    Yields panics (Machine.mapRest u fuel (p * 0x1000) s) (P 0x2000) := by
  have heapLimit : kheapEnd = 0x2000000 := rfl
  induction fuel generalizing n p s with
  | zero => omega
  | succ fuel inductionHypothesis =>
      have following : wrap32 (p * 0x1000 + 0x1000) = (p + 1) * 0x1000 := by
        rw [wrap32_of_lt (by omega)]
        omega
      rw [Machine.mapRest, following]
      by_cases more : p < 0x2000
      · have continues : Kernel.belowHeapEnd (p * 0x1000) := Or.inl (by omega)
        rw [if_pos continues]
        rcases Nat.lt_or_ge p n with old | new
        · refine (kept.again p n s _ (values _) positive old (close old) here).bind
            fun s₁ same => ?_
          refine inductionHypothesis same (by omega) old (fun _ => ?_) bound (by omega)
          rw [kept.placement n s₁ same, ← kept.placement n s here]
          exact close old
        · obtain rfl : p = n := by omega
          refine (kept.next p s _ (values _) more here).bind fun s₁ next => ?_
          exact inductionHypothesis next (by omega) (Nat.le_refl _)
            (fun less => absurd less (Nat.lt_irrefl _)) (by omega) (by omega)
      · have stops : ¬ Kernel.belowHeapEnd (p * 0x1000) := by
          simp only [Kernel.belowHeapEnd]
          omega
        rw [if_neg stops]
        obtain rfl : n = 0x2000 := by omega
        exact Or.inr ⟨s, rfl, here⟩

/-- The three loops, from what the first leaves and with `physicalAddr` stored in front of the
third. -/
theorem BootRounds.initPagingMaps {Q : Nat → Machine → Prop} (early : BootRounds dir panics value P)
    (late : BootRounds dir panics value Q) (aligned : dir % 0x1000 = 0)
    (room : dir + 0x14000 ≤ memEndPage) {u : Nat → Nat → BitVec 32} (values : ∀ l i, value (u l i))
    {h : Heap} {s₀ : Machine} (made : Machine.initDirectory h = some s₀)
    (touched : s₀.touchHeapPages = some s) (start : P 0 s)
    (stored : ∀ n s, n * 0x1000 < s.heap.placementPointer + 0x2000 → P n s → Q n s.setPhysicalAddr) :
    Yields panics (Machine.initPagingMaps u h) (Q 0x2000) := by
  have memEnd : memEndPage = 0x1000000 := rfl
  have total : bootFrames = 0x1000 := rfl
  rw [Machine.initPagingMaps, made, Option.bind_some, touched, Option.bind_some]
  have second := early.mapPlaced room (values 2) rounds start (Nat.zero_le _) (by omega)
    (by simp only [rounds]; omega)
  rw [Nat.zero_mul] at second
  refine second.bind fun s' placed => ?_
  obtain ⟨m, state, few, reached, close⟩ := placed
  have placement := early.placement m s' state
  have page : s'.heap.placementPointer = s'.heap.placementPointer / 0x1000 * 0x1000 := by
    simp only [tablesFor] at placement
    omega
  rw [page]
  exact late.mapRest (values 3) rounds (stored m s' close state) (by omega) (by omega)
    (fun _ => close) (by omega) (by simp only [rounds]; omega)

end

/-! ### The start -/

section

variable {start dir c v first n t : Nat} {h : Heap} {s s' : Machine}

/-- What the first loop leaves. -/
structure Begun (h : Heap) (dir : Nat) (s : Machine) : Prop where
  tabled : Tabled dir 0 0 0 s.kernel
  pointer : s.frames = h.placementPointer
  nframes : s.nframes = bootFrames
  placed : OnlyPlaced h s.heap
  zeros : (∀ a, h.mem a = 0) → ∀ a, ¬ Inside dir 0x4000 a → s.mem a = 0

theorem memset_zeros {m : Memory} (zeros : ∀ a, m a = 0) (p len a : Nat) :
    memset m p 0 len a = 0 := by
  induction len generalizing m p with
  | zero =>
      rw [memset]
      exact zeros a
  | succ len inductionHypothesis =>
      rw [memset]
      refine inductionHypothesis (fun b => ?_) _
      by_cases same : b = p
      · rw [same, Memory.write8_same]
        rfl
      · rw [Memory.write8_of_ne m 0 same, zeros b]

theorem mem_kmallocRaw {h' : Heap} {size p : Nat} {align : Bool} (fresh : h.heapEnd = 0)
    (returned : h.kmallocRaw size align = some (p, h')) : h'.mem = h.mem := by
  rw [Heap.kmallocRaw, if_neg (not_not.mpr fresh)] at returned
  exact congrArg (fun r => r.2.mem) (Option.some.inj returned).symm

/-- For any memory, so that the kernel need not unfold the one that `memset` leaves. -/
theorem Machine.mk_zeros {m : Memory} (zeros : ∀ a, m a = 0) (h : Heap)
    (frames nframes dir current a : Nat) :
    (Machine.mk { h with mem := m } frames nframes dir current).mem a = 0 :=
  zeros a

theorem zeros_initDirectory (fresh : h.heapEnd = 0) (zeros : ∀ a, h.mem a = 0)
    (returned : Machine.initDirectory h = some s) (a : Nat) : s.mem a = 0 := by
  obtain ⟨⟨frames, h₁⟩, framesMade, rest⟩ := Option.bind_eq_some_iff.mp returned
  rw [initFrames_eq fresh] at framesMade
  have cleared := memset_zeros zeros h.placementPointer (indexFromBit bootFrames)
  generalize memset h.mem h.placementPointer 0 (indexFromBit bootFrames) = bitmap
    at framesMade cleared
  obtain ⟨-, rfl⟩ := Prod.mk.inj (Option.some.inj framesMade)
  obtain ⟨⟨dir, h₂⟩, made, rfl⟩ := Option.map_eq_some_iff.mp rest
  have kept := mem_kmallocRaw (by exact fresh) made
  exact Machine.mk_zeros (memset_zeros (kept ▸ cleared) dir sizeofDirectory) h₂ _ _ _ _ a

/-- With the directory made, the machine is the kernel of the other model but for the bitmap. -/
theorem machine_initDirectory (fresh : h.heapEnd = 0) :
    Machine.initDirectory h = (initDirectory h).map fun k =>
      { heap := k.heap
        frames := h.placementPointer
        nframes := bootFrames
        kernelDirectory := k.kernelDirectory
        currentDirectory := 0 } := by
  simp only [Machine.initDirectory, initDirectory, initFrames_eq fresh, Option.bind_some,
    Option.map_map]
  rfl

theorem begun_boot (fresh : h.heapEnd = 0) (low : 0x1000 ≤ h.placementPointer)
    (fits : bootEnd h.placementPointer ≤ memEndPage) :
    ∃ s₀ s, Machine.initDirectory h = some s₀ ∧ s₀.touchHeapPages = some s ∧
      Begun h (bootDirectory h.placementPointer) s := by
  obtain ⟨k₀, kernelMade, blank, -⟩ := blank_initDirectory fresh low fits
  obtain ⟨dirLow, aligned⟩ := bootDirectory_page h.placementPointer
  have made := machine_initDirectory fresh
  rw [kernelMade, Option.map_some] at made
  have placed := onlyPlaced_initDirectory fresh made
  have zeros := fun allZero => zeros_initDirectory fresh allZero made
  generalize isStart : Machine.mk k₀.heap h.placementPointer bootFrames k₀.kernelDirectory 0 = s₀
    at made placed zeros
  have blank₀ : Blank (bootDirectory h.placementPointer) s₀.kernel := by
    subst isStart
    exact ⟨blank.heapEnd, blank.directory, blank.placement, blank.clear⟩
  obtain ⟨k, touched, tabled, -, outside⟩ := blank₀.touchHeapPages dirLow aligned fits
  have pointers : s₀.frames = h.placementPointer ∧ s₀.nframes = bootFrames := by
    subst isStart
    exact ⟨rfl, rfl⟩
  refine ⟨s₀, s₀.withHeap k.heap, made, ?_, ?_⟩
  · rw [Machine.touchHeapPages, touched, Option.map_some]
  · have later := onlyPlaced_touchHeapPages (k := s₀.kernel) (placed.heapEnd.trans fresh) touched
    exact
      { tabled := tabled.of_heap rfl (blank₀.directory.trans tabled.directory.symm)
        pointer := pointers.1
        nframes := pointers.2
        placed := placed.trans later
        zeros := fun allZero a off => (outside a off).trans (zeros allZero a) }

/-- `physicalAddr` is stored in front of the third loop. -/
theorem Underway.setPhysicalAddr (underway : Underway start dir c v first n t s)
    (site : Site start dir v first) (few : t ≤ 8) :
    Underway start dir (dir + 4096) v first n t s.setPhysicalAddr := by
  have memEnd : memEndPage = 0x1000000 := rfl
  have room := site.room
  have siteFew := site.few
  have directory : s.kernelDirectory = dir := underway.tabled.directory
  have elsewhere : ∀ a, ¬ Inside (dir + 8192) 4 a → s.setPhysicalAddr.mem a = s.mem a := by
    intro a outside
    unfold Inside at outside
    rw [← directory] at outside
    exact Memory.write32_outside _ _ (by omega)
  refine ⟨?_, ?_, underway.pointer, underway.nframes, fun f below seen => ?_⟩
  · exact underway.tabled.congr few (by omega) (Nat.le_refl n) (Or.inl rfl) rfl rfl rfl
      fun a _ _ outside => elsewhere a outside
  · have stored : physicalAddrOf s.setPhysicalAddr.mem s.kernelDirectory =
        (s.kernelDirectory + 4096) % 2 ^ 32 := Memory.read32_write32_same _ _ _
    rw [directory, Nat.mod_eq_of_lt (by omega)] at stored
    exact stored
  · refine Eq.trans ?_ (underway.marked f below seen)
    apply Machine.used_congr
    · rfl
    · intro a inWord
      have word := (site.word seen).2
      rw [underway.pointer] at inWord
      refine elsewhere a ?_
      unfold Inside at *
      omega

/-- A round on a page that is mapped already. -/
theorem Underway.again (underway : Underway start dir c v first n (tablesFor n) s)
    (site : Site start dir v first) (bound : n ≤ 0x2000) {p : Nat} (before : p < n)
    (known : first ≤ p / 1024) {u : BitVec 32}
    (off : WordOff start dir first (firstFrame s.map u % 2 ^ 20)) :
    Yields True (s.mapPage u (p * 0x1000)) fun s' =>
      Underway start dir c v first n (tablesFor n) s' := by
  have few : tablesFor n ≤ 8 := by
    simp only [tablesFor]
    omega
  have made : p < 1024 * tablesFor n := by
    simp only [tablesFor]
    omega
  have directory : s.kernelDirectory = dir := underway.tabled.directory
  have found : s.getPage (p * 0x1000) true dir = some (bootPage dir p, s) := by
    rw [Machine.getPage, underway.tabled.getPage_mapped few site.low made known, Option.map_some]
    rfl
  rw [Machine.mapPage, directory, found, Option.bind_some]
  cases given : s.allocFrame (bootPage dir p) true false u with
  | none => exact Or.inl ⟨trivial, given⟩
  | some s' =>
      refine Or.inr ⟨s', given, ?_⟩
      rcases Machine.allocFrame_returned given with ⟨-, rfl⟩ | ⟨-, rfl⟩
      · exact underway
      · exact underway.giveFrame site few made (Nat.le_refl n) before off
          fun f below seen => Or.inr (underway.marked f below seen)

end

end Balloon.Paging
