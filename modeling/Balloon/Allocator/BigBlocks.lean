import Balloon.Allocator.SmallBins
import Mathlib.Data.List.Perm.Subperm

/-!
Owns the skip list of free big blocks on well-formed heaps: the search, linking
a block in when it is freed, and unlinking the best fit when it is handed out.
-/

namespace Balloon.Allocator

open Balloon.Foundation
open Balloon.Libc

variable {h : Heap} {base : Nat} {L : Layout}

/-! ### Reading and writing forward pointers -/

/-- A position of the skip list whose node, if any, is a page. -/
def OnPage (p : Option Nat) : Prop := ∀ x, p = some x → x % 0x1000 = 0

theorem forward_setForward (h : Heap) {p q : Option Nat} {i j v : Nat} (onPage : OnPage p)
    (onPage' : OnPage q) (low : i ≤ 6) (low' : j ≤ 6) (small : v < 2 ^ 32) :
    (h.setForward p i v).forward q j = if q = p ∧ j = i then v else h.forward q j := by
  cases p with
  | none =>
      cases q with
      | none =>
          by_cases same : j = i
          · simp [Heap.setForward, Heap.forward, same]
          · simp [Heap.setForward, Heap.forward, same]
      | some y => simp [Heap.setForward, Heap.forward]
  | some x =>
      cases q with
      | none => simp [Heap.setForward, Heap.forward]
      | some y =>
          have pageX := onPage x rfl
          have pageY := onPage' y rfl
          simp only [Heap.setForward, Heap.forward, Heap.mem_store, Option.some.injEq]
          rw [Memory.read32_write32_aligned _ _ (by omega) (by omega), Nat.mod_eq_of_lt small]
          congr 1
          rw [eq_iff_iff]
          omega

/-- What the skip-list functions leave alone when they write forward pointers
of the given nodes. -/
structure SkipFrame (nodes : Nat → Prop) (g g' : Heap) : Prop where
  heapEnd : g'.heapEnd = g.heapEnd
  placement : g'.placementPointer = g.placementPointer
  binHead : g'.klmallocBinHead = g.klmallocBinHead
  newest : g'.klmallocNewestBig = g.klmallocNewestBig
  bigLevel : g'.klmallocBigLevel = g.klmallocBigLevel
  bytes : g.mem.AgreeOn (fun a => ∀ y, nodes y → a < y + 20 ∨ y + 48 ≤ a) g'.mem

namespace SkipFrame

variable {nodes : Nat → Prop} {g g' g'' : Heap}

theorem refl (nodes : Nat → Prop) (g : Heap) : SkipFrame nodes g g :=
  ⟨rfl, rfl, rfl, rfl, rfl, Memory.AgreeOn.refl _ _⟩

theorem trans (first : SkipFrame nodes g g') (second : SkipFrame nodes g' g'') :
    SkipFrame nodes g g'' where
  heapEnd := second.heapEnd.trans first.heapEnd
  placement := second.placement.trans first.placement
  binHead := second.binHead.trans first.binHead
  newest := second.newest.trans first.newest
  bigLevel := second.bigLevel.trans first.bigLevel
  bytes := first.bytes.trans second.bytes

theorem setForward (g : Heap) {p : Option Nat} {i : Nat} (v : Nat)
    (inNodes : ∀ x, p = some x → nodes x) (low : i ≤ 6) :
    SkipFrame nodes g (g.setForward p i v) := by
  cases p with
  | none => exact ⟨rfl, rfl, rfl, rfl, rfl, Memory.AgreeOn.refl _ _⟩
  | some x =>
      refine ⟨rfl, rfl, rfl, rfl, rfl, ?_⟩
      intro a outside
      have apart := outside x (inNodes x rfl)
      exact Memory.write32_outside _ _ (by omega)

theorem word (frame : SkipFrame nodes g g') {a : Nat} (aligned : a % 4 = 0)
    (pages : ∀ y, nodes y → y % 0x1000 = 0)
    (outside : ∀ y, nodes y → a < y + 20 ∨ y + 48 ≤ a) :
    g'.mem.read32 a = g.mem.read32 a := by
  refine frame.bytes.read32 fun k bound y isNode => ?_
  have apart := outside y isNode
  have page := pages y isNode
  omega

end SkipFrame

/-! ### Searching -/

/-- The nodes of the skip list are pages of the heap. -/
theorem WellFormed.skipPages (wf : WellFormed h base L) {x : Nat} (member : x ∈ L.level 0) :
    x % 0x1000 = 0 ∧ 0x1000 ≤ x ∧ x + 0x1000 ≤ h.heapEnd := by
  obtain ⟨n, isBig⟩ := wf.skip.bin x member
  have range := wf.range isBig
  exact ⟨wf.page isBig, range.2.2, range.2.1⟩

/-- There are no more free big blocks than pages in the heap. -/
theorem WellFormed.skipLength (wf : WellFormed h base L) :
    (L.level 0).length ≤ h.heapEnd / 0x1000 := by
  have nodup : ((L.level 0).map (· / 0x1000)).Nodup := by
    refine List.Nodup.map_on ?_ wf.skip.list.nodup
    intro x inX y inY equal
    have pageX := wf.skipPages inX
    have pageY := wf.skipPages inY
    omega
  have subset : (L.level 0).map (· / 0x1000) ⊆ List.range (h.heapEnd / 0x1000) := by
    intro page member
    obtain ⟨x, inX, rfl⟩ := List.mem_map.mp member
    have pageX := wf.skipPages inX
    rw [List.mem_range]
    omega
  simpa using (List.subperm_of_subset nodup subset).length_le

/-- Sorted sizes make every size test hold on a prefix. -/
theorem SkipOk.prefixClosed (ok : SkipOk h L) (key : Nat) :
    PrefixClosed (fun x => decide (h.sizeOf x < key)) (L.level 0) := by
  refine ok.sorted.imp ?_
  intro x y le passes
  simp only [decide_eq_true_eq] at passes ⊢
  omega

/-- The search collects the last block below the key on every level. -/
theorem SkipOk.search (ok : SkipOk h L) (key : Nat)
    (enough : (L.level 0).length ≤ h.heapEnd / 0x1000) :
    h.skipSearch key =
      some fun i => boundary (fun x => decide (h.sizeOf x < key)) (L.level i) := by
  obtain ⟨update, found, low, high⟩ :=
    ok.list.descend_spec (ok.prefixClosed key) (Nat.lt_succ_of_le enough) fun _ => none
  refine found.trans (congrArg some (funext fun i => ?_))
  rcases Nat.lt_or_ge h.klmallocBigLevel i with above | within
  · rw [high i above, ok.list.empty i above]
    rfl
  · exact low i within

/-- The block after the search position is the first one that is not below
the key. -/
theorem SkipOk.next_boundary (ok : SkipOk h L) (key : Nat) {i : Nat} (low : i ≤ 6) :
    nodeAt (h.forward (boundary (fun x => decide (h.sizeOf x < key)) (L.level i)) i) =
      ((L.level i).filter fun x => !decide (h.sizeOf x < key)).head? :=
  ok.list.next_boundary (ok.prefixClosed key) low

/-! ### Linking in and out -/

/-- Linking `v` in below level `count` writes its own pointers and the ones
that precede it. -/
theorem skipLink_spec (h : Heap) {update : Nat → Option Nat} {v : Nat} {nodes : Nat → Prop}
    (updatePage : ∀ i, OnPage (update i)) (updateNode : ∀ i x, update i = some x → nodes x)
    (node : nodes v) (page : v % 0x1000 = 0) (vLt : v < 2 ^ 32)
    (forwardLt : ∀ i, i ≤ 6 → h.forward (update i) i < 2 ^ 32) (fresh : ∀ i, update i ≠ some v)
    (count : Nat) (low : count ≤ 7) :
    SkipFrame nodes h (h.skipLink update v count) ∧
    ∀ q j, OnPage q → j ≤ 6 → (h.skipLink update v count).forward q j =
      if j < count then
        if q = some v then h.forward (update j) j
        else if q = update j then v else h.forward q j
      else h.forward q j := by
  have vPage : OnPage (some v) := by
    rintro x ⟨⟩
    exact page
  induction count with
  | zero => exact ⟨SkipFrame.refl _ _, fun q j _ _ => by simp [Heap.skipLink]⟩
  | succ count inductionHypothesis =>
      obtain ⟨frame, words⟩ := inductionHypothesis (by omega)
      generalize linked : h.skipLink update v count = g at frame words
      have ahead : g.forward (update count) count = h.forward (update count) count := by
        rw [words _ _ (updatePage count) (by omega), if_neg (Nat.lt_irrefl count)]
      have unfolded : h.skipLink update v (count + 1) =
          (g.setForward (some v) count (h.forward (update count) count)).setForward
            (update count) count v := by
        simp only [Heap.skipLink, linked, ahead]
      have frameOut : SkipFrame nodes g
          (g.setForward (some v) count (h.forward (update count) count)) := by
        apply SkipFrame.setForward _ _ _ (by omega)
        rintro x ⟨⟩
        exact node
      rw [unfolded]
      refine ⟨(frame.trans frameOut).trans
        (SkipFrame.setForward _ _ (updateNode count) (by omega)), ?_⟩
      intro q j onPage within
      rw [forward_setForward _ (updatePage count) onPage (by omega) within vLt,
        forward_setForward _ vPage onPage (by omega) within (forwardLt count (by omega)),
        words q j onPage within]
      rcases Nat.lt_trichotomy j count with below | rfl | above
      · simp [below, Nat.lt_succ_of_lt below, Nat.ne_of_lt below]
      · by_cases isV : q = some v
        · simp [isV, (fresh j).symm]
        · by_cases isUpdate : q = update j
          · simp [isUpdate, fresh j]
          · simp [isV, isUpdate]
      · rw [if_neg (by omega), if_neg (by omega), if_neg (by omega), if_neg (by omega)]

/-- Unlinking walks up from level `i` as long as the node is listed there. -/
theorem skipUnlink_spec (h : Heap) {update : Nat → Option Nat} {v : Nat} {nodes : Nat → Prop}
    {levels : Nat → List Nat} (updatePage : ∀ i, OnPage (update i))
    (updateNode : ∀ i x, update i = some x → nodes x) (page : v % 0x1000 = 0)
    (sublist : ∀ i, (levels (i + 1)).Sublist (levels i))
    (forwardLt : ∀ i, i ≤ 6 → h.forward (some v) i < 2 ^ 32) {top : Nat} (low : top ≤ 6)
    (listed : ∀ i, i ≤ top → (h.forward (update i) i = v ↔ v ∈ levels i)) :
    ∀ (count i : Nat) (g : Heap), i + count = top + 1 →
      (∀ q j, OnPage q → i ≤ j → j ≤ 6 → g.forward q j = h.forward q j) →
      SkipFrame nodes g (Heap.skipUnlink update v count i g) ∧
      ∀ q j, OnPage q → j ≤ 6 → (Heap.skipUnlink update v count i g).forward q j =
        if i ≤ j ∧ j ≤ top ∧ v ∈ levels j ∧ q = update j then h.forward (some v) j
        else g.forward q j := by
  have vPage : OnPage (some v) := by
    rintro x ⟨⟩
    exact page
  intro count
  induction count with
  | zero =>
      intro i g total _
      refine ⟨SkipFrame.refl _ _, fun q j _ _ => ?_⟩
      rw [Heap.skipUnlink, if_neg (by omega)]
  | succ count inductionHypothesis =>
      intro i g total same
      have ahead := same (update i) i (updatePage i) (Nat.le_refl i) (by omega)
      by_cases inLevel : v ∈ levels i
      · have isNext : g.forward (update i) i = v :=
          ahead.trans ((listed i (by omega)).mpr inLevel)
        have own := same (some v) i vPage (Nat.le_refl i) (by omega)
        have write : ∀ q j, OnPage q → j ≤ 6 →
            (g.setForward (update i) i (h.forward (some v) i)).forward q j =
              if q = update i ∧ j = i then h.forward (some v) i else g.forward q j :=
          fun q j onPage within =>
            forward_setForward _ (updatePage i) onPage (by omega) within (forwardLt i (by omega))
        rw [Heap.skipUnlink, if_neg (not_not.mpr isNext), own]
        obtain ⟨frame, words⟩ := inductionHypothesis (i + 1)
          (g.setForward (update i) i (h.forward (some v) i)) (by omega) (by
            intro q j onPage above within
            rw [write q j onPage within, if_neg (by omega)]
            exact same q j onPage (by omega) within)
        refine ⟨(SkipFrame.setForward _ _ (updateNode i) (by omega)).trans frame, ?_⟩
        intro q j onPage within
        rw [words q j onPage within, write q j onPage within]
        rcases Nat.lt_trichotomy j i with below | rfl | above
        · rw [if_neg (by omega), if_neg (by omega), if_neg (by omega)]
        · rw [if_neg (by omega)]
          by_cases isUpdate : q = update j
          · rw [if_pos ⟨isUpdate, rfl⟩, if_pos ⟨Nat.le_refl j, by omega, inLevel, isUpdate⟩]
          · rw [if_neg (fun both => isUpdate both.1), if_neg (fun all => isUpdate all.2.2.2)]
        · rw [if_neg (by omega : ¬ (q = update i ∧ j = i))]
          congr 1
          rw [eq_iff_iff]
          constructor <;> rintro ⟨_, rest⟩ <;> exact ⟨by omega, rest⟩
      · have notNext : g.forward (update i) i ≠ v := fun isNext =>
          inLevel ((listed i (by omega)).mp (ahead.symm.trans isNext))
        rw [Heap.skipUnlink, if_pos notNext]
        refine ⟨SkipFrame.refl _ _, fun q j _ _ => ?_⟩
        have absent : ∀ d, v ∉ levels (i + d) := by
          intro d
          induction d with
          | zero => exact inLevel
          | succ d absentBelow => exact fun member => absentBelow ((sublist (i + d)).subset member)
        rw [if_neg]
        rintro ⟨above, -, member, -⟩
        exact absent (j - i) (by rwa [Nat.add_sub_cancel' above])

/-! ### Changing the skip list -/

/-- The nodes the skip list may hold. -/
def Layout.IsBig (L : Layout) (x : Nat) : Prop := ∃ n, L.bins x = some (.big n)

theorem WellFormed.bigPage (wf : WellFormed h base L) {x : Nat} (isBig : L.IsBig x) :
    x % 0x1000 = 0 := isBig.elim fun _ isBin => wf.page isBin

/-- A heap that differs from a well-formed one in the headers and link words of
its big blocks only. -/
theorem WellFormed.relist (wf : WellFormed h base L) {h' : Heap} {L' : Layout}
    (bins : L'.bins = L.bins) (free : L'.free = L.free) (chain : L'.chain = L.chain)
    (heapEnd : h'.heapEnd = h.heapEnd) (placement : h'.placementPointer = h.placementPointer)
    (binHead : h'.klmallocBinHead = h.klmallocBinHead)
    (newest : h'.klmallocNewestBig = h.klmallocNewestBig)
    (words : ∀ a, a % 4 = 0 → (∀ y, L.IsBig y → a < y + 4 ∨ y + 52 ≤ a) →
      h'.mem.read32 a = h.mem.read32 a)
    (own : ∀ y n, L.bins y = some (.big n) → BinOk h' L' y (.big n)) (skip : SkipOk h' L') :
    WellFormed h' base L' where
  basePage := wf.basePage
  placementLt := placement ▸ wf.placementLt
  baseLe := heapEnd ▸ wf.baseLe
  endPage := heapEnd ▸ wf.endPage
  endLe := heapEnd ▸ wf.endLe
  placed := by
    rw [heapEnd]
    exact ⟨bins ▸ wf.placed.page, bins ▸ wf.placed.range, bins ▸ wf.placed.apart⟩
  bin := by
    intro x k isBin
    rw [bins] at isBin
    cases k with
    | big n => exact own x n isBin
    | small b =>
        have notNode : x ∉ L.level 0 := by
          intro member
          obtain ⟨n, isBig⟩ := wf.skip.bin x member
          simp [isBin] at isBig
        have notNode' : x ∉ L'.level 0 := by
          intro member
          obtain ⟨n, isBig⟩ := skip.bin x member
          simp [bins, isBin] at isBig
        refine (wf.bin x _ isBin).congr (wf.page isBin) (by rw [free])
          (iff_of_false notNode' notNode) ?_
        intro a aligned inBin
        refine words a aligned ?_
        rintro y ⟨n, isBig⟩
        have different : x ≠ y := by
          rintro rfl
          simp [isBin] at isBig
        have apart := wf.word_apart isBig isBin different inBin
        omega
  chain := by
    intro b bound
    have ok := wf.chain b bound
    refine ok.congr (congrFun binHead b) (congrFun chain b) (fun _ _ => by rw [bins]) ?_ ?_
    · intro x member
      rw [free]
      exact (ok.bin x member).2
    · intro x member
      have isBin := (ok.bin x member).1
      have pageX := wf.page isBin
      refine words x (by omega) ?_
      intro y isBig
      have pageY := wf.bigPage isBig
      have different : x ≠ y := by
        rintro rfl
        obtain ⟨n, isBig⟩ := isBig
        simp [isBin] at isBig
      omega
  skip := skip
  newest := by
    rw [newest, bins]
    exact wf.newest

/-! ### Returning a block -/

/-- The layout after the big block at `x` joins the levels up to `level`. -/
def Layout.returnBlock (L : Layout) (before : Nat → Bool) (x level : Nat) : Layout :=
  { L with level := SkipList.insertLevels L.level before x level }

theorem mem_returnBlock (before : Nat → Bool) {x level y : Nat} :
    y ∈ (L.returnBlock before x level).level 0 ↔ y = x ∨ y ∈ L.level 0 := by
  simp only [Layout.returnBlock, SkipList.insertLevels, Nat.zero_le, if_true, List.mem_append,
    List.mem_cons, List.mem_filter, Bool.not_eq_true']
  cases before y <;> simp [or_comm]

theorem klmallocRandomLevel_le (rand : Nat → Nat) : klmallocRandomLevel rand ≤ 6 := by
  have bounded : ∀ left level, randomLevelFrom rand left level ≤ level + left := by
    intro left
    induction left with
    | zero => intro level; exact Nat.le_refl _
    | succ left inductionHypothesis =>
        intro level
        rw [randomLevelFrom]
        split
        · have le := inductionHypothesis (level + 1)
          omega
        · omega
  exact (bounded 6 0).trans (by omega)

/-- A boundary is a node of its level. -/
theorem boundary_mem {before : Nat → Bool} {xs : List Nat} {x : Nat}
    (reached : boundary before xs = some x) : x ∈ xs ∧ before x = true :=
  List.mem_filter.mp (mem_of_lastFrom_none reached)

/-- Forward pointers of the list are null or nodes of the heap. -/
theorem WellFormed.forward_lt (wf : WellFormed h base L) {g : Heap} (ok : SkipOk g L)
    {before : Nat → Bool} (closed : PrefixClosed before (L.level 0)) {i : Nat} (low : i ≤ 6) :
    g.forward (boundary before (L.level i)) i < 2 ^ 32 := by
  have next := ok.list.next_boundary closed low
  cases rest : (L.level i).filter fun x => !before x with
  | nil =>
      rw [rest, List.head?_nil] at next
      have zero := nodeAt_eq_none_iff.mp next
      omega
  | cons x tail =>
      rw [rest, List.head?_cons] at next
      have node := (nodeAt_eq_some_iff.mp next).1
      have member : x ∈ L.level i := by
        have inFilter : x ∈ (L.level i).filter fun x => !before x := by simp [rest]
        exact (List.mem_filter.mp inFilter).1
      have bounds := wf.skipPages ((ok.list.sublist_zero i).subset member)
      have endLe := wf.endLe
      omega

/-- `klmalloc_skip_list_insert` on a block that is not in the list, whatever
the level generator returns. -/
theorem skipListInsert_spec (wf : WellFormed h base L) {g : Heap} (heapEnd : g.heapEnd = h.heapEnd)
    (ok : SkipOk g L) {x : Nat} (isBig : L.IsBig x) (fresh : x ∉ L.level 0) (rand : Nat → Nat) :
    ∃ h', g.klmallocSkipListInsert rand x = some h' ∧
      SkipOk h' (L.returnBlock (fun y => decide (g.sizeOf y < g.sizeOf x)) x
        (klmallocRandomLevel rand)) ∧
      SkipFrame L.IsBig { g with klmallocBigLevel := h'.klmallocBigLevel } h' := by
  have closed := ok.prefixClosed (g.sizeOf x)
  have found := ok.search (g.sizeOf x) (heapEnd ▸ wf.skipLength)
  have levelLe := klmallocRandomLevel_le rand
  have page := wf.bigPage isBig
  have range := isBig.elim fun n isBin => wf.range isBin
  have endLe := wf.endLe
  set before : Nat → Bool := fun y => decide (g.sizeOf y < g.sizeOf x) with beforeDef
  set update : Nat → Option Nat := fun i => boundary before (L.level i) with updateDef
  generalize levelDef : klmallocRandomLevel rand = level at levelLe ⊢
  have isNode : ∀ i y, update i = some y → y ∈ L.level 0 := fun i y reached =>
    (ok.list.sublist_zero i).subset (boundary_mem reached).1
  have updateBig : ∀ i y, update i = some y → L.IsBig y := fun i y reached =>
    ok.bin y (isNode i y reached)
  have updatePage : ∀ i, OnPage (update i) := fun i y reached => wf.bigPage (updateBig i y reached)
  have updateFresh : ∀ i, update i ≠ some x := fun i reached => fresh (isNode i x reached)
  have notNext : g.forward (update 0) 0 ≠ x := by
    intro next
    have head := ok.next_boundary (g.sizeOf x) (Nat.zero_le 6)
    rw [show g.forward (boundary _ (L.level 0)) 0 = x from next, nodeAt_pos (by omega)] at head
    exact fresh (List.mem_filter.mp (List.mem_of_head? head.symm)).1
  have widened : (fun i => if g.klmallocBigLevel < i ∧ i ≤ level then none else update i) =
      update := by
    funext i
    split
    · rename_i above
      rw [updateDef]
      simp only [ok.list.empty i above.1]
      rfl
    · rfl
  let g' : Heap := { g with klmallocBigLevel := max g.klmallocBigLevel level }
  obtain ⟨frame, words⟩ := skipLink_spec g' updatePage updateBig isBig page (by omega)
    (fun i low => wf.forward_lt ok closed low) updateFresh (level + 1) (by omega)
  have unfolded : g.klmallocSkipListInsert rand x = some (g'.skipLink update x (level + 1)) := by
    simp only [Heap.klmallocSkipListInsert, found, Option.map_some, levelDef]
    rw [if_neg notNext, widened]
  have forwardSame : ∀ q j, g'.forward q j = g.forward q j := by
    intro q j
    cases q <;> rfl
  have nodePage : ∀ i p, (∀ y, p = some y → y ∈ L.level i) → OnPage p := fun i p inside y isY =>
    (wf.skipPages ((ok.list.sublist_zero i).subset (inside y isY))).1
  have size : ∀ y, y % 0x1000 = 0 → (g'.skipLink update x (level + 1)).sizeOf y = g.sizeOf y := by
    intro y pageY
    refine frame.word (by omega) (fun z => wf.bigPage) fun z isNodeZ => ?_
    have pageZ := wf.bigPage isNodeZ
    omega
  refine ⟨_, unfolded, ⟨?_, ?_, ?_⟩, ?_⟩
  · rw [frame.bigLevel]
    refine ok.list.insert closed fresh levelLe ?_ ?_ ?_
    · intro i within
      simp only [Heap.skipNext]
      rw [words (update i) i (updatePage i) (by omega), if_pos (by omega),
        if_neg (updateFresh i), if_pos rfl]
      exact nodeAt_pos (by omega)
    · intro i within
      simp only [Heap.skipNext]
      rw [words (some x) i (by rintro y ⟨⟩; exact page) (by omega), if_pos (by omega), if_pos rfl,
        forwardSame]
    · intro i within p inside notBoundary
      have notX : p ≠ some x := fun isX =>
        fresh ((ok.list.sublist_zero i).subset (inside x isX))
      simp only [Heap.skipNext]
      rw [words p i (nodePage i p inside) within, if_neg notX]
      by_cases below : i < level + 1
      · rw [if_pos below, if_neg (notBoundary (by omega)), forwardSame]
      · rw [if_neg below, forwardSame]
  · intro y member
    rcases (mem_returnBlock before).mp member with rfl | inList
    · exact isBig
    · exact ok.bin y inList
  · have sorted : ((L.level 0).filter before ++
        x :: (L.level 0).filter fun y => !before y).Pairwise
          fun y z => g.sizeOf y ≤ g.sizeOf z := by
      refine List.pairwise_append.mpr ⟨ok.sorted.filter _, List.pairwise_cons.mpr
        ⟨?_, ok.sorted.filter _⟩, ?_⟩
      · intro z member
        have past := (List.mem_filter.mp member).2
        simp only [before, Bool.not_eq_true', decide_eq_false_iff_not] at past
        omega
      · intro y member z memberZ
        have under := (List.mem_filter.mp member).2
        simp only [before, decide_eq_true_eq] at under
        rcases List.mem_cons.mp memberZ with rfl | inRest
        · omega
        · have past := (List.mem_filter.mp inRest).2
          simp only [before, Bool.not_eq_true', decide_eq_false_iff_not] at past
          omega
    have levels : (L.returnBlock before x level).level 0 =
        (L.level 0).filter before ++ x :: (L.level 0).filter fun y => !before y := by
      simp [Layout.returnBlock, SkipList.insertLevels]
    rw [levels]
    refine sorted.imp_of_mem ?_
    intro y z inY inZ le
    rw [← levels] at inY inZ
    have pageOf : ∀ w, w ∈ (L.returnBlock before x level).level 0 → w % 0x1000 = 0 := by
      intro w member
      rcases (mem_returnBlock before).mp member with rfl | inList
      · exact page
      · exact (wf.skipPages inList).1
    rw [size y (pageOf y inY), size z (pageOf z inZ)]
    exact le
  · rw [frame.bigLevel]
    exact frame

/-- The big-block half of `klfree` lists the block in front of the first one that is as large. -/
theorem WellFormed.returnBlock_layout (wf : WellFormed h base L) {x n : Nat}
    (isBin : L.bins x = some (.big n)) (taken : x ∉ L.level 0) {ptr : Nat}
    (inBlock : ptr = x + 48 ∨ ptr = x + 0x1000) (rand : Nat → Nat) :
    ∃ h' before, h.klfree rand ptr = some h' ∧
      (∀ y, y % 0x1000 = 0 → before y = decide (h.sizeOf y < h.sizeOf x)) ∧
      WellFormed h' base (L.returnBlock before x (klmallocRandomLevel rand)) ∧
      h'.heapEnd = h.heapEnd ∧ h'.placementPointer = h.placementPointer ∧
      h.mem.AgreeOn (fun a => (∀ y, L.IsBig y → a < y + 4 ∨ y + 48 ≤ a) ∧
        (a < x + 48 ∨ x + 52 ≤ a)) h'.mem := by
  have page := wf.page isBin
  have range := wf.range isBin
  have endLe := wf.endLe
  obtain ⟨magic, size, -, head⟩ := wf.bin x _ isBin
  have noHead : h.headOf x = 0 := head taken
  have pages := (wf.placed.range x _ isBin).2.1
  simp only [Bin.pages] at pages
  have header : Heap.headerOf ptr = x := by
    unfold Heap.headerOf
    rcases inBlock with rfl | rfl
    · rw [if_neg (by omega)]
      omega
    · rw [if_pos (by omega)]
      omega
  let pushed : Heap := (h.store (x + 48) 0).store (x + 4) (x + 48)
  have unfolded : h.klfree rand ptr = pushed.klmallocSkipListInsert rand x := by
    simp only [Heap.klfree, if_neg (by omega : ¬ ptr = 0), header, magic, ne_eq,
      not_true_eq_false, if_false, if_pos (by omega : h.sizeOf x > 11), Heap.klmallocStackPush,
      noHead, pushed]
  have pushedWords : ∀ a, a % 4 = 0 → a ≠ x + 48 → a ≠ x + 4 →
      pushed.mem.read32 a = h.mem.read32 a := by
    intro a aligned notLink notHead
    exact (read32_write32_ne _ _ (by omega) aligned notHead).trans
      (read32_write32_ne _ _ (by omega) aligned notLink)
  have pushedSkip : SkipOk pushed L := by
    refine wf.skip.congr rfl rfl rfl (fun _ _ => rfl) ?_ ?_
    · intro y member
      have pageY := (wf.skipPages member).1
      exact pushedWords _ (by omega) (by omega) (by omega)
    · intro y member i low
      have pageY := (wf.skipPages member).1
      exact pushedWords _ (by omega) (by omega) (by omega)
  obtain ⟨h', inserted, skip, frame⟩ :=
    skipListInsert_spec wf (show pushed.heapEnd = h.heapEnd from rfl) pushedSkip ⟨n, isBin⟩
      taken rand
  have pushedSize : ∀ y, y % 0x1000 = 0 → pushed.sizeOf y = h.sizeOf y :=
    fun y pageY => pushedWords (y + 8) (by omega) (by omega) (by omega)
  refine ⟨h', fun y => decide (pushed.sizeOf y < pushed.sizeOf x), unfolded.trans inserted, ?_, ?_,
    frame.heapEnd, frame.placement, ?_⟩
  · intro y pageY
    simp only [pushedSize y pageY, pushedSize x page]
  · have framedWords : ∀ a, a % 4 = 0 → (∀ y, L.IsBig y → a < y + 20 ∨ y + 48 ≤ a) →
        h'.mem.read32 a = pushed.mem.read32 a :=
      fun a aligned outside => frame.word aligned (fun y => wf.bigPage) outside
    refine wf.relist rfl rfl rfl frame.heapEnd frame.placement frame.binHead frame.newest
      ?_ ?_ skip
    · intro a aligned outside
      have outsideX := outside x ⟨n, isBin⟩
      refine (framedWords a aligned fun y isBig => ?_).trans
        (pushedWords a aligned (by omega) (by omega))
      have outsideY := outside y isBig
      omega
    · intro y m isBinY
      have pageY := wf.page isBinY
      have headerWord : ∀ o, o % 4 = 0 → o < 20 ∨ o = 48 →
          h'.mem.read32 (y + o) = pushed.mem.read32 (y + o) := by
        intro o aligned low
        refine framedWords _ (by omega) fun z isBig => ?_
        have pageZ := wf.bigPage isBig
        omega
      by_cases same : y = x
      · subst same
        obtain rfl : m = n := by simpa [isBin] using isBinY.symm
        refine ⟨?_, ?_, ?_, ?_⟩
        · exact ((headerWord 12 (by omega) (by omega)).trans
            (pushedWords _ (by omega) (by omega) (by omega))).trans magic
        · rw [show h'.sizeOf y = h.sizeOf y from (headerWord 8 (by omega) (by omega)).trans
            (pushedWords _ (by omega) (by omega) (by omega))]
          exact size
        · intro _
          refine ⟨?_, ?_⟩
          · exact (headerWord 4 (by omega) (by omega)).trans
              (read32_write32_small _ _ (by omega))
          · exact (headerWord 48 (by omega) (by omega)).trans
              ((read32_write32_ne _ _ (by omega) (by omega) (by omega)).trans
                (read32_write32_small _ _ (by decide)))
        · intro absent
          exact absurd ((mem_returnBlock _).mpr (Or.inl rfl)) absent
      · refine (wf.bin y _ isBinY).congr pageY rfl ?_ ?_
        · rw [mem_returnBlock]
          exact or_iff_right same
        · intro a aligned inBin
          have offset : ∃ o, a = y + o ∧ o % 4 = 0 ∧ (o < 20 ∨ o = 48) := by
            simp only [Layout.Reads] at inBin
            exact ⟨a - y, by omega, by omega, by omega⟩
          obtain ⟨o, rfl, alignedO, low⟩ := offset
          exact (headerWord o alignedO low).trans
            (pushedWords _ aligned (by omega) (by omega))
  · intro a outside
    have outsideX := outside.1 x ⟨n, isBin⟩
    refine (frame.bytes a fun y isBig => ?_).trans ((Memory.write32_outside _ _ (by omega)).trans
      (Memory.write32_outside _ _ (by omega)))
    have outsideY := outside.1 y isBig
    omega

/-- The big-block half of `klfree`. -/
theorem WellFormed.returnBlock (wf : WellFormed h base L) {x n : Nat}
    (isBin : L.bins x = some (.big n)) (taken : x ∉ L.level 0) {ptr : Nat}
    (inBlock : ptr = x + 48 ∨ ptr = x + 0x1000) (rand : Nat → Nat) :
    ∃ h' L', h.klfree rand ptr = some h' ∧ WellFormed h' base L' ∧ L'.bins = L.bins ∧
      L'.free = L.free ∧ (∀ y, y ∈ L'.level 0 ↔ y = x ∨ y ∈ L.level 0) ∧
      h'.heapEnd = h.heapEnd ∧ h'.placementPointer = h.placementPointer ∧
      h.mem.AgreeOn (fun a => (∀ y, L.IsBig y → a < y + 4 ∨ y + 48 ≤ a) ∧
        (a < x + 48 ∨ x + 52 ≤ a)) h'.mem := by
  obtain ⟨h', before, released, -, wf', heapEnd, placement, bytes⟩ :=
    wf.returnBlock_layout isBin taken inBlock rand
  exact ⟨h', _, released, wf', rfl, rfl, fun y => mem_returnBlock before, heapEnd, placement,
    bytes⟩

/-! ### Taking a block -/

/-- The layout after the big block at `x` leaves every level. -/
def Layout.takeBlock (L : Layout) (x : Nat) : Layout :=
  { L with level := SkipList.eraseLevels L.level x }

theorem mem_takeBlock (nodup : (L.level 0).Nodup) {x y : Nat} :
    y ∈ (L.takeBlock x).level 0 ↔ y ≠ x ∧ y ∈ L.level 0 := nodup.mem_erase_iff

theorem trimLevel_le (forward : Nat → Nat) (level : Nat) :
    Heap.trimLevel forward level ≤ level := by
  induction level with
  | zero => exact Nat.le_refl 0
  | succ level inductionHypothesis =>
      rw [Heap.trimLevel]
      split <;> omega

theorem trimLevel_empty (forward : Nat → Nat) {level i : Nat}
    (above : Heap.trimLevel forward level < i)
    (within : i ≤ level) : forward i = 0 := by
  induction level with
  | zero => omega
  | succ level inductionHypothesis =>
      rw [Heap.trimLevel] at above
      split at above
      · rename_i empty
        rcases Nat.lt_or_ge i (level + 1) with below | last
        · exact inductionHypothesis above (by omega)
        · obtain rfl : i = level + 1 := by omega
          exact empty
      · omega

/-- `klmalloc_skip_list_delete` on the first block of its size. -/
theorem skipListDelete_spec (wf : WellFormed h base L) {x : Nat} {rest : List Nat}
    (first : (L.level 0).filter (fun y => !decide (h.sizeOf y < h.sizeOf x)) = x :: rest) :
    ∃ h', h.klmallocSkipListDelete x = some h' ∧ SkipOk h' (L.takeBlock x) ∧
      SkipFrame L.IsBig { h with klmallocBigLevel := h'.klmallocBigLevel } h' := by
  have ok := wf.skip
  have closed := ok.prefixClosed (h.sizeOf x)
  have found := ok.search (h.sizeOf x) wf.skipLength
  have member : x ∈ L.level 0 := by
    have inFilter : x ∈ (L.level 0).filter fun y => !decide (h.sizeOf y < h.sizeOf x) := by
      simp [first]
    exact (List.mem_filter.mp inFilter).1
  have page := (wf.skipPages member).1
  have positive := (wf.skipPages member).2.1
  set before : Nat → Bool := fun y => decide (h.sizeOf y < h.sizeOf x) with beforeDef
  set update : Nat → Option Nat := fun i => boundary before (L.level i) with updateDef
  have updateBig : ∀ i y, update i = some y → L.IsBig y := fun i y reached =>
    ok.bin y ((ok.list.sublist_zero i).subset (boundary_mem reached).1)
  have updatePage : ∀ i, OnPage (update i) := fun i y reached => wf.bigPage (updateBig i y reached)
  have listed : ∀ i, i ≤ 6 → (h.forward (update i) i = x ↔ x ∈ L.level i) := by
    intro i low
    constructor
    · intro next
      have head := ok.next_boundary (h.sizeOf x) low
      rw [show h.forward (boundary _ (L.level i)) i = x from next, nodeAt_pos (by omega)] at head
      exact (List.mem_filter.mp (List.mem_of_head? head.symm)).1
    · intro inLevel
      obtain ⟨tail, split⟩ := ok.list.level_split closed first inLevel
      have path := ok.list.path i low
      rw [split] at path
      exact (nodeAt_eq_some_iff.mp path.next_lastFrom).1
  have topLe := ok.list.topLe
  obtain ⟨frame, words⟩ := skipUnlink_spec h updatePage updateBig page
    ok.list.sublist (fun i _ => h.mem.read32_lt _) topLe
    (fun i within => listed i (by omega)) (h.klmallocBigLevel + 1) 0 h (by omega)
    (fun _ _ _ _ _ => rfl)
  have unfolded : h.klmallocSkipListDelete x =
      some { Heap.skipUnlink update x (h.klmallocBigLevel + 1) 0 h with
        klmallocBigLevel := Heap.trimLevel
          (Heap.skipUnlink update x (h.klmallocBigLevel + 1) 0 h).klmallocBigForward
          (Heap.skipUnlink update x (h.klmallocBigLevel + 1) 0 h).klmallocBigLevel } := by
    have follow : h.skipFollow x (h.heapEnd / 0x1000 + 1) (h.forward (update 0) 0) = some x := by
      rw [Heap.skipFollow, (listed 0 (Nat.zero_le 6)).mpr member, if_pos rfl]
    simp only [Heap.klmallocSkipListDelete, found, Option.bind_some, follow, Option.map_some]
  generalize Heap.skipUnlink update x (h.klmallocBigLevel + 1) 0 h = unlinked at *
  have size : ∀ y, y % 0x1000 = 0 → unlinked.sizeOf y = h.sizeOf y := by
    intro y pageY
    refine frame.word (by omega) (fun z => wf.bigPage) fun z isNode => ?_
    have pageZ := wf.bigPage isNode
    omega
  have erased : SkipList unlinked.skipNext 6 h.klmallocBigLevel (L.takeBlock x).level := by
    refine ok.list.erase closed first ?_ ?_
    · intro i within inLevel
      have used : i ≤ h.klmallocBigLevel := by
        by_contra above
        rw [ok.list.empty i (by omega)] at inLevel
        contradiction
      simp only [Heap.skipNext]
      rw [words (update i) i (updatePage i) within,
        if_pos ⟨Nat.zero_le i, used, inLevel, rfl⟩]
    · intro i within p inside notBoundary
      have onPage : OnPage p := fun y isY =>
        (wf.skipPages ((ok.list.sublist_zero i).subset (inside y isY).1)).1
      simp only [Heap.skipNext]
      rw [words p i onPage within, if_neg]
      rintro ⟨-, -, inLevel, isBoundary⟩
      exact notBoundary inLevel isBoundary
  refine ⟨_, unfolded, ⟨?_, ?_, ?_⟩, ?_⟩
  · change SkipList unlinked.skipNext 6 _ (L.takeBlock x).level
    rw [frame.bigLevel]
    refine erased.lower (trimLevel_le _ _) ?_
    intro i above
    rcases Nat.lt_or_ge h.klmallocBigLevel i with unused | within
    · exact erased.empty i unused
    · have noNext : unlinked.forward none i = 0 := trimLevel_empty _ above within
      have path := erased.path i (by omega)
      cases level : (L.takeBlock x).level i with
      | nil => rfl
      | cons y tail =>
          rw [level] at path
          have next := path.1
          simp only [Heap.skipNext, noNext, nodeAt_zero] at next
          contradiction
  · intro y inList
    exact ok.bin y ((mem_takeBlock ok.list.nodup).mp inList).2
  · refine (ok.sorted.sublist List.erase_sublist).imp_of_mem ?_
    intro y z inY inZ le
    have pageY := (wf.skipPages ((mem_takeBlock ok.list.nodup).mp inY).2).1
    have pageZ := (wf.skipPages ((mem_takeBlock ok.list.nodup).mp inZ).2).1
    have sizes : unlinked.sizeOf y ≤ unlinked.sizeOf z := by
      rw [size y pageY, size z pageZ]
      exact le
    exact sizes
  · exact ⟨frame.heapEnd, frame.placement, frame.binHead, frame.newest, rfl, frame.bytes⟩

/-- The big-block half of `klmalloc` when some free block is large enough. -/
theorem WellFormed.takeBlock (wf : WellFormed h base L) {size x : Nat} {rest : List Nat}
    (first : (L.level 0).filter (fun y => !decide (h.sizeOf y < size)) = x :: rest) :
    ∃ h', h.klmallocBig size = some (x + 48, h') ∧ WellFormed h' base (L.takeBlock x) ∧
      h'.heapEnd = h.heapEnd ∧ h'.placementPointer = h.placementPointer ∧
      h.mem.AgreeOn (fun a => ∀ y, L.IsBig y → a < y + 4 ∨ y + 48 ≤ a) h'.mem := by
  have inFilter : x ∈ (L.level 0).filter fun y => !decide (h.sizeOf y < size) := by simp [first]
  obtain ⟨member, large⟩ := List.mem_filter.mp inFilter
  obtain ⟨page, positive, -⟩ := wf.skipPages member
  simp only [Bool.not_eq_true', decide_eq_false_iff_not, Nat.not_lt] at large
  -- Blocks before the best fit are smaller than it, blocks after it are not.
  have firstOfSize :
      ∃ rest', (L.level 0).filter (fun y => !decide (h.sizeOf y < h.sizeOf x)) = x :: rest' := by
    have split := (wf.skip.prefixClosed size).filter_append_filter
    rw [first] at split
    have noneBefore : ((L.level 0).filter fun y => decide (h.sizeOf y < size)).filter
        (fun y => !decide (h.sizeOf y < h.sizeOf x)) = [] := by
      rw [List.filter_eq_nil_iff]
      intro y inPrefix
      have smaller := (List.mem_filter.mp inPrefix).2
      simp only [decide_eq_true_eq] at smaller
      simp only [Bool.not_eq_true', decide_eq_false_iff_not, not_not]
      omega
    refine ⟨rest.filter fun y => !decide (h.sizeOf y < h.sizeOf x), ?_⟩
    rw [← split, List.filter_append, noneBefore, List.nil_append,
      List.filter_cons_of_pos (by simp)]
  obtain ⟨rest', firstOfSize⟩ := firstOfSize
  obtain ⟨deleted, removed, skip, frame⟩ := skipListDelete_spec wf firstOfSize
  obtain ⟨n, isBin⟩ := wf.skip.bin x member
  obtain ⟨-, -, freeHead, -⟩ := wf.bin x _ isBin
  obtain ⟨headEq, linkEq⟩ := freeHead member
  have headerWord : ∀ y, y % 0x1000 = 0 → ∀ o, o % 4 = 0 → o < 20 ∨ o = 48 →
      deleted.mem.read32 (y + o) = h.mem.read32 (y + o) := by
    intro y pageY o alignedO low
    refine frame.word (by omega) (fun z => wf.bigPage) fun z isBig => ?_
    have pageZ := wf.bigPage isBig
    omega
  have headDeleted : deleted.headOf x = x + 48 :=
    (headerWord x page 4 (by omega) (by omega)).trans headEq
  have linkDeleted : deleted.mem.read32 (x + 48) = 0 :=
    (headerWord x page 48 (by omega) (by omega)).trans linkEq
  have unfolded : h.klmallocBig size = some (x + 48, deleted.store (x + 4) 0) := by
    have next : h.forward (boundary (fun y => decide (h.sizeOf y < size)) (L.level 0)) 0 = x := by
      have head := wf.skip.next_boundary size (Nat.zero_le 6)
      rw [first, List.head?_cons] at head
      exact (nodeAt_eq_some_iff.mp head).1
    simp only [Heap.klmallocBig, Heap.klmallocSkipListFindbest,
      wf.skip.search size wf.skipLength, Option.map_some, Option.bind_some, next,
      if_pos (by omega : x ≠ 0), removed, Heap.klmallocStackPop, headDeleted, linkDeleted]
  have nodup := wf.skip.list.nodup
  refine ⟨_, unfolded, ?_, frame.heapEnd, frame.placement, ?_⟩
  · have popWord : ∀ a, a % 4 = 0 → a ≠ x + 4 →
        (deleted.store (x + 4) 0).mem.read32 a = deleted.mem.read32 a :=
      fun a aligned different => read32_write32_ne _ _ (by omega) aligned different
    refine wf.relist rfl rfl rfl frame.heapEnd frame.placement frame.binHead frame.newest
      ?_ ?_ ?_
    · intro a aligned outside
      have outsideX := outside x ⟨n, isBin⟩
      refine (popWord a aligned (by omega)).trans
        (frame.word aligned (fun z => wf.bigPage) fun y isBig => ?_)
      have outsideY := outside y isBig
      omega
    · intro y m isBinY
      have pageY := wf.page isBinY
      obtain ⟨magic, size, freeHeadY, takenHeadY⟩ := wf.bin y _ isBinY
      have word : ∀ o, o % 4 = 0 → o < 20 ∨ o = 48 → y + o ≠ x + 4 →
          (deleted.store (x + 4) 0).mem.read32 (y + o) = h.mem.read32 (y + o) :=
        fun o aligned low different =>
          (popWord _ (by omega) different).trans (headerWord y pageY o aligned low)
      refine ⟨(word 12 (by omega) (by omega) (by omega)).trans magic, ?_, ?_, ?_⟩
      · rw [show (deleted.store (x + 4) 0).sizeOf y = h.sizeOf y from
          word 8 (by omega) (by omega) (by omega)]
        exact size
      · intro inList
        obtain ⟨different, inOld⟩ := (mem_takeBlock nodup).mp inList
        rw [show (deleted.store (x + 4) 0).headOf y = h.headOf y from
            word 4 (by omega) (by omega) (by omega),
          word 48 (by omega) (by omega) (by omega)]
        exact freeHeadY inOld
      · intro absent
        by_cases same : y = x
        · rw [same]
          exact read32_write32_small _ _ (by decide)
        · rw [show (deleted.store (x + 4) 0).headOf y = h.headOf y from
            word 4 (by omega) (by omega) (by omega)]
          exact takenHeadY fun inOld => absent ((mem_takeBlock nodup).mpr ⟨same, inOld⟩)
    · refine skip.congr rfl rfl rfl (fun _ _ => rfl) ?_ ?_
      · intro y inList
        have pageY := (wf.skipPages ((mem_takeBlock nodup).mp inList).2).1
        exact popWord _ (by omega) (by omega)
      · intro y inList i low
        have pageY := (wf.skipPages ((mem_takeBlock nodup).mp inList).2).1
        exact popWord _ (by omega) (by omega)
  · intro a outside
    have outsideX := outside x ⟨n, isBin⟩
    refine (Memory.write32_outside _ _ (by omega)).trans (frame.bytes a fun y isBig => ?_)
    have outsideY := outside y isBig
    omega

/-- The big-block half of `klmalloc` when no free block is large enough. -/
theorem WellFormed.klmallocBig_grow (wf : WellFormed h base L) {size : Nat}
    (noFit : (L.level 0).filter (fun y => !decide (h.sizeOf y < size)) = []) :
    h.klmallocBig size = some (h.newBigBin size) := by
  have next : h.forward (boundary (fun y => decide (h.sizeOf y < size)) (L.level 0)) 0 = 0 := by
    have head := wf.skip.next_boundary size (Nat.zero_le 6)
    rw [noFit, List.head?_nil] at head
    exact nodeAt_eq_none_iff.mp head
  simp only [Heap.klmallocBig, Heap.klmallocSkipListFindbest, wf.skip.search size wf.skipLength,
    Option.map_some, Option.bind_some, next, ne_eq, not_true_eq_false, if_false]

/-- The search finds the first free block that is large enough. -/
theorem WellFormed.findbest (wf : WellFormed h base L) (size : Nat) :
    ∃ x, h.klmallocSkipListFindbest size = some x ∧
      nodeAt x = ((L.level 0).filter fun y => !decide (h.sizeOf y < size)).head? := by
  refine ⟨_, ?_, wf.skip.next_boundary size (Nat.zero_le 6)⟩
  simp only [Heap.klmallocSkipListFindbest, wf.skip.search size wf.skipLength, Option.map_some]

end Balloon.Allocator
