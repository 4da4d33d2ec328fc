import Balloon.Allocator.Resize
import Mathlib.Tactic.SplitIfs

/-!
Owns the allocator as a plan: which pages are bins, which cells of each small bin are free,
which bins each bucket offers and which big blocks are free, smallest first. A plan has no
memory, no skip-list levels and no random numbers. `klmalloc` and `klfree` follow it
address for address, and a plan tells where the slots are.
-/

namespace Balloon.Allocator

open Balloon.Foundation
open Balloon.Libc

structure Plan where
  heapEnd : Nat
  bins : Nat → Option Bin
  cells : Nat → List Nat
  chain : Nat → List Nat
  blocks : List Nat

namespace Plan

/-- What a block from the bin at `x` has room for. -/
def room (P : Plan) (x : Nat) : Nat :=
  match P.bins x with
  | some (.small b) => 2 ^ (b + 2)
  | some (.big n) => 0x1000 * n - 48
  | none => 0

/-- The top cell of the first bin of a bucket. A bin without cells left is not offered. -/
def takeCell (P : Plan) (b : Nat) : Nat × Plan :=
  match P.chain b with
  | [] => (0, P)
  | x :: rest =>
      match P.cells x with
      | [] => (0, P)
      | c :: cs =>
          (c, { P with
                cells := Function.update P.cells x cs
                chain := if cs = [] then Function.update P.chain b rest else P.chain })

def addBin (P : Plan) (b : Nat) : Plan :=
  { P with
    heapEnd := P.heapEnd + 0x1000
    bins := Function.update P.bins P.heapEnd (some (.small b))
    cells := Function.update P.cells P.heapEnd (cellsOf P.heapEnd b)
    chain := Function.update P.chain b [P.heapEnd] }

def mallocSmall (P : Plan) (b : Nat) : Nat × Plan :=
  (if P.chain b = [] then P.addBin b else P).takeCell b

/-- The smallest free block with room, or a new one at the end of the heap. -/
def mallocBig (P : Plan) (size : Nat) : Nat × Plan :=
  match P.blocks.find? fun x => size ≤ P.room x with
  | some x => (x + 48, { P with blocks := P.blocks.erase x })
  | none =>
      (P.heapEnd + 48,
        { P with
          heapEnd := P.heapEnd + 0x1000 * bigPages size
          bins := Function.update P.bins P.heapEnd (some (.big (bigPages size))) })

def malloc (P : Plan) (size : Nat) : Nat × Plan :=
  if size = 0 then (0, P)
  else if klmallocBinSize size < 10 then P.mallocSmall (klmallocBinSize size)
  else P.mallocBig size

/-- The block at `ptr` goes on top of the cells of its bin, or in front of the free blocks
that are as large. -/
def free (P : Plan) (ptr : Nat) : Plan :=
  let x := Heap.headerOf ptr
  match P.bins x with
  | some (.small b) =>
      { P with
        cells := Function.update P.cells x (ptr :: P.cells x)
        chain := if P.cells x = [] then Function.update P.chain b (x :: P.chain b) else P.chain }
  | some (.big _) =>
      { P with
        blocks := P.blocks.filter (fun y => decide (P.room y < P.room x)) ++
          x :: P.blocks.filter fun y => !decide (P.room y < P.room x) }
  | none => P

/-! ### Bins with free cells -/

/-- A bin with a free cell is on the list of its bucket. -/
def Offers (P : Plan) : Prop :=
  ∀ x b, P.bins x = some (.small b) → P.cells x ≠ [] → x ∈ P.chain b

variable {P : Plan}

theorem Offers.takeCell (offers : P.Offers) (b : Nat) : (P.takeCell b).2.Offers := by
  unfold Plan.takeCell
  split
  · exact offers
  · next x rest chain =>
      split
      · exact offers
      · next c cs cells =>
          intro y b' isBin nonempty
          dsimp only at isBin nonempty ⊢
          by_cases same : y = x
          · subst same
            rw [Function.update_self] at nonempty
            rw [if_neg nonempty]
            exact offers y b' isBin (by rw [cells]; exact List.cons_ne_nil c cs)
          · rw [Function.update_of_ne same] at nonempty
            have listed := offers y b' isBin nonempty
            split
            · by_cases ofBucket : b' = b
              · subst ofBucket
                rw [chain] at listed
                rw [Function.update_self]
                exact (List.mem_cons.mp listed).resolve_left same
              · rwa [Function.update_of_ne ofBucket]
            · exact listed

theorem Offers.addBin (offers : P.Offers) {b : Nat} (noBin : P.chain b = []) :
    (P.addBin b).Offers := by
  intro y b' isBin nonempty
  simp only [Plan.addBin] at isBin nonempty ⊢
  by_cases isNew : y = P.heapEnd
  · subst isNew
    simp only [Function.update_self, Option.some.injEq, Bin.small.injEq] at isBin
    subst isBin
    rw [Function.update_self]
    exact List.mem_singleton_self _
  · rw [Function.update_of_ne isNew] at isBin nonempty
    have listed := offers y b' isBin nonempty
    by_cases ofBucket : b' = b
    · subst ofBucket
      rw [noBin] at listed
      cases listed
    · rwa [Function.update_of_ne ofBucket]

theorem Offers.malloc (offers : P.Offers) (size : Nat) : (P.malloc size).2.Offers := by
  unfold Plan.malloc
  split_ifs
  · exact offers
  · unfold Plan.mallocSmall
    split_ifs with noBin
    · exact (offers.addBin noBin).takeCell _
    · exact offers.takeCell _
  · unfold Plan.mallocBig
    split
    · exact offers
    · intro y b isBin nonempty
      by_cases isNew : y = P.heapEnd
      · subst isNew
        simp only [Function.update_self] at isBin
        cases isBin
      · simp only [Function.update_of_ne isNew] at isBin
        exact offers y b isBin nonempty

theorem Offers.free (offers : P.Offers) (ptr : Nat) : (P.free ptr).Offers := by
  unfold Plan.free
  dsimp only
  split
  · next b isBin =>
      intro y b' isBinY nonempty
      dsimp only at isBinY nonempty ⊢
      by_cases same : y = Heap.headerOf ptr
      · subst same
        obtain rfl : b = b' := by simpa using isBin.symm.trans isBinY
        split_ifs with full
        · rw [Function.update_self]
          exact List.mem_cons_self
        · exact offers _ b isBin full
      · rw [Function.update_of_ne same] at nonempty
        have listed := offers y b' isBinY nonempty
        split_ifs
        · by_cases ofBucket : b' = b
          · subst ofBucket
            rw [Function.update_self]
            exact List.mem_cons_of_mem _ listed
          · rwa [Function.update_of_ne ofBucket]
        · exact listed
  · exact offers
  · exact offers

end Plan

/-- The plan that a heap spells out. -/
def planOf (h : Heap) (L : Layout) : Plan := ⟨h.heapEnd, L.bins, L.free, L.chain, L.level 0⟩

/-- Every page between `base` and `limit` belongs to a bin. -/
def Layout.Tiled (L : Layout) (base limit : Nat) : Prop :=
  ∀ a, base ≤ a → a < limit → ∃ x k, L.bins x = some k ∧ x ≤ a ∧ a < x + 0x1000 * k.pages

/-- `klmalloc` moved the heap on by one slot, the one it returned, and followed the plan. -/
structure Granted (h : Heap) (base : Nat) (L : Layout) (size p : Nat) (h' : Heap)
    (L' : Layout) : Prop where
  extends' : Extends h base L h' L'
  slot : ∃ hi, L'.Slot p hi ∧ p + size ≤ hi
  fresh : ∀ hi, ¬ L.Slot p hi
  only : ∀ lo hi, L'.Slot lo hi → L.Slot lo hi ∨ lo = p
  planned : (p, planOf h' L') = (planOf h L).malloc size
  tiled : L.Tiled base h.heapEnd → L'.Tiled base h'.heapEnd
  big : klmallocBinSize size = 10 → p % 0x1000 = 48

/-- `klfree` took back one slot and followed the plan. -/
structure Released (h : Heap) (base : Nat) (L : Layout) (lo ptr : Nat) (h' : Heap)
    (L' : Layout) : Prop where
  wf : WellFormed h' base L'
  slots : ∀ lo' hi', L'.Slot lo' hi' ↔ L.Slot lo' hi' ∧ lo' ≠ lo
  planned : planOf h' L' = (planOf h L).free ptr
  bins : L'.bins = L.bins
  heapEnd : h'.heapEnd = h.heapEnd
  placement : h'.placementPointer = h.placementPointer
  bytes : ∀ a, (a < base ∨ ∃ lo' hi', L.Slot lo' hi' ∧ lo' ≠ lo ∧ lo' ≤ a ∧ a < hi') →
    h'.mem a = h.mem a

variable {h : Heap} {base : Nat} {L : Layout}

/-! ### The slots of a changed layout -/

theorem slot_of_takeCell {b x c : Nat} {cs : List Nat} (free : L.free x = c :: cs) {lo hi : Nat}
    (slot : (L.takeCell b x cs).Slot lo hi) : L.Slot lo hi ∨ lo = c := by
  obtain ⟨y, k, isBin, inBin⟩ := slot
  cases k with
  | big n => exact Or.inl ⟨y, _, isBin, inBin⟩
  | small b' =>
      obtain ⟨isCell, taken, rfl⟩ := inBin
      by_cases same : y = x
      · subst same
        rw [takeCell_free_self] at taken
        by_cases atC : lo = c
        · exact Or.inr atC
        · refine Or.inl ⟨y, _, isBin, isCell, ?_, rfl⟩
          rw [free]
          exact List.not_mem_cons_of_ne_of_not_mem atC taken
      · rw [takeCell_free_of_ne b cs same] at taken
        exact Or.inl ⟨y, _, isBin, isCell, taken, rfl⟩

/-- All cells of a new bin are free. -/
theorem slot_of_addBin {x b lo hi : Nat} (slot : (L.addBin x b).Slot lo hi) : L.Slot lo hi := by
  obtain ⟨y, k, isBin, inBin⟩ := slot
  by_cases same : y = x
  · subst same
    simp only [Layout.addBin, Function.update_self, Option.some.injEq] at isBin
    subst isBin
    obtain ⟨isCell, taken, -⟩ := inBin
    simp only [Layout.addBin, Function.update_self] at taken
    exact absurd (mem_cellsOf.mpr isCell) taken
  · simp only [Layout.addBin, Function.update_of_ne same] at isBin
    refine ⟨y, k, isBin, ?_⟩
    cases k with
    | big n => exact inBin
    | small b' =>
        simpa only [Layout.InBin, Layout.addBin, Function.update_of_ne same] using inBin

theorem slot_of_addBig {x n lo hi : Nat} (slot : (L.addBig x n).Slot lo hi) :
    L.Slot lo hi ∨ lo = x + 48 := by
  obtain ⟨y, k, isBin, inBin⟩ := slot
  by_cases same : y = x
  · subst same
    simp only [Layout.addBig, Function.update_self, Option.some.injEq] at isBin
    subst isBin
    exact Or.inr inBin.2.1
  · simp only [Layout.addBig, Function.update_of_ne same] at isBin
    refine Or.inl ⟨y, k, isBin, ?_⟩
    cases k <;> exact inBin

theorem slot_of_takeBlock (nodup : (L.level 0).Nodup) {x lo hi : Nat}
    (slot : (L.takeBlock x).Slot lo hi) : L.Slot lo hi ∨ lo = x + 48 := by
  obtain ⟨y, k, isBin, inBin⟩ := slot
  cases k with
  | small b => exact Or.inl ⟨y, _, isBin, inBin⟩
  | big n =>
      obtain ⟨taken, rfl, rfl⟩ := inBin
      by_cases same : y = x
      · exact Or.inr (by rw [same])
      · refine Or.inl ⟨y, _, isBin, ?_, rfl, rfl⟩
        exact fun inList => taken ((mem_takeBlock nodup).mpr ⟨same, inList⟩)

/-- The pages of two bins are different. -/
theorem WellFormed.same_page (wf : WellFormed h base L) {x y : Nat} {k l : Bin} (lo : Nat)
    (isBinX : L.bins x = some k) (isBinY : L.bins y = some l) (inX : x ≤ lo ∧ lo < x + 0x1000)
    (inY : y ≤ lo ∧ lo < y + 0x1000) : x = y := by
  have pageX := wf.page isBinX
  have pageY := wf.page isBinY
  omega

theorem WellFormed.slot_of_returnCell (wf : WellFormed h base L) {b x c lo hi : Nat}
    (isBinX : L.bins x = some (.small b)) (isCellC : IsCell x b c)
    (slot : (L.returnCell b x c).Slot lo hi) : L.Slot lo hi ∧ lo ≠ c := by
  have boundsC := isCellC.bounds
  have width := four_le_two_pow b
  obtain ⟨y, k, isBin, inBin⟩ := slot
  cases k with
  | big n =>
      have old : L.Slot lo hi := ⟨y, _, isBin, inBin⟩
      refine ⟨old, ?_⟩
      rintro rfl
      obtain ⟨-, rfl, -⟩ := inBin
      have same := wf.same_page (y + 48) isBinX isBin ⟨by omega, by omega⟩ ⟨by omega, by omega⟩
      subst same
      cases isBinX.symm.trans isBin
  | small b' =>
      obtain ⟨isCell, taken, rfl⟩ := inBin
      have bounds := isCell.bounds
      have width' := four_le_two_pow b'
      by_cases same : y = x
      · subst same
        rw [returnCell_free_self] at taken
        have apart := List.ne_of_not_mem_cons taken
        exact ⟨⟨y, _, isBin, isCell, List.not_mem_of_not_mem_cons taken, rfl⟩, apart⟩
      · rw [returnCell_free_of_ne b c same] at taken
        refine ⟨⟨y, _, isBin, isCell, taken, rfl⟩, ?_⟩
        rintro rfl
        exact same (wf.same_page lo isBin isBinX ⟨by omega, by omega⟩ ⟨by omega, by omega⟩)

theorem WellFormed.slot_of_returnBlock (wf : WellFormed h base L) {before : Nat → Bool}
    {x n level lo hi : Nat} (isBinX : L.bins x = some (.big n))
    (slot : (L.returnBlock before x level).Slot lo hi) : L.Slot lo hi ∧ lo ≠ x + 48 := by
  have pagesX := (wf.placed.range x _ isBinX).2.1
  rw [Bin.pages_big] at pagesX
  obtain ⟨y, k, isBin, inBin⟩ := slot
  cases k with
  | small b =>
      refine ⟨⟨y, _, isBin, inBin⟩, ?_⟩
      rintro rfl
      have bounds := inBin.1.bounds
      have width := four_le_two_pow b
      have same := wf.same_page (x + 48) isBinX isBin ⟨by omega, by omega⟩ ⟨by omega, by omega⟩
      subst same
      cases isBinX.symm.trans isBin
  | big m =>
      obtain ⟨taken, rfl, rfl⟩ := inBin
      rw [mem_returnBlock, not_or] at taken
      exact ⟨⟨y, _, isBin, taken.2, rfl, rfl⟩, by omega⟩

/-! ### The pages of a grown layout -/

/-- A bin at the end of the heap covers the pages the heap grew by. -/
theorem Layout.Tiled.grow {L' : Layout} {limit : Nat} {k : Bin} (tiled : L.Tiled base limit)
    (bins : L'.bins = Function.update L.bins limit (some k)) (fresh : L.bins limit = none) :
    L'.Tiled base (limit + 0x1000 * k.pages) := by
  intro a low high
  rcases Nat.lt_or_ge a limit with inOld | inNew
  · obtain ⟨x, l, isBin, within⟩ := tiled a low inOld
    have different : x ≠ limit := by
      rintro rfl
      cases fresh.symm.trans isBin
    exact ⟨x, l, by rw [bins, Function.update_of_ne different, isBin], within⟩
  · exact ⟨limit, k, by rw [bins, Function.update_self], inNew, high⟩

/-! ### `klmalloc` follows the plan -/

/-- A bucket whose list has a first bin serves that bin's top cell. -/
theorem WellFormed.klmallocSmall_first (wf : WellFormed h base L) {b x : Nat} {tail : List Nat}
    (bucket : b < 10) (chain : L.chain b = x :: tail) :
    ∃ c cs h', L.free x = c :: cs ∧ h.klmallocSmall b = (c, h') ∧ h'.heapEnd = h.heapEnd ∧
      Extends h base L h' (L.takeCell b x cs) ∧ (L.takeCell b x cs).Slot c (c + 2 ^ (b + 2)) ∧
      (∀ hi, ¬ L.Slot c hi) ∧
      (c, planOf h' (L.takeCell b x cs)) = (planOf h L).takeCell b := by
  obtain ⟨isBin, nonempty⟩ := (wf.chain b bucket).bin x (by simp [chain])
  obtain ⟨c, cs, free⟩ := List.exists_cons_of_ne_nil nonempty
  obtain ⟨h', served, extends'⟩ := wf.takeCell_extends bucket (by simp [chain]) free
  obtain ⟨h'', served', -, heapEnd, -⟩ := wf.takeCell bucket (by simp [chain]) free
  obtain rfl : h'' = h' := (Prod.mk.inj (served'.symm.trans served)).2
  obtain ⟨-, -, -, -, nodup, cell⟩ := wf.bin x _ isBin
  rw [free] at nodup cell
  have width := four_le_two_pow b
  refine ⟨c, cs, h'', free, served, heapEnd, extends',
    ⟨x, .small b, isBin, cell c (by simp), ?_, rfl⟩, ?_, ?_⟩
  · rw [takeCell_free_self]
    exact (List.nodup_cons.mp nodup).1
  · intro hi slot
    have apart := wf.slot_freeCell slot isBin (show c ∈ L.free x by simp [free])
    have proper := (wf.slot_range slot).2.1
    omega
  · simp only [Plan.takeCell, planOf, chain, free, Layout.takeCell, heapEnd, List.tail_cons]

theorem WellFormed.klmallocSmall_plan (wf : WellFormed h base L) {b : Nat} (bucket : b < 10)
    (fits : h.klmallocBinHead b ≠ 0 ∨ h.heapEnd + 0x1000 ≤ kheapEnd) :
    ∃ c h' L', h.klmallocSmall b = (c, h') ∧ Extends h base L h' L' ∧
      L'.Slot c (c + 2 ^ (b + 2)) ∧ (∀ hi, ¬ L.Slot c hi) ∧
      (∀ lo hi, L'.Slot lo hi → L.Slot lo hi ∨ lo = c) ∧
      (c, planOf h' L') = (planOf h L).mallocSmall b ∧
      (L.Tiled base h.heapEnd → L'.Tiled base h'.heapEnd) := by
  have anchor := wf.chainHead bucket
  cases chain : L.chain b with
  | cons x tail =>
      obtain ⟨c, cs, h', free, served, heapEnd, extends', slot, fresh, planned⟩ :=
        wf.klmallocSmall_first bucket chain
      refine ⟨c, h', _, served, extends', slot, fresh, fun lo hi => slot_of_takeCell free, ?_, ?_⟩
      · rw [planned]
        simp only [Plan.mallocSmall, planOf, chain, reduceCtorEq, if_false]
      · rw [heapEnd]
        exact id
  | nil =>
      rw [chain, List.head?_nil, nodeAt_eq_none_iff] at anchor
      have room := fits.resolve_left (not_not.mpr anchor)
      obtain ⟨grown, returned, extends'⟩ := wf.newBin_extends bucket chain room
      obtain ⟨grown', returned', -, heapEnd, -⟩ := wf.newBin bucket chain room
      obtain rfl : grown' = grown := (Prod.mk.inj (returned'.symm.trans returned)).2
      have chain' : (L.addBin h.heapEnd b).chain b = [h.heapEnd] := Function.update_self _ _ _
      obtain ⟨c, cs, h', free, served, heapEnd', extends'', slot, fresh, planned⟩ :=
        extends'.wf.klmallocSmall_first bucket chain'
      have anchor' := extends'.wf.chainHead bucket
      rw [chain', List.head?_cons, nodeAt_eq_some_iff] at anchor'
      have nonzero : ¬ h.heapEnd = 0 := by omega
      refine ⟨c, h', _, ?_, extends'.trans extends'', slot,
        fun hi old => fresh hi (extends'.slots c hi old), ?_, ?_, ?_⟩
      · rw [← served]
        simp only [Heap.klmallocSmall, anchor, if_true, returned, anchor'.1, if_neg nonzero]
      · intro lo hi slot'
        rcases slot_of_takeCell free slot' with old | atC
        · exact Or.inl (slot_of_addBin old)
        · exact Or.inr atC
      · rw [planned]
        simp only [Plan.mallocSmall, planOf, chain, if_true, Plan.addBin, Layout.addBin, heapEnd]
      · intro tiled
        rw [heapEnd', heapEnd]
        exact tiled.grow (k := .small b) rfl wf.bins_heapEnd

theorem WellFormed.room_listed (wf : WellFormed h base L) {x : Nat} (listed : x ∈ L.level 0) :
    (planOf h L).room x = h.sizeOf x := by
  obtain ⟨n, isBin⟩ := wf.skip.bin x listed
  obtain ⟨-, size, -⟩ := wf.bin x _ isBin
  simp only [Plan.room, planOf, isBin]
  omega

/-- The plan's choice of a free block is the one the skip list finds. -/
theorem WellFormed.find_listed (wf : WellFormed h base L) (size : Nat) :
    ((planOf h L).blocks.find? fun x => decide (size ≤ (planOf h L).room x)) =
      ((L.level 0).filter fun y => !decide (h.sizeOf y < size)).head? := by
  rw [← List.head?_filter]
  refine congrArg List.head? (List.filter_congr fun x listed => ?_)
  rw [wf.room_listed listed, Bool.eq_iff_iff]
  simp

theorem WellFormed.klmallocBig_plan (wf : WellFormed h base L) {size : Nat}
    (room : (∃ x, FreeBlock h x ∧ size ≤ h.sizeOf x) ∨
      h.heapEnd + 0x1000 * bigPages size ≤ kheapEnd) :
    ∃ x n h' L', h.klmallocBig size = some (x + 48, h') ∧ Extends h base L h' L' ∧
      L'.Slot (x + 48) (x + 0x1000 * n) ∧ (∀ hi, ¬ L.Slot (x + 48) hi) ∧
      size + 48 ≤ 0x1000 * n ∧ (∀ lo hi, L'.Slot lo hi → L.Slot lo hi ∨ lo = x + 48) ∧
      (x + 48, planOf h' L') = (planOf h L).mallocBig size ∧
      (L.Tiled base h.heapEnd → L'.Tiled base h'.heapEnd) ∧ (x + 48) % 0x1000 = 48 := by
  obtain ⟨x, n, h', L', served, extends', isBin, taken, large, -, place⟩ := wf.klmallocBig room
  have choice := wf.find_listed size
  have page := extends'.wf.page isBin
  refine ⟨x, n, h', L', served, extends', ⟨x, .big n, isBin, taken, rfl, rfl⟩, ?_, large, ?_, ?_,
    ?_, by omega⟩
  · intro hi slot
    refine wf.slot_ne_next slot ?_ rfl
    rcases place with ⟨free, -⟩ | ⟨atEnd, -⟩
    · exact Or.inl free
    · exact Or.inr atEnd
  · intro lo hi slot
    rcases place with ⟨-, rfl, -⟩ | ⟨-, -, rfl, -⟩
    · exact slot_of_takeBlock wf.skip.list.nodup slot
    · exact slot_of_addBig slot
  · obtain ⟨y, found, head⟩ := wf.findbest size
    obtain ⟨z, found', isPlace⟩ := wf.klmallocBig_place served
    obtain rfl := Option.some.inj (found'.symm.trans found)
    have positive := wf.heapEnd_pos
    have endLe := wf.endLe
    rw [← head] at choice
    rcases place with ⟨free, rfl, heapEnd⟩ | ⟨rfl, rfl, rfl, heapEnd⟩
    · have nonzero : z ≠ 0 := by
        rintro rfl
        obtain ⟨m, wasBin⟩ := wf.skip.bin x free
        have below := wf.below wasBin
        rw [if_pos rfl, wrap32_of_lt (by omega)] at isPlace
        omega
      rw [if_neg nonzero] at isPlace
      obtain rfl : x = z := by omega
      rw [nodeAt_pos (by omega)] at choice
      simp only [Plan.mallocBig, choice]
      simp only [planOf, Layout.takeBlock, SkipList.eraseLevels, heapEnd]
    · have zero : z = 0 := by
        by_contra nonzero
        rw [nodeAt_pos (by omega)] at choice
        rw [if_neg nonzero] at isPlace
        obtain rfl : h.heapEnd = z := by omega
        have listed := List.mem_of_find?_eq_some choice
        obtain ⟨m, wasBin⟩ := wf.skip.bin _ listed
        cases wf.bins_heapEnd.symm.trans wasBin
      rw [zero, nodeAt_zero] at choice
      simp only [Plan.mallocBig, choice]
      simp only [planOf, Layout.addBig, heapEnd]
  · intro tiled
    rcases place with ⟨-, rfl, heapEnd⟩ | ⟨rfl, rfl, rfl, heapEnd⟩
    · rw [heapEnd]
      exact tiled
    · rw [heapEnd]
      exact tiled.grow (k := .big (bigPages size)) rfl wf.bins_heapEnd

/-- A request that fits is granted as planned. -/
theorem WellFormed.klmalloc_granted (wf : WellFormed h base L) {size : Nat} (positive : 0 < size)
    (fits : h.Fits size) :
    ∃ p h' L', h.klmalloc size = some (p, h') ∧ Granted h base L size p h' L' := by
  have nonzero : ¬ size = 0 := by omega
  rcases fits with ⟨small, room⟩ | ⟨big, room⟩
  · obtain ⟨c, h', L', served, extends', slot, fresh, only, planned, tiled⟩ :=
      wf.klmallocSmall_plan small room
    have cell := le_cell positive small
    refine ⟨c, h', L', ?_, extends', ⟨_, slot, by omega⟩, fresh, only, ?_, tiled,
      fun big => by omega⟩
    · rw [Heap.klmalloc, if_neg nonzero, if_pos small, served]
    · rw [Plan.malloc, if_neg nonzero, if_pos small, planned]
  · obtain ⟨x, n, h', L', served, extends', slot, fresh, large, only, planned, tiled, onPage⟩ :=
      wf.klmallocBig_plan room
    refine ⟨x + 48, h', L', ?_, extends', ⟨_, slot, by omega⟩, fresh, only, ?_, tiled,
      fun _ => onPage⟩
    · rw [Heap.klmalloc, if_neg nonzero, if_neg (by omega), served]
    · rw [Plan.malloc, if_neg nonzero, if_neg (by omega), planned]

/-! ### `klfree` follows the plan -/

theorem headerOf_slot {x lo ptr : Nat} (page : x % 0x1000 = 0) (above : x + 16 ≤ lo)
    (below : lo < x + 0x1000) (inSlot : ptr = lo ∨ (ptr = lo + 4048 ∧ lo = x + 48)) :
    Heap.headerOf ptr = x := by
  unfold Heap.headerOf
  split <;> omega

/-- What other slots hold lies outside the slot that is taken back. -/
private theorem WellFormed.byte_other (wf : WellFormed h base L) {lo hi a : Nat}
    (own : L.Slot lo hi)
    (inside : a < base ∨ ∃ lo' hi', L.Slot lo' hi' ∧ lo' ≠ lo ∧ lo' ≤ a ∧ a < hi') :
    (a < base ∨ ∃ lo' hi', L.Slot lo' hi' ∧ lo' ≤ a ∧ a < hi') ∧ (a < lo ∨ hi ≤ a) := by
  have range := wf.slot_range own
  rcases inside with below | ⟨lo', hi', other, different, within⟩
  · exact ⟨Or.inl below, Or.inl (by omega)⟩
  · have apart := wf.slot_disjoint other own different
    exact ⟨Or.inr ⟨lo', hi', other, within⟩, by omega⟩

private theorem WellFormed.returnCell_released (wf : WellFormed h base L) {b x c : Nat}
    (isBin : L.bins x = some (.small b)) (isCell : IsCell x b c) (taken : c ∉ L.free x)
    (rand : Nat → Nat) :
    ∃ h' L', h.klfree rand c = some h' ∧ Released h base L c c h' L' := by
  have own : L.Slot c (c + 2 ^ (b + 2)) := ⟨x, _, isBin, isCell, taken, rfl⟩
  have bounds := isCell.bounds
  have width := four_le_two_pow b
  have page := wf.page isBin
  have header := headerOf_slot page bounds.1 (by omega) (Or.inl rfl : c = c ∨ _)
  obtain ⟨h', released, wf', heapEnd, placement, bytes⟩ := wf.returnCell isBin isCell taken rand
  refine ⟨h', _, released, wf', ?_, ?_, rfl, heapEnd, placement, ?_⟩
  · intro lo hi
    exact ⟨wf.slot_of_returnCell isBin isCell, fun old => slot_returnCell old.1 old.2⟩
  · simp only [Plan.free, header, planOf, isBin, Layout.returnCell, heapEnd]
  · intro a inside
    obtain ⟨kept, apart⟩ := wf.byte_other own inside
    have headerBytes := wf.byte_header kept isBin
    rw [Bin.header_small] at headerBytes
    exact bytes a ⟨headerBytes, by omega⟩

private theorem WellFormed.returnBlock_released (wf : WellFormed h base L) {x n ptr : Nat}
    (isBin : L.bins x = some (.big n)) (taken : x ∉ L.level 0)
    (inBlock : ptr = x + 48 ∨ ptr = x + 0x1000) (rand : Nat → Nat) :
    ∃ h' L', h.klfree rand ptr = some h' ∧ Released h base L (x + 48) ptr h' L' := by
  have pages := (wf.placed.range x _ isBin).2.1
  rw [Bin.pages_big] at pages
  have own : L.Slot (x + 48) (x + 0x1000 * n) := ⟨x, _, isBin, taken, rfl, rfl⟩
  have page := wf.page isBin
  have header : Heap.headerOf ptr = x :=
    headerOf_slot page (by omega : x + 16 ≤ x + 48) (by omega) (by omega)
  obtain ⟨-, size, -⟩ := wf.bin x _ isBin
  have room : (planOf h L).room x = h.sizeOf x := by
    simp only [Plan.room, planOf, isBin]
    omega
  obtain ⟨h', before, released, isBefore, wf', heapEnd, placement, bytes⟩ :=
    wf.returnBlock_layout isBin taken inBlock rand
  have order : ∀ y ∈ L.level 0,
      before y = decide ((planOf h L).room y < (planOf h L).room x) := by
    intro y listed
    rw [isBefore y (wf.skipPages listed).1, wf.room_listed listed, room]
  refine ⟨h', _, released, wf', ?_, ?_, rfl, heapEnd, placement, ?_⟩
  · intro lo hi
    refine ⟨wf.slot_of_returnBlock isBin, fun old => ?_⟩
    refine slot_relist L (L.returnBlock before x (klmallocRandomLevel rand)) rfl rfl ?_ old.1
      (Or.inl old.2)
    intro y different notListed listed
    rcases (mem_returnBlock before).mp listed with isX | isOld
    · exact different isX
    · exact notListed isOld
  · have smaller := List.filter_congr order
    have others : (L.level 0).filter (fun y => !before y) =
        (L.level 0).filter fun y => !decide ((planOf h L).room y < (planOf h L).room x) :=
      List.filter_congr fun y listed => congrArg not (order y listed)
    have listed : (L.returnBlock before x (klmallocRandomLevel rand)).level 0 =
        (L.level 0).filter before ++ x :: (L.level 0).filter fun y => !before y := by
      simp only [Layout.returnBlock, SkipList.insertLevels, Nat.zero_le, if_true]
    have bigBin : (planOf h L).bins x = some (.big n) := isBin
    simp only [Plan.free, header, bigBin]
    rw [planOf, listed, smaller, others, heapEnd]
    rfl
  · intro a inside
    obtain ⟨kept, apart⟩ := wf.byte_other own inside
    refine bytes a ⟨?_, by omega⟩
    rintro y ⟨m, isBig⟩
    have headerBytes := wf.byte_header kept isBig
    rw [Bin.header_big] at headerBytes
    omega

/-- A release is carried out as planned. -/
theorem WellFormed.klfree_released (wf : WellFormed h base L) {lo hi ptr : Nat}
    (slot : L.Slot lo hi) (inSlot : ptr = lo ∨ (ptr = lo + 4048 ∧ ptr ≤ hi)) (rand : Nat → Nat) :
    ∃ h' L', h.klfree rand ptr = some h' ∧ Released h base L lo ptr h' L' := by
  obtain ⟨x, k, isBin, inBin⟩ := slot
  cases k with
  | small b =>
      obtain ⟨isCell, taken, rfl⟩ := inBin
      obtain ⟨-, bucket, -⟩ := wf.bin x _ isBin
      have width : 2 ^ (b + 2) ≤ 2 ^ 11 := Nat.pow_le_pow_right (by decide) (by omega)
      obtain rfl : ptr = lo := by omega
      exact wf.returnCell_released isBin isCell taken rand
  | big n =>
      obtain ⟨taken, rfl, rfl⟩ := inBin
      exact wf.returnBlock_released isBin taken (by omega) rand

end Balloon.Allocator
