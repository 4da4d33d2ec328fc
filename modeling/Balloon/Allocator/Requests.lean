import Balloon.Allocator.Slots

/-!
Owns the specifications of `klmalloc` and `klfree` on well-formed heaps: which
requests the heap can serve within its limit, that serving one adds exactly one
slot and keeps all others, and that a release takes exactly one slot back.
-/

namespace Balloon.Allocator

open Balloon.Foundation
open Balloon.Libc

variable {h : Heap} {base : Nat} {L : Layout}

/-! ### Bucket sizes -/

theorem klmallocAdjustBin_le (bin : Nat) : klmallocAdjustBin bin ≤ 10 := by
  unfold klmallocAdjustBin
  split
  · omega
  · split <;> omega

theorem le_of_klmallocAdjustBin {bin : Nat} (small : klmallocAdjustBin bin < 10) :
    bin ≤ klmallocAdjustBin bin + 3 := by
  unfold klmallocAdjustBin at small ⊢
  split
  · omega
  · split
    · rename_i large huge
      simp [large, huge] at small
    · omega

theorem klmallocBinSize_le (size : Nat) : klmallocBinSize size ≤ 10 := klmallocAdjustBin_le _

/-- A request fits a cell of its bucket. -/
theorem le_cell {size : Nat} (positive : 0 < size) (small : klmallocBinSize size < 10) :
    size ≤ 2 ^ (klmallocBinSize size + 2) := by
  have bits := le_of_klmallocAdjustBin small
  change 4 * 8 - (31 - Nat.log2 size) + _ ≤ klmallocBinSize size + 3 at bits
  have upper : size < 2 ^ (Nat.log2 size + 1) := Nat.lt_log2_self
  by_cases power : size &&& (size - 1) = 0
  · obtain ⟨k, rfl⟩ := (Nat.and_sub_one_eq_zero_iff_isPowerOfTwo (by omega)).mp power
    rw [Nat.log2_two_pow] at bits
    exact Nat.pow_le_pow_right (by decide) (by omega)
  · rw [if_pos power] at bits
    exact upper.le.trans (Nat.pow_le_pow_right (by decide) (by omega))

theorem big_of_lt {size : Nat} (large : 2048 < size) : klmallocBinSize size = 10 := by
  have bound := klmallocBinSize_le size
  by_contra notBig
  have fits := le_cell (by omega) (by omega : klmallocBinSize size < 10)
  have cell : 2 ^ (klmallocBinSize size + 2) ≤ 2 ^ 11 :=
    Nat.pow_le_pow_right (by decide) (by omega)
  omega

/-! ### Requests that fit -/

/-- The blocks on level 0 of the skip list. -/
def FreeBlock (h : Heap) : Nat → Prop := Linked fun p => h.skipNext p 0

/-- A request that some available bin serves, or that the heap can grow for
without passing `KHEAP_END`. -/
def Heap.Fits (h : Heap) (size : Nat) : Prop :=
  (klmallocBinSize size < 10 ∧
    (h.klmallocBinHead (klmallocBinSize size) ≠ 0 ∨ h.heapEnd + 0x1000 ≤ kheapEnd)) ∨
  (klmallocBinSize size = 10 ∧
    ((∃ x, FreeBlock h x ∧ size ≤ h.sizeOf x) ∨
      h.heapEnd + 0x1000 * bigPages size ≤ kheapEnd))

theorem WellFormed.freeBlock_iff (wf : WellFormed h base L) {x : Nat} :
    FreeBlock h x ↔ x ∈ L.level 0 := (wf.skip.list.path 0 (Nat.zero_le 6)).mem_iff_linked.symm

/-! ### Keeping the slots -/

/-- The heap moved on without taking back any slot: its bins are still there,
and the bytes below it and in its slots are unchanged. -/
structure Extends (h : Heap) (base : Nat) (L : Layout) (h' : Heap) (L' : Layout) : Prop where
  wf : WellFormed h' base L'
  slots : ∀ lo hi, L.Slot lo hi → L'.Slot lo hi
  bins : ∀ x k, L.bins x = some k → L'.bins x = some k
  grown : h'.heapEnd ≠ h.heapEnd → ∃ k, L'.bins h.heapEnd = some k
  heapEnd : h.heapEnd ≤ h'.heapEnd
  placement : h'.placementPointer = h.placementPointer
  bytes : ∀ a, (a < base ∨ ∃ lo hi, L.Slot lo hi ∧ lo ≤ a ∧ a < hi) → h'.mem a = h.mem a

theorem Extends.trans {h₁ h₂ h₃ : Heap} {L₁ L₂ L₃ : Layout} (first : Extends h₁ base L₁ h₂ L₂)
    (second : Extends h₂ base L₂ h₃ L₃) : Extends h₁ base L₁ h₃ L₃ where
  wf := second.wf
  slots := fun lo hi slot => second.slots lo hi (first.slots lo hi slot)
  bins := fun x k isBin => second.bins x k (first.bins x k isBin)
  grown := by
    intro moved
    by_cases early : h₂.heapEnd = h₁.heapEnd
    · rw [← early] at moved ⊢
      exact second.grown moved
    · obtain ⟨k, isBin⟩ := first.grown early
      exact ⟨k, second.bins _ _ isBin⟩
  heapEnd := first.heapEnd.trans second.heapEnd
  placement := second.placement.trans first.placement
  bytes := by
    intro a inside
    refine (second.bytes a ?_).trans (first.bytes a inside)
    rcases inside with below | ⟨lo, hi, slot, within⟩
    · exact Or.inl below
    · exact Or.inr ⟨lo, hi, first.slots lo hi slot, within⟩

/-- Bytes outside all bin headers that hold client data. -/
theorem WellFormed.byte_header (wf : WellFormed h base L) {a x : Nat} {k : Bin}
    (inside : a < base ∨ ∃ lo hi, L.Slot lo hi ∧ lo ≤ a ∧ a < hi) (isBin : L.bins x = some k) :
    a < x ∨ x + k.header ≤ a := by
  rcases inside with below | ⟨lo, hi, slot, within⟩
  · have range := wf.placed.range x k isBin
    omega
  · have apart := wf.slot_header slot isBin
    omega

theorem WellFormed.byte_heapEnd (wf : WellFormed h base L) {a : Nat}
    (inside : a < base ∨ ∃ lo hi, L.Slot lo hi ∧ lo ≤ a ∧ a < hi) : a < h.heapEnd := by
  rcases inside with below | ⟨lo, hi, slot, within⟩
  · exact below.trans_le wf.baseLe
  · have range := wf.slot_range slot
    omega

theorem WellFormed.takeCell_extends (wf : WellFormed h base L) {b x c : Nat} {cs : List Nat}
    (bucket : b < 10) (first : (L.chain b).head? = some x) (free : L.free x = c :: cs) :
    ∃ h', h.klmallocSmall b = (c, h') ∧ Extends h base L h' (L.takeCell b x cs) := by
  obtain ⟨h', served, wf', heapEnd, placement, bytes⟩ := wf.takeCell bucket first free
  have isBin := ((wf.chain b bucket).bin x (List.mem_of_head? first)).1
  refine ⟨h', served, wf', fun _ _ => slot_takeCell isBin free, fun _ _ isBin' => isBin',
    fun moved => absurd heapEnd moved, heapEnd.ge, placement, ?_⟩
  intro a inside
  exact bytes a (wf.byte_header inside isBin)

theorem WellFormed.newBin_extends (wf : WellFormed h base L) {b : Nat} (bucket : b < 10)
    (noBin : L.chain b = []) (room : h.heapEnd + 0x1000 ≤ 0x02000000) :
    ∃ h', h.newBin b = (h.heapEnd, h') ∧ Extends h base L h' (L.addBin h.heapEnd b) := by
  obtain ⟨h', grown, wf', heapEnd, placement, bytes⟩ := wf.newBin bucket noBin room
  have fresh := wf.bins_heapEnd
  refine ⟨h', grown, wf', ?_, ?_, ?_, by omega, placement, ?_⟩
  · intro lo hi slot
    exact slot_grow (L.addBin h.heapEnd b) fresh
      (fun y different => Function.update_of_ne different _ _)
      (fun y different => Function.update_of_ne different _ _) rfl slot
  · intro x k isBin
    have different : x ≠ h.heapEnd := by
      rintro rfl
      simp [fresh] at isBin
    exact (Function.update_of_ne different _ _).trans isBin
  · intro _
    exact ⟨.small b, Function.update_self _ _ _⟩
  · intro a inside
    exact bytes a (wf.byte_heapEnd inside)

theorem WellFormed.newBigBin_extends (wf : WellFormed h base L) {size : Nat}
    (room : h.heapEnd + 0x1000 * bigPages size ≤ 0x02000000) :
    ∃ h', h.newBigBin size = (h.heapEnd + 48, h') ∧
      h'.heapEnd = h.heapEnd + 0x1000 * bigPages size ∧
      Extends h base L h' (L.addBig h.heapEnd (bigPages size)) := by
  obtain ⟨h', grown, wf', heapEnd, placement, bytes⟩ := wf.newBigBin room
  have fresh := wf.bins_heapEnd
  refine ⟨h', grown, heapEnd, wf', ?_, ?_, ?_, by omega, placement, ?_⟩
  · intro lo hi slot
    exact slot_grow (L.addBig h.heapEnd (bigPages size)) fresh
      (fun y different => Function.update_of_ne different _ _) (fun _ _ => rfl) rfl slot
  · intro x k isBin
    have different : x ≠ h.heapEnd := by
      rintro rfl
      simp [fresh] at isBin
    exact (Function.update_of_ne different _ _).trans isBin
  · intro _
    exact ⟨.big (bigPages size), Function.update_self _ _ _⟩
  · intro a inside
    refine bytes a (wf.byte_heapEnd inside) ?_
    intro y n isBig
    have apart := wf.byte_header inside isBig
    rw [Bin.header_big] at apart
    omega

/-- Growing the heap writes below its new end only. -/
private theorem newBigBin_above (wf : WellFormed h base L) {size a : Nat}
    (room : h.heapEnd + 0x1000 * bigPages size ≤ 0x02000000)
    (above : h.heapEnd + 0x1000 * bigPages size ≤ a) : (h.newBigBin size).2.mem a = h.mem a := by
  have positive : 0 < bigPages size := Nat.succ_pos _
  have rounded : wrap32 (size + 48) / 0x1000 + 1 = bigPages size := by
    rw [wrap32_of_lt (by unfold bigPages at room; omega), bigPages]
  have increment : wrap32 (0x1000 * bigPages size) = 0x1000 * bigPages size :=
    wrap32_of_lt (by omega)
  have newest : h.klmallocNewestBig = 0 ∨ h.klmallocNewestBig + 0x1000 ≤ h.heapEnd := by
    rcases wf.newest with zero | ⟨n, isBig⟩
    · exact Or.inl zero
    · exact Or.inr (wf.below isBig)
  simp only [Heap.newBigBin, rounded, increment, Heap.sbrk, Heap.store]
  have cleared : (memset h.mem h.heapEnd 0 (0x1000 * bigPages size)) a = h.mem a := by
    rw [memset_eq_fill h.mem 0 (by omega)]
    exact Memory.fill_outside _ _ (by omega)
  rw [Memory.write32_outside _ _ (by omega), Memory.write32_outside _ _ (by omega)]
  split <;> dsimp only
  · rw [Memory.write32_outside _ _ (by omega), Memory.write32_outside _ _ (by omega),
      Memory.write32_outside _ _ (by omega), Memory.write32_outside _ _ (by omega), cleared]
  · rw [Memory.write32_outside _ _ (by omega), Memory.write32_outside _ _ (by omega),
      Memory.write32_outside _ _ (by omega), cleared]

theorem WellFormed.takeBlock_extends (wf : WellFormed h base L) {size x : Nat} {rest : List Nat}
    (first : (L.level 0).filter (fun y => !decide (h.sizeOf y < size)) = x :: rest) :
    ∃ h', h.klmallocBig size = some (x + 48, h') ∧ h'.heapEnd = h.heapEnd ∧
      Extends h base L h' (L.takeBlock x) ∧ ∀ a, h.heapEnd ≤ a → h'.mem a = h.mem a := by
  obtain ⟨h', served, wf', heapEnd, placement, bytes⟩ := wf.takeBlock first
  have nodup := wf.skip.list.nodup
  refine ⟨h', served, heapEnd, ⟨wf', ?_, fun _ _ isBin => isBin,
    fun moved => absurd heapEnd moved, heapEnd.ge, placement, ?_⟩, ?_⟩
  · intro lo hi slot
    refine slot_relist L (L.takeBlock x) (x := x) rfl rfl ?_ slot (Or.inr ?_)
    · intro y _ taken inList
      exact taken ((mem_takeBlock nodup).mp inList).2
    · intro inList
      exact ((mem_takeBlock nodup).mp inList).1 rfl
  · intro a inside
    refine bytes a ?_
    rintro y ⟨n, isBig⟩
    have apart := wf.byte_header inside isBig
    rw [Bin.header_big] at apart
    omega
  · intro a above
    refine bytes a ?_
    rintro y ⟨n, isBig⟩
    have below := wf.below isBig
    omega

/-- Where no listed block is large enough, only growth can serve a request. -/
theorem WellFormed.growth_of_noFit (wf : WellFormed h base L) {size : Nat} {growth : Prop}
    (noFit : (L.level 0).filter (fun y => !decide (h.sizeOf y < size)) = [])
    (room : (∃ x, FreeBlock h x ∧ size ≤ h.sizeOf x) ∨ growth) : growth := by
  refine room.resolve_left ?_
  rintro ⟨x, free, large⟩
  have inFilter : x ∈ (L.level 0).filter fun y => !decide (h.sizeOf y < size) := by
    simp [wf.freeBlock_iff.mp free, large]
  rw [noFit] at inFilter
  contradiction

/-- A big request takes a free block that is large enough out of the skip list, or a new
one at `heap_end`. -/
theorem WellFormed.klmallocBig (wf : WellFormed h base L) {size : Nat}
    (room : (∃ x, FreeBlock h x ∧ size ≤ h.sizeOf x) ∨
      h.heapEnd + 0x1000 * bigPages size ≤ kheapEnd) :
    ∃ x n h' L', h.klmallocBig size = some (x + 48, h') ∧ Extends h base L h' L' ∧
      L'.bins x = some (.big n) ∧ x ∉ L'.level 0 ∧ size + 48 ≤ 0x1000 * n ∧
      (∀ a, h'.heapEnd ≤ a → h'.mem a = h.mem a) ∧
      ((x ∈ L.level 0 ∧ L' = L.takeBlock x ∧ h'.heapEnd = h.heapEnd) ∨
        (x = h.heapEnd ∧ n = bigPages size ∧ L' = L.addBig x n ∧
          h'.heapEnd = h.heapEnd + 0x1000 * n)) := by
  cases found : (L.level 0).filter fun y => !decide (h.sizeOf y < size) with
  | cons x rest =>
      obtain ⟨h', served, heapEnd, extends', above⟩ := wf.takeBlock_extends found
      have inFilter : x ∈ (L.level 0).filter fun y => !decide (h.sizeOf y < size) := by
        simp [found]
      obtain ⟨free, large⟩ := List.mem_filter.mp inFilter
      simp only [Bool.not_eq_true', decide_eq_false_iff_not, Nat.not_lt] at large
      obtain ⟨n, isBin⟩ := wf.skip.bin x free
      obtain ⟨-, sizeEq, -, -⟩ := wf.bin x _ isBin
      refine ⟨x, n, h', _, served, extends', isBin, ?_, by omega, ?_,
        Or.inl ⟨free, rfl, heapEnd⟩⟩
      · exact fun inList => ((mem_takeBlock wf.skip.list.nodup).mp inList).1 rfl
      · rw [heapEnd]
        exact above
  | nil =>
      have roomLeft := wf.growth_of_noFit found room
      obtain ⟨h', grown, heapEnd, extends'⟩ := wf.newBigBin_extends roomLeft
      refine ⟨h.heapEnd, bigPages size, h', _, (wf.klmallocBig_grow found).trans (by rw [grown]),
        extends', Function.update_self _ _ _, ?_, ?_, ?_, Or.inr ⟨rfl, rfl, rfl, heapEnd⟩⟩
      · intro inList
        obtain ⟨n, isBig⟩ := wf.skip.bin _ inList
        simp [wf.bins_heapEnd] at isBig
      · unfold bigPages
        omega
      · intro a above
        have kept := newBigBin_above wf roomLeft (heapEnd ▸ above)
        rwa [grown] at kept

/-! ### `klmalloc` -/

private theorem klmallocSmall_spec (wf : WellFormed h base L) {b : Nat} (bucket : b < 10)
    (fits : h.klmallocBinHead b ≠ 0 ∨ h.heapEnd + 0x1000 ≤ kheapEnd) :
    ∃ c h' L', h.klmallocSmall b = (c, h') ∧ Extends h base L h' L' ∧
      L'.Slot c (c + 2 ^ (b + 2)) ∧ ∀ hi, ¬ L.Slot c hi := by
  -- Once the bucket's list has a first bin, its top cell is served.
  have serve : ∀ {h : Heap} {L : Layout}, WellFormed h base L → ∀ x tail, L.chain b = x :: tail →
      ∃ c h' L', h.klmallocSmall b = (c, h') ∧ Extends h base L h' L' ∧
        L'.Slot c (c + 2 ^ (b + 2)) ∧ ∀ hi, ¬ L.Slot c hi := by
    intro h L wf x tail chain
    obtain ⟨isBin, nonempty⟩ := (wf.chain b bucket).bin x (by simp [chain])
    obtain ⟨c, cs, free⟩ := List.exists_cons_of_ne_nil nonempty
    obtain ⟨h', served, extends'⟩ := wf.takeCell_extends bucket (by simp [chain]) free
    obtain ⟨-, -, -, -, nodup, cell⟩ := wf.bin x _ isBin
    rw [free] at nodup cell
    refine ⟨c, h', _, served, extends', ⟨x, .small b, isBin, cell c (by simp), ?_, rfl⟩, ?_⟩
    · rw [takeCell_free_self]
      exact (List.nodup_cons.mp nodup).1
    · intro hi slot
      have isFree : c ∈ L.free x := by simp [free]
      have apart := wf.slot_freeCell slot isBin isFree
      have proper := (wf.slot_range slot).2.1
      have width := four_le_two_pow b
      omega
  have anchor := wf.chainHead bucket
  cases chain : L.chain b with
  | cons x tail => exact serve wf x tail chain
  | nil =>
      rw [chain, List.head?_nil, nodeAt_eq_none_iff] at anchor
      have room := fits.resolve_left (not_not.mpr anchor)
      obtain ⟨grown, returned, extends'⟩ := wf.newBin_extends bucket chain room
      have chain' : (L.addBin h.heapEnd b).chain b = [h.heapEnd] := Function.update_self _ _ _
      obtain ⟨c, h', L', served, extends'', slot, fresh⟩ := serve extends'.wf _ _ chain'
      have anchor' := extends'.wf.chainHead bucket
      rw [chain', List.head?_cons, nodeAt_eq_some_iff] at anchor'
      refine ⟨c, h', L', ?_, extends'.trans extends'', slot, fun hi old =>
        fresh hi (extends'.slots c hi old)⟩
      have nonzero : ¬ h.heapEnd = 0 := by omega
      rw [← served]
      simp only [Heap.klmallocSmall, anchor, if_true, returned, anchor'.1, if_neg nonzero]

/-- A request that fits gets a fresh slot. -/
theorem WellFormed.klmalloc (wf : WellFormed h base L) {size : Nat} (positive : 0 < size)
    (fits : h.Fits size) :
    ∃ p hi h' L', h.klmalloc size = some (p, h') ∧ Extends h base L h' L' ∧ L'.Slot p hi ∧
      (∀ hi', ¬ L.Slot p hi') ∧ p + size ≤ hi ∧ (klmallocBinSize size = 10 → p % 0x1000 = 48) := by
  have nonzero : ¬ size = 0 := by omega
  rcases fits with ⟨small, room⟩ | ⟨big, room⟩
  · obtain ⟨c, h', L', served, extends', slot, fresh⟩ := klmallocSmall_spec wf small room
    refine ⟨c, _, h', L', ?_, extends', slot, fresh, ?_, fun big => by omega⟩
    · rw [Heap.klmalloc, if_neg nonzero, if_pos small, served]
    · have cell := le_cell positive small
      omega
  · obtain ⟨x, n, h', L', served, extends', isBin, taken, large, -, place⟩ := wf.klmallocBig room
    have page := extends'.wf.page isBin
    refine ⟨x + 48, x + 0x1000 * n, h', L', ?_, extends', ⟨x, .big n, isBin, taken, rfl, rfl⟩, ?_,
      by omega, fun _ => by omega⟩
    · rw [Heap.klmalloc, if_neg nonzero, if_neg (by omega), served]
    · intro hi slot
      rcases place with ⟨free, -⟩ | ⟨atEnd, -⟩
      · obtain ⟨m, wasBin⟩ := wf.skip.bin x free
        have pages : 0 < m := (wf.placed.range x _ wasBin).2.1
        have apart := wf.slot_freeBlock slot wasBin free
        have proper := (wf.slot_range slot).2.1
        omega
      · have range := wf.slot_range slot
        omega

/-! ### `klfree` -/

/-- Releasing the block of one slot takes that slot back and no other. -/
theorem WellFormed.klfree (wf : WellFormed h base L) {lo hi ptr : Nat} (slot : L.Slot lo hi)
    (inSlot : ptr = lo ∨ (ptr = lo + 4048 ∧ ptr ≤ hi)) (rand : Nat → Nat) :
    ∃ h' L', h.klfree rand ptr = some h' ∧ WellFormed h' base L' ∧
      (∀ lo' hi', L.Slot lo' hi' → lo' ≠ lo → L'.Slot lo' hi') ∧ L'.bins = L.bins ∧
      h'.heapEnd = h.heapEnd ∧ h'.placementPointer = h.placementPointer ∧
      ∀ a, (a < base ∨ ∃ lo' hi', L.Slot lo' hi' ∧ lo' ≠ lo ∧ lo' ≤ a ∧ a < hi') →
        h'.mem a = h.mem a := by
  have own := slot
  obtain ⟨x, k, isBin, inBin⟩ := slot
  have outside : ∀ a, (a < base ∨ ∃ lo' hi', L.Slot lo' hi' ∧ lo' ≠ lo ∧ lo' ≤ a ∧ a < hi') →
      (a < base ∨ ∃ lo' hi', L.Slot lo' hi' ∧ lo' ≤ a ∧ a < hi') ∧ (a < lo ∨ hi ≤ a) := by
    intro a inside
    have range := wf.slot_range own
    rcases inside with below | ⟨lo', hi', other, different, within⟩
    · exact ⟨Or.inl below, Or.inl (by omega)⟩
    · have apart := wf.slot_disjoint other own different
      exact ⟨Or.inr ⟨lo', hi', other, within⟩, by omega⟩
  cases k with
  | small b =>
      obtain ⟨isCell, taken, rfl⟩ := inBin
      have bounds := isCell.bounds
      have width := four_le_two_pow b
      obtain ⟨-, bucket, -, -, -, -⟩ := wf.bin x _ isBin
      have cellLe : 2 ^ (b + 2) ≤ 2 ^ 11 := Nat.pow_le_pow_right (by decide) (by omega)
      obtain rfl : ptr = lo := by omega
      obtain ⟨h', released, wf', heapEnd, placement, bytes⟩ :=
        wf.returnCell isBin isCell taken rand
      refine ⟨h', _, released, wf', fun lo' hi' other different => slot_returnCell other different,
        rfl, heapEnd, placement, ?_⟩
      intro a inside
      obtain ⟨kept, apart⟩ := outside a inside
      have header := wf.byte_header kept isBin
      rw [Bin.header_small] at header
      exact bytes a ⟨header, by omega⟩
  | big n =>
      obtain ⟨taken, rfl, rfl⟩ := inBin
      have pages := (wf.placed.range x _ isBin).2.1
      rw [Bin.pages_big] at pages
      obtain ⟨h', L', released, wf', bins, free, level, heapEnd, placement, bytes⟩ :=
        wf.returnBlock isBin taken (show ptr = x + 48 ∨ ptr = x + 0x1000 by omega) rand
      refine ⟨h', L', released, wf', ?_, bins, heapEnd, placement, ?_⟩
      · intro lo' hi' other different
        refine slot_relist L L' (x := x) bins free ?_ other (Or.inl different)
        intro y notX takenY inList
        rcases (level y).mp inList with isX | inOld
        · exact notX isX
        · exact takenY inOld
      · intro a inside
        obtain ⟨kept, apart⟩ := outside a inside
        refine bytes a ⟨?_, by omega⟩
        rintro y ⟨m, isBig⟩
        have header := wf.byte_header kept isBig
        rw [Bin.header_big] at header
        omega

/-! ### `kmalloc_raw` -/

/-- The bytes `klmalloc` is asked for, before any wrap-around. -/
def need (size : Nat) (align : Bool) : Nat := if align then size + (0x1000 - 48) else size

theorem WellFormed.heapEnd_pos (wf : WellFormed h base L) : 0 < h.heapEnd := by
  have placement := wf.placementLt
  have le := wf.baseLe
  omega

theorem Heap.Fits.size_lt {size : Nat} (fits : h.Fits size) : size < 2 ^ 32 := by
  rcases fits with ⟨small, -⟩ | ⟨-, ⟨x, -, large⟩ | room⟩
  · by_contra huge
    have big := big_of_lt (show 2048 < size by omega)
    omega
  · exact large.trans_lt (h.mem.read32_lt _)
  · unfold bigPages kheapEnd at room
    omega

theorem need_le (size : Nat) (align : Bool) :
    size ≤ need size align ∧ need size align ≤ size + 4048 := by
  cases align <;> simp [need]

/-- `kmalloc_raw` after `init_heap`, for a request that fits. -/
theorem WellFormed.kmallocRaw (wf : WellFormed h base L) {size : Nat} {align : Bool}
    (asks : 0 < need size align) (fits : h.Fits (need size align)) :
    ∃ lo hi p h' L', h.kmallocRaw size align = some (p, h') ∧ Extends h base L h' L' ∧
      L'.Slot lo hi ∧ (∀ hi', ¬ L.Slot lo hi') ∧ p + size ≤ hi ∧
      p = (if align then lo + 4048 else lo) ∧ (align = true → p % 0x1000 = 0) := by
  have booted : h.heapEnd ≠ 0 := by
    have positive := wf.heapEnd_pos
    omega
  obtain ⟨lo, hi, h', L', served, extends', slot, fresh, room, onPage⟩ := wf.klmalloc asks fits
  have small := fits.size_lt
  have range := extends'.wf.slot_range slot
  have endLe := extends'.wf.endLe
  cases align with
  | false =>
      refine ⟨lo, hi, lo, h', L', ?_, extends', slot, fresh, room, rfl, by simp⟩
      rw [Heap.kmallocRaw, if_pos booted]
      exact served
  | true =>
      simp only [need, if_true] at served room onPage small
      refine ⟨lo, hi, lo + 4048, h', L', ?_, extends', slot, fresh, by omega, rfl, ?_⟩
      · rw [Heap.kmallocRaw, if_pos booted, if_pos rfl, Heap.klvalloc, wrap32_of_lt small, served,
          Option.map_some, wrap32_of_lt (by omega)]
      · intro _
        have page := onPage (big_of_lt (by omega))
        omega

/-! ### Requests that do not fit -/

theorem heapEnd_initStack (h : Heap) (x b count : Nat) :
    (h.initStack x b count).heapEnd = h.heapEnd := by
  induction count with
  | zero => rfl
  | succ count inductionHypothesis =>
      simpa only [Heap.initStack, Heap.heapEnd_store] using inductionHypothesis

theorem heapEnd_newBin (h : Heap) (b : Nat) :
    (h.newBin b).2.heapEnd = wrap32 (h.heapEnd + 0x1000) := by
  simp only [Heap.newBin, Heap.heapEnd_store, heapEnd_initStack, Heap.klmallocListInsert, Heap.sbrk]

theorem heapEnd_klmallocSmall (h : Heap) {b : Nat} (noBin : h.klmallocBinHead b = 0) :
    (h.klmallocSmall b).2.heapEnd = wrap32 (h.heapEnd + 0x1000) := by
  simp only [Heap.klmallocSmall, noBin, if_true, Heap.klmallocStackPop]
  split
  · simp only [Heap.klmallocListDecouple, Heap.heapEnd_store, heapEnd_newBin]
  · simp only [Heap.heapEnd_store, heapEnd_newBin]

theorem newBigBin_returns (h : Heap) (size : Nat) :
    (h.newBigBin size).1 = wrap32 (h.heapEnd + 48) ∧ (h.newBigBin size).2.heapEnd =
      wrap32 (h.heapEnd + wrap32 (0x1000 * (wrap32 (size + 48) / 0x1000 + 1))) := by
  refine ⟨rfl, ?_⟩
  simp only [Heap.newBigBin, Heap.heapEnd_store]
  split <;> simp only [Heap.heapEnd_store, Heap.sbrk]

/-- Taking the free block that the search finds writes the links in the headers of big
blocks. -/
theorem WellFormed.klmallocBig_found (wf : WellFormed h base L) {size x p : Nat} {h' : Heap}
    (found : h.klmallocSkipListFindbest size = some x) (nonzero : x ≠ 0)
    (served : h.klmallocBig size = some (p, h')) :
    p = x + 48 ∧ h.mem.AgreeOn (fun a => ∀ y, L.IsBig y → a < y + 4 ∨ y + 48 ≤ a) h'.mem := by
  obtain ⟨y, found', head⟩ := wf.findbest size
  obtain rfl := Option.some.inj (found.symm.trans found')
  obtain ⟨rest, first⟩ := List.head?_eq_some_iff.mp (head.symm.trans (nodeAt_pos (by omega)))
  obtain ⟨h'', taken, -, -, -, bytes⟩ := wf.takeBlock first
  obtain ⟨rfl, rfl⟩ := Prod.mk.inj (Option.some.inj (taken.symm.trans served))
  exact ⟨rfl, bytes⟩

/-- A big block is the free block that the search finds, or a new one at `heap_end`. -/
theorem WellFormed.klmallocBig_place (wf : WellFormed h base L) {size p : Nat} {h' : Heap}
    (served : h.klmallocBig size = some (p, h')) :
    ∃ x, h.klmallocSkipListFindbest size = some x ∧
      p = if x = 0 then wrap32 (h.heapEnd + 48) else x + 48 := by
  obtain ⟨x, found, head⟩ := wf.findbest size
  refine ⟨x, found, ?_⟩
  by_cases none : x = 0
  · have noFit := List.head?_eq_none_iff.mp (head.symm.trans (nodeAt_eq_none_iff.mpr none))
    rw [wf.klmallocBig_grow noFit] at served
    rw [if_pos none, ← (newBigBin_returns h size).1, Option.some.inj served]
  · rw [if_neg none]
    exact (wf.klmallocBig_found found none served).1

/-- `klmalloc` grows the heap for a request that does not fit, whatever the
limit. -/
theorem WellFormed.klmalloc_overrun (wf : WellFormed h base L) {size : Nat} (positive : 0 < size)
    (unfit : ¬ h.Fits size) :
    ∃ p h', h.klmalloc size = some (p, h') ∧
      (klmallocBinSize size < 10 → kheapEnd < h'.heapEnd) ∧
      (klmallocBinSize size = 10 → p = h.heapEnd + 48 ∧ h'.heapEnd =
        wrap32 (h.heapEnd + wrap32 (0x1000 * (wrap32 (size + 48) / 0x1000 + 1)))) := by
  have nonzero : ¬ size = 0 := by omega
  have endLe := wf.endLe
  have bucket := klmallocBinSize_le size
  rcases Nat.lt_or_ge (klmallocBinSize size) 10 with small | big
  · have full : h.klmallocBinHead (klmallocBinSize size) = 0 ∧
        kheapEnd < h.heapEnd + 0x1000 := by
      by_contra available
      refine unfit (Or.inl ⟨small, ?_⟩)
      omega
    refine ⟨_, _, by rw [Heap.klmalloc, if_neg nonzero, if_pos small], fun _ => ?_,
      fun isBig => by omega⟩
    rw [heapEnd_klmallocSmall h full.1, wrap32_of_lt (by omega)]
    exact full.2
  · have isBig : klmallocBinSize size = 10 := by omega
    have noFit : (L.level 0).filter (fun y => !decide (h.sizeOf y < size)) = [] := by
      rw [List.filter_eq_nil_iff]
      intro x inList large
      simp only [Bool.not_eq_true', decide_eq_false_iff_not, Nat.not_lt] at large
      exact unfit (Or.inr ⟨isBig, Or.inl ⟨x, wf.freeBlock_iff.mpr inList, large⟩⟩)
    obtain ⟨returned, heapEnd⟩ := newBigBin_returns h size
    refine ⟨(h.newBigBin size).1, (h.newBigBin size).2, ?_, fun small => by omega, fun _ => ?_⟩
    · rw [Heap.klmalloc, if_neg nonzero, if_neg (by omega), wf.klmallocBig_grow noFit]
    · exact ⟨returned.trans (wrap32_of_lt (by omega)), heapEnd⟩

/-- A request fits if the heap stays within its limit. The bound on the size
keeps the new `heap_end` from wrapping around. -/
theorem WellFormed.fits_of_within (wf : WellFormed h base L) {size : Nat} {align : Bool}
    (asks : 0 < need size align) (small : size < 0xF0000000) :
    ∃ result, h.kmallocRaw size align = some result ∧
      (result.2.heapEnd ≤ kheapEnd → h.Fits (need size align)) := by
  by_cases fits : h.Fits (need size align)
  · obtain ⟨lo, hi, p, h', L', served, -⟩ := wf.kmallocRaw asks fits
    exact ⟨_, served, fun _ => fits⟩
  · have booted : h.heapEnd ≠ 0 := by
      have positive := wf.heapEnd_pos
      omega
    have needSmall := (need_le size align).2
    obtain ⟨p, h', served, overrunSmall, overrunBig⟩ := wf.klmalloc_overrun asks fits
    have overrun : kheapEnd < h'.heapEnd := by
      have bucket := klmallocBinSize_le (need size align)
      rcases Nat.lt_or_ge (klmallocBinSize (need size align)) 10 with isSmall | isBig
      · exact overrunSmall isSmall
      · have big : klmallocBinSize (need size align) = 10 := by omega
        have noRoom : kheapEnd < h.heapEnd + 0x1000 * bigPages (need size align) := by
          by_contra room
          exact fits (Or.inr ⟨big, Or.inr (by omega)⟩)
        have endLe := wf.endLe
        have rounded : wrap32 (need size align + 48) = need size align + 48 :=
          wrap32_of_lt (by omega)
        have increment : wrap32 (0x1000 * ((need size align + 48) / 0x1000 + 1)) =
            0x1000 * bigPages (need size align) := wrap32_of_lt (by omega)
        have bounded : bigPages (need size align) ≤ 0xF0100 := by
          unfold bigPages
          omega
        rw [(overrunBig big).2, rounded, increment, wrap32_of_lt (by omega)]
        exact noRoom
    have unwrapped : need size align < 2 ^ 32 := by omega
    cases align with
    | false =>
        refine ⟨(p, h'), ?_, fun within => absurd within (Nat.not_le.mpr overrun)⟩
        rw [Heap.kmallocRaw, if_pos booted]
        exact served
    | true =>
        simp only [need, if_true] at served unwrapped
        refine ⟨(wrap32 (p + (0x1000 - 48)), h'), ?_,
          fun within => absurd within (Nat.not_le.mpr overrun)⟩
        rw [Heap.kmallocRaw, if_pos booted, if_pos rfl, Heap.klvalloc, wrap32_of_lt unwrapped,
          served, Option.map_some]

/-! ### How far a request grows the heap -/

@[simp] theorem heapEnd_setForward (h : Heap) (p : Option Nat) (i v : Nat) :
    (h.setForward p i v).heapEnd = h.heapEnd := by
  cases p <;> rfl

theorem heapEnd_skipUnlink (update : Nat → Option Nat) (value count i : Nat) (h : Heap) :
    (Heap.skipUnlink update value count i h).heapEnd = h.heapEnd := by
  induction count generalizing i h with
  | zero => rfl
  | succ count inductionHypothesis =>
      rw [Heap.skipUnlink]
      split
      · rfl
      · rw [inductionHypothesis, heapEnd_setForward]

theorem heapEnd_klmallocSmall_le (h : Heap) (b : Nat) :
    (h.klmallocSmall b).2.heapEnd ≤ h.heapEnd + 0x1000 := by
  by_cases noBin : h.klmallocBinHead b = 0
  · rw [heapEnd_klmallocSmall h noBin]
    exact Nat.mod_le _ _
  · have unchanged : (h.klmallocSmall b).2.heapEnd = h.heapEnd := by
      simp only [Heap.klmallocSmall, noBin, if_false, Heap.klmallocStackPop]
      split <;> rfl
    omega

/-- No request grows the heap by more than the pages of a big block. -/
theorem heapEnd_klmalloc_le {h h' : Heap} {size p : Nat}
    (returned : h.klmalloc size = some (p, h')) :
    h'.heapEnd ≤ h.heapEnd + 0x1000 * bigPages size := by
  have pages : 1 ≤ bigPages size := Nat.succ_pos _
  rw [Heap.klmalloc] at returned
  split at returned
  · obtain ⟨-, rfl⟩ := Prod.mk.inj (Option.some.inj returned)
    exact Nat.le_add_right _ _
  · split at returned
    · have bound := heapEnd_klmallocSmall_le h (klmallocBinSize size)
      rw [Option.some.inj returned] at bound
      change h'.heapEnd ≤ _ at bound
      omega
    · obtain ⟨bin, -, served⟩ := Option.bind_eq_some_iff.mp returned
      split at served
      · obtain ⟨unlinked, deleted, popped⟩ := Option.map_eq_some_iff.mp served
        obtain ⟨update, -, followed⟩ := Option.bind_eq_some_iff.mp deleted
        obtain ⟨found, -, rfl⟩ := Option.map_eq_some_iff.mp followed
        obtain ⟨-, rfl⟩ := Prod.mk.inj popped
        simp only [Heap.heapEnd_store, heapEnd_skipUnlink]
        omega
      · have heapEnd := (newBigBin_returns h size).2
        rw [Option.some.inj served] at heapEnd
        change h'.heapEnd = _ at heapEnd
        have asked : wrap32 (size + 48) ≤ size + 48 := Nat.mod_le _ _
        have rounded : wrap32 (0x1000 * (wrap32 (size + 48) / 0x1000 + 1)) ≤
            0x1000 * bigPages size :=
          (Nat.mod_le _ _).trans
            (Nat.mul_le_mul_left _ (Nat.succ_le_succ (Nat.div_le_div_right asked)))
        rw [heapEnd]
        exact (Nat.mod_le _ _).trans (Nat.add_le_add_left rounded _)

theorem heapEnd_kmallocRaw_le {h h' : Heap} {size p : Nat} {align : Bool} (booted : h.heapEnd ≠ 0)
    (returned : h.kmallocRaw size align = some (p, h')) :
    h'.heapEnd ≤ h.heapEnd + 0x1000 * bigPages (need size align) := by
  rw [Heap.kmallocRaw, if_pos booted] at returned
  cases align with
  | false => exact heapEnd_klmalloc_le returned
  | true =>
      rw [if_pos rfl, Heap.klvalloc] at returned
      obtain ⟨⟨q, h''⟩, served, moved⟩ := Option.map_eq_some_iff.mp returned
      obtain ⟨-, rfl⟩ := Prod.mk.inj moved
      refine (heapEnd_klmalloc_le served).trans (Nat.add_le_add_left (Nat.mul_le_mul_left _ ?_) _)
      exact Nat.succ_le_succ (Nat.div_le_div_right (Nat.add_le_add_right (Nat.mod_le _ _) _))

/-- A request for which the heap can grow within its limit fits. -/
theorem fits_of_room {h : Heap} {size : Nat}
    (room : h.heapEnd + 0x1000 * bigPages size ≤ kheapEnd) : h.Fits size := by
  have bucket := klmallocBinSize_le size
  have pages : 1 ≤ bigPages size := Nat.succ_pos _
  rcases Nat.lt_or_ge (klmallocBinSize size) 10 with small | big
  · exact Or.inl ⟨small, Or.inr (by omega)⟩
  · exact Or.inr ⟨by omega, Or.inr room⟩

/-- The payload of a new big block holds the zeros `sbrk` wrote, while no big
block exists. -/
theorem newBigBin_zero {h : Heap} (noBlock : h.klmallocNewestBig = 0) {size a : Nat}
    (room : h.heapEnd + 0x1000 * bigPages size ≤ 0x02000000)
    (inside : h.heapEnd + 48 ≤ a ∧ a < h.heapEnd + 0x1000 * bigPages size) :
    (h.newBigBin size).2.mem a = 0 := by
  have asked : wrap32 (size + 48) = size + 48 := wrap32_of_lt (by unfold bigPages at room; omega)
  have increment : wrap32 (0x1000 * (wrap32 (size + 48) / 0x1000 + 1)) =
      0x1000 * bigPages size := by
    rw [asked]
    exact wrap32_of_lt (show 0x1000 * bigPages size < 2 ^ 32 by omega)
  simp only [Heap.newBigBin, increment, Heap.sbrk, Heap.store, noBlock, ne_eq, not_true, if_false]
  rw [Memory.write32_outside _ _ (by omega), Memory.write32_outside _ _ (by omega),
    Memory.write32_outside _ _ (by omega), Memory.write32_outside _ _ (by omega),
    Memory.write32_outside _ _ (by omega), memset_eq_fill h.mem 0 (by omega)]
  exact Memory.fill_inside _ _ (by omega)

/-! ### Requests that stay on mapped pages -/

/-- A block from `kmalloc` is a fresh slot. -/
theorem WellFormed.kmallocMapped (wf : WellFormed h base L) {size p : Nat} {h' : Heap}
    (asks : 0 < size) (small : size < 0xF0000000) (returned : h.kmallocMapped size = some (p, h')) :
    ∃ hi L', Extends h base L h' L' ∧ L'.Slot p hi ∧ (∀ hi', ¬ L.Slot p hi') ∧
      p + size ≤ hi := by
  obtain ⟨served, within⟩ := Option.filter_eq_some_iff.mp returned
  obtain ⟨result, isResult, fits⟩ :=
    wf.fits_of_within (by simpa [need] using asks : 0 < need size false) small
  have same : result = (p, h') := Option.some.inj (isResult.symm.trans served)
  subst same
  have fit := fits (of_decide_eq_true within)
  obtain ⟨lo, hi, p', h'', L', isResult', step, slot, fresh, room, plain, -⟩ :=
    wf.kmallocRaw (by simpa [need] using asks : 0 < need size false) fit
  obtain ⟨rfl, rfl⟩ := Prod.mk.inj (Option.some.inj (isResult'.symm.trans isResult))
  simp only [Bool.false_eq_true, if_false] at plain
  subst plain
  exact ⟨hi, L', step, slot, fresh, room⟩

/-- `kmalloc` returns while the heap has room to grow. -/
theorem WellFormed.kmallocMapped_returns (wf : WellFormed h base L) {size : Nat} (asks : 0 < size)
    (room : h.heapEnd + 0x1000 * bigPages size ≤ kheapEnd) :
    ∃ p h', h.kmallocMapped size = some (p, h') ∧
      h'.heapEnd ≤ h.heapEnd + 0x1000 * bigPages size := by
  have positive := wf.heapEnd_pos
  have fits := fits_of_room room
  obtain ⟨lo, hi, p, h', L', served, -⟩ :=
    wf.kmallocRaw (by simpa [need] using asks : 0 < need size false) fits
  have grown := heapEnd_kmallocRaw_le (by omega) served
  simp only [need, Bool.false_eq_true, if_false] at grown
  have within : h'.heapEnd ≤ kheapEnd := grown.trans room
  exact ⟨p, h', Option.filter_eq_some_iff.mpr ⟨served, by simpa using within⟩, grown⟩

/-! ### Writing into a fresh slot -/

/-- The caller of an allocation may write the slot it got. -/
theorem Extends.writeFresh {h' : Heap} {L' : Layout} (step : Extends h base L h' L') {lo hi : Nat}
    (slot : L'.Slot lo hi) (fresh : ∀ hi', ¬ L.Slot lo hi') {m : Memory}
    (bytes : ∀ a, a < lo ∨ hi ≤ a → m a = h'.mem a) :
    Extends h base L { h' with mem := m } L' where
  wf := step.wf.writeSlots fun a _ _ outside => bytes a (outside lo hi slot)
  slots := step.slots
  bins := step.bins
  grown := step.grown
  heapEnd := step.heapEnd
  placement := step.placement
  bytes := by
    intro a inside
    refine (bytes a ?_).trans (step.bytes a inside)
    rcases inside with below | ⟨lo', hi', slot', within⟩
    · have range := step.wf.slot_range slot
      omega
    · have different : lo ≠ lo' := fun same => fresh hi' (same ▸ slot')
      have apart := step.wf.slot_disjoint slot (step.slots _ _ slot') different
      omega

end Balloon.Allocator
