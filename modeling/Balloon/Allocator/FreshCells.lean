import Balloon.Allocator.Plan

/-!
Owns what `klmalloc` hands out while nothing has been released: behind its first word, which
links it on its free stack, a cell is as `sbrk` cleared it. It does not own big blocks.
-/

namespace Balloon.Allocator

open Balloon.Foundation
open Balloon.Libc

/-- The bytes from `o` on are a word of a cell of bucket `b`, and not its link. -/
structure BehindLink (b o : Nat) : Prop where
  aligned : o % 4 = 0
  link : 4 ≤ o
  inside : o + 4 ≤ 2 ^ (b + 2)

/-- Every free cell is zero behind its link. -/
def Unused (h : Heap) (L : Layout) : Prop :=
  ∀ x b c, L.bins x = some (.small b) → c ∈ L.free x → ∀ o, BehindLink b o →
    h.mem.read32 (c + o) = 0

variable {h h' : Heap} {base : Nat} {L L' : Layout}

/-- A free cell lies in the page of its bin, behind the header. -/
theorem WellFormed.freeCell_range (wf : WellFormed h base L) {x b c : Nat}
    (isBin : L.bins x = some (.small b)) (free : c ∈ L.free x) :
    x + 16 ≤ c ∧ c + 2 ^ (b + 2) ≤ x + 0x1000 := by
  obtain ⟨-, -, -, -, -, cell⟩ := wf.bin x _ isBin
  exact (cell c free).bounds

/-- A heap whose free cells were free and have kept their bytes. -/
theorem Unused.keep (unused : Unused h L)
    (free : ∀ x b c, L'.bins x = some (.small b) → c ∈ L'.free x →
      L.bins x = some (.small b) ∧ c ∈ L.free x ∧
        ∀ a, c ≤ a → a < c + 2 ^ (b + 2) → h'.mem a = h.mem a) : Unused h' L' := by
  intro x b c isBin isFree o behind
  obtain ⟨wasBin, wasFree, same⟩ := free x b c isBin isFree
  have inside := behind.inside
  have word : h'.mem.read32 (c + o) = h.mem.read32 (c + o) :=
    Memory.read32_congr fun k bound => same _ (by omega) (by omega)
  exact word.trans (unused x b c wasBin wasFree o behind)

/-! ### Small requests -/

/-- The top cell of a bucket's first bin. -/
theorem WellFormed.firstCell_unused (wf : WellFormed h base L) (unused : Unused h L)
    {b x : Nat} {tail : List Nat} (bucket : b < 10) (chain : L.chain b = x :: tail) :
    ∃ c h' L', h.klmallocSmall b = (c, h') ∧ Extends h base L h' L' ∧
      L'.Slot c (c + 2 ^ (b + 2)) ∧ Unused h' L' ∧
      ∀ o, BehindLink b o → h'.mem.read32 (c + o) = 0 := by
  obtain ⟨c, cs, h', free, served, -, extends', slot, -, -⟩ :=
    wf.klmallocSmall_first bucket chain
  obtain ⟨h'', served', -, -, -, bytes⟩ := wf.takeCell bucket (by rw [chain]; rfl) free
  obtain rfl : h'' = h' := (Prod.mk.inj (served'.symm.trans served)).2
  have isBin := ((wf.chain b bucket).bin x (by rw [chain]; exact List.mem_cons_self)).1
  have pageX := wf.page isBin
  have taken : c ∈ L.free x := by
    rw [free]
    exact List.mem_cons_self
  have keeps : ∀ y b' d, L.bins y = some (.small b') → d ∈ L.free y →
      ∀ a, d ≤ a → a < d + 2 ^ (b' + 2) → h''.mem a = h.mem a := by
    intro y b' d isBinY isFree a above below
    have range := wf.freeCell_range isBinY isFree
    have pageY := wf.page isBinY
    exact bytes a (by omega)
  refine ⟨c, h'', _, served, extends', slot, unused.keep fun y b' d isBinY isFree => ?_,
    fun o behind => ?_⟩
  · have wasFree : d ∈ L.free y := by
      by_cases same : y = x
      · subst same
        rw [takeCell_free_self] at isFree
        rw [free]
        exact List.mem_cons_of_mem c isFree
      · rwa [takeCell_free_of_ne b cs same] at isFree
    exact ⟨isBinY, wasFree, keeps y b' d isBinY wasFree⟩
  · have inside := behind.inside
    have word : h''.mem.read32 (c + o) = h.mem.read32 (c + o) :=
      Memory.read32_congr fun k bound => keeps x b c isBin taken _ (by omega) (by omega)
    exact word.trans (unused x b c isBin taken o behind)

/-- The distance of two cells is no distance inside a cell. -/
theorem cell_ne_behind {w i j o : Nat} (link : 0 < o) (inside : o < w) : i * w + o ≠ j * w := by
  intro same
  rcases Nat.lt_or_ge i j with before | after
  · have next := Nat.mul_le_mul_right w (Nat.succ_le_of_lt before)
    rw [Nat.succ_mul] at next
    omega
  · have upTo := Nat.mul_le_mul_right w after
    omega

/-- A new bin has cells that `sbrk` has just cleared. -/
theorem WellFormed.newBin_unused (wf : WellFormed h base L) (unused : Unused h L) {b : Nat}
    (bucket : b < 10) (noBin : L.chain b = []) (room : h.heapEnd + 0x1000 ≤ kheapEnd) :
    ∃ h', h.newBin b = (h.heapEnd, h') ∧ Extends h base L h' (L.addBin h.heapEnd b) ∧
      Unused h' (L.addBin h.heapEnd b) := by
  obtain ⟨h', returned, extends'⟩ := wf.newBin_extends bucket noBin room
  obtain ⟨h₁, returned₁, -, -, -, -, -, -, -, -, -, zero, bytes⟩ :=
    newBin_spec h bucket wf.endPage room (wf.binHead_lt bucket)
  obtain rfl : h₁ = h' := (Prod.mk.inj (returned₁.symm.trans returned)).2
  have endPage := wf.endPage
  refine ⟨h₁, returned, extends', fun x b' c isBin isFree o behind => ?_⟩
  have link := behind.link
  have aligned := behind.aligned
  have inside := behind.inside
  by_cases isNew : x = h.heapEnd
  · subst isNew
    simp only [Layout.addBin, Function.update_self, Option.some.injEq, Bin.small.injEq] at isBin
    subst isBin
    simp only [Layout.addBin, Function.update_self] at isFree
    have isCell := mem_cellsOf.mp isFree
    have bounds := isCell.bounds
    have alignedCell := isCell.aligned endPage
    obtain ⟨i, -, rfl⟩ := isCell
    refine zero _ (by omega) (by omega) (by omega) fun j same => ?_
    exact cell_ne_behind (by omega) (by omega) (show i * 2 ^ (b + 2) + o = j * 2 ^ (b + 2) by omega)
  · simp only [Layout.addBin, Function.update_of_ne isNew] at isBin isFree
    have range := wf.freeCell_range isBin isFree
    have below := wf.below isBin
    have word : h₁.mem.read32 (c + o) = h.mem.read32 (c + o) :=
      bytes.read32 fun k bound => Or.inl (by omega)
    exact word.trans (unused x b' c isBin isFree o behind)

theorem WellFormed.klmallocSmall_unused (wf : WellFormed h base L) (unused : Unused h L) {b : Nat}
    (bucket : b < 10) (fits : h.klmallocBinHead b ≠ 0 ∨ h.heapEnd + 0x1000 ≤ kheapEnd) :
    ∃ c h' L', h.klmallocSmall b = (c, h') ∧ Extends h base L h' L' ∧
      L'.Slot c (c + 2 ^ (b + 2)) ∧ Unused h' L' ∧
      ∀ o, BehindLink b o → h'.mem.read32 (c + o) = 0 := by
  have anchor := wf.chainHead bucket
  cases chain : L.chain b with
  | cons x tail => exact wf.firstCell_unused unused bucket chain
  | nil =>
      rw [chain, List.head?_nil, nodeAt_eq_none_iff] at anchor
      have room := fits.resolve_left (not_not.mpr anchor)
      obtain ⟨grown, returned, extends', cleared⟩ := wf.newBin_unused unused bucket chain room
      have chain' : (L.addBin h.heapEnd b).chain b = [h.heapEnd] := Function.update_self _ _ _
      obtain ⟨c, h', L', served, extends'', slot, unused', zero⟩ :=
        extends'.wf.firstCell_unused cleared bucket chain'
      have anchor' := extends'.wf.chainHead bucket
      rw [chain', List.head?_cons, nodeAt_eq_some_iff] at anchor'
      have nonzero : ¬ h.heapEnd = 0 := by omega
      refine ⟨c, h', L', ?_, extends'.trans extends'', slot, unused', zero⟩
      rw [← served]
      simp only [Heap.klmallocSmall, anchor, if_true, returned, anchor'.1, if_neg nonzero]

/-! ### Big requests -/

/-- A big request leaves the free cells of the small bins alone. -/
theorem WellFormed.klmallocBig_cells (wf : WellFormed h base L) {size p : Nat}
    (room : (∃ x, FreeBlock h x ∧ size ≤ h.sizeOf x) ∨
      h.heapEnd + 0x1000 * bigPages size ≤ kheapEnd)
    (served : h.klmallocBig size = some (p, h')) {x b c : Nat}
    (isBin : L.bins x = some (.small b)) (free : c ∈ L.free x) {a : Nat} (above : c ≤ a)
    (below : a < c + 2 ^ (b + 2)) : h'.mem a = h.mem a := by
  have range := wf.freeCell_range isBin free
  have inHeap := wf.below isBin
  have page := wf.page isBin
  have apart : ∀ y n, L.bins y = some (.big n) → a < y ∨ y + 0x1000 ≤ a := by
    intro y n isBig
    have different : y ≠ x := by
      rintro rfl
      cases isBin.symm.trans isBig
    have pageY := wf.page isBig
    omega
  cases found : (L.level 0).filter fun y => !decide (h.sizeOf y < size) with
  | cons y rest =>
      obtain ⟨h₁, served₁, -, -, -, bytes⟩ := wf.takeBlock found
      obtain rfl : h₁ = h' := (Prod.mk.inj (Option.some.inj (served₁.symm.trans served))).2
      refine bytes a ?_
      rintro z ⟨n, isBig⟩
      have apartZ := apart z n isBig
      omega
  | nil =>
      obtain ⟨h₁, grown, -, -, -, bytes⟩ := wf.newBigBin (wf.growth_of_noFit found room)
      rw [wf.klmallocBig_grow found, grown] at served
      obtain rfl : h₁ = h' := (Prod.mk.inj (Option.some.inj served)).2
      refine bytes a (by omega) fun z n isBig => ?_
      have apartZ := apart z n isBig
      omega

theorem WellFormed.klmallocBig_unused (wf : WellFormed h base L) (unused : Unused h L) {size : Nat}
    (room : (∃ x, FreeBlock h x ∧ size ≤ h.sizeOf x) ∨
      h.heapEnd + 0x1000 * bigPages size ≤ kheapEnd) :
    ∃ p hi h' L', h.klmallocBig size = some (p, h') ∧ Extends h base L h' L' ∧ L'.Slot p hi ∧
      p + size ≤ hi ∧ Unused h' L' := by
  obtain ⟨x, n, h', L', served, extends', isBin, taken, large, -, place⟩ := wf.klmallocBig room
  refine ⟨x + 48, x + 0x1000 * n, h', L', served, extends', ⟨x, .big n, isBin, taken, rfl, rfl⟩,
    by omega, unused.keep fun y b c isBinY isFree => ?_⟩
  have wasFree : L.bins y = some (.small b) ∧ c ∈ L.free y := by
    rcases place with ⟨-, rfl, -⟩ | ⟨rfl, -, rfl, -⟩
    · exact ⟨isBinY, isFree⟩
    · by_cases isNew : y = h.heapEnd
      · subst isNew
        simp [Layout.addBig] at isBinY
      · simp only [Layout.addBig, Function.update_of_ne isNew] at isBinY
        exact ⟨isBinY, isFree⟩
  exact ⟨wasFree.1, wasFree.2, fun a => wf.klmallocBig_cells room served wasFree.1 wasFree.2⟩

/-! ### `klmalloc` -/

/-- While nothing has been released, a small request that fits gets a cell that is zero behind
its first word. -/
theorem WellFormed.klmalloc_unused (wf : WellFormed h base L) (unused : Unused h L) {size : Nat}
    (positive : 0 < size) (fits : h.Fits size) :
    ∃ p hi h' L', h.klmalloc size = some (p, h') ∧ Extends h base L h' L' ∧ L'.Slot p hi ∧
      p + size ≤ hi ∧ Unused h' L' ∧ (klmallocBinSize size < 10 →
        ∀ o, BehindLink (klmallocBinSize size) o → h'.mem.read32 (p + o) = 0) := by
  have nonzero : ¬ size = 0 := by omega
  rcases fits with ⟨small, room⟩ | ⟨big, room⟩
  · obtain ⟨c, h', L', served, extends', slot, unused', zero⟩ :=
      wf.klmallocSmall_unused unused small room
    have cell := le_cell positive small
    refine ⟨c, _, h', L', ?_, extends', slot, by omega, unused', fun _ => zero⟩
    rw [Heap.klmalloc, if_neg nonzero, if_pos small, served]
  · obtain ⟨p, hi, h', L', served, extends', slot, within, unused'⟩ :=
      wf.klmallocBig_unused unused room
    refine ⟨p, hi, h', L', ?_, extends', slot, within, unused', fun small => by omega⟩
    rw [Heap.klmalloc, if_neg nonzero, if_neg (by omega), served]

/-- The holder of a slot may write into it. -/
theorem WellFormed.writeSlot_unused (wf : WellFormed h base L) (unused : Unused h L) {lo hi : Nat}
    (slot : L.Slot lo hi) {m : Memory}
    (same : ∀ a, base ≤ a → a < lo ∨ hi ≤ a → m a = h.mem a) :
    WellFormed { h with mem := m } base L ∧ Unused { h with mem := m } L := by
  refine ⟨wf.writeSlots fun a above _ outside => same a above (outside lo hi slot),
    unused.keep fun x b c isBin free => ⟨isBin, free, fun a above below => ?_⟩⟩
  have apart := wf.slot_freeCell slot isBin free
  have range := wf.freeCell_range isBin free
  have inHeap := (wf.placed.range x _ isBin).1
  exact same a (by omega) (by omega)

/-- `kmalloc` on the mapped pages. -/
theorem WellFormed.kmallocMapped_unused (wf : WellFormed h base L) (unused : Unused h L)
    {size p : Nat} (asks : 0 < size) (small : size < 0xF0000000)
    (returned : h.kmallocMapped size = some (p, h')) :
    ∃ hi L', Extends h base L h' L' ∧ L'.Slot p hi ∧ p + size ≤ hi ∧ Unused h' L' ∧
      (klmallocBinSize size < 10 →
        ∀ o, BehindLink (klmallocBinSize size) o → h'.mem.read32 (p + o) = 0) := by
  obtain ⟨served, within⟩ := Option.filter_eq_some_iff.mp returned
  have needs : need size false = size := rfl
  obtain ⟨result, isResult, fits⟩ :=
    wf.fits_of_within (by omega : 0 < need size false) small
  obtain rfl : result = (p, h') := Option.some.inj (isResult.symm.trans served)
  obtain ⟨q, hi, h₁, L', isServed, extends', slot, room, unused', zero⟩ :=
    wf.klmalloc_unused unused asks (fits (of_decide_eq_true within))
  have booted : h.heapEnd ≠ 0 := by
    have positive := wf.heapEnd_pos
    omega
  rw [Heap.kmallocRaw, if_pos booted, if_neg Bool.false_ne_true, isServed] at isResult
  obtain ⟨rfl, rfl⟩ := Prod.mk.inj (Option.some.inj isResult)
  exact ⟨hi, L', extends', slot, room, unused', zero⟩

/-- Nothing is free in a heap without bins. -/
theorem unused_of_noBins (noBins : ∀ x, L.bins x = none) : Unused h L := by
  intro x b c isBin
  cases (noBins x).symm.trans isBin

end Balloon.Allocator
