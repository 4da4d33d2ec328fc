import Balloon.Allocator.SmallBins

/-!
Owns the growth of the heap through `sbrk`: a fresh small bin with all its
cells free, and a fresh big block that is handed out at once. Both put one bin
at the old end of the heap.
-/

namespace Balloon.Allocator

open Balloon.Foundation
open Balloon.Libc

variable {h : Heap} {base : Nat} {L : Layout}

/-! ### A bin at the end of the heap -/

theorem Layout.Placed.grow {limit : Nat} (placed : L.Placed base limit)
    {L' : Layout} {k : Bin} (bins : L'.bins = Function.update L.bins limit (some k))
    (baseLe : base ≤ limit) (page : limit % 0x1000 = 0) (pages : 0 < k.pages) :
    L'.Placed base (limit + 0x1000 * k.pages) := by
  have old : ∀ x l, L'.bins x = some l → (x = limit ∧ l = k) ∨ L.bins x = some l := by
    intro x l isBin
    rw [bins] at isBin
    by_cases same : x = limit
    · rw [same, Function.update_self] at isBin
      exact Or.inl ⟨same, (Option.some.inj isBin).symm⟩
    · rw [Function.update_of_ne same] at isBin
      exact Or.inr isBin
  refine ⟨?_, ?_, ?_⟩
  · intro x l isBin
    rcases old x l isBin with ⟨rfl, rfl⟩ | isOld
    · exact page
    · exact placed.page x l isOld
  · intro x l isBin
    rcases old x l isBin with ⟨rfl, rfl⟩ | isOld
    · exact ⟨baseLe, pages, Nat.le_refl _⟩
    · have range := placed.range x l isOld
      omega
  · intro x y l m isBinX isBinY different
    rcases old x l isBinX with ⟨rfl, rfl⟩ | isOldX
    · rcases old y m isBinY with ⟨rfl, rfl⟩ | isOldY
      · exact absurd rfl different
      · have range := placed.range y m isOldY
        omega
    · rcases old y m isBinY with ⟨rfl, rfl⟩ | isOldY
      · have range := placed.range x l isOldX
        omega
      · exact placed.apart x y l m isOldX isOldY different

/-- No bin starts at the end of the heap. -/
theorem WellFormed.below (wf : WellFormed h base L) {x : Nat} {k : Bin}
    (isBin : L.bins x = some k) : x + 0x1000 ≤ h.heapEnd := (wf.range isBin).2.1

/-- Adding one bin at the end of the heap, where below it only `next` fields
of big blocks may change. -/
theorem WellFormed.grow (wf : WellFormed h base L) {h' : Heap} {L' : Layout} {k : Bin}
    (bins : L'.bins = Function.update L.bins h.heapEnd (some k))
    (free : ∀ y, y ≠ h.heapEnd → L'.free y = L.free y) (level : L'.level = L.level)
    (pages : 0 < k.pages) (heapEnd : h'.heapEnd = h.heapEnd + 0x1000 * k.pages)
    (endLe : h'.heapEnd ≤ 0x02000000) (placement : h'.placementPointer = h.placementPointer)
    (bigLevel : h'.klmallocBigLevel = h.klmallocBigLevel)
    (anchor : h'.klmallocBigForward = h.klmallocBigForward)
    (words : ∀ a, a % 4 = 0 → a < h.heapEnd → (∀ n, L.bins a ≠ some (.big n)) →
      h'.mem.read32 a = h.mem.read32 a)
    (newBin : BinOk h' L' h.heapEnd k) (chain : ∀ b, b < 10 → ChainOk h' L' b)
    (newest : h'.klmallocNewestBig = h.klmallocNewestBig ∨
      h'.klmallocNewestBig = h.heapEnd ∧ ∃ n, k = .big n) : WellFormed h' base L' where
  basePage := wf.basePage
  placementLt := placement ▸ wf.placementLt
  baseLe := by
    have le := wf.baseLe
    omega
  endPage := by
    have page := wf.endPage
    omega
  endLe := endLe
  placed := by
    rw [heapEnd]
    exact wf.placed.grow bins wf.baseLe wf.endPage pages
  bin := by
    intro y l isBin
    by_cases same : y = h.heapEnd
    · subst same
      rw [bins, Function.update_self, Option.some.injEq] at isBin
      exact isBin ▸ newBin
    · rw [bins, Function.update_of_ne same] at isBin
      have page := wf.page isBin
      have range := wf.placed.range y l isBin
      refine (wf.bin y l isBin).congr page (free y same) (by rw [level]) ?_
      intro a aligned inBin
      have bounds := (wf.bin y l isBin).reads_range inBin
      refine words a aligned (by omega) ?_
      intro n isBig
      have pageA := wf.page isBig
      omega
  chain := chain
  skip := by
    have notEnd : ∀ x ∈ L.level 0, x ≠ h.heapEnd := by
      intro x member
      obtain ⟨n, isBig⟩ := wf.skip.bin x member
      have below := wf.below isBig
      omega
    have word : ∀ x ∈ L.level 0, ∀ o, 8 ≤ o → o < 48 → o % 4 = 0 →
        h'.mem.read32 (x + o) = h.mem.read32 (x + o) := by
      intro x member o low high aligned
      obtain ⟨n, isBig⟩ := wf.skip.bin x member
      have below := wf.below isBig
      have page := wf.page isBig
      refine words (x + o) (by omega) (by omega) ?_
      intro m isBig'
      have page' := wf.page isBig'
      omega
    refine wf.skip.congr bigLevel level anchor ?_ ?_ ?_
    · intro x member
      rw [bins, Function.update_of_ne (notEnd x member)]
    · intro x member
      exact word x member 8 (by omega) (by omega) (by omega)
    · intro x member i within
      rw [Nat.add_assoc]
      exact word x member (20 + 4 * i) (by omega) (by omega) (by omega)
  newest := by
    rcases newest with same | ⟨atEnd, n, rfl⟩
    · rw [same]
      rcases wf.newest with zero | ⟨n, isBig⟩
      · exact Or.inl zero
      · have below := wf.below isBig
        refine Or.inr ⟨n, ?_⟩
        rw [bins, Function.update_of_ne (by omega)]
        exact isBig
    · refine Or.inr ⟨n, ?_⟩
      rw [bins, atEnd, Function.update_self]

/-- A bucket whose list the growth leaves alone. -/
private theorem chainOk_grow (wf : WellFormed h base L) {h' : Heap} {L' : Layout} {k : Bin}
    (bins : L'.bins = Function.update L.bins h.heapEnd (some k))
    (free : ∀ y, y ≠ h.heapEnd → L'.free y = L.free y)
    (words : ∀ a, a % 4 = 0 → a < h.heapEnd → (∀ n, L.bins a ≠ some (.big n)) →
      h'.mem.read32 a = h.mem.read32 a) {b : Nat} (bucket : b < 10)
    (chain : L'.chain b = L.chain b) (head : h'.klmallocBinHead b = h.klmallocBinHead b) :
    ChainOk h' L' b := by
  have ok := wf.chain b bucket
  have notEnd : ∀ x ∈ L.chain b, x ≠ h.heapEnd := by
    intro x member
    have below := wf.below (ok.bin x member).1
    omega
  refine ok.congr head chain ?_ ?_ ?_
  · intro x member
    rw [bins, Function.update_of_ne (notEnd x member)]
  · intro x member
    rw [free x (notEnd x member)]
    exact (ok.bin x member).2
  · intro x member
    have isBin := (ok.bin x member).1
    have below := wf.below isBin
    have page := wf.page isBin
    refine words x (by omega) (by omega) ?_
    intro n isBig
    simp [isBin] at isBig

/-! ### A fresh small bin -/

/-- The cells of the bin at `x`, in address order. -/
def cellsOf (x b : Nat) : List Nat :=
  (List.range' 0 (4080 / 2 ^ (b + 2))).map fun i => x + 16 + i * 2 ^ (b + 2)

theorem mem_cellsOf {x b c : Nat} : c ∈ cellsOf x b ↔ IsCell x b c := by
  simp only [cellsOf, IsCell, List.mem_map, List.mem_range'_1]
  constructor
  · rintro ⟨i, ⟨-, bound⟩, rfl⟩
    exact ⟨i, by omega, rfl⟩
  · rintro ⟨i, bound, rfl⟩
    exact ⟨i, ⟨by omega, by omega⟩, rfl⟩

theorem nodup_cellsOf (x b : Nat) : (cellsOf x b).Nodup := by
  refine List.Nodup.map ?_ List.nodup_range'
  intro i j equal
  have positive := four_le_two_pow b
  have products : i * 2 ^ (b + 2) = j * 2 ^ (b + 2) := by simpa using equal
  exact Nat.eq_of_mul_eq_mul_right (by omega) products

/-- Every bucket has room for at least one cell. -/
theorem cells_pos {b : Nat} (bucket : b < 10) : 0 < 4080 / 2 ^ (b + 2) := by
  refine Nat.div_pos ?_ (Nat.two_pow_pos _)
  calc 2 ^ (b + 2) ≤ 2 ^ 11 := Nat.pow_le_pow_right (by decide) (by omega)
    _ ≤ 4080 := by decide

private theorem shift_cell (i b : Nat) : 4 * (i <<< b) = i * 2 ^ (b + 2) := by
  rw [Nat.shiftLeft_eq]
  ring

/-- `klmalloc` links each of the first `count` cells to the next. -/
theorem initStack_spec (h : Heap) {x b : Nat} (aligned : x % 4 = 0) (count : Nat)
    (small : x + count * 2 ^ (b + 2) < 2 ^ 32) :
    (∀ i, i < count →
      (h.initStack x b count).mem.read32 (x + i * 2 ^ (b + 2)) = x + (i + 1) * 2 ^ (b + 2)) ∧
    (∀ a, a % 4 = 0 → (∀ i, i < count → a ≠ x + i * 2 ^ (b + 2)) →
      (h.initStack x b count).mem.read32 a = h.mem.read32 a) ∧
    (∀ a, a < x ∨ x + count * 2 ^ (b + 2) ≤ a → (h.initStack x b count).mem a = h.mem a) ∧
    h.initStack x b count = { h with mem := (h.initStack x b count).mem } := by
  have width := four_le_two_pow b
  have multiple : ∀ i, i * 2 ^ (b + 2) % 4 = 0 := by
    intro i
    rw [Nat.pow_add, ← Nat.mul_assoc]
    omega
  induction count with
  | zero => exact ⟨by simp, fun _ _ _ => rfl, fun _ _ => rfl, rfl⟩
  | succ count inductionHypothesis =>
      have grown : (count + 1) * 2 ^ (b + 2) = count * 2 ^ (b + 2) + 2 ^ (b + 2) := Nat.succ_mul _ _
      obtain ⟨cells, words, bytes, others⟩ := inductionHypothesis (by omega)
      have stored : (h.initStack x b (count + 1)).mem =
          (h.initStack x b count).mem.write32 (x + count * 2 ^ (b + 2))
            (x + (count + 1) * 2 ^ (b + 2)) := by
        simp only [Heap.initStack, Heap.mem_store, shift_cell]
      have alignedCell := multiple count
      refine ⟨?_, ?_, ?_, congrArg (fun g : Heap => g.store _ _) others⟩
      · intro i below
        have alignedI := multiple i
        rw [stored]
        rcases Nat.lt_succ_iff_lt_or_eq.mp below with inside | rfl
        · have lower := Nat.mul_lt_mul_of_pos_right inside (by omega : 0 < 2 ^ (b + 2))
          rw [read32_write32_ne _ _ (by omega) (by omega) (by omega)]
          exact cells i inside
        · exact read32_write32_small _ _ small
      · intro a alignedA notCell
        have notLast := notCell count (by omega)
        rw [stored, read32_write32_ne _ _ (by omega) alignedA notLast]
        exact words a alignedA fun i below => notCell i (by omega)
      · intro a outside
        rw [stored, Memory.write32_outside _ _ (by omega)]
        exact bytes a (by omega)

/-- In front of the end of the address space `sbrk` moves `heap_end` and clears the new pages. -/
theorem sbrk_spec (h : Heap) {increment : Nat} (room : h.heapEnd + increment ≤ 0x02000000) :
    ∃ m, h.sbrk increment = (h.heapEnd, { h with heapEnd := h.heapEnd + increment, mem := m }) ∧
      (∀ a, a < h.heapEnd ∨ h.heapEnd + increment ≤ a → m a = h.mem a) ∧
      ∀ a, h.heapEnd ≤ a → a + 4 ≤ h.heapEnd + increment → m.read32 a = 0 := by
  have filled := memset_eq_fill h.mem 0 (show h.heapEnd + increment ≤ 2 ^ 32 by omega)
  refine ⟨memset h.mem h.heapEnd 0 increment, ?_, fun a outside => ?_, fun a above below => ?_⟩
  · rw [Heap.sbrk, wrap32_of_lt (by omega)]
  · rw [filled]
    exact Memory.fill_outside _ _ outside
  · rw [filled]
    exact Memory.read32_fill_zero _ ⟨above, below⟩

/-- What `klmalloc` leaves in a fresh page for a small bin. -/
theorem newBin_spec (h : Heap) {b : Nat} (bucket : b < 10) (page : h.heapEnd % 0x1000 = 0)
    (room : h.heapEnd + 0x1000 ≤ 0x02000000) (headLt : h.klmallocBinHead b < 2 ^ 32) :
    ∃ h', h.newBin b = (h.heapEnd, h') ∧
      (h'.placementPointer = h.placementPointer ∧ h'.klmallocBigLevel = h.klmallocBigLevel ∧
        h'.klmallocBigForward = h.klmallocBigForward ∧
        h'.klmallocNewestBig = h.klmallocNewestBig) ∧
      h'.heapEnd = h.heapEnd + 0x1000 ∧
      h'.klmallocBinHead = Function.update h.klmallocBinHead b h.heapEnd ∧
      h'.nextOf h.heapEnd = h.klmallocBinHead b ∧ h'.headOf h.heapEnd = h.heapEnd + 16 ∧
      h'.sizeOf h.heapEnd = b ∧ h'.magicOf h.heapEnd = binMagic ∧
      (∀ i, i + 1 < 4080 / 2 ^ (b + 2) → h'.mem.read32 (h.heapEnd + 16 + i * 2 ^ (b + 2)) =
        h.heapEnd + 16 + (i + 1) * 2 ^ (b + 2)) ∧
      h'.mem.read32 (h.heapEnd + 16 + (4080 / 2 ^ (b + 2) - 1) * 2 ^ (b + 2)) = 0 ∧
      (∀ a, a % 4 = 0 → h.heapEnd + 16 ≤ a → a + 4 ≤ h.heapEnd + 0x1000 →
        (∀ i, a ≠ h.heapEnd + 16 + i * 2 ^ (b + 2)) → h'.mem.read32 a = 0) ∧
      h.mem.AgreeOn (fun a => a < h.heapEnd ∨ h.heapEnd + 0x1000 ≤ a) h'.mem := by
  have count := cells_pos bucket
  have width := four_le_two_pow b
  have fits : (4080 / 2 ^ (b + 2) - 1) * 2 ^ (b + 2) + 2 ^ (b + 2) ≤ 4080 := by
    rw [← Nat.succ_mul, Nat.succ_eq_add_one, Nat.sub_add_cancel count]
    exact Nat.div_mul_le_self 4080 _
  have available : ((0x1000 - 16) >>> (2 + b)) - 1 = 4080 / 2 ^ (b + 2) - 1 := by
    rw [Nat.shiftRight_eq_div_pow, Nat.add_comm 2 b]
  generalize lastCell : 4080 / 2 ^ (b + 2) - 1 = last at fits available ⊢
  obtain ⟨m, grows, grownBytes, grownZero⟩ := sbrk_spec h room
  generalize atEnd : h.heapEnd = x at page room grows grownBytes grownZero ⊢
  let grown : Heap := { h with heapEnd := x + 0x1000, mem := m }
  -- The header without its size.
  let headed : Heap :=
    ((grown.store (x + 12) binMagic).store (x + 4) (x + 16)).klmallocListInsert b x
  have headedNext : headed.mem.read32 x = h.klmallocBinHead b :=
    read32_write32_small _ _ headLt
  have headedHead : headed.mem.read32 (x + 4) = x + 16 :=
    (read32_write32_ne _ _ (by omega) (by omega) (by omega)).trans
      (read32_write32_small _ _ (by omega))
  have headedMagic : headed.mem.read32 (x + 12) = binMagic :=
    ((read32_write32_ne _ _ (by omega) (by omega) (by omega)).trans
      (read32_write32_ne _ _ (by omega) (by omega) (by omega))).trans
      (read32_write32_small _ _ (by decide))
  have headedBytes : ∀ a, a < x ∨ x + 0x1000 ≤ a → headed.mem a = h.mem a := by
    intro a outside
    exact (((Memory.write32_outside _ _ (by omega)).trans
      (Memory.write32_outside _ _ (by omega))).trans
      (Memory.write32_outside _ _ (by omega))).trans (grownBytes a outside)
  obtain ⟨cells, words, bytes, others⟩ :=
    initStack_spec headed (x := x + 16) (b := b) (by omega) last (by omega)
  let stacked : Heap := headed.initStack (x + 16) b last
  let cleared : Heap := stacked.store (x + 16 + last * 2 ^ (b + 2)) 0
  have alignedLast : last * 2 ^ (b + 2) % 4 = 0 := by
    rw [Nat.pow_add, ← Nat.mul_assoc]
    omega
  have notCell : ∀ a, a < x + 16 → ∀ i, i < last → a ≠ x + 16 + i * 2 ^ (b + 2) := by
    omega
  have headerWord : ∀ a, a % 4 = 0 → a < x + 16 → a ≠ x + 8 →
      (cleared.store (x + 8) b).mem.read32 a = headed.mem.read32 a := by
    intro a aligned below notSize
    exact ((read32_write32_ne _ _ (by omega) aligned notSize).trans
      (read32_write32_ne _ _ (by omega) aligned (by omega))).trans
      (words a aligned (notCell a below))
  refine ⟨cleared.store (x + 8) b, ?_, ?_, ?_, ?_, ?_, ?_, ?_, ?_, ?_, ?_, ?_, ?_⟩
  · have base : headed.headOf x = x + 16 := headedHead
    simp only [Heap.newBin, available, shift_cell, grows]
    rw [show ((grown.store (x + 12) binMagic).store (x + 4) (x + 16)).klmallocListInsert b x =
      headed from rfl, base]
  · refine ⟨(congrArg Heap.placementPointer others).trans ?_,
      (congrArg Heap.klmallocBigLevel others).trans ?_,
      (congrArg Heap.klmallocBigForward others).trans ?_,
      (congrArg Heap.klmallocNewestBig others).trans ?_⟩ <;>
      simp [headed, grown, Heap.klmallocListInsert]
  · exact congrArg Heap.heapEnd others
  · exact congrArg Heap.klmallocBinHead others
  · exact (headerWord x (by omega) (by omega) (by omega)).trans headedNext
  · exact (headerWord (x + 4) (by omega) (by omega) (by omega)).trans headedHead
  · exact read32_write32_small _ _ (by omega)
  · exact (headerWord (x + 12) (by omega) (by omega) (by omega)).trans headedMagic
  · intro i below
    have inside : i < last := by omega
    have lower := Nat.mul_lt_mul_of_pos_right inside (by omega : 0 < 2 ^ (b + 2))
    have alignedI : i * 2 ^ (b + 2) % 4 = 0 := by
      rw [Nat.pow_add, ← Nat.mul_assoc]
      omega
    exact ((read32_write32_ne _ _ (by omega) (by omega) (by omega)).trans
      (read32_write32_ne _ _ (by omega) (by omega) (by omega))).trans (cells i inside)
  · exact (read32_write32_ne _ _ (by omega) (by omega) (by omega)).trans
      (read32_write32_small _ _ (by omega))
  · intro a aligned above below notLink
    have notLast := notLink last
    have headedWord : headed.mem.read32 a = m.read32 a :=
      ((read32_write32_ne _ _ (by omega) aligned (by omega)).trans
        (read32_write32_ne _ _ (by omega) aligned (by omega))).trans
        (read32_write32_ne _ _ (by omega) aligned (by omega))
    exact ((((read32_write32_ne _ _ (by omega) aligned (by omega)).trans
      (read32_write32_ne _ _ (by omega) aligned notLast)).trans
      (words a aligned fun i _ => notLink i)).trans headedWord).trans
      (grownZero a (by omega) (by omega))
  · intro a outside
    exact (((Memory.write32_outside _ _ (by omega)).trans
      (Memory.write32_outside _ _ (by omega))).trans (bytes a (by omega))).trans
      (headedBytes a outside)

/-- The layout after an empty bucket gets a fresh bin at `x`. -/
def Layout.addBin (L : Layout) (x b : Nat) : Layout :=
  { L with
    bins := Function.update L.bins x (some (.small b))
    free := Function.update L.free x (cellsOf x b)
    chain := Function.update L.chain b [x] }

/-- Growing the heap for a bucket without available bins. -/
theorem WellFormed.newBin (wf : WellFormed h base L) {b : Nat} (bucket : b < 10)
    (noBin : L.chain b = []) (room : h.heapEnd + 0x1000 ≤ 0x02000000) :
    ∃ h', h.newBin b = (h.heapEnd, h') ∧ WellFormed h' base (L.addBin h.heapEnd b) ∧
      h'.heapEnd = h.heapEnd + 0x1000 ∧ h'.placementPointer = h.placementPointer ∧
      h.mem.AgreeOn (fun a => a < h.heapEnd) h'.mem := by
  have noHead : h.klmallocBinHead b = 0 := by
    have anchor := wf.chainHead bucket
    rw [noBin] at anchor
    exact nodeAt_eq_none_iff.mp anchor
  have positive : 0 < h.heapEnd := by
    have placement := wf.placementLt
    have le := wf.baseLe
    omega
  have count := cells_pos bucket
  obtain ⟨h', returned, ⟨placement, bigLevel, anchor, newest⟩, heapEnd, binHead, nextOf, headOf,
    sizeOf, magicOf, links, lastLink, -, bytes⟩ := newBin_spec h bucket wf.endPage room (by omega)
  refine ⟨h', returned, ?_, heapEnd, placement, bytes.mono fun a below => Or.inl below⟩
  have words : ∀ a, a % 4 = 0 → a < h.heapEnd → h'.mem.read32 a = h.mem.read32 a := by
    intro a aligned below
    have page := wf.endPage
    exact bytes.read32 fun k bound => Or.inl (by omega)
  have freeOther : ∀ y, y ≠ h.heapEnd → (L.addBin h.heapEnd b).free y = L.free y :=
    fun y different => Function.update_of_ne different _ _
  have freeNew : (L.addBin h.heapEnd b).free h.heapEnd = cellsOf h.heapEnd b :=
    Function.update_self _ _ _
  refine wf.grow (k := .small b) rfl freeOther rfl Nat.one_pos heapEnd (by omega) placement
    bigLevel anchor (fun a aligned below _ => words a aligned below) ?_ ?_ (Or.inl newest)
  · refine ⟨magicOf, bucket, sizeOf, ?_, ?_, ?_⟩
    · rw [freeNew]
      obtain ⟨last, cells⟩ : ∃ last, 4080 / 2 ^ (b + 2) = last + 1 :=
        Nat.exists_eq_succ_of_ne_zero (by omega)
      rw [cells] at links lastLink
      rw [cellsOf, cells, List.range'_succ, List.map_cons]
      refine ⟨?_, ?_⟩
      · simp only [Heap.stackNext, headOf, Nat.zero_mul, Nat.add_zero]
        exact nodeAt_pos (by omega)
      · refine Path.map_range' (f := fun i => h.heapEnd + 16 + i * 2 ^ (b + 2)) ?_ ?_
        · intro i _ below
          simp only [Heap.stackNext]
          rw [links i (by omega)]
          exact nodeAt_pos (by omega)
        · simp only [Heap.stackNext, Nat.zero_add]
          rw [Nat.add_sub_cancel] at lastLink
          rw [lastLink]
          exact nodeAt_zero
    · rw [freeNew]
      exact nodup_cellsOf _ _
    · rw [freeNew]
      exact fun c member => mem_cellsOf.mp member
  · intro b' bound
    by_cases same : b' = b
    · subst same
      have chain : (L.addBin h.heapEnd b').chain b' = [h.heapEnd] := Function.update_self _ _ _
      refine ⟨?_, ?_, ?_⟩
      · rw [chain]
        refine ⟨?_, ?_⟩
        · simp only [Heap.chainNext, binHead, Function.update_self]
          exact nodeAt_pos positive
        · change nodeAt (h'.nextOf h.heapEnd) = none
          rw [nextOf, noHead]
          exact nodeAt_zero
      · rw [chain]
        exact List.nodup_singleton _
      · rw [chain]
        intro x member
        obtain rfl : x = h.heapEnd := by simpa using member
        refine ⟨Function.update_self _ _ _, ?_⟩
        rw [freeNew]
        intro empty
        have first : IsCell h.heapEnd b' (h.heapEnd + 16) := ⟨0, count, by omega⟩
        rw [← mem_cellsOf, empty] at first
        contradiction
    · refine chainOk_grow wf rfl freeOther (fun a aligned below _ => words a aligned below) bound
        (Function.update_of_ne same _ _) ?_
      rw [binHead, Function.update_of_ne same]

/-! ### A fresh big block -/

/-- The pages `klmalloc` asks `sbrk` for. -/
def bigPages (size : Nat) : Nat := (size + 48) / 0x1000 + 1

/-- The layout after a big block of `n` pages is handed out at `x`. -/
def Layout.addBig (L : Layout) (x n : Nat) : Layout :=
  { L with bins := Function.update L.bins x (some (.big n)) }

/-- Growing the heap for a big block. -/
theorem WellFormed.newBigBin (wf : WellFormed h base L) {size : Nat}
    (room : h.heapEnd + 0x1000 * bigPages size ≤ 0x02000000) :
    ∃ h', h.newBigBin size = (h.heapEnd + 48, h') ∧
      WellFormed h' base (L.addBig h.heapEnd (bigPages size)) ∧
      h'.heapEnd = h.heapEnd + 0x1000 * bigPages size ∧
      h'.placementPointer = h.placementPointer ∧
      ∀ a, a < h.heapEnd → (∀ y n, L.bins y = some (.big n) → a < y ∨ y + 4 ≤ a) →
        h'.mem a = h.mem a := by
  have positive : 0 < bigPages size := Nat.succ_pos _
  have sizeSmall : size + 48 < 2 ^ 32 := by
    unfold bigPages at room
    omega
  have pages : wrap32 (size + 48) / 0x1000 + 1 = bigPages size := by
    rw [wrap32_of_lt sizeSmall, bigPages]
  have page := wf.endPage
  have newestPage : h.klmallocNewestBig % 0x1000 = 0 ∧
      (h.klmallocNewestBig = 0 ∨ h.klmallocNewestBig + 0x1000 ≤ h.heapEnd) := by
    rcases wf.newest with zero | ⟨n, isBig⟩
    · omega
    · exact ⟨wf.page isBig, Or.inr (wf.below isBig)⟩
  generalize bigPages size = n at *
  have increment : wrap32 (0x1000 * n) = 0x1000 * n := wrap32_of_lt (by omega)
  have sizeField : wrap32 (n * 0x1000 + (2 ^ 32 - 48)) = 0x1000 * n - 48 := by
    unfold wrap32
    omega
  obtain ⟨m, grows, grownBytes, -⟩ := sbrk_spec h room
  let grown : Heap := { h with heapEnd := h.heapEnd + 0x1000 * n, mem := m }
  let headed : Heap := ((grown.store (h.heapEnd + 12) binMagic).store (h.heapEnd + 8)
    (0x1000 * n - 48)).store (h.heapEnd + 16) h.klmallocNewestBig
  have headedMagic : headed.mem.read32 (h.heapEnd + 12) = binMagic :=
    ((read32_write32_ne _ _ (by omega) (by omega) (by omega)).trans
      (read32_write32_ne _ _ (by omega) (by omega) (by omega))).trans
      (read32_write32_small _ _ (by decide))
  have headedSize : headed.mem.read32 (h.heapEnd + 8) = 0x1000 * n - 48 :=
    (read32_write32_ne _ _ (by omega) (by omega) (by omega)).trans
      (read32_write32_small _ _ (by omega))
  have headedBytes : ∀ a, a < h.heapEnd → headed.mem a = h.mem a := by
    intro a below
    exact (((Memory.write32_outside _ _ (by omega)).trans
      (Memory.write32_outside _ _ (by omega))).trans
      (Memory.write32_outside _ _ (by omega))).trans (grownBytes a (Or.inl below))
  let linked : Heap := if h.klmallocNewestBig ≠ 0 then
    headed.store h.klmallocNewestBig h.heapEnd else headed
  have linkedWord : ∀ a, a % 4 = 0 → (h.klmallocNewestBig ≠ 0 → a ≠ h.klmallocNewestBig) →
      linked.mem.read32 a = headed.mem.read32 a := by
    intro a aligned notLink
    by_cases first : h.klmallocNewestBig = 0
    · simp only [linked, first, ne_eq, not_true_eq_false, if_false]
    · simp only [linked, first, ne_eq, not_false_eq_true, if_true]
      exact read32_write32_ne _ _ (by omega) aligned (notLink first)
  let returned : Heap :=
    ({ linked with klmallocNewestBig := h.heapEnd }.store h.heapEnd 0).store (h.heapEnd + 4) 0
  have unfolded : h.newBigBin size = (h.heapEnd + 48, returned) := by
    simp only [Heap.newBigBin, pages, increment, sizeField, grows]
    rw [wrap32_of_lt (by omega)]
    rfl
  have fields : linked = { headed with mem := linked.mem } := by
    simp only [linked]
    split <;> rfl
  have word : ∀ a, a % 4 = 0 → a ≠ h.heapEnd → a ≠ h.heapEnd + 4 →
      (h.klmallocNewestBig ≠ 0 → a ≠ h.klmallocNewestBig) →
      returned.mem.read32 a = headed.mem.read32 a := by
    intro a aligned notNext notHead notLink
    exact ((read32_write32_ne _ _ (by omega) aligned notHead).trans
      (read32_write32_ne _ _ (by omega) aligned notNext)).trans (linkedWord a aligned notLink)
  have words : ∀ a, a % 4 = 0 → a < h.heapEnd → (∀ n, L.bins a ≠ some (.big n)) →
      returned.mem.read32 a = h.mem.read32 a := by
    intro a aligned below notBig
    refine (word a aligned (by omega) (by omega) ?_).trans ?_
    · rintro nonzero rfl
      rcases wf.newest with zero | ⟨m, isBig⟩
      · exact nonzero zero
      · exact notBig m isBig
    · exact Memory.read32_congr fun k bound => headedBytes _ (by omega)
  have isNew : (L.addBig h.heapEnd n).bins h.heapEnd = some (.big n) :=
    Function.update_self _ _ _
  have notFree : h.heapEnd ∉ (L.addBig h.heapEnd n).level 0 := by
    intro member
    obtain ⟨m, isBig⟩ := wf.skip.bin h.heapEnd member
    have below := wf.below isBig
    omega
  refine ⟨returned, unfolded, ?_, ?_, ?_, ?_⟩
  · refine wf.grow (k := .big n) rfl (fun _ _ => rfl) rfl positive ?_ ?_ ?_ ?_ ?_ words ?_ ?_
      (Or.inr ⟨rfl, n, rfl⟩)
    · exact (congrArg Heap.heapEnd fields).trans rfl
    · exact ((congrArg Heap.heapEnd fields).trans rfl).trans_le room
    · exact (congrArg Heap.placementPointer fields).trans rfl
    · exact (congrArg Heap.klmallocBigLevel fields).trans rfl
    · exact (congrArg Heap.klmallocBigForward fields).trans rfl
    · refine ⟨?_, ?_, fun member => absurd member notFree, fun _ => ?_⟩
      · exact (word _ (by omega) (by omega) (by omega) (by omega)).trans headedMagic
      · rw [show returned.sizeOf h.heapEnd = 0x1000 * n - 48 from
          (word _ (by omega) (by omega) (by omega) (by omega)).trans headedSize]
        omega
      · exact read32_write32_small _ _ (by decide)
    · intro b bucket
      have added : (L.addBig h.heapEnd n).bins =
          Function.update L.bins h.heapEnd (some (.big n)) := rfl
      exact chainOk_grow wf added (fun _ _ => rfl) words bucket rfl
        (congrFun (congrArg Heap.klmallocBinHead fields) b)
  · exact (congrArg Heap.heapEnd fields).trans rfl
  · exact (congrArg Heap.placementPointer fields).trans rfl
  · intro a below notLink
    refine (Memory.write32_outside _ _ (by omega)).trans
      ((Memory.write32_outside _ _ (by omega)).trans ?_)
    refine Eq.trans ?_ (headedBytes a below)
    simp only [linked]
    split
    · rename_i nonzero
      refine Memory.write32_outside _ _ ?_
      rcases wf.newest with zero | ⟨m, isBig⟩
      · exact absurd zero nonzero
      · exact notLink _ m isBig
    · rfl

end Balloon.Allocator
