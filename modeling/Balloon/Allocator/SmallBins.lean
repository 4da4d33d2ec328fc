import Balloon.Allocator.Layout

/-!
Owns the small-bin operations on well-formed heaps: taking a cell off the
first bin of a bucket, growing the heap by a fresh bin, and returning a cell.
Each result names the layout it leaves and the bytes it may touch.
-/

namespace Balloon.Allocator

open Balloon.Foundation
open Balloon.Libc

variable {h : Heap} {base : Nat} {L : Layout}

/-! ### Stores -/

namespace Heap

@[simp] theorem mem_store (h : Heap) (a v : Nat) : (h.store a v).mem = h.mem.write32 a v := rfl

@[simp] theorem heapEnd_store (h : Heap) (a v : Nat) : (h.store a v).heapEnd = h.heapEnd := rfl

@[simp] theorem placementPointer_store (h : Heap) (a v : Nat) :
    (h.store a v).placementPointer = h.placementPointer := rfl

@[simp] theorem klmallocBinHead_store (h : Heap) (a v : Nat) :
    (h.store a v).klmallocBinHead = h.klmallocBinHead := rfl

@[simp] theorem klmallocBigForward_store (h : Heap) (a v : Nat) :
    (h.store a v).klmallocBigForward = h.klmallocBigForward := rfl

@[simp] theorem klmallocBigLevel_store (h : Heap) (a v : Nat) :
    (h.store a v).klmallocBigLevel = h.klmallocBigLevel := rfl

@[simp] theorem klmallocNewestBig_store (h : Heap) (a v : Nat) :
    (h.store a v).klmallocNewestBig = h.klmallocNewestBig := rfl

end Heap

theorem read32_write32_ne (m : Memory) {a b : Nat} (v : Nat) (alignedStore : a % 4 = 0)
    (alignedLoad : b % 4 = 0) (different : b ≠ a) : (m.write32 a v).read32 b = m.read32 b := by
  rw [Memory.read32_write32_aligned m v alignedStore alignedLoad, if_neg different]

theorem read32_write32_small (m : Memory) (a : Nat) {v : Nat} (small : v < 2 ^ 32) :
    (m.write32 a v).read32 a = v := by
  rw [Memory.read32_write32_same, Nat.mod_eq_of_lt small]

/-! ### Reading off the layout -/

theorem WellFormed.page (wf : WellFormed h base L) {x : Nat} {k : Bin}
    (isBin : L.bins x = some k) : x % 0x1000 = 0 := wf.placed.page x k isBin

/-- A bin lies between the end of the early blocks and the end of the heap. -/
theorem WellFormed.range (wf : WellFormed h base L) {x : Nat} {k : Bin}
    (isBin : L.bins x = some k) :
    h.placementPointer < x ∧ x + 0x1000 ≤ h.heapEnd ∧ 0x1000 ≤ x := by
  have range := wf.placed.range x k isBin
  have page := wf.page isBin
  have basePage := wf.basePage
  have placement := wf.placementLt
  omega

/-- The free cells of a bin with a nonempty stack. -/
theorem WellFormed.stackHead (wf : WellFormed h base L) {x b c : Nat} {cs : List Nat}
    (isBin : L.bins x = some (.small b)) (free : L.free x = c :: cs) :
    h.headOf x = c ∧ 0 < c ∧ nodeAt (h.mem.read32 c) = cs.head? := by
  obtain ⟨-, -, -, stack, -, -⟩ := wf.bin x _ isBin
  rw [free] at stack
  obtain ⟨head, positive⟩ := nodeAt_eq_some_iff.mp stack.1
  exact ⟨head, positive, Path.next_lastFrom (show Path _ none ([c] ++ cs) from stack)⟩

theorem WellFormed.stackEmpty_iff (wf : WellFormed h base L) {x b : Nat}
    (isBin : L.bins x = some (.small b)) : h.headOf x = 0 ↔ L.free x = [] := by
  obtain ⟨-, -, -, stack, -, -⟩ := wf.bin x _ isBin
  cases free : L.free x with
  | nil =>
      rw [free] at stack
      simpa using nodeAt_eq_none_iff.mp stack
  | cons c cs =>
      obtain ⟨head, positive, -⟩ := wf.stackHead isBin free
      simp only [reduceCtorEq, iff_false]
      omega

/-- The head of a bucket's list, read from `klmalloc_bin_head`. -/
theorem WellFormed.chainHead (wf : WellFormed h base L) {b : Nat} (bucket : b < 10) :
    nodeAt (h.klmallocBinHead b) = (L.chain b).head? :=
  Path.next_lastFrom (show Path (h.chainNext b) none ([] ++ L.chain b) from
    (wf.chain b bucket).path)

/-- A bucket's first bin is an address. -/
theorem WellFormed.binHead_lt (wf : WellFormed h base L) {b : Nat} (bucket : b < 10) :
    h.klmallocBinHead b < 2 ^ 32 := by
  have anchor := wf.chainHead bucket
  cases chain : L.chain b with
  | nil =>
      rw [chain, List.head?_nil, nodeAt_eq_none_iff] at anchor
      omega
  | cons x tail =>
      rw [chain, List.head?_cons, nodeAt_eq_some_iff] at anchor
      have range := wf.range ((wf.chain b bucket).bin x (by simp [chain])).1
      have endLe := wf.endLe
      omega

/-! ### Changing one bin -/

/-- What describes a bin lies outside every other bin. -/
theorem WellFormed.word_apart (wf : WellFormed h base L) {x y a : Nat} {k l : Bin}
    (isBinX : L.bins x = some k) (isBinY : L.bins y = some l) (different : y ≠ x)
    (reads : L.Reads y l a) : a < x ∨ x + 0x1000 ≤ a := by
  have apart := wf.placed.apart y x l k isBinY isBinX different
  have rangeX := (wf.placed.range x k isBinX).2.1
  have rangeY := (wf.placed.range y l isBinY).2.1
  have bounds := (wf.bin y l isBinY).reads_range reads
  omega

/-- A heap that differs from a well-formed one inside the page of the small
bin at `x` only. -/
theorem WellFormed.restack (wf : WellFormed h base L) {h' : Heap} {L' : Layout} {x b : Nat}
    (isBin : L.bins x = some (.small b)) (bins : L'.bins = L.bins)
    (free : ∀ y, y ≠ x → L'.free y = L.free y) (level : L'.level = L.level)
    (chain : ∀ b', b' ≠ b → L'.chain b' = L.chain b') (heapEnd : h'.heapEnd = h.heapEnd)
    (placement : h'.placementPointer = h.placementPointer)
    (bigLevel : h'.klmallocBigLevel = h.klmallocBigLevel)
    (anchor : h'.klmallocBigForward = h.klmallocBigForward)
    (newest : h'.klmallocNewestBig = h.klmallocNewestBig)
    (binHead : ∀ b', b' ≠ b → h'.klmallocBinHead b' = h.klmallocBinHead b')
    (words : ∀ a, a % 4 = 0 → a < x ∨ x + 0x1000 ≤ a → h'.mem.read32 a = h.mem.read32 a)
    (own : BinOk h' L' x (.small b)) (ownChain : ChainOk h' L' b) : WellFormed h' base L' where
  basePage := wf.basePage
  placementLt := placement ▸ wf.placementLt
  baseLe := heapEnd ▸ wf.baseLe
  endPage := heapEnd ▸ wf.endPage
  endLe := heapEnd ▸ wf.endLe
  placed := by
    rw [heapEnd]
    exact ⟨bins ▸ wf.placed.page, bins ▸ wf.placed.range, bins ▸ wf.placed.apart⟩
  bin := by
    intro y k isBinY
    rw [bins] at isBinY
    by_cases same : y = x
    · subst same
      obtain rfl : k = .small b := Option.some.inj (isBinY.symm.trans isBin)
      exact own
    · refine (wf.bin y k isBinY).congr (wf.page isBinY) (free y same) (by rw [level]) ?_
      intro a aligned inBin
      exact words a aligned (wf.word_apart isBin isBinY same inBin)
  chain := by
    intro b' bound
    by_cases same : b' = b
    · exact same ▸ ownChain
    · have ok := wf.chain b' bound
      have notX : ∀ y ∈ L.chain b', y ≠ x := by
        rintro y member rfl
        have isBinY := (ok.bin y member).1
        rw [isBin] at isBinY
        exact same (by simpa using isBinY.symm)
      refine ok.congr (binHead b' same) (chain b' same) (fun _ _ => by rw [bins]) ?_ ?_
      · intro y member
        rw [free y (notX y member)]
        exact (ok.bin y member).2
      · intro y member
        have pageY := wf.page (ok.bin y member).1
        have pageX := wf.page isBin
        have different := notX y member
        exact words y (by omega) (by omega)
  skip := by
    have word : ∀ y ∈ L.level 0, ∀ o, o < 48 → o % 4 = 0 →
        h'.mem.read32 (y + o) = h.mem.read32 (y + o) := by
      intro y member o below aligned
      obtain ⟨n, isBig⟩ := wf.skip.bin y member
      have pageY := wf.page isBig
      have pageX := wf.page isBin
      have notX : y ≠ x := by
        rintro rfl
        simp [isBin] at isBig
      exact words (y + o) (by omega) (by omega)
    refine wf.skip.congr bigLevel level anchor (fun _ _ => by rw [bins]) ?_ ?_
    · intro y member
      exact word y member 8 (by omega) (by omega)
    · intro y member i within
      rw [Nat.add_assoc]
      exact word y member (20 + 4 * i) (by omega) (by omega)
  newest := by
    rw [newest, bins]
    exact wf.newest

/-! ### Taking a cell -/

/-- The layout after the top cell of the first bin of bucket `b` is taken. -/
def Layout.takeCell (L : Layout) (b x : Nat) (cs : List Nat) : Layout :=
  { L with
    free := Function.update L.free x cs
    chain := if cs = [] then Function.update L.chain b (L.chain b).tail else L.chain }

theorem takeCell_free_self (b x : Nat) (cs : List Nat) :
    (L.takeCell b x cs).free x = cs := by simp [Layout.takeCell]

theorem takeCell_free_of_ne {x y : Nat} (b : Nat) (cs : List Nat) (different : y ≠ x) :
    (L.takeCell b x cs).free y = L.free y := by simp [Layout.takeCell, different]

private theorem takeCell_chain_of_ne {b b' : Nat} (x : Nat) (cs : List Nat) (different : b' ≠ b) :
    (L.takeCell b x cs).chain b' = L.chain b' := by
  simp only [Layout.takeCell]
  split
  · exact Function.update_of_ne different _ _
  · rfl

/-- The bin whose top cell is gone. -/
private theorem binOk_pop (wf : WellFormed h base L) {h' : Heap} {x b c : Nat} {cs : List Nat}
    (isBin : L.bins x = some (.small b)) (free : L.free x = c :: cs)
    (head : h'.headOf x = h.mem.read32 c)
    (words : ∀ a, a % 4 = 0 → a ≠ x + 4 → a ≠ x → h'.mem.read32 a = h.mem.read32 a) :
    BinOk h' (L.takeCell b x cs) x (.small b) := by
  have pageX := wf.page isBin
  obtain ⟨magic, bucket, size, stack, nodup, cell⟩ := wf.bin x _ isBin
  rw [free] at stack nodup cell
  refine ⟨?_, bucket, ?_, ?_, ?_, ?_⟩
  · exact (words (x + 12) (by omega) (by omega) (by omega)).trans magic
  · exact (words (x + 8) (by omega) (by omega) (by omega)).trans size
  · rw [takeCell_free_self]
    refine stack.pop nodup (congrArg nodeAt head) ?_
    intro d inTail
    have isCell := cell d (List.mem_cons_of_mem c inTail)
    have bounds := isCell.bounds
    exact congrArg nodeAt (words d (isCell.aligned pageX) (by omega) (by omega))
  · rw [takeCell_free_self]
    exact (List.nodup_cons.mp nodup).2
  · rw [takeCell_free_self]
    exact fun d inTail => cell d (List.mem_cons_of_mem c inTail)

/-- `klmalloc_stack_pop` and the list update after it, on a bucket whose list
is not empty. -/
theorem WellFormed.takeCell (wf : WellFormed h base L) {b x c : Nat} {cs : List Nat}
    (bucket : b < 10) (first : (L.chain b).head? = some x) (free : L.free x = c :: cs) :
    ∃ h', h.klmallocSmall b = (c, h') ∧ WellFormed h' base (L.takeCell b x cs) ∧
      h'.heapEnd = h.heapEnd ∧ h'.placementPointer = h.placementPointer ∧
      h.mem.AgreeOn (fun a => a < x ∨ x + 16 ≤ a) h'.mem := by
  have anchor := wf.chainHead bucket
  rw [first, nodeAt_eq_some_iff] at anchor
  obtain ⟨tail, chain⟩ : ∃ tail, L.chain b = x :: tail := by
    cases split : L.chain b with
    | nil => rw [split] at first; contradiction
    | cons y tail =>
        rw [split] at first
        exact ⟨tail, by rw [Option.some.inj first]⟩
  have chainOk := wf.chain b bucket
  have isBin := (chainOk.bin x (by simp [chain])).1
  have pageX := wf.page isBin
  obtain ⟨headEq, positive, nextEq⟩ := wf.stackHead isBin free
  have linkLt := h.mem.read32_lt c
  let popped : Heap := h.store (x + 4) (h.mem.read32 c)
  have poppedHead : popped.headOf x = h.mem.read32 c := read32_write32_small _ _ linkLt
  have poppedWords : ∀ a, a % 4 = 0 → a ≠ x + 4 → popped.mem.read32 a = h.mem.read32 a :=
    fun a aligned different => read32_write32_ne _ _ (by omega) aligned different
  have poppedBytes : ∀ a, a < x ∨ x + 16 ≤ a → popped.mem a = h.mem a :=
    fun a outside => Memory.write32_outside _ _ (by omega)
  have unfolded : h.klmallocSmall b =
      (c, if popped.headOf x = 0 then popped.klmallocListDecouple b x else popped) := by
    simp only [Heap.klmallocSmall, anchor.1, if_neg (by omega : ¬ x = 0), Heap.klmallocStackPop,
      headEq, Heap.klmallocStackEmpty, popped]
  by_cases last : cs = []
  · -- The bin is full now and leaves its list.
    subst last
    have emptied : popped.headOf x = 0 := by
      rw [poppedHead]
      simpa [nodeAt_eq_none_iff] using nextEq
    have words : ∀ a, a % 4 = 0 → a ≠ x + 4 → a ≠ x →
        (popped.klmallocListDecouple b x).mem.read32 a = h.mem.read32 a := by
      intro a aligned notHead notNext
      exact (read32_write32_ne _ _ (by omega) aligned notNext).trans
        (poppedWords a aligned notHead)
    have head : (popped.klmallocListDecouple b x).headOf x = h.mem.read32 c :=
      (read32_write32_ne _ _ (by omega) (by omega) (by omega)).trans poppedHead
    refine ⟨popped.klmallocListDecouple b x, by rw [unfolded, if_pos emptied], ?_, rfl, rfl, ?_⟩
    · refine wf.restack isBin rfl (fun y => takeCell_free_of_ne b []) rfl
        (fun b' => takeCell_chain_of_ne x []) rfl rfl rfl rfl rfl ?_
        (fun a aligned outside => words a aligned (by omega) (by omega))
        (binOk_pop wf isBin free head words) ?_
      · intro b' different
        exact Function.update_of_ne different _ _
      · have path := chainOk.path
        have nodup := chainOk.nodup
        rw [chain] at path nodup
        have chainTail : (L.takeCell b x []).chain b = tail := by simp [Layout.takeCell, chain]
        have inChain : ∀ y ∈ tail, y ∈ L.chain b ∧ y ≠ x := by
          intro y member
          refine ⟨by simp [chain, member], ?_⟩
          rintro rfl
          exact (List.nodup_cons.mp nodup).1 member
        refine ⟨?_, ?_, ?_⟩
        · rw [chainTail]
          refine path.pop nodup ?_ ?_
          · simp only [Heap.chainNext, Heap.klmallocListDecouple, Heap.klmallocBinHead_store,
              Heap.nextOf, Function.update_self, popped]
            rw [poppedWords x (by omega) (by omega)]
          · intro y member
            have pageY := wf.page (chainOk.bin y (inChain y member).1).1
            exact congrArg nodeAt (words y (by omega) (by omega) (inChain y member).2)
        · rw [chainTail]
          exact (List.nodup_cons.mp nodup).2
        · rw [chainTail]
          intro y member
          rw [takeCell_free_of_ne b [] (inChain y member).2]
          exact chainOk.bin y (inChain y member).1
    · intro a outside
      exact (Memory.write32_outside _ _ (by omega)).trans (poppedBytes a outside)
  · have remains : popped.headOf x ≠ 0 := by
      rw [poppedHead]
      intro zero
      rw [zero, nodeAt_zero] at nextEq
      cases cs with
      | nil => exact last rfl
      | cons d ds => contradiction
    refine ⟨popped, by rw [unfolded, if_neg remains], ?_, rfl, rfl, poppedBytes⟩
    refine wf.restack isBin rfl (fun y => takeCell_free_of_ne b cs) rfl
      (fun b' => takeCell_chain_of_ne x cs) rfl rfl rfl rfl rfl (fun _ _ => rfl)
      (fun a aligned outside => poppedWords a aligned (by omega))
      (binOk_pop wf isBin free poppedHead fun a aligned notHead _ => poppedWords a aligned notHead)
      ?_
    refine chainOk.congr rfl (by simp [Layout.takeCell, last]) (fun _ _ => rfl) ?_ ?_
    · intro y member
      by_cases same : y = x
      · rw [same, takeCell_free_self]
        exact last
      · rw [takeCell_free_of_ne b cs same]
        exact (chainOk.bin y member).2
    · intro y member
      have pageY := wf.page (chainOk.bin y member).1
      exact poppedWords y (by omega) (by omega)

/-! ### Returning a cell -/

/-- The layout after cell `c` is pushed on the stack of the bin at `x`. -/
def Layout.returnCell (L : Layout) (b x c : Nat) : Layout :=
  { L with
    free := Function.update L.free x (c :: L.free x)
    chain := if L.free x = [] then Function.update L.chain b (x :: L.chain b) else L.chain }

theorem returnCell_free_self (b x c : Nat) :
    (L.returnCell b x c).free x = c :: L.free x := by simp [Layout.returnCell]

theorem returnCell_free_of_ne {x y : Nat} (b c : Nat) (different : y ≠ x) :
    (L.returnCell b x c).free y = L.free y := by simp [Layout.returnCell, different]

private theorem returnCell_chain_of_ne {b b' : Nat} (x c : Nat) (different : b' ≠ b) :
    (L.returnCell b x c).chain b' = L.chain b' := by
  simp only [Layout.returnCell]
  split
  · exact Function.update_of_ne different _ _
  · rfl

/-- The bin with one more free cell. -/
private theorem binOk_push (wf : WellFormed h base L) {h' : Heap} {x b c : Nat}
    (isBin : L.bins x = some (.small b)) (isCell : IsCell x b c) (taken : c ∉ L.free x)
    (head : h'.headOf x = c) (link : h'.mem.read32 c = h.headOf x)
    (words : ∀ a, a % 4 = 0 → a ≠ c → a ≠ x + 4 → a ≠ x → h'.mem.read32 a = h.mem.read32 a) :
    BinOk h' (L.returnCell b x c) x (.small b) := by
  have pageX := wf.page isBin
  have bounds := isCell.bounds
  obtain ⟨magic, bucket, size, stack, nodup, cell⟩ := wf.bin x _ isBin
  refine ⟨?_, bucket, ?_, ?_, ?_, ?_⟩
  · exact (words (x + 12) (by omega) (by omega) (by omega) (by omega)).trans magic
  · exact (words (x + 8) (by omega) (by omega) (by omega) (by omega)).trans size
  · rw [returnCell_free_self]
    refine stack.push nodup ?_ (congrArg nodeAt link) ?_
    · simp only [Heap.stackNext, head]
      exact nodeAt_pos (by omega)
    · intro d member
      have isCellD := cell d member
      have boundsD := isCellD.bounds
      have different : d ≠ c := by
        rintro rfl
        exact taken member
      exact congrArg nodeAt
        (words d (isCellD.aligned pageX) different (by omega) (by omega))
  · rw [returnCell_free_self]
    exact List.nodup_cons.mpr ⟨taken, nodup⟩
  · rw [returnCell_free_self]
    intro d member
    rcases List.mem_cons.mp member with rfl | inStack
    · exact isCell
    · exact cell d inStack

/-- The small-bin half of `klfree`. -/
theorem WellFormed.returnCell (wf : WellFormed h base L) {b x c : Nat}
    (isBin : L.bins x = some (.small b)) (isCell : IsCell x b c) (taken : c ∉ L.free x)
    (rand : Nat → Nat) :
    ∃ h', h.klfree rand c = some h' ∧ WellFormed h' base (L.returnCell b x c) ∧
      h'.heapEnd = h.heapEnd ∧ h'.placementPointer = h.placementPointer ∧
      h.mem.AgreeOn (fun a => (a < x ∨ x + 16 ≤ a) ∧ (a < c ∨ c + 4 ≤ a)) h'.mem := by
  have pageX := wf.page isBin
  have bounds := isCell.bounds
  have range := wf.range isBin
  have endLe := wf.endLe
  have alignedC := isCell.aligned pageX
  have headLt := h.mem.read32_lt (x + 4)
  obtain ⟨magic, bucket, size, -, -, -⟩ := wf.bin x _ isBin
  have chainOk := wf.chain b bucket
  have width := four_le_two_pow b
  have notPage : ¬ c % 0x1000 = 0 := by omega
  have header : Heap.headerOf c = x := by
    unfold Heap.headerOf
    rw [if_neg notPage]
    omega
  let listed : Heap := if h.headOf x = 0 then h.klmallocListInsert b x else h
  have unfolded : h.klfree rand c = some (listed.klmallocStackPush x c) := by
    simp only [Heap.klfree, if_neg (by omega : ¬ c = 0), header, magic, ne_eq, not_true_eq_false,
      if_false, size, if_neg (by omega : ¬ b > 11), if_neg notPage, Heap.klmallocStackEmpty,
      listed]
  have listedHead : listed.headOf x = h.headOf x := by
    simp only [listed]
    split
    · exact read32_write32_ne _ _ (by omega) (by omega) (by omega)
    · rfl
  have listedWords : ∀ a, a % 4 = 0 → a ≠ x → listed.mem.read32 a = h.mem.read32 a := by
    intro a aligned notNext
    simp only [listed]
    split
    · exact read32_write32_ne _ _ (by omega) aligned notNext
    · rfl
  have listedBytes : ∀ a, a < x ∨ x + 16 ≤ a → listed.mem a = h.mem a := by
    intro a outside
    simp only [listed]
    split
    · exact Memory.write32_outside _ _ (by omega)
    · rfl
  obtain ⟨heapEnd, placement, bigLevel, anchor, newest⟩ :
      listed.heapEnd = h.heapEnd ∧ listed.placementPointer = h.placementPointer ∧
        listed.klmallocBigLevel = h.klmallocBigLevel ∧
        listed.klmallocBigForward = h.klmallocBigForward ∧
        listed.klmallocNewestBig = h.klmallocNewestBig := by
    simp only [listed]
    split <;> exact ⟨rfl, rfl, rfl, rfl, rfl⟩
  have binHead : (listed.klmallocStackPush x c).klmallocBinHead =
      if h.headOf x = 0 then Function.update h.klmallocBinHead b x else h.klmallocBinHead := by
    change listed.klmallocBinHead = _
    simp only [listed]
    split <;> rfl
  have link : (listed.klmallocStackPush x c).mem.read32 c = h.headOf x :=
    (read32_write32_ne _ _ (by omega) alignedC (by omega)).trans
      ((read32_write32_small _ _ (by rw [listedHead]; exact headLt)).trans listedHead)
  have head : (listed.klmallocStackPush x c).headOf x = c := read32_write32_small _ _ (by omega)
  have pushedWords : ∀ a, a % 4 = 0 → a ≠ c → a ≠ x + 4 →
      (listed.klmallocStackPush x c).mem.read32 a = listed.mem.read32 a := by
    intro a aligned notCell notHead
    exact (read32_write32_ne _ _ (by omega) aligned notHead).trans
      (read32_write32_ne _ _ alignedC aligned notCell)
  have words : ∀ a, a % 4 = 0 → a ≠ c → a ≠ x + 4 → a ≠ x →
      (listed.klmallocStackPush x c).mem.read32 a = h.mem.read32 a :=
    fun a aligned notCell notHead notNext =>
      (pushedWords a aligned notCell notHead).trans (listedWords a aligned notNext)
  refine ⟨_, unfolded, ?_, heapEnd, placement, ?_⟩
  · refine wf.restack isBin rfl (fun y => returnCell_free_of_ne b c) rfl
      (fun b' => returnCell_chain_of_ne x c) heapEnd placement bigLevel anchor newest ?_
      (fun a aligned outside => words a aligned (by omega) (by omega) (by omega))
      (binOk_push wf isBin isCell taken head link words) ?_
    · intro b' different
      rw [binHead]
      split
      · exact Function.update_of_ne different _ _
      · rfl
    · have nextOther : ∀ y ∈ L.chain b, y ≠ x →
          (listed.klmallocStackPush x c).nextOf y = h.nextOf y := by
        intro y member different
        have pageY := wf.page (chainOk.bin y member).1
        exact words y (by omega) (by omega) (by omega) different
      have freeOther : ∀ y ∈ L.chain b, y ≠ x → (L.returnCell b x c).free y ≠ [] := by
        intro y member different
        rw [returnCell_free_of_ne b c different]
        exact (chainOk.bin y member).2
      by_cases full : L.free x = []
      · -- A full bin joins the list of its bucket again.
        have empty := (wf.stackEmpty_iff isBin).mpr full
        rw [if_pos empty] at binHead
        have outsideList : x ∉ L.chain b := fun member => (chainOk.bin x member).2 full
        have notX : ∀ y ∈ L.chain b, y ≠ x := by
          rintro y member rfl
          exact outsideList member
        have chain : (L.returnCell b x c).chain b = x :: L.chain b := by
          simp [Layout.returnCell, full]
        have next : (listed.klmallocStackPush x c).nextOf x = h.klmallocBinHead b := by
          refine (pushedWords x (by omega) (by omega) (by omega)).trans ?_
          simp only [listed, if_pos empty]
          exact read32_write32_small _ _ (wf.binHead_lt bucket)
        refine ⟨?_, ?_, ?_⟩
        · rw [chain]
          refine chainOk.path.push chainOk.nodup ?_ (congrArg nodeAt next) ?_
          · simp only [Heap.chainNext, binHead, Function.update_self]
            exact nodeAt_pos (by omega)
          · intro y member
            exact congrArg nodeAt (nextOther y member (notX y member))
        · rw [chain]
          exact List.nodup_cons.mpr ⟨outsideList, chainOk.nodup⟩
        · rw [chain]
          intro y member
          rcases List.mem_cons.mp member with rfl | inList
          · refine ⟨isBin, ?_⟩
            rw [returnCell_free_self]
            exact List.cons_ne_nil _ _
          · exact ⟨(chainOk.bin y inList).1, freeOther y inList (notX y inList)⟩
      · have nonempty : ¬ h.headOf x = 0 := fun empty =>
          full ((wf.stackEmpty_iff isBin).mp empty)
        rw [if_neg nonempty] at binHead
        have unchanged : listed = h := if_neg nonempty
        refine chainOk.congr (congrFun binHead b) (by simp [Layout.returnCell, full])
          (fun _ _ => rfl) ?_ ?_
        · intro y member
          by_cases same : y = x
          · rw [same, returnCell_free_self]
            exact List.cons_ne_nil _ _
          · exact freeOther y member same
        · intro y member
          have pageY := wf.page (chainOk.bin y member).1
          refine (pushedWords y (by omega) (by omega) (by omega)).trans ?_
          rw [unchanged]
          rfl
  · intro a outside
    exact ((Memory.write32_outside _ _ (by omega)).trans
      (Memory.write32_outside _ _ (by omega))).trans (listedBytes a outside.1)

end Balloon.Allocator
