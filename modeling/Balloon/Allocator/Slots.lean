import Balloon.Allocator.BigBlocks
import Balloon.Allocator.Growth

/-!
Owns the address ranges the allocator has handed out. A slot is a small cell
that is not on its free stack, or the payload of a big block that is not in the
skip list. The module owns that slots are pairwise disjoint and disjoint from
all bookkeeping, and what each heap operation does to the set of slots.
-/

namespace Balloon.Allocator

open Balloon.Foundation
open Balloon.Libc

variable {h : Heap} {base : Nat} {L : Layout}

/-- The payload range `[lo, hi)` of the bin `k` at `x` is handed out. -/
def Layout.InBin (L : Layout) (x lo hi : Nat) : Bin → Prop
  | .small b => IsCell x b lo ∧ lo ∉ L.free x ∧ hi = lo + 2 ^ (b + 2)
  | .big n => x ∉ L.level 0 ∧ lo = x + 48 ∧ hi = x + 0x1000 * n

/-- The addresses `[lo, hi)` are handed out. -/
def Layout.Slot (L : Layout) (lo hi : Nat) : Prop :=
  ∃ x k, L.bins x = some k ∧ L.InBin x lo hi k

/-- The bytes of a bin header. -/
def Bin.header : Bin → Nat
  | .small _ => 16
  | .big _ => 48

@[simp] theorem Bin.header_small (b : Nat) : (Bin.small b).header = 16 := rfl

@[simp] theorem Bin.header_big (n : Nat) : (Bin.big n).header = 48 := rfl

/-! ### Where slots are -/

/-- A slot lies in the payload of one bin. -/
theorem WellFormed.slot_bin (wf : WellFormed h base L) {lo hi : Nat} (slot : L.Slot lo hi) :
    ∃ x k, L.bins x = some k ∧ L.InBin x lo hi k ∧ x + k.header ≤ lo ∧ lo < x + 0x1000 ∧
      lo < hi ∧ hi ≤ x + 0x1000 * k.pages := by
  obtain ⟨x, k, isBin, inBin⟩ := slot
  refine ⟨x, k, isBin, inBin, ?_⟩
  have pages := (wf.placed.range x k isBin).2.1
  cases k with
  | small b =>
      obtain ⟨isCell, -, rfl⟩ := inBin
      have bounds := isCell.bounds
      have width := four_le_two_pow b
      rw [Bin.header_small, Bin.pages_small]
      omega
  | big n =>
      obtain ⟨-, rfl, rfl⟩ := inBin
      rw [Bin.pages_big] at pages
      rw [Bin.header_big, Bin.pages_big]
      omega

theorem Bin.header_ge (k : Bin) : 16 ≤ k.header := by
  cases k <;> simp

theorem WellFormed.slot_range (wf : WellFormed h base L) {lo hi : Nat} (slot : L.Slot lo hi) :
    base ≤ lo ∧ lo < hi ∧ hi ≤ h.heapEnd ∧ lo % 0x1000 ≠ 0 := by
  obtain ⟨x, k, isBin, -, above, below, proper, within⟩ := wf.slot_bin slot
  have range := wf.placed.range x k isBin
  have page := wf.page isBin
  have header := k.header_ge
  omega

theorem WellFormed.header_le (wf : WellFormed h base L) {x : Nat} {k : Bin}
    (isBin : L.bins x = some k) : k.header ≤ 0x1000 * k.pages := by
  have pages := (wf.placed.range x k isBin).2.1
  cases k <;> simp only [Bin.header_small, Bin.header_big, Bin.pages_small, Bin.pages_big]
    at pages ⊢ <;> omega

/-- A slot does not reach into a bin header. -/
theorem WellFormed.slot_header (wf : WellFormed h base L) {lo hi x : Nat} {k : Bin}
    (slot : L.Slot lo hi) (isBin : L.bins x = some k) : hi ≤ x ∨ x + k.header ≤ lo := by
  obtain ⟨y, l, isBinY, -, above, -, proper, within⟩ := wf.slot_bin slot
  by_cases same : y = x
  · subst same
    obtain rfl : l = k := Option.some.inj (isBinY.symm.trans isBin)
    exact Or.inr above
  · have apart := wf.placed.apart y x l k isBinY isBin same
    have header := wf.header_le isBin
    have headerY := l.header_ge
    omega

/-- A slot does not reach into a free cell. -/
theorem WellFormed.slot_freeCell (wf : WellFormed h base L) {lo hi x b c : Nat}
    (slot : L.Slot lo hi) (isBin : L.bins x = some (.small b)) (free : c ∈ L.free x) :
    hi ≤ c ∨ c + 2 ^ (b + 2) ≤ lo := by
  obtain ⟨-, -, -, -, -, cell⟩ := wf.bin x _ isBin
  have isCell := cell c free
  have bounds := isCell.bounds
  obtain ⟨y, l, isBinY, inBin, above, -, proper, within⟩ := wf.slot_bin slot
  by_cases same : y = x
  · subst same
    obtain rfl : l = .small b := Option.some.inj (isBinY.symm.trans isBin)
    obtain ⟨isCellY, taken, rfl⟩ := inBin
    refine isCellY.disjoint isCell ?_
    rintro rfl
    exact taken free
  · have apart := wf.placed.apart y x l _ isBinY isBin same
    have header := l.header_ge
    rw [Bin.pages_small] at apart
    omega

/-- A slot does not reach into a free big block. -/
theorem WellFormed.slot_freeBlock (wf : WellFormed h base L) {lo hi x n : Nat}
    (slot : L.Slot lo hi) (isBin : L.bins x = some (.big n)) (free : x ∈ L.level 0) :
    hi ≤ x ∨ x + 0x1000 * n ≤ lo := by
  obtain ⟨y, l, isBinY, inBin, above, -, proper, within⟩ := wf.slot_bin slot
  have different : y ≠ x := by
    rintro rfl
    obtain rfl : l = .big n := Option.some.inj (isBinY.symm.trans isBin)
    exact inBin.1 free
  have apart := wf.placed.apart y x l _ isBinY isBin different
  have header := l.header_ge
  rw [Bin.pages_big] at apart
  omega

/-- No slot is where the next big block is handed out. -/
theorem WellFormed.slot_ne_next (wf : WellFormed h base L) {lo hi x : Nat} (slot : L.Slot lo hi)
    (next : x ∈ L.level 0 ∨ x = h.heapEnd) : lo ≠ x + 48 := by
  rintro rfl
  have range := wf.slot_range slot
  rcases next with free | rfl
  · obtain ⟨n, isBin⟩ := wf.skip.bin x free
    have apart := wf.slot_freeBlock slot isBin free
    have pages : 0 < n := (wf.placed.range x _ isBin).2.1
    omega
  · omega

/-- Different slots are disjoint. -/
theorem WellFormed.slot_disjoint (wf : WellFormed h base L) {lo hi lo' hi' : Nat}
    (slot : L.Slot lo hi) (slot' : L.Slot lo' hi') (different : lo ≠ lo') :
    hi ≤ lo' ∨ hi' ≤ lo := by
  obtain ⟨x, k, isBin, inBin, above, -, proper, within⟩ := wf.slot_bin slot
  obtain ⟨y, l, isBinY, inBinY, aboveY, -, properY, withinY⟩ := wf.slot_bin slot'
  by_cases same : x = y
  · subst same
    obtain rfl : k = l := Option.some.inj (isBin.symm.trans isBinY)
    cases k with
    | small b =>
        obtain ⟨isCell, -, rfl⟩ := inBin
        obtain ⟨isCellY, -, rfl⟩ := inBinY
        exact isCell.disjoint isCellY different
    | big n =>
        obtain ⟨-, rfl, -⟩ := inBin
        obtain ⟨-, rfl, -⟩ := inBinY
        exact absurd rfl different
  · have apart := wf.placed.apart x y k l isBin isBinY same
    have header := k.header_ge
    have headerY := l.header_ge
    omega

/-- Callers may write below the heap and inside the slots. -/
theorem WellFormed.writeSlots (wf : WellFormed h base L) {m : Memory}
    (bytes : ∀ a, base ≤ a → a < h.heapEnd → (∀ lo hi, L.Slot lo hi → a < lo ∨ hi ≤ a) →
      m a = h.mem a) :
    WellFormed { h with mem := m } base L := by
  have headerWord : ∀ x k, L.bins x = some k → ∀ o, o + 4 ≤ k.header →
      m.read32 (x + o) = h.mem.read32 (x + o) := by
    intro x k isBin o low
    have range := wf.placed.range x k isBin
    have pages : k.header ≤ 0x1000 * k.pages := wf.header_le isBin
    refine Memory.read32_congr fun i bound => bytes _ (by omega) (by omega) fun lo hi slot => ?_
    have apart := wf.slot_header slot isBin
    omega
  refine ⟨wf.basePage, wf.placementLt, wf.baseLe, wf.endPage, wf.endLe, wf.placed, ?_, ?_, ?_,
    wf.newest⟩
  · intro x k isBin
    refine (wf.bin x k isBin).congr (wf.page isBin) rfl Iff.rfl ?_
    intro a aligned reads
    have header := k.header_ge
    have range := wf.placed.range x k isBin
    have page := wf.page isBin
    have within := (wf.bin x k isBin).reads_range reads
    cases k with
    | small b =>
        rcases reads with rfl | rfl | rfl | free
        · exact headerWord x _ isBin 4 (by omega)
        · exact headerWord x _ isBin 8 (by omega)
        · exact headerWord x _ isBin 12 (by omega)
        · refine Memory.read32_congr fun i bound =>
            bytes _ (by omega) (by omega) fun lo hi slot => ?_
          have apart := wf.slot_freeCell slot isBin free
          have width := four_le_two_pow b
          omega
    | big n =>
        rcases reads with rfl | rfl | rfl | ⟨rfl, free⟩
        · exact headerWord x _ isBin 4 (by omega)
        · exact headerWord x _ isBin 8 (by omega)
        · exact headerWord x _ isBin 12 (by omega)
        · refine Memory.read32_congr fun i bound =>
            bytes _ (by omega) (by omega) fun lo hi slot => ?_
          have apart := wf.slot_freeBlock slot isBin free
          have pages := (wf.placed.range x _ isBin).2.1
          rw [Bin.pages_big] at pages
          omega
  · intro b bucket
    have ok := wf.chain b bucket
    refine ok.congr rfl rfl (fun _ _ => rfl) (fun x member => (ok.bin x member).2) ?_
    intro x member
    exact headerWord x _ (ok.bin x member).1 0 (by simp)
  · refine wf.skip.congr rfl rfl rfl (fun _ _ => rfl) ?_ ?_
    · intro x member
      obtain ⟨n, isBig⟩ := wf.skip.bin x member
      exact headerWord x _ isBig 8 (by simp)
    · intro x member i within
      obtain ⟨n, isBig⟩ := wf.skip.bin x member
      rw [Nat.add_assoc]
      refine headerWord x _ isBig (20 + 4 * i) ?_
      rw [Bin.header_big]
      omega

/-! ### What the operations do to the slots -/

theorem slot_takeCell {b x c : Nat} {cs : List Nat} (isBin : L.bins x = some (.small b))
    (free : L.free x = c :: cs) {lo hi : Nat} (slot : L.Slot lo hi) :
    (L.takeCell b x cs).Slot lo hi := by
  obtain ⟨y, k, isBinY, inBin⟩ := slot
  refine ⟨y, k, isBinY, ?_⟩
  cases k with
  | big n => exact inBin
  | small b' =>
      obtain ⟨isCell, taken, rfl⟩ := inBin
      refine ⟨isCell, ?_, rfl⟩
      by_cases same : y = x
      · subst same
        rw [takeCell_free_self]
        rw [free] at taken
        exact fun member => taken (List.mem_cons_of_mem c member)
      · rwa [takeCell_free_of_ne b cs same]

theorem slot_returnCell {b x c : Nat} {lo hi : Nat} (slot : L.Slot lo hi) (notC : lo ≠ c) :
    (L.returnCell b x c).Slot lo hi := by
  obtain ⟨y, k, isBinY, inBin⟩ := slot
  refine ⟨y, k, isBinY, ?_⟩
  cases k with
  | big n => exact inBin
  | small b' =>
      obtain ⟨isCell, taken, rfl⟩ := inBin
      refine ⟨isCell, ?_, rfl⟩
      by_cases same : y = x
      · subst same
        rw [returnCell_free_self]
        simp [notC, taken]
      · rwa [returnCell_free_of_ne b c same]

/-- Slots when the skip list changes: blocks other than `x` are in the list
before and after. -/
theorem slot_relist (L L' : Layout) {x : Nat} (bins : L'.bins = L.bins) (free : L'.free = L.free)
    (level : ∀ y, y ≠ x → y ∉ L.level 0 → y ∉ L'.level 0) {lo hi : Nat} (slot : L.Slot lo hi)
    (notX : lo ≠ x + 48 ∨ x ∉ L'.level 0) : L'.Slot lo hi := by
  obtain ⟨y, k, isBinY, inBin⟩ := slot
  refine ⟨y, k, by rw [bins, isBinY], ?_⟩
  cases k with
  | small b =>
      simp only [Layout.InBin, free]
      exact inBin
  | big n =>
      obtain ⟨taken, rfl, rfl⟩ := inBin
      refine ⟨?_, rfl, rfl⟩
      by_cases same : y = x
      · subst same
        exact notX.resolve_left (by simp)
      · exact level y same taken

/-- Slots when a bin is added where none was. -/
theorem slot_grow (L' : Layout) {x : Nat} (fresh : L.bins x = none)
    (bins : ∀ y, y ≠ x → L'.bins y = L.bins y) (free : ∀ y, y ≠ x → L'.free y = L.free y)
    (level : L'.level = L.level) {lo hi : Nat} (slot : L.Slot lo hi) : L'.Slot lo hi := by
  obtain ⟨y, k, isBinY, inBin⟩ := slot
  have notX : y ≠ x := by
    rintro rfl
    rw [fresh] at isBinY
    contradiction
  refine ⟨y, k, (bins y notX).trans isBinY, ?_⟩
  cases k with
  | small b =>
      simp only [Layout.InBin, free y notX]
      exact inBin
  | big n =>
      simp only [Layout.InBin, level]
      exact inBin

theorem WellFormed.bins_heapEnd (wf : WellFormed h base L) : L.bins h.heapEnd = none := by
  cases isBin : L.bins h.heapEnd with
  | none => rfl
  | some k =>
      have below := wf.below isBin
      omega

end Balloon.Allocator
