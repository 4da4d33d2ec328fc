import Balloon.Allocator.Model
import Mathlib.Tactic.Ring
import Mathlib.Tactic.Linarith

/-!
Owns the invariant of the slab allocator's bookkeeping: which pages are bins,
which cells of a small bin are on its free stack, which bins each bin list
holds, and which big blocks the skip list holds. `WellFormed` says that the
memory spells out exactly that layout. It does not own the blocks handed out
to callers.
-/

namespace Balloon.Allocator

open Balloon.Foundation
open Balloon.Libc

/-! ### Pointers as positions -/

@[simp] theorem nodeAt_zero : nodeAt 0 = none := rfl

theorem nodeAt_pos {x : Nat} (positive : 0 < x) : nodeAt x = some x := if_neg (by omega)

theorem nodeAt_eq_some_iff {w x : Nat} : nodeAt w = some x ↔ w = x ∧ 0 < x := by
  unfold nodeAt
  split
  · simp only [reduceCtorEq, false_iff]
    omega
  · rw [Option.some.injEq]
    omega

theorem nodeAt_eq_none_iff {w : Nat} : nodeAt w = none ↔ w = 0 := by
  unfold nodeAt
  split <;> simp [*]

/-! ### Cells -/

/-- Cell `c` of the small bin at `x` for sizes up to `2 ^ (bucket + 2)`. -/
def IsCell (x bucket c : Nat) : Prop :=
  ∃ i, i < 4080 / 2 ^ (bucket + 2) ∧ c = x + 16 + i * 2 ^ (bucket + 2)

theorem IsCell.bounds {x bucket c : Nat} (cell : IsCell x bucket c) :
    x + 16 ≤ c ∧ c + 2 ^ (bucket + 2) ≤ x + 0x1000 := by
  obtain ⟨i, bound, rfl⟩ := cell
  have fits : (i + 1) * 2 ^ (bucket + 2) ≤ 4080 :=
    (Nat.mul_le_mul_right _ bound).trans (Nat.div_mul_le_self 4080 _)
  rw [Nat.add_mul, Nat.one_mul] at fits
  omega

theorem four_le_two_pow (bucket : Nat) : 4 ≤ 2 ^ (bucket + 2) := by
  have positive := Nat.two_pow_pos bucket
  rw [Nat.pow_add]
  omega

theorem IsCell.aligned {x bucket c : Nat} (cell : IsCell x bucket c) (page : x % 0x1000 = 0) :
    c % 4 = 0 := by
  obtain ⟨i, -, rfl⟩ := cell
  have multiple : i * 2 ^ (bucket + 2) = 4 * (i * 2 ^ bucket) := by ring
  omega

/-- Two cells of one bin coincide or do not overlap. -/
theorem IsCell.disjoint {x bucket c d : Nat} (left : IsCell x bucket c) (right : IsCell x bucket d)
    (different : c ≠ d) : c + 2 ^ (bucket + 2) ≤ d ∨ d + 2 ^ (bucket + 2) ≤ c := by
  obtain ⟨i, -, rfl⟩ := left
  obtain ⟨j, -, rfl⟩ := right
  rcases Nat.lt_trichotomy i j with below | rfl | above
  · have step := Nat.mul_le_mul_right (2 ^ (bucket + 2)) below
    rw [Nat.succ_mul] at step
    omega
  · exact absurd rfl different
  · have step := Nat.mul_le_mul_right (2 ^ (bucket + 2)) above
    rw [Nat.succ_mul] at step
    omega

/-! ### Layouts -/

/-- What a bin holds: cells of one bucket, or one big block of whole pages. -/
inductive Bin where
  | small (bucket : Nat)
  | big (pages : Nat)
deriving DecidableEq, Repr

def Bin.pages : Bin → Nat
  | .small _ => 1
  | .big n => n

@[simp] theorem Bin.pages_small (b : Nat) : (Bin.small b).pages = 1 := rfl

@[simp] theorem Bin.pages_big (n : Nat) : (Bin.big n).pages = n := rfl

/-- A description of the heap: the bin at each header, the free stack of each
small bin, the bin list of each bucket and the levels of the skip list. -/
structure Layout where
  bins : Nat → Option Bin
  free : Nat → List Nat
  chain : Nat → List Nat
  level : Nat → List Nat

namespace Heap

/-- The free stack of the bin at `x`, anchored in its header. -/
def stackNext (h : Heap) (x : Nat) : Option Nat → Option Nat
  | none => nodeAt (h.headOf x)
  | some c => nodeAt (h.mem.read32 c)

/-- The bin list of a bucket, anchored in `klmalloc_bin_head`. -/
def chainNext (h : Heap) (bucket : Nat) : Option Nat → Option Nat
  | none => nodeAt (h.klmallocBinHead bucket)
  | some x => nodeAt (h.nextOf x)

/-- The levels of the skip list. -/
def skipNext (h : Heap) (p : Option Nat) (i : Nat) : Option Nat := nodeAt (h.forward p i)

end Heap

/-! ### What the memory spells out -/

/-- Bins are whole page runs between `base` and `limit` that do not overlap. -/
structure Layout.Placed (L : Layout) (base limit : Nat) : Prop where
  page : ∀ x k, L.bins x = some k → x % 0x1000 = 0
  range : ∀ x k, L.bins x = some k → base ≤ x ∧ 0 < k.pages ∧ x + 0x1000 * k.pages ≤ limit
  apart : ∀ x y k l, L.bins x = some k → L.bins y = some l → x ≠ y →
    x + 0x1000 * k.pages ≤ y ∨ y + 0x1000 * l.pages ≤ x

/-- The header and the free stack of one bin. A big block is free when the
skip list holds it. -/
def BinOk (h : Heap) (L : Layout) (x : Nat) : Bin → Prop
  | .small b => h.magicOf x = binMagic ∧ b < 10 ∧ h.sizeOf x = b ∧
      Path (h.stackNext x) none (L.free x) ∧ (L.free x).Nodup ∧ ∀ c ∈ L.free x, IsCell x b c
  | .big n => h.magicOf x = binMagic ∧ h.sizeOf x + 48 = 0x1000 * n ∧
      (x ∈ L.level 0 → h.headOf x = x + 48 ∧ h.mem.read32 (x + 48) = 0) ∧
      (x ∉ L.level 0 → h.headOf x = 0)

/-- The bin list of one bucket holds distinct bins of that bucket with free
cells. -/
structure ChainOk (h : Heap) (L : Layout) (b : Nat) : Prop where
  path : Path (h.chainNext b) none (L.chain b)
  nodup : (L.chain b).Nodup
  bin : ∀ x ∈ L.chain b, L.bins x = some (.small b) ∧ L.free x ≠ []

/-- The skip list holds big blocks sorted by size. -/
structure SkipOk (h : Heap) (L : Layout) : Prop where
  list : SkipList h.skipNext 6 h.klmallocBigLevel L.level
  bin : ∀ x ∈ L.level 0, ∃ n, L.bins x = some (.big n)
  sorted : (L.level 0).Pairwise fun x y => h.sizeOf x ≤ h.sizeOf y

/-- The heap from `base` on spells out the layout. -/
structure WellFormed (h : Heap) (base : Nat) (L : Layout) : Prop where
  basePage : base % 0x1000 = 0
  placementLt : h.placementPointer < base
  baseLe : base ≤ h.heapEnd
  endPage : h.heapEnd % 0x1000 = 0
  endLe : h.heapEnd ≤ 0x02000000
  placed : L.Placed base h.heapEnd
  bin : ∀ x k, L.bins x = some k → BinOk h L x k
  chain : ∀ b, b < 10 → ChainOk h L b
  skip : SkipOk h L
  newest : h.klmallocNewestBig = 0 ∨ ∃ n, L.bins h.klmallocNewestBig = some (.big n)

/-! ### Frame rules -/

/-- The words of the bin at `x` that describe it. -/
def Layout.Reads (L : Layout) (x : Nat) : Bin → Nat → Prop
  | .small _, a => a = x + 4 ∨ a = x + 8 ∨ a = x + 12 ∨ a ∈ L.free x
  | .big _, a => a = x + 4 ∨ a = x + 8 ∨ a = x + 12 ∨ (a = x + 48 ∧ x ∈ L.level 0)

theorem BinOk.reads_range {h : Heap} {L : Layout} {x a : Nat} {k : Bin} (ok : BinOk h L x k)
    (reads : L.Reads x k a) : x + 4 ≤ a ∧ a < x + 0x1000 := by
  cases k with
  | small b =>
      obtain ⟨-, -, -, -, -, cell⟩ := ok
      rcases reads with rfl | rfl | rfl | free
      · omega
      · omega
      · omega
      · have bounds := (cell a free).bounds
        have width := four_le_two_pow b
        omega
  | big n => rcases reads with rfl | rfl | rfl | ⟨rfl, -⟩ <;> omega

theorem BinOk.congr {h h' : Heap} {L L' : Layout} {x : Nat} {k : Bin} (ok : BinOk h L x k)
    (page : x % 0x1000 = 0) (free : L'.free x = L.free x)
    (taken : x ∈ L'.level 0 ↔ x ∈ L.level 0)
    (same : ∀ a, a % 4 = 0 → L.Reads x k a → h'.mem.read32 a = h.mem.read32 a) :
    BinOk h' L' x k := by
  cases k with
  | small b =>
      obtain ⟨magic, bucket, size, stack, nodup, cell⟩ := ok
      refine ⟨?_, bucket, ?_, ?_, free ▸ nodup, free ▸ cell⟩
      · exact (same (x + 12) (by omega) (by simp [Layout.Reads])).trans magic
      · exact (same (x + 8) (by omega) (by simp [Layout.Reads])).trans size
      · rw [free]
        refine stack.congr ?_
        intro p member
        cases p with
        | none => exact congrArg nodeAt (same (x + 4) (by omega) (by simp [Layout.Reads]))
        | some c =>
            have inStack : c ∈ L.free x := by simpa using member
            exact congrArg nodeAt
              (same c ((cell c inStack).aligned page) (by simp [Layout.Reads, inStack]))
  | big n =>
      obtain ⟨magic, size, freeHead, takenHead⟩ := ok
      have head : h'.headOf x = h.headOf x := same (x + 4) (by omega) (by simp [Layout.Reads])
      refine ⟨?_, ?_, ?_, ?_⟩
      · exact (same (x + 12) (by omega) (by simp [Layout.Reads])).trans magic
      · rw [show h'.sizeOf x = h.sizeOf x from
          same (x + 8) (by omega) (by simp [Layout.Reads])]
        exact size
      · intro inList
        have listed := taken.mp inList
        rw [head, same (x + 48) (by omega) (by simp [Layout.Reads, listed])]
        exact freeHead listed
      · intro notInList
        rw [head]
        exact takenHead fun inList => notInList (taken.mpr inList)

theorem ChainOk.congr {h h' : Heap} {L L' : Layout} {b : Nat} (ok : ChainOk h L b)
    (anchor : h'.klmallocBinHead b = h.klmallocBinHead b) (chain : L'.chain b = L.chain b)
    (bins : ∀ x ∈ L.chain b, L'.bins x = L.bins x)
    (free : ∀ x ∈ L.chain b, L'.free x ≠ [])
    (same : ∀ x ∈ L.chain b, h'.nextOf x = h.nextOf x) : ChainOk h' L' b where
  path := by
    rw [chain]
    refine ok.path.congr ?_
    intro p member
    cases p with
    | none => exact congrArg nodeAt anchor
    | some x => exact congrArg nodeAt (same x (by simpa using member))
  nodup := chain ▸ ok.nodup
  bin := by
    rw [chain]
    intro x member
    rw [bins x member]
    exact ⟨(ok.bin x member).1, free x member⟩

theorem SkipOk.congr {h h' : Heap} {L L' : Layout} (ok : SkipOk h L)
    (level : h'.klmallocBigLevel = h.klmallocBigLevel) (levels : L'.level = L.level)
    (anchor : h'.klmallocBigForward = h.klmallocBigForward)
    (bins : ∀ x ∈ L.level 0, L'.bins x = L.bins x)
    (size : ∀ x ∈ L.level 0, h'.sizeOf x = h.sizeOf x)
    (same : ∀ x ∈ L.level 0, ∀ i, i ≤ 6 →
      h'.mem.read32 (x + 20 + 4 * i) = h.mem.read32 (x + 20 + 4 * i)) : SkipOk h' L' where
  list := by
    rw [level, levels]
    refine ok.list.congr ?_
    intro i within p inside
    cases p with
    | none => simp only [Heap.skipNext, Heap.forward, anchor]
    | some x =>
        have inBase := (ok.list.sublist_zero i).subset (inside x rfl)
        exact congrArg nodeAt (same x inBase i within)
  bin := by
    rw [levels]
    intro x member
    rw [bins x member]
    exact ok.bin x member
  sorted := by
    rw [levels]
    refine ok.sorted.imp_of_mem ?_
    intro x y inX inY le
    rw [size x inX, size y inY]
    exact le

end Balloon.Allocator
