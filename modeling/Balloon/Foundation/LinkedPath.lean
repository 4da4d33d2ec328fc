import Mathlib.Algebra.Group.Nat.Defs
import Mathlib.Algebra.Group.Int.Defs
import Mathlib.Data.List.Nodup
import Mathlib.Data.List.Rotate
import Mathlib.Data.List.Basic

/-!
Owns singly linked lists seen through a successor function. A position is a
node `some x` or the anchor `none` that holds the pointer to the first node;
`next` gives the node after a position. `Path next none xs` says that the list
anchored at `none` is exactly `xs`. The module owns how a path changes when
successors change (push, pop, insert, remove), that a path is unique, and the
fuelled walk that passes over a prefix of the nodes.
-/

namespace Balloon.Foundation

universe u

variable {α : Type u}

/-- Following `next` from a position visits the listed nodes. -/
def Segment (next : Option α → Option α) : Option α → List α → Prop
  | _, [] => True
  | position, x :: rest => next position = some x ∧ Segment next (some x) rest

/-- Following `next` from a position visits exactly the listed nodes and then
stops. -/
def Path (next : Option α → Option α) : Option α → List α → Prop
  | position, [] => next position = none
  | position, x :: rest => next position = some x ∧ Path next (some x) rest

/-- The position reached after the listed nodes. -/
def lastFrom : Option α → List α → Option α
  | position, [] => position
  | _, x :: rest => lastFrom (some x) rest

@[simp] theorem lastFrom_nil (position : Option α) : lastFrom position [] = position := rfl

@[simp] theorem lastFrom_cons (position : Option α) (x : α) (rest : List α) :
    lastFrom position (x :: rest) = lastFrom (some x) rest := rfl

theorem lastFrom_append (position : Option α) (xs ys : List α) :
    lastFrom position (xs ++ ys) = lastFrom (lastFrom position xs) ys := by
  induction xs generalizing position with
  | nil => rfl
  | cons x rest inductionHypothesis => exact inductionHypothesis (some x)

theorem lastFrom_mem (position : Option α) (xs : List α) :
    lastFrom position xs ∈ position :: xs.map some := by
  induction xs generalizing position with
  | nil => simp
  | cons x rest inductionHypothesis =>
      exact List.mem_cons_of_mem position (inductionHypothesis (some x))

theorem mem_of_lastFrom_none {xs : List α} {x : α} (found : lastFrom none xs = some x) :
    x ∈ xs := by
  have member := lastFrom_mem none xs
  rw [found] at member
  simpa using member

/-! ### Segments -/

theorem segment_append {next : Option α → Option α} {position : Option α} {xs ys : List α} :
    Segment next position (xs ++ ys) ↔
      Segment next position xs ∧ Segment next (lastFrom position xs) ys := by
  induction xs generalizing position with
  | nil => simp [Segment]
  | cons x rest inductionHypothesis =>
      simp only [List.cons_append, Segment, inductionHypothesis, lastFrom_cons, and_assoc]

/-- A segment does not read the successor of its last position. -/
theorem Segment.congr {next next' : Option α → Option α} {position : Option α} {xs : List α}
    (segment : Segment next position xs) (distinct : (position :: xs.map some).Nodup)
    (same : ∀ p ∈ position :: xs.map some, p ≠ lastFrom position xs → next' p = next p) :
    Segment next' position xs := by
  induction xs generalizing position with
  | nil => trivial
  | cons x rest inductionHypothesis =>
      have notLast : position ≠ lastFrom position (x :: rest) := by
        intro equal
        have member := lastFrom_mem (some x) rest
        rw [← lastFrom_cons position, ← equal] at member
        exact (List.nodup_cons.mp distinct).1 member
      refine ⟨(same position (by simp) notLast).trans segment.1,
        inductionHypothesis segment.2 (List.nodup_cons.mp distinct).2 ?_⟩
      intro p member
      exact same p (List.mem_cons_of_mem position member)

namespace Path

variable {next next' : Option α → Option α} {position : Option α} {xs ys : List α}

theorem iff_segment :
    Path next position xs ↔ Segment next position xs ∧ next (lastFrom position xs) = none := by
  induction xs generalizing position with
  | nil => simp [Path, Segment]
  | cons x rest inductionHypothesis =>
      simp only [Path, Segment, inductionHypothesis, lastFrom_cons, and_assoc]

theorem append_iff :
    Path next position (xs ++ ys) ↔
      Segment next position xs ∧ Path next (lastFrom position xs) ys := by
  rw [iff_segment, iff_segment, segment_append, lastFrom_append, and_assoc]

/-- A path reads the successors of its own positions only. -/
theorem congr (path : Path next position xs)
    (same : ∀ p ∈ position :: xs.map some, next' p = next p) : Path next' position xs := by
  induction xs generalizing position with
  | nil => exact (same position (by simp)).trans path
  | cons x rest inductionHypothesis =>
      refine ⟨(same position (by simp)).trans path.1, inductionHypothesis path.2 ?_⟩
      intro p member
      exact same p (List.mem_cons_of_mem position member)

/-- The nodes of a path are determined by the successors. -/
theorem unique (first : Path next position xs) (second : Path next position ys) : xs = ys := by
  induction xs generalizing position ys with
  | nil =>
      cases ys with
      | nil => rfl
      | cons y rest =>
          have contradictory := second.1
          rw [show next position = none from first] at contradictory
          contradiction
  | cons x rest inductionHypothesis =>
      cases ys with
      | nil =>
          have contradictory := first.1
          rw [show next position = none from second] at contradictory
          contradiction
      | cons y rest' =>
          have same : x = y := Option.some.inj (first.1.symm.trans second.1)
          subst same
          rw [inductionHypothesis first.2 second.2]

/-- The node after the first part of a path heads the second part. -/
theorem next_lastFrom (path : Path next position (xs ++ ys)) :
    next (lastFrom position xs) = ys.head? := by
  have tail := (append_iff.mp path).2
  cases ys with
  | nil => exact tail
  | cons y rest => exact tail.1

/-- The path from a node inside a path. -/
theorem suffix {x : α} (path : Path next position (xs ++ x :: ys)) : Path next (some x) ys :=
  (append_iff.mp path).2.2

private theorem nodup_anchor (distinct : xs.Nodup) : (none :: xs.map some).Nodup := by
  rw [List.nodup_cons]
  exact ⟨by simp, distinct.map fun _ _ equal => Option.some.inj equal⟩

private theorem lastFrom_ne_of_mem (distinct : (xs ++ ys).Nodup) {y : α} (member : y ∈ ys) :
    some y ≠ lastFrom none xs := by
  intro equal
  have inLeft := mem_of_lastFrom_none equal.symm
  exact (List.nodup_append.mp distinct).2.2 y inLeft y member rfl

private theorem mem_of_position {p : Option α} (member : p ∈ none :: xs.map some) :
    ∀ x, p = some x → x ∈ xs := by
  rintro x rfl
  simpa using member

/-- Linking a node in after the first part of a path. -/
theorem insert {v : α} (path : Path next none (xs ++ ys)) (distinct : (xs ++ ys).Nodup)
    (linkIn : next' (lastFrom none xs) = some v)
    (linkOut : next' (some v) = next (lastFrom none xs))
    (same : ∀ p, (∀ x, p = some x → x ∈ xs ++ ys) → p ≠ lastFrom none xs → next' p = next p) :
    Path next' none (xs ++ v :: ys) := by
  obtain ⟨before, after⟩ := append_iff.mp path
  have distinctBefore : (none :: xs.map some).Nodup :=
    nodup_anchor (distinct.sublist (List.sublist_append_left xs ys))
  have sameAfter : ∀ y ∈ ys, next' (some y) = next (some y) := by
    intro y member
    refine same (some y) ?_ (lastFrom_ne_of_mem distinct member)
    rintro x ⟨⟩
    exact List.mem_append_right xs member
  refine append_iff.mpr ⟨before.congr distinctBefore ?_, linkIn, ?_⟩
  · intro p member
    exact same p fun x equal => List.mem_append_left ys (mem_of_position member x equal)
  · cases ys with
    | nil => exact linkOut.trans after
    | cons y rest =>
        refine ⟨linkOut.trans after.1, after.2.congr ?_⟩
        intro p member
        obtain ⟨z, inTail, rfl⟩ := List.mem_map.mp (by simpa using member :
          p ∈ (y :: rest).map some)
        exact sameAfter z inTail

/-- Unlinking the node that follows the first part of a path. -/
theorem remove {v : α} (path : Path next none (xs ++ v :: ys))
    (distinct : (xs ++ v :: ys).Nodup) (bypass : next' (lastFrom none xs) = next (some v))
    (same : ∀ p, (∀ x, p = some x → x ∈ xs ++ ys) → p ≠ lastFrom none xs → next' p = next p) :
    Path next' none (xs ++ ys) := by
  obtain ⟨before, -, after⟩ := append_iff.mp path
  have distinctBefore : (none :: xs.map some).Nodup :=
    nodup_anchor (distinct.sublist (List.sublist_append_left xs (v :: ys)))
  have sameAfter : ∀ y ∈ ys, next' (some y) = next (some y) := by
    intro y member
    refine same (some y) ?_ (lastFrom_ne_of_mem distinct (List.mem_cons_of_mem v member))
    rintro x ⟨⟩
    exact List.mem_append_right xs member
  refine append_iff.mpr ⟨before.congr distinctBefore ?_, ?_⟩
  · intro p member
    exact same p fun x equal => List.mem_append_left ys (mem_of_position member x equal)
  · cases ys with
    | nil => exact bypass.trans after
    | cons y rest =>
        refine ⟨bypass.trans after.1, after.2.congr ?_⟩
        intro p member
        obtain ⟨z, inTail, rfl⟩ := List.mem_map.mp (by simpa using member :
          p ∈ (y :: rest).map some)
        exact sameAfter z inTail

/-- Linking a node in at the anchor. -/
theorem push {v : α} (path : Path next none xs) (distinct : xs.Nodup)
    (linkIn : next' none = some v) (linkOut : next' (some v) = next none)
    (same : ∀ x ∈ xs, next' (some x) = next (some x)) : Path next' none (v :: xs) := by
  have pushed : Path next' none ([] ++ v :: xs) := by
    refine Path.insert path distinct linkIn linkOut ?_
    intro p inside notAnchor
    cases p with
    | none => exact absurd rfl notAnchor
    | some x => exact same x (inside x rfl)
  exact pushed

/-- Unlinking the first node. -/
theorem pop {v : α} (path : Path next none (v :: xs)) (distinct : (v :: xs).Nodup)
    (bypass : next' none = next (some v))
    (same : ∀ x ∈ xs, next' (some x) = next (some x)) : Path next' none xs := by
  cases xs with
  | nil => exact bypass.trans path.2
  | cons x rest =>
      refine ⟨bypass.trans path.2.1, path.2.2.congr ?_⟩
      intro p member
      obtain ⟨y, inList, rfl⟩ := List.mem_map.mp (by simpa using member :
        p ∈ (x :: rest).map some)
      exact same y inList

/-- The successor of a node on a path is the next one listed. -/
theorem next_getElem (path : Path next position xs) {i : Nat} (inside : i < xs.length) :
    next (some xs[i]) = xs[i + 1]? := by
  induction xs generalizing position i with
  | nil => exact absurd inside (Nat.not_lt_zero i)
  | cons x rest inductionHypothesis =>
      cases i with
      | zero =>
          cases rest with
          | nil => exact path.2
          | cons y rest => exact path.2.1
      | succ i => exact inductionHypothesis path.2 (Nat.lt_of_succ_lt_succ inside)

/-- A path that ends meets no node twice. -/
theorem nodup (path : Path next position xs) : xs.Nodup := by
  induction xs generalizing position with
  | nil => exact List.nodup_nil
  | cons x rest inductionHypothesis =>
      refine List.nodup_cons.mpr ⟨fun again => ?_, inductionHypothesis path.2⟩
      obtain ⟨left, right, split⟩ := List.append_of_mem again
      -- Behind the second `x` lies what lies behind the first, which is longer.
      have behind : Path next (some x) right := suffix (split ▸ path.2)
      have length := congrArg List.length ((path.2.unique behind).symm.trans split)
      rw [List.length_append, List.length_cons] at length
      omega

/-- The path through consecutively numbered nodes. -/
theorem map_range' {f : Nat → α} {start count : Nat}
    (link : ∀ i, start ≤ i → i < start + count → next (some (f i)) = some (f (i + 1)))
    (last : next (some (f (start + count))) = none) :
    Path next (some (f start)) ((List.range' (start + 1) count).map f) := by
  induction count generalizing start with
  | zero => exact last
  | succ count inductionHypothesis =>
      refine ⟨link start (Nat.le_refl start) (by omega), inductionHypothesis ?_ ?_⟩
      · intro i above below
        exact link i (by omega) (by omega)
      · rw [← last]
        congr 3
        omega

end Path

/-! ### Nodes reached from the anchor -/

/-- The nodes that following `next` from the anchor comes to. -/
inductive Linked (next : Option α → Option α) : α → Prop where
  | first {x : α} (isFirst : next none = some x) : Linked next x
  | step {x y : α} (before : Linked next x) (isNext : next (some x) = some y) : Linked next y

/-- A path lists exactly the nodes reached from its anchor. -/
theorem Path.mem_iff_linked {next : Option α → Option α} {xs : List α}
    (path : Path next none xs) {x : α} : x ∈ xs ↔ Linked next x := by
  constructor
  · have reached : ∀ (ys : List α) (position : Option α), Path next position ys →
        (∀ y, position = some y → Linked next y) → ∀ y ∈ ys, Linked next y := by
      intro ys
      induction ys with
      | nil => intro _ _ _ y inNil; contradiction
      | cons z rest inductionHypothesis =>
          intro position pathFrom start y inCons
          have linkedZ : Linked next z := by
            cases position with
            | none => exact .first pathFrom.1
            | some w => exact .step (start w rfl) pathFrom.1
          rcases List.mem_cons.mp inCons with rfl | inRest
          · exact linkedZ
          · refine inductionHypothesis (some z) pathFrom.2 ?_ y inRest
            rintro w ⟨⟩
            exact linkedZ
    exact reached xs none path (by rintro y ⟨⟩) x
  · intro linked
    have follow : ∀ {position : Option α} {ys : List α} {y : α}, Path next position ys →
        next position = some y → y ∈ ys := by
      intro position ys y pathFrom isNext
      have head := Path.next_lastFrom (show Path next position ([] ++ ys) from pathFrom)
      exact List.mem_of_head? (head.symm.trans isNext)
    induction linked with
    | first isFirst => exact follow path isFirst
    | step before isNext inPath =>
        obtain ⟨left, right, split⟩ := List.append_of_mem inPath
        rw [split] at path ⊢
        exact List.mem_append_right _ (List.mem_cons_of_mem _ (follow path.suffix isNext))

/-! ### Going round a list -/

section Rounds

variable {after : α → α} {xs : List α}

/-- Steps that go round a list, from any position. -/
theorem iterate_cyclic
    (step : ∀ i (inside : i < xs.length),
      some (after xs[i]) = xs[(i + 1) % xs.length]?)
    {i : Nat} (inside : i < xs.length) (k : Nat) :
    some (after^[k] xs[i]) = xs[(i + k) % xs.length]? := by
  induction k with
  | zero => rw [Nat.add_zero, Nat.mod_eq_of_lt inside, List.getElem?_eq_getElem inside]; rfl
  | succ k inductionHypothesis =>
      have bound : (i + k) % xs.length < xs.length := Nat.mod_lt _ (by omega)
      rw [List.getElem?_eq_getElem bound] at inductionHypothesis
      rw [Function.iterate_succ_apply', Option.some.inj inductionHypothesis, step _ bound,
        Nat.mod_add_mod, Nat.add_assoc]

/-- As many steps as the list is long list it from the position on. -/
theorem map_iterate_eq_rotate
    (step : ∀ i (inside : i < xs.length),
      some (after xs[i]) = xs[(i + 1) % xs.length]?)
    {i : Nat} (inside : i < xs.length) :
    ((List.range xs.length).map fun k => after^[k + 1] xs[i]) = xs.rotate (i + 1) := by
  apply List.ext_getElem?
  intro k
  by_cases bound : k < xs.length
  · rw [List.getElem?_map, List.getElem?_range bound, Option.map_some,
      iterate_cyclic step inside, List.getElem?_rotate bound]
    congr 2
    omega
  · rw [List.getElem?_eq_none (by simpa using bound), List.getElem?_eq_none (by simpa using bound)]

end Rounds

/-! ### Walking past a prefix -/

/-- Moves along `next` while the node ahead satisfies `before`; `none` when
the fuel does not reach the end of the walk. -/
def advance (next : Option α → Option α) (before : α → Bool) :
    Nat → Option α → Option (Option α)
  | 0, _ => none
  | fuel + 1, position =>
      match next position with
      | none => some position
      | some x => if before x then advance next before fuel (some x) else some position

/-- On a path the walk stops after the longest prefix that satisfies
`before`. -/
theorem advance_path {next : Option α → Option α} {before : α → Bool} {position : Option α}
    {xs : List α} (path : Path next position xs) {fuel : Nat} (enough : xs.length < fuel) :
    advance next before fuel position = some (lastFrom position (xs.takeWhile before)) := by
  induction xs generalizing position fuel with
  | nil =>
      obtain ⟨fuel, rfl⟩ := Nat.exists_eq_succ_of_ne_zero (by omega : fuel ≠ 0)
      simp [advance, show next position = none from path]
  | cons x rest inductionHypothesis =>
      obtain ⟨fuel, rfl⟩ := Nat.exists_eq_succ_of_ne_zero (by omega : fuel ≠ 0)
      rw [List.length_cons] at enough
      by_cases passes : before x
      · simp only [advance, path.1, passes, if_true, List.takeWhile_cons_of_pos, lastFrom_cons]
        exact inductionHypothesis path.2 (by omega)
      · simp [advance, path.1, passes]

end Balloon.Foundation
