import Mathlib.Order.Lattice
import Mathlib.Tactic.ByContra
import Balloon.Foundation.LinkedPath

/-!
Owns skip lists as a family of linked paths: `next p i` is the node after
position `p` on level `i`, level 0 holds every node, and each level is a
sublist of the one below. The module owns the descending search that collects
the last position before a bound on every level, and what linking a node in or
out at those positions does to the family. Keys are seen only through a test
`before` that holds on a prefix of level 0.
-/

namespace Balloon.Foundation

universe u

variable {α : Type u}

/-! ### Tests that hold on a prefix -/

/-- Whenever a node passes the test, so does every node listed before it. -/
def PrefixClosed (before : α → Bool) (xs : List α) : Prop :=
  xs.Pairwise fun x y => before y = true → before x = true

namespace PrefixClosed

variable {before : α → Bool} {xs ys : List α}

theorem sublist (closed : PrefixClosed before ys) (sub : xs.Sublist ys) :
    PrefixClosed before xs := List.Pairwise.sublist sub closed

private theorem filter_nil_of_head {x : α} (closed : PrefixClosed before (x :: xs))
    (fails : ¬ before x = true) : (x :: xs).filter before = [] := by
  rw [List.filter_eq_nil_iff]
  intro y member passes
  rcases List.mem_cons.mp member with rfl | inTail
  · exact fails passes
  · exact fails ((List.pairwise_cons.mp closed).1 y inTail passes)

theorem takeWhile_eq_filter (closed : PrefixClosed before xs) :
    xs.takeWhile before = xs.filter before := by
  induction xs with
  | nil => rfl
  | cons x rest inductionHypothesis =>
      by_cases passes : before x = true
      · rw [List.takeWhile_cons_of_pos passes, List.filter_cons_of_pos passes,
          inductionHypothesis (List.pairwise_cons.mp closed).2]
      · rw [List.takeWhile_cons_of_neg passes, closed.filter_nil_of_head passes]

theorem filter_append_filter (closed : PrefixClosed before xs) :
    xs.filter before ++ xs.filter (fun x => !before x) = xs := by
  induction xs with
  | nil => rfl
  | cons x rest inductionHypothesis =>
      by_cases passes : before x = true
      · rw [List.filter_cons_of_pos passes, List.filter_cons_of_neg (by simp [passes]),
          List.cons_append, inductionHypothesis (List.pairwise_cons.mp closed).2]
      · have none_pass := closed.filter_nil_of_head passes
        rw [none_pass, List.nil_append, List.filter_eq_self]
        intro y member
        have fails := List.filter_eq_nil_iff.mp none_pass y member
        simpa using fails

end PrefixClosed

/-! ### The family of levels -/

/-- The successors lay out the listed levels: `top` is the highest level in
use and `height` the highest a node can have. -/
structure SkipList (next : Option α → Nat → Option α) (height top : Nat)
    (levels : Nat → List α) : Prop where
  path : ∀ i, i ≤ height → Path (fun p => next p i) none (levels i)
  sublist : ∀ i, (levels (i + 1)).Sublist (levels i)
  nodup : (levels 0).Nodup
  topLe : top ≤ height
  empty : ∀ i, top < i → levels i = []

/-- Records, from level `i` down to level 0, the last position before the
bound; `none` when the fuel runs out. -/
def descend (next : Option α → Nat → Option α) (before : α → Bool) (fuel : Nat) :
    Nat → Option α → (Nat → Option α) → Option (Nat → Option α)
  | 0, position, update =>
      (advance (fun p => next p 0) before fuel position).map fun reached =>
        Function.update update 0 reached
  | i + 1, position, update =>
      (advance (fun p => next p (i + 1)) before fuel position).bind fun reached =>
        descend next before fuel i reached (Function.update update (i + 1) reached)

/-- The last position before the bound on one level. -/
abbrev boundary (before : α → Bool) (xs : List α) : Option α := lastFrom none (xs.filter before)

private theorem advance_boundary {next : Option α → Option α} {before : α → Bool}
    {position : Option α} {xs : List α} (path : Path next none xs)
    (closed : PrefixClosed before xs)
    (start : position = none ∨ ∃ y ∈ xs, before y = true ∧ position = some y)
    {fuel : Nat} (enough : xs.length < fuel) :
    advance next before fuel position = some (boundary before xs) := by
  rcases start with rfl | ⟨y, member, passes, rfl⟩
  · rw [advance_path path enough, closed.takeWhile_eq_filter]
  · obtain ⟨left, right, rfl⟩ := List.append_of_mem member
    have leftPasses : ∀ x ∈ left, before x = true := by
      intro x inLeft
      exact (List.pairwise_append.mp closed).2.2 x inLeft y (by simp) passes
    have rightClosed : PrefixClosed before right :=
      closed.sublist ((List.sublist_cons_self y right).trans (List.sublist_append_right left _))
    have enoughRight : right.length < fuel := by
      simp only [List.length_append, List.length_cons] at enough
      omega
    rw [advance_path path.suffix enoughRight, rightClosed.takeWhile_eq_filter]
    rw [boundary, List.filter_append, List.filter_eq_self.mpr leftPasses,
      List.filter_cons_of_pos passes, lastFrom_append, lastFrom_cons]

private theorem boundary_start {before : α → Bool} {xs ys : List α} (sub : xs.Sublist ys) :
    boundary before xs = none ∨
      ∃ y ∈ ys, before y = true ∧ boundary before xs = some y := by
  cases reached : boundary before xs with
  | none => exact Or.inl rfl
  | some y =>
      have member := List.mem_filter.mp (mem_of_lastFrom_none reached)
      exact Or.inr ⟨y, sub.subset member.1, member.2, rfl⟩

namespace SkipList

variable {next next' : Option α → Nat → Option α} {height top : Nat} {levels : Nat → List α}
  {before : α → Bool}

theorem sublist_zero (skip : SkipList next height top levels) (i : Nat) :
    (levels i).Sublist (levels 0) := by
  induction i with
  | zero => exact List.Sublist.refl _
  | succ i inductionHypothesis => exact (skip.sublist i).trans inductionHypothesis

theorem nodup_level (skip : SkipList next height top levels) (i : Nat) : (levels i).Nodup :=
  skip.nodup.sublist (skip.sublist_zero i)

private theorem descend_from (skip : SkipList next height top levels)
    (closed : PrefixClosed before (levels 0)) {fuel : Nat} (enough : (levels 0).length < fuel) :
    ∀ (i : Nat) (position : Option α) (update : Nat → Option α), i ≤ height →
      (position = none ∨ ∃ y ∈ levels i, before y = true ∧ position = some y) →
      ∃ update', descend next before fuel i position update = some update' ∧
        (∀ j, j ≤ i → update' j = boundary before (levels j)) ∧
        ∀ j, i < j → update' j = update j := by
  intro i
  induction i with
  | zero =>
      intro position update _ start
      have reach := advance_boundary (skip.path 0 (Nat.zero_le _)) closed start enough
      refine ⟨Function.update update 0 (boundary before (levels 0)), by simp [descend, reach],
        ?_, ?_⟩
      · intro j bound
        obtain rfl : j = 0 := by omega
        simp
      · intro j above
        simp [Function.update_of_ne (by omega : j ≠ 0)]
  | succ i inductionHypothesis =>
      intro position update within start
      have levelEnough : (levels (i + 1)).length < fuel :=
        lt_of_le_of_lt (skip.sublist_zero (i + 1)).length_le enough
      have reach := advance_boundary (skip.path (i + 1) within)
        (closed.sublist (skip.sublist_zero (i + 1))) start levelEnough
      obtain ⟨update', found, low, high⟩ := inductionHypothesis
        (boundary before (levels (i + 1)))
        (Function.update update (i + 1) (boundary before (levels (i + 1)))) (by omega)
        (boundary_start (skip.sublist i))
      refine ⟨update', by simp [descend, reach, found], ?_, ?_⟩
      · intro j bound
        rcases Nat.lt_or_ge i j with above | below
        · obtain rfl : j = i + 1 := by omega
          rw [high _ above, Function.update_self]
        · exact low j below
      · intro j above
        rw [high j (by omega), Function.update_of_ne (by omega)]

/-- The descending search ends with the boundary position of every level in
use. -/
theorem descend_spec (skip : SkipList next height top levels)
    (closed : PrefixClosed before (levels 0)) {fuel : Nat} (enough : (levels 0).length < fuel)
    (update : Nat → Option α) :
    ∃ update', descend next before fuel top none update = some update' ∧
      (∀ i, i ≤ top → update' i = boundary before (levels i)) ∧
      ∀ i, top < i → update' i = update i :=
  skip.descend_from closed enough top none update skip.topLe (Or.inl rfl)

/-- The node after the boundary of a level is the first node past the bound. -/
theorem next_boundary (skip : SkipList next height top levels)
    (closed : PrefixClosed before (levels 0)) {i : Nat} (within : i ≤ height) :
    next (boundary before (levels i)) i = ((levels i).filter fun x => !before x).head? := by
  have path := skip.path i within
  rw [← (closed.sublist (skip.sublist_zero i)).filter_append_filter] at path
  exact path.next_lastFrom

/-! ### Linking in and out -/

/-- The levels after a node of level `level` is linked in at the boundaries. -/
def insertLevels (levels : Nat → List α) (before : α → Bool) (v : α) (level : Nat) :
    Nat → List α :=
  fun i =>
    if i ≤ level then
      (levels i).filter before ++ v :: (levels i).filter fun x => !before x
    else levels i

/-- Linking a fresh node in at the boundary of every level up to its own. -/
theorem insert (skip : SkipList next height top levels) (closed : PrefixClosed before (levels 0))
    {v : α} (fresh : v ∉ levels 0) {level : Nat} (levelLe : level ≤ height)
    (linkIn : ∀ i, i ≤ level → next' (boundary before (levels i)) i = some v)
    (linkOut : ∀ i, i ≤ level → next' (some v) i = next (boundary before (levels i)) i)
    (same : ∀ i, i ≤ height → ∀ p, (∀ x, p = some x → x ∈ levels i) →
      (i ≤ level → p ≠ boundary before (levels i)) → next' p i = next p i) :
    SkipList next' height (max top level) (insertLevels levels before v level) where
  path := by
    intro i within
    have closedLevel := closed.sublist (skip.sublist_zero i)
    have path := skip.path i within
    by_cases inLevel : i ≤ level
    · rw [insertLevels, if_pos inLevel]
      have distinct := skip.nodup_level i
      rw [← closedLevel.filter_append_filter] at path distinct
      refine path.insert distinct (linkIn i inLevel) (linkOut i inLevel) ?_
      intro p inside notBoundary
      rw [closedLevel.filter_append_filter] at inside
      exact same i within p inside fun _ => notBoundary
    · rw [insertLevels, if_neg inLevel]
      refine path.congr ?_
      intro p member
      refine same i within p ?_ fun contradictory => absurd contradictory inLevel
      rintro x rfl
      simpa using member
  sublist := by
    intro i
    unfold insertLevels
    by_cases upper : i + 1 ≤ level
    · rw [if_pos upper, if_pos (by omega)]
      exact ((skip.sublist i).filter _).append (((skip.sublist i).filter _).cons_cons v)
    · rw [if_neg upper]
      by_cases lower : i ≤ level
      · rw [if_pos lower]
        refine (skip.sublist i).trans ?_
        conv_lhs => rw [← (closed.sublist (skip.sublist_zero i)).filter_append_filter]
        exact (List.Sublist.refl _).append (List.sublist_cons_self v _)
      · rw [if_neg lower]
        exact skip.sublist i
  nodup := by
    rw [insertLevels, if_pos (Nat.zero_le level)]
    refine (List.perm_middle.nodup_iff).mpr ?_
    rw [closed.filter_append_filter]
    exact List.nodup_cons.mpr ⟨fresh, skip.nodup⟩
  topLe := max_le skip.topLe levelLe
  empty := by
    intro i above
    have aboveTop : top < i := lt_of_le_of_lt (le_max_left _ _) above
    have aboveLevel : level < i := lt_of_le_of_lt (le_max_right _ _) above
    rw [insertLevels, if_neg (by omega), skip.empty i aboveTop]

/-- On every level that lists it, the first node past the bound follows the
boundary. -/
theorem level_split (skip : SkipList next height top levels)
    (closed : PrefixClosed before (levels 0)) {v : α} {rest : List α}
    (first : (levels 0).filter (fun x => !before x) = v :: rest) {i : Nat}
    (member : v ∈ levels i) :
    ∃ tail, levels i = (levels i).filter before ++ v :: tail := by
  have fails : before v = false := by
    have inFilter : v ∈ (levels 0).filter (fun x => !before x) := by rw [first]; simp
    simpa using (List.mem_filter.mp inFilter).2
  have sub : ((levels i).filter fun x => !before x).Sublist (v :: rest) := by
    rw [← first]
    exact (skip.sublist_zero i).filter _
  have inTail : v ∈ (levels i).filter fun x => !before x := by simp [member, fails]
  have notInRest : v ∉ rest := by
    have distinct : (v :: rest).Nodup := by
      rw [← first]
      exact skip.nodup.filter _
    exact (List.nodup_cons.mp distinct).1
  obtain ⟨tail, split⟩ : ∃ tail, ((levels i).filter fun x => !before x) = v :: tail := by
    generalize (levels i).filter (fun x => !before x) = past at sub inTail
    cases sub with
    | cons _ tailSub => exact absurd (tailSub.subset inTail) notInRest
    | cons_cons _ _ => exact ⟨_, rfl⟩
  refine ⟨tail, ?_⟩
  rw [← split]
  exact (closed.sublist (skip.sublist_zero i)).filter_append_filter.symm

variable [DecidableEq α]

/-- The levels after a node is linked out everywhere. -/
def eraseLevels (levels : Nat → List α) (v : α) : Nat → List α := fun i => (levels i).erase v

/-- Linking the first node past the bound out of every level that lists it. -/
theorem erase (skip : SkipList next height top levels) (closed : PrefixClosed before (levels 0))
    {v : α} {rest : List α} (first : (levels 0).filter (fun x => !before x) = v :: rest)
    (bypass : ∀ i, i ≤ height → v ∈ levels i →
      next' (boundary before (levels i)) i = next (some v) i)
    (same : ∀ i, i ≤ height → ∀ p, (∀ x, p = some x → x ∈ levels i ∧ x ≠ v) →
      (v ∈ levels i → p ≠ boundary before (levels i)) → next' p i = next p i) :
    SkipList next' height top (eraseLevels levels v) where
  path := by
    intro i within
    have path := skip.path i within
    have distinct := skip.nodup_level i
    by_cases listed : v ∈ levels i
    · obtain ⟨tail, split⟩ := skip.level_split closed first listed
      have erased : (levels i).erase v = (levels i).filter before ++ tail := by
        have fresh : v ∉ (levels i).filter before := by
          rw [split] at distinct
          intro inLeft
          exact (List.nodup_append.mp distinct).2.2 v inLeft v (by simp) rfl
        conv_lhs => rw [split]
        rw [List.erase_append_right _ fresh, List.erase_cons_head]
      rw [eraseLevels, erased]
      rw [split] at path distinct
      refine path.remove distinct (bypass i within listed) ?_
      intro p inside notBoundary
      refine same i within p ?_ fun _ => notBoundary
      intro x equal
      have inErased : x ∈ (levels i).erase v := by
        rw [erased]
        exact inside x equal
      exact ⟨List.mem_of_mem_erase inErased,
        fun isV => (skip.nodup_level i).not_mem_erase (isV ▸ inErased)⟩
    · rw [eraseLevels, List.erase_of_not_mem listed]
      refine path.congr ?_
      intro p member
      refine same i within p ?_ fun contradictory => absurd contradictory listed
      rintro x rfl
      have inLevel : x ∈ levels i := by simpa using member
      exact ⟨inLevel, fun isV => listed (isV ▸ inLevel)⟩
  sublist := fun i => (skip.sublist i).erase v
  nodup := skip.nodup.erase v
  topLe := skip.topLe
  empty := by
    intro i above
    rw [eraseLevels, skip.empty i above]
    rfl

omit [DecidableEq α] in
/-- The highest level in use may drop past empty levels. -/
theorem lower (skip : SkipList next height top levels) {top' : Nat} (lowered : top' ≤ top)
    (empty : ∀ i, top' < i → levels i = []) : SkipList next height top' levels :=
  ⟨skip.path, skip.sublist, skip.nodup, lowered.trans skip.topLe, empty⟩

omit [DecidableEq α] in
/-- A skip list reads the successors of the anchor and of its own nodes. -/
theorem congr (skip : SkipList next height top levels)
    (same : ∀ i, i ≤ height → ∀ p, (∀ x, p = some x → x ∈ levels i) → next' p i = next p i) :
    SkipList next' height top levels := by
  refine ⟨fun i within => (skip.path i within).congr fun p member => ?_, skip.sublist,
    skip.nodup, skip.topLe, skip.empty⟩
  refine same i within p ?_
  rintro x rfl
  simpa using member

end SkipList

end Balloon.Foundation
