import Mathlib.Algebra.Group.Nat.Defs
import Mathlib.Algebra.Group.Int.Defs
import Mathlib.Data.List.Basic

/-!
Owns runs of a step function whose nondeterminism is carried by action labels:
the states a run visits, conditions on every executed step, and the rules that
turn facts about one step into facts about a whole run. A step that does not
return (`none`) ends the run.
-/

namespace Balloon.Foundation

universe u v

variable {State : Type u} {Action : Type v}

/-- The states visited by a run, its first state included. -/
def visited (step : State → Action → Option State) : State → List Action → List State
  | state, [] => [state]
  | state, action :: rest =>
      state :: match step state action with
        | none => []
        | some state' => visited step state' rest

/-- Every executed step of a run meets a condition on the state before it and
the action. -/
def EveryStep (step : State → Action → Option State) (condition : State → Action → Prop) :
    State → List Action → Prop
  | _, [] => True
  | state, action :: rest =>
      condition state action ∧
        ∀ state', step state action = some state' → EveryStep step condition state' rest

variable {step : State → Action → Option State} {condition goal : State → Action → Prop}
  {invariant good : State → Prop} {state : State} {actions : List Action}

theorem visited_cons_some {action : Action} {rest : List Action} {state' : State}
    (returns : step state action = some state') :
    visited step state (action :: rest) = state :: visited step state' rest := by
  simp [visited, returns]

theorem everyStep_cons_some {action : Action} {rest : List Action} {state' : State}
    (returns : step state action = some state') (here : condition state action)
    (later : EveryStep step condition state' rest) :
    EveryStep step condition state (action :: rest) := by
  refine ⟨here, fun other same => ?_⟩
  rw [returns] at same
  exact Option.some.inj same ▸ later

theorem mem_visited_self (step : State → Action → Option State) (state : State)
    (actions : List Action) : state ∈ visited step state actions := by
  cases actions <;> simp [visited]

/-- The last state of a run that returns is visited. -/
theorem mem_visited_of_foldlM {state' : State} (ran : actions.foldlM step state = some state') :
    state' ∈ visited step state actions := by
  induction actions generalizing state with
  | nil =>
      obtain rfl := Option.some.inj ran
      exact mem_visited_self step state []
  | cons action rest inductionHypothesis =>
      rw [List.foldlM_cons] at ran
      obtain ⟨next, returns, ranRest⟩ := Option.bind_eq_some_iff.mp ran
      rw [visited_cons_some returns]
      exact List.mem_cons_of_mem _ (inductionHypothesis ranRest)

theorem everyStep_of_forall (each : ∀ s, ∀ a ∈ actions, condition s a) :
    EveryStep step condition state actions := by
  induction actions generalizing state with
  | nil => trivial
  | cons action rest inductionHypothesis =>
      refine ⟨each state action List.mem_cons_self, fun state' _ => inductionHypothesis ?_⟩
      exact fun s a member => each s a (List.mem_cons_of_mem action member)

theorem everyStep_true (step : State → Action → Option State) (state : State)
    (actions : List Action) : EveryStep step (fun _ _ => True) state actions :=
  everyStep_of_forall fun _ _ _ => trivial

theorem EveryStep.head (every : EveryStep step condition state actions) {action : Action}
    (first : actions.head? = some action) : condition state action := by
  cases actions with
  | nil => contradiction
  | cons other rest =>
      obtain rfl := Option.some.inj first
      exact every.1

theorem EveryStep.and {other : State → Action → Prop}
    (first : EveryStep step condition state actions) (second : EveryStep step other state actions) :
    EveryStep step (fun s a => condition s a ∧ other s a) state actions := by
  induction actions generalizing state with
  | nil => trivial
  | cons action rest inductionHypothesis =>
      exact ⟨⟨first.1, second.1⟩, fun state' returns =>
        inductionHypothesis (first.2 state' returns) (second.2 state' returns)⟩

/-- An invariant that every allowed step keeps holds in every visited state. -/
theorem visited_invariant
    (keep : ∀ s a s', invariant s → condition s a → step s a = some s' → invariant s')
    (start : invariant state) (allowed : EveryStep step condition state actions) :
    ∀ s ∈ visited step state actions, invariant s := by
  induction actions generalizing state with
  | nil =>
      intro s member
      rw [visited, List.mem_singleton] at member
      exact member ▸ start
  | cons action rest inductionHypothesis =>
      intro s member
      cases returns : step state action with
      | none =>
          simp only [visited, returns, List.mem_singleton] at member
          exact member ▸ start
      | some state' =>
          rw [visited_cons_some returns, List.mem_cons] at member
          rcases member with rfl | inRest
          · exact start
          · exact inductionHypothesis (keep _ _ _ start allowed.1 returns)
              (allowed.2 _ returns) s inRest

/-- Of states that are all good, each step leads to a good one. -/
theorem everyStep_of_visited (allGood : ∀ s ∈ visited step state actions, good s) :
    EveryStep step (fun s a => ∀ s', step s a = some s' → good s') state actions := by
  induction actions generalizing state with
  | nil => trivial
  | cons action rest inductionHypothesis =>
      have later : ∀ s', step state action = some s' → ∀ s ∈ visited step s' rest, good s := by
        intro s' returns s member
        apply allGood
        rw [visited_cons_some returns]
        exact List.mem_cons_of_mem state member
      exact ⟨fun s' returns => later s' returns s' (mem_visited_self step s' rest),
        fun s' returns => inductionHypothesis (later s' returns)⟩

/-- Under an invariant, a condition that each allowed step has is a condition
every step of the run has. -/
theorem everyStep_of_invariant
    (keep : ∀ s a s', invariant s → condition s a → step s a = some s' → invariant s')
    (each : ∀ s a, invariant s → condition s a → goal s a)
    (start : invariant state) (allowed : EveryStep step condition state actions) :
    EveryStep step goal state actions := by
  induction actions generalizing state with
  | nil => trivial
  | cons action rest inductionHypothesis =>
      exact ⟨each _ _ start allowed.1, fun state' returns =>
        inductionHypothesis (keep _ _ _ start allowed.1 returns) (allowed.2 _ returns)⟩

/-- The first step that misses the extra condition also spoils the next
visited state, so the states are good exactly when every step meets it. -/
theorem visited_good_iff_everyStep {extra : State → Action → Prop}
    (isGood : ∀ s, invariant s → good s)
    (keep : ∀ s a s', invariant s → condition s a → extra s a → step s a = some s' →
      invariant s')
    (spoil : ∀ s a, invariant s → condition s a → ¬ extra s a →
      ∃ s', step s a = some s' ∧ ¬ good s')
    (start : invariant state) (allowed : EveryStep step condition state actions) :
    (∀ s ∈ visited step state actions, good s) ↔ EveryStep step extra state actions := by
  induction actions generalizing state with
  | nil => simpa [visited, EveryStep] using isGood state start
  | cons action rest inductionHypothesis =>
      by_cases meets : extra state action
      · cases returns : step state action with
        | none => simpa [visited, EveryStep, returns, meets] using isGood state start
        | some state' =>
            have rest_iff := inductionHypothesis
              (keep _ _ _ start allowed.1 meets returns) (allowed.2 _ returns)
            simp only [visited_cons_some returns, List.forall_mem_cons, EveryStep, rest_iff]
            constructor
            · rintro ⟨-, later⟩
              refine ⟨meets, fun other same => ?_⟩
              rw [returns] at same
              exact Option.some.inj same ▸ later
            · rintro ⟨-, later⟩
              exact ⟨isGood state start, later state' returns⟩
      · obtain ⟨state', returns, bad⟩ := spoil _ _ start allowed.1 meets
        constructor
        · intro allGood
          have next : state' ∈ visited step state (action :: rest) := by
            rw [visited_cons_some returns]
            exact List.mem_cons_of_mem _ (mem_visited_self step state' rest)
          exact absurd (allGood state' next) bad
        · intro every
          exact absurd every.1 meets

/-- Conditions that agree wherever the invariant holds agree along a run, if
steps that meet them keep the invariant. -/
theorem everyStep_iff_of_invariant {left right : State → Action → Prop}
    (keep : ∀ s a s', invariant s → condition s a → left s a → step s a = some s' → invariant s')
    (each : ∀ s a, invariant s → condition s a → (left s a ↔ right s a))
    (start : invariant state) (allowed : EveryStep step condition state actions) :
    EveryStep step left state actions ↔ EveryStep step right state actions := by
  induction actions generalizing state with
  | nil => exact Iff.rfl
  | cons action rest inductionHypothesis =>
      have here := each state action start allowed.1
      constructor
      · rintro ⟨holds, later⟩
        refine ⟨here.mp holds, fun state' returns => ?_⟩
        exact (inductionHypothesis (keep _ _ _ start allowed.1 holds returns)
          (allowed.2 _ returns)).mp (later state' returns)
      · rintro ⟨holds, later⟩
        refine ⟨here.mpr holds, fun state' returns => ?_⟩
        exact (inductionHypothesis (keep _ _ _ start allowed.1 (here.mpr holds) returns)
          (allowed.2 _ returns)).mpr (later state' returns)

/-! ### Counted loops -/

/-- Conditions that agree in every round of a counted loop agree along it, if rounds that
meet them keep the invariant. -/
theorem everyStep_range_iff {step : State → Nat → Option State} {left right : State → Nat → Prop}
    (inv : Nat → State → Prop) {first count : Nat} {state : State}
    (each : ∀ i s, i < first + count → inv i s → (left s i ↔ right s i))
    (keep : ∀ i s s', i < first + count → inv i s → left s i → step s i = some s' →
      inv (i + 1) s')
    (start : inv first state) :
    EveryStep step left state (List.range' first count) ↔
      EveryStep step right state (List.range' first count) := by
  induction count generalizing first state with
  | zero => exact Iff.rfl
  | succ count inductionHypothesis =>
      have here := each first state (by omega) start
      have later : ∀ next, left state first → step state first = some next →
          (EveryStep step left next (List.range' (first + 1) count) ↔
            EveryStep step right next (List.range' (first + 1) count)) := by
        intro next holds returns
        exact inductionHypothesis (fun i s bound => each i s (by omega))
          (fun i s s' bound => keep i s s' (by omega))
          (keep first state next (by omega) start holds returns)
      rw [List.range'_succ]
      constructor
      · rintro ⟨holds, rest⟩
        exact ⟨here.mp holds, fun next returns =>
          (later next holds returns).mp (rest next returns)⟩
      · rintro ⟨holds, rest⟩
        exact ⟨here.mpr holds, fun next returns =>
          (later next (here.mpr holds) returns).mpr (rest next returns)⟩

/-- A loop over `0 .. n - 1` whose rounds all return ends in a state that meets the
invariant of its exit. -/
theorem foldlM_range (body : State → Nat → Option State) (inv : Nat → State → Prop) {n : Nat}
    (round : ∀ i s, i < n → inv i s → ∃ s', body s i = some s' ∧ inv (i + 1) s')
    (start : inv 0 state) :
    ∃ s', (List.range n).foldlM body state = some s' ∧ inv n s' := by
  induction n with
  | zero => exact ⟨state, rfl, start⟩
  | succ n inductionHypothesis =>
      obtain ⟨s, returns, here⟩ :=
        inductionHypothesis fun i s below => round i s (Nat.lt_succ_of_lt below)
      obtain ⟨s', last, there⟩ := round n s (Nat.lt_succ_self n) here
      refine ⟨s', ?_, there⟩
      rw [List.range_succ, List.foldlM_append, returns]
      simp [last]

/-- A loop over `0 .. n - 1` that returned ends in a state that meets the invariant of its exit. -/
theorem foldlM_range_returned (body : State → Nat → Option State) (inv : Nat → State → Prop)
    {n : Nat} {state' : State}
    (round : ∀ i s s', i < n → inv i s → body s i = some s' → inv (i + 1) s')
    (start : inv 0 state) (ran : (List.range n).foldlM body state = some state') :
    inv n state' := by
  induction n generalizing state' with
  | zero => exact Option.some.inj ran ▸ start
  | succ n inductionHypothesis =>
      rw [List.range_succ, List.foldlM_append] at ran
      obtain ⟨s, before, last⟩ := Option.bind_eq_some_iff.mp ran
      have here := inductionHypothesis (fun i s s' below => round i s s' (by omega)) before
      refine round n s state' (Nat.lt_succ_self n) here ?_
      simpa using last

/-- A search over `0 .. n - 1` finds the first hit. -/
theorem findSome?_range {Result : Type u} {f : Nat → Option Result} {n : Nat} {b : Result}
    (found : (List.range n).findSome? f = some b) :
    ∃ i, i < n ∧ f i = some b ∧ ∀ k, k < i → f k = none := by
  induction n with
  | zero => simp at found
  | succ n inductionHypothesis =>
      rw [List.range_succ, List.findSome?_append] at found
      cases earlier : (List.range n).findSome? f with
      | some b' =>
          rw [earlier, Option.some_or] at found
          obtain ⟨i, bound, hit, before⟩ := inductionHypothesis (earlier.trans found)
          exact ⟨i, by omega, hit, before⟩
      | none =>
          rw [earlier, Option.none_or] at found
          refine ⟨n, by omega, by simpa using found, fun k below => ?_⟩
          rw [List.findSome?_eq_none_iff] at earlier
          exact earlier k (List.mem_range.mpr below)

end Balloon.Foundation
