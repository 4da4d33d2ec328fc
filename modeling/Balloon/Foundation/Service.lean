import Balloon.Foundation.Transition
import Mathlib.Tactic.TypeStar

/-!
Owns services: state machines that answer each call. It says what a run of calls replies,
when a service meets a specification that may choose its replies, and the rules that turn a
simulation of one call into one of a whole run. A call that does not return (`none`) ends
the run.
-/

namespace Balloon.Foundation

variable {State Model Call Reply : Type*}

/-- The state a call leaves, without its reply. -/
def served (serve : State → Call → Option (Reply × State)) (state : State) (call : Call) :
    Option State := (serve state call).map Prod.snd

/-- The replies of a run and the state it ends in. -/
def replies (serve : State → Call → Option (Reply × State)) :
    State → List Call → Option (List Reply × State)
  | state, [] => some ([], state)
  | state, call :: rest =>
      (serve state call).bind fun answer =>
        (replies serve answer.2 rest).map fun later => (answer.1 :: later.1, later.2)

/-- The specification allows a run with these calls and replies. -/
inductive Allows (spec : Model → Call → Reply → Model → Prop) :
    Model → List Call → List Reply → Model → Prop
  | nil (model : Model) : Allows spec model [] [] model
  | cons {model next last : Model} {call : Call} {reply : Reply} {calls : List Call}
      {later : List Reply} (first : spec model call reply next)
      (rest : Allows spec next calls later last) :
      Allows spec model (call :: calls) (reply :: later) last

variable {serve : State → Call → Option (Reply × State)} {condition : State → Call → Prop}

theorem served_of_some {state state' : State} {call : Call} {reply : Reply}
    (answers : serve state call = some (reply, state')) : served serve state call = some state' := by
  rw [served, answers, Option.map_some]

theorem replies_cons {state state' : State} {call : Call} {reply : Reply} {rest : List Call}
    (answers : serve state call = some (reply, state')) :
    replies serve state (call :: rest) =
      (replies serve state' rest).map fun later => (reply :: later.1, later.2) := by
  rw [replies, answers, Option.bind_some]

/-- A run through a translation of the calls is a run of the translated calls. -/
theorem Allows.map {Request : Type*} {spec : Model → Request → Reply → Model → Prop}
    {asked : Call → Request} {model last : Model} {calls : List Call} {answers : List Reply}
    (run : Allows (fun m c => spec m (asked c)) model calls answers last) :
    Allows spec model (calls.map asked) answers last := by
  induction run with
  | nil model => exact Allows.nil model
  | cons first rest inductionHypothesis => exact Allows.cons first inductionHypothesis

/-- A property of the model that every allowed call keeps is kept by a run. -/
theorem Allows.invariant {spec : Model → Call → Reply → Model → Prop} {good : Model → Prop}
    {model last : Model} {calls : List Call} {answers : List Reply}
    (run : Allows spec model calls answers last)
    (keep : ∀ m c r m', good m → spec m c r m' → good m') (start : good model) : good last := by
  induction run with
  | nil model => exact start
  | cons first rest inductionHypothesis => exact inductionHypothesis (keep _ _ _ _ start first)

/-- A service whose calls the specification allows, from every state that meets the invariant,
allows its runs, and the invariant holds at their end. -/
theorem allows_of_simulation {spec : Model → Call → Reply → Model → Prop} (view : State → Model)
    {invariant : State → Prop}
    (each : ∀ s c, invariant s → condition s c →
      ∃ r s', serve s c = some (r, s') ∧ invariant s' ∧ spec (view s) c r (view s'))
    {state : State} {calls : List Call} (start : invariant state)
    (allowed : EveryStep (served serve) condition state calls) :
    ∃ answers last, replies serve state calls = some (answers, last) ∧ invariant last ∧
      Allows spec (view state) calls answers (view last) := by
  induction calls generalizing state with
  | nil => exact ⟨[], state, rfl, start, Allows.nil _⟩
  | cons call rest inductionHypothesis =>
      obtain ⟨reply, next, answered, kept, first⟩ := each state call start allowed.1
      obtain ⟨later, last, ran, holds, run⟩ :=
        inductionHypothesis kept (allowed.2 next (served_of_some answered))
      refine ⟨reply :: later, last, ?_, holds, Allows.cons first run⟩
      rw [replies_cons answered, ran, Option.map_some]

/-- A service that answers as a total one does, seen through `view` and through a
translation of the calls, replies to a run as the total one replies. -/
theorem replies_of_determined {Request : Type*} {plan : Model → Request → Reply × Model}
    (view : State → Model → Prop) (asked : Call → Request)
    (each : ∀ s m c, view s m → condition s c →
      ∃ s', serve s c = some ((plan m (asked c)).1, s') ∧ view s' (plan m (asked c)).2)
    {state : State} {model : Model} {calls : List Call} (start : view state model)
    (allowed : EveryStep (served serve) condition state calls) :
    ∃ answers last model', replies serve state calls = some (answers, last) ∧
      replies (fun m r => some (plan m r)) model (calls.map asked) = some (answers, model') ∧
      view last model' := by
  induction calls generalizing state model with
  | nil => exact ⟨[], state, model, rfl, rfl, start⟩
  | cons call rest inductionHypothesis =>
      obtain ⟨next, answered, kept⟩ := each state model call start allowed.1
      obtain ⟨later, last, model', ran, planned, holds⟩ :=
        inductionHypothesis kept (allowed.2 next (served_of_some answered))
      have plans : some (plan model (asked call)) =
          some ((plan model (asked call)).1, (plan model (asked call)).2) := rfl
      refine ⟨(plan model (asked call)).1 :: later, last, model', ?_, ?_, holds⟩
      · rw [replies_cons answered, ran, Option.map_some]
      · rw [List.map_cons, replies_cons plans, planned, Option.map_some]

end Balloon.Foundation
