import Balloon.Timer.Sleep

/-!
Owns one `sleep` on its own, for any value of `tick`. `tick` and `wait_till` wrap at
`2 ^ 32` and the interrupt compares them as plain numbers, so a deadline behind the wrap is
below a `tick` in front of it.
-/

namespace Balloon.Timer

open Balloon.Foundation
open Balloon.Libc

namespace Machine

/-- The running process is about to read `tick` in `sleep(m)`, and no other is in `sleep`. -/
structure Reading (s : Machine) (m : Nat) : Prop where
  next : s.position s.running = .readTick m
  single : ∀ q, q ≠ s.running → s.position q = .outside

/-- In whatever order interrupts and instructions come, `unlock` is 1 again only when `m`
ticks have occurred since the read. -/
def WaitsLongEnough (s : Machine) (m : Nat) : Prop :=
  ∀ actions : List Action, (∀ msec, Action.callSleep msec ∉ actions) →
    ∀ s' ∈ visited step s (.instruction :: actions), ∀ call,
      s'.position s.running = .loop call → s'.unlock = true → m ≤ s'.ticks - s.ticks

/-- The sum does not pass `2 ^ 32`, or `tick` is just in front of the wrap. -/
def NoEarlyDeadline (tick m : Nat) : Prop := tick + m < 2 ^ 32 ∨ tick = 2 ^ 32 - 1

instance (tick m : Nat) : Decidable (NoEarlyDeadline tick m) :=
  inferInstanceAs (Decidable (_ ∨ _))

/-- The `j`-th tick reaches the deadline only when `j` is at least `m`. -/
theorem NoEarlyDeadline.reached {tick m j : Nat} (small : tick < 2 ^ 32) (short : m < 2 ^ 32)
    (deadline : NoEarlyDeadline tick m) (positive : 1 ≤ j)
    (due : wrap32 (tick + j) ≥ wrap32 (tick + m)) : m ≤ j := by
  unfold wrap32 at due
  rcases deadline with noWrap | last
  · omega
  · omega

/-! ### The forward direction -/

/-- Behind the read, for the sleeper `p` with the call `call`. -/
structure Waiting (p : Pid) (call : Sleeper) (origin : Machine) (s : Machine) : Prop where
  later : origin.ticks ≤ s.ticks
  clock : s.tick = wrap32 (origin.tick + (s.ticks - origin.ticks))
  single : ∀ q, q ≠ p → s.position q = .outside
  position : s.position p = .outside ∨ s.position p = .storeWaitTill call ∨
    (s.waitTill = call.sum ∧ (s.position p = .storeUnlock call ∨ s.position p = .loop call))
  awake : ∀ other, s.position p = .loop other → s.unlock = true →
    call.msec ≤ s.ticks - origin.ticks

variable {s s' origin : Machine} {p : Pid} {call : Sleeper} {m : Nat}

theorem Waiting.tick (waiting : Waiting p call origin s) (small : origin.tick < 2 ^ 32)
    (short : call.msec < 2 ^ 32) (sum : call.sum = wrap32 (origin.tick + call.msec))
    (deadline : NoEarlyDeadline origin.tick call.msec) (next : Pid) :
    Waiting p call origin (s.timerCallback next) := by
  have later := waiting.later
  have ticked : wrap32 (s.tick + 1) = wrap32 (origin.tick + (s.ticks + 1 - origin.ticks)) := by
    rw [waiting.clock, wrap32_add]
    congr 1
    omega
  constructor
  · exact Nat.le_succ_of_le later
  · exact ticked
  · exact waiting.single
  · exact waiting.position
  · intro other inLoop unlocked
    have stored : s.waitTill = call.sum := by
      rcases waiting.position with outside | pending | ⟨stored, -⟩
      · rw [show s.position p = .loop other from inLoop] at outside
        contradiction
      · rw [show s.position p = .loop other from inLoop] at pending
        contradiction
      · exact stored
    simp only [timerCallback] at unlocked ⊢
    by_cases due : wrap32 (s.tick + 1) ≥ s.waitTill
    · rw [stored, sum, ticked] at due
      exact deadline.reached small short (by omega) due
    · rw [if_neg due] at unlocked
      have before := waiting.awake other inLoop unlocked
      omega

/-- A step of the sleeper that leaves the clock and the other processes alone. -/
theorem Waiting.advance (waiting : Waiting p call origin s) (runs : s.running = p)
    {position : Position} {waitTill : Nat} {unlock : Bool} {returned : List Return}
    (moved : s' = { s.move position with
      waitTill := waitTill, unlock := unlock, returned := returned })
    (reached : position = .outside ∨
      (waitTill = call.sum ∧ (position = .storeUnlock call ∨ position = .loop call)))
    (awake : ∀ other, position = .loop other → unlock = true →
      call.msec ≤ s.ticks - origin.ticks) : Waiting p call origin s' := by
  subst moved
  have here : (s.move position).position p = position := by rw [move_position, if_pos runs.symm]
  constructor
  · exact waiting.later
  · exact waiting.clock
  · intro q other
    change (s.move position).position q = .outside
    rw [move_position, if_neg (runs ▸ other)]
    exact waiting.single q other
  · change (s.move position).position p = _ ∨ (s.move position).position p = _ ∨ _
    rcases reached with outside | inside
    · exact Or.inl (here.trans outside)
    · exact Or.inr (Or.inr ⟨inside.1, inside.2.imp here.trans here.trans⟩)
  · intro other inLoop unlocked
    exact awake other (here.symm.trans inLoop) unlocked

theorem Waiting.instruction (waiting : Waiting p call origin s)
    (returned : s.sleepInstruction (s.position s.running) = some s') :
    Waiting p call origin s' := by
  by_cases runs : s.running = p
  · rw [runs] at returned
    rcases waiting.position with outside | pending | ⟨stored, unlocking | inLoop⟩
    · rw [outside] at returned
      contradiction
    · rw [pending] at returned
      exact waiting.advance runs (Option.some.inj returned).symm (Or.inr ⟨rfl, Or.inl rfl⟩)
        fun _ atLoop => by cases atLoop
    · rw [unlocking] at returned
      exact waiting.advance runs (Option.some.inj returned).symm (Or.inr ⟨stored, Or.inr rfl⟩)
        fun _ _ atLoop => by cases atLoop
    · rw [inLoop] at returned
      simp only [sleepInstruction] at returned
      split_ifs at returned with unlocked
      · exact waiting.advance runs (Option.some.inj returned).symm (Or.inl rfl)
          fun _ atLoop => by cases atLoop
      · exact Option.some.inj returned ▸ waiting
  · rw [waiting.single _ runs] at returned
    contradiction

theorem Waiting.step (waiting : Waiting p call origin s) (small : origin.tick < 2 ^ 32)
    (short : call.msec < 2 ^ 32) (sum : call.sum = wrap32 (origin.tick + call.msec))
    (deadline : NoEarlyDeadline origin.tick call.msec) {a : Action}
    (noCall : ∀ msec, a ≠ .callSleep msec) (stepped : s.step a = some s') :
    Waiting p call origin s' := by
  cases a with
  | timerInterrupt next =>
      obtain rfl := Option.some.inj stepped
      exact waiting.tick small short sum deadline next
  | callSleep msec => exact absurd rfl (noCall msec)
  | instruction => exact waiting.instruction stepped

/-- The instruction that reads `tick`. -/
theorem Reading.read (reading : Reading s m) : s.step .instruction =
    some (s.move (.storeWaitTill ⟨m, wrap32 (s.tick + m), s.ticks⟩)) := by
  rw [Machine.step, reading.next]
  rfl

theorem Reading.waiting (reading : Reading s m) (small : s.tick < 2 ^ 32) :
    Waiting s.running ⟨m, wrap32 (s.tick + m), s.ticks⟩ s
      (s.move (.storeWaitTill ⟨m, wrap32 (s.tick + m), s.ticks⟩)) := by
  have here : (s.move (.storeWaitTill ⟨m, wrap32 (s.tick + m), s.ticks⟩)).position s.running =
      .storeWaitTill ⟨m, wrap32 (s.tick + m), s.ticks⟩ := by rw [move_position, if_pos rfl]
  constructor
  · exact Nat.le_refl s.ticks
  · change s.tick = wrap32 (s.tick + (s.ticks - s.ticks))
    rw [Nat.sub_self, Nat.add_zero, wrap32_of_lt small]
  · intro q other
    rw [move_position, if_neg other]
    exact reading.single q other
  · exact Or.inr (Or.inl here)
  · intro other inLoop
    rw [here] at inLoop
    contradiction

theorem Reading.waits (reading : Reading s m) (small : s.tick < 2 ^ 32) (short : m < 2 ^ 32)
    (deadline : NoEarlyDeadline s.tick m) : WaitsLongEnough s m := by
  intro actions noCalls s' visits other inLoop unlocked
  rw [visited_cons_some reading.read, List.mem_cons] at visits
  rcases visits with rfl | behind
  · rw [reading.next] at inLoop
    contradiction
  · have always := visited_invariant
      (fun u a u' (waiting : Waiting s.running ⟨m, wrap32 (s.tick + m), s.ticks⟩ s u)
          (noCall : ∀ msec, a ≠ Action.callSleep msec) stepped =>
        waiting.step small short rfl deadline noCall stepped)
      (reading.waiting small) (everyStep_of_forall fun _ a member msec isCall =>
        noCalls msec (isCall ▸ member))
    exact (always s' behind).awake other inLoop unlocked

/-! ### The other direction -/

/-- The three instructions behind the read and the next tick. -/
def firstTick (p : Pid) : List Action := [.instruction, .instruction, .timerInterrupt p]

/-- The first tick meets a deadline that has wrapped around. -/
theorem Reading.wakes_early (reading : Reading s m) (small : s.tick < 2 ^ 32) (short : m < 2 ^ 32)
    (early : ¬ NoEarlyDeadline s.tick m) : ¬ WaitsLongEnough s m := by
  intro waits
  unfold NoEarlyDeadline at early
  have due : wrap32 (s.tick + 1) ≥ wrap32 (s.tick + m) := by
    unfold wrap32
    omega
  have ran : (Action.instruction :: firstTick s.running).foldlM step s = some
      { s.move (.loop ⟨m, wrap32 (s.tick + m), s.ticks⟩) with
        tick := wrap32 (s.tick + 1)
        waitTill := wrap32 (s.tick + m)
        unlock := true
        ticks := s.ticks + 1 } := by
    rw [List.foldlM_cons, reading.read]
    simp [firstTick, step, sleepInstruction, move, timerCallback, due]
  have waited := waits (firstTick s.running) (by simp [firstTick]) _ (mem_visited_of_foldlM ran) _
    (by rw [move_position, if_pos rfl]) rfl
  have oneTick : m ≤ s.ticks + 1 - s.ticks := waited
  omega

/-- A single `sleep(m)` waits `m` ticks in every run exactly when its deadline does not pass the
wrap of `tick`, or the wrap comes with the first tick. -/
theorem waitsLongEnough_iff_noEarlyDeadline (reading : Reading s m) (small : s.tick < 2 ^ 32)
    (short : m < 2 ^ 32) : WaitsLongEnough s m ↔ NoEarlyDeadline s.tick m := by
  constructor
  · intro waits
    by_contra early
    exact reading.wakes_early small short early waits
  · exact reading.waits small short

/-- One process, about to read this `tick` for `sleep(m)`. -/
def atTick (tick m : Nat) : Machine :=
  { start 0 with tick := tick, position := Function.update (fun _ => .outside) 0 (.readTick m) }

theorem reading_atTick (tick m : Nat) : Reading (atTick tick m) m where
  next := by simp [atTick, start]
  single := by
    intro q other
    have notZero : q ≠ 0 := other
    simp [atTick, notZero]

theorem waitsLongEnough_iff_noEarlyDeadline_lastTick :
    WaitsLongEnough (atTick (2 ^ 32 - 1) 100) 100 ↔ NoEarlyDeadline (2 ^ 32 - 1) 100 :=
  waitsLongEnough_iff_noEarlyDeadline (reading_atTick (2 ^ 32 - 1) 100) (by decide) (by decide)

/-- With `tick` at `2 ^ 32 - 2`, `sleep(100)` is over after one tick. -/
theorem wrapped_deadline_wakes_early :
    ¬ ∀ (s : Machine) (m : Nat), Reading s m → s.tick < 2 ^ 32 → 1 ≤ m → m < 2 ^ 31 →
      WaitsLongEnough s m := by
  intro always
  exact (reading_atTick (2 ^ 32 - 2) 100).wakes_early (by decide) (by decide) (by decide)
    (always _ 100 (reading_atTick _ 100) (by decide) (by decide) (by decide))

end Machine

end Balloon.Timer
