import Balloon.Foundation.Transition
import Balloon.Timer.Model

/-!
Owns how long `sleep` waits when several processes call it. One `wait_till` serves
them all: a call that stores an earlier deadline than one that still waits wakes
that one with itself.
-/

namespace Balloon.Timer

open Balloon.Foundation
open Balloon.Libc

/-- The call of a process whose deadline has been stored. -/
def Position.waiting : Position → Option Sleeper
  | .storeUnlock call | .loop call => some call
  | _ => none

namespace Machine

/-- No call has returned before its ticks have occurred. -/
def NoEarlyReturn (s : Machine) : Prop := ∀ r ∈ s.returned, r.msec ≤ r.waited

/-- `tick` and `tick + msec` do not wrap. -/
def NoWrap (s : Machine) : Action → Prop
  | .timerInterrupt _ => s.tick + 1 < 2 ^ 32
  | .callSleep _ => True
  | .instruction => ∀ msec, s.position s.running = .readTick msec → s.tick + msec < 2 ^ 32

/-- A store to `wait_till` is not below the deadline of a call that still waits. -/
def KeepsDeadlines (s : Machine) : Action → Prop
  | .instruction =>
      ∀ call, s.position s.running = .storeWaitTill call →
        ∀ p other, (s.position p).waiting = some other → other.sum ≤ call.sum
  | _ => True

/-- The sum of a call is its deadline in ticks. -/
structure Timed (ticks : Nat) (call : Sleeper) : Prop where
  past : call.since ≤ ticks
  deadline : call.sum = call.since + call.msec

structure SleepInv (s : Machine) : Prop where
  clock : s.tick = s.ticks
  stored : ∀ p call, (s.position p).waiting = some call → Timed s.ticks call ∧ call.sum ≤ s.waitTill
  pending : ∀ p call, s.position p = .storeWaitTill call → Timed s.ticks call
  awake : ∀ p call, s.position p = .loop call → s.unlock = true → call.sum ≤ s.tick
  returned : s.NoEarlyReturn

variable {s s' : Machine}

theorem sleepInv_start (running : Pid) : SleepInv (start running) :=
  ⟨rfl, nofun, nofun, nofun, nofun⟩

theorem move_position (position : Position) (p : Pid) :
    (s.move position).position p = if p = s.running then position else s.position p := by
  simp only [move, Function.update_apply]

/-- A tick sets `unlock` only when the stored deadline, the latest one, has come. -/
theorem sleepInv_timerCallback (inv : SleepInv s) (next : Pid) (noWrap : s.tick + 1 < 2 ^ 32) :
    SleepInv (s.timerCallback next) := by
  have ticked : wrap32 (s.tick + 1) = s.tick + 1 := wrap32_of_lt noWrap
  have later : ∀ call, Timed s.ticks call → Timed (s.timerCallback next).ticks call :=
    fun call timed => ⟨Nat.le_succ_of_le timed.past, timed.deadline⟩
  constructor
  · exact ticked.trans (congrArg (· + 1) inv.clock)
  · intro p call waits
    obtain ⟨timed, below⟩ := inv.stored p call waits
    exact ⟨later call timed, below⟩
  · exact fun p call isNext => later call (inv.pending p call isNext)
  · intro p call inLoop unlocked
    simp only [timerCallback, ticked] at unlocked ⊢
    by_cases due : s.tick + 1 ≥ s.waitTill
    · have below := (inv.stored p call (congrArg Position.waiting inLoop)).2
      exact Nat.le_trans below due
    · rw [if_neg due] at unlocked
      exact Nat.le_succ_of_le (inv.awake p call inLoop unlocked)
  · exact inv.returned

/-- A step of the running process to a position behind which nothing is owed. -/
theorem SleepInv.move (inv : SleepInv s) (position : Position)
    (stored : ∀ call, position.waiting = some call → Timed s.ticks call ∧ call.sum ≤ s.waitTill)
    (pending : ∀ call, position = .storeWaitTill call → Timed s.ticks call)
    (awake : ∀ call, position = .loop call → s.unlock = true → call.sum ≤ s.tick) :
    SleepInv (s.move position) := by
  refine ⟨inv.clock, fun p call waits => ?_, fun p call isNext => ?_, fun p call inLoop => ?_,
    inv.returned⟩
  · rw [move_position] at waits
    split_ifs at waits with runs
    · exact stored call waits
    · exact inv.stored p call waits
  · rw [move_position] at isNext
    split_ifs at isNext with runs
    · exact pending call isNext
    · exact inv.pending p call isNext
  · rw [move_position] at inLoop
    split_ifs at inLoop with runs
    · exact awake call inLoop
    · exact inv.awake p call inLoop

theorem sleepInv_instruction (inv : SleepInv s) (noWrap : NoWrap s .instruction)
    (keeps : KeepsDeadlines s .instruction)
    (returned : s.sleepInstruction (s.position s.running) = some s') : SleepInv s' := by
  cases isNext : s.position s.running with
  | outside =>
      rw [isNext] at returned
      contradiction
  | readTick msec =>
      rw [isNext] at returned
      obtain rfl := Option.some.inj returned
      have sum : wrap32 (s.tick + msec) = s.ticks + msec := by
        rw [wrap32_of_lt (noWrap msec isNext), inv.clock]
      apply inv.move (.storeWaitTill ⟨msec, _, s.ticks⟩) nofun _ nofun
      rintro call ⟨⟩
      exact ⟨Nat.le_refl s.ticks, sum⟩
  | storeWaitTill call =>
      rw [isNext] at returned
      obtain rfl := Option.some.inj returned
      have latest := keeps call isNext
      -- after the store every deadline, old or new, is below `wait_till`
      have raised : SleepInv { s with waitTill := call.sum } :=
        ⟨inv.clock, fun p other waits => ⟨(inv.stored p other waits).1, latest p other waits⟩,
          inv.pending, inv.awake, inv.returned⟩
      apply raised.move (.storeUnlock call) _ nofun nofun
      rintro other ⟨⟩
      exact ⟨inv.pending s.running call isNext, Nat.le_refl call.sum⟩
  | storeUnlock call =>
      rw [isNext] at returned
      obtain rfl := Option.some.inj returned
      have locked : SleepInv { s with unlock := false } :=
        ⟨inv.clock, inv.stored, inv.pending, fun _ _ _ => nofun, inv.returned⟩
      apply locked.move (.loop call) _ nofun fun _ _ => nofun
      rintro other ⟨⟩
      exact inv.stored s.running call (congrArg Position.waiting isNext)
  | loop call =>
      rw [isNext] at returned
      simp only [sleepInstruction] at returned
      split_ifs at returned with unlocked
      · obtain rfl := Option.some.inj returned
        have moved := inv.move .outside nofun nofun nofun
        have due := inv.awake s.running call isNext unlocked
        have timed := (inv.stored s.running call (congrArg Position.waiting isNext)).1
        refine ⟨moved.clock, moved.stored, moved.pending, moved.awake, ?_⟩
        apply List.forall_mem_cons.mpr ⟨_, inv.returned⟩
        have clock := inv.clock
        have deadline := timed.deadline
        change call.msec ≤ s.ticks - call.since
        omega
      · exact Option.some.inj returned ▸ inv

theorem sleepInv_step (inv : SleepInv s) {a : Action} (noWrap : NoWrap s a)
    (keeps : KeepsDeadlines s a) (returned : s.step a = some s') : SleepInv s' := by
  cases a with
  | timerInterrupt next =>
      obtain rfl := Option.some.inj returned
      exact sleepInv_timerCallback inv next noWrap
  | callSleep msec =>
      simp only [step] at returned
      split at returned
      · obtain rfl := Option.some.inj returned
        exact inv.move (.readTick msec) nofun nofun nofun
      · contradiction
  | instruction => exact sleepInv_instruction inv noWrap keeps returned

/-- Along any interleaving in which no call stores a deadline below that of a call that
still waits, no `sleep` returns early. -/
theorem noEarlyReturn_of_keepsDeadlines (running : Pid) (actions : List Action)
    (noWrap : EveryStep step NoWrap (start running) actions)
    (keeps : EveryStep step KeepsDeadlines (start running) actions) :
    ∀ s ∈ visited step (start running) actions, NoEarlyReturn s := by
  have always := visited_invariant
    (fun s a s' (inv : SleepInv s) allowed returned =>
      sleepInv_step inv allowed.1 allowed.2 returned)
    (sleepInv_start running) (noWrap.and keeps)
  exact fun s member => (always s member).returned

/-- Two calls that overlap, the later one with the later deadline. -/
def inOrder : List Action :=
  [.callSleep 1, .instruction, .instruction, .instruction, .timerInterrupt 1, .callSleep 1,
    .instruction, .instruction, .instruction, .timerInterrupt 0, .instruction]

/-- One of them has returned, and not early. -/
theorem inOrder_no_early_return :
    ∃ s, inOrder.foldlM step (start 0) = some s ∧ s.returned.length = 1 ∧ NoEarlyReturn s := by
  refine ⟨_, rfl, rfl, noEarlyReturn_of_keepsDeadlines 0 inOrder ?_ ?_ _
    (mem_visited_of_foldlM rfl)⟩
  · simp [inOrder, EveryStep, step, NoWrap, start, move, timerCallback, sleepInstruction, wrap32]
  · simp [inOrder, EveryStep, step, KeepsDeadlines, start, move, timerCallback, sleepInstruction,
      wrap32, Function.update_apply]
    constructor
    · intro p other waits
      split_ifs at waits <;> contradiction
    · intro p other waits
      split_ifs at waits
      · contradiction
      · obtain rfl := Option.some.inj waits
        decide
      · contradiction

/-- Process 0 sleeps 100 ticks, the first interrupt goes over to process 1, which sleeps
one tick, and the second interrupt wakes both. -/
def overlap : List Action :=
  [.callSleep 100, .instruction, .instruction, .instruction, .timerInterrupt 1, .callSleep 1,
    .instruction, .instruction, .instruction, .timerInterrupt 0, .instruction]

/-- The second call of `sleep` sets `wait_till` and `unlock` for both processes, so the first wakes
when the second does. -/
theorem overlap_wakes_early :
    ¬ ∀ (running : Pid) (actions : List Action), EveryStep step NoWrap (start running) actions →
      ∀ s ∈ visited step (start running) actions, NoEarlyReturn s := by
  intro always
  have noWrap : EveryStep step NoWrap (start 0) overlap := by
    simp [overlap, EveryStep, step, NoWrap, start, move, timerCallback, sleepInstruction, wrap32]
  have waited := always 0 overlap noWrap _ (mem_visited_of_foldlM rfl)
  exact absurd (waited ⟨100, 2⟩ List.mem_cons_self) (by decide)

/-! ### Calls that do not overlap -/

/-- `sleep` is called only while no process is in it. -/
def Alone (s : Machine) : Action → Prop
  | .callSleep _ => ∀ p, s.position p = .outside
  | _ => True

def OneSleeper (s : Machine) : Prop :=
  ∀ p q, s.position p ≠ .outside → s.position q ≠ .outside → p = q

theorem OneSleeper.move (one : OneSleeper s) (inside : s.position s.running ≠ .outside)
    (position : Position) : OneSleeper (s.move position) := by
  have only : ∀ p, (s.move position).position p ≠ .outside → p = s.running := by
    intro p isInside
    rw [move_position] at isInside
    split_ifs at isInside with runs
    · exact runs
    · exact one p s.running isInside inside
  exact fun p q first second => (only p first).trans (only q second).symm

theorem oneSleeper_step (one : OneSleeper s) {a : Action} (alone : Alone s a)
    (returned : s.step a = some s') : OneSleeper s' := by
  cases a with
  | timerInterrupt next =>
      obtain rfl := Option.some.inj returned
      exact one
  | callSleep msec =>
      simp only [step, alone s.running] at returned
      obtain rfl := Option.some.inj returned
      have only : ∀ p, (s.move (.readTick msec)).position p ≠ .outside → p = s.running := by
        intro p isInside
        rw [move_position] at isInside
        split_ifs at isInside with runs
        · exact runs
        · exact absurd (alone p) isInside
      exact fun p q first second => (only p first).trans (only q second).symm
  | instruction =>
      have moved := one.move
      simp only [step] at returned
      cases isNext : s.position s.running with
      | outside =>
          rw [isNext] at returned
          contradiction
      | readTick msec =>
          rw [isNext] at returned moved
          obtain rfl := Option.some.inj returned
          exact moved nofun _
      | storeWaitTill call =>
          rw [isNext] at returned moved
          obtain rfl := Option.some.inj returned
          exact moved nofun (.storeUnlock call)
      | storeUnlock call =>
          rw [isNext] at returned moved
          obtain rfl := Option.some.inj returned
          exact moved nofun (.loop call)
      | loop call =>
          rw [isNext] at returned moved
          simp only [sleepInstruction] at returned
          split_ifs at returned
          · obtain rfl := Option.some.inj returned
            exact moved nofun .outside
          · exact Option.some.inj returned ▸ one

/-- Calls one at a time, as the disc driver makes them, keep every deadline. -/
theorem keepsDeadlines_of_alone (running : Pid) (actions : List Action)
    (alone : EveryStep step Alone (start running) actions) :
    EveryStep step KeepsDeadlines (start running) actions := by
  apply everyStep_of_invariant (fun s a s' (one : OneSleeper s) allowed returned =>
    oneSleeper_step one allowed returned) _ _ alone
  · intro s a one _
    cases a with
    | timerInterrupt next => trivial
    | callSleep msec => trivial
    | instruction =>
        intro call isNext p other waits
        have isInside : s.position p ≠ .outside := by
          intro outside
          rw [outside] at waits
          contradiction
        have same := one p s.running isInside (by rw [isNext]; nofun)
        rw [same, isNext] at waits
        contradiction
  · exact fun _ _ inside _ => absurd rfl inside

end Machine

end Balloon.Timer
