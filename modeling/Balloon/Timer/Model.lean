import Mathlib.Logic.Function.Basic
import Balloon.Libc.Memory

/-!
Owns timer.c as processes share it: the globals `tick`, `wait_till` and `unlock`,
the timer interrupt, and `sleep` one instruction after the other. It does not own
which process `switch_task` chooses: the interrupt carries it.
-/

namespace Balloon.Timer

open Balloon.Libc

abbrev Pid := Nat

/-- A call of `sleep` that has read `tick`: its argument, the sum it computed, and
how many ticks had occurred at the read. -/
structure Sleeper where
  msec : Nat
  sum : Nat
  since : Nat

/-- The next instruction of a process in `sleep`. -/
inductive Position where
  | outside
  | readTick (msec : Nat)
  | storeWaitTill (call : Sleeper)
  | storeUnlock (call : Sleeper)
  | loop (call : Sleeper)

/-- The argument of a `sleep` that has returned, and the ticks since its read. -/
structure Return where
  msec : Nat
  waited : Nat

/-- `ticks` counts the timer interrupts and `returned` lists the calls that are over;
no step reads them but to report. -/
structure Machine where
  tick : Nat
  waitTill : Nat
  unlock : Bool
  running : Pid
  position : Pid → Position
  ticks : Nat
  returned : List Return

/-- One step of the processor. -/
inductive Action where
  | timerInterrupt (next : Pid)
  | callSleep (msec : Nat)
  | instruction

namespace Machine

def move (s : Machine) (position : Position) : Machine :=
  { s with position := Function.update s.position s.running position }

/-- `timer_callback`, whose `switch_task` goes on with the process `next`. -/
def timerCallback (s : Machine) (next : Pid) : Machine :=
  let tick := wrap32 (s.tick + 1)
  { s with
    tick := tick
    unlock := if tick ≥ s.waitTill then true else s.unlock
    running := next
    ticks := s.ticks + 1 }

/-- The next instruction of `sleep` in the running process. -/
def sleepInstruction (s : Machine) : Position → Option Machine
  | .outside => none
  | .readTick msec =>
      some (s.move (.storeWaitTill ⟨msec, wrap32 (s.tick + msec), s.ticks⟩))
  | .storeWaitTill call => some { s.move (.storeUnlock call) with waitTill := call.sum }
  | .storeUnlock call => some { s.move (.loop call) with unlock := false }
  | .loop call =>
      if s.unlock then
        some
          { s.move .outside with returned := ⟨call.msec, s.ticks - call.since⟩ :: s.returned }
      else some s

def step (s : Machine) : Action → Option Machine
  | .timerInterrupt next => some (s.timerCallback next)
  | .callSleep msec =>
      match s.position s.running with
      | .outside => some (s.move (.readTick msec))
      | _ => none
  | .instruction => s.sleepInstruction (s.position s.running)

def start (running : Pid) : Machine where
  tick := 0
  waitTill := 0
  unlock := true
  running := running
  position := fun _ => .outside
  ticks := 0
  returned := []

end Machine

end Balloon.Timer
