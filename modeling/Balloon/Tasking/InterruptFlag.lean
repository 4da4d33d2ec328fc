import Balloon.Foundation.Transition
import Balloon.Tasking.Masking

/-!
Owns the interrupt flag over whole runs. `fork` sets it again on the path of the
parent only: a child is entered with the flag the timer interrupt cleared, and it
returns from `fork` without `sti` or `iret`.
-/

namespace Balloon.Tasking

open Balloon.Foundation

namespace Machine

/-- Outside of `fork` and of interrupt handlers, a process in which `fork` has
returned runs with the flag set. -/
def FlagSet (s : Machine) : Prop :=
  s.code = .user → ∀ p, s.currentProcess = some p → p ∈ s.returned → s.interruptFlag = true

/-- The step is not the `return 0` of a child. -/
def NotChildReturn (s : Machine) : Action → Prop
  | .instruction _ => s.code ≠ .fork .leaveChild
  | _ => True

/-- Code that runs with the flag set, as long as no child has returned. -/
def unmasked : Code → Bool
  | .user | .init .leave | .fork .leave => true
  | _ => false

structure FlagInv (s : Machine) : Prop where
  mask : MaskInv s
  on : unmasked s.code = true → s.interruptFlag = true

variable {s s' : Machine}

theorem flagInv_start (interruptFlag : Bool) (staleNext : Option Pid) :
    FlagInv (start interruptFlag staleNext) :=
  ⟨maskInv_start interruptFlag staleNext, nofun⟩

/-- `iret` sets the flag, and a jump into `fork` stays behind its `cli`. -/
theorem loadContext_on (frames : ∀ p code flag, s.stackOf p = some (.interrupted code flag) →
    masked code = false ∧ flag = true) (target : Pid) :
    unmasked (s.loadContext target).code = true → (s.loadContext target).interruptFlag = true := by
  unfold loadContext resume
  split
  · next code flag _ onStack => exact fun _ => (frames target code flag onStack).2
  · exact nofun
  · exact nofun

theorem flagInv_timerInterrupt (inv : FlagInv s) {esp ebp : Nat}
    (returned : s.timerInterrupt esp ebp = some s') : FlagInv s' := by
  have mask := maskInv_timerInterrupt inv.mask returned
  refine ⟨mask, ?_⟩
  have frames := mask.frames
  unfold timerInterrupt at returned
  split_ifs at returned with set
  cases root : s.rootProc with
  | none =>
      rw [root] at returned
      exact Option.some.inj returned ▸ inv.on
  | some root' =>
      rw [root] at returned
      obtain ⟨current, -, rfl⟩ := Option.map_eq_some_iff.mp returned
      rw [loadContext_stackOf] at frames
      exact loadContext_on frames _

/-- Only `sti` and the last step of the parent's path lead to code that runs with
the flag set. -/
theorem flagInv_instruction (inv : FlagInv s) {value : Nat}
    (notChild : s.code ≠ .fork .leaveChild) (returned : s.step (.instruction value) = some s') :
    FlagInv s' := by
  have mask := maskInv_step inv.mask returned
  refine ⟨mask, ?_⟩
  have on := inv.on
  simp only [step] at returned
  split at returned
  · next at_ code =>
      rw [code] at on
      cases at_ with
      | setProcessEnvironment =>
          obtain ⟨current, -, rfl⟩ := Option.map_eq_some_iff.mp returned
          intro leaving
          cases leaving
      | sti =>
          obtain rfl := Option.some.inj returned
          exact fun _ => rfl
      | leave =>
          obtain rfl := Option.some.inj returned
          exact fun _ => on rfl
      | cli | initKernelProcess | setCurrent | switchPageDirectory =>
          obtain rfl := Option.some.inj returned
          intro leaving
          cases leaving
  · next at_ code =>
      rw [code] at on
      cases at_ with
      | cli | link =>
          obtain ⟨_, -, rfl⟩ := Option.map_eq_some_iff.mp returned
          intro leaving
          cases leaving
      | compare parent newProc =>
          simp only [forkInstruction] at returned
          split_ifs at returned
          · obtain rfl := Option.some.inj returned
            intro leaving
            cases leaving
          · obtain rfl := Option.some.inj returned
            intro leaving
            cases leaving
      | sti =>
          obtain rfl := Option.some.inj returned
          exact fun _ => rfl
      | leave =>
          obtain ⟨_, -, rfl⟩ := Option.map_eq_some_iff.mp returned
          exact fun _ => on rfl
      | leaveChild => exact absurd code notChild
      | cloneDirectory | copyCli | copyPopf | spawnProcess | setProcessEnvironment | readEip
      | saveEsp | saveEbp | copyStack | saveEip =>
          obtain rfl := Option.some.inj returned
          intro leaving
          cases leaving
  · contradiction
  · contradiction

theorem flagInv_step (inv : FlagInv s) {a : Action} (notChild : NotChildReturn s a)
    (returned : s.step a = some s') : FlagInv s' := by
  cases a with
  | tick esp ebp => exact flagInv_timerInterrupt inv returned
  | instruction value => exact flagInv_instruction inv notChild returned
  | copyPage =>
      have mask := maskInv_step inv.mask returned
      refine ⟨mask, ?_⟩
      simp only [step] at returned
      split at returned
      · obtain rfl := Option.some.inj returned
        intro leaving
        cases leaving
      · contradiction
  | callFork =>
      have mask := maskInv_step inv.mask returned
      refine ⟨mask, ?_⟩
      simp only [step] at returned
      split_ifs at returned
      obtain rfl := Option.some.inj returned
      intro leaving
      cases leaving

/-- After `init_tasking`, along any interleaving of `fork` calls and timer
interrupts, the flag is set wherever a process runs behind a `fork` exactly when no
child gets as far as its `return 0`. -/
theorem flagSet_iff_notChildReturn (interruptFlag : Bool) (staleNext : Option Pid)
    (actions : List Action) :
    (∀ s ∈ visited step (start interruptFlag staleNext) actions, FlagSet s) ↔
      EveryStep step NotChildReturn (start interruptFlag staleNext) actions := by
  refine visited_good_iff_everyStep (fun s inv isUser p _ _ => inv.on (by rw [isUser]; rfl))
    (fun s a s' inv _ notChild returned => flagInv_step inv notChild returned) ?_
    (flagInv_start interruptFlag staleNext) (everyStep_true _ _ _)
  intro s a inv _ child
  cases a with
  | instruction value =>
      have code : s.code = .fork .leaveChild := not_not.mp child
      have cleared : s.interruptFlag = false := inv.mask.off (by rw [code]; rfl)
      obtain ⟨p, running⟩ := Option.ne_none_iff_exists'.mp (inv.mask.current _ code nofun)
      refine ⟨{ s with returned := p :: s.returned, code := .user }, ?_, fun flagSet => ?_⟩
      · simp only [step, code, forkInstruction, running, Option.map_some]
      · have set := flagSet rfl p running (List.mem_cons_self)
        exact absurd (cleared.symm.trans set) (by decide)
  | tick esp ebp => exact absurd trivial child
  | copyPage => exact absurd trivial child
  | callFork => exact absurd trivial child

/-- `init_tasking`, one `fork` by the kernel process, and a timer interrupt behind it
that switches to the child. -/
def forkOnce : List Action :=
  List.replicate 7 (.instruction 0) ++ .callFork :: List.replicate 13 (.instruction 0) ++
    .tick 0 0 :: List.replicate 2 (.instruction 0)

/-- The child runs behind `fork` with the flag cleared. -/
theorem child_runs_with_flag_cleared :
    ¬ ∀ (interruptFlag : Bool) (staleNext : Option Pid) (actions : List Action),
      ∀ s ∈ visited step (start interruptFlag staleNext) actions, FlagSet s := by
  intro always
  have flagSet := always true none forkOnce _ (mem_visited_of_foldlM rfl)
  exact absurd (flagSet rfl 1 rfl (by decide)) (by decide)

end Machine

end Balloon.Tasking
