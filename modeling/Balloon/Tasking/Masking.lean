import Mathlib.Data.List.Basic
import Balloon.Tasking.Model

/-!
Owns which code runs with interrupts off: everything `init_tasking` and `fork` do
between their `cli` and their `sti`, whatever has run before. So no interrupt falls
between these steps, and every interrupted stack holds a set flag.
-/

namespace Balloon.Tasking

namespace Machine

/-- Code that runs with the flag cleared. -/
def masked : Code → Bool
  | .user | .init .cli | .init .leave | .fork .cli | .fork .leave => false
  | _ => true

/-- What `copy_page_physical` has pushed. -/
def pushedFlag : Code → Option Bool
  | .fork (.copyCli _ pushed) | .fork (.copyPopf _ pushed) => some pushed
  | _ => none

structure MaskInv (s : Machine) : Prop where
  off : masked s.code = true → s.interruptFlag = false
  pushed : ∀ flag, pushedFlag s.code = some flag → flag = false
  frames : ∀ p code flag, s.stackOf p = some (.interrupted code flag) →
    masked code = false ∧ flag = true
  current : ∀ at_, s.code = .fork at_ → at_ ≠ .cli → s.currentProcess ≠ none

variable {s s' : Machine}

theorem pushedFlag_masked {code : Code} (clear : masked code = false) : pushedFlag code = none := by
  cases code with
  | fork at_ => cases at_ <;> first | rfl | contradiction
  | _ => rfl

/-- A delivered interrupt finds code that is not masked. -/
theorem MaskInv.notMasked (inv : MaskInv s) (set : s.interruptFlag = true) :
    masked s.code = false := by
  cases isMasked : masked s.code with
  | false => rfl
  | true => exact absurd (set.symm.trans (inv.off isMasked)) (by decide)

theorem resume_stackOf (target : Pid) : (s.resume target).stackOf = s.stackOf := by
  unfold resume
  split <;> rfl

@[simp]
theorem loadContext_stackOf (target : Pid) : (s.loadContext target).stackOf = s.stackOf :=
  resume_stackOf target

theorem maskInv_start (interruptFlag : Bool) (staleNext : Option Pid) :
    MaskInv (start interruptFlag staleNext) :=
  ⟨nofun, nofun, nofun, nofun⟩

/-- `switch_task` in a state with the flag cleared whose frames are right. -/
theorem maskInv_loadContext (cleared : s.interruptFlag = false)
    (frames : ∀ p code flag, s.stackOf p = some (.interrupted code flag) →
      masked code = false ∧ flag = true) (target : Pid) : MaskInv (s.loadContext target) := by
  unfold loadContext resume
  split
  · next code flag _ onStack =>
      obtain ⟨notMasked, rfl⟩ := frames target code flag onStack
      refine ⟨fun isMasked => ?_, fun flag isPushed => ?_, frames, fun _ _ _ => ?_⟩
      · exact absurd (notMasked.symm.trans isMasked) (by decide)
      · exact absurd ((pushedFlag_masked notMasked).symm.trans isPushed) (by simp)
      · exact Option.some_ne_none target
  · exact ⟨fun _ => cleared, nofun, frames, fun _ _ _ => Option.some_ne_none target⟩
  · exact ⟨fun _ => cleared, nofun, frames, nofun⟩

theorem maskInv_timerInterrupt (inv : MaskInv s) {esp ebp : Nat}
    (returned : s.timerInterrupt esp ebp = some s') : MaskInv s' := by
  unfold timerInterrupt at returned
  split_ifs at returned with set
  have notMasked := inv.notMasked set
  cases root : s.rootProc with
  | none =>
      rw [root] at returned
      exact Option.some.inj returned ▸ inv
  | some root' =>
      rw [root] at returned
      obtain ⟨current, -, rfl⟩ := Option.map_eq_some_iff.mp returned
      refine maskInv_loadContext rfl (fun p code flag onStack => ?_) _
      by_cases running : p = current
      · subst running
        have pushed : some (Frame.interrupted s.code s.interruptFlag) =
            some (.interrupted code flag) := (Function.update_self p _ s.stackOf).symm.trans onStack
        obtain ⟨rfl, rfl⟩ := Frame.interrupted.inj (Option.some.inj pushed)
        exact ⟨notMasked, set⟩
      · exact inv.frames p code flag
          ((Function.update_of_ne running _ s.stackOf).symm.trans onStack)

theorem maskInv_initInstruction (inv : MaskInv s) {at_ : InitStep} (code : s.code = .init at_)
    {value : Nat} (returned : s.initInstruction value at_ = some s') : MaskInv s' := by
  have off := inv.off
  rw [code] at off
  cases at_ with
  | cli =>
      obtain rfl := Option.some.inj returned
      exact ⟨fun _ => rfl, nofun, inv.frames, nofun⟩
  | setProcessEnvironment =>
      obtain ⟨current, -, rfl⟩ := Option.map_eq_some_iff.mp returned
      exact ⟨fun _ => off rfl, nofun, inv.frames, nofun⟩
  | initKernelProcess | setCurrent | switchPageDirectory =>
      obtain rfl := Option.some.inj returned
      exact ⟨fun _ => off rfl, nofun, inv.frames, nofun⟩
  | sti | leave =>
      obtain rfl := Option.some.inj returned
      exact ⟨nofun, nofun, inv.frames, nofun⟩

/-- Between its `cli` and its `sti`, `fork` runs with the flag cleared on the path of
the parent. -/
theorem maskInv_forkInstruction (inv : MaskInv s) {at_ : ForkStep} (code : s.code = .fork at_)
    {value : Nat} (returned : s.forkInstruction value at_ = some s') : MaskInv s' := by
  have off := inv.off
  have pushed := inv.pushed
  have current := inv.current at_ code
  rw [code] at off pushed
  -- A step that stays masked and touches neither the flag nor an interrupted stack.
  have stays : ∀ t : Machine, t.interruptFlag = s.interruptFlag → masked t.code = true →
      masked (.fork at_) = true → pushedFlag t.code = none →
      t.currentProcess = s.currentProcess → at_ ≠ .cli →
      (∀ p code flag, t.stackOf p = some (.interrupted code flag) →
        s.stackOf p = some (.interrupted code flag)) → MaskInv t := by
    intro t sameFlag isMasked wasMasked notPushed sameCurrent notCli frames
    refine ⟨fun _ => sameFlag.trans (off wasMasked), fun flag isPushed => ?_,
      fun p code flag onStack => inv.frames p code flag (frames p code flag onStack),
      fun _ _ _ => sameCurrent ▸ current notCli⟩
    exact absurd (notPushed.symm.trans isPushed) (by simp)
  have sameStacks : ∀ p code flag, s.stackOf p = some (Frame.interrupted code flag) →
      s.stackOf p = some (.interrupted code flag) := fun _ _ _ same => same
  cases at_ with
  | cli =>
      obtain ⟨parent, running, rfl⟩ := Option.map_eq_some_iff.mp returned
      exact ⟨fun _ => rfl, nofun, inv.frames, fun _ _ _ => by simp [running]⟩
  | copyCli parent flag =>
      obtain rfl := Option.some.inj returned
      refine ⟨fun _ => rfl, fun flag' same => ?_, inv.frames, fun _ _ _ => current nofun⟩
      exact Option.some.inj same ▸ pushed flag rfl
  | copyPopf parent flag =>
      obtain rfl := Option.some.inj returned
      exact ⟨fun _ => pushed flag rfl, nofun, inv.frames, fun _ _ _ => current nofun⟩
  | link parent newProc =>
      obtain ⟨root, -, rfl⟩ := Option.map_eq_some_iff.mp returned
      exact stays _ rfl rfl rfl rfl rfl nofun sameStacks
  | compare parent newProc =>
      simp only [forkInstruction] at returned
      split_ifs at returned
      · obtain rfl := Option.some.inj returned
        exact stays _ rfl rfl rfl rfl rfl nofun sameStacks
      · obtain rfl := Option.some.inj returned
        exact stays _ rfl rfl rfl rfl rfl nofun sameStacks
  | copyStack parent newProc =>
      obtain rfl := Option.some.inj returned
      refine stays _ rfl rfl rfl rfl rfl nofun fun p code flag onStack => ?_
      by_cases child : p = newProc
      · subst child
        have copied := (Function.update_self p _ s.stackOf).symm.trans onStack
        exact absurd (Option.some.inj copied) (by simp)
      · exact (Function.update_of_ne child _ s.stackOf).symm.trans onStack
  | sti =>
      obtain rfl := Option.some.inj returned
      exact ⟨nofun, nofun, inv.frames, fun _ _ _ => current nofun⟩
  | leave | leaveChild =>
      obtain ⟨current, -, rfl⟩ := Option.map_eq_some_iff.mp returned
      exact ⟨nofun, nofun, inv.frames, nofun⟩
  | cloneDirectory | spawnProcess | setProcessEnvironment | readEip | saveEsp | saveEbp | saveEip =>
      obtain rfl := Option.some.inj returned
      exact stays _ rfl rfl rfl rfl rfl nofun sameStacks

theorem maskInv_step (inv : MaskInv s) {a : Action}
    (returned : s.step a = some s') : MaskInv s' := by
  cases a with
  | tick esp ebp => exact maskInv_timerInterrupt inv returned
  | instruction value =>
      simp only [step] at returned
      split at returned
      · next at_ code => exact maskInv_initInstruction inv code returned
      · next at_ code => exact maskInv_forkInstruction inv code returned
      · contradiction
      · contradiction
  | copyPage =>
      simp only [step] at returned
      split at returned
      · next parent code =>
          obtain rfl := Option.some.inj returned
          have cleared : s.interruptFlag = false := inv.off (by rw [code]; rfl)
          exact ⟨fun _ => cleared, fun flag same => Option.some.inj same ▸ cleared,
            inv.frames, fun _ _ _ => inv.current _ code nofun⟩
      · contradiction
  | callFork =>
      simp only [step] at returned
      split_ifs at returned
      obtain rfl := Option.some.inj returned
      exact ⟨nofun, nofun, inv.frames, fun _ same notCli =>
        absurd (Code.fork.inj same).symm notCli⟩

end Machine

end Balloon.Tasking
