import Mathlib.Algebra.Group.Nat.Defs
import Mathlib.Algebra.Group.Int.Defs
import Mathlib.Logic.Function.Basic

/-!
Owns the steps of task.c that interrupts can fall between: `init_tasking`, `fork`
and `switch_task`, with the interrupt flag, the queue links and the saved contexts
of the processes. It does not own the values in the registers: they are carried by
the actions.

The timer interrupt runs through the irq stub, `irq_handler`, `timer_callback` and
`switch_task` with the flag cleared by the interrupt gate, so nothing falls between
those steps and they are one action.
-/

namespace Balloon.Tasking

/-- The address of a `process_t`. -/
abbrev Pid := Nat

/-- A field of a context: what `kmalloc` left, the zero `spawn_process` stores, or a
value that was saved. -/
inductive Slot (α : Type) where
  | unwritten
  | zero
  | word (value : α)
deriving DecidableEq

/-- The two places `read_eip` returns to. -/
inductive ReturnAddress where
  | inSwitchTask
  | inFork
deriving DecidableEq

/-- The fields of `process_t` that scheduling reads; `next` is `none` for 0. -/
structure Process where
  esp : Slot Nat
  ebp : Slot Nat
  eip : Slot ReturnAddress
  pageDirectory : Slot Nat
  next : Option Pid

/-- A block that holds no process. -/
def Process.unallocated : Process := ⟨.unwritten, .unwritten, .unwritten, .unwritten, none⟩

/-- The next instruction of `init_tasking`. -/
inductive InitStep where
  | cli
  | initKernelProcess
  | setCurrent
  | setProcessEnvironment
  | switchPageDirectory
  | sti
  | leave
deriving DecidableEq

/-- The next instruction of `fork`. `pushf`, `cli` and `popf` are those of
`copy_page_physical`, which `clone_directory` calls once a copied page. -/
inductive ForkStep where
  | cli
  | cloneDirectory (parent : Pid)
  | copyCli (parent : Pid) (pushed : Bool)
  | copyPopf (parent : Pid) (pushed : Bool)
  | spawnProcess (parent : Pid)
  | link (parent newProc : Pid)
  | setProcessEnvironment (parent newProc : Pid)
  | readEip (parent newProc : Pid)
  | compare (parent newProc : Pid)
  | saveEsp (parent newProc : Pid)
  | saveEbp (parent newProc : Pid)
  | copyStack (parent newProc : Pid)
  | saveEip (parent newProc : Pid)
  | sti
  | leave
  | leaveChild
deriving DecidableEq

/-- What the processor runs outside of interrupt handlers. `lost` is a jump to an
`eip` that no `read_eip` returned. -/
inductive Code where
  | user
  | init (step : InitStep)
  | fork (step : ForkStep)
  | lost
deriving DecidableEq

/-- What is on the kernel stack of a process that does not run: the code and the
flags an interrupt pushed, or the locals of `fork` as copied from the parent. -/
inductive Frame where
  | interrupted (code : Code) (flag : Bool)
  | inFork (parent newProc : Pid)
deriving DecidableEq

/-- The variables of task.c and process.c, the interrupt flag, and what runs.
`count` is the number of processes made, which are numbered in the order of their
making. `loads` lists the contexts `switch_task` has loaded and `returned` the
processes in which `fork` has returned; no step reads them. -/
structure Machine where
  interruptFlag : Bool
  rootProc : Option Pid
  currentProcess : Option Pid
  procs : Pid → Process
  count : Nat
  code : Code
  stackOf : Pid → Option Frame
  staleNext : Option Pid
  loads : List Process
  returned : List Pid

/-- One step. The numbers are the values the step reads from registers, or the
address `clone_directory` returned. -/
inductive Action where
  | tick (esp ebp : Nat)
  | instruction (value : Nat)
  | copyPage
  | callFork

namespace Machine

def setProcess (s : Machine) (p : Pid) (process : Process) : Machine :=
  { s with procs := Function.update s.procs p process }

/-- `schedule`. -/
def schedule (s : Machine) (current root : Pid) : Pid := (s.procs current).next.getD root

/-- The first half of `switch_task`: the registers go into the context of the
running process, whose stack holds what the interrupt pushed. -/
def saveContext (s : Machine) (current : Pid) (esp ebp : Nat) (flag : Bool) : Machine :=
  { s.setProcess current
      { s.procs current with esp := .word esp, ebp := .word ebp, eip := .word .inSwitchTask } with
    stackOf := Function.update s.stackOf current (some (.interrupted s.code flag)) }

/-- `jmp *%ebx` to the saved `eip` of `target`. Behind `read_eip` of `switch_task`
the handler returns and `iret` restores the flag; behind that of `fork` the flag
stays as it is. -/
def resume (s : Machine) (target : Pid) : Machine :=
  match (s.procs target).eip, s.stackOf target with
  | .word .inSwitchTask, some (.interrupted code flag) =>
      { s with code := code, interruptFlag := flag }
  | .word .inFork, some (.inFork parent newProc) =>
      { s with code := .fork (.compare parent newProc) }
  | _, _ => { s with code := .lost }

/-- The second half of `switch_task`. -/
def loadContext (s : Machine) (target : Pid) : Machine :=
  { s with currentProcess := some target, loads := s.procs target :: s.loads }.resume target

/-- The timer interrupt, delivered while the flag is set. -/
def timerInterrupt (s : Machine) (esp ebp : Nat) : Option Machine :=
  if s.interruptFlag then
    match s.rootProc with
    | none => some s
    | some root =>
        s.currentProcess.map fun current =>
          let flag := s.interruptFlag
          let s := { s with interruptFlag := false }
          let s := s.saveContext current esp ebp flag
          s.loadContext (s.schedule current root)
  else none

/-- The next instruction of `init_tasking`. -/
def initInstruction (s : Machine) (value : Nat) : InitStep → Option Machine
  | .cli => some { s with interruptFlag := false, code := .init .initKernelProcess }
  | .initKernelProcess =>
      some
        { s.setProcess s.count { Process.unallocated with next := s.staleNext } with
          rootProc := some s.count, count := s.count + 1, code := .init .setCurrent }
  | .setCurrent =>
      some { s with currentProcess := s.rootProc, code := .init .setProcessEnvironment }
  | .setProcessEnvironment =>
      s.currentProcess.map fun current =>
        { s.setProcess current { s.procs current with pageDirectory := .word value } with
          code := .init .switchPageDirectory }
  | .switchPageDirectory => some { s with code := .init .sti }
  | .sti => some { s with interruptFlag := true, code := .init .leave }
  | .leave => some { s with code := .user }

/-- The next instruction of `fork`. -/
def forkInstruction (s : Machine) (value : Nat) : ForkStep → Option Machine
  | .cli =>
      s.currentProcess.map fun parent =>
        { s with interruptFlag := false, code := .fork (.cloneDirectory parent) }
  | .cloneDirectory parent => some { s with code := .fork (.spawnProcess parent) }
  | .copyCli parent pushed =>
      some { s with interruptFlag := false, code := .fork (.copyPopf parent pushed) }
  | .copyPopf parent pushed =>
      some { s with interruptFlag := pushed, code := .fork (.cloneDirectory parent) }
  | .spawnProcess parent =>
      some
        { s.setProcess s.count
            { Process.unallocated with esp := .zero, ebp := .zero, eip := .zero } with
          count := s.count + 1, code := .fork (.link parent s.count) }
  | .link parent newProc =>
      s.rootProc.map fun root =>
        let s := s.setProcess root { s.procs root with next := some newProc }
        { s.setProcess newProc { s.procs newProc with next := none } with
          code := .fork (.setProcessEnvironment parent newProc) }
  | .setProcessEnvironment parent newProc =>
      some
        { s.setProcess newProc { s.procs newProc with pageDirectory := .word value } with
          code := .fork (.readEip parent newProc) }
  | .readEip parent newProc => some { s with code := .fork (.compare parent newProc) }
  | .compare parent newProc =>
      if s.currentProcess = some parent then
        some { s with code := .fork (.saveEsp parent newProc) }
      else some { s with code := .fork .leaveChild }
  | .saveEsp parent newProc =>
      some
        { s.setProcess newProc { s.procs newProc with esp := .word value } with
          code := .fork (.saveEbp parent newProc) }
  | .saveEbp parent newProc =>
      some
        { s.setProcess newProc { s.procs newProc with ebp := .word value } with
          code := .fork (.copyStack parent newProc) }
  | .copyStack parent newProc =>
      some
        { s with
          stackOf := Function.update s.stackOf newProc (some (.inFork parent newProc))
          code := .fork (.saveEip parent newProc) }
  | .saveEip _ newProc =>
      some
        { s.setProcess newProc { s.procs newProc with eip := .word .inFork } with
          code := .fork .sti }
  | .sti => some { s with interruptFlag := true, code := .fork .leave }
  | .leave | .leaveChild =>
      s.currentProcess.map fun current =>
        { s with returned := current :: s.returned, code := .user }

def step (s : Machine) : Action → Option Machine
  | .tick esp ebp => s.timerInterrupt esp ebp
  | .instruction value =>
      match s.code with
      | .init at_ => s.initInstruction value at_
      | .fork at_ => s.forkInstruction value at_
      | .user | .lost => none
  | .copyPage =>
      match s.code with
      | .fork (.cloneDirectory parent) =>
          some { s with code := .fork (.copyCli parent s.interruptFlag) }
      | _ => none
  | .callFork => if s.code = .user then some { s with code := .fork .cli } else none

/-- Before `init_tasking`. `staleNext` is the word `kmalloc` leaves in the `next`
field of its first process. -/
def start (interruptFlag : Bool) (staleNext : Option Pid) : Machine where
  interruptFlag := interruptFlag
  rootProc := none
  currentProcess := none
  procs := fun _ => Process.unallocated
  count := 0
  code := .init .cli
  stackOf := fun _ => none
  staleNext := staleNext
  loads := []
  returned := []

end Machine

end Balloon.Tasking
