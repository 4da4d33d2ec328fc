import Balloon.Foundation.Transition
import Balloon.Tasking.Masking

/-!
Owns which contexts `switch_task` loads over whole runs. Every instruction of
`init_tasking` and `fork` has an assertion that says how far the process in the
making is filled in. The `next` field of the first process is outside of it: nothing
stores that field before the first `fork` links a child. That it is 0 then is owned by the
module of the first process.
-/

namespace Balloon.Tasking

open Balloon.Foundation

def Slot.isWord {α : Type} : Slot α → Bool
  | .word _ => true
  | _ => false

/-- All four values of a context have been saved. -/
structure Process.Written (process : Process) : Prop where
  esp : process.esp.isWord = true
  ebp : process.ebp.isWord = true
  eip : process.eip.isWord = true
  pageDirectory : process.pageDirectory.isWord = true

theorem Process.written_setNext {process : Process} (written : process.Written)
    (next : Option Pid) : { process with next := next }.Written :=
  ⟨written.esp, written.ebp, written.eip, written.pageDirectory⟩

namespace Machine

/-- `switch_task` has loaded written contexts only. -/
def LoadsWritten (s : Machine) : Prop := ∀ process ∈ s.loads, process.Written

/-- A delivered tick finds in `next` of the running process 0 or a process that has
been made. -/
def NextInitialised (s : Machine) : Action → Prop
  | .tick _ _ =>
      s.interruptFlag = true → s.rootProc ≠ none →
        ∀ p q, s.currentProcess = some p → (s.procs p).next = some q → q < s.count
  | _ => True

/-! ### Assertions -/

/-- Every process but the running one and an unfinished one has a written context,
and the running one has its directory. -/
structure Filled (s : Machine) (unfinished : Option Pid) : Prop where
  others : ∀ p < s.count, s.currentProcess ≠ some p → unfinished ≠ some p → (s.procs p).Written
  directory : ∀ p, s.currentProcess = some p → (s.procs p).pageDirectory.isWord = true

/-- `fork` has made `newProc`, which is not finished. -/
structure Making (s : Machine) (newProc : Pid) : Prop where
  made : newProc < s.count
  filled : s.Filled (some newProc)

/-- The assertion of each instruction. -/
def Assertion (s : Machine) : Prop :=
  match s.code with
  | .init .cli | .init .initKernelProcess =>
      s.rootProc = none ∧ s.currentProcess = none ∧ s.count = 0
  | .init .setCurrent => s.rootProc = some 0 ∧ s.currentProcess = none ∧ s.count = 1
  | .init .setProcessEnvironment => s.currentProcess = some 0 ∧ s.count = 1
  | .fork (.cloneDirectory parent) | .fork (.copyCli parent _) | .fork (.copyPopf parent _)
  | .fork (.spawnProcess parent) => s.currentProcess = some parent ∧ s.Filled none
  | .fork (.link parent newProc) | .fork (.setProcessEnvironment parent newProc) =>
      s.currentProcess = some parent ∧ parent ≠ newProc ∧ s.Making newProc
  | .fork (.readEip parent newProc) =>
      s.currentProcess = some parent ∧ s.Making newProc ∧
        (s.procs newProc).pageDirectory.isWord = true
  | .fork (.compare parent newProc) =>
      (s.currentProcess = some parent ∨ s.currentProcess = some newProc) ∧ s.Making newProc ∧
        (s.procs newProc).pageDirectory.isWord = true
  | .fork (.saveEsp _ newProc) =>
      s.Making newProc ∧ (s.procs newProc).pageDirectory.isWord = true
  | .fork (.saveEbp _ newProc) =>
      s.Making newProc ∧ (s.procs newProc).pageDirectory.isWord = true ∧
        (s.procs newProc).esp.isWord = true
  | .fork (.copyStack _ newProc) | .fork (.saveEip _ newProc) =>
      s.Making newProc ∧ (s.procs newProc).pageDirectory.isWord = true ∧
        (s.procs newProc).esp.isWord = true ∧ (s.procs newProc).ebp.isWord = true
  | .user | .lost | .init .switchPageDirectory | .init .sti | .init .leave | .fork .cli
  | .fork .sti | .fork .leave | .fork .leaveChild => s.Filled none

/-- Code before the first process. -/
def booting : Code → Bool
  | .init .cli | .init .initKernelProcess => true
  | _ => false

/-- What holds of the processes and the stacks before every instruction. -/
structure TableInv (s : Machine) : Prop where
  loads : s.LoadsWritten
  unused : ∀ p, s.count ≤ p → s.procs p = Process.unallocated
  root : ∀ p, s.rootProc = some p → p < s.count
  current : ∀ p, s.currentProcess = some p → p < s.count
  frames : ∀ p code flag, s.stackOf p = some (.interrupted code flag) → booting code = false
  children : ∀ p parent newProc, s.stackOf p = some (.inFork parent newProc) → newProc = p

structure ContextInv (s : Machine) : Prop where
  mask : MaskInv s
  table : TableInv s
  assertion : Assertion s

variable {s s' : Machine}

theorem contextInv_start (interruptFlag : Bool) (staleNext : Option Pid) :
    ContextInv (start interruptFlag staleNext) where
  mask := maskInv_start interruptFlag staleNext
  table := ⟨nofun, fun _ _ => rfl, nofun, nofun, nofun, nofun⟩
  assertion := ⟨rfl, rfl, rfl⟩

/-! ### Stores into a process -/

@[simp]
theorem setProcess_self (p : Pid) (process : Process) :
    (s.setProcess p process).procs p = process := by
  simp [setProcess]

theorem setProcess_of_ne {p q : Pid} (other : q ≠ p) (process : Process) :
    (s.setProcess p process).procs q = s.procs q := by
  simp [setProcess, other]

theorem setProcess_next {p : Pid} (process : Process) (same : process.next = (s.procs p).next)
    (q : Pid) : ((s.setProcess p process).procs q).next = (s.procs q).next := by
  by_cases target : q = p
  · subst target
    rw [setProcess_self, same]
  · rw [setProcess_of_ne target]

theorem TableInv.setProcess (table : TableInv s) {p : Pid} (made : p < s.count)
    (process : Process) : TableInv (s.setProcess p process) where
  loads := table.loads
  unused q unmade := by
    have other : q ≠ p := fun same => absurd (same ▸ unmade) (Nat.not_le.mpr made)
    rw [setProcess_of_ne other]
    exact table.unused q unmade
  root := table.root
  current := table.current
  frames := table.frames
  children := table.children

/-- A store into the unfinished process. -/
theorem Making.setProcess {p : Pid} (making : s.Making p) (process : Process)
    (directory : s.currentProcess = some p → process.pageDirectory.isWord = true) :
    (s.setProcess p process).Making p where
  made := making.made
  filled.others q made notCurrent notUnfinished := by
    rw [setProcess_of_ne fun same => notUnfinished (congrArg some same.symm)]
    exact making.filled.others q made notCurrent notUnfinished
  filled.directory q running := by
    by_cases same : q = p
    · subst same
      rw [setProcess_self]
      exact directory running
    · rw [setProcess_of_ne same]
      exact making.filled.directory q running

/-- The last store into the unfinished process. -/
theorem Making.finish {p : Pid} (making : s.Making p) (process : Process)
    (written : process.Written) : (s.setProcess p process).Filled none where
  others q made notCurrent _ := by
    by_cases same : q = p
    · subst same
      rwa [setProcess_self]
    · rw [setProcess_of_ne same]
      exact making.filled.others q made notCurrent fun unfinished =>
        same (Option.some.inj unfinished).symm
  directory q running := by
    by_cases same : q = p
    · subst same
      rw [setProcess_self]
      exact written.pageDirectory
    · rw [setProcess_of_ne same]
      exact making.filled.directory q running

theorem Filled.setNext {unfinished : Option Pid} (filled : s.Filled unfinished) (p : Pid)
    (next : Option Pid) :
    (s.setProcess p { s.procs p with next := next }).Filled unfinished where
  others q made notCurrent notUnfinished := by
    have written := filled.others q made notCurrent notUnfinished
    by_cases same : q = p
    · subst same
      rw [setProcess_self]
      exact Process.written_setNext written next
    · rwa [setProcess_of_ne same]
  directory q running := by
    have directory := filled.directory q running
    by_cases same : q = p
    · subst same
      rwa [setProcess_self]
    · rwa [setProcess_of_ne same]

/-! ### Ticks -/

/-- Outside of masked code nothing is in the making, except before the first process. -/
theorem assertion_iff_filled (notMasked : masked s.code = false)
    (notBooting : booting s.code = false) : Assertion s ↔ s.Filled none := by
  unfold Assertion
  split <;> simp_all [masked, booting]

/-- After the first half of `switch_task` every process has a written context. -/
theorem written_saveContext (filled : s.Filled none) {current : Pid}
    (running : s.currentProcess = some current) (esp ebp : Nat) (flag : Bool) :
    ∀ p < s.count, ((s.saveContext current esp ebp flag).procs p).Written := by
  intro p made
  by_cases same : p = current
  · subst same
    simp only [saveContext, setProcess_self]
    exact ⟨rfl, rfl, rfl, filled.directory p running⟩
  · simp only [saveContext, setProcess_of_ne same]
    exact filled.others p made (fun runs => same (Option.some.inj (runs.symm.trans running))) nofun

theorem TableInv.saveContext (table : TableInv s) {current : Pid}
    (running : s.currentProcess = some current) (notBooting : booting s.code = false)
    (esp ebp : Nat) (flag : Bool) : TableInv (s.saveContext current esp ebp flag) := by
  have stored := table.setProcess (table.current current running)
    { s.procs current with esp := .word esp, ebp := .word ebp, eip := .word .inSwitchTask }
  refine ⟨stored.loads, stored.unused, stored.root, stored.current, fun p code flag' onStack => ?_,
    fun p parent newProc onStack => ?_⟩
  · by_cases same : p = current
    · subst same
      simp only [Machine.saveContext, Function.update_self, Option.some.injEq,
        Frame.interrupted.injEq] at onStack
      exact onStack.1 ▸ notBooting
    · simp only [Machine.saveContext, Function.update_of_ne same] at onStack
      exact table.frames p code flag' onStack
  · by_cases same : p = current
    · subst same
      simp [Machine.saveContext] at onStack
    · simp only [Machine.saveContext, Function.update_of_ne same] at onStack
      exact table.children p parent newProc onStack

/-- The second half of `switch_task`, when every process has a written context. -/
theorem contextInv_loadContext (table : TableInv s)
    (written : ∀ p < s.count, (s.procs p).Written) {target : Pid} (made : target < s.count)
    (mask : MaskInv (s.loadContext target)) : ContextInv (s.loadContext target) := by
  have others : ∀ unfinished : Option Pid, ∀ p < s.count, some target ≠ some p →
      unfinished ≠ some p → (s.procs p).Written := fun _ p below _ _ => written p below
  have directory : ∀ p, some target = some p → (s.procs p).pageDirectory.isWord = true := by
    intro p same
    exact Option.some.inj same ▸ (written target made).pageDirectory
  have loads : ∀ process ∈ s.procs target :: s.loads, process.Written :=
    List.forall_mem_cons.mpr ⟨written target made, table.loads⟩
  have current : ∀ p, some target = some p → p < s.count :=
    fun p same => Option.some.inj same ▸ made
  have frames : ∀ p code flag, s.stackOf p = some (.interrupted code flag) →
      masked code = false ∧ flag = true := by
    simpa only [loadContext_stackOf] using mask.frames
  revert mask
  unfold loadContext resume
  split
  · next code flag _ onStack =>
      intro mask
      refine ⟨mask, ⟨loads, table.unused, table.root, current, table.frames, table.children⟩, ?_⟩
      apply (assertion_iff_filled (frames target code flag onStack).1
        (table.frames target code flag onStack)).mpr
      exact ⟨others none, directory⟩
  · next parent newProc _ onStack =>
      intro mask
      obtain rfl := table.children target parent newProc onStack
      refine ⟨mask, ⟨loads, table.unused, table.root, current, table.frames, table.children⟩, ?_⟩
      exact ⟨Or.inr rfl, ⟨made, others _, directory⟩, (written newProc made).pageDirectory⟩
  · intro mask
    exact ⟨mask, ⟨loads, table.unused, table.root, current, table.frames, table.children⟩,
      ⟨others none, directory⟩⟩

/-- Behind the boot there is a first process. -/
theorem ContextInv.notBooting (inv : ContextInv s) {root : Pid} (isRoot : s.rootProc = some root) :
    booting s.code = false := by
  have assertion := inv.assertion
  cases early : booting s.code with
  | false => rfl
  | true =>
      unfold Assertion at assertion
      split at assertion <;> simp_all [booting]

/-- The context `switch_task` loads is that of a process that has been made. -/
theorem schedule_made (table : TableInv s) {current root : Pid} (isRoot : s.rootProc = some root)
    (linked : ∀ q, (s.procs current).next = some q → q < s.count) :
    s.schedule current root < s.count := by
  unfold schedule
  cases next : (s.procs current).next with
  | none => exact table.root root isRoot
  | some q => exact linked q next

@[simp]
theorem saveContext_next (current : Pid) (esp ebp : Nat) (flag : Bool) (p : Pid) :
    ((s.saveContext current esp ebp flag).procs p).next = (s.procs p).next :=
  setProcess_next
    { s.procs current with esp := .word esp, ebp := .word ebp, eip := .word .inSwitchTask } rfl p

theorem contextInv_timerInterrupt (inv : ContextInv s) {esp ebp : Nat}
    (initialised : NextInitialised s (.tick esp ebp))
    (returned : s.timerInterrupt esp ebp = some s') : ContextInv s' := by
  have mask := maskInv_timerInterrupt inv.mask returned
  unfold timerInterrupt at returned
  split_ifs at returned with set
  split at returned
  · exact Option.some.inj returned ▸ inv
  · next root isRoot =>
      obtain ⟨current, running, rfl⟩ := Option.map_eq_some_iff.mp returned
      have notBooting : booting s.code = false := inv.notBooting isRoot
      have cleared : TableInv { s with interruptFlag := false } :=
        ⟨inv.table.loads, inv.table.unused, inv.table.root, inv.table.current, inv.table.frames,
          inv.table.children⟩
      have table := cleared.saveContext running notBooting esp ebp s.interruptFlag
      have filled : s.Filled none :=
        (assertion_iff_filled (inv.mask.notMasked set) notBooting).mp inv.assertion
      have written := written_saveContext (s := { s with interruptFlag := false })
        ⟨filled.others, filled.directory⟩ running esp ebp s.interruptFlag
      refine contextInv_loadContext table written (schedule_made table isRoot fun q next => ?_) mask
      rw [saveContext_next] at next
      exact initialised set (by simp [isRoot]) current q running next

/-! ### Instructions -/

theorem table_initInstruction (inv : ContextInv s) {at_ : InitStep} (code : s.code = .init at_)
    {value : Nat} (returned : s.initInstruction value at_ = some s') :
    TableInv s' ∧ Assertion s' := by
  have table := inv.table
  have assertion := inv.assertion
  unfold Assertion at assertion
  rw [code] at assertion
  cases at_ with
  | cli =>
      obtain rfl := Option.some.inj returned
      exact ⟨⟨table.loads, table.unused, table.root, table.current, table.frames, table.children⟩,
        assertion⟩
  | initKernelProcess =>
      obtain rfl := Option.some.inj returned
      obtain ⟨-, notRunning, none⟩ := assertion
      refine ⟨⟨table.loads, fun p unmade => ?_, fun p same => ?_, ?_, table.frames,
        table.children⟩, ?_⟩
      · have other : p ≠ s.count := by
          rintro rfl
          exact absurd unmade (Nat.not_succ_le_self _)
        rw [setProcess_of_ne other]
        exact table.unused p (Nat.le_of_succ_le unmade)
      · exact Option.some.inj same ▸ Nat.lt_succ_self s.count
      · exact fun p running => Nat.lt_succ_of_lt (table.current p running)
      · exact ⟨congrArg some none, notRunning, congrArg Nat.succ none⟩
  | setCurrent =>
      obtain rfl := Option.some.inj returned
      obtain ⟨isRoot, -, one⟩ := assertion
      exact ⟨⟨table.loads, table.unused, table.root, table.root, table.frames, table.children⟩,
        isRoot, one⟩
  | setProcessEnvironment =>
      obtain ⟨current, running, rfl⟩ := Option.map_eq_some_iff.mp returned
      obtain ⟨runsFirst, one⟩ := assertion
      have stored := table.setProcess (table.current current running)
        { s.procs current with pageDirectory := .word value }
      refine ⟨⟨stored.loads, stored.unused, stored.root, stored.current, stored.frames,
        stored.children⟩, fun p made notRunning _ => ?_, fun p runs => ?_⟩
      · -- the only process is the running one
        obtain rfl : p = 0 := Nat.lt_one_iff.mp (one ▸ made)
        exact absurd runsFirst notRunning
      · obtain rfl := Option.some.inj (running.symm.trans runs)
        rw [setProcess_self]
        rfl
  | switchPageDirectory | sti | leave =>
      obtain rfl := Option.some.inj returned
      exact ⟨⟨table.loads, table.unused, table.root, table.current, table.frames, table.children⟩,
        assertion.others, assertion.directory⟩

/-- `spawn_process` makes a process with a zero context, which is not finished. -/
theorem table_spawnProcess (table : TableInv s) (filled : s.Filled none) (process : Process) :
    TableInv { s.setProcess s.count process with count := s.count + 1 } ∧
      ({ s.setProcess s.count process with count := s.count + 1 } : Machine).Making s.count := by
  refine ⟨⟨table.loads, fun p unmade => ?_, ?_, ?_, table.frames, table.children⟩,
    Nat.lt_succ_self s.count, fun p made notRunning notUnfinished => ?_, fun p running => ?_⟩
  · have other : p ≠ s.count := by
      rintro rfl
      exact absurd unmade (Nat.not_succ_le_self _)
    rw [setProcess_of_ne other]
    exact table.unused p (Nat.le_of_succ_le unmade)
  · exact fun p isRoot => Nat.lt_succ_of_lt (table.root p isRoot)
  · exact fun p running => Nat.lt_succ_of_lt (table.current p running)
  · have other : p ≠ s.count := fun same => notUnfinished (congrArg some same.symm)
    rw [setProcess_of_ne other]
    exact filled.others p (Nat.lt_of_le_of_ne (Nat.le_of_lt_succ made) other) notRunning nofun
  · have other : p ≠ s.count := Nat.ne_of_lt (table.current p running)
    rw [setProcess_of_ne other]
    exact filled.directory p running

theorem table_forkInstruction (inv : ContextInv s) {at_ : ForkStep} (code : s.code = .fork at_)
    {value : Nat} (returned : s.forkInstruction value at_ = some s') :
    TableInv s' ∧ Assertion s' := by
  have table := inv.table
  have assertion := inv.assertion
  unfold Assertion at assertion
  rw [code] at assertion
  cases at_ with
  | cli =>
      obtain ⟨parent, running, rfl⟩ := Option.map_eq_some_iff.mp returned
      exact ⟨⟨table.loads, table.unused, table.root, table.current, table.frames, table.children⟩,
        running, assertion.others, assertion.directory⟩
  | cloneDirectory | copyCli | copyPopf =>
      obtain rfl := Option.some.inj returned
      obtain ⟨running, filled⟩ := assertion
      exact ⟨⟨table.loads, table.unused, table.root, table.current, table.frames, table.children⟩,
        running, filled.others, filled.directory⟩
  | spawnProcess parent =>
      obtain rfl := Option.some.inj returned
      obtain ⟨running, filled⟩ := assertion
      obtain ⟨spawned, made, unfinished⟩ := table_spawnProcess table filled
        { Process.unallocated with esp := .zero, ebp := .zero, eip := .zero }
      exact ⟨⟨spawned.loads, spawned.unused, spawned.root, spawned.current, spawned.frames,
        spawned.children⟩, running, Nat.ne_of_lt (table.current parent running), made,
        unfinished.others, unfinished.directory⟩
  | link parent newProc =>
      obtain ⟨root, isRoot, rfl⟩ := Option.map_eq_some_iff.mp returned
      obtain ⟨running, other, making⟩ := assertion
      have linked := (table.setProcess (table.root root isRoot)
        { s.procs root with next := some newProc }).setProcess making.made
        { (s.setProcess root { s.procs root with next := some newProc }).procs newProc with
          next := none }
      have filled := (making.filled.setNext root (some newProc)).setNext newProc none
      exact ⟨⟨linked.loads, linked.unused, linked.root, linked.current, linked.frames,
        linked.children⟩, running, other, making.made, filled.others, filled.directory⟩
  | setProcessEnvironment parent newProc =>
      obtain rfl := Option.some.inj returned
      obtain ⟨running, other, making⟩ := assertion
      have stored := table.setProcess making.made
        { s.procs newProc with pageDirectory := .word value }
      have making' := making.setProcess { s.procs newProc with pageDirectory := .word value }
        fun _ => rfl
      refine ⟨⟨stored.loads, stored.unused, stored.root, stored.current, stored.frames,
        stored.children⟩, running, ⟨making.made, making'.filled.others,
          making'.filled.directory⟩, ?_⟩
      rw [setProcess_self]
      rfl
  | readEip parent newProc =>
      obtain rfl := Option.some.inj returned
      obtain ⟨running, making, directory⟩ := assertion
      exact ⟨⟨table.loads, table.unused, table.root, table.current, table.frames, table.children⟩,
        Or.inl running, ⟨making.made, making.filled.others, making.filled.directory⟩, directory⟩
  | compare parent newProc =>
      obtain ⟨running, making, directory⟩ := assertion
      simp only [forkInstruction] at returned
      split_ifs at returned with isParent
      · obtain rfl := Option.some.inj returned
        exact ⟨⟨table.loads, table.unused, table.root, table.current, table.frames,
          table.children⟩, ⟨making.made, making.filled.others, making.filled.directory⟩, directory⟩
      · -- the child runs, so nothing is in the making any more
        obtain rfl := Option.some.inj returned
        have isChild : s.currentProcess = some newProc := running.resolve_left isParent
        exact ⟨⟨table.loads, table.unused, table.root, table.current, table.frames,
          table.children⟩, fun p made notRunning _ => making.filled.others p made notRunning
            (isChild ▸ notRunning), making.filled.directory⟩
  | saveEsp parent newProc =>
      obtain rfl := Option.some.inj returned
      obtain ⟨making, directory⟩ := assertion
      have stored := table.setProcess making.made { s.procs newProc with esp := .word value }
      have making' := making.setProcess { s.procs newProc with esp := .word value }
        fun _ => directory
      refine ⟨⟨stored.loads, stored.unused, stored.root, stored.current, stored.frames,
        stored.children⟩, ⟨making.made, making'.filled.others, making'.filled.directory⟩, ?_⟩
      rw [setProcess_self]
      exact ⟨directory, rfl⟩
  | saveEbp parent newProc =>
      obtain rfl := Option.some.inj returned
      obtain ⟨making, directory, esp⟩ := assertion
      have stored := table.setProcess making.made { s.procs newProc with ebp := .word value }
      have making' := making.setProcess { s.procs newProc with ebp := .word value }
        fun _ => directory
      refine ⟨⟨stored.loads, stored.unused, stored.root, stored.current, stored.frames,
        stored.children⟩, ⟨making.made, making'.filled.others, making'.filled.directory⟩, ?_⟩
      rw [setProcess_self]
      exact ⟨directory, esp, rfl⟩
  | copyStack parent newProc =>
      obtain rfl := Option.some.inj returned
      obtain ⟨making, saved⟩ := assertion
      refine ⟨⟨table.loads, table.unused, table.root, table.current, fun p code' flag onStack => ?_,
        fun p parent' newProc' onStack => ?_⟩, ⟨making.made, making.filled.others,
          making.filled.directory⟩, saved⟩
      · by_cases same : p = newProc
        · subst same
          simp at onStack
        · simp only [Function.update_of_ne same] at onStack
          exact table.frames p code' flag onStack
      · by_cases same : p = newProc
        · subst same
          simp only [Function.update_self, Option.some.injEq, Frame.inFork.injEq] at onStack
          exact onStack.2.symm
        · simp only [Function.update_of_ne same] at onStack
          exact table.children p parent' newProc' onStack
  | saveEip parent newProc =>
      obtain rfl := Option.some.inj returned
      obtain ⟨making, directory, esp, ebp⟩ := assertion
      have stored := table.setProcess making.made { s.procs newProc with eip := .word .inFork }
      have filled := making.finish { s.procs newProc with eip := .word .inFork }
        ⟨esp, ebp, rfl, directory⟩
      exact ⟨⟨stored.loads, stored.unused, stored.root, stored.current, stored.frames,
        stored.children⟩, filled.others, filled.directory⟩
  | sti =>
      obtain rfl := Option.some.inj returned
      exact ⟨⟨table.loads, table.unused, table.root, table.current, table.frames, table.children⟩,
        assertion.others, assertion.directory⟩
  | leave | leaveChild =>
      obtain ⟨_, -, rfl⟩ := Option.map_eq_some_iff.mp returned
      exact ⟨⟨table.loads, table.unused, table.root, table.current, table.frames, table.children⟩,
        assertion.others, assertion.directory⟩

theorem contextInv_step (inv : ContextInv s) {a : Action} (initialised : NextInitialised s a)
    (returned : s.step a = some s') : ContextInv s' := by
  have mask := maskInv_step inv.mask returned
  have table := inv.table
  have assertion := inv.assertion
  cases a with
  | tick esp ebp => exact contextInv_timerInterrupt inv initialised returned
  | instruction value =>
      simp only [step] at returned
      split at returned
      · next at_ code =>
          obtain ⟨table', assertion'⟩ := table_initInstruction inv code returned
          exact ⟨mask, table', assertion'⟩
      · next at_ code =>
          obtain ⟨table', assertion'⟩ := table_forkInstruction inv code returned
          exact ⟨mask, table', assertion'⟩
      · contradiction
      · contradiction
  | copyPage =>
      simp only [step] at returned
      split at returned
      · next parent code =>
          obtain rfl := Option.some.inj returned
          unfold Assertion at assertion
          rw [code] at assertion
          obtain ⟨running, filled⟩ := assertion
          exact ⟨mask, ⟨table.loads, table.unused, table.root, table.current, table.frames,
            table.children⟩, running, filled.others, filled.directory⟩
      · contradiction
  | callFork =>
      simp only [step] at returned
      split_ifs at returned with isUser
      obtain rfl := Option.some.inj returned
      have filled := (assertion_iff_filled (by rw [isUser]; rfl) (by rw [isUser]; rfl)).mp assertion
      exact ⟨mask, ⟨table.loads, table.unused, table.root, table.current, table.frames,
        table.children⟩, filled.others, filled.directory⟩

/-! ### Runs -/

theorem loadContext_loads (target : Pid) :
    (s.loadContext target).loads = s.procs target :: s.loads := by
  unfold loadContext resume
  split <;> rfl

/-- A stale `next` leads `switch_task` to a block that holds no process. -/
theorem loads_unallocated (inv : ContextInv s) {esp ebp : Nat}
    (stale : ¬ NextInitialised s (.tick esp ebp)) :
    ∃ s', s.step (.tick esp ebp) = some s' ∧ ¬ LoadsWritten s' := by
  simp only [NextInitialised, not_forall, Nat.not_lt] at stale
  obtain ⟨set, rooted, current, q, running, next, unmade⟩ := stale
  obtain ⟨root, isRoot⟩ := Option.ne_none_iff_exists'.mp rooted
  have other : q ≠ current := by
    rintro rfl
    exact absurd (inv.table.current q running) (Nat.not_lt.mpr unmade)
  let saved := ({ s with interruptFlag := false } : Machine).saveContext current esp ebp true
  have scheduled : saved.schedule current root = q := by
    unfold schedule
    rw [saveContext_next, next]
    rfl
  have unallocated : saved.procs q = Process.unallocated := by
    rw [← inv.table.unused q unmade]
    exact setProcess_of_ne other _
  refine ⟨saved.loadContext (saved.schedule current root), ?_, fun written => ?_⟩
  · simp only [step, timerInterrupt, set, isRoot, running, if_true, Option.map_some, saved]
  · rw [LoadsWritten, loadContext_loads, scheduled, unallocated] at written
    exact absurd (written _ List.mem_cons_self).esp (by decide)

/-- After `init_tasking`, along any interleaving of `fork` calls and timer
interrupts, `switch_task` loads written contexts only exactly when no delivered tick
finds in the running process a `next` that nothing has stored. -/
theorem loadsWritten_iff_nextInitialised (interruptFlag : Bool) (staleNext : Option Pid)
    (actions : List Action) :
    (∀ s ∈ visited step (start interruptFlag staleNext) actions, LoadsWritten s) ↔
      EveryStep step NextInitialised (start interruptFlag staleNext) actions := by
  refine visited_good_iff_everyStep (fun s inv => inv.table.loads)
    (fun s a s' inv _ initialised returned => contextInv_step inv initialised returned) ?_
    (contextInv_start interruptFlag staleNext) (everyStep_true _ _ _)
  intro s a inv _ stale
  cases a with
  | tick esp ebp => exact loads_unallocated inv stale
  | instruction value => exact absurd trivial stale
  | copyPage => exact absurd trivial stale
  | callFork => exact absurd trivial stale

/-! ### Runs from a block with a zero in the place of `next` -/

/-- Every `next` is 0 or a process that has been made. -/
structure LinksMade (s : Machine) : Prop where
  stale : s.staleNext = none
  made : ∀ p q, (s.procs p).next = some q → q < s.count

/-- A step that stores no `next`. -/
theorem LinksMade.keep (links : LinksMade s) (stale : s'.staleNext = s.staleNext)
    (count : s.count ≤ s'.count) (next : ∀ p, (s'.procs p).next = (s.procs p).next) :
    LinksMade s' where
  stale := stale.trans links.stale
  made p q linked := Nat.lt_of_lt_of_le (links.made p q (next p ▸ linked)) count

/-- A store into a process. -/
theorem LinksMade.store (links : LinksMade s) (p : Pid) (process : Process)
    (made : ∀ q, process.next = some q → q < s.count) : LinksMade (s.setProcess p process) where
  stale := links.stale
  made r q linked := by
    by_cases same : r = p
    · subst same
      rw [setProcess_self] at linked
      exact made q linked
    · rw [setProcess_of_ne same] at linked
      exact links.made r q linked

end Machine

end Balloon.Tasking
