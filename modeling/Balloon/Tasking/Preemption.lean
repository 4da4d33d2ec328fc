import Balloon.Foundation.Transition
import Balloon.Interrupts.Stubs
import Balloon.Process.StackCopy
import Balloon.Tasking.Model

/-!
Owns `switch_task` as the timer interrupt calls it, with the registers and the stacks: the stub of
the interrupt saves the registers of one process, and the same code restores those of another.
A process that gets the processor back goes on as if it had never lost it, over any run of timer
interrupts, and whatever the other processes do outside of its stack.

The compiled code between the stub and `read_eip` is a parameter. Memory is the kernel's, which all
directories share.
-/

namespace Balloon.Tasking.Preemption

open Balloon.Foundation Balloon.Interrupts

/-! ### The code -/

/-- What `switch_task` uses of a `process_t`. -/
structure Thread where
  esp : BitVec 32
  ebp : BitVec 32
  eip : BitVec 32
  next : Option Pid

/-- The processes behind `init_tasking`; `made` are those that `kmalloc` has returned. -/
structure Tasks where
  threads : Pid → Thread
  made : Pid → Prop
  rootProc : Pid
  current : Pid

def Tasks.setThread (w : Tasks) (p : Pid) (thread : Thread) : Tasks :=
  { w with threads := fun q => if q = p then thread else w.threads q }

def Tasks.schedule (w : Tasks) : Pid := (w.threads w.current).next.getD w.rootProc

/-- The first stores of `switch_task`: the context of the current process, with the address that
`read_eip` has returned. -/
def saveContext (eip : BitVec 32) (d : Cpu Tasks) : Tasks :=
  d.world.setThread d.world.current
    { d.world.threads d.world.current with esp := d.regs .esp, ebp := d.regs .ebp, eip := eip }

/-- `switch_task` from the return of `read_eip` to the jump. -/
def switchTask (eip : BitVec 32) (d : Cpu Tasks) : Cpu Tasks :=
  let w := saveContext eip d
  let thread := w.threads w.schedule
  { (((d.set .ebx thread.eip).set .esp thread.esp).set .ebp thread.ebp).set .eax 0x10000 with
    eip := thread.eip
    world := { w with current := w.schedule } }

/-- The compiled code of the timer interrupt: `descend` goes from the first instruction of
`irq_handler` through `timer_callback` to the return of `read_eip` in `switch_task`, and `ascend`
from there, with 0x10000 in `eax`, back behind the call of `irq_handler`. -/
structure TimerCode where
  labels : Labels
  irq0 : BitVec 32
  afterReadEip : BitVec 32
  descend : Cpu Tasks → Option (Cpu Tasks)
  ascend : Cpu Tasks → Option (Cpu Tasks)

/-- The timer interrupt. The jump of `switch_task` leads behind `read_eip`, and from there through
the second half of the stub; or into the `fork` that made a process. -/
def tick (code : TimerCode) (c : Cpu Tasks) : Option (Cpu Tasks) :=
  (Cpu.run (fun _ => some) (entry code.labels 32) (c.deliver 0x08 code.irq0 none)).bind fun s =>
    (code.descend s).bind fun d =>
      let u := switchTask code.afterReadEip d
      if u.eip = code.afterReadEip then
        (code.ascend u).bind (Cpu.run (fun _ => some) restoring)
      else some u

/-! ### Compiled code -/

/-- What the convention of C says of the compiled code: it writes to its frames, which start below
the argument, and to the globals of the kernel, and it goes on from `esp` and `ebp` if its frames
are as it left them. -/
structure TimerCode.Compiled (code : TimerCode) (frame : Nat) (globals : Nat → Prop) : Prop where
  descends : ∀ s, frame ≤ (s.regs .esp).toNat →
    ∃ d, code.descend s = some d ∧ d.world = s.world ∧
      (d.regs .esp).toNat ≤ (s.regs .esp).toNat ∧
      (s.regs .esp).toNat ≤ (d.regs .esp).toNat + frame ∧
      ∀ a, ¬ globals a → a + frame < (s.regs .esp).toNat ∨ (s.regs .esp).toNat + 8 ≤ a →
        d.memory a = s.memory a
  ascends : ∀ s d u, code.descend s = some d → u.regs .esp = d.regs .esp →
    u.regs .ebp = d.regs .ebp → u.regs .eax = 0x10000 →
    (∀ a, (d.regs .esp).toNat ≤ a → a < (s.regs .esp).toNat + 8 → u.memory a = d.memory a) →
    ∃ t, code.ascend u = some t ∧ t.regs .esp = s.regs .esp + 4 ∧ t.world = u.world ∧
      ∀ a, ¬ globals a → a + frame < (s.regs .esp).toNat ∨ (s.regs .esp).toNat + 8 ≤ a →
        t.memory a = u.memory a

/-! ### Stacks -/

/-- A stack pointer with room for a timer interrupt in a stack. -/
structure Fits (frame : Nat) (stack : Nat → Prop) (esp : BitVec 32) : Prop where
  room : 64 + frame ≤ esp.toNat
  inside : ∀ a, esp.toNat ≤ a + (64 + frame) → a < esp.toNat → stack a

/-- The stacks are apart from each other and from the globals of the kernel. -/
structure Apart (stackOf : Pid → Nat → Prop) (globals : Nat → Prop) : Prop where
  single : ∀ p q a, stackOf p a → stackOf q a → p = q
  globals : ∀ p a, stackOf p a → ¬ globals a

/-- A process that a timer interrupt has stopped in the state `c`: its context leads behind
`read_eip`, its frames are below the `registers_t` of `c`, and above that its stack is as in `c`. -/
structure Stopped (code : TimerCode) (frame : Nat) (stack : Nat → Prop) (thread : Thread)
    (m : Memory) (c s d : Cpu Tasks) : Prop where
  fits : Fits frame stack (c.regs .esp)
  atHandler : AtHandler c 32 none code.labels.irqReturn s
  descended : code.descend s = some d
  esp : thread.esp = d.regs .esp
  ebp : thread.ebp = d.regs .ebp
  eip : thread.eip = code.afterReadEip
  frames : ∀ a, (d.regs .esp).toNat ≤ a → a < (c.regs .esp).toNat → m a = d.memory a
  above : ∀ a, stack a → (c.regs .esp).toNat ≤ a → m a = c.memory a

/-- A process that `fork` has made and that has not run yet. -/
structure Newborn (code : TimerCode) (frame : Nat) (stack : Nat → Prop) (thread : Thread) :
    Prop where
  fits : Fits frame stack thread.esp
  eip : thread.eip ≠ code.afterReadEip

/-- A process goes on: all its registers are back, its segment registers all have the selector of
`ds`, and its stack is as it was. -/
structure GoesOn (stack : Nat → Prop) (c c' : Cpu Tasks) : Prop where
  regs : c'.regs = c.regs
  eip : c'.eip = c.eip
  cs : c'.cs = c.cs
  eflags : c'.eflags = c.eflags
  segs : c'.segs = fun _ => c.segs .ds
  stack : ∀ a, stack a → (c.regs .esp).toNat ≤ a → c'.memory a = c.memory a

variable {code : TimerCode} {frame : Nat} {globals : Nat → Prop} {stackOf : Pid → Nat → Prop}
  {stack : Nat → Prop} {thread : Thread} {m m' : Memory} {c s d u : Cpu Tasks}

/-- A process stays stopped while nobody writes to its stack. -/
theorem Stopped.keep (stopped : Stopped code frame stack thread m c s d)
    (compiled : code.Compiled frame globals) (same : ∀ a, stack a → m' a = m a)
    {thread' : Thread} (esp : thread'.esp = thread.esp) (ebp : thread'.ebp = thread.ebp)
    (eip : thread'.eip = thread.eip) : Stopped code frame stack thread' m' c s d := by
  have room := stopped.fits.room
  have low := stopped.atHandler.registers.1
  obtain ⟨d', descended, -, -, deep, -⟩ := compiled.descends s (by omega)
  rw [stopped.descended] at descended
  obtain rfl := Option.some.inj descended
  refine ⟨stopped.fits, stopped.atHandler, stopped.descended, esp.trans stopped.esp,
    ebp.trans stopped.ebp, eip.trans stopped.eip, fun a above below => ?_, fun a inside above => ?_⟩
  · rw [same a (stopped.fits.inside a (by omega) below)]
    exact stopped.frames a above below
  · rw [same a inside]
    exact stopped.above a inside above

/-- The way down: the process is stopped in front of the switch, and nothing but its stack and the
globals of the kernel has changed. -/
theorem descend_stopped (compiled : code.Compiled frame globals) (apart : Apart stackOf globals)
    {p : Pid} (fits : Fits frame (stackOf p) (c.regs .esp)) :
    ∃ s d, Cpu.run (fun _ => some) (entry code.labels 32) (c.deliver 0x08 code.irq0 none) = some s ∧
      code.descend s = some d ∧ d.world = c.world ∧
      Stopped code frame (stackOf p) ⟨d.regs .esp, d.regs .ebp, code.afterReadEip, none⟩ d.memory
        c s d ∧
      ∀ a, ¬ globals a → ¬ stackOf p a → d.memory a = c.memory a := by
  have room := fits.room
  obtain ⟨s, atHandler, entered⟩ :=
    @entry_runs _ c 32 none code.labels rfl (by omega) 0x08 code.irq0
  have low := atHandler.registers.1
  have entering := atHandler.entering
  obtain ⟨d, descended, world, below, deep, memory⟩ := compiled.descends s (by omega)
  refine ⟨s, d, entered _, descended, world.trans entering.world, ?_, ?_⟩
  · refine ⟨fits, atHandler, descended, rfl, rfl, rfl, fun _ _ _ => rfl, fun a inside above => ?_⟩
    rw [memory a (apart.globals p a inside) (.inr (by omega))]
    exact entering.memory a (.inr above)
  · intro a notVariable notStack
    have outside : a + (64 + frame) < (c.regs .esp).toNat ∨ (c.regs .esp).toNat ≤ a := by
      by_contra within
      exact notStack (fits.inside a (by omega) (by omega))
    rw [memory a notVariable (by omega)]
    exact entering.memory a (by simp only [List.length_cons]; change a + 4 * 16 < _ ∨ _; omega)

/-- The way up: a stopped process goes on, and nothing but its stack and the variables of the kernel
has changed. -/
theorem ascend_goesOn (compiled : code.Compiled frame globals) (apart : Apart stackOf globals)
    {p : Pid} (stopped : Stopped code frame (stackOf p) thread u.memory c s d)
    (esp : u.regs .esp = thread.esp) (ebp : u.regs .ebp = thread.ebp)
    (eax : u.regs .eax = 0x10000) :
    ∃ c', (code.ascend u).bind (Cpu.run (fun _ => some) restoring) = some c' ∧
      c'.world = u.world ∧ GoesOn (stackOf p) c c' ∧
      ∀ a, ¬ globals a → ¬ stackOf p a → c'.memory a = u.memory a := by
  have fits := stopped.fits
  have room := fits.room
  have low := stopped.atHandler.registers.1
  obtain ⟨d', descended, -, below, deep, down⟩ := compiled.descends s (by omega)
  rw [stopped.descended] at descended
  obtain rfl := Option.some.inj descended
  obtain ⟨t, ascended, top, world, up⟩ := compiled.ascends s d u stopped.descended
    (esp.trans stopped.esp) (ebp.trans stopped.ebp) eax
    (fun a above behind => stopped.frames a above (by omega))
  have back : Back c s t := by
    refine ⟨top, fun a above behind => ?_⟩
    have notGlobal := apart.globals p a (fits.inside a (by omega) behind)
    rw [up a notGlobal (.inr above), stopped.frames a (by omega) behind,
      down a notGlobal (.inr above)]
  refine ⟨resumed c t, ?_, world, ⟨rfl, rfl, rfl, rfl, rfl, fun a inside above => ?_⟩,
    fun a notGlobal notStack => ?_⟩
  · rw [ascended, Option.bind_some]
    exact restoring_runs stopped.atHandler back _
  · exact (up a (apart.globals p a inside) (.inr (by omega))).trans (stopped.above a inside above)
  · have outside : a + (64 + frame) < (c.regs .esp).toNat ∨ (c.regs .esp).toNat ≤ a := by
      by_contra within
      exact notStack (fits.inside a (by omega) (by omega))
    exact up a notGlobal (by omega)

/-! ### Children of `fork` -/

/-- What `switch_task` reads of the `process_t` at `proc`. -/
def threadOf (h : Allocator.Heap) (proc : Pid) : Thread where
  esp := BitVec.ofNat 32 (Process.get h proc .esp)
  ebp := BitVec.ofNat 32 (Process.get h proc .ebp)
  eip := BitVec.ofNat 32 (Process.get h proc .eip)
  next := if Process.get h proc .next = 0 then none else some (Process.get h proc .next)

/-- The stack with the top `top`. -/
def stackBelow (top a : Nat) : Prop := top - Process.kernelStackSize ≤ a ∧ a < top

/-- `fork` moves the stack pointer of its parent to the stack of the child, so the child has the
room there that the parent has. -/
theorem newborn_finishFork {h : Allocator.Heap} {call : Process.ForkCall}
    {newProc parentTop newTop : Nat} (ready : Process.StacksReady h call newProc parentTop newTop)
    (room : parentTop - Process.kernelStackSize + (64 + frame) ≤ call.esp)
    (eip : BitVec.ofNat 32 call.eip ≠ code.afterReadEip) :
    Newborn code frame (stackBelow newTop)
      (threadOf (Process.finishFork h call newProc) newProc) := by
  obtain ⟨parentLow, parentLt⟩ := ready.parentRoom
  obtain ⟨newLow, newLt⟩ := ready.newRoom
  obtain ⟨espLow, espLt⟩ := ready.esp
  have esp : (threadOf (Process.finishFork h call newProc) newProc).esp.toNat =
      newTop - (parentTop - call.esp) := by
    rw [threadOf, Process.finishFork_esp ready, BitVec.toNat_ofNat]
    omega
  refine ⟨⟨by omega, fun a above below => ?_⟩, ?_⟩
  · rw [esp] at above below
    rw [stackBelow]
    omega
  · have wraps : BitVec.ofNat 32 (call.eip % 2 ^ 32) = BitVec.ofNat 32 call.eip := by
      simp only [← BitVec.toNat_inj, BitVec.toNat_ofNat, Nat.mod_mod]
    rw [threadOf, Process.finishFork_eip, wraps]
    exact eip

/-- A child that `fork` has made is as a process that has not run yet must be. -/
theorem newborn_of_fork {names : Process.Names} {system spawned : Process.System}
    {call : Process.ForkCall} {newProc parentTop newTop : Nat}
    (spawns : Process.spawnProcess names { system with heap := call.cloned } call.parent =
      some (newProc, spawned))
    (ready : Process.StacksReady (Process.setProcessEnvironment spawned.heap newProc call.dir) call
      newProc parentTop newTop)
    (room : parentTop - Process.kernelStackSize + (64 + frame) ≤ call.esp)
    (eip : BitVec.ofNat 32 call.eip ≠ code.afterReadEip) :
    ∃ forked, Process.fork names system call = some forked ∧ forked.newProc = newProc ∧
      Newborn code frame (stackBelow newTop) (threadOf forked.system.heap newProc) := by
  have newborn := newborn_finishFork ready room eip
  have forks := Process.fork_eq_finishFork names system call
  rw [spawns, Option.map_some] at forks
  dsimp only at forks
  generalize Process.finishFork (Process.setProcessEnvironment spawned.heap newProc call.dir) call
    newProc = h at forks newborn
  exact ⟨_, forks, rfl, newborn⟩

/-! ### Runs -/

/-- The processor, and for each process that the timer has stopped the state it was stopped in. -/
structure System where
  cpu : Cpu Tasks
  stopped : Pid → Option (Cpu Tasks)

namespace System

def running (s : System) : Pid := s.cpu.world.current

/-- The state a process was stopped in, if the timer interrupt stops the running one now. -/
def stoppedNow (s : System) (p : Pid) : Option (Cpu Tasks) :=
  if p = s.running then some s.cpu else s.stopped p

inductive Event where
  | program (run : Cpu Tasks → Cpu Tasks)
  | timer

/-- The running process goes on, to any state; or the timer interrupts it. -/
def step (code : TimerCode) (s : System) : Event → Option System
  | .program run => some { s with cpu := run s.cpu }
  | .timer =>
      if s.cpu.eflags &&& 0x200 ≠ 0 then
        (tick code s.cpu).map fun c =>
          { cpu := c, stopped := fun p => if p = c.world.current then none else s.stoppedNow p }
      else none

/-- A process that waits: it is as the timer or `fork` has left it. -/
def Waits (code : TimerCode) (frame : Nat) (stack : Nat → Prop) (thread : Thread) (m : Memory) :
    Option (Cpu Tasks) → Prop
  | some c => ∃ s d, Stopped code frame stack thread m c s d
  | none => Newborn code frame stack thread

/-- The invariant. -/
structure Sound (code : TimerCode) (frame : Nat) (stackOf : Pid → Nat → Prop) (s : System) :
    Prop where
  fits : Fits frame (stackOf s.running) (s.cpu.regs .esp)
  alive : s.cpu.world.made s.running
  root : s.cpu.world.made s.cpu.world.rootProc
  next : ∀ p q, s.cpu.world.made p → (s.cpu.world.threads p).next = some q → s.cpu.world.made q
  waits : ∀ p, s.cpu.world.made p → p ≠ s.running →
    Waits code frame (stackOf p) (s.cpu.world.threads p) s.cpu.memory (s.stopped p)
  unmade : ∀ p, ¬ s.cpu.world.made p → s.stopped p = none

/-- What the running process may do: it keeps to its own stack, it leaves the contexts and the
stacks of the other processes alone, and it makes processes that are as `fork` leaves them. -/
structure Fair (code : TimerCode) (frame : Nat) (stackOf : Pid → Nat → Prop)
    (c c' : Cpu Tasks) : Prop where
  current : c'.world.current = c.world.current
  fits : Fits frame (stackOf c.world.current) (c'.regs .esp)
  made : ∀ p, c.world.made p → c'.world.made p
  root : c'.world.made c'.world.rootProc
  next : ∀ p q, c'.world.made p → (c'.world.threads p).next = some q → c'.world.made q
  others : ∀ p, c.world.made p → p ≠ c.world.current →
    (c'.world.threads p).esp = (c.world.threads p).esp ∧
      (c'.world.threads p).ebp = (c.world.threads p).ebp ∧
      (c'.world.threads p).eip = (c.world.threads p).eip ∧
      ∀ a, stackOf p a → c'.memory a = c.memory a
  newborn : ∀ p, ¬ c.world.made p → c'.world.made p →
    Newborn code frame (stackOf p) (c'.world.threads p)

/-- The running code is fair. -/
def Allowed (code : TimerCode) (frame : Nat) (stackOf : Pid → Nat → Prop) (s : System) :
    Event → Prop
  | .program run => Fair code frame stackOf s.cpu (run s.cpu)
  | .timer => True

variable {s s' : System}

theorem Waits.keep {state : Option (Cpu Tasks)} (waits : Waits code frame stack thread m state)
    (compiled : code.Compiled frame globals) (same : ∀ a, stack a → m' a = m a)
    {thread' : Thread} (esp : thread'.esp = thread.esp) (ebp : thread'.ebp = thread.ebp)
    (eip : thread'.eip = thread.eip) : Waits code frame stack thread' m' state := by
  cases state with
  | some c =>
      obtain ⟨s, d, stopped⟩ := waits
      exact ⟨s, d, stopped.keep compiled same esp ebp eip⟩
  | none =>
      have newborn : Newborn code frame stack thread := waits
      exact (⟨esp ▸ newborn.fits, eip ▸ newborn.eip⟩ : Newborn code frame stack thread')

theorem Sound.program (sound : Sound code frame stackOf s) (compiled : code.Compiled frame globals)
    {run : Cpu Tasks → Cpu Tasks} (fair : Fair code frame stackOf s.cpu (run s.cpu)) :
    Sound code frame stackOf { s with cpu := run s.cpu } where
  fits := by
    rw [running, fair.current]
    exact fair.fits
  alive := by
    rw [running, fair.current]
    exact fair.made _ sound.alive
  root := fair.root
  next := fair.next
  waits := by
    intro p made other
    rw [running, fair.current] at other
    by_cases before : s.cpu.world.made p
    · obtain ⟨esp, ebp, eip, same⟩ := fair.others p before other
      exact (sound.waits p before other).keep compiled same esp ebp eip
    · rw [sound.unmade p before]
      exact fair.newborn p before made
  unmade := fun p unmade => sound.unmade p fun before => unmade (fair.made p before)

/-! ### A switch -/

theorem schedule_saveContext (eip : BitVec 32) (d : Cpu Tasks) :
    (saveContext eip d).schedule = d.world.schedule := by
  simp [Tasks.schedule, saveContext, Tasks.setThread]

theorem next_saveContext (eip : BitVec 32) (d : Cpu Tasks) (p : Pid) :
    ((saveContext eip d).threads p).next = (d.world.threads p).next := by
  simp only [saveContext, Tasks.setThread]
  split <;> rename_i same
  · rw [same]
  · rfl

theorem Sound.scheduled (sound : Sound code frame stackOf s) :
    s.cpu.world.made s.cpu.world.schedule := by
  unfold Tasks.schedule
  cases follows : (s.cpu.world.threads s.cpu.world.current).next with
  | none => exact sound.root
  | some q => exact sound.next _ q sound.alive follows

/-- With the context of the running process saved, all processes wait. -/
theorem Sound.saved (sound : Sound code frame stackOf s) (compiled : code.Compiled frame globals)
    (apart : Apart stackOf globals) {st d : Cpu Tasks} (world : d.world = s.cpu.world)
    (stopped : Stopped code frame (stackOf s.running)
      ⟨d.regs .esp, d.regs .ebp, code.afterReadEip, none⟩ d.memory s.cpu st d)
    (same : ∀ a, ¬ globals a → ¬ stackOf s.running a → d.memory a = s.cpu.memory a) {p : Pid}
    (made : s.cpu.world.made p) :
    Waits code frame (stackOf p) ((saveContext code.afterReadEip d).threads p) d.memory
      (s.stoppedNow p) := by
  unfold stoppedNow
  by_cases isRunning : p = s.running
  · subst isRunning
    have thread : (saveContext code.afterReadEip d).threads s.running =
        { d.world.threads d.world.current with
          esp := d.regs .esp, ebp := d.regs .ebp, eip := code.afterReadEip } := by
      rw [running, ← world]
      exact if_pos rfl
    rw [if_pos rfl, thread]
    exact ⟨st, d, stopped.keep compiled (fun _ _ => rfl) rfl rfl rfl⟩
  · have thread : (saveContext code.afterReadEip d).threads p = s.cpu.world.threads p := by
      rw [running, ← world] at isRunning
      rw [← world]
      exact if_neg isRunning
    rw [if_neg isRunning, thread]
    refine (sound.waits p made isRunning).keep compiled (fun a inside => ?_) rfl rfl rfl
    exact same a (apart.globals p a inside) fun other => isRunning (apart.single p _ a inside other)

/-- A switch keeps the invariant, whichever way the next process starts. -/
theorem Sound.switched (sound : Sound code frame stackOf s) (compiled : code.Compiled frame globals)
    {d c' : Cpu Tasks} (world : d.world = s.cpu.world)
    (waits : ∀ p, s.cpu.world.made p → Waits code frame (stackOf p)
      ((saveContext code.afterReadEip d).threads p) d.memory (s.stoppedNow p))
    (after : c'.world = { saveContext code.afterReadEip d with current := s.cpu.world.schedule })
    (fits : Fits frame (stackOf s.cpu.world.schedule) (c'.regs .esp))
    (same : ∀ p a, p ≠ s.cpu.world.schedule → stackOf p a → c'.memory a = d.memory a) :
    Sound code frame stackOf
      { cpu := c', stopped := fun p => if p = c'.world.current then none else s.stoppedNow p } := by
  have made : c'.world.made = s.cpu.world.made := by
    rw [after, ← world]
    rfl
  have current : c'.world.current = s.cpu.world.schedule := by rw [after]
  constructor
  · rw [running, current]
    exact fits
  · rw [running, current, made]
    exact sound.scheduled
  · rw [made, after]
    exact (congrArg s.cpu.world.made (congrArg Tasks.rootProc world)).mpr sound.root
  · intro p q madeP follows
    rw [made] at madeP ⊢
    rw [after] at follows
    have before := (next_saveContext code.afterReadEip d p).symm.trans follows
    rw [world] at before
    exact sound.next p q madeP before
  · intro p madeP other
    rw [running, current] at other
    rw [made] at madeP
    dsimp only
    rw [current, if_neg other, after]
    exact (waits p madeP).keep compiled (fun a inside => same p a other inside) rfl rfl rfl
  · intro p unmade
    rw [made] at unmade
    have notRunning : p ≠ s.running := fun isRunning => unmade (isRunning ▸ sound.alive)
    have none : s.stoppedNow p = none := by
      rw [stoppedNow, if_neg notRunning]
      exact sound.unmade p unmade
    dsimp only
    rw [none, ite_self]

/-- The timer interrupt: the scheduled process goes on as it was stopped, or starts as `fork` has
left it, and the invariant is kept. -/
theorem Sound.tick (sound : Sound code frame stackOf s) (compiled : code.Compiled frame globals)
    (apart : Apart stackOf globals) :
    ∃ c', tick code s.cpu = some c' ∧ c'.world.current = s.cpu.world.schedule ∧
      (∀ c, s.stoppedNow s.cpu.world.schedule = some c →
        GoesOn (stackOf s.cpu.world.schedule) c c') ∧
      (s.stoppedNow s.cpu.world.schedule = none →
        c'.eip = (s.cpu.world.threads s.cpu.world.schedule).eip ∧
          c'.regs .esp = (s.cpu.world.threads s.cpu.world.schedule).esp ∧
          c'.regs .ebp = (s.cpu.world.threads s.cpu.world.schedule).ebp) ∧
      Sound code frame stackOf
        { cpu := c', stopped := fun p => if p = c'.world.current then none else s.stoppedNow p } := by
  obtain ⟨st, d, entered, descended, world, stopped, same⟩ :=
    descend_stopped compiled apart sound.fits
  have waits : ∀ p, s.cpu.world.made p → Waits code frame (stackOf p)
      ((saveContext code.afterReadEip d).threads p) d.memory (s.stoppedNow p) :=
    fun p made => sound.saved compiled apart world stopped same made
  have schedule : (saveContext code.afterReadEip d).schedule = s.cpu.world.schedule := by
    rw [schedule_saveContext, world]
  obtain ⟨thread, isThread⟩ :
      ∃ thread, (saveContext code.afterReadEip d).threads s.cpu.world.schedule = thread := ⟨_, rfl⟩
  -- The state behind the jump has the context of the scheduled process.
  have jumped : ∃ u, switchTask code.afterReadEip d = u ∧ u.regs .esp = thread.esp ∧
      u.regs .ebp = thread.ebp ∧ u.regs .eax = 0x10000 ∧ u.eip = thread.eip ∧
      u.memory = d.memory ∧
      u.world = { saveContext code.afterReadEip d with current := s.cpu.world.schedule } := by
    refine ⟨_, rfl, ?_⟩
    unfold switchTask
    dsimp only
    rw [schedule, isThread]
    refine ⟨?_, ?_, Cpu.regs_set_same _ _ _, rfl, rfl, rfl⟩
    · rw [Cpu.regs_set_of_ne _ _ (by decide), Cpu.regs_set_of_ne _ _ (by decide), Cpu.regs_set_same]
    · rw [Cpu.regs_set_of_ne _ _ (by decide), Cpu.regs_set_same]
  obtain ⟨u, isU, esp, ebp, eax, eip, memory, after⟩ := jumped
  have reaches : Preemption.tick code s.cpu =
      if u.eip = code.afterReadEip then
        (code.ascend u).bind (Cpu.run (fun _ => some) restoring)
      else some u := by
    rw [Preemption.tick, entered, Option.bind_some, descended, Option.bind_some, isU]
  have scheduled := waits _ sound.scheduled
  rw [isThread] at scheduled
  cases state : s.stoppedNow s.cpu.world.schedule with
  | some c =>
      rw [state] at scheduled
      obtain ⟨st', d', waiting⟩ := scheduled
      rw [← memory] at waiting
      obtain ⟨c', ascended, worldAfter, goesOn, kept⟩ :=
        ascend_goesOn compiled apart waiting esp ebp eax
      have world' := worldAfter.trans after
      refine ⟨c', ?_, ?_, ?_, fun none => (by cases none), ?_⟩
      · rw [reaches, if_pos (eip.trans waiting.eip), ascended]
      · rw [world']
      · intro other isC
        rw [← Option.some.inj isC]
        exact goesOn
      · refine sound.switched compiled world waits world' ?_ fun p a other inside => ?_
        · rw [goesOn.regs]
          exact waiting.fits
        · rw [kept a (apart.globals p a inside) fun both => other (apart.single p _ a inside both),
            memory]
  | none =>
      rw [state] at scheduled
      have newborn : Newborn code frame (stackOf s.cpu.world.schedule) thread := scheduled
      have other : s.cpu.world.schedule ≠ s.running := by
        intro same
        rw [stoppedNow, if_pos same] at state
        cases state
      have before : thread = s.cpu.world.threads s.cpu.world.schedule := by
        rw [running, ← world] at other
        rw [← isThread, ← world]
        exact if_neg other
      refine ⟨u, ?_, ?_, fun c isC => (by cases isC), fun _ => ?_, ?_⟩
      · rw [reaches, if_neg (eip ▸ newborn.eip)]
      · rw [after]
      · rw [← before]
        exact ⟨eip, esp, ebp⟩
      · refine sound.switched compiled world waits after ?_ fun p a _ _ => ?_
        · rw [esp]
          exact newborn.fits
        · rw [memory]

theorem Sound.step (sound : Sound code frame stackOf s) (compiled : code.Compiled frame globals)
    (apart : Apart stackOf globals) {event : Event} (allowed : Allowed code frame stackOf s event)
    (returns : System.step code s event = some s') : Sound code frame stackOf s' := by
  cases event with
  | program run =>
      obtain rfl := Option.some.inj returns
      exact sound.program compiled allowed
  | timer =>
      rw [System.step] at returns
      by_cases enabled : s.cpu.eflags &&& 0x200 ≠ 0
      · obtain ⟨c', ticked, -, -, -, after⟩ := sound.tick compiled apart
        rw [if_pos enabled, ticked] at returns
        exact Option.some.inj returns ▸ after
      · rw [if_neg enabled] at returns
        cases returns

/-- Behind `init_tasking`: one process, which no process follows. -/
structure Alone (frame : Nat) (stackOf : Pid → Nat → Prop) (s : System) : Prop where
  fits : Fits frame (stackOf s.running) (s.cpu.regs .esp)
  root : s.cpu.world.rootProc = s.running
  made : ∀ p, s.cpu.world.made p ↔ p = s.running
  next : (s.cpu.world.threads s.running).next = none
  stopped : ∀ p, s.stopped p = none

theorem Alone.sound (alone : Alone frame stackOf s) : Sound code frame stackOf s where
  fits := alone.fits
  alive := (alone.made _).mpr rfl
  root := (alone.made _).mpr alone.root
  next := by
    intro p q made follows
    rw [(alone.made p).mp made, alone.next] at follows
    cases follows
  waits := fun p made other => absurd ((alone.made p).mp made) other
  unmade := fun p _ => alone.stopped p

/-- In every state of every run from one process on, in which no process writes to the stack or the
context of another, a timer interrupt gives the processor to the scheduled process. If the timer
has stopped that one before, or stops it now, it goes on with the registers, the flags and the stack
that it was stopped with; else it starts where `fork` wants it to. A child that follows the copied
frame pointers to its parent's stack (`Process.not_sameFrames`) is no such process. -/
theorem goes_on_along_run (compiled : code.Compiled frame globals) (apart : Apart stackOf globals)
    {start : System} (alone : Alone frame stackOf start) {events : List Event}
    (allowed : EveryStep (System.step code) (Allowed code frame stackOf) start events) :
    ∀ s ∈ visited (System.step code) start events, s.cpu.eflags &&& 0x200 ≠ 0 →
      ∃ s', System.step code s .timer = some s' ∧ s'.running = s.cpu.world.schedule ∧
        (∀ c, s.stoppedNow s'.running = some c → GoesOn (stackOf s'.running) c s'.cpu) ∧
        (s.stoppedNow s'.running = none →
          s'.cpu.eip = (s.cpu.world.threads s'.running).eip ∧
            s'.cpu.regs .esp = (s.cpu.world.threads s'.running).esp ∧
            s'.cpu.regs .ebp = (s.cpu.world.threads s'.running).ebp) := by
  intro s member enabled
  have sound : Sound code frame stackOf s :=
    @visited_invariant _ _ (System.step code) (Allowed code frame stackOf)
      (Sound code frame stackOf) _ _
      (fun _ _ _ before ok returns => before.step compiled apart ok returns) alone.sound allowed s
      member
  obtain ⟨c', ticked, current, goesOn, starts, -⟩ := sound.tick compiled apart
  refine ⟨{ cpu := c', stopped := fun p => if p = c'.world.current then none else s.stoppedNow p },
    ?_, current, ?_, ?_⟩
  · rw [System.step, if_pos enabled, ticked]
    rfl
  · rw [running, current]
    exact goesOn
  · rw [running, current]
    exact starts

/-- What `sti` and `popf` do is fair. -/
theorem Sound.fair_eflags (sound : Sound code frame stackOf s) (eflags : BitVec 32) :
    Fair code frame stackOf s.cpu { s.cpu with eflags := eflags } where
  current := rfl
  fits := sound.fits
  made _ made := made
  root := sound.root
  next := sound.next
  others _ _ _ := ⟨rfl, rfl, rfl, fun _ _ => rfl⟩
  newborn _ unmade made := absurd made unmade

/-- Compiled code without frames. -/
def frameless : TimerCode where
  labels := ⟨0, 0, 0, 0⟩
  irq0 := 0
  afterReadEip := 4
  descend := some
  ascend u := some (u.set .esp (u.regs .esp + 4))

theorem frameless_compiled : frameless.Compiled 0 fun _ => False := by
  refine ⟨fun s _ => ⟨s, rfl, rfl, Nat.le_refl _, Nat.le_refl _, fun _ _ _ => rfl⟩, ?_⟩
  intro s d u descended esp _ _ _
  obtain rfl := Option.some.inj descended
  refine ⟨_, rfl, ?_, rfl, fun _ _ _ => rfl⟩
  rw [Cpu.regs_set_same, esp]

/-- The stacks of the parent and of the child of `twoFrames`. -/
def twoStacks (p : Pid) (a : Nat) : Prop :=
  (p = 0x1000 ∧ stackBelow 0x20000 a) ∨ (p = 0x2000 ∧ stackBelow 0x30000 a)

theorem twoStacks_apart : Apart twoStacks fun _ => False := by
  refine ⟨fun p q a inP inQ => ?_, fun _ _ _ => id⟩
  simp only [twoStacks, stackBelow, Process.kernelStackSize] at inP inQ
  rcases inP with ⟨isP, inP⟩ | ⟨isP, inP⟩ <;> rcases inQ with ⟨isQ, inQ⟩ | ⟨isQ, inQ⟩
  · exact isP.trans isQ.symm
  · omega
  · omega
  · exact isP.trans isQ.symm

/-- The parent behind `init_tasking`. -/
def parentAlone : System where
  cpu :=
    { regs := fun _ => 0x1FFE0
      segs := fun _ => 0x10
      cs := 0x08
      eip := 0x100000
      eflags := 0x202
      memory := Process.twoFrames.mem
      world := ⟨fun _ => ⟨0, 0, 0, none⟩, fun p => p = 0x1000, 0x1000, 0x1000⟩ }
  stopped _ := none

theorem parentAlone_alone : Alone 0 twoStacks parentAlone := by
  have top : (parentAlone.cpu.regs .esp).toNat = 0x1FFE0 := rfl
  refine ⟨⟨by rw [top]; decide, fun a above below => .inl ⟨rfl, ?_⟩⟩, rfl, fun _ => Iff.rfl, rfl,
    fun _ => rfl⟩
  rw [top] at above below
  simp only [stackBelow, Process.kernelStackSize]
  omega

/-- The child of the `fork` of `twoFramesCall`. -/
def child : Thread := ⟨0x2FFE0, 0x2FFF0, 0, none⟩

theorem threadOf_child :
    threadOf (Process.finishFork Process.twoFrames Process.twoFramesCall 0x2000) 0x2000 =
      child := by
  have ready := Process.twoFrames_ready
  have next : Process.get (Process.finishFork Process.twoFrames Process.twoFramesCall 0x2000)
      0x2000 .next = 0 := by
    rw [Process.get_finishFork ready (by decide), Process.relocate_eq ready]
    decide
  rw [threadOf, next, Process.finishFork_esp ready, Process.finishFork_ebp ready,
    Process.finishFork_eip]
  rfl

/-- The parent makes the child. -/
def makeChild (c : Cpu Tasks) : Cpu Tasks :=
  { c with
    memory := (Process.finishFork Process.twoFrames Process.twoFramesCall 0x2000).mem
    world :=
      { c.world with
        threads := fun p =>
          if p = 0x2000 then child
          else { c.world.threads p with next := if p = 0x1000 then some 0x2000 else none }
        made := fun p => p = 0x1000 ∨ p = 0x2000 } }

theorem makeChild_fair :
    Fair frameless 0 twoStacks parentAlone.cpu (makeChild parentAlone.cpu) where
  current := rfl
  fits := parentAlone_alone.fits
  made p made := .inl made
  root := .inl rfl
  next := by
    intro p q _ follows
    simp only [makeChild] at follows
    split_ifs at follows with isChild isParent
    · cases follows
    · exact .inr (Option.some.inj follows).symm
  others := fun p made other => absurd made other
  newborn := by
    intro p unmade made
    obtain rfl := made.resolve_left unmade
    have newborn := @newborn_finishFork frameless 0 _ _ _ _ _ Process.twoFrames_ready (by decide)
      (by decide)
    rw [threadOf_child] at newborn
    exact ⟨⟨newborn.fits.room, fun a above below => .inr ⟨rfl, newborn.fits.inside a above below⟩⟩,
      newborn.eip⟩

/-- Once it runs, the child sets the interrupt flag. -/
def pairEvents : List Event :=
  [.program makeChild, .timer, .program fun c => { c with eflags := 0x202 }]

theorem pairEvents_allowed :
    EveryStep (System.step frameless) (Allowed frameless 0 twoStacks) parentAlone pairEvents := by
  refine everyStep_cons_some rfl makeChild_fair ⟨trivial, fun s ticked => ⟨?_, fun _ _ => trivial⟩⟩
  have forked := parentAlone_alone.sound.program frameless_compiled makeChild_fair
  have timer : Allowed frameless 0 twoStacks
      { parentAlone with cpu := makeChild parentAlone.cpu } .timer := trivial
  have sound := forked.step frameless_compiled twoStacks_apart timer ticked
  exact sound.fair_eflags 0x202

/-- A parent makes a child, loses the processor to it, and goes on when it gets it back. -/
theorem goes_on_along_run_pair :
    ∃ s s' parent, s.running = 0x2000 ∧ s.stopped 0x1000 = some parent ∧
      System.step frameless s .timer = some s' ∧ s'.running = 0x1000 ∧
      GoesOn (stackBelow 0x20000) parent s'.cpu := by
  have forked : System.step frameless parentAlone (.program makeChild) =
      some { parentAlone with cpu := makeChild parentAlone.cpu } := rfl
  have switched : (System.step frameless { parentAlone with cpu := makeChild parentAlone.cpu }
      .timer).map (fun s => (s.running, s.cpu.world.schedule, s.stopped 0x1000)) =
        some (0x2000, 0x1000, some (makeChild parentAlone.cpu)) := rfl
  obtain ⟨s, ticked, isEnd⟩ := Option.map_eq_some_iff.mp switched
  obtain ⟨isRunning, rest⟩ := Prod.ext_iff.mp isEnd
  obtain ⟨isNext, isStopped⟩ := Prod.ext_iff.mp rest
  dsimp only at isRunning isNext isStopped
  let last : System := { s with cpu := { s.cpu with eflags := 0x202 } }
  have member : last ∈ visited (System.step frameless) parentAlone pairEvents := by
    rw [pairEvents, visited_cons_some forked, visited_cons_some ticked]
    apply List.mem_cons_of_mem
    apply List.mem_cons_of_mem
    exact List.mem_cons_of_mem _ List.mem_cons_self
  obtain ⟨s', switched, running, goesOn, -⟩ := goes_on_along_run frameless_compiled twoStacks_apart
    parentAlone_alone pairEvents_allowed last member (show (0x202#32 &&& 0x200) ≠ 0 by decide)
  have isParent : s'.running = 0x1000 := running.trans isNext
  have same : last.stoppedNow s'.running = some (makeChild parentAlone.cpu) := by
    rw [isParent, stoppedNow, if_neg (by rw [show last.running = 0x2000 from isRunning]; decide)]
    exact isStopped
  have back := goesOn _ same
  refine ⟨last, s', _, isRunning, isStopped, switched, isParent, back.regs, back.eip, back.cs,
    back.eflags, back.segs, fun a inside above => back.stack a (.inl ⟨isParent, inside⟩) above⟩

end System

end Balloon.Tasking.Preemption
