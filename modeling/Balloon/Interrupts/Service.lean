import Balloon.Interrupts.Dispatch
import Balloon.Interrupts.Stubs
import Balloon.Interrupts.Tables

/-!
Owns the whole way of an interrupt: from the controllers through the tables of `init_gdt` and
`init_idt` into a stub, through `irq_handler` or `idt_handler` into the registered handler, and back
into the interrupted code. In every run behind the initialisation an interrupt comes back if its
handler comes back from the call; one that switches tasks does not.
-/

namespace Balloon.Interrupts

open Balloon.Foundation

/-! ### The kernel in memory -/

/-- Where the linker puts the tables and the code. -/
structure Places where
  gdtEntries : Nat
  idtEntries : Nat
  interruptHandlers : Nat
  stubs : Nat → Nat
  labels : Labels

namespace Places

/-- The bytes that the processor reads by itself. -/
def tables (places : Places) (a : Nat) : Prop :=
  (places.gdtEntries ≤ a ∧ a < places.gdtEntries + 8 * 5) ∨
    (places.idtEntries ≤ a ∧ a < places.idtEntries + 8 * 256)

/-- Nothing overlaps or ends behind the last address. -/
structure Fit (places : Places) : Prop where
  handlers : places.interruptHandlers + 4 * 256 ≤ 2 ^ 32
  idt : places.idtEntries + 8 * 256 ≤ 2 ^ 32
  stubs : ∀ vector, places.stubs vector < 2 ^ 32
  gdtHandlers : places.gdtEntries + 8 * 5 ≤ places.interruptHandlers ∨
    places.interruptHandlers + 4 * 256 ≤ places.gdtEntries
  gdtIdt : places.gdtEntries + 8 * 5 ≤ places.idtEntries ∨
    places.idtEntries + 8 * 256 ≤ places.gdtEntries

/-- Memory behind `init_gdt` and `init_idt`. -/
def init (places : Places) (m : Memory) : Memory :=
  (initIdt (initGdt m places.gdtEntries).1 places.interruptHandlers places.idtEntries
    places.stubs).1

/-- The processor uses the tables of the kernel, the stubs are where their gates lead to, and the
calls of the stubs lead to the compiled functions. -/
structure Runs (places : Places) (functions : Functions) (frame : Nat) (p : Platform Kernel) :
    Prop where
  gdt : p.gdt = ⟨places.gdtEntries, 8 * 5 - 1⟩
  idt : p.idt = ⟨places.idtEntries, 8 * 256 - 1⟩
  code : ∀ vector ∈ vectors,
    p.codeAt (BitVec.ofNat 32 (places.stubs vector)) = stub places.labels vector
  idtHandler : Cpu.Compiled p.calls places.labels.idtHandler frame (idtHandler functions)
  irqHandler : Cpu.Compiled p.calls places.labels.irqHandler frame (irqHandler functions)

end Places

variable {places : Places} {functions : Functions} {frame : Nat} {p : Platform Kernel}
  {m : Memory} {c s t : Cpu Kernel} {vector : Nat} {errorCode : Option (BitVec 32)}

/-! ### Gates -/

theorem gate_found (fit : places.Fit) (runs : places.Runs functions frame p)
    (agree : Memory.AgreeOn places.tables (places.init m) c.memory) (member : vector ∈ vectors) :
    gateOf c.memory p.idt vector = some ⟨places.stubs vector, 0x08, 0⟩ := by
  have same := @gateOf_congr (places.init m) c.memory ⟨places.idtEntries, 8 * 256 - 1⟩
    (agree.mono fun a inside => .inr (by dsimp only at inside; omega)) vector
  have set := gateOf_initIdt (initGdt m places.gdtEntries).1 places.interruptHandlers fit.stubs
    fit.idt vector
  rw [if_pos member] at set
  rw [runs.idt, same]
  exact set

theorem segment_found (fit : places.Fit) (runs : places.Runs functions frame p)
    (agree : Memory.AgreeOn places.tables (places.init m) c.memory) (selector : Nat) :
    segmentOf c.memory p.gdt selector =
      segmentOf (initGdt m places.gdtEntries).1 (initGdt m places.gdtEntries).2 selector := by
  rw [runs.gdt]
  apply @segmentOf_congr (initGdt m places.gdtEntries).1 c.memory ⟨places.gdtEntries, 8 * 5 - 1⟩
  intro a inside
  dsimp only at inside
  have gdtHandlers := fit.gdtHandlers
  have gdtIdt := fit.gdtIdt
  rw [agree a (.inl (by omega))]
  exact initIdt_outside _ _ fit.handlers fit.idt (by omega) (by omega)

/-! ### Handlers -/

/-- The function that the stub calls starts with a pointer to the registers of `c`, on the stack of
`c`, and nothing else has changed. -/
structure Interrupting (c : Cpu Kernel) (vector : Nat) (errorCode : Option (BitVec 32))
    (regs : BitVec 32) (m : Memory) : Prop where
  place : regs.toNat + 56 = (c.regs .esp).toNat
  registers : m.WordsAt regs.toNat (interrupted c vector errorCode).words
  before : ∀ a, a + 64 < (c.regs .esp).toNat ∨ (c.regs .esp).toNat ≤ a → m a = c.memory a

/-- What a handler leaves alone. -/
structure CameBack (places : Places) (regs : BitVec 32) (m : Memory) (k : Kernel) (m' : Memory)
    (k' : Kernel) : Prop where
  tables : Memory.AgreeOn places.tables m m'
  registers : ∀ a, regs.toNat ≤ a → a < regs.toNat + 56 → m' a = m a
  pics : k'.pics = k.pics

/-- Called for this interrupt of `c`, the function comes back. -/
def ComesBack (places : Places) (c : Cpu Kernel) (vector : Nat) (errorCode : Option (BitVec 32))
    (k : Kernel) (f : BitVec 32 → Memory → Option (Memory × Kernel)) : Prop :=
  ∀ regs m, Interrupting c vector errorCode regs m →
    ∃ m' k', f regs m = some (m', k') ∧ CameBack places regs m k m' k'

/-- Nothing is registered for the vector, or a function that comes back from this call. -/
def Answered (places : Places) (functions : Functions) (c : Cpu Kernel) (vector : Nat)
    (errorCode : Option (BitVec 32)) (k : Kernel) : Prop :=
  k.interruptHandlers vector = 0 ∨ ComesBack places c vector errorCode k fun regs m =>
    functions (k.interruptHandlers vector) regs m k

/-- The stub's number is in the `registers_t`. -/
theorem Interrupting.intNoOf {regs : BitVec 32} {m : Memory} (small : vector < 2 ^ 32)
    (interrupting : Interrupting c vector errorCode regs m) : intNoOf m regs = vector := by
  have number := @Memory.WordsAt.get m _ _ _ interrupting.registers 9 rfl
  rw [Interrupts.intNoOf, number]
  exact Nat.mod_eq_of_lt small

theorem idtHandler_comesBack (small : vector < 2 ^ 32)
    (answered : Answered places functions c vector errorCode c.world) :
    ComesBack places c vector errorCode c.world fun regs m =>
      idtHandler functions regs m c.world := by
  intro regs m interrupting
  dsimp only
  unfold idtHandler
  rw [interrupting.intNoOf small]
  dsimp only
  split_ifs with registered
  · have comesBack := answered.resolve_left registered
    exact comesBack regs m interrupting
  · exact ⟨_, _, rfl, Memory.AgreeOn.refl _ m, fun _ _ _ => rfl, rfl⟩

/-- `irq_handler` ends the interrupt before it calls anything. -/
theorem irqHandler_comesBack {k : Kernel} (small : vector < 2 ^ 32)
    (answered : Answered places functions c vector errorCode
      { k with pics := endInterrupt k.pics vector }) :
    ComesBack places c vector errorCode { k with pics := endInterrupt k.pics vector } fun regs m =>
      irqHandler functions regs m k := by
  intro regs m interrupting
  dsimp only
  unfold irqHandler
  rw [interrupting.intNoOf small]
  dsimp only
  split_ifs with registered
  · have comesBack := answered.resolve_left registered
    exact comesBack regs m interrupting
  · exact ⟨_, _, rfl, Memory.AgreeOn.refl _ m, fun _ _ _ => rfl, rfl⟩

/-! ### One interrupt -/

/-- The interrupted code runs in the kernel on a stack with room for an interrupt, away from the
tables. -/
structure Interruptible (places : Places) (m : Memory) (frame : Nat) (c : Cpu Kernel) : Prop where
  tables : Memory.AgreeOn places.tables (places.init m) c.memory
  room : 64 + frame ≤ (c.regs .esp).toNat
  apart : ∀ a, places.tables a → a + (64 + frame) < (c.regs .esp).toNat ∨ (c.regs .esp).toNat ≤ a
  privilege : c.cs.toNat % 4 = 0

/-- How an interrupt of `c` went: the function was called with the registers of `c` in memory `m₁`
and left `m₂`, and the interrupted code goes on in `c'` with its registers, its next instruction,
its flags and its stack. -/
structure Served (f : BitVec 32 → Memory → Kernel → Option (Memory × Kernel)) (frame : Nat)
    (c : Cpu Kernel) (vector : Nat) (errorCode : Option (BitVec 32)) (c' : Cpu Kernel)
    (regs : BitVec 32) (m₁ m₂ : Memory) : Prop where
  interrupting : Interrupting c vector errorCode regs m₁
  called : f regs m₁ c.world = some (m₂, c'.world)
  after : ∀ a, a + (64 + frame) < (c.regs .esp).toNat ∨ (c.regs .esp).toNat ≤ a →
    c'.memory a = m₂ a
  resumed : c' = resumed c c'

theorem flatCode_found (fit : places.Fit) (runs : places.Runs functions frame p)
    (agree : Memory.AgreeOn places.tables (places.init m) c.memory) :
    segmentOf c.memory p.gdt 0x08 = some (flat true 0) := by
  rw [segment_found fit runs agree, segmentOf_initGdt]
  rfl

theorem stub_of_vector (member : vector ∈ vectors) (labels : Labels) :
    ∃ code, stub labels vector = some code := by
  simp only [vectors, List.mem_append, List.mem_range, List.mem_singleton] at member
  unfold stub
  by_cases isIsr : vector < 32 ∨ vector = 255
  · exact ⟨_, if_pos isIsr⟩
  · exact ⟨_, (if_neg isIsr).trans (if_pos (by omega))⟩

theorem Interruptible.after {f : BitVec 32 → Memory → Kernel → Option (Memory × Kernel)}
    {c' : Cpu Kernel} {regs : BitVec 32} {m₁ m₂ : Memory} (ready : Interruptible places m frame c)
    (served : Served f frame c vector errorCode c' regs m₁ m₂)
    (agree : Memory.AgreeOn places.tables m₁ m₂) : Interruptible places m frame c' := by
  have general : c'.regs = c.regs := by rw [served.resumed, resumed]
  have cs : c'.cs = c.cs := by rw [served.resumed, resumed]
  refine ⟨fun a inside => ?_, ?_, ?_, ?_⟩
  · have apart := ready.apart a inside
    rw [served.after a apart, agree a inside, served.interrupting.before a (by omega),
      ready.tables a inside]
  · rw [general]
    exact ready.room
  · rw [general]
    exact ready.apart
  · rw [cs]
    exact ready.privilege

theorem Interruptible.withWorld (ready : Interruptible places m frame c) (world : Kernel) :
    Interruptible places m frame { c with world := world } :=
  ⟨ready.tables, ready.room, ready.apart, ready.privilege⟩

/-- An interrupt whose function comes back is served. -/
theorem interrupt_served (fit : places.Fit) (runs : places.Runs functions frame p)
    (ready : Interruptible places m frame c) (member : vector ∈ vectors)
    (expected : errorCode.isSome = expectsErrorCode vector)
    {f : BitVec 32 → Memory → Kernel → Option (Memory × Kernel)}
    (compiled : Cpu.Compiled p.calls (handlerOf places.labels vector).1 frame f)
    {k : Kernel}
    (comesBack : ComesBack places c vector errorCode k fun regs m => f regs m c.world) :
    ∃ c' regs m₁ m₂, p.interrupt c vector errorCode = some c' ∧
      Served f frame c vector errorCode c' regs m₁ m₂ ∧ CameBack places regs m₁ k m₂ c'.world ∧
      Interruptible places m frame c' := by
  have room := ready.room
  have stubFits := fit.stubs vector
  obtain ⟨code, isStub⟩ := stub_of_vector member places.labels
  have routine : p.codeAt (BitVec.ofNat 32 ((flat true 0).base + places.stubs vector)) =
      some code := by
    rw [show (flat true 0).base + places.stubs vector = places.stubs vector from Nat.zero_add _,
      runs.code vector member, isStub]
  have delivered := Platform.interrupt_eq (gate_found fit runs ready.tables member)
    (flatCode_found fit runs ready.tables) rfl ready.privilege.symm
    (show places.stubs vector ≤ 2 ^ 32 - 1 by omega) routine errorCode
  obtain ⟨s, atHandler, entered⟩ := @stub_runs _ c _ _ _ isStub errorCode expected (by omega)
    (BitVec.ofNat 16 0x08) (BitVec.ofNat 32 (places.stubs vector))
  obtain ⟨low, pointer, held⟩ := atHandler.registers
  have frameFits : frame ≤ (s.regs .esp).toNat := by omega
  have argumentFits : (s.regs .esp).toNat + 8 ≤ 2 ^ 32 := by
    have small := (c.regs .esp).isLt
    omega
  have regs : (s.regs .esp + 8).toNat = (s.regs .esp).toNat + 8 := by
    have small := (c.regs .esp).isLt
    rw [BitVec.toNat_add]
    change ((s.regs .esp).toNat + 8) % 2 ^ 32 = _
    omega
  have interrupting : Interrupting c vector errorCode (s.regs .esp + 8) s.memory :=
    ⟨by omega, held, fun a outside => atHandler.entering.memory a outside⟩
  obtain ⟨m₂, k₂, called, cameBack⟩ := comesBack (s.regs .esp + 8) s.memory interrupting
  dsimp only at called
  have world := atHandler.entering.world
  rw [← world] at called
  rw [← pointer] at called
  obtain ⟨t, ran, returned, worldAfter, memoryAfter⟩ :=
    compiled s m₂ k₂ frameFits argumentFits called
  rw [pointer] at called
  have back : Back c s t := by
    refine ⟨returned.esp, fun a above below => ?_⟩
    rw [memoryAfter a (.inr above)]
    exact cameBack.registers a (by omega) (by omega)
  have served : Served f frame c vector errorCode (resumed c t) (s.regs .esp + 8) s.memory m₂ := by
    refine ⟨interrupting, ?_, fun a outside => ?_, rfl⟩
    · rw [← world, called, ← worldAfter]
      rfl
    · exact memoryAfter a (by omega)
  refine ⟨_, _, _, _, ?_, served, ?_, ready.after served cameBack.tables⟩
  · rw [delivered, entered, ran, Option.bind_some]
    exact restoring_runs atHandler back p.calls
  · have worldBack : (resumed c t).world = k₂ := worldAfter
    rw [worldBack]
    exact cameBack

/-- A state between interrupts: none is in service. -/
structure Steady (places : Places) (m : Memory) (frame : Nat) (c : Cpu Kernel) : Prop where
  interruptible : Interruptible places m frame c
  ready : c.world.pics.Ready 32 40
  idle : c.world.pics.Idle

theorem handlerOf_irq {line : Nat} (device : line ∈ Pics.order) (labels : Labels) :
    (handlerOf labels (32 + line)).1 = labels.irqHandler ∧ 32 + line ∈ vectors ∧
      expectsErrorCode (32 + line) = false := by
  have bound := order_bound device
  refine ⟨?_, ?_, ?_⟩
  · rw [handlerOf, if_neg (by omega)]
  · exact List.mem_append_left _ (List.mem_range.mpr (by omega))
  · simp only [expectsErrorCode, List.mem_cons, List.not_mem_nil, or_false, decide_eq_false_iff_not]
    omega

/-- The processor with a line acknowledged. -/
def taken (c : Cpu Kernel) (line : Nat) : Cpu Kernel :=
  { c with world := { c.world with pics := c.world.pics.take line } }

/-- What the kernel knows when the handler of the line is called. -/
def ended (c : Cpu Kernel) (line : Nat) : Kernel :=
  { c.world with pics := (c.world.pics.take line).finish line }

/-- Nothing is registered for the line, or a function that comes back if the line interrupts now. -/
def LineAnswered (places : Places) (functions : Functions) (c : Cpu Kernel) (line : Nat) : Prop :=
  Answered places functions (taken c line) (32 + line) none (ended c line)

/-- The first requested line is served, and then nothing is in service again. -/
theorem Steady.interrupt {line : Nat} (fit : places.Fit) (runs : places.Runs functions frame p)
    (steady : Steady places m frame c)
    (first : Pics.order.find? c.world.pics.requested = some line)
    (answered : LineAnswered places functions c line) :
    ∃ c' regs m₁ m₂, p.interrupt (taken c line) (32 + line) none = some c' ∧
      Served (irqHandler functions) frame (taken c line) (32 + line) none c' regs m₁ m₂ ∧
      c'.world.pics = (c.world.pics.take line).finish line ∧ Steady places m frame c' := by
  have device := List.mem_of_find?_eq_some first
  have bound := order_bound device
  obtain ⟨isIrq, member, noErrorCode⟩ := handlerOf_irq device places.labels
  have interruptible : Interruptible places m frame (taken c line) :=
    steady.interruptible.withWorld _
  have compiled := runs.irqHandler
  rw [← isIrq] at compiled
  have isEnded : { (taken c line).world with
      pics := endInterrupt (taken c line).world.pics (32 + line) } = ended c line := by
    rw [endInterrupt_eq]
    rfl
  have comesBack := @irqHandler_comesBack places functions (taken c line) (32 + line) none
    (taken c line).world (by omega) (isEnded ▸ answered)
  rw [isEnded] at comesBack
  obtain ⟨c', regs, m₁, m₂, ran, served, back, after⟩ := @interrupt_served _ _ _ _ _ _ _ none fit
    runs interruptible member noErrorCode.symm _ compiled _ comesBack
  refine ⟨c', regs, m₁, m₂, ran, served, back.pics, after, ?_, ?_⟩
  · rw [back.pics]
    exact (steady.ready.take line).finish line
  · rw [back.pics]
    exact (Pics.serving_take steady.ready steady.idle bound.1).finish

/-- A vector whose stub calls `idt_handler`, with the error code that its stub expects. -/
def Exceptional (vector : Nat) (errorCode : Option (BitVec 32)) : Prop :=
  (vector < 32 ∨ vector = 255) ∧ errorCode.isSome = expectsErrorCode vector

/-- An exception whose handler comes back, or that has none, is served. -/
theorem Steady.exception (fit : places.Fit) (runs : places.Runs functions frame p)
    (steady : Steady places m frame c) (isException : Exceptional vector errorCode)
    (answered : Answered places functions c vector errorCode c.world) :
    ∃ c' regs m₁ m₂, p.interrupt c vector errorCode = some c' ∧
      Served (idtHandler functions) frame c vector errorCode c' regs m₁ m₂ ∧
      Steady places m frame c' := by
  have member : vector ∈ vectors := by
    simp only [vectors, List.mem_append, List.mem_range, List.mem_singleton]
    have cases := isException.1
    omega
  have isIdt : (handlerOf places.labels vector).1 = places.labels.idtHandler := by
    rw [handlerOf, if_pos isException.1]
  have compiled := runs.idtHandler
  rw [← isIdt] at compiled
  obtain ⟨c', regs, m₁, m₂, ran, served, back, after⟩ := interrupt_served fit runs
    steady.interruptible member isException.2 compiled
    (idtHandler_comesBack (Nat.lt_trans (vectors_small member) (by decide)) answered)
  refine ⟨c', regs, m₁, m₂, ran, served, after, ?_, ?_⟩
  · rw [back.pics]
    exact steady.ready
  · rw [back.pics]
    exact steady.idle

/-! ### Runs -/

inductive Happening where
  | raise (line : Nat)
  | program (run : Cpu Kernel → Cpu Kernel)
  | exception (vector : Nat) (errorCode : Option (BitVec 32))
  | interrupt

/-- A device asks; the running code goes on, to any state; it meets an exception; the processor
takes an interrupt, which the running code can put off. -/
def happen (p : Platform Kernel) (c : Cpu Kernel) : Happening → Option (Cpu Kernel)
  | .raise line =>
      if line ∈ Pics.order then
        some { c with world := { c.world with pics := c.world.pics.raise line } }
      else none
  | .program run => some (run c)
  | .exception vector errorCode => p.interrupt c vector errorCode
  | .interrupt =>
      if c.eflags &&& 0x200 ≠ 0 then
        c.world.pics.acknowledge.bind fun (vector, pics) =>
          p.interrupt { c with world := { c.world with pics := pics } } vector none
      else none

/-- The running code does no harm to what interrupts need, and meets interrupts and exceptions only
where the handler, if there is one, comes back. -/
def Allowed (places : Places) (functions : Functions) (m : Memory) (frame : Nat)
    (c : Cpu Kernel) : Happening → Prop
  | .raise _ => True
  | .program run => Steady places m frame (run c)
  | .exception vector errorCode =>
      Exceptional vector errorCode ∧ Answered places functions c vector errorCode c.world
  | .interrupt =>
      ∀ line, Pics.order.find? c.world.pics.requested = some line →
        LineAnswered places functions c line

/-- Behind `init_gdt` and `init_idt`, with a stack of its own. -/
structure Booted (places : Places) (m : Memory) (pics : Pics) (frame : Nat) (c : Cpu Kernel) :
    Prop where
  memory : c.memory = places.init m
  pics : c.world.pics = initPics pics
  room : 64 + frame ≤ (c.regs .esp).toNat
  apart : ∀ a, places.tables a → a + (64 + frame) < (c.regs .esp).toNat ∨ (c.regs .esp).toNat ≤ a
  privilege : c.cs.toNat % 4 = 0

theorem Booted.steady {pics : Pics} (booted : Booted places m pics frame c) :
    Steady places m frame c := by
  obtain ⟨ready, idle, -⟩ := initPics_ready pics
  rw [← booted.pics] at ready idle
  refine ⟨⟨fun a _ => ?_, booted.room, booted.apart, booted.privilege⟩, ready, idle⟩
  rw [booted.memory]

theorem Steady.raise (steady : Steady places m frame c) (line : Nat) :
    Steady places m frame
      { c with world := { c.world with pics := c.world.pics.raise line } } where
  interruptible := steady.interruptible.withWorld _
  ready := steady.ready.raise line
  idle := steady.idle.raise line

theorem Steady.happen_interrupt (steady : Steady places m frame c) :
    happen p c .interrupt = if c.eflags &&& 0x200 ≠ 0 then
      (Pics.order.find? c.world.pics.requested).bind fun line =>
        p.interrupt (taken c line) (32 + line) none
    else none := by
  rw [happen, acknowledge_vectors steady.ready steady.idle, Option.bind_map]
  rfl

/-- What one thing that happens keeps. -/
theorem Steady.step (fit : places.Fit) (runs : places.Runs functions frame p)
    (steady : Steady places m frame c) {happening : Happening}
    (allowed : Allowed places functions m frame c happening) {c' : Cpu Kernel}
    (returns : happen p c happening = some c') : Steady places m frame c' := by
  cases happening with
  | raise line =>
      rw [happen] at returns
      split_ifs at returns
      obtain rfl := Option.some.inj returns
      exact steady.raise line
  | program run =>
      obtain rfl := Option.some.inj returns
      exact allowed
  | exception vector errorCode =>
      obtain ⟨last, _, _, _, ran, -, after⟩ := steady.exception fit runs allowed.1 allowed.2
      rw [happen, ran] at returns
      exact Option.some.inj returns ▸ after
  | interrupt =>
      rw [steady.happen_interrupt] at returns
      split_ifs at returns
      obtain ⟨line, first, ends⟩ := Option.bind_eq_some_iff.mp returns
      obtain ⟨last, _, _, _, ran, -, -, after⟩ :=
        steady.interrupt fit runs first (allowed line first)
      rw [ran] at ends
      exact Option.some.inj ends ▸ after

/-- In every state of every run behind `init_gdt` and `init_idt`, an interrupt that the processor
takes, of a line without a handler or with one that comes back from the call, comes back:
`irq_handler` gets the registers of the interrupted code, which goes on with its registers, its next
instruction, its flags and its stack; the interrupt was the first requested one, and its end has
been given. The same goes for exceptions, `idt_handler` and their error codes. A switch of tasks is
no such call, and `page_fault` does not come back. -/
theorem served_along_run (fit : places.Fit) (runs : places.Runs functions frame p) {pics : Pics}
    {start : Cpu Kernel} (booted : Booted places m pics frame start) {happenings : List Happening}
    (allowed : EveryStep (happen p) (Allowed places functions m frame) start happenings) :
    ∀ c ∈ visited (happen p) start happenings,
      (c.eflags &&& 0x200 ≠ 0 → ∀ line, Pics.order.find? c.world.pics.requested = some line →
        LineAnswered places functions c line → ∃ c' regs m₁ m₂, happen p c .interrupt = some c' ∧
          Served (irqHandler functions) frame (taken c line) (32 + line) none c' regs m₁ m₂ ∧
          c'.world.pics = (c.world.pics.take line).finish line) ∧
      (∀ vector errorCode, Exceptional vector errorCode →
        Answered places functions c vector errorCode c.world →
          ∃ c' regs m₁ m₂, happen p c (.exception vector errorCode) = some c' ∧
            Served (idtHandler functions) frame c vector errorCode c' regs m₁ m₂) := by
  intro c member
  have steady : Steady places m frame c :=
    @visited_invariant _ _ (happen p) (Allowed places functions m frame)
      (Steady places m frame) _ _ (fun s a s' inv ok returns => inv.step fit runs ok returns)
      booted.steady allowed c member
  constructor
  · intro enabled line first answered
    obtain ⟨c', regs, m₁, m₂, ran, served, finished, -⟩ :=
      steady.interrupt fit runs first answered
    refine ⟨c', regs, m₁, m₂, ?_, served, finished⟩
    rw [steady.happen_interrupt, if_pos enabled, first, Option.bind_some, ran]
  · intro vector errorCode isException answered
    obtain ⟨c', regs, m₁, m₂, ran, served, -⟩ := steady.exception fit runs isException answered
    exact ⟨c', regs, m₁, m₂, ran, served⟩

/-- The kernel at fixed places, with functions that do what they mean. -/
def somewhere : Places where
  gdtEntries := 0x1000
  idtEntries := 0x2000
  interruptHandlers := 0x3000
  stubs vector := 0x10000 + vector % 256 * 16
  labels := ⟨0x20000, 0x21000, 0x22000, 0x23000⟩

def interpreted (functions : Functions) : Platform Kernel where
  gdt := ⟨0x1000, 39⟩
  idt := ⟨0x2000, 2047⟩
  codeAt a := stub somewhere.labels ((a.toNat - 0x10000) / 16)
  calls target :=
    Cpu.interpret (if target = 0x20000 then idtHandler functions else irqHandler functions)

theorem somewhere_fit : somewhere.Fit where
  handlers := by decide
  idt := by decide
  stubs vector := by
    simp only [somewhere]
    omega
  gdtHandlers := .inl (by decide)
  gdtIdt := .inl (by decide)

theorem interpreted_runs (functions : Functions) :
    somewhere.Runs functions 0 (interpreted functions) where
  gdt := rfl
  idt := rfl
  code vector member := by
    have small := vectors_small member
    have place : ((BitVec.ofNat 32 (somewhere.stubs vector)).toNat - 0x10000) / 16 = vector := by
      simp only [somewhere, BitVec.toNat_ofNat]
      omega
    change stub somewhere.labels
      (((BitVec.ofNat 32 (somewhere.stubs vector)).toNat - 0x10000) / 16) = _
    rw [place]
  idtHandler := Cpu.compiled_interpret rfl
  irqHandler := Cpu.compiled_interpret rfl

/-- A handler as `timer_callback` is with one process and with more: it counts, and while the word
at 0x30000 is clear it comes back. -/
def counting : Functions := fun h _ m k =>
  if h = 0x24000 ∧ m.read32 0x30000 = 0 then some (m.write32 0x30004 (m.read32 0x30004 + 1), k)
  else none

/-- The processor behind `init_gdt` and `init_idt`, with the interrupts on. -/
def running : Cpu Kernel where
  regs _ := 0x9000
  segs _ := 0x10
  cs := 0x08
  eip := 0x40000
  eflags := 0x202
  memory := somewhere.init fun _ => 0
  world := ⟨initPics ⟨unset, unset⟩, fun _ => 0, []⟩

/-- `register_interrupt_handler(IRQ0, ..)`. -/
def registering (c : Cpu Kernel) : Cpu Kernel :=
  { c with world := registerInterruptHandler c.world 32 0x24000 }

theorem running_booted : Booted somewhere (fun _ => 0) ⟨unset, unset⟩ 0 running := by
  refine ⟨rfl, rfl, by decide, fun a inside => .inl ?_, by decide⟩
  have top : (running.regs .esp).toNat = 0x9000 := rfl
  rw [top]
  simp only [Places.tables, somewhere] at inside
  omega

theorem init_outside (fit : places.Fit) (m : Memory) {a : Nat}
    (gdt : a < places.gdtEntries ∨ places.gdtEntries + 8 * 5 ≤ a)
    (handlers : a < places.interruptHandlers ∨ places.interruptHandlers + 4 * 256 ≤ a)
    (idt : a < places.idtEntries ∨ places.idtEntries + 8 * 256 ≤ a) : places.init m a = m a := by
  rw [Places.init, initIdt_outside _ _ fit.handlers fit.idt handlers idt]
  exact initGdt_outside m gdt

/-- While the word is clear, the handler comes back from its call for a request of the timer. -/
theorem counting_answers {c : Cpu Kernel} (esp : c.regs .esp = 0x9000)
    (clear : c.memory.read32 0x30000 = 0)
    (registered : c.world.interruptHandlers 32 = 0x24000) :
    LineAnswered somewhere counting c 0 := by
  refine .inr fun regs m₁ interrupting => ?_
  have place := interrupting.place
  have top : ((taken c 0).regs .esp).toNat = 0x9000 := by rw [taken, esp]; rfl
  rw [top] at place
  have same : m₁.read32 0x30000 = 0 := by
    rw [← clear]
    exact Memory.read32_congr fun k bound => interrupting.before _ (.inr (by omega))
  have called : counting (c.world.interruptHandlers 32) regs m₁ (ended c 0) =
      some (m₁.write32 0x30004 (m₁.read32 0x30004 + 1), ended c 0) := by
    rw [counting, if_pos ⟨registered, same⟩]
  refine ⟨_, _, called, fun a inside => ?_, fun a above below => ?_, rfl⟩
  · simp only [Places.tables, somewhere] at inside
    exact Memory.write32_outside _ _ (.inl (by omega))
  · exact Memory.write32_outside _ _ (.inl (by omega))

/-- With a handler that does not always come back, a request of the timer is served, and so is a
general protection fault, which has an error code and no handler. -/
theorem served_along_run_timer :
    ∃ c, c.world.interruptHandlers 32 = 0x24000 ∧
      (∃ c' regs m₁ m₂, happen (interpreted counting) c .interrupt = some c' ∧
        Served (irqHandler counting) 0 (taken c 0) 32 none c' regs m₁ m₂ ∧
        c'.world.pics = (c.world.pics.take 0).finish 0) ∧
      ∃ c' regs m₁ m₂, happen (interpreted counting) c (.exception 13 (some 0x10)) = some c' ∧
        Served (idtHandler counting) 0 c 13 (some 0x10) c' regs m₁ m₂ := by
  have steady : Steady somewhere (fun _ => 0) 0 (registering running) :=
    have before := running_booted.steady
    ⟨before.interruptible.withWorld _, before.ready, before.idle⟩
  have clear : running.memory.read32 0x30000 = 0 := by
    apply Memory.read32_zero
    intro k _
    have memory : running.memory = somewhere.init fun _ => 0 := rfl
    rw [memory]
    apply init_outside somewhere_fit
    all_goals exact .inr (by simp only [somewhere]; omega)
  have answered : ∀ c : Cpu Kernel, c.regs = running.regs → c.memory = running.memory →
      c.world.interruptHandlers 32 = 0x24000 → LineAnswered somewhere counting c 0 := by
    intro c regs memory registered
    exact counting_answers (by rw [regs]; rfl) (by rw [memory, clear]) registered
  have allowed : EveryStep (happen (interpreted counting))
      (Allowed somewhere counting (fun _ => 0) 0) running [.program registering, .raise 0, .interrupt] := by
    refine everyStep_cons_some rfl steady (everyStep_cons_some rfl trivial ⟨?_, fun _ _ => trivial⟩)
    intro line first
    obtain rfl := Option.some.inj (first.symm.trans rfl : some line = some 0)
    exact answered _ rfl rfl rfl
  have served := served_along_run somewhere_fit (interpreted_runs counting) running_booted allowed
  obtain ⟨asked, fault⟩ :=
    served _ (List.mem_cons_of_mem _ (List.mem_cons_of_mem _ List.mem_cons_self))
  exact ⟨_, rfl, asked (by decide) 0 rfl (answered _ rfl rfl rfl),
    fault 13 (some 0x10) ⟨by decide, by decide⟩ (.inl rfl)⟩

end Balloon.Interrupts
