import Balloon.Foundation.InterruptController
import Balloon.Foundation.Transition
import Balloon.Foundation.ByteMemory

/-!
Owns idt.c behind the stubs: the initialisation of the interrupt controllers, `idt_handler`,
`irq_handler` and the table of handlers. Over any order of requests, interrupts and handlers no
interrupt is lost or repeated, and none keeps another one out: `irq_handler` ends the interrupt
before it calls anything.
-/

namespace Balloon.Interrupts

open Balloon.Foundation

/-! ### The code -/

/-- The writes of `init_idt` to the interrupt controllers, as ports and values. -/
def initWrites : List (Nat × Nat) :=
  [(0x20, 0x11), (0xA0, 0x11), (0x21, 0x20), (0xA1, 0x28), (0x21, 0x04), (0xA1, 0x02), (0x21, 0x01),
    (0xA1, 0x01), (0x21, 0x0), (0xA1, 0x0)]

def initPics (p : Pics) : Pics := initWrites.foldl (fun p write => p.outb write.1 write.2) p

/-- What idt.c keeps and acts on: the interrupt controllers, `interrupt_handlers` with 0 for no
handler, and the vectors that `idt_handler` has reported. -/
structure Kernel where
  pics : Pics
  interruptHandlers : Nat → BitVec 32
  unhandled : List Nat

/-- The C functions by their address, as functions of the pointer to the `registers_t`. -/
abbrev Functions := BitVec 32 → BitVec 32 → Memory → Kernel → Option (Memory × Kernel)

/-- `regs->int_no`. -/
def intNoOf (m : Memory) (regs : BitVec 32) : Nat := m.read32 (regs.toNat + 36)

def registerInterruptHandler (k : Kernel) (n : Nat) (h : BitVec 32) : Kernel :=
  { k with interruptHandlers := fun vector => if vector = n then h else k.interruptHandlers vector }

def idtHandler (functions : Functions) (regs : BitVec 32) (m : Memory) (k : Kernel) :
    Option (Memory × Kernel) :=
  let n := intNoOf m regs
  if k.interruptHandlers n ≠ 0 then functions (k.interruptHandlers n) regs m k
  else some (m, { k with unhandled := n :: k.unhandled })

/-- What `irq_handler` tells the interrupt controllers. -/
def endInterrupt (p : Pics) (intNo : Nat) : Pics :=
  (if intNo ≥ 40 then p.outb 0xA0 0x20 else p).outb 0x20 0x20

def irqHandler (functions : Functions) (regs : BitVec 32) (m : Memory) (k : Kernel) :
    Option (Memory × Kernel) :=
  let n := intNoOf m regs
  let k := { k with pics := endInterrupt k.pics n }
  if k.interruptHandlers n ≠ 0 then functions (k.interruptHandlers n) regs m k else some (m, k)

/-! ### The controllers -/

variable {p : Pics} {line : Nat}

theorem endInterrupt_eq (p : Pics) (line : Nat) : endInterrupt p (32 + line) = p.finish line := by
  have plain : ∀ q : Pic, q.writeCommand 0x20 = q.endOfInterrupt := fun q => by
    rw [Pic.writeCommand, if_neg (by decide), if_pos rfl]
  unfold endInterrupt Pics.finish
  by_cases isSlave : 8 ≤ line
  · rw [if_pos (by omega), if_pos isSlave]
    simp [Pics.outb, plain]
  · rw [if_neg (by omega), if_neg isSlave]
    simp [Pics.outb, plain]

/-- Whatever state the controllers are in, `init_idt` gives the lines the vectors from 32 on, with
nothing masked, requested or in service. -/
theorem initPics_ready (p : Pics) :
    (initPics p).Ready 32 40 ∧ (initPics p).Idle ∧ ∀ n, (initPics p).requested n = false := by
  have ends : initPics p =
      { master := ⟨fun _ => false, fun _ => false, Nat.testBit 0, 32, 4, false, []⟩
        slave := ⟨fun _ => false, fun _ => false, Nat.testBit 0, 40, 2, false, []⟩ } := rfl
  rw [ends]
  refine ⟨⟨⟨Nat.zero_testBit, rfl, rfl, rfl⟩, ⟨Nat.zero_testBit, rfl, rfl, rfl⟩, rfl, rfl⟩,
    ⟨fun _ => rfl, fun _ => rfl⟩, fun n => ?_⟩
  unfold Pics.requested
  split <;> rfl

/-- With nothing in service the processor gets the vector of the first requested line. -/
theorem acknowledge_vectors (ready : p.Ready 32 40) (idle : p.Idle) :
    p.acknowledge = (Pics.order.find? p.requested).map fun line => (32 + line, p.take line) := by
  rw [Pics.acknowledge_idle ready idle]
  congr 1
  funext line
  by_cases isMaster : line < 8
  · rw [if_pos isMaster]
  · rw [if_neg isMaster, show 40 + (line - 8) = 32 + line by omega]

/-! ### Runs -/

/-- The interrupts of a run: the controllers, the vector that the processor was given if its handler
is still to come, the lines as they were newly requested, and the vectors that `irq_handler` was
called with; newest first. -/
structure Traffic where
  pics : Pics
  current : Option Nat
  raises : List Nat
  calls : List Nat

inductive Event where
  | raise (line : Nat)
  | interrupt
  | handle

/-- A device asks; the processor takes an interrupt, which keeps others out until `iret`; its
`irq_handler` runs. -/
def step (s : Traffic) : Event → Option Traffic
  | .raise line =>
      if line ∈ Pics.order then
        some { s with
          pics := s.pics.raise line
          raises := if s.pics.requested line then s.raises else line :: s.raises }
      else none
  | .interrupt =>
      if s.current = none then
        s.pics.acknowledge.map fun (vector, pics) => { s with pics := pics, current := some vector }
      else none
  | .handle =>
      s.current.map fun vector =>
        { s with
          pics := endInterrupt s.pics vector
          current := none
          calls := vector :: s.calls }

/-- Behind `init_idt`. -/
def Traffic.boot (p : Pics) : Traffic := ⟨initPics p, none, [], []⟩

/-- The number of interrupts of a line that are on their way: requested, or in service. -/
def Traffic.inFlight (s : Traffic) (line : Nat) : Nat :=
  (if s.pics.requested line then 1 else 0) + if s.current = some (32 + line) then 1 else 0

/-- Nothing is lost or repeated, and the controllers know of nothing in service but the current
interrupt. -/
structure Traffic.Sound (s : Traffic) : Prop where
  ready : s.pics.Ready 32 40
  idle : s.current = none → s.pics.Idle
  serving : ∀ vector, s.current = some vector →
    ∃ line, line ∈ Pics.order ∧ vector = 32 + line ∧ s.pics.Serving line
  count : ∀ line ∈ Pics.order,
    s.raises.count line = s.calls.count (32 + line) + s.inFlight line

theorem order_bound (member : line ∈ Pics.order) : line < 16 ∧ line ≠ 2 := by
  simp only [Pics.order, List.mem_cons, List.not_mem_nil, or_false] at member
  omega

theorem sound_boot (p : Pics) : (Traffic.boot p).Sound := by
  obtain ⟨ready, idle, none⟩ := initPics_ready p
  refine ⟨ready, fun _ => idle, fun vector given => (by cases given), fun line _ => ?_⟩
  simp [Traffic.boot, Traffic.inFlight, none]

variable {s s' : Traffic}

theorem Traffic.Sound.raise (sound : s.Sound) {other : Nat} (device : other ∈ Pics.order) :
    Traffic.Sound { s with
      pics := s.pics.raise other
      raises := if s.pics.requested other then s.raises else other :: s.raises } := by
  refine ⟨sound.ready.raise other, fun none => (sound.idle none).raise other,
    fun vector given => ?_, fun line member => ?_⟩
  · obtain ⟨line, member, isVector, serving⟩ := sound.serving vector given
    exact ⟨line, member, isVector, serving.raise other⟩
  · have count := sound.count line member
    unfold Traffic.inFlight at count ⊢
    dsimp only
    rw [Pics.requested_raise]
    by_cases same : line = other
    · subst same
      rw [if_pos rfl]
      cases already : s.pics.requested line with
      | true =>
          rw [already] at count
          exact count
      | false =>
          rw [already] at count
          simp only [Bool.false_eq_true, if_false, if_true, List.count_cons_self] at count ⊢
          omega
    · rw [if_neg same]
      cases s.pics.requested other with
      | true => exact count
      | false =>
          simp only [Bool.false_eq_true, if_false] at count ⊢
          rw [List.count_cons_of_ne (Ne.symm same)]
          exact count

/-- With nothing in service the processor gets the first requested line. -/
theorem Traffic.Sound.acknowledge (sound : s.Sound) (none : s.current = none) :
    s.pics.acknowledge =
      (Pics.order.find? s.pics.requested).map fun line => (32 + line, s.pics.take line) :=
  acknowledge_vectors sound.ready (sound.idle none)

theorem Traffic.Sound.take (sound : s.Sound) (none : s.current = none)
    (first : Pics.order.find? s.pics.requested = some line) :
    Traffic.Sound { s with pics := s.pics.take line, current := some (32 + line) } := by
  have member := List.mem_of_find?_eq_some first
  have requested := List.find?_some first
  have bound := order_bound member
  refine ⟨sound.ready.take line, fun absent => (by cases absent), fun vector given => ?_,
    fun other device => ?_⟩
  · cases given
    exact ⟨line, member, rfl, Pics.serving_take sound.ready (sound.idle none) bound.1⟩
  · have count := sound.count other device
    unfold Traffic.inFlight at count ⊢
    dsimp only
    rw [none] at count
    rw [Pics.requested_take (order_bound device).2]
    by_cases same : other = line
    · subst same
      rw [requested] at count
      simpa using count
    · have different : ¬ some (32 + line) = some (32 + other) := by simpa using Ne.symm same
      rw [if_neg same, if_neg different]
      simpa using count

theorem Traffic.Sound.handle (sound : s.Sound) {vector : Nat} (given : s.current = some vector) :
    Traffic.Sound { s with
      pics := endInterrupt s.pics vector
      current := none
      calls := vector :: s.calls } := by
  obtain ⟨line, member, rfl, serving⟩ := sound.serving vector given
  rw [endInterrupt_eq]
  refine ⟨sound.ready.finish line, fun _ => serving.finish, fun vector given => (by cases given),
    fun other device => ?_⟩
  have count := sound.count other device
  unfold Traffic.inFlight at count ⊢
  dsimp only
  rw [given] at count
  rw [Pics.requested_finish]
  by_cases same : other = line
  · subst same
    rw [List.count_cons_self]
    simp only [if_true, reduceCtorEq, if_false] at count ⊢
    omega
  · have different : ¬ some (32 + line) = some (32 + other) := by simpa using Ne.symm same
    rw [List.count_cons_of_ne (by simpa using Ne.symm same)]
    rw [if_neg different] at count
    simpa using count

/-- What an event does. -/
theorem Traffic.Sound.step {event : Event} (sound : s.Sound)
    (returns : Interrupts.step s event = some s') : s'.Sound := by
  cases event with
  | raise line =>
      rw [Interrupts.step] at returns
      by_cases device : line ∈ Pics.order
      · rw [if_pos device] at returns
        obtain rfl := Option.some.inj returns
        exact sound.raise device
      · rw [if_neg device] at returns
        cases returns
  | interrupt =>
      simp only [Interrupts.step] at returns
      split_ifs at returns with none
      rw [sound.acknowledge none, Option.map_map] at returns
      obtain ⟨line, first, rfl⟩ := Option.map_eq_some_iff.mp returns
      exact sound.take none first
  | handle =>
      obtain ⟨vector, given, rfl⟩ := Option.map_eq_some_iff.mp returns
      exact sound.handle given

theorem sound_along_run (p : Pics) (events : List Event) :
    ∀ s ∈ visited step (Traffic.boot p) events, s.Sound := by
  apply @visited_invariant _ _ step (fun _ _ => True)
  · intro s event s' sound _ returns
    exact sound.step returns
  · exact sound_boot p
  · exact everyStep_true step _ events

/-- In every state of every run that starts behind `init_idt`, whatever the controllers were before:
each new request of a line has led to one call of `irq_handler` with its vector, or is still
requested, or in service; and whenever nothing is in service, the processor gets the first
requested line in the order of priorities. -/
theorem delivered_along_run (p : Pics) (events : List Event) :
    ∀ s ∈ visited step (Traffic.boot p) events,
      (∀ line ∈ Pics.order, s.raises.count line = s.calls.count (32 + line) + s.inFlight line) ∧
      (s.current = none → s.pics.acknowledge =
        (Pics.order.find? s.pics.requested).map fun line => (32 + line, s.pics.take line)) := by
  intro s member
  have sound := sound_along_run p events s member
  exact ⟨sound.count, sound.acknowledge⟩

/-- Controllers with nothing set. -/
def unset : Pic := ⟨fun _ => false, fun _ => false, fun _ => false, 0, 0, false, []⟩

/-- The disc on the second controller asks and is served, and the timer asks in between. -/
def discEvents : List Event := [.raise 14, .interrupt, .raise 0, .handle]

theorem delivered_along_run_disc :
    ∃ s : Traffic, (s.calls, s.current, s.pics.requested 14, s.pics.requested 0) =
        ([46], none, false, true) ∧
      (∀ line ∈ Pics.order, s.raises.count line = s.calls.count (32 + line) + s.inFlight line) ∧
      (s.current = none → s.pics.acknowledge =
        (Pics.order.find? s.pics.requested).map fun line => (32 + line, s.pics.take line)) := by
  have ends : (discEvents.foldlM step (Traffic.boot ⟨unset, unset⟩)).map (fun s =>
      (s.calls, s.current, s.pics.requested 14, s.pics.requested 0)) =
        some ([46], none, false, true) := rfl
  obtain ⟨s, ran, isEnd⟩ := Option.map_eq_some_iff.mp ends
  exact ⟨s, isEnd,
    delivered_along_run ⟨unset, unset⟩ discEvents s (mem_visited_of_foldlM ran)⟩

/-! ### Quiet devices -/

/-- One interrupt, taken and handled. -/
theorem Traffic.Sound.round (sound : s.Sound) (none : s.current = none)
    (first : Pics.order.find? s.pics.requested = some line) :
    ∃ s', [Event.interrupt, .handle].foldlM Interrupts.step s = some s' ∧ s'.Sound ∧
      s'.current = Option.none ∧
      s'.calls = (32 + line) :: s.calls ∧
      ∀ other ∈ Pics.order, s'.pics.requested other =
        if other = line then false else s.pics.requested other := by
  have taken := sound.take none first
  refine ⟨_, ?_, taken.handle rfl, rfl, rfl, fun other device => ?_⟩
  · have interrupted : Interrupts.step s .interrupt =
        some { s with pics := s.pics.take line, current := some (32 + line) } := by
      rw [Interrupts.step, if_pos none, sound.acknowledge none, first]
      rfl
    rw [List.foldlM_cons, interrupted]
    rfl
  · dsimp only
    rw [endInterrupt_eq, Pics.requested_finish, Pics.requested_take (order_bound device).2]

/-- As soon as the devices are quiet, as many interrupts as there are requested lines serve them
all, in the order of their priorities. -/
theorem Traffic.Sound.drains {lines : List Nat} (sound : s.Sound) (none : s.current = none)
    (pending : Pics.order.filter s.pics.requested = lines) :
    ∃ s', (lines.flatMap fun _ => [Event.interrupt, .handle]).foldlM Interrupts.step s = some s' ∧
      s'.current = Option.none ∧ (∀ line ∈ Pics.order, s'.pics.requested line = false) ∧
      s'.calls = (lines.map (32 + ·)).reverse ++ s.calls := by
  induction lines generalizing s with
  | nil =>
      refine ⟨s, rfl, none, fun line member => ?_, rfl⟩
      have absent := List.filter_eq_nil_iff.mp pending line member
      simpa using absent
  | cons line lines inductionHypothesis =>
      have first : Pics.order.find? s.pics.requested = some line := by
        rw [← List.head?_filter, pending, List.head?_cons]
      obtain ⟨next, ran, soundNext, noneNext, calls, requested⟩ := sound.round none first
      have unique : (line :: lines).Nodup := by
        rw [← pending]
        exact List.Pairwise.filter _ (show Pics.order.Nodup by decide)
      have remaining : Pics.order.filter next.pics.requested = lines := by
        have both : Pics.order.filter next.pics.requested =
            (Pics.order.filter s.pics.requested).filter (· ≠ line) := by
          rw [List.filter_filter]
          apply List.filter_congr
          intro other device
          rw [requested other device]
          by_cases same : other = line <;> simp [same]
        rw [both, pending, List.filter_cons_of_neg (by simp), List.filter_eq_self]
        intro other member
        have different : other ≠ line := fun same =>
          (List.nodup_cons.mp unique).1 (same ▸ member)
        simpa using different
      obtain ⟨last, ranRest, quiet, none, served⟩ :=
        inductionHypothesis soundNext noneNext remaining
      refine ⟨last, ?_, quiet, none, ?_⟩
      · rw [List.flatMap_cons, List.foldlM_append, ran]
        exact ranRest
      · rw [served, calls, List.map_cons, List.reverse_cons, List.append_assoc]
        rfl

/-- From every state of a run with nothing in service, interrupts without new requests serve each
requested line once, the highest priority first, and then nothing is requested. -/
theorem drained_along_run (p : Pics) (events : List Event) :
    ∀ s ∈ visited step (Traffic.boot p) events, s.current = none →
      ∃ s', ((Pics.order.filter s.pics.requested).flatMap
          fun _ => [Event.interrupt, .handle]).foldlM step s = some s' ∧
        s'.current = none ∧ (∀ line ∈ Pics.order, s'.pics.requested line = false) ∧
        s'.calls = ((Pics.order.filter s.pics.requested).map (32 + ·)).reverse ++ s.calls := by
  intro s member none
  exact (sound_along_run p events s member).drains none rfl

theorem drained_along_run_timer :
    ∃ s s' : Traffic, s.pics.requested 0 = true ∧
      ((Pics.order.filter s.pics.requested).flatMap
          fun _ => [Event.interrupt, .handle]).foldlM step s = some s' ∧
        s'.current = none ∧ (∀ line ∈ Pics.order, s'.pics.requested line = false) ∧
        s'.calls = ((Pics.order.filter s.pics.requested).map (32 + ·)).reverse ++ s.calls := by
  let off : Pic := ⟨fun _ => false, fun _ => false, fun _ => false, 0, 0, false, []⟩
  let raised : Traffic := ⟨(initPics ⟨off, off⟩).raise 0, none, [0], []⟩
  have member : raised ∈ visited step (Traffic.boot ⟨off, off⟩) [.raise 0] :=
    List.mem_cons_of_mem _ List.mem_cons_self
  obtain ⟨s', drained⟩ := drained_along_run ⟨off, off⟩ [.raise 0] raised member rfl
  exact ⟨raised, s', rfl, drained⟩

end Balloon.Interrupts
