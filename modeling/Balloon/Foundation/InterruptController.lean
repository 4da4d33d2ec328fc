import Mathlib.Algebra.Group.Nat.Defs
import Mathlib.Data.List.Basic
import Mathlib.Tactic.SplitIfs

/-!
Owns the pair of 8259A interrupt controllers of a PC: the words that initialise a chip, its mask,
requests and lines in service, the end of an interrupt, and the second chip behind line 2 of the
first. It says which line the pair passes on, and that ends of interrupts undo acknowledgements.

Requests are edges: a line that is already requested is not requested twice. Line 2 has no device.
-/

namespace Balloon.Foundation

/-- A word that a chip expects while it is initialised. -/
inductive InitWord where
  | vectors
  | cascade
  | mode
deriving DecidableEq

/-- A chip. Line 0 has the highest priority. -/
@[ext] structure Pic where
  requested : Nat → Bool
  inService : Nat → Bool
  masked : Nat → Bool
  base : Nat
  cascade : Nat
  autoEoi : Bool
  expected : List InitWord

/-- One line changed. -/
def setLine (lines : Nat → Bool) (n : Nat) (value : Bool) (k : Nat) : Bool :=
  if k = n then value else lines k

theorem setLine_self (lines : Nat → Bool) (n : Nat) (value : Bool) :
    setLine lines n value n = value := if_pos rfl

theorem setLine_of_ne (lines : Nat → Bool) {n k : Nat} (value : Bool) (other : k ≠ n) :
    setLine lines n value k = lines k := if_neg other

/-- The first of the eight lines. -/
def firstLine (lines : Nat → Bool) : Option Nat := (List.range 8).find? lines

namespace Pic

/-- The line that the chip passes on: nothing of its priority or a higher one is in service. -/
def pending (p : Pic) : Option Nat :=
  firstLine fun n => p.requested n && !p.masked n && !(List.range (n + 1)).any p.inService

def accept (p : Pic) (n : Nat) : Pic :=
  { p with
    requested := setLine p.requested n false
    inService := setLine p.inService n (!p.autoEoi) }

/-- The end of the interrupt with the highest priority. -/
def endOfInterrupt (p : Pic) : Pic :=
  match firstLine p.inService with
  | none => p
  | some n => { p with inService := setLine p.inService n false }

/-- A write to the port of commands: the first word of the initialisation, or the end of an
interrupt. Other commands are not used here. -/
def writeCommand (p : Pic) (value : Nat) : Pic :=
  if value.testBit 4 then
    { p with
      requested := fun _ => false
      inService := fun _ => false
      masked := fun _ => false
      autoEoi := false
      expected := .vectors :: ((if value.testBit 1 then [] else [.cascade]) ++
        if value.testBit 0 then [.mode] else []) }
  else if value = 0x20 then p.endOfInterrupt
  else p

/-- A write to the port of data: an expected word, else the mask. -/
def writeData (p : Pic) (value : Nat) : Pic :=
  match p.expected with
  | [] => { p with masked := value.testBit }
  | .vectors :: rest => { p with base := value / 8 * 8, expected := rest }
  | .cascade :: rest => { p with cascade := value, expected := rest }
  | .mode :: rest => { p with autoEoi := value.testBit 1, expected := rest }

/-- Nothing is in service. -/
def Idle (p : Pic) : Prop := ∀ n, p.inService n = false

/-- Initialised, with nothing masked and ends of interrupts to be given. -/
structure Ready (p : Pic) (base : Nat) : Prop where
  masked : ∀ n, p.masked n = false
  base : p.base = base
  autoEoi : p.autoEoi = false
  expected : p.expected = []

end Pic

/-- The two chips. -/
structure Pics where
  master : Pic
  slave : Pic

namespace Pics

/-- A write to a port; the other ports belong to other devices. -/
def outb (p : Pics) (port value : Nat) : Pics :=
  if port = 0x20 then { p with master := p.master.writeCommand value }
  else if port = 0x21 then { p with master := p.master.writeData value }
  else if port = 0xA0 then { p with slave := p.slave.writeCommand value }
  else if port = 0xA1 then { p with slave := p.slave.writeData value }
  else p

/-- A device on one of the sixteen lines asks for an interrupt. -/
def raise (p : Pics) (line : Nat) : Pics :=
  if line < 8 then
    { p with master := { p.master with requested := setLine p.master.requested line true } }
  else
    { p with
      slave := { p.slave with requested := setLine p.slave.requested (line - 8) true } }

/-- A line is requested. -/
def requested (p : Pics) (line : Nat) : Bool :=
  if line < 8 then p.master.requested line else p.slave.requested (line - 8)

/-- The first chip with the request of the second one on its line 2. -/
def cascaded (p : Pics) : Pic :=
  { p.master with requested := setLine p.master.requested 2 p.slave.pending.isSome }

/-- The second chip is where both say it is. -/
def Wired (p : Pics) : Prop := p.master.cascade = 4 ∧ p.slave.cascade = 2

instance (p : Pics) : Decidable p.Wired := inferInstanceAs (Decidable (_ ∧ _))

/-- The acknowledgement of the processor: the vector it is given, and the chips behind it. -/
def acknowledge (p : Pics) : Option (Nat × Pics) :=
  p.cascaded.pending.bind fun line =>
    if line = 2 then
      if p.Wired then
        p.slave.pending.map fun n =>
          (p.slave.base + n, { master := p.master.accept 2, slave := p.slave.accept n })
      else none
    else some (p.master.base + line, { p with master := p.master.accept line })

/-- Both chips are initialised: the lines have the vectors from `master` and from `slave` on. -/
structure Ready (p : Pics) (master slave : Nat) : Prop where
  master : p.master.Ready master
  slave : p.slave.Ready slave
  wired : p.Wired

/-- Nothing is in service. -/
def Idle (p : Pics) : Prop := p.master.Idle ∧ p.slave.Idle

/-- The sixteen lines but line 2, the highest priority first. -/
def order : List Nat := [0, 1, 8, 9, 10, 11, 12, 13, 14, 15, 3, 4, 5, 6, 7]

end Pics

/-! ### One chip -/

namespace Pic

variable {p : Pic} {base n : Nat}

theorem pending_idle (ready : p.Ready base) (idle : p.Idle) :
    p.pending = firstLine p.requested := by
  have none : ∀ m, (List.range m).any p.inService = false := fun m =>
    List.any_eq_false.mpr fun k _ => by simp [idle k]
  unfold pending
  congr 1
  funext n
  simp [ready.masked n, none]

theorem Ready.accept (ready : p.Ready base) (n : Nat) : (p.accept n).Ready base :=
  ⟨ready.masked, ready.base, ready.autoEoi, ready.expected⟩

theorem Ready.endOfInterrupt (ready : p.Ready base) : p.endOfInterrupt.Ready base := by
  unfold Pic.endOfInterrupt
  split
  · exact ready
  · exact ⟨ready.masked, ready.base, ready.autoEoi, ready.expected⟩

theorem endOfInterrupt_requested (p : Pic) : p.endOfInterrupt.requested = p.requested := by
  unfold Pic.endOfInterrupt
  split <;> rfl

/-- The end of the one interrupt in service. -/
theorem endOfInterrupt_idle (line : n < 8) (serving : ∀ k, p.inService k = decide (k = n)) :
    p.endOfInterrupt.Idle := by
  have found : firstLine p.inService = some n := by
    rw [firstLine, List.find?_range_eq_some]
    refine ⟨by rw [serving, decide_eq_true rfl], List.mem_range.mpr line, ?_⟩
    intro k below
    rw [serving, decide_eq_false (Nat.ne_of_lt below)]
    rfl
  intro k
  unfold endOfInterrupt
  rw [found]
  change setLine p.inService n false k = false
  by_cases same : k = n
  · rw [same, setLine_self]
  · rw [setLine_of_ne _ _ same, serving, decide_eq_false same]

theorem accept_inService (ready : p.Ready base) (idle : p.Idle) (n k : Nat) :
    (p.accept n).inService k = decide (k = n) := by
  change setLine p.inService n (!p.autoEoi) k = _
  by_cases same : k = n
  · rw [same, setLine_self, ready.autoEoi, decide_eq_true rfl]
    rfl
  · rw [setLine_of_ne _ _ same, idle, decide_eq_false same]

end Pic

/-! ### Both chips -/

namespace Pics

variable {p : Pics} {master slave line : Nat}

/-- The processor takes a line. -/
def take (p : Pics) (line : Nat) : Pics :=
  if line < 8 then { p with master := p.master.accept line }
  else { master := p.master.accept 2, slave := p.slave.accept (line - 8) }

/-- The ends of interrupts that a line needs: one for each chip it comes through. -/
def finish (p : Pics) (line : Nat) : Pics :=
  let p := if 8 ≤ line then { p with slave := p.slave.endOfInterrupt } else p
  { p with master := p.master.endOfInterrupt }

theorem order_eq : order = [0, 1] ++ ((List.range 8).map (8 + ·) ++ [3, 4, 5, 6, 7]) := rfl

/-- Of two idle chips the processor gets the first requested line in the order of priorities, with
its vector. -/
theorem acknowledge_idle (ready : p.Ready master slave) (idle : p.Idle) :
    p.acknowledge = (order.find? p.requested).map fun line =>
      (if line < 8 then master + line else slave + (line - 8), p.take line) := by
  have slavePending := Pic.pending_idle ready.slave idle.2
  have cascadedReady : p.cascaded.Ready master :=
    ⟨ready.master.masked, ready.master.base, ready.master.autoEoi, ready.master.expected⟩
  have masterPending : p.cascaded.pending = firstLine p.cascaded.requested :=
    Pic.pending_idle cascadedReady idle.1
  have split : List.range 8 = [0, 1] ++ ([2] ++ [3, 4, 5, 6, 7]) := rfl
  have outside : ∀ n, n < 8 → n ≠ 2 → p.requested n = p.cascaded.requested n := by
    intro n isMaster other
    rw [requested, if_pos isMaster]
    exact (setLine_of_ne p.master.requested _ other).symm
  have low : [0, 1].find? p.requested = [0, 1].find? p.cascaded.requested := by
    simp only [List.find?_cons, List.find?_nil, outside 0 (by decide) (by decide),
      outside 1 (by decide) (by decide)]
  have high : [3, 4, 5, 6, 7].find? p.requested = [3, 4, 5, 6, 7].find? p.cascaded.requested := by
    simp only [List.find?_cons, List.find?_nil, outside 3 (by decide) (by decide),
      outside 4 (by decide) (by decide), outside 5 (by decide) (by decide), outside 6 (by decide) (by decide),
      outside 7 (by decide) (by decide)]
  have behind : ((List.range 8).map (8 + ·)).find? p.requested = p.slave.pending.map (8 + ·) := by
    rw [List.find?_map, slavePending, firstLine]
    congr 2
    funext n
    rw [Function.comp_apply, requested, if_neg (by omega), Nat.add_sub_cancel_left]
  have middle : [2].find? p.cascaded.requested = p.slave.pending.map fun _ => 2 := by
    cases asked : p.slave.pending <;> simp [cascaded, asked, setLine_self]
  rw [acknowledge, masterPending, firstLine, split, List.find?_append, List.find?_append, order_eq,
    List.find?_append, List.find?_append, low, high, behind, middle]
  cases first : [0, 1].find? p.cascaded.requested with
  | some n =>
      have small : n < 2 := by
        have member := List.mem_of_find?_eq_some first
        simp only [List.mem_cons, List.not_mem_nil, or_false] at member
        omega
      simp only [Option.some_or, Option.bind_some, Option.map_some, take, if_neg (show n ≠ 2 by omega),
        if_pos (show n < 8 by omega), ready.master.base]
  | none =>
      cases asked : p.slave.pending with
      | some m =>
          simp only [Option.none_or, Option.map_some, Option.some_or, Option.bind_some, take,
            if_true, if_pos ready.wired, if_neg (show ¬ 8 + m < 8 by omega), ready.slave.base,
            Nat.add_sub_cancel_left]
      | none =>
          simp only [Option.map_none, Option.none_or]
          cases last : [3, 4, 5, 6, 7].find? p.cascaded.requested with
          | none => rfl
          | some n =>
              have member := List.mem_of_find?_eq_some last
              simp only [List.mem_cons, List.not_mem_nil, or_false] at member
              simp only [Option.bind_some, Option.map_some, take, if_neg (show n ≠ 2 by omega),
                if_pos (show n < 8 by omega), ready.master.base]

/-- One line is in service. -/
structure Serving (p : Pics) (line : Nat) : Prop where
  bound : line < 16
  master : ∀ k, p.master.inService k = decide (k = if line < 8 then line else 2)
  slave : ∀ k, p.slave.inService k = decide (8 ≤ line ∧ k = line - 8)

theorem Ready.take (ready : p.Ready master slave) (line : Nat) :
    (p.take line).Ready master slave := by
  unfold Pics.take
  split_ifs
  · exact ⟨ready.master.accept line, ready.slave, ready.wired⟩
  · exact ⟨ready.master.accept 2, ready.slave.accept (line - 8), ready.wired⟩

theorem Ready.finish (ready : p.Ready master slave) (line : Nat) :
    (p.finish line).Ready master slave := by
  have wired : ∀ q : Pic, q.endOfInterrupt.cascade = q.cascade := by
    intro q
    unfold Pic.endOfInterrupt
    split <;> rfl
  unfold Pics.finish
  split_ifs
  · exact ⟨ready.master.endOfInterrupt, ready.slave.endOfInterrupt,
      ⟨(wired _).trans ready.wired.1, (wired _).trans ready.wired.2⟩⟩
  · exact ⟨ready.master.endOfInterrupt, ready.slave, ⟨(wired _).trans ready.wired.1, ready.wired.2⟩⟩

theorem Ready.raise (ready : p.Ready master slave) (line : Nat) :
    (p.raise line).Ready master slave := by
  unfold Pics.raise
  split_ifs
  · exact ⟨⟨ready.master.masked, ready.master.base, ready.master.autoEoi, ready.master.expected⟩,
      ready.slave, ready.wired⟩
  · exact ⟨ready.master, ⟨ready.slave.masked, ready.slave.base, ready.slave.autoEoi,
      ready.slave.expected⟩, ready.wired⟩

theorem Idle.raise (idle : p.Idle) (line : Nat) : (p.raise line).Idle := by
  unfold Pics.raise
  split_ifs
  · exact ⟨idle.1, idle.2⟩
  · exact ⟨idle.1, idle.2⟩

theorem Serving.raise (serving : p.Serving line) (other : Nat) : (p.raise other).Serving line := by
  unfold Pics.raise
  split_ifs
  · exact ⟨serving.bound, serving.master, serving.slave⟩
  · exact ⟨serving.bound, serving.master, serving.slave⟩

/-- The line that the processor takes is the one in service. -/
theorem serving_take (ready : p.Ready master slave) (idle : p.Idle) (bound : line < 16) :
    (p.take line).Serving line := by
  unfold Pics.take
  split_ifs with isMaster
  · refine ⟨bound, fun k => ?_, fun k => ?_⟩
    · rw [if_pos isMaster]
      exact Pic.accept_inService ready.master idle.1 line k
    · rw [decide_eq_false (by omega)]
      exact idle.2 k
  · refine ⟨bound, fun k => ?_, fun k => ?_⟩
    · rw [if_neg isMaster]
      exact Pic.accept_inService ready.master idle.1 2 k
    · have both := Pic.accept_inService ready.slave idle.2 (line - 8) k
      rw [both]
      apply decide_eq_decide.mpr
      omega

/-- The ends of interrupts of the line in service leave nothing in service. -/
theorem Serving.finish (serving : p.Serving line) : (p.finish line).Idle := by
  have bound := serving.bound
  have masterLine : (if line < 8 then line else 2) < 8 := by split_ifs <;> omega
  have masterIdle := Pic.endOfInterrupt_idle masterLine serving.master
  unfold Pics.finish
  split_ifs with isSlave
  · refine ⟨masterIdle, @Pic.endOfInterrupt_idle _ (line - 8) (by omega) fun k => ?_⟩
    rw [serving.slave]
    apply decide_eq_decide.mpr
    omega
  · refine ⟨masterIdle, fun k => ?_⟩
    rw [serving.slave]
    exact decide_eq_false (by omega)

theorem requested_finish (line other : Nat) : (p.finish line).requested other = p.requested other := by
  unfold Pics.finish requested
  split_ifs <;> simp only [Pic.endOfInterrupt_requested]

theorem requested_raise (line other : Nat) :
    (p.raise line).requested other = if other = line then true else p.requested other := by
  unfold Pics.raise requested
  by_cases isMaster : line < 8
  · rw [if_pos isMaster]
    by_cases same : other = line
    · rw [if_pos same, if_pos (by omega), same]
      exact setLine_self _ line true
    · rw [if_neg same]
      exact if_congr Iff.rfl (setLine_of_ne _ true same) rfl
  · rw [if_neg isMaster]
    by_cases same : other = line
    · rw [if_pos same, if_neg (by omega), same]
      exact setLine_self _ (line - 8) true
    · rw [if_neg same]
      by_cases low : other < 8
      · rw [if_pos low, if_pos low]
      · rw [if_neg low, if_neg low]
        exact setLine_of_ne _ true (by omega)

theorem requested_take {other : Nat} (device : other ≠ 2) (line : Nat) :
    (p.take line).requested other = if other = line then false else p.requested other := by
  unfold Pics.take requested
  by_cases isMaster : line < 8
  · rw [if_pos isMaster]
    by_cases same : other = line
    · rw [if_pos same, if_pos (by omega), same]
      exact setLine_self _ line false
    · rw [if_neg same]
      exact if_congr Iff.rfl (setLine_of_ne _ false same) rfl
  · rw [if_neg isMaster]
    by_cases low : other < 8
    · rw [if_pos low, if_pos low, if_neg (by omega)]
      exact setLine_of_ne _ false device
    · rw [if_neg low, if_neg low]
      by_cases same : other = line
      · rw [if_pos same, same]
        exact setLine_self _ (line - 8) false
      · rw [if_neg same]
        exact setLine_of_ne _ false (by omega)

end Pics

end Balloon.Foundation
