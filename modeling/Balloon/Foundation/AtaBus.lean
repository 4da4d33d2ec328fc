import Mathlib.Algebra.Group.Nat.Defs
import Mathlib.Algebra.Group.Int.Defs
import Mathlib.Tactic.SplitIfs

/-!
Owns the drives of an ATA interface as their registers show them: how a drive is selected, what the
two IDENTIFY commands make it do, and how its time passes. Behind a command a drive is busy; a read
of a register takes one unit of time. A place without a drive shows the same value in all registers.
-/

namespace Balloon.Foundation

/-- A drive. A packet drive refuses IDENTIFY DEVICE and shows its signature, a serial one that of
serial drives. -/
structure AtaDrive where
  packet : Bool
  serial : Bool
  identity : Vector UInt16 256
  time : UInt8 → Nat
  busyStatus : UInt8
  isBusy : busyStatus &&& 0x80 ≠ 0
  noError : busyStatus &&& 0x01 = 0

/-- The words that are left to be read, or a command that the drive has refused. -/
inductive AtaPhase where
  | data (words : List UInt16)
  | refused

/-- The phase shows when the drive is no longer busy. -/
structure AtaState where
  wait : Nat
  phase : AtaPhase

/-- The words that a data register has to offer. -/
def AtaState.offered (s : AtaState) : List UInt16 :=
  if s.wait ≠ 0 then []
  else
    match s.phase with
    | .data words => words
    | .refused => []

inductive AtaSlot where
  | drive (d : AtaDrive)
  | absent (lines : UInt8)

/-- Two channels with two places each. `pace` is how much time a millisecond has, and `decode` the
register of a command block that a port leads to. -/
structure AtaBus where
  slots : Fin 2 → Fin 2 → AtaSlot
  states : Fin 2 → Fin 2 → AtaState
  selected : Fin 2 → Fin 2
  pace : Nat
  decode : UInt16 → Option (Fin 2 × Fin 8)

namespace AtaDrive

/-- The drive takes a command when it is not busy. -/
def accept (d : AtaDrive) (command : UInt8) (s : AtaState) : AtaState :=
  if s.wait ≠ 0 then s
  else
    { wait := d.time command
      phase :=
        if command = (if d.packet then 0xA1 else 0xEC) then .data d.identity.toList else .refused }

def status (d : AtaDrive) (s : AtaState) : UInt8 :=
  if s.wait ≠ 0 then d.busyStatus
  else
    match s.phase with
    | .data [] => 0x50
    | .data (_ :: _) => 0x58
    | .refused => 0x41

/-- What the registers for the middle and the high part of an address show. -/
def signature (d : AtaDrive) : UInt8 × UInt8 :=
  if d.packet then if d.serial then (0x69, 0x96) else (0x14, 0xEB) else (0, 0)

/-- A word of the identification; 32 bits have their low word first. -/
def word (d : AtaDrive) (k : Nat) : UInt16 := d.identity.toList.getD k 0

def dword (d : AtaDrive) (k : Nat) : UInt32 :=
  UInt32.ofNat ((d.word k).toNat + 2 ^ 16 * (d.word (k + 1)).toNat)

/-- A text, whose words have the first character in their high byte. -/
def text (d : AtaDrive) (first count : Nat) : List UInt8 :=
  (List.range count).flatMap fun k =>
    [(d.word (first + k) >>> 8).toUInt8, (d.word (first + k)).toUInt8]

end AtaDrive

def AtaSlot.value (slot : AtaSlot) (s : AtaState) (reg : Fin 8) : UInt8 :=
  match slot with
  | .absent lines => lines
  | .drive d =>
      if reg.val = 7 then d.status s
      else if reg.val = 4 then d.signature.1
      else if reg.val = 5 then d.signature.2
      else 0

/-- What a command does to a place. -/
def AtaSlot.accept (slot : AtaSlot) (command : UInt8) (s : AtaState) : AtaState :=
  match slot with
  | .absent _ => s
  | .drive d => d.accept command s

/-- The state some time later. -/
def AtaState.later (s : AtaState) (n : Nat) : AtaState := { s with wait := s.wait - n }

namespace AtaBus

def setState (b : AtaBus) (c j : Fin 2) (s : AtaState) : AtaBus :=
  { b with states := fun c' j' => if c' = c ∧ j' = j then s else b.states c' j' }

def pass (b : AtaBus) (n : Nat) : AtaBus :=
  { b with states := fun c j => (b.states c j).later n }

def inb (b : AtaBus) (port : UInt16) : UInt8 × AtaBus :=
  match b.decode port with
  | none => (0xFF, b)
  | some (c, reg) =>
      ((b.slots c (b.selected c)).value (b.states c (b.selected c)) reg, b.pass 1)

/-- A write selects a drive, or gives the selected one a command. -/
def outb (b : AtaBus) (port : UInt16) (data : UInt8) : AtaBus :=
  match b.decode port with
  | none => b
  | some (c, reg) =>
      if reg.val = 6 then
        let j : Fin 2 := if data &&& 0x10 = 0 then ⟨0, Nat.zero_lt_two⟩ else ⟨1, Nat.one_lt_two⟩
        { b with selected := fun c' => if c' = c then j else b.selected c' }
      else if reg.val = 7 then
        b.setState c (b.selected c)
          ((b.slots c (b.selected c)).accept data (b.states c (b.selected c)))
      else b

/-- A read of a data register. -/
def inw (b : AtaBus) (port : UInt16) : UInt16 × AtaBus :=
  match b.decode port with
  | none => (0xFFFF, b)
  | some (c, reg) =>
      match b.slots c (b.selected c), (b.states c (b.selected c)).offered with
      | .drive _, word :: words =>
          if reg.val = 0 then (word, b.setState c (b.selected c) ⟨0, .data words⟩) else (0xFFFF, b)
      | _, _ => (0xFFFF, b)

/-- The words that `count` reads get. -/
def inws (b : AtaBus) (port : UInt16) : Nat → List UInt16 × AtaBus
  | 0 => ([], b)
  | count + 1 =>
      let (word, b) := b.inw port
      let (words, b) := inws b port count
      (word :: words, b)

/-! ### One drive at a time -/

/-- One place is selected and in this state; of the other places none is busy. -/
structure Focus (cfg b : AtaBus) (c j : Fin 2) (s : AtaState) : Prop where
  slots : b.slots = cfg.slots
  decode : b.decode = cfg.decode
  pace : b.pace = cfg.pace
  selected : b.selected c = j
  state : b.states c j = s
  others : ∀ c' j', ¬ (c' = c ∧ j' = j) → (b.states c' j').wait = 0

/-- No drive is busy. -/
structure Ready (cfg b : AtaBus) : Prop where
  slots : b.slots = cfg.slots
  decode : b.decode = cfg.decode
  pace : b.pace = cfg.pace
  idle : ∀ c j, (b.states c j).wait = 0

variable {cfg b : AtaBus} {c j : Fin 2} {s : AtaState} {port : UInt16}

theorem Focus.pass (focus : Focus cfg b c j s) (n : Nat) :
    Focus cfg (b.pass n) c j (s.later n) where
  slots := focus.slots
  decode := focus.decode
  pace := focus.pace
  selected := focus.selected
  state := by
    have state := focus.state
    simp only [AtaBus.pass, state]
  others := by
    intro c' j' other
    have idle := focus.others c' j' other
    simp only [AtaBus.pass, AtaState.later, idle, Nat.zero_sub]

theorem Focus.ready (focus : Focus cfg b c j s) (done : s.wait = 0) : Ready cfg b where
  slots := focus.slots
  decode := focus.decode
  pace := focus.pace
  idle := by
    intro c' j'
    by_cases same : c' = c ∧ j' = j
    · rw [same.1, same.2, focus.state, done]
    · exact focus.others c' j' same

/-- Selecting a drive. -/
theorem Ready.select (ready : Ready cfg b) (decoded : cfg.decode port = some (c, 6))
    {data : UInt8} (isPlace : (if data &&& 0x10 = 0 then 0 else 1) = j) :
    ∃ s, Focus cfg (b.outb port data) c j s ∧ s.wait = 0 := by
  refine ⟨b.states c j, ?_, ready.idle c j⟩
  rw [← ready.decode] at decoded
  rw [outb, decoded]
  dsimp only
  have place : (if data &&& 0x10 = 0 then (⟨0, Nat.zero_lt_two⟩ : Fin 2)
      else ⟨1, Nat.one_lt_two⟩) = j := isPlace
  rw [if_pos (show (6 : Fin 8).val = 6 from rfl), place]
  exact ⟨ready.slots, ready.decode, ready.pace, if_pos rfl, rfl, fun c' j' _ => ready.idle c' j'⟩

theorem Focus.setState (focus : Focus cfg b c j s) (s' : AtaState) :
    Focus cfg (b.setState c j s') c j s' where
  slots := focus.slots
  decode := focus.decode
  pace := focus.pace
  selected := focus.selected
  state := if_pos ⟨rfl, rfl⟩
  others := by
    intro c' j' other
    rw [AtaBus.setState]
    dsimp only
    rw [if_neg other]
    exact focus.others c' j' other

/-- A command for the selected place. -/
theorem Focus.command (focus : Focus cfg b c j s) (decoded : cfg.decode port = some (c, 7))
    (command : UInt8) :
    Focus cfg (b.outb port command) c j ((cfg.slots c j).accept command s) := by
  rw [← focus.decode] at decoded
  rw [outb, decoded]
  dsimp only
  rw [if_neg (by decide), if_pos (show (7 : Fin 8).val = 7 from rfl), focus.selected, focus.slots, focus.state]
  exact focus.setState _

/-- A register of the selected place. -/
theorem Focus.inb (focus : Focus cfg b c j s) {reg : Fin 8} (decoded : cfg.decode port = some (c, reg)) :
    b.inb port = ((cfg.slots c j).value s reg, b.pass 1) := by
  rw [← focus.decode] at decoded
  rw [AtaBus.inb, decoded]
  dsimp only
  rw [focus.selected, focus.slots, focus.state]

theorem Focus.inw {d : AtaDrive} (isDrive : cfg.slots c j = .drive d)
    (decoded : cfg.decode port = some (c, 0)) {word : UInt16} {words : List UInt16}
    (focus : Focus cfg b c j ⟨0, .data (word :: words)⟩) :
    b.inw port = (word, b.setState c j ⟨0, .data words⟩) := by
  rw [← focus.decode] at decoded
  rw [AtaBus.inw, decoded]
  dsimp only
  rw [focus.selected, focus.slots, focus.state, isDrive]
  rfl

/-- All the words that a drive has. -/
theorem Focus.inws {d : AtaDrive} (isDrive : cfg.slots c j = .drive d)
    (decoded : cfg.decode port = some (c, 0)) {words : List UInt16}
    (focus : Focus cfg b c j ⟨0, .data words⟩) :
    ∃ b', b.inws port words.length = (words, b') ∧ Focus cfg b' c j ⟨0, .data []⟩ := by
  induction words generalizing b with
  | nil => exact ⟨b, rfl, focus⟩
  | cons word words inductionHypothesis =>
      obtain ⟨b', read, after⟩ := inductionHypothesis (focus.setState ⟨0, .data words⟩)
      refine ⟨b', ?_, after⟩
      rw [List.length_cons, AtaBus.inws, focus.inw isDrive decoded]
      dsimp only
      rw [read]

end AtaBus

end Balloon.Foundation
