import Balloon.Foundation.Processor

/-!
Owns the descriptors of a 32-bit x86 processor as it reads them: a segment in a table of segments
and an interrupt gate in a table of gates, each of eight bytes, and the way of an interrupt through
them. It does not own who writes them.
-/

namespace Balloon.Foundation

namespace Memory

def read16 (m : Memory) (a : Nat) : Nat := (m a).toNat + 0x100 * (m (a + 1)).toNat

def write16 (m : Memory) (a v : Nat) : Memory := (m.write8 a v).write8 (a + 1) (v / 0x100)

theorem write16_outside (m : Memory) {a b : Nat} (v : Nat) (outside : b < a ∨ a + 2 ≤ b) :
    (m.write16 a v) b = m b := by
  unfold write16
  rw [write8_of_ne _ _ (by omega), write8_of_ne _ _ (by omega)]

theorem read16_congr {m m' : Memory} {a : Nat} (low : m' a = m a) (high : m' (a + 1) = m (a + 1)) :
    m'.read16 a = m.read16 a := by
  unfold read16
  rw [low, high]

@[simp] theorem read16_write16_same (m : Memory) (a v : Nat) :
    (m.write16 a v).read16 a = v % 2 ^ 16 := by
  unfold read16 write16
  rw [write8_same, write8_of_ne _ _ (by omega), write8_same, UInt8.toNat_ofNat',
    UInt8.toNat_ofNat']
  omega

theorem read16_write16_of_apart (m : Memory) {a b : Nat} (v : Nat)
    (apart : b + 2 ≤ a ∨ a + 2 ≤ b) : (m.write16 a v).read16 b = m.read16 b :=
  read16_congr (write16_outside m v (by omega)) (write16_outside m v (by omega))

theorem read16_write8 (m : Memory) {a b : Nat} (v : Nat) (apart : a ≠ b ∧ a ≠ b + 1) :
    (m.write8 a v).read16 b = m.read16 b :=
  read16_congr (write8_of_ne m v apart.1.symm) (write8_of_ne m v apart.2.symm)

end Memory

/-- A table of descriptors, as `lgdt` and `lidt` set it. -/
structure Table where
  base : Nat
  limit : Nat
deriving DecidableEq

/-- A 32-bit interrupt gate. -/
structure Gate where
  offset : Nat
  selector : Nat
  dpl : Nat
deriving DecidableEq

/-- A code or data segment that is present. Offsets up to `limit` are inside; `writable` is
`readable` of a code segment. -/
structure MemorySegment where
  base : Nat
  limit : Nat
  code : Bool
  writable : Bool
  dpl : Nat
  wide : Bool
deriving DecidableEq

/-- The gate in eight bytes; other descriptors are `none`. -/
def gateAt (m : Memory) (a : Nat) : Option Gate :=
  if (m (a + 5)).toNat / 0x80 = 1 ∧ (m (a + 5)).toNat % 0x20 = 0xE then
    some
      { offset := m.read16 a + 0x10000 * m.read16 (a + 6)
        selector := m.read16 (a + 2)
        dpl := (m (a + 5)).toNat / 0x20 % 4 }
  else none

/-- The limit in bytes: of a granular segment it counts pages. -/
def scaledLimit (limit : Nat) (granular : Bool) : Nat :=
  if granular then limit * 0x1000 + 0xFFF else limit

def segmentAt (m : Memory) (a : Nat) : Option MemorySegment :=
  if (m (a + 5)).toNat / 0x80 = 1 ∧ (m (a + 5)).toNat / 0x10 % 2 = 1 then
    some
      { base := m.read16 (a + 2) + 0x10000 * (m (a + 4)).toNat + 0x1000000 * (m (a + 7)).toNat
        limit := scaledLimit (m.read16 a + 0x10000 * ((m (a + 6)).toNat % 0x10))
          ((m (a + 6)).toNat / 0x80 = 1)
        code := (m (a + 5)).toNat / 8 % 2 = 1
        writable := (m (a + 5)).toNat / 2 % 2 = 1
        dpl := (m (a + 5)).toNat / 0x20 % 4
        wide := (m (a + 6)).toNat / 0x40 % 2 = 1 }
  else none

/-- The gate of a vector. -/
def gateOf (m : Memory) (idt : Table) (vector : Nat) : Option Gate :=
  if 8 * vector + 7 ≤ idt.limit then gateAt m (idt.base + 8 * vector) else none

/-- The segment of a selector in the global table; the first descriptor is never used. -/
def segmentOf (m : Memory) (gdt : Table) (selector : Nat) : Option MemorySegment :=
  if selector / 4 % 2 = 0 ∧ selector / 8 ≠ 0 ∧ 8 * (selector / 8) + 7 ≤ gdt.limit then
    segmentAt m (gdt.base + 8 * (selector / 8))
  else none

theorem gateAt_congr {m m' : Memory} {a : Nat} (same : ∀ k, k < 8 → m' (a + k) = m (a + k)) :
    gateAt m' a = gateAt m a := by
  have b0 := same 0 (by omega)
  rw [Nat.add_zero] at b0
  simp only [gateAt, Memory.read16, b0, same 1 (by omega), same 2 (by omega), same 5 (by omega),
    same 6 (by omega), Nat.add_assoc, same 3 (by omega), same 7 (by omega)]

theorem segmentAt_congr {m m' : Memory} {a : Nat} (same : ∀ k, k < 8 → m' (a + k) = m (a + k)) :
    segmentAt m' a = segmentAt m a := by
  have b0 := same 0 (by omega)
  rw [Nat.add_zero] at b0
  simp only [segmentAt, Memory.read16, b0, same 1 (by omega), same 2 (by omega), same 4 (by omega),
    same 5 (by omega), same 6 (by omega), Nat.add_assoc, same 3 (by omega), same 7 (by omega)]

/-- Tables that two memories have in common. -/
theorem gateOf_congr {m m' : Memory} {idt : Table}
    (agree : Memory.AgreeOn (fun a => idt.base ≤ a ∧ a ≤ idt.base + idt.limit) m m') (vector : Nat) :
    gateOf m' idt vector = gateOf m idt vector := by
  unfold gateOf
  split
  · apply gateAt_congr
    intro k bound
    exact agree _ (by omega)
  · rfl

theorem segmentOf_congr {m m' : Memory} {gdt : Table}
    (agree : Memory.AgreeOn (fun a => gdt.base ≤ a ∧ a ≤ gdt.base + gdt.limit) m m')
    (selector : Nat) : segmentOf m' gdt selector = segmentOf m gdt selector := by
  unfold segmentOf
  split
  · apply segmentAt_congr
    intro k bound
    exact agree _ (by omega)
  · rfl

/-! ### Interrupts -/

/-- What a processor runs on: its tables, the code at its addresses, and the functions that code
calls. -/
structure Platform (World : Type) where
  gdt : Table
  idt : Table
  codeAt : BitVec 32 → Option (List Instr)
  calls : BitVec 32 → Cpu World → Option (Cpu World)

variable {World : Type} {p : Platform World} {c : Cpu World} {vector : Nat} {gate : Gate}
  {segment : MemorySegment} {code : List Instr}

/-- An interrupt through the gate of its vector, to the end of the code that this leads to; `none`
stands for a fault on the way. The privilege may not change. -/
def Platform.interrupt (p : Platform World) (c : Cpu World) (vector : Nat)
    (errorCode : Option (BitVec 32)) : Option (Cpu World) :=
  (gateOf c.memory p.idt vector).bind fun gate =>
    (segmentOf c.memory p.gdt gate.selector).bind fun segment =>
      if segment.code ∧ segment.dpl = c.cs.toNat % 4 ∧ gate.offset ≤ segment.limit then
        (p.codeAt (BitVec.ofNat 32 (segment.base + gate.offset))).bind fun code =>
          Cpu.run p.calls code (c.deliver (BitVec.ofNat 16 gate.selector)
            (BitVec.ofNat 32 gate.offset) errorCode)
      else none

theorem Platform.interrupt_eq (found : gateOf c.memory p.idt vector = some gate)
    (selected : segmentOf c.memory p.gdt gate.selector = some segment) (isCode : segment.code = true)
    (privilege : segment.dpl = c.cs.toNat % 4) (inside : gate.offset ≤ segment.limit)
    (routine : p.codeAt (BitVec.ofNat 32 (segment.base + gate.offset)) = some code)
    (errorCode : Option (BitVec 32)) :
    p.interrupt c vector errorCode = Cpu.run p.calls code
      (c.deliver (BitVec.ofNat 16 gate.selector) (BitVec.ofNat 32 gate.offset) errorCode) := by
  rw [Platform.interrupt, found, Option.bind_some, selected, Option.bind_some,
    if_pos ⟨isCode, privilege, inside⟩, routine, Option.bind_some]

end Balloon.Foundation
