import Mathlib.Algebra.Group.Nat.Defs
import Mathlib.Algebra.Group.Int.Defs
import Mathlib.Tactic.SplitIfs

/-!
Owns the host bridge of PCI behind its two ports: the addresses of configuration space with their
round trip, and what a read of the data register returns. Reads change nothing.
-/

namespace Balloon.Foundation

/-- A register of 32 bits in configuration space. -/
structure ConfigAddress where
  bus : Fin 256
  slot : Fin 32
  function : Fin 8
  register : Fin 64

namespace ConfigAddress

/-- The word that selects the register; bit 31 enables the bridge. -/
def encode (a : ConfigAddress) : UInt32 :=
  UInt32.ofNat (2 ^ 31 + (a.bus * 2 ^ 16 + (a.slot * 2 ^ 11 + (a.function * 2 ^ 8 + a.register * 4))))

def decode (word : UInt32) : Option ConfigAddress :=
  if 2 ^ 31 ≤ word.toNat then
    some
      { bus := Fin.ofNat 256 (word.toNat / 2 ^ 16)
        slot := Fin.ofNat 32 (word.toNat / 2 ^ 11)
        function := Fin.ofNat 8 (word.toNat / 2 ^ 8)
        register := Fin.ofNat 64 (word.toNat / 4) }
  else none

theorem toNat_encode (a : ConfigAddress) : a.encode.toNat =
    2 ^ 31 + (a.bus * 2 ^ 16 + (a.slot * 2 ^ 11 + (a.function * 2 ^ 8 + a.register * 4))) := by
  obtain ⟨bus, slot, function, register⟩ := a
  exact UInt32.toNat_ofNat_of_lt' (by dsimp only [UInt32.size]; omega)

/-- The bridge selects the register that is meant. -/
theorem decode_encode (a : ConfigAddress) : decode a.encode = some a := by
  have word := a.toNat_encode
  obtain ⟨bus, slot, function, register⟩ := a
  dsimp only at word
  rw [decode, if_pos (by omega)]
  congr 2
  all_goals
    apply Fin.ext
    simp only [Fin.ofNat]
    omega

end ConfigAddress

/-- The address register and the functions on the buses, each with its configuration space. -/
structure PciHost where
  address : UInt32
  functions : Fin 256 → Fin 32 → Fin 8 → Option (Fin 64 → UInt32)

/-- The register with the IDs. -/
def idRegister (registers : Fin 64 → UInt32) : UInt32 := registers 0

namespace PciHost

/-- The first function in a slot of the first bus. -/
def firstFunction (h : PciHost) (slot : Fin 32) : Option (Fin 64 → UInt32) := h.functions 0 slot 0

def outl (h : PciHost) (port : UInt16) (data : UInt32) : PciHost :=
  if port = 0x0CF8 then { h with address := data } else h

/-- The value of a register; a function that is not there leaves all lines high. -/
def configOf (h : PciHost) (a : ConfigAddress) : UInt32 :=
  (h.functions a.bus a.slot a.function).elim 0xFFFFFFFF fun registers => registers a.register

theorem firstFunction_congr {h h' : PciHost} (same : h'.functions = h.functions) :
    h'.firstFunction = h.firstFunction := by
  funext slot
  rw [firstFunction, same, firstFunction]

theorem configOf_first (h : PciHost) (slot : Fin 32) :
    h.configOf ⟨0, slot, 0, 0⟩ = (h.firstFunction slot).elim 0xFFFFFFFF idRegister := rfl

def inl (h : PciHost) (port : UInt16) : UInt32 :=
  if port = 0x0CFC then (ConfigAddress.decode h.address).elim 0xFFFFFFFF h.configOf
  else 0xFFFFFFFF

/-- Through the two ports one reads the register one has selected. -/
theorem inl_outl (h : PciHost) (a : ConfigAddress) :
    (h.outl 0x0CF8 a.encode).inl 0x0CFC = h.configOf a := by
  rw [outl, if_pos rfl, inl, if_pos rfl, ConfigAddress.decode_encode]
  rfl

@[simp] theorem functions_outl (h : PciHost) (port : UInt16) (data : UInt32) :
    (h.outl port data).functions = h.functions := by
  unfold outl
  split_ifs <;> rfl

end PciHost

end Balloon.Foundation
