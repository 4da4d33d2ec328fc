import Mathlib.Data.List.FinRange
import Balloon.Foundation.PciHost
import Balloon.Printf.Lines

/-!
Owns the embedding of pci.c, and what `pci_scan` shows of any set of devices on the first bus.
Offset 0 of a configuration space has the ID of the vendor and offset 2 that of the device, so the
two stand under each other's name, and a slot is empty when it has no ID of a device.
-/

namespace Balloon.Bus

open Balloon.Foundation
open Balloon.Console
open Balloon.Printf

/-! ### The functions -/

def pciReadWord (h : PciHost) (bus slot func offset : UInt16) : UInt16 × PciHost :=
  let lbus := bus.toUInt32
  let lslot := slot.toUInt32
  let lfunc := func.toUInt32
  let address := (lbus <<< 16) ||| (lslot <<< 11) ||| (lfunc <<< 8) |||
    (offset &&& 0xFC).toUInt32 ||| 0x80000000
  let h := h.outl 0x0CF8 address
  (((h.inl 0x0CFC >>> ((offset &&& 2) * 8).toUInt32) &&& 0xFFFF).toUInt16, h)

/-- The host bridge, and what `kprintf` prints on. -/
structure Scan where
  host : PciHost
  output : Output

def pciScanDevice (bus : UInt8) (s : Scan) (device : UInt8) : Option Scan :=
  let (vendor, host) := pciReadWord s.host bus.toUInt16 device.toUInt16 0 2
  if vendor.toUInt32 = 0xFFFF then some { s with host := host }
  else
    let (did, host) := pciReadWord host bus.toUInt16 device.toUInt16 0 0
    (s.output.kprintf "Device: %x, Vendor: %x\n".toList
      [.word did.toUInt32, .word vendor.toUInt32]).map (Scan.mk host)

def pciScanBus (bus : UInt8) (s : Scan) : Option Scan :=
  (List.range 32).foldlM (fun s device => pciScanDevice bus s (UInt8.ofNat device)) s

def pciScan (s : Scan) : Option Scan := pciScanBus 0 s

/-! ### Configuration space -/

/-- Bits below a multiple of a power of two. -/
theorem or_low (a : Nat) {i low : Nat} (small : low < 2 ^ i) :
    a * 2 ^ i ||| low = a * 2 ^ i + low := by
  rw [← Nat.shiftLeft_eq, Nat.shiftLeft_add_eq_or_of_lt small]

/-- The fields of an address do not overlap. -/
theorem address_encode (a : ConfigAddress) :
    ((UInt32.ofNat a.bus <<< 16) ||| (UInt32.ofNat a.slot <<< 11) |||
      (UInt32.ofNat a.function <<< 8) ||| UInt32.ofNat (a.register * 4) ||| 0x80000000) =
      a.encode := by
  apply UInt32.toNat.inj
  rw [a.toNat_encode]
  obtain ⟨⟨b, bLt⟩, ⟨s, sLt⟩, ⟨f, fLt⟩, ⟨r, rLt⟩⟩ := a
  have busBits : (UInt32.ofNat b <<< 16).toNat = b * 2 ^ 16 := by
    rw [UInt32.toNat_shiftLeft, UInt32.toNat_ofNat', Nat.shiftLeft_eq]
    change b % 2 ^ 32 * 2 ^ 16 % 2 ^ 32 = _
    omega
  have slotBits : (UInt32.ofNat s <<< 11).toNat = s * 2 ^ 11 := by
    rw [UInt32.toNat_shiftLeft, UInt32.toNat_ofNat', Nat.shiftLeft_eq]
    change s % 2 ^ 32 * 2 ^ 11 % 2 ^ 32 = _
    omega
  have functionBits : (UInt32.ofNat f <<< 8).toNat = f * 2 ^ 8 := by
    rw [UInt32.toNat_shiftLeft, UInt32.toNat_ofNat', Nat.shiftLeft_eq]
    change f % 2 ^ 32 * 2 ^ 8 % 2 ^ 32 = _
    omega
  have registerBits : (UInt32.ofNat (r * 4)).toNat = r * 4 :=
    UInt32.toNat_ofNat_of_lt' (by dsimp only [UInt32.size]; omega)
  have enabled : (0x80000000 : UInt32).toNat = 1 * 2 ^ 31 := rfl
  simp only [UInt32.toNat_or, busBits, slotBits, functionBits, registerBits, enabled]
  have first : b * 2 ^ 16 ||| s * 2 ^ 11 = (b * 2 ^ 5 + s) * 2 ^ 11 := by
    rw [or_low b (show s * 2 ^ 11 < 2 ^ 16 by omega)]
    omega
  have second : (b * 2 ^ 5 + s) * 2 ^ 11 ||| f * 2 ^ 8 = ((b * 2 ^ 5 + s) * 2 ^ 3 + f) * 2 ^ 8 := by
    rw [or_low _ (show f * 2 ^ 8 < 2 ^ 11 by omega)]
    omega
  have third := or_low ((b * 2 ^ 5 + s) * 2 ^ 3 + f) (show r * 4 < 2 ^ 8 by omega)
  have last := or_low 1 (show ((b * 2 ^ 5 + s) * 2 ^ 3 + f) * 2 ^ 8 + r * 4 < 2 ^ 31 by omega)
  rw [first, second, third, Nat.or_comm, last]
  omega

/-- The two low bits of an offset are masked. -/
theorem offset_aligned {offset : Nat} (small : offset < 256) : offset &&& 0xFC = offset / 4 * 4 := by
  have low : (offset &&& 0xFC) % 2 ^ 2 = 0 := by
    rw [Nat.and_mod_two_pow]
    exact Nat.and_zero _
  have high : (offset &&& 0xFC) / 2 ^ 2 = offset / 2 ^ 2 := by
    rw [Nat.and_div_two_pow]
    exact Nat.and_two_pow_sub_one_of_lt_two_pow (show offset / 2 ^ 2 < 2 ^ 6 by omega)
  omega

/-- The distance that brings the half at an offset down. -/
theorem offset_shift (offset : UInt16) :
    ((offset &&& 2) * 8).toUInt32.toNat = 16 * (offset.toNat / 2 % 2) := by
  have low : (offset.toNat &&& 2) % 2 ^ 1 = 0 := by
    rw [Nat.and_mod_two_pow]
    exact Nat.and_zero _
  have high : (offset.toNat &&& 2) / 2 ^ 1 = offset.toNat / 2 % 2 := by
    rw [Nat.and_div_two_pow]
    exact Nat.and_two_pow_sub_one_eq_mod _ 1
  rw [UInt16.toNat_toUInt32, UInt16.toNat_mul, UInt16.toNat_and]
  change (offset.toNat &&& 2) * 8 % 2 ^ 16 = _
  omega

/-- What `pciReadWord` reads: the half of the register at the offset. -/
theorem pciReadWord_eq (h : PciHost) (a : ConfigAddress) {bus slot func offset : UInt16}
    (isBus : bus.toNat = a.bus) (isSlot : slot.toNat = a.slot) (isFunction : func.toNat = a.function)
    (isOffset : offset.toNat / 4 = a.register) :
    ∃ h', pciReadWord h bus slot func offset =
        (UInt16.ofNat ((h.configOf a).toNat / 2 ^ (16 * (offset.toNat / 2 % 2))), h') ∧
      h'.functions = h.functions := by
  have register : (offset &&& 0xFC).toUInt32 = UInt32.ofNat (a.register * 4) := by
    rw [← UInt32.ofNat_uInt16ToNat, UInt16.toNat_and, ← isOffset]
    exact congrArg UInt32.ofNat (offset_aligned (by omega))
  have address : (bus.toUInt32 <<< 16) ||| (slot.toUInt32 <<< 11) ||| (func.toUInt32 <<< 8) |||
      (offset &&& 0xFC).toUInt32 ||| 0x80000000 = a.encode := by
    rw [register, ← UInt32.ofNat_uInt16ToNat, ← UInt32.ofNat_uInt16ToNat,
      ← UInt32.ofNat_uInt16ToNat, isBus, isSlot, isFunction, address_encode]
  refine ⟨h.outl 0x0CF8 a.encode, ?_, PciHost.functions_outl _ _ _⟩
  have half : 16 * (offset.toNat / 2 % 2) % 32 = 16 * (offset.toNat / 2 % 2) := by omega
  rw [pciReadWord, address, PciHost.inl_outl]
  congr 1
  apply UInt16.toNat.inj
  rw [UInt32.toNat_toUInt16, UInt32.toNat_and, UInt32.toNat_shiftRight, offset_shift, half,
    UInt16.toNat_ofNat', Nat.shiftRight_eq_div_pow]
  change (_ &&& 2 ^ 16 - 1) % 2 ^ 16 = _
  rw [Nat.and_two_pow_sub_one_eq_mod, Nat.mod_mod]

/-! ### Scanning -/

/-- The IDs in the first register of a function. -/
def vendorId (registers : Fin 64 → UInt32) : UInt16 := (idRegister registers).toUInt16

def deviceId (registers : Fin 64 → UInt32) : UInt16 := UInt16.ofNat ((idRegister registers).toNat / 2 ^ 16)

/-- The line of a device, with the values as they come. -/
def deviceLine (did vendor : UInt16) : List Char :=
  "Device: ".toList ++ (hexText did.toNat ++ (", Vendor: ".toList ++ hexText vendor.toNat))

/-- What the scan shows of a slot of the first bus. -/
def slotLine (h : PciHost) (slot : Fin 32) : Option (List Char) :=
  (h.firstFunction slot).bind fun registers =>
    if deviceId registers = 0xFFFF then none
    else some (deviceLine (vendorId registers) (deviceId registers))

def deviceCall (did vendor : UInt16) : Call where
  pieces := literal "Device: ".toList (by decide) ++ directly (.number .hex) ::
    (literal ", Vendor: ".toList (by decide) ++ directly (.number .hex) ::
      literal ['\n'] plain_newline)
  args := [.word did.toUInt32, .word vendor.toUInt32]

theorem deviceCall_printsLines (did vendor : UInt16) :
    PrintsLines (deviceCall did vendor) [deviceLine did vendor] := by
  have didWord : did.toNat < 2 ^ 32 := by
    have bound := did.toNat_lt
    omega
  have vendorWord : vendor.toNat < 2 ^ 32 := by
    have bound := vendor.toNat_lt
    omega
  apply printsLine
  · exact (shortStrings_nil.word _).word _
  · rw [deviceCall, render_literal, render_hex, render_literal, render_hex, render_end,
      UInt16.toNat_toUInt32, UInt16.toNat_toUInt32]
    have whole : deviceLine did vendor ++ ['\n'] = "Device: ".toList ++
        (hexText did.toNat ++ (", Vendor: ".toList ++ (hexText vendor.toNat ++ ['\n']))) := by
      change ("Device: ".toList ++
        (hexText did.toNat ++ (", Vendor: ".toList ++ hexText vendor.toNat))) ++ ['\n'] = _
      rw [List.append_assoc, List.append_assoc, List.append_assoc]
    exact congrArg (fun line => some (line, [])) whole.symm
  · have start : Visible 8 "Device: ".toList := .of_all (by decide) (by decide)
    have middle : Visible 10 ", Vendor: ".toList := .of_all (by decide) (by decide)
    have behind := middle.append (visible_hexText vendorWord) (Nat.le_refl 18)
    exact start.append ((visible_hexText didWord).append behind (Nat.le_refl 26)) (by decide)

variable {s : Scan} {before : List (List UInt8)}

theorem pciReadWord_ids (h : PciHost) (slot : Fin 32) :
    (∃ h', pciReadWord h (UInt8.toUInt16 0) (UInt8.ofNat slot).toUInt16 0 2 =
        ((h.firstFunction slot).elim 0xFFFF deviceId, h') ∧ h'.functions = h.functions) ∧
      ∃ h', pciReadWord h (UInt8.toUInt16 0) (UInt8.ofNat slot).toUInt16 0 0 =
        ((h.firstFunction slot).elim 0xFFFF vendorId, h') ∧ h'.functions = h.functions := by
  have isSlot : (UInt8.ofNat slot).toUInt16.toNat = (slot : Nat) := by
    rw [UInt8.toNat_toUInt16, UInt8.toNat_ofNat']
    omega
  obtain ⟨h₂, second, same₂⟩ := @pciReadWord_eq h ⟨0, slot, 0, 0⟩ (UInt8.toUInt16 0)
    (UInt8.ofNat slot).toUInt16 0 2 rfl isSlot rfl rfl
  obtain ⟨h₀, first, same₀⟩ := @pciReadWord_eq h ⟨0, slot, 0, 0⟩ (UInt8.toUInt16 0)
    (UInt8.ofNat slot).toUInt16 0 0 rfl isSlot rfl rfl
  refine ⟨⟨h₂, ?_, same₂⟩, h₀, ?_, same₀⟩
  · rw [second, PciHost.configOf_first]
    cases h.firstFunction slot <;> rfl
  · rw [first, PciHost.configOf_first]
    cases h.firstFunction slot with
    | none => rfl
    | some registers =>
        congr 1
        apply UInt16.toNat.inj
        change ((idRegister registers).toNat / 1) % 2 ^ 16 = (idRegister registers).toUInt16.toNat
        rw [Nat.div_one, UInt32.toNat_toUInt16]

/-- A slot adds its line, if it has one, and leaves the devices as they are. -/
theorem pciScanDevice_shows (slot : Fin 32) (shows : s.output.screen.Shows before) :
    ∃ s', pciScanDevice 0 s (UInt8.ofNat slot) = some s' ∧
      s'.host.functions = s.host.functions ∧
      s'.output.screen.Shows (before ++ (slotLine s.host slot).toList.map (·.map byteOf)) := by
  obtain ⟨host, vendorRead, same⟩ := (pciReadWord_ids s.host slot).1
  obtain ⟨host', didRead, same'⟩ := (pciReadWord_ids host slot).2
  have empty_iff (vendor : UInt16) : vendor.toUInt32 = 0xFFFF ↔ vendor = 0xFFFF := by
    rw [← UInt32.toNat_inj, ← UInt16.toNat_inj, UInt16.toNat_toUInt32]
    rfl
  rw [PciHost.firstFunction_congr same] at didRead
  rw [pciScanDevice, vendorRead, slotLine]
  dsimp only
  rw [didRead]
  dsimp only
  cases s.host.firstFunction slot with
  | none =>
      refine ⟨{ s with host := host }, if_pos rfl, same, ?_⟩
      rwa [Option.bind_none, Option.toList_none, List.map_nil, List.append_nil]
  | some registers =>
      rw [Option.elim_some, Option.elim_some, Option.bind_some]
      by_cases isEmpty : deviceId registers = 0xFFFF
      · refine ⟨{ s with host := host }, if_pos ((empty_iff _).mpr isEmpty), same, ?_⟩
        rwa [if_pos isEmpty, Option.toList_none, List.map_nil, List.append_nil]
      · obtain ⟨o', printed, after⟩ :=
          (deviceCall_printsLines (vendorId registers) (deviceId registers)).shows shows
        have line : s.output.kprintf "Device: %x, Vendor: %x\n".toList
            [.word (vendorId registers).toUInt32, .word (deviceId registers).toUInt32] = some o' :=
          printed
        refine ⟨⟨host', o'⟩, ?_, same'.trans same, ?_⟩
        · rw [if_neg (mt (empty_iff _).mp isEmpty), line, Option.map_some]
        · rwa [if_neg isEmpty, Option.toList_some, List.map_singleton]

/-- The slots of a list, one after the other. -/
theorem pciScanSlots_show (slots : List (Fin 32)) (shows : s.output.screen.Shows before) :
    ∃ s', (slots.map Fin.val).foldlM (fun s device => pciScanDevice 0 s (UInt8.ofNat device)) s =
        some s' ∧ s'.host.functions = s.host.functions ∧
      s'.output.screen.Shows
        (before ++ (slots.filterMap (slotLine s.host)).map (·.map byteOf)) := by
  induction slots generalizing s before with
  | nil => exact ⟨s, rfl, rfl, by rwa [List.filterMap_nil, List.map_nil, List.append_nil]⟩
  | cons slot slots inductionHypothesis =>
      obtain ⟨s₁, scanned, same, shows₁⟩ := pciScanDevice_shows slot shows
      obtain ⟨s₂, scannedRest, same', shows₂⟩ := inductionHypothesis shows₁
      have lines : slotLine s₁.host = slotLine s.host := by
        funext other
        rw [slotLine, PciHost.firstFunction_congr same, slotLine]
      refine ⟨s₂, ?_, same'.trans same, ?_⟩
      · rw [List.map_cons, List.foldlM_cons, scanned]
        exact scannedRest
      · rw [lines, List.append_assoc, ← List.map_append] at shows₂
        cases here : slotLine s.host slot with
        | none =>
            rw [List.filterMap_cons_none here]
            rwa [here] at shows₂
        | some line =>
            rw [List.filterMap_cons_some here]
            rwa [here] at shows₂

/-- Whatever devices are on the buses, `pci_scan` shows one line for each slot of the first bus that
has the ID of a device, in the order of the slots, and leaves the devices as they are. -/
theorem pciScan_shows (shows : s.output.screen.Shows before) :
    ∃ s', pciScan s = some s' ∧ s'.host.functions = s.host.functions ∧
      s'.output.screen.Shows
        (before ++ ((List.finRange 32).filterMap (slotLine s.host)).map (·.map byteOf)) := by
  have scanned := pciScanSlots_show (List.finRange 32) shows
  rwa [List.map_coe_finRange_eq_range] at scanned

/-- One network card in slot 3. -/
theorem pciScan_shows_card :
    ∃ s', pciScan ⟨⟨0, fun _ slot function =>
          if slot = 3 ∧ function = 0 then some fun _ => 0x813910EC else none⟩,
        ⟨fun _ => '\x00', (Screen.initial fun _ => 0#16).consoleClear⟩⟩ = some s' ∧
      s'.host.functions 0 3 0 = some (fun _ => 0x813910EC) ∧
      s'.output.screen.Shows ([] ++ ["Device: 10ec, Vendor: 8139".toList.map byteOf]) := by
  obtain ⟨s', scanned, same, shows⟩ := @pciScan_shows ⟨⟨0, fun _ slot function =>
      if slot = 3 ∧ function = 0 then some fun _ => 0x813910EC else none⟩,
    ⟨fun _ => '\x00', (Screen.initial fun _ => 0#16).consoleClear⟩⟩ [] (Screen.shows_consoleClear _)
  refine ⟨s', scanned, ?_, ?_⟩
  · rw [same]
    rfl
  · have only : (List.finRange 32).filterMap (slotLine ⟨0, fun _ slot function =>
        if slot = 3 ∧ function = 0 then some fun _ => 0x813910EC else none⟩) =
        ["Device: 10ec, Vendor: 8139".toList] := by decide
    rw [only] at shows
    exact shows

end Balloon.Bus
