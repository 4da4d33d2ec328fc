import Balloon.Disc.Ide

/-!
Owns what `ide_initialize` makes of the drives of a bus. A drive is found whatever it is, as long
as it is not busy longer than the loop waits, and a packet drive identifies itself within the
millisecond that `ide_initialize` sleeps; an empty place shows nothing, or an error.
-/

namespace Balloon.Disc

open Balloon.Foundation
open Balloon.Printf

/-- The ports of the channels lead to the command blocks; their control ports do not. -/
structure Wired (channels : Vector Channel 2) (cfg : AtaBus) : Prop where
  command : ∀ (c : Fin 2) (reg : UInt8), reg < 0x08 →
    cfg.decode ((channels.get c).base + reg.toUInt16) = some (c, Fin.ofNat 8 reg.toNat)
  control : ∀ c : Fin 2, cfg.decode ((channels.get c).ctrl + 0x02) = none

variable {cfg : AtaBus} {channels : Vector Channel 2} {d : Driver} {i j : Fin 2} {s : AtaState}
  {a : AtaDrive}

/-! ### Registers -/

theorem Channel.port_command (c : Channel) {reg : UInt8} (small : reg < 0x08) :
    c.port reg = some (c.base + reg.toUInt16) := by
  rw [Channel.port, if_pos small, UInt16.sub_zero]

namespace Driver

theorem unshadowed {reg : UInt8} (small : reg < 0x08) : ¬ (reg > 0x07 ∧ reg < 0x0C) := by
  rintro ⟨high, -⟩
  rw [gt_iff_lt, UInt8.lt_iff_toNat_lt] at high
  rw [UInt8.lt_iff_toNat_lt] at small
  change 7 < reg.toNat at high
  change reg.toNat < 8 at small
  omega

def withBus (d : Driver) (bus : AtaBus) : Driver := { d with bus := bus }

theorem ideWrite_command (d : Driver) (channel : Fin 2) {reg : UInt8} (small : reg < 0x08)
    (data : UInt8) : d.ideWrite channel reg data =
      d.withBus (d.bus.outb ((d.channels.get channel).base + reg.toUInt16) data) := by
  rw [ideWrite, if_neg (unshadowed small), outb, Channel.port_command _ small]
  rfl

theorem ideWrite_control (wired : Wired d.channels cfg) (decode : d.bus.decode = cfg.decode)
    (channel : Fin 2) (data : UInt8) : d.ideWrite channel ataRegControl data = d := by
  have port : (d.channels.get channel).port ataRegControl = some ((d.channels.get channel).ctrl + 0x02) := by
    rw [Channel.port, if_neg (by decide), if_neg (by decide), if_pos (by decide),
      UInt16.sub_eq_add_neg, UInt16.add_assoc]
    rfl
  have nowhere := wired.control channel
  rw [← decode] at nowhere
  rw [ideWrite, if_neg (by decide), outb, port, Option.elim_some, AtaBus.outb, nowhere]

theorem ideRead_command (d : Driver) (channel : Fin 2) {reg : UInt8} (small : reg < 0x08) :
    d.ideRead channel reg =
      some ((d.bus.inb ((d.channels.get channel).base + reg.toUInt16)).1,
        d.withBus (d.bus.inb ((d.channels.get channel).base + reg.toUInt16)).2) := by
  have low := decide_eq_false (unshadowed small)
  simp only [ideRead, low, Channel.port_command _ small, Option.map_some, Bool.false_eq_true,
    if_false, withBus]

/-- A register of the place in question. -/
theorem ideRead_focus (wired : Wired d.channels cfg) (focus : AtaBus.Focus cfg d.bus i j s)
    {reg : UInt8} (small : reg < 0x08) :
    d.ideRead i reg =
      some ((cfg.slots i j).value s (Fin.ofNat 8 reg.toNat), d.withBus (d.bus.pass 1)) := by
  rw [ideRead_command d i small, focus.inb (wired.command i reg small)]

/-- A register of a place that is not busy. -/
theorem ideRead_idle (wired : Wired d.channels cfg) {phase : AtaPhase}
    (focus : AtaBus.Focus cfg d.bus i j ⟨0, phase⟩) {reg : UInt8} (small : reg < 0x08) :
    ∃ bus, d.ideRead i reg =
        some ((cfg.slots i j).value ⟨0, phase⟩ (Fin.ofNat 8 reg.toNat), d.withBus bus) ∧
      AtaBus.Focus cfg bus i j ⟨0, phase⟩ :=
  ⟨_, ideRead_focus wired focus small, focus.pass 1⟩

/-- The loop waits for the end of the command. -/
theorem identifyLoop_drive (wired : Wired d.channels cfg) (isDrive : cfg.slots i j = .drive a)
    {err : Bool} (answer : a.status ⟨0, s.phase⟩ = if err then 0x41 else 0x58) {fuel : Nat}
    (enough : s.wait < fuel) (focus : AtaBus.Focus cfg d.bus i j s) :
    ∃ bus, identifyLoop i fuel d = some (err, d.withBus bus) ∧
      AtaBus.Focus cfg bus i j ⟨0, s.phase⟩ := by
  induction fuel generalizing d s with
  | zero => exact absurd enough (Nat.not_lt_zero _)
  | succ fuel inductionHypothesis =>
      have shown : (cfg.slots i j).value s 7 = a.status s := by
        rw [isDrive]
        rfl
      have read := ideRead_focus wired focus (show ataRegStatus < 0x08 by decide)
      rw [show Fin.ofNat 8 ataRegStatus.toNat = 7 from rfl, shown] at read
      have next := focus.pass 1
      by_cases busy : s.wait = 0
      · have status : a.status s = if err then 0x41 else 0x58 := by
          rw [← answer, ← busy]
        refine ⟨d.bus.pass 1, ?_, ?_⟩
        · rw [identifyLoop, read, Option.bind_some, status]
          cases err <;> rfl
        · rwa [AtaState.later, busy, Nat.zero_sub] at next
      · have status : a.status s = a.busyStatus := if_pos busy
        obtain ⟨bus, looped, after⟩ := @inductionHypothesis (d.withBus (d.bus.pass 1))
          (s.later 1) wired answer (by
            dsimp only [AtaState.later]
            omega) next
        refine ⟨bus, ?_, after⟩
        rw [identifyLoop, read, Option.bind_some, status]
        dsimp only
        rw [if_neg (not_not.mpr a.noError), if_neg fun free => a.isBusy free.1]
        exact looped

end Driver

/-! ### Identification -/

/-- The entry of `ide_devices` for a drive. -/
def recordOf (a : AtaDrive) (i j : Fin 2) : IdeRecord where
  reserved := 1
  type := if a.packet then ideAtapi else ideAta
  channel := i
  drive := UInt8.ofNat j.val
  signature := a.word 0
  capabilities := a.word 49
  commandSets := a.dword 82
  size := if a.dword 82 &&& ((1 : UInt32) <<< 26) ≠ 0 then a.dword 100 else a.dword 60
  model := a.text 27 20 ++ [0]

theorem getD_portBytes (words : List UInt16) (k : Nat) :
    (words.flatMap Driver.portBytes).getD (2 * k) 0 = (words.getD k 0).toUInt8 ∧
      (words.flatMap Driver.portBytes).getD (2 * k + 1) 0 = (words.getD k 0 >>> 8).toUInt8 := by
  induction words generalizing k with
  | nil => exact ⟨by simp, by simp⟩
  | cons word words inductionHypothesis =>
      cases k with
      | zero => exact ⟨rfl, rfl⟩
      | succ k =>
          have rest := inductionHypothesis k
          rw [show 2 * (k + 1) = 2 * k + 1 + 1 by omega]
          exact rest

theorem length_portBytes (words : List UInt16) :
    (words.flatMap Driver.portBytes).length = 2 * words.length := by
  induction words with
  | nil => rfl
  | cons word words inductionHypothesis =>
      rw [List.flatMap_cons, List.length_append, inductionHypothesis, List.length_cons]
      change 2 + 2 * words.length = _
      omega

/-- `ide_buf` with the identification of a drive. -/
structure Identified (a : AtaDrive) (buf : Memory) : Prop where
  low : ∀ k, k < 256 → buf (2 * k) = (a.word k).toUInt8
  high : ∀ k, k < 256 → buf (2 * k + 1) = (a.word k >>> 8).toUInt8

theorem identified_storeBytes (a : AtaDrive) (buf : Memory) :
    Identified a (buf.storeBytes 0 (a.identity.toList.flatMap Driver.portBytes)) := by
  have length := length_portBytes a.identity.toList
  have words : a.identity.toList.length = 256 := by simp
  constructor
  · intro k inside
    rw [Memory.storeBytes_inside _ (by omega)]
    exact (getD_portBytes _ k).1
  · intro k inside
    rw [Memory.storeBytes_inside _ (by omega)]
    exact (getD_portBytes _ k).2

variable {buf : Memory}

theorem halves (word : UInt16) :
    word.toUInt8.toNat + 2 ^ 8 * (word >>> 8).toUInt8.toNat = word.toNat := by
  have bound := word.toNat_lt
  rw [UInt16.toNat_toUInt8, UInt16.toNat_toUInt8, UInt16.toNat_shiftRight,
    Nat.shiftRight_eq_div_pow]
  change word.toNat % 2 ^ 8 + 2 ^ 8 * (word.toNat / 2 ^ 8 % 2 ^ 8) = _
  omega

theorem Identified.shortAt (identified : Identified a buf) {k : Nat} (inside : k < 256) :
    shortAt buf (2 * k) = a.word k := by
  rw [Disc.shortAt, identified.low k inside, identified.high k inside, halves, UInt16.ofNat_toNat]

theorem Identified.intAt (identified : Identified a buf) {k : Nat} (inside : k + 1 < 256) :
    intAt buf (2 * k) = a.dword k := by
  have low := halves (a.word k)
  have high := halves (a.word (k + 1))
  rw [Disc.intAt, AtaDrive.dword]
  congr 1
  rw [Memory.read32, identified.low k (by omega), identified.high k (by omega),
    show 2 * k + 2 = 2 * (k + 1) by omega, show 2 * k + 3 = 2 * (k + 1) + 1 by omega,
    identified.low (k + 1) inside, identified.high (k + 1) inside]
  omega

/-- The parameters are those of the drive. -/
theorem Identified.readParameters (identified : Identified a buf) (i j : Fin 2) :
    readParameters buf (if a.packet then ideAtapi else ideAta) i j = recordOf a i j := by
  have signature := identified.shortAt (show 0 < 256 by decide)
  have capabilities := identified.shortAt (show 49 < 256 by decide)
  have commandSets := identified.intAt (show 82 + 1 < 256 by decide)
  have size48 := identified.intAt (show 100 + 1 < 256 by decide)
  have size28 := identified.intAt (show 60 + 1 < 256 by decide)
  have model : (List.range 20).flatMap (fun k => [buf (54 + 2 * k + 1), buf (54 + 2 * k)]) =
      a.text 27 20 := by
    rw [AtaDrive.text]
    apply List.flatMap_congr
    intro k member
    have inside := List.mem_range.mp member
    rw [show 54 + 2 * k = 2 * (27 + k) by omega, identified.low _ (by omega),
      identified.high _ (by omega)]
  rw [Disc.readParameters, recordOf, signature, capabilities, commandSets, size48, size28, model]

/-! ### A round -/

/-- What a round needs: wired ports, and drives that keep to their times. -/
structure Prompt (cfg : AtaBus) (fuel : Nat) : Prop where
  loops : ∀ c k a, cfg.slots c k = .drive a → a.time 0xEC < fuel
  packet : ∀ c k a, cfg.slots c k = .drive a → a.packet → a.time 0xA1 ≤ cfg.pace
  quiet : ∀ c k lines, cfg.slots c k = .absent lines → lines = 0 ∨ lines &&& 0x01 ≠ 0
  some_fuel : 0 < fuel

theorem place_bit (j : Fin 2) :
    (if ((0xA0 : UInt8) ||| (UInt8.ofNat j.val <<< (4 : UInt8))) &&& 0x10 = 0 then (0 : Fin 2)
      else 1) = j := by
  revert j
  decide

namespace Driver

/-- The data of a drive that has identified itself go into the next entry. -/
theorem addDevice_drive (wired : Wired d.channels cfg) (isDrive : cfg.slots i j = .drive a)
    (focus : AtaBus.Focus cfg d.bus i j ⟨0, .data a.identity.toList⟩) (count : Nat) :
    ∃ bus buf, d.addDevice i j (if a.packet then ideAtapi else ideAta) count =
        (count + 1, { d with bus := bus, ideBuf := buf }.setDevice count (recordOf a i j)) ∧
      AtaBus.Ready cfg bus := by
  have words : a.identity.toList.length = 2 * 128 := by simp
  obtain ⟨bus, read, after⟩ := focus.inws isDrive (wired.command i 0 (by decide))
  rw [words] at read
  have identified := identified_storeBytes a d.ideBuf
  refine ⟨bus, d.ideBuf.storeBytes 0 (a.identity.toList.flatMap portBytes), ?_, after.ready rfl⟩
  rw [← identified.readParameters i j]
  have low := decide_eq_false (@unshadowed ataRegData (by decide))
  have read' : d.bus.inws ((d.channels.get i).base + ataRegData.toUInt16) (2 * 128) =
      (a.identity.toList, bus) := read
  simp only [addDevice, ideReadBuffer, low, Channel.port_command _ (show ataRegData < 0x08 by decide),
    Option.elim_some, read', Bool.false_eq_true, if_false]

/-- A command, and the sleep behind it. -/
theorem command_focus (wired : Wired d.channels cfg) (focus : AtaBus.Focus cfg d.bus i j s)
    (command : UInt8) : ∃ bus, (d.ideWrite i ataRegCommand command).sleep 1 = d.withBus bus ∧
      AtaBus.Focus cfg bus i j (((cfg.slots i j).accept command s).later cfg.pace) := by
  have given := focus.command (wired.command i ataRegCommand (by decide)) command
  refine ⟨_, ?_, given.pass cfg.pace⟩
  rw [ideWrite_command d i (by decide), sleep, ← given.pace, Nat.one_mul]
  rfl

/-- Behind IDENTIFY DEVICE. -/
theorem identify_focus (wired : Wired d.channels cfg) (ready : AtaBus.Ready cfg d.bus) :
    ∃ bus s, d.sendIdentify i j = d.withBus bus ∧
      AtaBus.Focus cfg bus i j (((cfg.slots i j).accept 0xEC s).later cfg.pace) ∧ s.wait = 0 := by
  obtain ⟨s, selected, idle⟩ :=
    ready.select (wired.command i ataRegHddevsel (by decide)) (place_bit j)
  have waited := selected.pass (1 * cfg.pace)
  obtain ⟨bus, ran, focus⟩ := @command_focus cfg (d.withBus ((d.bus.outb _ _).pass _)) i j _ wired
    waited 0xEC
  refine ⟨bus, s.later (1 * cfg.pace), ?_, focus, ?_⟩
  · rw [sendIdentify, ideWrite_command d i (by decide), sleep]
    rw [← selected.pace] at ran
    exact ran
  · rw [AtaState.later, idle, Nat.zero_sub]

theorem status_ne_zero (a : AtaDrive) (s : AtaState) : a.status s ≠ 0 := by
  rw [AtaDrive.status]
  split_ifs with busy
  · intro zero
    exact a.isBusy (by rw [zero]; rfl)
  · cases s.phase with
    | data words => cases words <;> simp
    | refused => simp

/-- A place without a drive. -/
theorem probe_absent (wired : Wired d.channels cfg) (ready : AtaBus.Ready cfg d.bus) {fuel : Nat}
    (prompt : Prompt cfg fuel) {lines : UInt8} (isAbsent : cfg.slots i j = .absent lines)
    (count : Nat) :
    ∃ bus, probe fuel i j count d = some (count, (d.checkPlace i j count).withBus bus) ∧
      AtaBus.Ready cfg bus := by
  obtain ⟨bus, s, sent, focus, idle⟩ :=
    @identify_focus cfg (d.checkPlace i j count) i j wired ready
  have wired : Wired (d.checkPlace i j count).channels cfg := wired
  rw [probe, sent]
  generalize d.checkPlace i j count = checked at wired ⊢
  have shown : ∀ s' reg, (cfg.slots i j).value s' reg = lines := by
    intro s' reg
    rw [isAbsent]
    rfl
  have still : ((cfg.slots i j).accept 0xEC s).later cfg.pace = ⟨0, s.phase⟩ := by
    rw [isAbsent, AtaSlot.accept, AtaState.later, idle, Nat.zero_sub]
  rw [still] at focus
  obtain ⟨bus₁, read, focus₁⟩ := @ideRead_idle cfg (checked.withBus bus) i j wired _ focus
    ataRegStatus (by decide)
  rw [shown] at read
  rw [read, Option.bind_some]
  dsimp only
  by_cases silent : lines = 0
  · rw [if_pos silent]
    exact ⟨bus₁, rfl, focus₁.ready rfl⟩
  -- the lines show an error, and no signature
  · have error : lines &&& 0x01 ≠ 0 := (prompt.quiet i j lines isAbsent).resolve_left silent
    obtain ⟨bus₂, read₂, focus₂⟩ := @ideRead_idle cfg (checked.withBus bus₁) i j wired _ focus₁
      ataRegStatus (by decide)
    obtain ⟨bus₃, read₃, focus₃⟩ := @ideRead_idle cfg (checked.withBus bus₂) i j wired _ focus₂
      ataRegLba1 (by decide)
    obtain ⟨bus₄, read₄, focus₄⟩ := @ideRead_idle cfg (checked.withBus bus₃) i j wired _ focus₃
      ataRegLba2 (by decide)
    rw [shown] at read₂ read₃ read₄
    have looped : identifyLoop i fuel (checked.withBus bus₁) =
        some (true, checked.withBus bus₂) := by
      obtain ⟨rounds, rfl⟩ := Nat.exists_eq_succ_of_ne_zero prompt.some_fuel.ne'
      rw [identifyLoop]
      rw [read₂, Option.bind_some]
      exact if_pos error
    have unsigned : ¬ ((lines = 0x14 ∧ lines = 0xEB) ∨ (lines = 0x69 ∧ lines = 0x96)) := by
      rintro (⟨low, high⟩ | ⟨low, high⟩) <;> rw [low] at high <;> exact absurd high (by decide)
    refine ⟨bus₄, ?_, focus₄.ready rfl⟩
    rw [if_neg silent]
    change (identifyLoop i fuel (checked.withBus bus₁)).bind _ = _
    rw [looped, Option.bind_some, if_pos rfl, probeAtapi, read₃, Option.bind_some]
    change ((checked.withBus bus₃).ideRead i ataRegLba2).map _ = _
    rw [read₄, Option.map_some]
    dsimp only
    rw [if_neg unsigned]
    rfl

/-- The loop, for a drive that has been given IDENTIFY DEVICE: a packet drive refuses it. -/
theorem identifyLoop_answer (wired : Wired d.channels cfg) (isDrive : cfg.slots i j = .drive a)
    {fuel : Nat} (prompt : Prompt cfg fuel) (idle : s.wait = 0)
    (focus : AtaBus.Focus cfg d.bus i j ((((cfg.slots i j).accept 0xEC s).later cfg.pace).later 1)) :
    ∃ bus, identifyLoop i fuel d = some (a.packet, d.withBus bus) ∧
      AtaBus.Focus cfg bus i j
        ⟨0, if a.packet then .refused else .data a.identity.toList⟩ := by
  have words : a.identity.toList ≠ [] := by
    apply List.ne_nil_of_length_pos
    simp
  have accepted : (cfg.slots i j).accept 0xEC s =
      ⟨a.time 0xEC, if a.packet then .refused else .data a.identity.toList⟩ := by
    rw [isDrive, AtaSlot.accept, AtaDrive.accept, if_neg (not_not.mpr idle)]
    cases a.packet <;> rfl
  rw [accepted] at focus
  have answer : a.status ⟨0, if a.packet then .refused else .data a.identity.toList⟩ =
      if a.packet then 0x41 else 0x58 := by
    cases a.packet
    · obtain ⟨word, rest, cons⟩ := List.exists_cons_of_ne_nil words
      rw [if_neg Bool.false_ne_true, if_neg Bool.false_ne_true, cons]
      rfl
    · rfl
  have enough := prompt.loops i j a isDrive
  exact identifyLoop_drive wired isDrive answer (by
    dsimp only [AtaState.later]
    omega) focus

/-- A packet drive shows its signature, and identifies itself when it is asked the second time. -/
theorem probeAtapi_drive (wired : Wired d.channels cfg) (isDrive : cfg.slots i j = .drive a)
    {fuel : Nat} (prompt : Prompt cfg fuel) (isPacket : a.packet = true)
    (focus : AtaBus.Focus cfg d.bus i j ⟨0, .refused⟩) (count : Nat) :
    ∃ bus buf, d.probeAtapi i j count =
        some (count + 1, { d with bus := bus, ideBuf := buf }.setDevice count (recordOf a i j)) ∧
      AtaBus.Ready cfg bus := by
  obtain ⟨bus₁, read₁, focus₁⟩ := ideRead_idle wired focus (show ataRegLba1 < 0x08 by decide)
  obtain ⟨bus₂, read₂, focus₂⟩ := @ideRead_idle cfg (d.withBus bus₁) i j wired _ focus₁
    ataRegLba2 (by decide)
  have shownLow : (cfg.slots i j).value ⟨0, .refused⟩ (Fin.ofNat 8 ataRegLba1.toNat) =
      a.signature.1 := by
    rw [isDrive]
    rfl
  have shownHigh : (cfg.slots i j).value ⟨0, .refused⟩ (Fin.ofNat 8 ataRegLba2.toNat) =
      a.signature.2 := by
    rw [isDrive]
    rfl
  have signed : (a.signature.1 = 0x14 ∧ a.signature.2 = 0xEB) ∨
      (a.signature.1 = 0x69 ∧ a.signature.2 = 0x96) := by
    rw [AtaDrive.signature, if_pos isPacket]
    cases a.serial
    · exact .inl ⟨rfl, rfl⟩
    · exact .inr ⟨rfl, rfl⟩
  obtain ⟨bus₃, given, focus₃⟩ := @command_focus cfg (d.withBus bus₂) i j _ wired focus₂ 0xA1
  have inTime := prompt.packet i j a isDrive isPacket
  have accepted : ((cfg.slots i j).accept 0xA1 ⟨0, .refused⟩).later cfg.pace =
      ⟨0, .data a.identity.toList⟩ := by
    rw [isDrive, AtaSlot.accept, AtaDrive.accept, if_neg (not_not.mpr rfl), if_pos isPacket,
      if_pos rfl, AtaState.later, Nat.sub_eq_zero_of_le inTime]
  rw [accepted] at focus₃
  obtain ⟨bus, buf, added, ready⟩ :=
    @addDevice_drive cfg ((d.withBus bus₂).withBus bus₃) i j a wired isDrive focus₃ count
  refine ⟨bus, buf, ?_, ready⟩
  rw [probeAtapi, read₁, shownLow, Option.bind_some]
  dsimp only
  rw [read₂, shownHigh, Option.map_some]
  dsimp only
  rw [if_pos signed, ← show (if a.packet then ideAtapi else ideAta) = ideAtapi from if_pos isPacket]
  change some (((((d.withBus bus₂).ideWrite i ataRegCommand 0xA1).sleep 1).addDevice i j _ count)) = _
  rw [given, added]
  rfl

/-- A place with a drive. -/
theorem probe_drive (wired : Wired d.channels cfg) (ready : AtaBus.Ready cfg d.bus) {fuel : Nat}
    (prompt : Prompt cfg fuel) (isDrive : cfg.slots i j = .drive a) (count : Nat) :
    ∃ bus buf, probe fuel i j count d =
        some (count + 1,
          { d.checkPlace i j count with bus := bus, ideBuf := buf }.setDevice count
            (recordOf a i j)) ∧
      AtaBus.Ready cfg bus := by
  obtain ⟨bus, s, sent, focus, idle⟩ :=
    @identify_focus cfg (d.checkPlace i j count) i j wired ready
  have wired : Wired (d.checkPlace i j count).channels cfg := wired
  rw [probe, sent]
  generalize d.checkPlace i j count = checked at wired ⊢
  have read := @ideRead_focus cfg (checked.withBus bus) i j _ wired focus ataRegStatus (by decide)
  have present : (cfg.slots i j).value (((cfg.slots i j).accept 0xEC s).later cfg.pace)
      (Fin.ofNat 8 ataRegStatus.toNat) ≠ 0 := by
    rw [isDrive]
    exact status_ne_zero a _
  obtain ⟨bus₁, looped, focus₁⟩ :=
    @identifyLoop_answer cfg (checked.withBus (bus.pass 1)) i j s a wired isDrive _ prompt idle
      (focus.pass 1)
  rw [read, Option.bind_some]
  dsimp only
  rw [if_neg present]
  change ∃ bus' buf, (identifyLoop i fuel (checked.withBus (bus.pass 1))).bind _ = _ ∧ _
  rw [looped, Option.bind_some]
  dsimp only
  cases isPacket : a.packet with
  | false =>
      rw [isPacket] at focus₁
      obtain ⟨bus₂, buf, added, ready⟩ :=
        @addDevice_drive cfg (checked.withBus bus₁) i j a wired isDrive focus₁ count
      rw [isPacket] at added
      exact ⟨bus₂, buf, congrArg some added, ready⟩
  | true =>
      rw [isPacket] at focus₁
      exact @probeAtapi_drive cfg (checked.withBus bus₁) i j a wired isDrive _ prompt isPacket
        focus₁ count

end Driver

/-! ### All rounds -/

/-- The entry that a place is worth. -/
def foundAt (cfg : AtaBus) (place : Fin 2 × Fin 2) : Option IdeRecord :=
  match cfg.slots place.1 place.2 with
  | .drive a => some (recordOf a place.1 place.2)
  | .absent _ => none

/-- `ide_devices` has these drives, and no others. -/
structure Listed (found : List IdeRecord) (ideDevices : Nat → IdeRecord) : Prop where
  entries : ∀ n (inside : n < found.length), ideDevices n = found[n]
  rest : ∀ n, found.length ≤ n → (ideDevices n).reserved = 0

/-- Where the two loops stand, with these places behind them. -/
structure Surveyed (cfg : AtaBus) (before : Driver) (past : List (Fin 2 × Fin 2))
    (s : Nat × Driver) : Prop where
  count : s.1 = (past.filterMap (foundAt cfg)).length
  ready : AtaBus.Ready cfg s.2.bus
  channels : s.2.channels = before.channels
  listed : Listed (past.filterMap (foundAt cfg)) s.2.ideDevices
  calls : s.2.calls = before.calls ++ past.map fun place => checkingCall place.1 place.2

theorem Listed.add {found : List IdeRecord} {ideDevices ideDevices' : Nat → IdeRecord}
    (listed : Listed found ideDevices) {count : Nat} (isCount : count = found.length)
    {record : IdeRecord} (entry : ideDevices' count = record)
    (others : ∀ n, n ≠ count → ideDevices' n = ideDevices n) :
    Listed (found ++ [record]) ideDevices' := by
  subst isCount
  constructor
  · intro n inside
    rw [List.length_append, List.length_singleton] at inside
    by_cases last : n = found.length
    · simp [last, entry]
    · have earlier : n < found.length := by omega
      rw [others n last, listed.entries n earlier, List.getElem_append_left earlier]
  · intro n outside
    rw [List.length_append, List.length_singleton] at outside
    rw [others n (by omega)]
    exact listed.rest n (by omega)

theorem Listed.reset {found : List IdeRecord} {ideDevices ideDevices' : Nat → IdeRecord}
    (listed : Listed found ideDevices) {count : Nat} (isCount : count = found.length)
    (entry : (ideDevices' count).reserved = 0)
    (others : ∀ n, n ≠ count → ideDevices' n = ideDevices n) :
    Listed found ideDevices' := by
  subst isCount
  constructor
  · intro n inside
    rw [others n (Nat.ne_of_lt inside)]
    exact listed.entries n inside
  · intro n outside
    by_cases first : n = found.length
    · rw [first, entry]
    · rw [others n first]
      exact listed.rest n outside

/-- A round keeps the table. -/
theorem Surveyed.probe {before : Driver} (wired : Wired before.channels cfg) {fuel : Nat}
    (prompt : Prompt cfg fuel) {past : List (Fin 2 × Fin 2)} {s : Nat × Driver}
    (surveyed : Surveyed cfg before past s) (place : Fin 2 × Fin 2) :
    ∃ s', Driver.probe fuel place.1 place.2 s.1 s.2 = some s' ∧
      Surveyed cfg before (past ++ [place]) s' := by
  have wired' : Wired s.2.channels cfg := by rwa [surveyed.channels]
  have calls : s.2.calls ++ [checkingCall place.1 place.2] =
      before.calls ++ (past ++ [place]).map fun place => checkingCall place.1 place.2 := by
    rw [surveyed.calls, List.map_append, List.append_assoc]
    rfl
  cases slot : cfg.slots place.1 place.2 with
  | absent lines =>
      obtain ⟨bus, ran, ready⟩ := Driver.probe_absent wired' surveyed.ready prompt slot s.1
      have same : (past ++ [place]).filterMap (foundAt cfg) = past.filterMap (foundAt cfg) := by
        simp [foundAt, slot]
      refine ⟨_, ran, ?_, ready, surveyed.channels, ?_, calls⟩
      · rw [same]
        exact surveyed.count
      · rw [same]
        refine surveyed.listed.reset surveyed.count ?_ fun n other => if_neg other
        exact congrArg (fun record : IdeRecord => record.reserved) (if_pos rfl)
  | drive a =>
      obtain ⟨bus, buf, ran, ready⟩ := Driver.probe_drive wired' surveyed.ready prompt slot s.1
      have more : (past ++ [place]).filterMap (foundAt cfg) =
          past.filterMap (foundAt cfg) ++ [recordOf a place.1 place.2] := by
        simp [foundAt, slot]
      refine ⟨_, ran, ?_, ready, surveyed.channels, ?_, calls⟩
      · rw [more, List.length_append, ← surveyed.count]
        rfl
      · rw [more]
        refine surveyed.listed.add surveyed.count (if_pos rfl) fun n other => ?_
        exact (if_neg other).trans (if_neg other)

/-- The rounds, in any order of the places. -/
theorem Surveyed.foldlM {before : Driver} (wired : Wired before.channels cfg) {fuel : Nat}
    (prompt : Prompt cfg fuel) (rest : List (Fin 2 × Fin 2)) {past : List (Fin 2 × Fin 2)}
    {s : Nat × Driver} (surveyed : Surveyed cfg before past s) :
    ∃ s', rest.foldlM (fun s place => Driver.probe fuel place.1 place.2 s.1 s.2) s = some s' ∧
      Surveyed cfg before (past ++ rest) s' := by
  induction rest generalizing past s with
  | nil => exact ⟨s, rfl, by rwa [List.append_nil]⟩
  | cons place rest inductionHypothesis =>
      obtain ⟨s₁, ran, surveyed₁⟩ := surveyed.probe wired prompt place
      obtain ⟨s₂, ranRest, surveyed₂⟩ := inductionHypothesis surveyed₁
      refine ⟨s₂, ?_, ?_⟩
      · rw [List.foldlM_cons, ran]
        exact ranRest
      · rwa [List.append_assoc] at surveyed₂

/-! ### Lines -/

theorem spell_checkingCall (i j : Fin 2) :
    spell (checkingCall i j).pieces = "Checking %d:%d\n".toList := by
  rw [checkingCall, spell_literal, spell_directly, spell_literal, spell_directly]
  rfl

theorem spell_foundCall (n : Nat) (record : IdeRecord) :
    spell (foundCall n record).pieces = " Found %s Drive[%d] %dB - %s\n".toList := by
  rw [foundCall, spell_literal, spell_directly, spell_literal, spell_directly, spell_literal,
    spell_directly, spell_literal, spell_directly]
  rfl

def checkingLine (i j : Fin 2) : List Char :=
  "Checking ".toList ++ (decimalText i.val ++ ([':'] ++ decimalText j.val))

/-- The line for a place. -/
theorem checkingCall_printsLines (i j : Fin 2) :
    PrintsLines (checkingCall i j) [checkingLine i j] := by
  have word : ∀ k : Fin 2, (UInt32.ofNat k.val).toNat = k.val := fun k =>
    UInt32.toNat_ofNat_of_lt' (Nat.lt_trans k.isLt (by decide))
  have positive : ∀ k : Fin 2, (UInt32.ofNat k.val).toNat < 2 ^ 31 := by
    intro k
    rw [word]
    omega
  apply printsLine
  · exact (shortStrings_nil.word _).word _
  · rw [checkingCall, render_literal, render_decimal (positive i), render_literal,
      render_decimal (positive j), render_end, word, word]
    have whole : checkingLine i j ++ ['\n'] = "Checking ".toList ++
        (decimalText i.val ++ ([':'] ++ (decimalText j.val ++ ['\n']))) := by
      change ("Checking ".toList ++ (decimalText i.val ++ ([':'] ++ decimalText j.val))) ++ ['\n'] = _
      rw [List.append_assoc, List.append_assoc, List.append_assoc]
    exact congrArg (fun line => some (line, [])) whole.symm
  · have start : Visible 9 "Checking ".toList := .of_all (by decide) (by decide)
    have colon : Visible 1 [':'] := .of_all (by decide) (by decide)
    have digit : ∀ k : Fin 2, Visible 1 (decimalText k.val) := fun k =>
      visible_decimalText (by decide) (by omega)
    have behind := colon.append (digit j) (Nat.le_refl 2)
    exact start.append ((digit i).append behind (Nat.le_refl 3)) (by decide)

def typeText (record : IdeRecord) : List Char :=
  if record.type = ideAta then "ATA".toList else "ATAPI".toList

def modelText (record : IdeRecord) : List Char := (record.model.takeWhile (· ≠ 0)).map charOf

def foundLine (n : Nat) (record : IdeRecord) : List Char :=
  " Found ".toList ++ (typeText record ++ (" Drive[".toList ++ (decimalText n ++ ("] ".toList ++
    (decimalText record.size.toNat ++ ("B - ".toList ++ modelText record))))))

/-- The line for a drive whose size is not negative as an `int`. -/
theorem foundCall_printsLines {n : Nat} {record : IdeRecord} (few : n < 4)
    (small : record.size.toNat < 2 ^ 31) (visible : Visible 40 (modelText record)) :
    PrintsLines (foundCall n record) [foundLine n record] := by
  have word : (UInt32.ofNat n).toNat = n :=
    UInt32.toNat_ofNat_of_lt' (Nat.lt_trans few (by decide))
  have positive : (UInt32.ofNat n).toNat < 2 ^ 31 := by
    rw [word]
    omega
  have type : Visible 5 (typeText record) := by
    rw [typeText]
    split_ifs
    · exact .of_all (by decide) (by decide)
    · exact .of_all (by decide) (by decide)
  apply printsLine
  · have modelFits := visible.fits
    have typeFits := type.fits
    have model : ShortStrings [.string (modelText record)] := shortStrings_nil.string (by omega)
    have all : ShortStrings [.string (typeText record), .word (UInt32.ofNat n), .word record.size,
        .string (modelText record)] := ((model.word _).word _).string (by omega)
    exact all
  · have args : (foundCall n record).args = [.string (typeText record), .word (UInt32.ofNat n),
        .word record.size, .string (modelText record)] := rfl
    rw [args, foundCall, render_literal, render_string, render_literal, render_decimal positive,
      render_literal, render_decimal small, render_literal, render_string, render_end, word]
    have whole : foundLine n record ++ ['\n'] = " Found ".toList ++ (typeText record ++
        (" Drive[".toList ++ (decimalText n ++ ("] ".toList ++ (decimalText record.size.toNat ++
          ("B - ".toList ++ (modelText record ++ ['\n']))))))) := by
      unfold foundLine
      rw [List.append_assoc, List.append_assoc, List.append_assoc, List.append_assoc,
        List.append_assoc, List.append_assoc, List.append_assoc]
    exact congrArg (fun line => some (line, [])) whole.symm
  · have start : Visible 7 " Found ".toList := .of_all (by decide) (by decide)
    have drive : Visible 7 " Drive[".toList := .of_all (by decide) (by decide)
    have close : Visible 2 "] ".toList := .of_all (by decide) (by decide)
    have unit : Visible 4 "B - ".toList := .of_all (by decide) (by decide)
    have digit : Visible 1 (decimalText n) := visible_decimalText (by decide) (by omega)
    have size : Visible 10 (decimalText record.size.toNat) :=
      visible_decimalText (by decide) (by omega)
    have behindSize := size.append (unit.append visible (Nat.le_refl 44)) (Nat.le_refl 54)
    have behindDrive := digit.append (close.append behindSize (Nat.le_refl 56)) (Nat.le_refl 57)
    exact start.append (type.append (drive.append behindDrive (Nat.le_refl 64)) (Nat.le_refl 69))
      (by decide)

/-! ### The summary -/

/-- The line of the summary for an entry. -/
def summaryLine (ideDevices : Nat → IdeRecord) (n : Nat) : Option Call :=
  if (ideDevices n).reserved = 1 then some (foundCall n (ideDevices n)) else none

theorem foldl_summary (ns : List Nat) (d : Driver) :
    ns.foldl (fun d n => if (d.ideDevices n).reserved = 1 then
        d.kprintf (foundCall n (d.ideDevices n)) else d) d =
      { d with calls := d.calls ++ ns.filterMap (summaryLine d.ideDevices) } := by
  induction ns generalizing d with
  | nil => simp
  | cons n ns inductionHypothesis =>
      rw [List.foldl_cons, List.filterMap_cons, inductionHypothesis, summaryLine]
      split_ifs
      · dsimp only [Driver.kprintf]
        rw [List.append_assoc]
        rfl
      · rfl

theorem filterMap_range_getElem {α β : Type} (f : Nat → α → β) (l : List α) {n : Nat}
    (enough : l.length ≤ n) :
    (List.range n).filterMap (fun k => l[k]?.map (f k)) = l.mapIdx f := by
  induction l generalizing n f with
  | nil => simp
  | cons head tail inductionHypothesis =>
      obtain ⟨m, rfl⟩ := Nat.exists_eq_add_of_le' (Nat.le_trans (Nat.succ_pos _) enough)
      have fewer : tail.length ≤ m := Nat.le_of_succ_le_succ enough
      rw [List.range_succ_eq_map, List.filterMap_cons, List.filterMap_map, List.mapIdx_cons,
        ← inductionHypothesis (fun k => f (k + 1)) fewer]
      rfl

theorem reserved_of_mem {record : IdeRecord} {past : List (Fin 2 × Fin 2)}
    (isFound : record ∈ past.filterMap (foundAt cfg)) : record.reserved = 1 := by
  obtain ⟨place, -, found⟩ := List.mem_filterMap.mp isFound
  cases slot : cfg.slots place.1 place.2 with
  | absent lines =>
      rw [foundAt, slot] at found
      cases found
  | drive a =>
      rw [foundAt, slot] at found
      cases found
      rfl

/-- The summary has a line for each drive. -/
theorem printSummary_listed {past : List (Fin 2 × Fin 2)}
    (listed : Listed (past.filterMap (foundAt cfg)) d.ideDevices)
    (enough : (past.filterMap (foundAt cfg)).length ≤ 4) :
    d.printSummary =
      { d with calls := d.calls ++ (past.filterMap (foundAt cfg)).mapIdx foundCall } := by
  rw [Driver.printSummary, foldl_summary, ← filterMap_range_getElem foundCall _ enough]
  congr 2
  apply List.filterMap_congr
  intro n _
  rw [summaryLine]
  by_cases inside : n < (past.filterMap (foundAt cfg)).length
  · have entry := listed.entries n inside
    rw [if_pos (by rw [entry]; exact reserved_of_mem (List.getElem_mem inside)), entry,
      List.getElem?_eq_getElem inside]
    rfl
  · rw [if_neg (by rw [listed.rest n (Nat.le_of_not_lt inside)]; decide),
      List.getElem?_eq_none (Nat.le_of_not_lt inside)]
    rfl

/-- The table has the drives of the bus in the order of their places, and the summary shows
each of them. -/
theorem ideInitialize_finds {fuel : Nat} {BAR0 BAR1 BAR2 BAR3 BAR4 : UInt32} (d : Driver)
    (wired : Wired (channelsOf BAR0 BAR1 BAR2 BAR3 BAR4 d.channels) d.bus)
    (prompt : Prompt d.bus fuel) (idle : ∀ c k, (d.bus.states c k).wait = 0)
    (fresh : ∀ n, (d.ideDevices n).reserved = 0) :
    ∃ d', ideInitialize fuel BAR0 BAR1 BAR2 BAR3 BAR4 d = some d' ∧
      Listed (places.filterMap (foundAt d.bus)) d'.ideDevices ∧
      d'.calls = d.calls ++ (places.map fun place => checkingCall place.1 place.2) ++
        (places.filterMap (foundAt d.bus)).mapIdx foundCall := by
  have start : Surveyed d.bus
      { d with channels := channelsOf BAR0 BAR1 BAR2 BAR3 BAR4 d.channels } []
      (0, { d with channels := channelsOf BAR0 BAR1 BAR2 BAR3 BAR4 d.channels }) :=
    { count := rfl
      ready := ⟨rfl, rfl, rfl, idle⟩
      channels := rfl
      listed := ⟨fun n inside => absurd inside (Nat.not_lt_zero n), fun n _ => fresh n⟩
      calls := (List.append_nil _).symm }
  obtain ⟨s, ran, surveyed⟩ := start.foldlM wired prompt places
  rw [List.nil_append] at surveyed
  have enough : (places.filterMap (foundAt d.bus)).length ≤ 4 := List.length_filterMap_le _ _
  have summary := printSummary_listed surveyed.listed enough
  refine ⟨s.2.printSummary, ?_, ?_, ?_⟩
  · have control := fun channel => @Driver.ideWrite_control d.bus
      { d with channels := channelsOf BAR0 BAR1 BAR2 BAR3 BAR4 d.channels } wired rfl channel 2
    rw [ideInitialize, control, control, ran]
    rfl
  · rw [summary]
    exact surveyed.listed
  · rw [summary]
    dsimp only
    rw [surveyed.calls]

/-- A serial packet drive and a disc. -/
def exampleDrive (packet : Bool) : AtaDrive where
  packet := packet
  serial := true
  identity := Vector.ofFn fun k => UInt16.ofNat (k.val + 256)
  time := fun command => if command = 0xEC then 5 else 1
  busyStatus := 0x80
  isBusy := by decide
  noError := by decide

def commandRegister (port : UInt16) : Fin 8 := ⟨port.toNat % 8, Nat.mod_lt _ (by decide)⟩

def exampleBus : AtaBus where
  slots := fun c k =>
    if c = ataPrimary then
      if k = ataMaster then .absent 0 else .drive (exampleDrive true)
    else if k = ataMaster then .drive (exampleDrive false) else .absent 0xFF
  states := fun _ _ => ⟨0, .refused⟩
  selected := fun _ => ataMaster
  pace := 2
  decode := fun port =>
    if port &&& 0xFFF8 = 0x1F0 then some (ataPrimary, commandRegister port)
    else if port &&& 0xFFF8 = 0x170 then some (ataSecondary, commandRegister port)
    else none

def exampleDriver : Driver where
  bus := exampleBus
  channels := #v[⟨0, 0, 0, 0⟩, ⟨0, 0, 0, 0⟩]
  ideBuf := fun _ => 0
  ideDevices := fun _ =>
    { reserved := 0, channel := ataPrimary, drive := 0, type := 0, size := 0, signature := 0,
      capabilities := 0, commandSets := 0, model := [] }
  calls := []

theorem wired_example : Wired (channelsOf 0 0 0 0 0 exampleDriver.channels) exampleBus := by
  constructor
  · intro c reg small
    have all : ∀ c : Fin 2, ∀ k : Fin 8,
        exampleBus.decode (((channelsOf 0 0 0 0 0 exampleDriver.channels).get c).base +
          (UInt8.ofNat k.val).toUInt16) = some (c, k) := by
      decide
    rw [UInt8.lt_iff_toNat_lt] at small
    have result := all c ⟨reg.toNat, small⟩
    rw [UInt8.ofNat_toNat] at result
    rw [result]
    congr 2
    exact Fin.ext (Nat.mod_eq_of_lt small).symm
  · decide

theorem prompt_example : Prompt exampleBus 6 := by
  have known : ∀ c k a, exampleBus.slots c k = .drive a → ∃ packet, a = exampleDrive packet := by
    intro c k a slot
    dsimp only [exampleBus] at slot
    split_ifs at slot <;> cases slot <;> exact ⟨_, rfl⟩
  constructor
  · intro c k a slot
    obtain ⟨packet, rfl⟩ := known c k a slot
    exact (by decide : 5 < 6)
  · intro c k a slot _
    obtain ⟨packet, rfl⟩ := known c k a slot
    exact (by decide : 1 ≤ 2)
  · intro c k lines slot
    dsimp only [exampleBus] at slot
    split_ifs at slot <;> cases slot
    · exact .inl rfl
    · exact .inr (by decide)
  · decide

/-- A packet drive in the second place, a disc in the third. -/
theorem ideInitialize_finds_two :
    ∃ d', ideInitialize 6 0 0 0 0 0 exampleDriver = some d' ∧
      Listed [recordOf (exampleDrive true) 0 1, recordOf (exampleDrive false) 1 0] d'.ideDevices ∧
      d'.calls = [checkingCall 0 0, checkingCall 0 1, checkingCall 1 0, checkingCall 1 1,
        foundCall 0 (recordOf (exampleDrive true) 0 1),
        foundCall 1 (recordOf (exampleDrive false) 1 0)] :=
  ideInitialize_finds exampleDriver wired_example prompt_example (fun _ _ => rfl) fun _ => rfl

end Balloon.Disc
