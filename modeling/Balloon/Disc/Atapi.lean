import Balloon.Foundation.ByteMemory

/-!
Owns the embedding of `atapi_read` and `read_sectors` of atapi.c, and the law that says when a
read of several sectors reports its failures and delivers its data. `read_sectors` keeps the
result of its last call only, and `atapi_read` moves every sector into `ide_buf`: nothing is
stored through `edi`.

The drive is a parameter: the statuses it shows when it is no longer busy, and the sectors of
its disc. What the functions print, and the segment that nothing reads, are left out.
-/

namespace Balloon.Disc

open Balloon.Foundation

/-! ### The driver's data -/

/-- A sector of the disc. -/
structure Sector where
  bytes : List UInt8
  whole : bytes.length = 2048

/-- `struct IDEChannelRegisters`. -/
structure Channel where
  base : UInt16
  ctrl : UInt16
  bmide : UInt16
  nIEN : UInt8

/-- The fields of `struct ide_device` that a read looks at. -/
structure IdeDevice where
  reserved : UInt8
  channel : Fin 2
  drive : UInt8
  type : UInt16
  size : UInt32

def ideAta : UInt16 := 0x00
def ideAtapi : UInt16 := 0x01

/-- What leaves for the drive: a byte, or the words of a packet. -/
inductive Output where
  | byte (port : UInt16) (data : UInt8)
  | words (port : UInt16) (bytes : List UInt8)

/-- The memory, `channels`, and the output so far, newest first. -/
structure State where
  mem : Memory
  channels : Vector Channel 2
  outputs : List Output

/-- What the drive shows to one call: its status after the command and after the interrupt of
each sector. -/
structure Answer where
  command : UInt8
  sector : Nat → UInt8

/-- What does not change during a read: the table of drives, the addresses of `ide_buf` and
`atapi_packet`, and the disc. -/
structure Setup where
  ideDevices : Vector IdeDevice 4
  ideBuf : Nat
  atapiPacket : Nat
  disc : UInt32 → Sector

/-! ### Registers -/

def ataRegFeatures : UInt8 := 0x01
def ataRegLba1 : UInt8 := 0x04
def ataRegLba2 : UInt8 := 0x05
def ataRegHddevsel : UInt8 := 0x06
def ataRegCommand : UInt8 := 0x07
def ataRegControl : UInt8 := 0x0C

/-- The port of a register. -/
def Channel.port (c : Channel) (reg : UInt8) : Option UInt16 :=
  if reg < 0x08 then some (c.base + reg.toUInt16 - 0x00)
  else if reg < 0x0C then some (c.base + reg.toUInt16 - 0x06)
  else if reg < 0x0E then some (c.ctrl + reg.toUInt16 - 0x0A)
  else if reg < 0x16 then some (c.bmide + reg.toUInt16 - 0x0E)
  else none

/-- `outb`, when the register has a port. -/
def State.outb (s : State) (port : Option UInt16) (data : UInt8) : State :=
  { s with outputs := (port.map fun port => .byte port data).toList ++ s.outputs }

/-- `ide_write`. Its inner calls write the control register, which takes no others. -/
def ideWrite (s : State) (channel : Fin 2) (reg data : UInt8) : State :=
  let c := s.channels[channel]
  if reg > 0x07 ∧ reg < 0x0C then
    ((s.outb (c.port ataRegControl) (0x80 ||| c.nIEN)).outb (c.port reg) data).outb
      (c.port ataRegControl) c.nIEN
  else s.outb (c.port reg) data

/-- `ide_polling`, where `state` is the status once the drive is no longer busy. -/
def idePolling (state : UInt8) (advancedCheck : Bool) : UInt8 :=
  if advancedCheck then
    if state &&& 0x01 ≠ 0 then 2
    else if state &&& 0x20 ≠ 0 then 1
    else if state &&& 0x08 = 0 then 3
    else 0
  else 0

/-! ### Packets -/

/-- The bytes of `atapi_packet`. -/
def readPacket (lba : UInt32) (numsects : UInt8) : List UInt8 :=
  [0xA8, 0x0, (lba >>> 24).toUInt8, (lba >>> 16).toUInt8, (lba >>> 8).toUInt8, (lba >>> 0).toUInt8,
    0x0, 0x0, 0x0, numsects, 0x0, 0x0]

/-- The sector that a packet names. -/
def packetLba (packet : List UInt8) : UInt32 :=
  UInt32.ofNat ((packet.getD 2 0).toNat * 2 ^ 24 + (packet.getD 3 0).toNat * 2 ^ 16 +
    (packet.getD 4 0).toNat * 2 ^ 8 + (packet.getD 5 0).toNat)

/-! ### Reading -/

/-- The loop of `atapi_read`. `data` is what the port delivers, from the present sector on. -/
def atapiReadLoop (k : Setup) (answer : Answer) (data : Nat → Sector) :
    Nat → Nat → UInt32 → State → UInt8 × State
  | 0, _, _, s => (0, s)
  | rounds + 1, i, edi, s =>
      let err := idePolling (answer.sector i) true
      if err ≠ 0 then (err, s)
      else
        -- `inws` fills `ide_buf`; `edi` only moves on.
        atapiReadLoop k answer data rounds (i + 1) (edi + 1024 * 2)
          { s with mem := s.mem.storeBytes k.ideBuf (data i).bytes }

/-- `atapi_read`. -/
def atapiRead (k : Setup) (d : IdeDevice) (lba : UInt32) (numsects : UInt8) (edi : UInt32)
    (answer : Answer) (s : State) : UInt8 × State :=
  let c := s.channels[d.channel]
  let s := { s with channels := s.channels.set d.channel { c with nIEN := 0x0 } }
  let s := ideWrite s d.channel ataRegControl 0x0
  let s := { s with mem := s.mem.storeBytes k.atapiPacket (readPacket lba numsects) }
  let s := ideWrite s d.channel ataRegHddevsel (d.drive <<< 4)
  let s := ideWrite s d.channel ataRegFeatures 0
  let s := ideWrite s d.channel ataRegLba1 0x00
  let s := ideWrite s d.channel ataRegLba2 0x08
  let s := ideWrite s d.channel ataRegCommand 0xA0
  let err := idePolling answer.command true
  if err ≠ 0 then (err, s)
  else
    let packet := s.mem.bytesAt k.atapiPacket 12
    let s := { s with outputs := .words c.base packet :: s.outputs }
    atapiReadLoop k answer (fun i => k.disc (packetLba packet + UInt32.ofNat i))
      numsects.toNat 0 edi s

/-- The loop of `read_sectors` from round `i` on; `err` is what the rounds before left. -/
def readSectorsLoop (k : Setup) (d : IdeDevice) (lba edi : UInt32) (answers : Nat → Answer) :
    Nat → Nat → UInt8 → State → UInt8 × State
  | 0, _, err, s => (err, s)
  | rounds + 1, i, _, s =>
      let called := atapiRead k d (lba + UInt32.ofNat i) 1 (edi + UInt32.ofNat (i * 2048))
        (answers i) s
      readSectorsLoop k d lba edi answers rounds (i + 1) called.1 called.2

/-- `read_sectors`: the `err` it ends with, where it gets that far. `undef` is what the
uninitialised `err` holds. -/
def readSectors (k : Setup) (undef : UInt8) (drive numsects : UInt8) (lba edi : UInt32)
    (answers : Nat → Answer) (s : State) : Option UInt8 × State :=
  match k.ideDevices[drive.toNat]? with
  | none => (none, s)
  | some d =>
      if d.reserved = 0 then (none, s)
      else if lba + numsects.toUInt32 > d.size ∧ d.type = ideAta then (none, s)
      else if d.type = ideAta then (none, s)
      else if d.type = ideAtapi then
        let ended := readSectorsLoop k d lba edi answers numsects.toNat 0 undef s
        (some ended.1, ended.2)
      else (some undef, s)

/-! ### One call -/

variable {k : Setup} {d : IdeDevice} {lba edi : UInt32} {answer : Answer} {answers : Nat → Answer}
  {s : State}

/-- What the drive's statuses make of a call for one sector. -/
def Answer.status (answer : Answer) : UInt8 :=
  let err := idePolling answer.command true
  if err ≠ 0 then err else idePolling (answer.sector 0) true

/-- The memory behind a call that is given the sector `lba`. -/
def delivered (k : Setup) (lba : UInt32) (m : Memory) : Memory :=
  (m.storeBytes k.atapiPacket (readPacket lba 1)).storeBytes k.ideBuf (k.disc lba).bytes

theorem packetLba_readPacket (lba : UInt32) (numsects : UInt8) :
    packetLba (readPacket lba numsects) = lba := by
  have bound := lba.toNat_lt
  apply UInt32.toNat.inj
  simp [packetLba, readPacket, Nat.shiftRight_eq_div_pow]
  omega

@[simp] theorem ideWrite_mem (s : State) (channel : Fin 2) (reg data : UInt8) :
    (ideWrite s channel reg data).mem = s.mem := by
  unfold ideWrite
  dsimp only
  split <;> rfl

/-- From any state, a call for one sector returns what the statuses say, and moves the sector
that it asked for into `ide_buf`. -/
theorem atapiRead_one :
    (atapiRead k d lba 1 edi answer s).1 = answer.status ∧
      (answer.status = 0 → (atapiRead k d lba 1 edi answer s).2.mem = delivered k lba s.mem) := by
  have sent := (s.mem.bytesAt_storeBytes k.atapiPacket (readPacket lba 1))
  simp only [atapiRead, Answer.status, ideWrite_mem]
  by_cases refused : idePolling answer.command true ≠ 0
  · rw [if_pos refused, if_pos refused]
    exact ⟨rfl, fun accepted => absurd accepted refused⟩
  · rw [if_neg refused, if_neg refused, show (1 : UInt8).toNat = 1 from rfl, atapiReadLoop]
    by_cases lost : idePolling (answer.sector 0) true ≠ 0
    · rw [if_pos lost]
      exact ⟨rfl, fun accepted => absurd accepted lost⟩
    · rw [if_neg lost]
      refine ⟨(not_not.mp lost).symm, fun _ => ?_⟩
      have named : packetLba ((s.mem.storeBytes k.atapiPacket (readPacket lba 1)).bytesAt
          k.atapiPacket 12) + UInt32.ofNat 0 = lba := by
        rw [show 12 = (readPacket lba 1).length from rfl, sent, packetLba_readPacket]
        exact UInt32.add_zero lba
      simp only [atapiReadLoop, named, delivered]

/-- A sector leaves nothing of the one before it. -/
theorem delivered_delivered (k : Setup) (lba lba' : UInt32) (m : Memory) :
    delivered k lba' (delivered k lba m) = delivered k lba' m := by
  refine Memory.storeBytes_congr fun b outside => ?_
  have length : (k.disc lba').bytes.length = (k.disc lba).bytes.length :=
    (k.disc lba').whole.trans (k.disc lba).whole.symm
  have noBuffer : b < k.ideBuf ∨ k.ideBuf + (k.disc lba).bytes.length ≤ b := length ▸ outside
  have words (lba : UInt32) : (readPacket lba 1).length = 12 := rfl
  by_cases noPacket : b < k.atapiPacket ∨ k.atapiPacket + 12 ≤ b
  · rw [Memory.storeBytes_outside _ noPacket, Memory.storeBytes_outside _ noPacket, delivered,
      Memory.storeBytes_outside _ noBuffer, Memory.storeBytes_outside _ noPacket]
  · have packet : k.atapiPacket ≤ b ∧ b < k.atapiPacket + (readPacket lba' 1).length := by
      rw [words]
      omega
    rw [Memory.storeBytes_inside _ packet, Memory.storeBytes_inside _ packet]

/-! ### All calls -/

/-- `err` is the status of the last call. -/
theorem readSectorsLoop_err (rounds i : Nat) (err : UInt8) (s : State) :
    (readSectorsLoop k d lba edi answers rounds i err s).1 =
      if rounds = 0 then err else (answers (i + rounds - 1)).status := by
  induction rounds generalizing i err s with
  | zero => rfl
  | succ rounds inductionHypothesis =>
      rw [readSectorsLoop, inductionHypothesis, if_neg (Nat.succ_ne_zero rounds)]
      by_cases last : rounds = 0
      · rw [if_pos last, atapiRead_one.1, last]
        rfl
      · rw [if_neg last]
        congr 2
        omega

/-- When no call fails, the memory has changed as the last one alone would change it. -/
theorem readSectorsLoop_mem (rounds i : Nat) (err : UInt8) (s : State)
    (accepted : ∀ j, i ≤ j → j < i + (rounds + 1) → (answers j).status = 0) :
    (readSectorsLoop k d lba edi answers (rounds + 1) i err s).2.mem =
      delivered k (lba + UInt32.ofNat (i + rounds)) s.mem := by
  induction rounds generalizing i err s with
  | zero => exact atapiRead_one.2 (accepted i (Nat.le_refl i) (by omega))
  | succ rounds inductionHypothesis =>
      rw [readSectorsLoop, inductionHypothesis _ _ _ fun j above below =>
        accepted j (by omega) (by omega), atapiRead_one.2 (accepted i (Nat.le_refl i) (by omega)),
        delivered_delivered, show i + 1 + rounds = i + (rounds + 1) by omega]

/-- A call of `read_sectors`. -/
structure Request where
  drive : UInt8
  numsects : UInt8
  lba : UInt32
  edi : UInt32

/-- The sectors of a request are where it wants them. -/
def Request.Held (r : Request) (k : Setup) (m : Memory) : Prop :=
  ∀ i, i < r.numsects.toNat → ∀ j, j < 2048 →
    m (r.edi + UInt32.ofNat (i * 2048 + j)).toNat =
      (k.disc (r.lba + UInt32.ofNat i)).bytes.getD j 0

/-- One of the calls fails. -/
def Request.Fails (r : Request) (answers : Nat → Answer) : Prop :=
  ∃ i, i < r.numsects.toNat ∧ (answers i).status ≠ 0

/-- `read_sectors` reports a failure just when there was one, and delivers the data when there
was none. -/
def Request.Served (r : Request) (k : Setup) (undef : UInt8) (answers : Nat → Answer)
    (s : State) : Prop :=
  ∃ err s', readSectors k undef r.drive r.numsects r.lba r.edi answers s = (some err, s') ∧
    (err ≠ 0 ↔ r.Fails answers) ∧ (¬ r.Fails answers → r.Held k s'.mem)

/-- The drive of a request is there, and is an ATAPI drive. -/
def Request.Present (r : Request) (k : Setup) : Prop :=
  ∃ d, k.ideDevices[r.drive.toNat]? = some d ∧ d.reserved ≠ 0 ∧ d.type = ideAtapi

variable {r : Request} {undef : UInt8}

theorem Request.Present.readSectors_eq (present : r.Present k) :
    ∃ d, readSectors k undef r.drive r.numsects r.lba r.edi answers s =
      Prod.map some id
        (readSectorsLoop k d r.lba r.edi answers r.numsects.toNat 0 undef s) := by
  obtain ⟨d, known, reserved, atapi⟩ := present
  have noAta : d.type ≠ ideAta := by
    rw [atapi]
    decide
  refine ⟨d, ?_⟩
  simp only [readSectors, known]
  rw [if_neg reserved, if_neg fun ata => noAta ata.2, if_neg noAta, if_pos atapi]
  rfl

/-- `Served` without the checks in front of the loop. -/
theorem Request.Present.served_iff_loop (present : r.Present k) :
    ∃ d, r.Served k undef answers s ↔
      ((readSectorsLoop k d r.lba r.edi answers r.numsects.toNat 0 undef s).1 ≠ 0 ↔
        r.Fails answers) ∧ (¬ r.Fails answers →
          r.Held k (readSectorsLoop k d r.lba r.edi answers r.numsects.toNat 0 undef s).2.mem) := by
  obtain ⟨d, ran⟩ := @Request.Present.readSectors_eq k answers s r undef present
  refine ⟨d, ?_, fun outcome => ⟨_, _, ran, outcome⟩⟩
  rintro ⟨err, s', ended, outcome⟩
  obtain ⟨rfl, rfl⟩ := by
    simpa only [Prod.map, Prod.mk.injEq, Option.some.injEq, id] using ran.symm.trans ended
  exact outcome

/-- A request for sectors is served exactly when the last call fails if any of them does, and, if
none does, memory with the last packet and the last sector stored has at `edi` what was asked for.
The memory at `edi` is apart from the screen, the buffer of `kprintf`, the stack and the tables of
the driver, whose stores are left out. -/
theorem Request.Present.served_iff (present : r.Present k) :
    r.Served k undef answers s ↔
      if r.numsects = 0 then undef = 0
      else (r.Fails answers → (answers (r.numsects.toNat - 1)).status ≠ 0) ∧
        (¬ r.Fails answers →
          r.Held k (delivered k (r.lba + UInt32.ofNat (r.numsects.toNat - 1)) s.mem)) := by
  obtain ⟨d, served⟩ := @Request.Present.served_iff_loop k answers s r undef present
  rw [served, readSectorsLoop_err]
  by_cases none : r.numsects = 0
  · have noRounds : r.numsects.toNat = 0 := by simp [none]
    have noFailure : ¬ r.Fails answers := fun ⟨i, below, _⟩ => by omega
    have held (m : Memory) : r.Held k m := fun i below => by omega
    simp [none, noFailure, held]
  · obtain ⟨rounds, count⟩ : ∃ rounds, r.numsects.toNat = rounds + 1 :=
      Nat.exists_eq_succ_of_ne_zero fun zero => none (UInt8.toNat.inj zero)
    rw [if_neg none, count, if_neg (Nat.succ_ne_zero rounds), Nat.zero_add, Nat.add_sub_cancel]
    have lastFails (failed : (answers rounds).status ≠ 0) : r.Fails answers :=
      ⟨rounds, by omega, failed⟩
    refine and_congr ⟨Iff.mpr, Iff.intro lastFails⟩ (forall_congr' fun noFailure => ?_)
    rw [readSectorsLoop_mem rounds 0 undef s, Nat.zero_add]
    intro j _ below
    by_contra failed
    exact noFailure ⟨j, by omega, failed⟩

/-! ### A drive -/

/-- A drive with the same bytes in every sector of its disc. -/
def exampleSetup : Setup :=
  { ideDevices := ⟨#[⟨1, 0, 0, ideAtapi, 0⟩, ⟨0, 0, 0, 0, 0⟩, ⟨0, 0, 0, 0, 0⟩, ⟨0, 0, 0, 0, 0⟩], rfl⟩
    ideBuf := 0x120000
    atapiPacket := 0x121000
    disc := fun _ => ⟨List.replicate 2048 7, List.length_replicate⟩ }

def exampleState : State :=
  { mem := fun _ => 0
    channels := ⟨#[⟨0x1F0, 0x3F4, 0, 0⟩, ⟨0x170, 0x374, 8, 0⟩], rfl⟩
    outputs := [] }

/-- The drive has data after the command and for every sector. -/
def ready : Answer := ⟨0x08, fun _ => 0x08⟩

/-- The drive reports an error. -/
def refusing : Answer := ⟨0x09, fun _ => 0x09⟩

theorem exampleSetup_present {numsects : UInt8} :
    (Request.mk 0 numsects lba edi).Present exampleSetup :=
  ⟨⟨1, 0, 0, ideAtapi, 0⟩, rfl, by decide, rfl⟩

theorem ready_accepts {numsects : UInt8} :
    ¬ (Request.mk 0 numsects lba edi).Fails fun _ => ready :=
  fun ⟨_, _, failed⟩ => absurd (show ready.status = 0 by decide) failed

/-- One sector is served when `ide_buf` is where it is wanted. -/
theorem served_in_ide_buf :
    (Request.mk 0 1 16 0x120000).Served exampleSetup 0 (fun _ => ready) exampleState := by
  refine (Request.Present.served_iff exampleSetup_present).mpr ?_
  rw [if_neg (by decide)]
  refine ⟨fun failed => absurd failed ready_accepts, fun _ i below j inside => ?_⟩
  obtain rfl : i = 0 := Nat.lt_one_iff.mp below
  have address : ((0x120000 : UInt32) + UInt32.ofNat (0 * 2048 + j)).toNat = 0x120000 + j := by
    simp
    omega
  have inBuffer : 0x120000 ≤ 0x120000 + j ∧
      0x120000 + j < 0x120000 + (exampleSetup.disc 16).bytes.length := by
    rw [(exampleSetup.disc 16).whole]
    omega
  have stored := Memory.storeBytes_inside
    (exampleState.mem.storeBytes exampleSetup.atapiPacket (readPacket 16 1)) inBuffer
  rw [Nat.add_sub_cancel_left] at stored
  rw [address]
  exact stored

/-- A failure is forgotten when the last call succeeds; a sector is not where it is wanted; and
without sectors there is no result. -/
theorem sectors_not_served :
    ¬ (Request.mk 0 2 16 0x120000).Served exampleSetup 0
        (fun i => if i = 0 then refusing else ready) exampleState ∧
      ¬ (Request.mk 0 1 16 0x100000).Served exampleSetup 0 (fun _ => ready) exampleState ∧
      ¬ (Request.mk 0 0 16 0x100000).Served exampleSetup 5 (fun _ => ready) exampleState := by
  refine ⟨fun served => ?_, fun served => ?_, fun served => ?_⟩
  · obtain ⟨d, loop⟩ := @Request.Present.served_iff_loop exampleSetup
      (fun i => if i = 0 then refusing else ready) exampleState _ 0
      (@exampleSetup_present 16 0x120000 2)
    have reported := (loop.mp served).1.mpr ⟨0, by decide, by decide⟩
    rw [readSectorsLoop_err] at reported
    exact reported rfl
  · obtain ⟨d, loop⟩ := @Request.Present.served_iff_loop exampleSetup (fun _ => ready) exampleState
      _ 0 (@exampleSetup_present 16 0x100000 1)
    have first := (loop.mp served).2 ready_accepts 0 (by decide) 0 (by decide)
    rw [show (Request.mk 0 1 16 0x100000).numsects.toNat = 0 + 1 from rfl,
      readSectorsLoop_mem 0 0 0 exampleState fun _ _ _ => rfl, delivered,
      Memory.storeBytes_outside _ (.inl (by decide)),
      Memory.storeBytes_outside _ (.inl (by decide))] at first
    exact absurd first (by decide)
  · obtain ⟨d, loop⟩ := @Request.Present.served_iff_loop exampleSetup (fun _ => ready) exampleState
      _ 5 (@exampleSetup_present 16 0x100000 0)
    obtain ⟨i, below, -⟩ := (loop.mp served).1.mp (show (5 : UInt8) ≠ 0 by decide)
    exact absurd below (Nat.not_lt_zero i)

end Balloon.Disc
