import Balloon.Disc.Atapi
import Balloon.Foundation.AtaBus
import Balloon.Printf.Lines

/-!
Owns the embedding of `ide_initialize` of atapi.c up to its last read, with `ide_read`,
`ide_write` and `ide_read_buffer` on the ports of the two channels. Of the drives of any bus that
keep to their times it makes the table `ide_devices`, in order and complete.

The calls of `kprintf` are kept as they are made.
-/

namespace Balloon.Disc

open Balloon.Foundation
open Balloon.Printf

/-! ### The functions -/

/-- `struct ide_device`. -/
structure IdeRecord extends IdeDevice where
  signature : UInt16
  capabilities : UInt16
  commandSets : UInt32
  model : List UInt8

/-- The drives, `channels`, `ide_buf`, `ide_devices`, and the calls of `kprintf` so far. -/
structure Driver where
  bus : AtaBus
  channels : Vector Channel 2
  ideBuf : Memory
  ideDevices : Nat → IdeRecord
  calls : List Call

def ataPrimary : Fin 2 := ⟨0, Nat.zero_lt_two⟩
def ataSecondary : Fin 2 := ⟨1, Nat.one_lt_two⟩
def ataMaster : Fin 2 := ⟨0, Nat.zero_lt_two⟩
def ataSlave : Fin 2 := ⟨1, Nat.one_lt_two⟩
def ataRegData : UInt8 := 0x00
def ataRegStatus : UInt8 := 0x07

namespace Driver

def kprintf (d : Driver) (call : Call) : Driver := { d with calls := d.calls ++ [call] }

/-- `sleep`, which the drives' time passes in. -/
def sleep (d : Driver) (msec : Nat) : Driver := { d with bus := d.bus.pass (msec * d.bus.pace) }

/-- `outb`, when the register has a port. -/
def outb (d : Driver) (port : Option UInt16) (data : UInt8) : Driver :=
  { d with bus := port.elim d.bus fun port => d.bus.outb port data }

/-- `ide_write`. -/
def ideWrite (d : Driver) (channel : Fin 2) (reg data : UInt8) : Driver :=
  let c := d.channels.get channel
  if reg > 0x07 ∧ reg < 0x0C then
    ((d.outb (c.port ataRegControl) (0x80 ||| c.nIEN)).outb (c.port reg) data).outb
      (c.port ataRegControl) c.nIEN
  else d.outb (c.port reg) data

/-- `ide_read`; `none` for a register without a port, whose value is never set. -/
def ideRead (d : Driver) (channel : Fin 2) (reg : UInt8) : Option (UInt8 × Driver) :=
  let c := d.channels.get channel
  let shadowed := decide (reg > 0x07 ∧ reg < 0x0C)
  let d := if shadowed then d.ideWrite channel ataRegControl (0x80 ||| c.nIEN) else d
  (c.port reg).map fun port =>
    let (result, bus) := d.bus.inb port
    let d := { d with bus := bus }
    (result, if shadowed then d.ideWrite channel ataRegControl c.nIEN else d)

/-- The bytes of a word, as `insl` stores them. -/
def portBytes (word : UInt16) : List UInt8 := [word.toUInt8, (word >>> 8).toUInt8]

/-- `ide_read_buffer` into `ide_buf`. -/
def ideReadBuffer (d : Driver) (channel : Fin 2) (reg : UInt8) (quads : Nat) : Driver :=
  let c := d.channels.get channel
  let shadowed := decide (reg > 0x07 ∧ reg < 0x0C)
  let d := if shadowed then d.ideWrite channel ataRegControl (0x80 ||| c.nIEN) else d
  let d := (c.port reg).elim d fun port =>
    let (words, bus) := d.bus.inws port (2 * quads)
    { d with bus := bus, ideBuf := d.ideBuf.storeBytes 0 (words.flatMap portBytes) }
  if shadowed then d.ideWrite channel ataRegControl c.nIEN else d

def setDevice (d : Driver) (n : Nat) (record : IdeRecord) : Driver :=
  { d with ideDevices := fun n' => if n' = n then record else d.ideDevices n' }

end Driver

/-- `*((unsigned short *)(ide_buf + a))`. -/
def shortAt (buf : Memory) (a : Nat) : UInt16 :=
  UInt16.ofNat ((buf a).toNat + 2 ^ 8 * (buf (a + 1)).toNat)

/-- `*((unsigned int *)(ide_buf + a))`. -/
def intAt (buf : Memory) (a : Nat) : UInt32 := UInt32.ofNat (buf.read32 a)

/-- What `ide_initialize` takes from `ide_buf`. -/
def readParameters (buf : Memory) (type : UInt16) (i j : Fin 2) : IdeRecord where
  reserved := 1
  type := type
  channel := i
  drive := UInt8.ofNat j.val
  signature := shortAt buf 0
  capabilities := shortAt buf 98
  commandSets := intAt buf 164
  size := if intAt buf 164 &&& ((1 : UInt32) <<< 26) ≠ 0 then intAt buf 200 else intAt buf 120
  model := ((List.range 20).flatMap fun k => [buf (54 + 2 * k + 1), buf (54 + 2 * k)]) ++ [0]

/-- `kprintf("Checking %d:%d\n", i, j)`. -/
def checkingCall (i j : Fin 2) : Call where
  pieces := literal "Checking ".toList (by decide) ++ directly (.number .decimal) ::
    (literal [':'] (by decide) ++ directly (.number .decimal) :: literal ['\n'] plain_newline)
  args := [.word (UInt32.ofNat i.val), .word (UInt32.ofNat j.val)]

/-- `kprintf(" Found %s Drive[%d] %dB - %s\n", …)`. -/
def foundCall (n : Nat) (record : IdeRecord) : Call where
  pieces := literal " Found ".toList (by decide) ++ directly .string ::
    (literal " Drive[".toList (by decide) ++ directly (.number .decimal) ::
      (literal "] ".toList plain_bracket ++ directly (.number .decimal) ::
        (literal "B - ".toList (by decide) ++ directly .string :: literal ['\n'] plain_newline)))
  args :=
    [.string (if record.type = ideAta then "ATA".toList else "ATAPI".toList),
      .word (UInt32.ofNat n), .word record.size,
      .string ((record.model.takeWhile (· ≠ 0)).map charOf)]

namespace Driver

/-- `while(1)`: whether the drive is not an ATA drive. -/
def identifyLoop (channel : Fin 2) : Nat → Driver → Option (Bool × Driver)
  | 0, _ => none
  | fuel + 1, d =>
      (d.ideRead channel ataRegStatus).bind fun (status, d) =>
        if status &&& 0x01 ≠ 0 then some (true, d)
        else if status &&& 0x80 = 0 ∧ status &&& 0x08 ≠ 0 then some (false, d)
        else identifyLoop channel fuel d

/-- (V) to (VIII). -/
def addDevice (d : Driver) (i j : Fin 2) (type : UInt16) (count : Nat) : Nat × Driver :=
  let d := d.ideReadBuffer i ataRegData 128
  (count + 1, d.setDevice count (readParameters d.ideBuf type i j))

/-- The start of a round. -/
def checkPlace (d : Driver) (i j : Fin 2) (count : Nat) : Driver :=
  (d.kprintf (checkingCall i j)).setDevice count { d.ideDevices count with reserved := 0 }

/-- (I) and (II). -/
def sendIdentify (d : Driver) (i j : Fin 2) : Driver :=
  let d := (d.ideWrite i ataRegHddevsel ((0xA0 : UInt8) ||| (UInt8.ofNat j.val <<< (4 : UInt8)))).sleep 1
  (d.ideWrite i ataRegCommand 0xEC).sleep 1

/-- (IV), and what follows for the drives it knows. -/
def probeAtapi (d : Driver) (i j : Fin 2) (count : Nat) : Option (Nat × Driver) :=
  (d.ideRead i ataRegLba1).bind fun (cl, d) =>
    (d.ideRead i ataRegLba2).map fun (ch, d) =>
      if (cl = 0x14 ∧ ch = 0xEB) ∨ (cl = 0x69 ∧ ch = 0x96) then
        ((d.ideWrite i ataRegCommand 0xA1).sleep 1).addDevice i j ideAtapi count
      else (count, d)

/-- A round of the two loops, with `count`. -/
def probe (fuel : Nat) (i j : Fin 2) (count : Nat) (d : Driver) : Option (Nat × Driver) :=
  (((d.checkPlace i j count).sendIdentify i j).ideRead i ataRegStatus).bind fun (status, d) =>
    if status = 0 then some (count, d)
    else
      (identifyLoop i fuel d).bind fun (err, d) =>
        if err then d.probeAtapi i j count else some (d.addDevice i j ideAta count)

/-- The summary. -/
def printSummary (d : Driver) : Driver :=
  (List.range 4).foldl (fun d n =>
    if (d.ideDevices n).reserved = 1 then d.kprintf (foundCall n (d.ideDevices n)) else d) d

end Driver

/-- The rounds of the two loops. -/
def places : List (Fin 2 × Fin 2) :=
  [(ataPrimary, ataMaster), (ataPrimary, ataSlave), (ataSecondary, ataMaster),
    (ataSecondary, ataSlave)]

/-- A port that a base address register gives, or the usual one. -/
def barPort (bar usual : UInt32) : UInt16 :=
  ((bar &&& 0xFFFFFFFC) + usual * (if bar = 0 then 1 else 0)).toUInt16

/-- `channels`, from the base address registers. -/
def channelsOf (BAR0 BAR1 BAR2 BAR3 BAR4 : UInt32) (channels : Vector Channel 2) : Vector Channel 2 :=
  #v[{ base := barPort BAR0 0x1F0, ctrl := barPort BAR1 0x3F4,
       bmide := ((BAR4 &&& 0xFFFFFFFC) + 0).toUInt16, nIEN := channels[0].nIEN },
    { base := barPort BAR2 0x170, ctrl := barPort BAR3 0x374,
      bmide := ((BAR4 &&& 0xFFFFFFFC) + 8).toUInt16, nIEN := channels[1].nIEN }]

/-- `ide_initialize` up to its call of `atapi_read`, with `fuel` rounds for each `while(1)`. -/
def ideInitialize (fuel : Nat) (BAR0 BAR1 BAR2 BAR3 BAR4 : UInt32) (d : Driver) : Option Driver :=
  let d := { d with channels := channelsOf BAR0 BAR1 BAR2 BAR3 BAR4 d.channels }
  let d := (d.ideWrite ataPrimary ataRegControl 2).ideWrite ataSecondary ataRegControl 2
  (places.foldlM (fun s place => Driver.probe fuel place.1 place.2 s.1 s.2) (0, d)).map
    fun s => s.2.printSummary

end Balloon.Disc
