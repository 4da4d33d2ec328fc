import Balloon.Ramdisk.Model

/-!
Owns the embedding of build_ramdisk.c and what the kernel's packed headers make
of its output. The host's `ramfs_file_header_t` is not packed: it takes 76
bytes, with `offset` at 68 and `length` at 72, where the kernel reads records of
73 bytes with `offset` at 65 and `length` at 69. `printf` and `getcwd` are left
out; every listed file can be opened.
-/

namespace Balloon.Ramdisk

open Balloon.Foundation
open Balloon.Libc

/-! ### The host program -/

/-- A directory entry and the file behind it. -/
structure HostFile where
  name : List UInt8
  contents : List UInt8

/-- `sizeof(ramfs_file_header_t)` on the host: `magic` at 0, `name` at 1,
`offset` at 68 and `length` at 72. -/
def sizeofHostHeader : Nat := 76

def strcpy (m : Memory) (dest : Nat) : List UInt8 → Memory
  | [] => m.write8 dest 0
  | c :: rest => strcpy (m.write8 dest c.toNat) (dest + 1) rest

/-- The array `headers`, `nheaders` (which is also `i`) and `off`. -/
structure Builder where
  headers : Memory
  nheaders : Nat
  off : Nat

/-- One round of the `readdir` loop. -/
def addEntry (b : Builder) (ent : HostFile) : Builder :=
  if ent.name.length < 3 then b
  else
    let header := sizeofHostHeader * b.nheaders
    let headers := strcpy b.headers (header + 1) ent.name
    let headers := headers.write32 (header + 68) b.off
    let headers := headers.write32 (header + 72) ent.contents.length
    { headers := headers.write8 header 0x0B
      nheaders := b.nheaders + 1
      off := wrap32 (b.off + headers.read32 (header + 72)) }

/-- The loop over the directory; the array starts with whatever the stack held. -/
def addEntries (dir : List HostFile) (garbage : Memory) : Builder :=
  dir.foldl addEntry ⟨garbage, 0, sizeofHostHeader * 64 + 4⟩

/-- `headers[i].name`. -/
def hostName (headers : Memory) (i : Nat) : List UInt8 :=
  ((List.range 64).map fun k => headers (sizeofHostHeader * i + 1 + k)).takeWhile (· ≠ 0)

/-- What `fread` takes from the file named in `headers[i]`. -/
def hostContents (dir : List HostFile) (headers : Memory) (i : Nat) : List UInt8 :=
  ((dir.find? fun file => file.name = hostName headers i).elim [] HostFile.contents).take
    (headers.read32 (sizeofHostHeader * i + 72))

def wordBytes (n : Nat) : List UInt8 :=
  [UInt8.ofNat n, UInt8.ofNat (n / 0x100), UInt8.ofNat (n / 0x10000), UInt8.ofNat (n / 0x1000000)]

/-- The file `main` writes. -/
def image (dir : List HostFile) (garbage : Memory) : List UInt8 :=
  let b := addEntries dir garbage
  wordBytes b.nheaders ++ (List.range (sizeofHostHeader * 64)).map b.headers ++
    (List.range b.nheaders).flatMap (hostContents dir b.headers)

/-! ### What the host lays out -/

theorem strcpy_outside (m : Memory) {dest a : Nat} (s : List UInt8)
    (outside : a < dest ∨ dest + s.length < a) : strcpy m dest s a = m a := by
  induction s generalizing m dest with
  | nil => exact Memory.write8_of_ne m 0 (by simp only [List.length_nil] at outside; omega)
  | cons c rest inductionHypothesis =>
      rw [List.length_cons] at outside
      rw [strcpy, inductionHypothesis _ (by omega)]
      exact Memory.write8_of_ne m _ (by omega)

/-- The characters and the NUL are at the destination. -/
theorem strcpy_inside (m : Memory) (dest : Nat) (s : List UInt8) :
    (∀ k (inside : k < s.length), strcpy m dest s (dest + k) = s[k]) ∧
      strcpy m dest s (dest + s.length) = 0 := by
  induction s generalizing m dest with
  | nil => exact ⟨nofun, Memory.write8_same m dest 0⟩
  | cons c rest inductionHypothesis =>
      obtain ⟨chars, nul⟩ := inductionHypothesis (m.write8 dest c.toNat) (dest + 1)
      constructor
      · intro k inside
        cases k with
        | zero =>
            rw [strcpy, strcpy_outside _ _ (by omega)]
            simp
        | succ k =>
            rw [strcpy, show dest + (k + 1) = dest + 1 + k by omega]
            exact chars k (by simpa using inside)
      · rw [strcpy, List.length_cons, show dest + (rest.length + 1) = dest + 1 + rest.length by omega]
        exact nul

/-- A name that gets a record and fits there: 3 to 63 characters. -/
structure HostFile.Named (file : HostFile) : Prop where
  long : 3 ≤ file.name.length
  short : file.name.length ≤ 63
  chars : ∀ c ∈ file.name, c ≠ 0

/-- Record `i` describes the file. -/
structure Recorded (headers : Memory) (i : Nat) (file : HostFile) : Prop where
  magic : headers (76 * i) = 0x0B
  name : ∀ k (inside : k < file.name.length), headers (76 * i + 1 + k) = file.name[k]
  nul : headers (76 * i + 1 + file.name.length) = 0
  length : headers.read32 (76 * i + 72) = file.contents.length % 2 ^ 32

theorem Recorded.congr {headers headers' : Memory} {i : Nat} {file : HostFile}
    (recorded : Recorded headers i file) (named : file.Named)
    (same : ∀ o, o < 76 → headers' (76 * i + o) = headers (76 * i + o)) :
    Recorded headers' i file where
  magic := (same 0 (by omega)).trans recorded.magic
  name := fun k inside => by
    have short := named.short
    rw [Nat.add_assoc, same _ (by omega), ← Nat.add_assoc]
    exact recorded.name k inside
  nul := by
    have short := named.short
    rw [Nat.add_assoc, same _ (by omega), ← Nat.add_assoc]
    exact recorded.nul
  length := by
    rw [← recorded.length]
    exact Memory.read32_congr fun k bound => by
      rw [Nat.add_assoc, same _ (by omega)]

/-- One round adds one record and keeps the earlier ones. -/
theorem addEntry_spec (b : Builder) {file : HostFile} (named : file.Named) :
    (addEntry b file).nheaders = b.nheaders + 1 ∧
      Recorded (addEntry b file).headers b.nheaders file ∧
      (addEntry b file).headers.read32 (76 * b.nheaders + 68) = b.off % 2 ^ 32 ∧
      ∀ a, a < 76 * b.nheaders → (addEntry b file).headers a = b.headers a := by
  have long := named.long
  have short := named.short
  obtain ⟨chars, nul⟩ := strcpy_inside b.headers (76 * b.nheaders + 1) file.name
  simp only [addEntry, if_neg (Nat.not_lt.mpr long), sizeofHostHeader]
  refine ⟨trivial, ⟨?_, fun k inside => ?_, ?_, ?_⟩, ?_, fun a before => ?_⟩
  · simp
  · rw [Memory.write8_of_ne _ _ (by omega), Memory.write32_outside _ _ (by omega),
      Memory.write32_outside _ _ (by omega), chars k inside]
  · rw [Memory.write8_of_ne _ _ (by omega), Memory.write32_outside _ _ (by omega),
      Memory.write32_outside _ _ (by omega), nul]
  · rw [← Memory.read32_write32_same _ (76 * b.nheaders + 72)]
    exact Memory.read32_congr fun k bound => Memory.write8_of_ne _ _ (by omega)
  · rw [← Memory.read32_write32_same _ (76 * b.nheaders + 68)]
    refine Memory.read32_congr fun k bound => ?_
    rw [Memory.write8_of_ne _ _ (by omega), Memory.write32_outside _ _ (by omega)]
  · rw [Memory.write8_of_ne _ _ (by omega), Memory.write32_outside _ _ (by omega),
      Memory.write32_outside _ _ (by omega), strcpy_outside _ _ (by omega)]

/-- The loop makes one record for each file, in order. -/
theorem addEntries_spec {files : List HostFile} (named : ∀ file ∈ files, file.Named)
    (b : Builder) :
    (files.foldl addEntry b).nheaders = b.nheaders + files.length ∧
      (∀ i (inside : i < files.length),
        Recorded (files.foldl addEntry b).headers (b.nheaders + i) files[i]) ∧
      ∀ a, a < 76 * b.nheaders → (files.foldl addEntry b).headers a = b.headers a := by
  induction files generalizing b with
  | nil => exact ⟨rfl, nofun, fun _ _ => rfl⟩
  | cons file rest inductionHypothesis =>
      have namedFile := named file List.mem_cons_self
      obtain ⟨count, recorded, -, kept⟩ := addEntry_spec b namedFile
      obtain ⟨countRest, recordedRest, keptRest⟩ :=
        inductionHypothesis (fun f member => named f (List.mem_cons_of_mem _ member))
          (addEntry b file)
      rw [count] at countRest recordedRest keptRest
      rw [List.foldl_cons]
      refine ⟨by rw [countRest, List.length_cons]; omega, fun i inside => ?_, fun a before => ?_⟩
      · cases i with
        | zero => exact recorded.congr namedFile fun o low => keptRest _ (by omega)
        | succ i =>
            rw [show b.nheaders + (i + 1) = b.nheaders + 1 + i by omega]
            exact recordedRest i (by simpa using inside)
      · rw [keptRest a (by omega), kept a before]

end Balloon.Ramdisk
