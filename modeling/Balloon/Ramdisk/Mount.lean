import Balloon.Ramdisk.Model
import Balloon.Allocator.Requests

/-!
Owns what `ramfs_mount` leaves in memory: the adjusted header offsets, the
names and read pointers of the nodes, and every other byte as it was. From
this follows exactly when the nodes name and deliver their files.
-/

namespace Balloon.Ramdisk

open Balloon.Foundation
open Balloon.Libc
open Balloon.Allocator

/-- An image at `[start, stop)`: the header table, the names and the ranges of
the files lie inside it. -/
structure Image (m : Memory) (start stop : Nat) : Prop where
  table : start + 4 + 73 * m.read32 start ≤ stop
  names : ∀ i, i < m.read32 start → ∃ len, len < 64 ∧ CString m (start + 4 + 73 * i + 1) len
  ranges : ∀ i, i < m.read32 start →
    start + m.read32 (start + 4 + 73 * i + 65) + m.read32 (start + 4 + 73 * i + 69) ≤ stop

/-! ### One round of the loop -/

/-- A round sets one header's offset, one node's name and read pointer, and
nothing else. -/
theorem mountFile_spec {m : Memory} {readAddr start nodes i header node len : Nat}
    (isHeader : fileHeader start i = header) (isNode : nodeOf nodes i = node)
    (below : header + 73 ≤ node) (fits : node + 160 ≤ 2 ^ 32)
    (string : CString m (header + 1) len) (short : len < 64)
    (offset : start + m.read32 (header + 65) < 2 ^ 32) (addrLt : readAddr < 2 ^ 32) :
    ∃ m', mountFile readAddr start nodes m i = some m' ∧
      m'.read32 (header + 65) = start + m.read32 (header + 65) ∧
      (∀ k, k < len → m' (node + k) = m (header + 1 + k)) ∧
      m'.read32 (node + 156) = readAddr ∧
      ∀ a, (a < header + 65 ∨ header + 69 ≤ a) → (a < node ∨ node + len ≤ a) →
        (a < node + 156 ∨ node + 160 ≤ a) → m' a = m a := by
  have adjusted : wrap32 (offsetOf m header + start) = start + m.read32 (header + 65) := by
    rw [offsetOf, addressed_read32 m (by omega), Nat.add_comm, wrap32_of_lt offset]
  have name : nameOf header = header + 1 := wrap32_of_lt (by omega)
  generalize atHeader : m.write32 (header + 65) (start + m.read32 (header + 65)) = m₁
  have kept₁ : ∀ a, a < header + 65 ∨ header + 69 ≤ a → m₁ a = m a := by
    intro a outside
    rw [← atHeader]
    exact Memory.write32_outside m _ (by omega)
  have string₁ : CString m₁ (header + 1) len :=
    string.congr fun k bound => kept₁ _ (by omega)
  have measured : strlen m₁ (header + 1) = some len := strlen_eq string₁ (by omega)
  have copied : memcpy m₁ node (header + 1) len = m₁.copy node (header + 1) len :=
    memcpy_eq_copy m₁ (by omega) (by omega) (by omega)
  refine ⟨(m₁.copy node (header + 1) len).write32 (node + 156) readAddr, ?_, ?_, ?_, ?_, ?_⟩
  · simp only [mountFile, isHeader, isNode, adjusted, name, atHeader, measured, Option.map_some,
      copied]
  · rw [Memory.read32_write32_disjoint _ _ (by omega), Memory.read32_copy_disjoint _ (by omega),
      ← atHeader, Memory.read32_write32_same, Nat.mod_eq_of_lt offset]
  · intro k inside
    rw [Memory.write32_outside _ _ (by omega), Memory.copy_inside _ (by omega),
      kept₁ _ (by omega), Nat.add_sub_cancel_left]
  · rw [Memory.read32_write32_same, Nat.mod_eq_of_lt addrLt]
  · intro a outHeader outName outRead
    rw [Memory.write32_outside _ _ (by omega), Memory.copy_outside _ outName, kept₁ a outHeader]

/-! ### The loop -/

/-- The first `i` files are mounted: `m` differs from `m₀` in their offsets,
names and read pointers only. -/
structure Mounted (m₀ m : Memory) (readAddr start nodes : Nat) (len : Nat → Nat) (i : Nat) :
    Prop where
  offset : ∀ j, j < i → m.read32 (start + 4 + 73 * j + 65) =
    start + m₀.read32 (start + 4 + 73 * j + 65)
  name : ∀ j, j < i → ∀ k, k < len j →
    m (nodes + 160 * j + k) = m₀ (start + 4 + 73 * j + 1 + k)
  read : ∀ j, j < i → m.read32 (nodes + 160 * j + 156) = readAddr
  kept : ∀ a, (∀ j, j < i →
      (a < start + 4 + 73 * j + 65 ∨ start + 4 + 73 * j + 69 ≤ a) ∧
      (a < nodes + 160 * j ∨ nodes + 160 * j + len j ≤ a) ∧
      (a < nodes + 160 * j + 156 ∨ nodes + 160 * j + 160 ≤ a)) → m a = m₀ a

/-- Where the image and the nodes lie, and the lengths of the names. -/
structure Placement (m₀ : Memory) (start nodes n : Nat) (len : Nat → Nat) : Prop where
  below : start + 4 + 73 * n ≤ nodes
  fits : nodes + 160 * n ≤ 2 ^ 32
  short : ∀ j, j < n → len j < 64
  string : ∀ j, j < n → CString m₀ (start + 4 + 73 * j + 1) (len j)
  offset : ∀ j, j < n → start + m₀.read32 (start + 4 + 73 * j + 65) < 2 ^ 32

variable {m₀ m : Memory} {readAddr start nodes n i : Nat} {len : Nat → Nat}

/-- A header that is not mounted yet is as it was. -/
theorem Mounted.header (mounted : Mounted m₀ m readAddr start nodes len i)
    (place : Placement m₀ start nodes n len) {j : Nat} (later : i ≤ j) (bound : j < n) :
    ∀ o, o < 73 → m (start + 4 + 73 * j + o) = m₀ (start + 4 + 73 * j + o) := by
  intro o low
  have below := place.below
  refine mounted.kept _ fun j' before => ?_
  omega

/-- The bytes of a header outside its offset never change. -/
theorem Mounted.headerRest (mounted : Mounted m₀ m readAddr start nodes len i)
    (place : Placement m₀ start nodes n len) {j : Nat} (bound : j < n) :
    ∀ o, o < 65 ∨ (69 ≤ o ∧ o < 73) →
      m (start + 4 + 73 * j + o) = m₀ (start + 4 + 73 * j + o) := by
  intro o outside
  have below := place.below
  refine mounted.kept _ fun j' before => ?_
  omega

/-- The bytes of a node behind its name and before its read pointer never
change. -/
theorem Mounted.nodeRest (mounted : Mounted m₀ m readAddr start nodes len i)
    (place : Placement m₀ start nodes n len) (within : i ≤ n) {j : Nat} (bound : j < n) :
    ∀ o, len j ≤ o → o < 156 → m (nodes + 160 * j + o) = m₀ (nodes + 160 * j + o) := by
  intro o above under
  have below := place.below
  refine mounted.kept _ fun j' before => ?_
  have short := place.short j' (by omega)
  have apart : j' = j ∨ j' ≠ j := em (j' = j)
  rcases apart with rfl | different
  · omega
  · omega

theorem Mounted.nfiles (mounted : Mounted m₀ m readAddr start nodes len i)
    (place : Placement m₀ start nodes n len) (within : i ≤ n) :
    m.read32 start = m₀.read32 start := by
  have below := place.below
  refine Memory.read32_congr fun k bound => mounted.kept _ fun j before => ?_
  omega

theorem mounted_zero (m : Memory) (readAddr start nodes : Nat) (len : Nat → Nat) :
    Mounted m m readAddr start nodes len 0 :=
  ⟨nofun, nofun, nofun, fun _ _ => rfl⟩

/-- One more file. -/
theorem Mounted.step (mounted : Mounted m₀ m readAddr start nodes len i)
    (place : Placement m₀ start nodes n len) (more : i < n) (addrLt : readAddr < 2 ^ 32) :
    ∃ m', mountFile readAddr start nodes m i = some m' ∧
      Mounted m₀ m' readAddr start nodes len (i + 1) := by
  have below := place.below
  have fits := place.fits
  have short := place.short i more
  have same := mounted.header place (Nat.le_refl i) more
  have sameOffset : m.read32 (start + 4 + 73 * i + 65) = m₀.read32 (start + 4 + 73 * i + 65) :=
    Memory.read32_congr fun k bound => by
      rw [Nat.add_assoc]
      exact same _ (by omega)
  have isHeader : fileHeader start i = start + 4 + 73 * i := wrap32_of_lt (by
    simp only [sizeofHeader, sizeofFileHeader]
    omega)
  have isNode : nodeOf nodes i = nodes + 160 * i := wrap32_of_lt (by
    simp only [sizeofNode]
    omega)
  have string : CString m (start + 4 + 73 * i + 1) (len i) :=
    (place.string i more).congr fun k bound => by
      rw [Nat.add_assoc]
      exact same _ (by omega)
  obtain ⟨m', returned, offset, name, read, kept⟩ := mountFile_spec isHeader isNode (by omega)
    (by omega) string short (by rw [sameOffset]; exact place.offset i more) addrLt
  refine ⟨m', returned, ?_, ?_, ?_, ?_⟩
  · intro j before
    rcases Nat.lt_succ_iff_lt_or_eq.mp before with old | rfl
    · rw [← mounted.offset j old]
      exact Memory.read32_congr fun k bound => kept _ (by omega) (by omega) (by omega)
    · rw [offset, sameOffset]
  · intro j before k inside
    rcases Nat.lt_succ_iff_lt_or_eq.mp before with old | rfl
    · have shortOld := place.short j (by omega)
      rw [← mounted.name j old k inside]
      exact kept _ (by omega) (by omega) (by omega)
    · rw [name k inside, Nat.add_assoc (start + 4 + 73 * j) 1 k]
      exact same _ (by omega)
  · intro j before
    rcases Nat.lt_succ_iff_lt_or_eq.mp before with old | rfl
    · rw [← mounted.read j old]
      exact Memory.read32_congr fun k bound => kept _ (by omega) (by omega) (by omega)
    · exact read
  · intro a outside
    obtain ⟨outHeader, outName, outRead⟩ := outside i (Nat.lt_succ_self i)
    rw [kept a outHeader outName outRead]
    exact mounted.kept a fun j before => outside j (Nat.lt_succ_of_lt before)

/-- The loop mounts every file. -/
theorem Mounted.loop (mounted : Mounted m₀ m readAddr start nodes len i)
    (place : Placement m₀ start nodes (m₀.read32 start) len) (within : i ≤ m₀.read32 start)
    (addrLt : readAddr < 2 ^ 32) (fuel : Nat) (enough : m₀.read32 start < i + fuel) :
    ∃ m', mountFiles readAddr start nodes fuel i m = some m' ∧
      Mounted m₀ m' readAddr start nodes len (m₀.read32 start) := by
  induction fuel generalizing m i with
  | zero => omega
  | succ fuel inductionHypothesis =>
      have nfiles := mounted.nfiles place within
      rw [mountFiles, nfiles]
      rcases Nat.lt_or_eq_of_le within with more | done
      · obtain ⟨m₁, returned, mounted₁⟩ := mounted.step place more addrLt
        rw [if_pos more, returned, Option.bind_some]
        exact inductionHypothesis mounted₁ more (by omega)
      · rw [if_neg (by omega)]
        exact ⟨m, rfl, done ▸ mounted⟩

end Balloon.Ramdisk
