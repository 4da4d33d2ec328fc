import Mathlib.Tactic.SplitIfs
import Balloon.Foundation.Descriptors
import Balloon.Libc.Memory

/-!
Owns gdt.c and the table of idt.c: what `gdt_set_gate` and `idt_set_gate` store is what the
processor reads back, `init_gdt` leaves flat segments, and `init_idt` a gate for every vector that
has a stub and for no other.
-/

namespace Balloon.Interrupts

open Balloon.Foundation Balloon.Libc

/-! ### The code -/

/-- `gdt_set_gate`. The flags in `granularity` are added to the bits of the limit. -/
def gdtSetGate (m : Memory) (entries num base limit access gran : Nat) : Memory :=
  let entry := entries + 8 * num
  let m := m.write16 (entry + 2) (base % 2 ^ 16)
  let m := m.write8 (entry + 4) (base / 2 ^ 16 % 2 ^ 8)
  let m := m.write8 (entry + 7) (base / 2 ^ 24 % 2 ^ 8)
  let m := m.write16 entry (limit % 2 ^ 16)
  let m := m.write8 (entry + 6) (limit / 2 ^ 16 &&& 0x0F)
  let m := m.write8 (entry + 6) ((m (entry + 6)).toNat ||| (gran &&& 0xF0))
  m.write8 (entry + 5) access

/-- `idt_set_gate`, whose `num` is a byte. -/
def idtSetGate (m : Memory) (entries num base sel flags : Nat) : Memory :=
  let entry := entries + 8 * (num % 2 ^ 8)
  let m := m.write16 entry (base % 2 ^ 16)
  let m := m.write16 (entry + 6) (base / 2 ^ 16 % 2 ^ 16)
  let m := m.write16 (entry + 2) sel
  let m := m.write8 (entry + 4) 0
  m.write8 (entry + 5) flags

/-- The five segments of `init_gdt`, as base, limit, access and granularity. -/
def segments : List (Nat × Nat × Nat × Nat) :=
  [(0, 0, 0, 0), (0, 0xFFFFFFFF, 0x9A, 0xCF), (0, 0xFFFFFFFF, 0x92, 0xCF),
    (0, 0xFFFFFFFF, 0xFA, 0xCF), (0, 0xFFFFFFFF, 0xF2, 0xCF)]

/-- `init_gdt` up to `gdt_flush`: `gdt_entries` and what `gdt_ptr` says of them. -/
def initGdt (m : Memory) (entries : Nat) : Memory × Table :=
  ((segments.zipIdx).foldl
      (fun m (segment, num) =>
        gdtSetGate m entries num segment.1 segment.2.1 segment.2.2.1 segment.2.2.2) m,
    ⟨entries, 8 * 5 - 1⟩)

/-- The vectors that `init_idt` gives a gate, in its order. -/
def vectors : List Nat := List.range 48 ++ [255]

/-- `init_idt` up to `idt_flush` without its writes to the interrupt controllers; `stubs` are the
addresses of the stubs. The last entry is not cleared. -/
def initIdt (m : Memory) (handlers entries : Nat) (stubs : Nat → Nat) : Memory × Table :=
  let m := memset m handlers 0 (4 * 256)
  let m := memset m entries 0 (8 * 255)
  (vectors.foldl (fun m num => idtSetGate m entries num (stubs num) 0x08 0x8E) m,
    ⟨entries, 8 * 256 - 1⟩)

/-! ### One entry -/

variable {m : Memory} {entries : Nat}

theorem idtSetGate_outside (m : Memory) {num base sel flags a : Nat}
    (outside : a < entries + 8 * (num % 2 ^ 8) ∨ entries + 8 * (num % 2 ^ 8) + 8 ≤ a) :
    idtSetGate m entries num base sel flags a = m a := by
  unfold idtSetGate
  rw [Memory.write8_of_ne _ _ (by omega), Memory.write8_of_ne _ _ (by omega),
    Memory.write16_outside _ _ (by omega), Memory.write16_outside _ _ (by omega),
    Memory.write16_outside _ _ (by omega)]

theorem gdtSetGate_outside (m : Memory) {num base limit access gran a : Nat}
    (outside : a < entries + 8 * num ∨ entries + 8 * num + 8 ≤ a) :
    gdtSetGate m entries num base limit access gran a = m a := by
  unfold gdtSetGate
  rw [Memory.write8_of_ne _ _ (by omega), Memory.write8_of_ne _ _ (by omega),
    Memory.write8_of_ne _ _ (by omega), Memory.write16_outside _ _ (by omega),
    Memory.write8_of_ne _ _ (by omega), Memory.write8_of_ne _ _ (by omega),
    Memory.write16_outside _ _ (by omega)]

/-- What the processor makes of the bytes that `idt_set_gate` stores. -/
theorem gateAt_idtSetGate (m : Memory) (entries num : Nat) {base sel flags : Nat}
    (baseFits : base < 2 ^ 32) (selFits : sel < 2 ^ 16) (flagsFit : flags < 2 ^ 8) :
    gateAt (idtSetGate m entries num base sel flags) (entries + 8 * (num % 2 ^ 8)) =
      if flags / 0x80 = 1 ∧ flags % 0x20 = 0xE then some ⟨base, sel, flags / 0x20 % 4⟩
      else none := by
  generalize placed : entries + 8 * (num % 2 ^ 8) = entry
  have flagsByte : (idtSetGate m entries num base sel flags (entry + 5)).toNat = flags := by
    unfold idtSetGate
    rw [placed, Memory.write8_same, UInt8.toNat_ofNat']
    exact Nat.mod_eq_of_lt flagsFit
  have low : (idtSetGate m entries num base sel flags).read16 entry = base % 2 ^ 16 := by
    unfold idtSetGate
    rw [placed, Memory.read16_write8 _ _ (by omega), Memory.read16_write8 _ _ (by omega),
      Memory.read16_write16_of_apart _ _ (by omega), Memory.read16_write16_of_apart _ _ (by omega),
      Memory.read16_write16_same]
    omega
  have high : (idtSetGate m entries num base sel flags).read16 (entry + 6) = base / 2 ^ 16 := by
    unfold idtSetGate
    rw [placed, Memory.read16_write8 _ _ (by omega), Memory.read16_write8 _ _ (by omega),
      Memory.read16_write16_of_apart _ _ (by omega), Memory.read16_write16_same]
    omega
  have selector : (idtSetGate m entries num base sel flags).read16 (entry + 2) = sel := by
    unfold idtSetGate
    rw [placed, Memory.read16_write8 _ _ (by omega), Memory.read16_write8 _ _ (by omega),
      Memory.read16_write16_same]
    exact Nat.mod_eq_of_lt selFits
  rw [gateAt, flagsByte, low, high, selector]
  congr 3
  omega

/-- The flags of a segment are added to the bits of its limit. -/
theorem granularity_eq {limit gran : Nat} (fits : gran < 2 ^ 8) :
    (limit / 2 ^ 16 &&& 0x0F ||| (gran &&& 0xF0)) = limit / 2 ^ 16 % 2 ^ 4 + 2 ^ 4 * (gran / 2 ^ 4) := by
  have upper : (gran &&& 0xF0) = 2 ^ 4 * (gran / 2 ^ 4) := by
    have bits : (gran &&& 0xF0) / 2 ^ 4 = gran / 2 ^ 4 % 2 ^ 4 := by
      rw [Nat.and_div_two_pow]
      exact Nat.and_two_pow_sub_one_eq_mod _ 4
    have none : (gran &&& 0xF0) % 2 ^ 4 = 0 := by
      rw [Nat.and_mod_two_pow]
      exact Nat.and_zero _
    omega
  have lower : limit / 2 ^ 16 &&& 0x0F = limit / 2 ^ 16 % 2 ^ 4 :=
    Nat.and_two_pow_sub_one_eq_mod _ 4
  rw [lower, upper, Nat.or_comm, ← Nat.two_pow_add_eq_or_of_lt (Nat.mod_lt _ (by decide)),
    Nat.add_comm]

/-- What the processor makes of the bytes that `gdt_set_gate` stores: of the limit it has the low
twenty bits. -/
theorem segmentAt_gdtSetGate (m : Memory) (entries num : Nat) {base limit access gran : Nat}
    (baseFits : base < 2 ^ 32) (accessFits : access < 2 ^ 8) (granFits : gran < 2 ^ 8) :
    segmentAt (gdtSetGate m entries num base limit access gran) (entries + 8 * num) =
      if access / 0x80 = 1 ∧ access / 0x10 % 2 = 1 then
        some
          { base := base
            limit := scaledLimit (limit % 2 ^ 20) (gran / 0x80 = 1)
            code := access / 8 % 2 = 1
            writable := access / 2 % 2 = 1
            dpl := access / 0x20 % 4
            wide := gran / 0x40 % 2 = 1 }
      else none := by
  generalize placed : entries + 8 * num = entry
  have accessByte : (gdtSetGate m entries num base limit access gran (entry + 5)).toNat = access := by
    unfold gdtSetGate
    rw [placed, Memory.write8_same, UInt8.toNat_ofNat']
    exact Nat.mod_eq_of_lt accessFits
  have flagsByte : (gdtSetGate m entries num base limit access gran (entry + 6)).toNat =
      limit / 2 ^ 16 % 2 ^ 4 + 2 ^ 4 * (gran / 2 ^ 4) := by
    have nibble : (limit / 2 ^ 16 &&& 0x0F) % 2 ^ 8 = limit / 2 ^ 16 &&& 0x0F :=
      Nat.mod_eq_of_lt (Nat.lt_of_le_of_lt Nat.and_le_right (by decide))
    unfold gdtSetGate
    rw [placed, Memory.write8_of_ne _ _ (by omega), Memory.write8_same, Memory.write8_same,
      UInt8.toNat_ofNat', UInt8.toNat_ofNat', nibble, granularity_eq granFits]
    omega
  have middle : (gdtSetGate m entries num base limit access gran (entry + 4)).toNat =
      base / 2 ^ 16 % 2 ^ 8 := by
    unfold gdtSetGate
    rw [placed, Memory.write8_of_ne _ _ (by omega), Memory.write8_of_ne _ _ (by omega),
      Memory.write8_of_ne _ _ (by omega), Memory.write16_outside _ _ (by omega),
      Memory.write8_of_ne _ _ (by omega), Memory.write8_same, UInt8.toNat_ofNat']
    omega
  have high : (gdtSetGate m entries num base limit access gran (entry + 7)).toNat =
      base / 2 ^ 24 := by
    unfold gdtSetGate
    rw [placed, Memory.write8_of_ne _ _ (by omega), Memory.write8_of_ne _ _ (by omega),
      Memory.write8_of_ne _ _ (by omega), Memory.write16_outside _ _ (by omega),
      Memory.write8_same, UInt8.toNat_ofNat']
    omega
  have low : (gdtSetGate m entries num base limit access gran).read16 (entry + 2) =
      base % 2 ^ 16 := by
    unfold gdtSetGate
    rw [placed, Memory.read16_write8 _ _ (by omega), Memory.read16_write8 _ _ (by omega),
      Memory.read16_write8 _ _ (by omega), Memory.read16_write16_of_apart _ _ (by omega),
      Memory.read16_write8 _ _ (by omega), Memory.read16_write8 _ _ (by omega),
      Memory.read16_write16_same]
    omega
  have limitLow : (gdtSetGate m entries num base limit access gran).read16 entry =
      limit % 2 ^ 16 := by
    unfold gdtSetGate
    rw [placed, Memory.read16_write8 _ _ (by omega), Memory.read16_write8 _ _ (by omega),
      Memory.read16_write8 _ _ (by omega), Memory.read16_write16_same]
    omega
  rw [segmentAt, accessByte, flagsByte, middle, high, low, limitLow]
  congr 2
  simp only [MemorySegment.mk.injEq, decide_eq_decide, true_and]
  refine ⟨by omega, ?_, by omega⟩
  congr 1
  · omega
  · rw [decide_eq_decide]
    omega

/-! ### The tables -/

/-- One gate of a table of 256. -/
theorem gateOf_idtSetGate (m : Memory) (entries : Nat) {num vector base sel flags : Nat}
    (isVector : vector < 256) (isNum : num < 256) (baseFits : base < 2 ^ 32)
    (selFits : sel < 2 ^ 16) (flagsFit : flags < 2 ^ 8) :
    gateOf (idtSetGate m entries num base sel flags) ⟨entries, 8 * 256 - 1⟩ vector =
      if vector = num then
        if flags / 0x80 = 1 ∧ flags % 0x20 = 0xE then some ⟨base, sel, flags / 0x20 % 4⟩ else none
      else gateOf m ⟨entries, 8 * 256 - 1⟩ vector := by
  have small : num % 2 ^ 8 = num := Nat.mod_eq_of_lt isNum
  have inside : 8 * vector + 7 ≤ 8 * 256 - 1 := by omega
  unfold gateOf
  rw [if_pos inside, if_pos inside]
  by_cases same : vector = num
  · subst same
    have set := gateAt_idtSetGate m entries vector baseFits selFits flagsFit
    rw [small] at set
    rw [if_pos rfl]
    exact set
  · rw [if_neg same]
    apply gateAt_congr
    intro k bound
    apply idtSetGate_outside
    dsimp only
    omega

/-- One segment of a table. -/
theorem segmentOf_gdtSetGate (m : Memory) (gdt : Table) {num selector base limit access gran : Nat}
    (baseFits : base < 2 ^ 32) (accessFits : access < 2 ^ 8) (granFits : gran < 2 ^ 8) :
    segmentOf (gdtSetGate m gdt.base num base limit access gran) gdt selector =
      if selector / 8 = num ∧ selector / 4 % 2 = 0 ∧ num ≠ 0 ∧ 8 * num + 7 ≤ gdt.limit ∧
          access / 0x80 = 1 ∧ access / 0x10 % 2 = 1 then
        some
          { base := base
            limit := scaledLimit (limit % 2 ^ 20) (gran / 0x80 = 1)
            code := access / 8 % 2 = 1
            writable := access / 2 % 2 = 1
            dpl := access / 0x20 % 4
            wide := gran / 0x40 % 2 = 1 }
      else if selector / 8 = num then none
      else segmentOf m gdt selector := by
  by_cases same : selector / 8 = num
  · subst same
    unfold segmentOf
    rw [segmentAt_gdtSetGate m gdt.base _ baseFits accessFits granFits]
    split_ifs <;> first | rfl | omega
  · rw [if_neg (fun all => same all.1), if_neg same]
    unfold segmentOf
    split_ifs with present
    · apply segmentAt_congr
      intro k bound
      apply gdtSetGate_outside
      omega
    · rfl

/-- A segment of all addresses. -/
def flat (code : Bool) (dpl : Nat) : MemorySegment := ⟨0, 2 ^ 32 - 1, code, true, dpl, true⟩

/-- The segments of `init_gdt`: kernel code and data, then the same for user mode. Selectors of the
local table and of other entries have none. -/
theorem segmentOf_initGdt (m : Memory) (entries selector : Nat) :
    segmentOf (initGdt m entries).1 (initGdt m entries).2 selector =
      if selector / 4 % 2 = 0 then
        [none, some (flat true 0), some (flat false 0), some (flat true 3),
          some (flat false 3)].getD (selector / 8) none
      else none := by
  have set : ∀ m num limit access gran, access < 2 ^ 8 → gran < 2 ^ 8 → _ :=
    fun m num limit access gran accessFits granFits =>
      @segmentOf_gdtSetGate m ⟨entries, 39⟩ num selector 0 limit access gran (by decide) accessFits
        granFits
  have stores : initGdt m entries =
      (gdtSetGate (gdtSetGate (gdtSetGate (gdtSetGate (gdtSetGate m entries 0 0 0 0 0) entries 1 0
        0xFFFFFFFF 0x9A 0xCF) entries 2 0 0xFFFFFFFF 0x92 0xCF) entries 3 0 0xFFFFFFFF 0xFA 0xCF)
        entries 4 0 0xFFFFFFFF 0xF2 0xCF, ⟨entries, 39⟩) := rfl
  rw [stores, set _ 4 _ _ _ (by decide) (by decide), set _ 3 _ _ _ (by decide) (by decide),
    set _ 2 _ _ _ (by decide) (by decide), set _ 1 _ _ _ (by decide) (by decide),
    set _ 0 _ _ _ (by decide) (by decide)]
  have cases : selector / 8 = 0 ∨ selector / 8 = 1 ∨ selector / 8 = 2 ∨ selector / 8 = 3 ∨
      selector / 8 = 4 ∨ 5 ≤ selector / 8 := by omega
  rcases cases with index | index | index | index | index | behind
  · simp [index]
  · simp [index, flat, scaledLimit]
  · simp [index, flat, scaledLimit]
  · simp [index, flat, scaledLimit]
  · simp [index, flat, scaledLimit]
  · have none : segmentOf m ⟨entries, 39⟩ selector = none := by
      unfold segmentOf
      exact if_neg fun all => by have := all.2.2; dsimp only at this; omega
    rw [if_neg (by omega), if_neg (by omega), if_neg (by omega), if_neg (by omega),
      if_neg (by omega), if_neg (by omega), if_neg (by omega), if_neg (by omega),
      if_neg (by omega), if_neg (by omega), none, List.getD_eq_getElem?_getD, List.getElem?_eq_none behind, Option.getD_none, ite_self]

theorem vectors_small {vector : Nat} (member : vector ∈ vectors) : vector < 256 := by
  simp only [vectors, List.mem_append, List.mem_range, List.mem_singleton] at member
  omega

/-- Gates of one kind, set one after the other. -/
theorem gateOf_idtSetGates (m : Memory) (entries : Nat) {stubs : Nat → Nat}
    (stubsFit : ∀ vector, stubs vector < 2 ^ 32) {nums : List Nat} (small : ∀ num ∈ nums, num < 256)
    {vector : Nat} (isVector : vector < 256) :
    gateOf (nums.foldl (fun m num => idtSetGate m entries num (stubs num) 0x08 0x8E) m)
        ⟨entries, 8 * 256 - 1⟩ vector =
      if vector ∈ nums then some ⟨stubs vector, 0x08, 0⟩
      else gateOf m ⟨entries, 8 * 256 - 1⟩ vector := by
  induction nums generalizing m with
  | nil => simp
  | cons num nums inductionHypothesis =>
      rw [List.foldl_cons, inductionHypothesis _ fun n member =>
          small n (List.mem_cons_of_mem _ member),
        gateOf_idtSetGate m entries isVector (small num List.mem_cons_self) (stubsFit num)
          (by decide) (by decide)]
      by_cases later : vector ∈ nums
      · rw [if_pos later, if_pos (List.mem_cons_of_mem _ later)]
      · rw [if_neg later]
        by_cases same : vector = num
        · subst same
          rw [if_pos rfl, if_pos List.mem_cons_self]
          rfl
        · rw [if_neg same, if_neg (by simp [same, later])]

/-- The gates of `init_idt`: one for every vector that has a stub, into kernel code and closed to
user mode. -/
theorem gateOf_initIdt (m : Memory) (handlers : Nat) {entries : Nat} {stubs : Nat → Nat}
    (stubsFit : ∀ vector, stubs vector < 2 ^ 32) (fits : entries + 8 * 256 ≤ 2 ^ 32)
    (vector : Nat) :
    gateOf (initIdt m handlers entries stubs).1 (initIdt m handlers entries stubs).2 vector =
      if vector ∈ vectors then some ⟨stubs vector, 0x08, 0⟩ else none := by
  by_cases isVector : vector < 256
  · have set := gateOf_idtSetGates (memset (memset m handlers 0 (4 * 256)) entries 0 (8 * 255)) entries
      stubsFit (fun num => vectors_small) isVector
    refine set.trans ?_
    split_ifs with member
    · rfl
    · have inside : vector < 255 := by
        have notLast : vector ≠ 255 := by
          rintro rfl
          exact member (by decide)
        omega
      have cleared : ∀ k, k < 8 →
          memset (memset m handlers 0 (4 * 256)) entries 0 (8 * 255) (entries + 8 * vector + k) = 0 := by
        intro k bound
        rw [memset_eq_fill _ _ (by omega), Memory.fill_inside _ _ (by omega)]
        rfl
      unfold gateOf gateAt
      rw [if_pos (show 8 * vector + 7 ≤ 8 * 256 - 1 by omega), cleared 5 (by omega)]
      rfl
  · have limit : (initIdt m handlers entries stubs).2.limit = 8 * 256 - 1 := rfl
    unfold gateOf
    rw [limit, if_neg (by omega), if_neg (mt vectors_small isVector)]

theorem initGdt_outside (m : Memory) {entries a : Nat}
    (outside : a < entries ∨ entries + 8 * 5 ≤ a) : (initGdt m entries).1 a = m a := by
  simp only [initGdt, segments, List.zipIdx_cons, List.zipIdx_nil, List.foldl_cons, List.foldl_nil]
  rw [gdtSetGate_outside _ (by omega), gdtSetGate_outside _ (by omega),
    gdtSetGate_outside _ (by omega), gdtSetGate_outside _ (by omega),
    gdtSetGate_outside _ (by omega)]

theorem idtSetGates_outside (m : Memory) {entries a : Nat} (stubs : Nat → Nat) (nums : List Nat)
    (outside : a < entries ∨ entries + 8 * 256 ≤ a) :
    nums.foldl (fun m num => idtSetGate m entries num (stubs num) 0x08 0x8E) m a = m a := by
  induction nums generalizing m with
  | nil => rfl
  | cons num nums inductionHypothesis =>
      rw [List.foldl_cons, inductionHypothesis]
      exact idtSetGate_outside m (by omega)

theorem initIdt_outside (m : Memory) {handlers entries a : Nat} (stubs : Nat → Nat)
    (handlersFit : handlers + 4 * 256 ≤ 2 ^ 32) (fits : entries + 8 * 256 ≤ 2 ^ 32)
    (notHandlers : a < handlers ∨ handlers + 4 * 256 ≤ a)
    (notEntries : a < entries ∨ entries + 8 * 256 ≤ a) :
    (initIdt m handlers entries stubs).1 a = m a := by
  have gates := idtSetGates_outside
    (memset (memset m handlers 0 (4 * 256)) entries 0 (8 * 255)) stubs vectors notEntries
  rw [memset_eq_fill _ _ (by omega), memset_eq_fill _ _ handlersFit,
    Memory.fill_outside _ _ (by omega), Memory.fill_outside _ _ notHandlers] at gates
  rw [← gates, ← memset_eq_fill _ _ handlersFit, ← memset_eq_fill _ _ (by omega)]
  rfl

end Balloon.Interrupts
