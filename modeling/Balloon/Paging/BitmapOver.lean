import Balloon.Paging.WalkRuns

/-!
Owns the boot over zero memory: which frame each page gets while the bitmap may reach into the
first byte of `kernel_directory`, the start at which it does, and with it when the processor and
the kernel walk the same pages along runs from what `init_paging` leaves.
-/

namespace Balloon.Paging

open Balloon.Foundation
open Balloon.Libc
open Balloon.Allocator
open Balloon.Frames

/-! ### The rounds over zero memory -/

/-- The frames whose words end in front of the last word of the bitmap. -/
def sureFrames : Nat := 4064

/-- The bitmap at `start` has at most its last byte in the directory at `dir`, which lies so low
that the second loop ends in front of page `sureFrames`. -/
structure Close (start dir : Nat) : Prop where
  low : 0x1000 ≤ dir
  aligned : dir % 0x1000 = 0
  order : start ≤ dir
  reach : start + bitmapSize ≤ dir + 1
  near : dir + 0x20000 ≤ sureFrames * 0x1000

/-- The pages below page `n` have their own frames, and of the frames below `sureFrames` no other is
marked. -/
structure Exact (start dir c n : Nat) (s : Machine) : Prop where
  underway : Underway start dir c sureFrames 0 n (tablesFor n) s
  used : ∀ f, f < sureFrames → s.map.used f = decide (f < n)
  entries : ∀ p, p < n → entryAt s.mem (bootPage dir p) = givenPage true false p

/-- The last frames of the bitmap are marked too: the first byte of the directory may have
changed. -/
structure Late (start dir c n : Nat) (s : Machine) : Prop where
  underway : Underway start dir c bootFrames 1 n (tablesFor n) s
  entries : ∀ p, p < sureFrames → entryAt s.mem (bootPage dir p) = givenPage true false p
  slot : tableOf s.mem dir 0 / 0x100 = (dir + 0x5000) / 0x100

section

variable {start dir c n : Nat} {s s' : Machine} {u : BitVec 32}

theorem Close.early (close : Close start dir) : Site start dir sureFrames 0 := by
  have size : bitmapSize = 512 := rfl
  have frames : sureFrames = 4064 := rfl
  have memEnd : memEndPage = 0x1000000 := rfl
  have total : bootFrames = 0x1000 := rfl
  obtain ⟨low, aligned, order, reach, near⟩ := close
  exact ⟨low, aligned, by omega, order, by omega, by omega, by omega, by omega⟩

theorem Close.late (close : Close start dir) : Site start dir bootFrames 1 := by
  have size : bitmapSize = 512 := rfl
  have frames : sureFrames = 4064 := rfl
  have memEnd : memEndPage = 0x1000000 := rfl
  have total : bootFrames = 0x1000 := rfl
  obtain ⟨low, aligned, order, reach, near⟩ := close
  exact ⟨low, aligned, by omega, order, by omega, by omega, by omega, by omega⟩

/-- The entry of an earlier page is not written in the round of page `n`. -/
theorem roundWrites_entry {p a : Nat} (earlier : p < n) (bound : n < 0x2000)
    (inEntry : Inside (bootPage dir p) 4 a) : ¬ RoundWrites dir n a := by
  have size : sizeofTable = 0x1000 := rfl
  unfold RoundWrites bootPage Inside at *
  omega

theorem entryAt_congr {m m' : Memory} {page : Nat} (same : ∀ a, Inside page 4 a → m' a = m a) :
    entryAt m' page = entryAt m page :=
  congrArg decode (Memory.read32_congr fun o inWord =>
    same _ ⟨Nat.le_add_right _ o, Nat.add_lt_add_left inWord _⟩)

/-- The round of page `n` gives it frame `n`. -/
theorem Exact.next (exact : Exact start dir c n s) (close : Close start dir) (seen : n < sureFrames)
    (u : BitVec 32) :
    ∃ s', s.mapPage u (n * 0x1000) = some s' ∧ Exact start dir c (n + 1) s' := by
  have frames : sureFrames = 4064 := rfl
  have site := close.early
  have clear : s.map.used n = false := by
    rw [exact.used n seen]
    exact decide_eq_false (Nat.lt_irrefl n)
  obtain ⟨idx, answer, ran⟩ := exact.underway.next site (by omega) (Nat.zero_le _) (u := u)
    fun idx answer => by
      have isNext := answer.least seen clear
      exact site.wordOff (by omega)
  have isNext := answer.least seen clear
  have small : idx % 2 ^ 20 = n := by omega
  rcases ran with ⟨panics, -⟩ | ⟨s', returned, mapped⟩
  · omega
  · refine ⟨s', returned, mapped.underway, fun f below => ?_, fun p before => ?_⟩
    · rw [mapped.used f below, exact.used f below, small, ← Bool.decide_or]
      exact decide_eq_decide.mpr (by omega)
    · rcases Nat.lt_or_ge p n with earlier | last
      · refine Eq.trans (entryAt_congr fun a inEntry => ?_) (exact.entries p earlier)
        refine mapped.outside a (roundWrites_entry earlier (by omega) inEntry) fun inWord => ?_
        have word := (site.word (f := idx % 2 ^ 20) (by omega)).2
        unfold bootPage at inEntry
        unfold Inside at inEntry inWord
        omega
      · obtain rfl : p = n := by omega
        rw [mapped.entry, small]

/-- A page that has its frame keeps it. -/
theorem Exact.again (exact : Exact start dir c n s) (close : Close start dir)
    (few : n ≤ sureFrames) {p : Nat} (positive : 0 < p) (before : p < n) (u : BitVec 32) :
    s.mapPage u (p * 0x1000) = some s := by
  have frames : sureFrames = 4064 := rfl
  have directory : s.kernelDirectory = dir := exact.underway.tabled.directory
  have found : s.getPage (p * 0x1000) true dir = some (bootPage dir p, s) := by
    rw [Machine.getPage, exact.underway.tabled.getPage_mapped (by simp only [tablesFor]; omega)
      close.low (by simp only [tablesFor]; omega) (Nat.zero_le _), Option.map_some]
    rfl
  rw [Machine.mapPage, directory, found, Option.bind_some]
  apply Machine.allocFrame_held
  rw [exact.entries p before]
  exact positive.ne'

/-- In front of page `sureFrames` nothing has been written over the directory. -/
theorem Exact.late (exact : Exact start dir c sureFrames s) : Late start dir c sureFrames s := by
  have underway := exact.underway
  refine ⟨⟨⟨underway.tabled.heapEnd, underway.tabled.directory, underway.tabled.placement,
    fun i _ => underway.tabled.slots i (Nat.zero_le i), underway.tabled.physical,
    underway.tabled.clear, underway.tabled.heapPages⟩, underway.address, underway.pointer,
    underway.nframes, fun f below _ => underway.marked f below below⟩, exact.entries, ?_⟩
  have table : tableOf s.mem dir 0 = bootTable dir (tablesFor sureFrames) 0 :=
    underway.tabled.tables 0 (by decide)
  rw [table, bootTable_lt (by decide)]

theorem read32_div {m m' : Memory} {a : Nat} (same : ∀ b, Inside (a + 1) 3 b → m' b = m b) :
    m'.read32 a / 0x100 = m.read32 a / 0x100 := by
  have byte₁ := same (a + 1) ⟨by omega, by omega⟩
  have byte₂ := same (a + 2) ⟨by omega, by omega⟩
  have byte₃ := same (a + 3) ⟨by omega, by omega⟩
  have last := (m a).toNat_lt
  have last' := (m' a).toNat_lt
  simp only [Memory.read32, byte₁, byte₂, byte₃]
  omega

/-- The later rounds change one byte of the directory at most. -/
theorem Late.next (late : Late start dir c n s) (close : Close start dir) (above : sureFrames ≤ n)
    (bound : n < 0x2000) (inMap : u.toNat < bootFrames) :
    ∃ s', s.mapPage u (n * 0x1000) = some s' ∧ Late start dir c (n + 1) s' := by
  have frames : sureFrames = 4064 := rfl
  have total : bootFrames = 0x1000 := rfl
  have size : bitmapSize = 512 := rfl
  have tableSize : sizeofTable = 0x1000 := rfl
  have reach := close.reach
  have site := close.late
  have low : ∀ idx, Answer s bootFrames n u idx → idx < bootFrames := by
    intro idx answer
    rcases answer.source with seen | isValue
    · exact seen
    · exact isValue ▸ inMap
  obtain ⟨idx, answer, ran⟩ := late.underway.next site bound (by omega) (u := u)
    fun idx answer => by
      have seen := low idx answer
      exact site.wordOff (by omega)
  have seen := low idx answer
  rcases ran with ⟨panics, -⟩ | ⟨s', returned, mapped⟩
  · omega
  · have word := frameWord_eq site.space (show idx % 2 ^ 20 < 2 ^ 20 by omega)
    refine ⟨s', returned, mapped.underway, fun p before => ?_, ?_⟩
    · refine Eq.trans (entryAt_congr fun a inEntry => ?_) (late.entries p before)
      refine mapped.outside a (roundWrites_entry (by omega) bound inEntry) fun inWord => ?_
      unfold bootPage at inEntry
      unfold Inside at inEntry inWord
      omega
    · refine (read32_div fun a inSlot => mapped.outside a ?_ fun inWord => ?_).trans late.slot
      · unfold RoundWrites bootPage Inside at *
        omega
      · unfold Inside at inSlot inWord
        omega

/-- The state in front of the round of page `n`. -/
def ZeroRounds (start dir c n : Nat) (s : Machine) : Prop :=
  (n ≤ sureFrames ∧ Exact start dir c n s) ∨ (sureFrames ≤ n ∧ Late start dir c n s)

theorem ZeroRounds.underway (here : ZeroRounds start dir c n s) :
    s.heap.placementPointer = dir + 0x4000 + 0x2000 * tablesFor n := by
  rcases here with ⟨-, exact⟩ | ⟨-, late⟩
  · exact exact.underway.tabled.placement
  · exact late.underway.tabled.placement

/-- Where the second loop ends no word of the directory is in reach. -/
theorem ZeroRounds.exact (here : ZeroRounds start dir c n s) (close : Close start dir)
    (reached : n * 0x1000 < s.heap.placementPointer + 0x2000) :
    n < sureFrames ∧ Exact start dir c n s := by
  have frames : sureFrames = 4064 := rfl
  have placement := here.underway
  have near := close.near
  simp only [tablesFor] at placement
  rcases here with ⟨few, exact⟩ | ⟨many, -⟩
  · exact ⟨by omega, exact⟩
  · omega

theorem Close.rounds (close : Close start dir) (c : Nat) :
    BootRounds dir False (fun u => u.toNat < bootFrames) (ZeroRounds start dir c) where
  placement := fun n s here => here.underway
  next := by
    intro n s u value bound here
    rcases Nat.lt_or_ge n sureFrames with seen | above
    · have exact : Exact start dir c n s := by
        rcases here with ⟨-, exact⟩ | ⟨many, -⟩
        · exact exact
        · omega
      obtain ⟨s', returned, done⟩ := exact.next close seen u
      exact Or.inr ⟨s', returned, Or.inl ⟨seen, done⟩⟩
    · have late : Late start dir c n s := by
        rcases here with ⟨few, exact⟩ | ⟨-, late⟩
        · exact Nat.le_antisymm few above ▸ (Nat.le_antisymm few above ▸ exact).late
        · exact late
      obtain ⟨s', returned, done⟩ := late.next close above bound value
      exact Or.inr ⟨s', returned, Or.inr ⟨by omega, done⟩⟩
  again := by
    intro p n s u _ positive before reached here
    obtain ⟨few, exact⟩ := here.exact close reached
    exact Or.inr ⟨s, exact.again close few.le positive before u, here⟩

/-- `physicalAddr` is off the bitmap and the entries. -/
theorem Exact.setPhysicalAddr (exact : Exact start dir c n s) (close : Close start dir)
    (few : n < sureFrames) : Exact start dir (dir + 4096) n s.setPhysicalAddr := by
  have frames : sureFrames = 4064 := rfl
  have memEnd : memEndPage = 0x1000000 := rfl
  have near := close.near
  have site := close.early
  have directory : s.kernelDirectory = dir := exact.underway.tabled.directory
  have elsewhere : ∀ a, ¬ Inside (dir + 8192) 4 a → s.setPhysicalAddr.mem a = s.mem a := by
    intro a outside
    unfold Inside at outside
    rw [← directory] at outside
    exact Memory.write32_outside _ _ (by omega)
  refine ⟨exact.underway.setPhysicalAddr site (by simp only [tablesFor]; omega), fun f below => ?_,
    fun p before => ?_⟩
  · refine Eq.trans ?_ (exact.used f below)
    apply Machine.used_congr
    · rfl
    · intro a inWord
      have word := (site.word below).2
      rw [exact.underway.pointer] at inWord
      refine elsewhere a ?_
      unfold Inside at *
      omega
  · refine Eq.trans (entryAt_congr fun a inEntry => elsewhere a ?_) (exact.entries p before)
    unfold bootPage Inside at *
    omega

theorem used_of_zero {f : Nat} (zero : ∀ a, Inside (frameWord s.frames f) 4 a → s.mem a = 0) :
    s.map.used f = false := by
  have word : s.word (f / 32) = 0#32 := by
    exact congrArg (BitVec.ofNat 32) (Memory.read32_zero fun o inWord =>
      zero _ ⟨Nat.le_add_right _ o, Nat.add_lt_add_left inWord _⟩)
  change (s.word (f / 32)).getLsbD (f % 32) = false
  rw [word, BitVec.getLsbD_zero]

/-- Over zero memory `init_paging` returns. -/
theorem late_of_boot {h : Heap} (fresh : h.heapEnd = 0) (zeros : ∀ a, h.mem a = 0)
    (low : 0x1000 ≤ h.placementPointer)
    (close : Close h.placementPointer (bootDirectory h.placementPointer))
    {undef : Nat → Nat → BitVec 32} (values : ∀ l i, (undef l i).toNat < bootFrames) :
    ∃ s, Machine.initPagingMaps undef h = some s ∧
      Late h.placementPointer (bootDirectory h.placementPointer)
        (bootDirectory h.placementPointer + 4096) 0x2000 s := by
  have frames : sureFrames = 4064 := rfl
  have memEnd : memEndPage = 0x1000000 := rfl
  have near := close.near
  have site := close.early
  have fits : bootEnd h.placementPointer ≤ memEndPage := by
    unfold bootEnd
    omega
  obtain ⟨s₀, s₁, made, touched, begun⟩ := begun_boot fresh low fits
  have first : Exact h.placementPointer (bootDirectory h.placementPointer)
      (physicalAddrOf s₁.mem (bootDirectory h.placementPointer)) 0 s₁ :=
    { underway :=
        { tabled := begun.tabled
          address := rfl
          pointer := begun.pointer
          nframes := begun.nframes
          marked := fun f none => absurd none (Nat.not_lt_zero f) }
      used := by
        intro f below
        rw [decide_eq_false (Nat.not_lt_zero f)]
        refine used_of_zero fun a inWord => begun.zeros zeros a fun inDirectory => ?_
        have word := (site.word below).2
        rw [begun.pointer] at inWord
        unfold Inside at *
        omega
      entries := fun p none => absurd none (Nat.not_lt_zero p) }
  have yields := (close.rounds _).initPagingMaps (close.rounds _) close.aligned fits values made
    touched (Or.inl ⟨Nat.zero_le _, first⟩) fun n s reached here => by
      obtain ⟨few, exact⟩ := here.exact close reached
      exact Or.inl ⟨few.le, exact.setPhysicalAddr close few⟩
  rcases yields with ⟨may, -⟩ | ⟨s, returned, ⟨few, -⟩ | ⟨-, late⟩⟩
  · exact may.elim
  · omega
  · exact ⟨s, returned, late⟩

/-- The pages behind the first four megabytes are identity mapped. -/
theorem Late.identityMaps (late : Late start dir c 0x2000 s) (low : 0x1000 ≤ dir) {a : Nat}
    (above : 0x400000 ≤ a) (below : a < 0x800000) : IdentityMaps s.kernel a := by
  have frames : sureFrames = 4064 := rfl
  have directory : s.kernel.kernelDirectory = dir := late.underway.tabled.directory
  have tables : tablesFor 0x2000 = 8 := by decide
  have table := late.underway.tabled.slots 1 (Nat.le_refl 1) (by decide)
  have index : a / 0x1000 / 1024 = 1 := by omega
  have made : tableOf s.kernel.mem dir (tableIndex a) = dir + 0x5000 + 0x2000 * 1 := by
    rw [show tableIndex a = 1 from index, table, tables, bootTable_lt (by decide)]
  have found : findPage s.kernel.mem a dir = bootPage dir (a / 0x1000) := by
    rw [findPage_of_table made (by omega), bootPage, index]
  have entry : entryAt s.kernel.mem (bootPage dir (a / 0x1000)) =
      givenPage true false (a / 0x1000) := late.entries _ (by omega)
  rw [IdentityMaps, directory, found, entry]
  refine ⟨?_, rfl, rfl⟩
  unfold bootPage
  omega

end

/-! ### The bitmap over the directory -/

section

variable {start dir : Nat} {s : Machine}

/-- The last eight frames of the bitmap are the bits of its last byte. -/
theorem last_byte (word : Nat) (at127 : frameWord s.frames 4095 = word)
    (marked : ∀ f, f < bootFrames → s.map.used f = true) : s.mem (word + 3) = 0xFF := by
  have total : bootFrames = 0x1000 := rfl
  have isWord : s.word 127 = BitVec.ofNat 32 (s.mem.read32 word) := at127 ▸ rfl
  have ones : (s.word 127).extractLsb' 24 8 = BitVec.allOnes 8 := by
    refine BitVec.eq_of_getLsbD_eq fun i bound => ?_
    have used := marked (4088 + i) (by omega)
    have bit : s.map.used (4088 + i) = (s.word 127).getLsbD (24 + i) := by
      rw [FrameMap.used, show (4088 + i) / 32 = 127 by omega,
        show (4088 + i) % 32 = 24 + i by omega]
      rfl
    rw [BitVec.getLsbD_extractLsb', BitVec.getLsbD_allOnes, ← bit, used, Bool.and_true]
  have value := congrArg BitVec.toNat ones
  rw [isWord, BitVec.extractLsb'_toNat, BitVec.toNat_ofNat, Nat.mod_eq_of_lt (s.mem.read32_lt _),
    BitVec.toNat_allOnes, Nat.shiftRight_eq_div_pow] at value
  have byte₀ := (s.mem word).toNat_lt
  have byte₁ := (s.mem (word + 1)).toNat_lt
  have byte₂ := (s.mem (word + 2)).toNat_lt
  have byte₃ := (s.mem (word + 3)).toNat_lt
  apply UInt8.toNat_inj.mp
  change _ = 255
  unfold Memory.read32 at value
  omega

/-- With its last byte in the directory, the bitmap moves the first table by 255 bytes. -/
theorem Late.moved {c : Nat} (late : Late start dir c 0x2000 s) (close : Close start dir)
    (last : start + bitmapSize = dir + 1) : tableOf s.mem dir 0 = dir + 0x50FF := by
  have size : bitmapSize = 512 := rfl
  have total : bootFrames = 0x1000 := rfl
  have aligned := close.aligned
  have word : frameWord s.frames 4095 = start + 508 := by
    rw [late.underway.pointer]
    have address := frameWord_eq close.late.space (show 4095 < 2 ^ 20 by decide)
    omega
  have byte := last_byte (start + 508) word
    fun f inMap => late.underway.marked f (by omega) inMap
  have first : (s.mem dir).toNat = 255 := by
    rw [show dir = start + 508 + 3 by omega, byte]
    rfl
  have slot := late.slot
  have read : tableOf s.mem dir 0 = s.mem.read32 dir := rfl
  rw [read] at slot ⊢
  unfold Memory.read32 at slot ⊢
  omega

/-- The processor finds a page at address 0, and `get_page` one that is not present. -/
theorem Late.walks_differ (late : Late start dir (dir + 4096) 0x2000 s) (close : Close start dir)
    (last : start + bitmapSize = dir + 1) :
    mmuWalk s.mem (physicalAddrOf s.mem dir) 0 ≠ kernelWalk s.kernel 0 dir := by
  have frames : sureFrames = 4064 := rfl
  have near := close.near
  have aligned := close.aligned
  have directory : (dir + 4096) / 0x1000 * 0x1000 + 4 * tableIndex 0 = dir + 4096 := by
    have page : (dir + 4096) / 0x1000 * 0x1000 = dir + 4096 := by omega
    rw [page, show tableIndex 0 = 0 from rfl, Nat.mul_zero, Nat.add_zero]
  have table : dir + 0x5000 + 0x2000 * 0 + 4 * (0 / 0x1000 % 1024) = dir + 0x5000 + 0x2000 * 0 := by
    omega
  have moved := late.moved close last
  have tables : tablesFor 0x2000 = 8 := by decide
  -- The word at the moved table ends entry 63 of the table, which is small.
  have entry := late.entries 63 (by decide)
  have word : s.mem.read32 (dir + 0x50FC) = 0x3F001 := by
    rw [show dir + 0x50FC = bootPage dir 63 by unfold bootPage; omega,
      ← encode_decode (s.mem.read32_lt _)]
    exact (congrArg encode entry).trans (by decide)
  have byte : (s.mem (dir + 0x50FF)).toNat = 0 := by
    have byte₃ := (s.mem (dir + 0x50FC + 3)).toNat_lt
    unfold Memory.read32 at word
    rw [show dir + 0x50FF = dir + 0x50FC + 3 by omega]
    omega
  have absent : (entryAt s.mem (dir + 0x50FF)).present = false := by
    have even : s.mem.read32 (dir + 0x50FF) % 2 = 0 := by
      unfold Memory.read32
      omega
    exact decide_eq_false (by omega)
  have kernel : kernelWalk s.kernel 0 dir = none := by
    have found : findPage s.kernel.mem 0 dir = dir + 0x50FF := findPage_of_table moved (by omega)
    rw [kernelWalk, getPage_lookup, Option.bind_some]
    change (if findPage s.kernel.mem 0 dir ≠ 0 ∧
      (entryAt s.kernel.mem (findPage s.kernel.mem 0 dir)).present = true then _ else none) = none
    rw [found, if_neg]
    exact fun present => Bool.false_ne_true (absent.symm.trans present.2)
  have physical := late.underway.tabled.physical 0 (by decide)
  rw [tables, bootTable_lt (by decide), if_neg (by omega)] at physical
  obtain ⟨present, -, -, address⟩ :=
    @decode_tableEntry (dir + 0x5000 + 0x2000 * 0) (by omega) (by omega)
  have tableEntry : entryAt s.mem (dir + 4096) = decode (dir + 0x5000 + 0x2000 * 0 ||| 0x7) :=
    congrArg decode physical
  have page : entryAt s.mem (dir + 0x5000 + 0x2000 * 0) = givenPage true false 0 :=
    late.entries 0 (by decide)
  have mmu : mmuWalk s.mem (physicalAddrOf s.mem dir) 0 ≠ none := by
    rw [late.underway.address, mmuWalk, directory, tableEntry, address, table, page, if_pos]
    · exact Option.some_ne_none _
    · exact ⟨present, rfl⟩
  rw [kernel]
  exact mmu

/-- The bytes of the directory and its tables, the moved one included. -/
theorem Late.inDirectories {c a : Nat} (late : Late start dir c 0x2000 s) (close : Close start dir)
    (inDirs : InDirectories s.mem [dir] a) : dir ≤ a ∧ a < dir + 0x15000 := by
  have size : sizeofDirectory = 8196 := rfl
  have tableSize : sizeofTable = 0x1000 := rfl
  have aligned := close.aligned
  have tables : tablesFor 0x2000 = 8 := by decide
  obtain ⟨d, member, inD⟩ := inDirs
  obtain rfl := List.mem_singleton.mp member
  rcases inD with ⟨above, below⟩ | ⟨i, index, made, above, below⟩
  · omega
  · rcases Nat.eq_zero_or_pos i with rfl | later
    · have slot := late.slot
      omega
    · have table : tableOf s.mem d i = bootTable d (tablesFor 0x2000) i :=
        late.underway.tabled.slots i later index
      rw [table, tables] at made above below
      unfold bootTable at *
      split_ifs at * <;> omega

/-- Directories between four and eight megabytes, while `kernel_directory` is as it was. -/
theorem Late.identityPlaced {c : Nat} {k : Kernel} {dirs : List Nat}
    (late : Late start dir c 0x2000 s)
    (low : 0x1000 ≤ dir) (keeps : KeepsKernel s.kernel k)
    (range : ∀ a, InDirectories k.mem dirs a → 0x400000 ≤ a ∧ a < 0x800000) :
    IdentityPlaced k dirs := by
  intro a inDirs
  obtain ⟨above, below⟩ := range a inDirs
  exact (keeps.identityMaps_iff (by omega)).mpr (late.identityMaps low above below)

end

/-! ### A clone of `kernel_directory` -/

section

variable {s : Machine} {dirs : List Nat} {src dir : Nat} {k₁ : Kernel} {phys : Nat}

theorem clearDirectory_fresh {k : Kernel} {p : Nat} (fresh : k.heap.heapEnd = 0) :
    k.clearDirectory p = some (k.withMem (memset k.mem p 0 sizeofDirectory)) :=
  if_neg fun booted => booted.1 fresh

theorem reserve_le {k : Kernel} {src : Nat} (fresh : k.heap.heapEnd = 0)
    (placement : k.heap.placementPointer ≤ memEndPage) : reserve k src ≤ 2 ^ 32 := by
  have memEnd : memEndPage = 0x1000000 := rfl
  have few := Nat.count_le (p := Private k src) (n := 1024)
  rw [reserve, topOf_fresh fresh]
  omega

/-- Before `init_heap` the call comes to its rounds. -/
theorem Machine.cloneDirectory_fresh
    (allocated : s.kernel.kmallocAlignedPhysical sizeofDirectory = some (dir, phys, k₁))
    (fresh : k₁.heap.heapEnd = 0) (undef : Nat → Nat → BitVec 32) :
    s.cloneDirectory src undef = ((List.range 1024).foldlM
      (fun (s : Machine) i => s.cloneSlot src dir i (undef i)) ((s.withHeap k₁.heap).withMem
        ((memset k₁.mem dir 0 sizeofDirectory).write32 (dir + 8192) (wrap32 (phys + 4096))))).map
          fun t => (dir, t) := by
  have clear := clearDirectory_fresh (k := (s.withHeap k₁.heap).kernel) (p := dir) fresh
  rw [Machine.kernel_withHeap_mem] at clear
  rw [Machine.cloneDirectory, Machine.kmallocAlignedPhysical, allocated, Option.map_some,
    Option.bind_some]
  dsimp only
  rw [Machine.clearDirectory, clear, Option.map_some, Option.bind_some, Machine.withHeap_cleared,
    Machine.mem_withMem, Machine.withMem_withMem]

/-- The rounds of a directory without a table of its own return. -/
theorem MayClone.passes {m : Memory} (mayClone : MayClone s.frames s.kernel dirs src)
    (shared : ∀ i, i < 1024 → ¬ Private s.kernel src i) (undef : Nat → Nat → BitVec 32)
    (start : Copying s.frames s.kernel dirs src dir 0 (k₁.withMem m)) :
    ∃ t, (List.range 1024).foldlM (fun (s : Machine) i => s.cloneSlot src dir i (undef i))
      ((s.withHeap k₁.heap).withMem m) = some t ∧ InRounds s dirs src dir 1024 t := by
  have first : InRounds s dirs src dir 0 ((s.withHeap k₁.heap).withMem m) :=
    ⟨start.of_heap rfl start.directory.symm, rfl, rfl⟩
  refine foldlM_range _ (InRounds s dirs src dir) ?_ first
  intro i t index rounds
  exact rounds.cloneSlot_pass mayClone index (shared i index) (undef i)

/-- A directory without a table of its own is copied. -/
theorem MayClone.shares (mayClone : MayClone s.frames s.kernel dirs src)
    (fresh : s.heap.heapEnd = 0) (shared : ∀ i, i < 1024 → ¬ Private s.kernel src i)
    (undef : Nat → Nat → BitVec 32) :
    ∃ t, s.cloneDirectory src undef = some (nextBlock s.heap, t) ∧
      InRounds s dirs src (nextBlock s.heap) 1024 t := by
  have low : 0x1000 ≤ s.kernel.heap.placementPointer := mayClone.sound.arena.low fresh
  have space := mayClone.top_le
  rw [topOf_fresh (h := s.kernel.heap) fresh] at space
  have fits : nextBlock s.kernel.heap + sizeofDirectory < 2 ^ 32 := by
    have block : nextBlock s.kernel.heap =
        s.kernel.heap.placementPointer / 0x1000 * 0x1000 + 0x1000 := rfl
    have size : sizeofDirectory = 8196 := rfl
    omega
  have allocated := kmallocAlignedPhysical_bump (k := s.kernel) fresh low sizeofDirectory fits
  obtain ⟨t, ran, done⟩ := mayClone.passes shared undef (mayClone.start allocated)
  refine ⟨t, ?_, done⟩
  rw [Machine.cloneDirectory_fresh allocated fresh, ran, Option.map_some]
  rfl

end

/-! ### Both walks along a run -/

/-- Along every run from what `init_paging` leaves, the processor and the kernel find the same
pages, while no block wraps around and neither a bit of the bitmap nor a copied page falls on a
directory, on a table or on the memory that a copy gets. -/
theorem walks_agree_along_run (mem : Memory) (start : Nat) (low : 0x1000 ≤ start)
    (fits : bootEnd start ≤ memEndPage) (undef : Nat → Nat → BitVec 32)
    (off : BitmapOff start undef) (s : Paged)
    (booted : Paged.boot undef (Client.boot mem start).heap = some s) (calls : List PagingCall)
    (proper : EveryStep Paged.step Paged.Proper s calls)
    (placed : ∀ s' ∈ visited Paged.step s calls,
      IdentityPlaced s'.machine.kernel s'.directories)
    (spares : EveryStep Paged.step Paged.Spares s calls) :
    ∀ s' ∈ visited Paged.step s calls, s'.WalksAgree := by
  have unused : Unused (Client.boot mem start).heap := ⟨fun _ => rfl, fun _ => rfl, rfl, rfl⟩
  have inOrder :=
    Paged.inOrder_boot (h := (Client.boot mem start).heap) rfl low fits unused off booted
  intro s' member d inDirs v small
  exact (inOrder.run proper spares placed s' member).sound.walks_agree inDirs small

/-- `init_paging` over zero memory, from a `placement_pointer` behind which the directory starts at
`0x501000`. -/
theorem boot_returns {start : Nat} (close : Close start 0x501000) (low : 0x1000 ≤ start)
    (behind : bootDirectory start = 0x501000) : ∃ s,
    Paged.boot (fun _ _ => 0x80) (Client.boot (fun _ => 0) start).heap = some ⟨s, [0x501000], []⟩ ∧
      Late start 0x501000 (0x501000 + 4096) 0x2000 s := by
  obtain ⟨s, returned, late⟩ := @late_of_boot (Client.boot (fun _ => 0) start).heap rfl
    (fun _ => rfl) low (behind.symm ▸ close) (fun _ _ => 0x80) fun _ _ => by decide
  change Late start (bootDirectory start) (bootDirectory start + 4096) 0x2000 s at late
  rw [behind] at late
  have directory : s.kernelDirectory = 0x501000 := late.underway.tabled.directory
  refine ⟨s, ?_, late⟩
  rw [Paged.boot, returned, Option.map_some, directory]

theorem bitmapOff_clone : BitmapOff 0x500000 fun _ _ => 0x80 := by
  have size : bitmapSize = 512 := rfl
  have directory : bootDirectory 0x500000 = 0x501000 := by decide
  refine ⟨by omega, fun _ _ a inWord inside => ?_⟩
  have word : frameWord 0x500000 (fallenFrame 0x80) = 0x500010 := by decide
  rw [word] at inWord
  rw [directory] at inside
  unfold Inside at *
  omega

/-- `walks_agree_along_run` for a run that clones `kernel_directory`. -/
theorem walks_agree_along_run_clone : ∃ s,
    Paged.boot (fun _ _ => 0x80) (Client.boot (fun _ => 0) 0x500000).heap = some s ∧
      ∀ s' ∈ visited Paged.step s [.cloneDirectory 0x501000 fun _ _ => 0x80], s'.WalksAgree := by
  have close : Close 0x500000 0x501000 := ⟨by decide, by decide, by decide, by decide, by decide⟩
  obtain ⟨s, booted, late⟩ := boot_returns close (by decide) (by decide)
  have low : 0x1000 ≤ 0x501000 := by decide
  have memEnd : memEndPage = 0x1000000 := rfl
  have tables : tablesFor 0x2000 = 8 := by decide
  have size : sizeofDirectory = 8196 := rfl
  have fresh : s.heap.heapEnd = 0 := late.underway.tabled.heapEnd
  have directory : s.kernel.kernelDirectory = 0x501000 := late.underway.tabled.directory
  have placement : s.heap.placementPointer = 0x515000 := by
    have behind := late.underway.tabled.placement
    rw [tables] at behind
    exact behind
  have block : nextBlock s.heap = 0x516000 := by rw [nextBlock, placement]
  have within : reserve s.kernel 0x501000 ≤ 2 ^ 32 :=
    reserve_le fresh (placement.trans_le (by decide))
  have inOrder := Paged.inOrder_boot (h := (Client.boot (fun _ => 0) 0x500000).heap) rfl
    (by decide) (by decide) ⟨fun _ => rfl, fun _ => rfl, rfl, rfl⟩ bitmapOff_clone booted
  have mayClone : MayClone s.frames s.kernel [0x501000] 0x501000 :=
    ⟨inOrder.sound, List.mem_singleton_self _, fun _ => within⟩
  have shared : ∀ i, i < 1024 → ¬ Private s.kernel 0x501000 i := by
    intro i _ isPrivate
    exact isPrivate.2 (by rw [directory])
  obtain ⟨t, cloned, rounds⟩ := mayClone.shares fresh shared fun _ _ => 0x80
  rw [block] at cloned rounds
  have stepped : Paged.step ⟨s, [0x501000], []⟩ (.cloneDirectory 0x501000 fun _ _ => 0x80) =
      some ⟨t, [0x516000, 0x501000], []⟩ := by
    rw [Paged.step, cloned, Option.map_some]
  refine ⟨_, booted, walks_agree_along_run (fun _ => 0) 0x500000 (by decide) (by decide)
    (fun _ _ => 0x80) bitmapOff_clone ⟨s, [0x501000], []⟩ booted
    [.cloneDirectory 0x501000 fun _ _ => 0x80] ?_ ?_ ?_⟩
  · exact everyStep_cons_some stepped List.mem_cons_self trivial
  · rw [visited_cons_some stepped, visited, List.forall_mem_cons, List.forall_mem_singleton]
    refine ⟨late.identityPlaced low (KeepsKernel.refl _) fun a inDirs => ?_,
      late.identityPlaced low (rounds.copying.keepsKernel inOrder.sound.member) fun a inDirs => ?_⟩
    · have range := late.inDirectories close inDirs
      omega
    · rcases rounds.copying.inDirectories_done mayClone inDirs with before | inside |
        ⟨i, index, isPrivate, -⟩
      · have range := late.inDirectories close before
        omega
      · unfold Inside at inside
        omega
      · exact absurd isPrivate (shared i index)
  · refine everyStep_cons_some stepped ⟨fun _ => within, ?_⟩ trivial
    exact fun i j copies => absurd copies.2.2.1 (shared i copies.1)

/-- From `placement_pointer` at `0x500E01` the last byte of the bitmap is the first of
`kernel_directory->tables[0]`: afterwards `get_page` finds no page at address 0. -/
theorem bitmap_over_directory :
    ¬ ∀ (mem : Memory) (start : Nat) (undef : Nat → Nat → BitVec 32) (s : Paged)
      (calls : List PagingCall), 0x1000 ≤ start → bootEnd start ≤ memEndPage →
        Paged.boot undef (Client.boot mem start).heap = some s →
        EveryStep Paged.step Paged.Proper s calls →
        (∀ s' ∈ visited Paged.step s calls,
          IdentityPlaced s'.machine.kernel s'.directories) →
          ∀ s' ∈ visited Paged.step s calls, s'.WalksAgree := by
  intro always
  have close : Close 0x500E01 0x501000 := ⟨by decide, by decide, by decide, by decide, by decide⟩
  obtain ⟨s, booted, late⟩ := boot_returns close (by decide) (by decide)
  have agree := always (fun _ => 0) 0x500E01 (fun _ _ => 0x80) ⟨s, [0x501000], []⟩ []
    (by decide) (by decide) booted trivial
  simp only [visited, List.forall_mem_singleton] at agree
  refine late.walks_differ close (by decide) (agree ?_ 0x501000 List.mem_cons_self 0 (by decide))
  refine late.identityPlaced (by decide) (KeepsKernel.refl _) fun a inDirs => ?_
  have range := late.inDirectories close inDirs
  omega

end Balloon.Paging
