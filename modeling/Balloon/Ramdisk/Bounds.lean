import Balloon.Ramdisk.Builder

/-!
Owns where build_ramdisk.c stores to. Its loop tests neither the index of a record nor the
length of a name, so a store leaves the array, or the name it is meant for, as soon as the
listing has more entries or longer names than a record array of 64 can hold.
-/

namespace Balloon.Ramdisk

open Balloon.Foundation
open Balloon.Libc

/-! ### The stores of the loop -/

/-- The fields of a record. -/
inductive Field where
  | magic
  | name
  | offset
  | length
deriving DecidableEq

/-- A store to `headers`: the record and the field it is meant for, the byte of the array it
goes to, and the value. -/
structure Store where
  record : Nat
  field : Field
  address : Nat
  value : Nat

def applyStores (m : Memory) (stores : List Store) : Memory :=
  stores.foldl (fun m store => m.write8 store.address store.value) m

/-- `strcpy` into the name of record `i`. -/
def strcpyStores (i dest : Nat) : List UInt8 → List Store
  | [] => [⟨i, .name, dest, 0⟩]
  | c :: rest => ⟨i, .name, dest, c.toNat⟩ :: strcpyStores i (dest + 1) rest

/-- A 32-bit field of record `i`. -/
def wordStores (i : Nat) (field : Field) (a v : Nat) : List Store :=
  [⟨i, field, a, v⟩, ⟨i, field, a + 1, v / 0x100⟩, ⟨i, field, a + 2, v / 0x10000⟩,
    ⟨i, field, a + 3, v / 0x1000000⟩]

/-- The stores of a round. -/
def entryStores (b : Builder) (ent : HostFile) : List Store :=
  if ent.name.length < 3 then []
  else
    let header := sizeofHostHeader * b.nheaders
    strcpyStores b.nheaders (header + 1) ent.name ++
      wordStores b.nheaders .offset (header + 68) b.off ++
      wordStores b.nheaders .length (header + 72) ent.contents.length ++
      [⟨b.nheaders, .magic, header, 0x0B⟩]

def loopStores : Builder → List HostFile → List Store
  | _, [] => []
  | b, ent :: dir => entryStores b ent ++ loopStores (addEntry b ent) dir

theorem applyStores_append (m : Memory) (first second : List Store) :
    applyStores m (first ++ second) = applyStores (applyStores m first) second :=
  List.foldl_append

theorem applyStores_strcpy (m : Memory) (i dest : Nat) (s : List UInt8) :
    applyStores m (strcpyStores i dest s) = strcpy m dest s := by
  induction s generalizing m dest with
  | nil => rfl
  | cons c rest inductionHypothesis => exact inductionHypothesis (m.write8 dest c.toNat) (dest + 1)

/-- The stores of a round are what it does to the array. -/
theorem addEntry_headers (b : Builder) (ent : HostFile) :
    (addEntry b ent).headers = applyStores b.headers (entryStores b ent) := by
  unfold addEntry entryStores
  split_ifs
  · rfl
  · dsimp only
    rw [applyStores_append, applyStores_append, applyStores_append, applyStores_strcpy]
    rfl

/-- The stores of the loop are what it does to the array. -/
theorem foldl_addEntry_headers (dir : List HostFile) (b : Builder) :
    (dir.foldl addEntry b).headers = applyStores b.headers (loopStores b dir) := by
  induction dir generalizing b with
  | nil => rfl
  | cons ent dir inductionHypothesis =>
      rw [List.foldl_cons, inductionHypothesis, addEntry_headers, loopStores, applyStores_append]

/-! ### Bounds -/

/-- The builder in front of its loop. -/
def Builder.start (garbage : Memory) : Builder := ⟨garbage, 0, sizeofHostHeader * 64 + 4⟩

/-- `main` stores to the 64 records only, to each name only inside its 64 bytes, and writes a
count that the records in the image suffice for. -/
structure InBounds (dir : List HostFile) (garbage : Memory) : Prop where
  array : ∀ store, store ∈ loopStores (Builder.start garbage) dir →
    store.address < sizeofHostHeader * 64
  name : ∀ store, store ∈ loopStores (Builder.start garbage) dir → store.field = .name →
    sizeofHostHeader * store.record + 1 ≤ store.address ∧
      store.address < sizeofHostHeader * store.record + 1 + 64
  count : (addEntries dir garbage).nheaders ≤ 64

/-- The entries that get a record. -/
def accepted (dir : List HostFile) : List HostFile := dir.filter fun ent => 3 ≤ ent.name.length

variable {dir : List HostFile} {b : Builder} {ent : HostFile} {store : Store}

theorem accepted_cons (ent : HostFile) (dir : List HostFile) :
    accepted (ent :: dir) =
      if ent.name.length < 3 then accepted dir else ent :: accepted dir := by
  unfold accepted
  rw [List.filter_cons]
  by_cases short : ent.name.length < 3
  · rw [if_pos short, if_neg (by simpa using short)]
  · rw [if_neg short, if_pos (by simpa using short)]

theorem addEntry_nheaders (b : Builder) (ent : HostFile) :
    (addEntry b ent).nheaders = if ent.name.length < 3 then b.nheaders else b.nheaders + 1 := by
  unfold addEntry
  split_ifs <;> rfl

theorem foldl_addEntry_nheaders (dir : List HostFile) (b : Builder) :
    (dir.foldl addEntry b).nheaders = b.nheaders + (accepted dir).length := by
  induction dir generalizing b with
  | nil => rfl
  | cons ent dir inductionHypothesis =>
      rw [List.foldl_cons, inductionHypothesis, addEntry_nheaders, accepted_cons]
      split_ifs
      · rfl
      · rw [List.length_cons]
        omega

theorem mem_strcpyStores {i dest : Nat} {s : List UInt8} (member : store ∈ strcpyStores i dest s) :
    store.record = i ∧ dest ≤ store.address ∧ store.address ≤ dest + s.length := by
  induction s generalizing dest with
  | nil =>
      rw [strcpyStores, List.mem_singleton] at member
      subst member
      exact ⟨rfl, Nat.le_refl _, Nat.le_refl _⟩
  | cons c rest inductionHypothesis =>
      rw [List.length_cons]
      rcases List.mem_cons.mp member with rfl | later
      · exact ⟨rfl, Nat.le_refl _, Nat.le_add_right _ _⟩
      · obtain ⟨record, above, below⟩ := inductionHypothesis later
        exact ⟨record, by omega, by omega⟩

theorem mem_wordStores {i a v : Nat} {field : Field} (member : store ∈ wordStores i field a v) :
    store.record = i ∧ store.field = field ∧ a ≤ store.address ∧ store.address < a + 4 := by
  simp only [wordStores, List.mem_cons, List.not_mem_nil, or_false] at member
  rcases member with rfl | rfl | rfl | rfl <;> exact ⟨rfl, rfl, by simp, by simp⟩

/-- The NUL of a copied name. -/
theorem nul_mem_strcpyStores (i dest : Nat) (s : List UInt8) :
    ⟨i, .name, dest + s.length, 0⟩ ∈ strcpyStores i dest s := by
  induction s generalizing dest with
  | nil => exact List.mem_singleton.mpr rfl
  | cons c rest inductionHypothesis =>
      rw [List.length_cons, Nat.add_comm rest.length 1, ← Nat.add_assoc]
      exact List.mem_cons_of_mem _ (inductionHypothesis (dest + 1))

/-- A round with a name of up to 63 characters stores to its own record, and the name to its
own bytes. -/
theorem mem_entryStores (short : 3 ≤ ent.name.length → ent.name.length ≤ 63)
    (member : store ∈ entryStores b ent) :
    3 ≤ ent.name.length ∧ store.record = b.nheaders ∧
      sizeofHostHeader * b.nheaders ≤ store.address ∧
      store.address < sizeofHostHeader * (b.nheaders + 1) ∧
      (store.field = .name → sizeofHostHeader * b.nheaders + 1 ≤ store.address ∧
        store.address < sizeofHostHeader * b.nheaders + 1 + 64) := by
  unfold entryStores at member
  split_ifs at member with tooShort
  · exact absurd member List.not_mem_nil
  · have kept : 3 ≤ ent.name.length := Nat.not_lt.mp tooShort
    have fits := short kept
    simp only [sizeofHostHeader, List.mem_append, List.mem_singleton] at member ⊢
    refine ⟨kept, ?_⟩
    rcases member with ((copied | offset) | length) | rfl
    · obtain ⟨record, above, below⟩ := mem_strcpyStores copied
      exact ⟨record, by omega, by omega, fun _ => by omega⟩
    · obtain ⟨record, field, above, below⟩ := mem_wordStores offset
      exact ⟨record, by omega, by omega, fun isName => by simp [field] at isName⟩
    · obtain ⟨record, field, above, below⟩ := mem_wordStores length
      exact ⟨record, by omega, by omega, fun isName => by simp [field] at isName⟩
    · exact ⟨rfl, Nat.le_refl _, by dsimp only; omega, by rintro ⟨⟩⟩

/-- With room for the accepted entries every store of the loop stays where it belongs. -/
theorem loopStores_bounded (short : ∀ ent, ent ∈ accepted dir → ent.name.length ≤ 63)
    (room : b.nheaders + (accepted dir).length ≤ 64) (member : store ∈ loopStores b dir) :
    store.address < sizeofHostHeader * 64 ∧
      (store.field = .name → sizeofHostHeader * store.record + 1 ≤ store.address ∧
        store.address < sizeofHostHeader * store.record + 1 + 64) := by
  induction dir generalizing b with
  | nil => exact absurd member List.not_mem_nil
  | cons ent dir inductionHypothesis =>
      rw [accepted_cons] at short room
      rcases List.mem_append.mp member with here | later
      · have shortHere : 3 ≤ ent.name.length → ent.name.length ≤ 63 := by
          intro kept
          rw [if_neg (Nat.not_lt.mpr kept)] at short
          exact short ent List.mem_cons_self
        obtain ⟨kept, record, -, below, inName⟩ := mem_entryStores shortHere here
        rw [if_neg (Nat.not_lt.mpr kept), List.length_cons] at room
        rw [record]
        refine ⟨Nat.lt_of_lt_of_le below (Nat.mul_le_mul_left _ (by omega)), inName⟩
      · refine inductionHypothesis (fun other isKept => short other ?_) ?_ later
        · split_ifs
          · exact isKept
          · exact List.mem_cons_of_mem _ isKept
        · rw [addEntry_nheaders]
          split_ifs at room ⊢
          · exact room
          · rw [List.length_cons] at room
            omega

/-- The NUL of every accepted name is stored as far behind the start of its name as the name
is long. -/
theorem nul_mem_loopStores (b : Builder) (kept : ent ∈ accepted dir) :
    ∃ store, store ∈ loopStores b dir ∧ store.field = .name ∧
      store.address = sizeofHostHeader * store.record + 1 + ent.name.length := by
  induction dir generalizing b with
  | nil => exact absurd kept List.not_mem_nil
  | cons first dir inductionHypothesis =>
      rw [accepted_cons] at kept
      by_cases tooShort : first.name.length < 3
      · rw [if_pos tooShort] at kept
        obtain ⟨store, member, rest⟩ := inductionHypothesis (addEntry b first) kept
        exact ⟨store, List.mem_append_right _ member, rest⟩
      · rw [if_neg tooShort] at kept
        rcases List.mem_cons.mp kept with rfl | later
        · refine ⟨⟨b.nheaders, .name, sizeofHostHeader * b.nheaders + 1 + ent.name.length, 0⟩,
            List.mem_append_left _ ?_, rfl, rfl⟩
          rw [entryStores, if_neg tooShort]
          simp only [List.mem_append]
          exact Or.inl (Or.inl (Or.inl (nul_mem_strcpyStores _ _ _)))
        · obtain ⟨store, member, rest⟩ := inductionHypothesis (addEntry b first) later
          exact ⟨store, List.mem_append_right _ member, rest⟩

/-- The builder keeps its bounds exactly when the listing has at most 64 entries that get a
record, and none of their names has more than 63 characters. -/
theorem inBounds_iff (dir : List HostFile) (garbage : Memory) :
    InBounds dir garbage ↔
      (accepted dir).length ≤ 64 ∧ ∀ ent, ent ∈ accepted dir → ent.name.length ≤ 63 := by
  have count : (addEntries dir garbage).nheaders = (accepted dir).length := by
    rw [addEntries, foldl_addEntry_nheaders, Nat.zero_add]
  constructor
  · intro bounds
    refine ⟨count ▸ bounds.count, fun ent kept => ?_⟩
    obtain ⟨store, member, isName, address⟩ := nul_mem_loopStores (Builder.start garbage) kept
    have inside := (bounds.name store member isName).2
    omega
  · rintro ⟨few, short⟩
    have room : (Builder.start garbage).nheaders + (accepted dir).length ≤ 64 :=
      (Nat.zero_add _).symm ▸ few
    exact
      { array := fun store member => (loopStores_bounded short room member).1
        name := fun store member => (loopStores_bounded short room member).2
        count := count ▸ few }

/-- One file whose name has 64 characters. -/
theorem long_name_leaves_record :
    ¬ ∀ (dir : List HostFile) (garbage : Memory),
      (∀ ent, ent ∈ dir → ent.name.length ≤ 255) → InBounds dir garbage := by
  intro always
  have length : (List.replicate 64 (97 : UInt8)).length = 64 := List.length_replicate
  have bounds := always [⟨List.replicate 64 97, []⟩] (fun _ => 0) fun ent member => by
    rw [List.mem_singleton.mp member, length]
    decide
  have kept : ⟨List.replicate 64 97, []⟩ ∈ accepted [⟨List.replicate 64 97, []⟩] :=
    List.mem_filter.mpr ⟨List.mem_singleton.mpr rfl, by rw [length]; decide⟩
  obtain ⟨store, member, isName, address⟩ := nul_mem_loopStores (Builder.start fun _ => 0) kept
  have inside := (bounds.name store member isName).2
  rw [address, length] at inside
  exact absurd inside (Nat.lt_irrefl _)

end Balloon.Ramdisk
