import Balloon.Foundation.Service
import Mathlib.Data.List.Basic
import Mathlib.Logic.Function.Basic

/-!
Owns the object store a memory manager is to its clients: objects are lists of cells that
have addresses, a request may create, resize, delete or write one, and the manager is free
in where it places an object and in what a new one holds. Along every run that the store
allows objects stay apart, and an object no request names keeps its cells.
-/

namespace Balloon.Foundation

variable {Cell : Type*}

/-- The objects by the address of their first cell. -/
abbrev Objects (Cell : Type*) := Nat → Option (List Cell)

/-- What clients ask for. `page` requests an object that starts on a page. -/
inductive Request (Cell : Type*) where
  | create (size : Nat)
  | createZero (size : Nat)
  | page (size : Nat)
  | resize (ptr size : Nat)
  | delete (ptr : Nat)
  | write (a : Nat) (v : Cell)

namespace Objects

/-- `s'` is `s` with a new object at `r`, where nothing was. -/
def Places (s : Objects Cell) (r : Nat) (cells : List Cell) (s' : Objects Cell) : Prop :=
  r ≠ 0 ∧ s r = none ∧ s' = Function.update s r (some cells) ∧
    ∀ q old, s q = some old → q + old.length ≤ r ∨ r + cells.length ≤ q

/-- A new object of `size` cells that holds anything; asking for nothing gives the null
address. -/
def Creates (s : Objects Cell) (size r : Nat) (s' : Objects Cell) : Prop :=
  if size = 0 then r = 0 ∧ s' = s
  else ∃ cells : List Cell, cells.length = size ∧ s.Places r cells s'

/-- The object at `ptr` becomes one of `size` cells that begins as it began. An object that
starts on a page is not resized. -/
def Resizes (pageSize : Nat) (s : Objects Cell) (ptr size r : Nat) (s' : Objects Cell) : Prop :=
  if ptr = 0 then s.Creates size r s'
  else if size = 0 then r = 0 ∧ s' = Function.update s ptr none
  else if ptr % pageSize = 0 then r = 0 ∧ s' = s
  else ∃ old cells : List Cell, s ptr = some old ∧ cells.length = size ∧
    cells.take old.length = old.take size ∧
    Places (Function.update s ptr none) r cells s'

/-- What a request may answer and do. -/
def Serves (zero : Cell) (pageSize : Nat) (s : Objects Cell) :
    Request Cell → Nat → Objects Cell → Prop
  | .create size, r, s' => s.Creates size r s'
  | .createZero size, r, s' =>
      if size = 0 then r = 0 ∧ s' = s else s.Places r (List.replicate size zero) s'
  | .page size, r, s' => r % pageSize = 0 ∧
      ∃ cells : List Cell, cells.length = size ∧ s.Places r cells s'
  | .resize ptr size, r, s' => s.Resizes pageSize ptr size r s'
  | .delete ptr, r, s' => r = 0 ∧ s' = if ptr = 0 then s else Function.update s ptr none
  | .write a v, r, s' => r = 0 ∧ ∃ p k cells, s p = some cells ∧ k < cells.length ∧ a = p + k ∧
      s' = Function.update s p (some (cells.set k v))

/-- No two objects share an address. -/
def Separate (s : Objects Cell) : Prop :=
  ∀ p q cells cells', s p = some cells → s q = some cells' → p ≠ q →
    p + cells.length ≤ q ∨ q + cells'.length ≤ p

/-- The request leaves an object of `size` cells at `p` alone. -/
def Spares (p size : Nat) : Request Cell → Prop
  | .resize ptr _ => ptr ≠ p
  | .delete ptr => ptr ≠ p
  | .write a _ => a < p ∨ p + size ≤ a
  | _ => True

variable {s s' : Objects Cell} {r ptr size pageSize p : Nat} {cells : List Cell} {zero : Cell}

/-! ### Separation -/

theorem Separate.delete (separate : s.Separate) (ptr : Nat) :
    Separate (Function.update s ptr none) := by
  intro p q cells cells' atP atQ different
  by_cases isP : p = ptr
  · rw [isP, Function.update_self] at atP
    contradiction
  · by_cases isQ : q = ptr
    · rw [isQ, Function.update_self] at atQ
      contradiction
    · rw [Function.update_of_ne isP] at atP
      rw [Function.update_of_ne isQ] at atQ
      exact separate p q cells cells' atP atQ different

theorem Separate.places (separate : s.Separate) (places : s.Places r cells s') : s'.Separate := by
  obtain ⟨-, -, rfl, apart⟩ := places
  intro p q old old' atP atQ different
  by_cases isP : p = r
  · subst isP
    rw [Function.update_self, Option.some.injEq] at atP
    rw [Function.update_of_ne (Ne.symm different)] at atQ
    subst atP
    exact (apart q old' atQ).symm
  · rw [Function.update_of_ne isP] at atP
    by_cases isQ : q = r
    · subst isQ
      rw [Function.update_self, Option.some.injEq] at atQ
      subst atQ
      exact apart p old atP
    · rw [Function.update_of_ne isQ] at atQ
      exact separate p q old old' atP atQ different

theorem Separate.creates (separate : s.Separate) (creates : s.Creates size r s') :
    s'.Separate := by
  unfold Creates at creates
  split at creates
  · exact creates.2 ▸ separate
  · obtain ⟨cells, -, places⟩ := creates
    exact separate.places places

theorem Separate.write (separate : s.Separate) {k : Nat} (isObject : s p = some cells) (v : Cell) :
    Separate (Function.update s p (some (cells.set k v))) := by
  have sizes : ∀ q old, Function.update s p (some (cells.set k v)) q = some old →
      ∃ old', s q = some old' ∧ old'.length = old.length := by
    intro q old atQ
    by_cases isP : q = p
    · subst isP
      rw [Function.update_self, Option.some.injEq] at atQ
      exact ⟨cells, isObject, by rw [← atQ, List.length_set]⟩
    · rw [Function.update_of_ne isP] at atQ
      exact ⟨old, atQ, rfl⟩
  intro q q' old old' atQ atQ' different
  obtain ⟨was, atWas, length⟩ := sizes q old atQ
  obtain ⟨was', atWas', length'⟩ := sizes q' old' atQ'
  rw [← length, ← length']
  exact separate q q' was was' atWas atWas' different

/-- Every request keeps the objects apart. -/
theorem Separate.serves (separate : s.Separate) {request : Request Cell}
    (serves : s.Serves zero pageSize request r s') : s'.Separate := by
  cases request with
  | create size => exact separate.creates serves
  | createZero size =>
      simp only [Serves] at serves
      split at serves
      · exact serves.2 ▸ separate
      · exact separate.places serves
  | page size =>
      obtain ⟨-, cells, -, places⟩ := serves
      exact separate.places places
  | resize ptr size =>
      simp only [Serves, Resizes] at serves
      split at serves
      · exact separate.creates serves
      · split at serves
        · exact serves.2 ▸ separate.delete ptr
        · split at serves
          · exact serves.2 ▸ separate
          · obtain ⟨old, cells, -, -, -, places⟩ := serves
            exact (separate.delete ptr).places places
  | delete ptr =>
      obtain ⟨-, rfl⟩ := serves
      split
      · exact separate
      · exact separate.delete ptr
  | write a v =>
      obtain ⟨-, p, k, cells, isObject, -, -, rfl⟩ := serves
      exact separate.write isObject v

/-! ### Objects no request names -/

theorem Places.keeps (places : s.Places r cells s') {old : List Cell} (isObject : s p = some old) :
    s' p = some old := by
  obtain ⟨-, none, rfl, -⟩ := places
  have different : p ≠ r := by
    rintro rfl
    cases none.symm.trans isObject
  rw [Function.update_of_ne different]
  exact isObject

theorem Creates.keeps (creates : s.Creates size r s') {old : List Cell}
    (isObject : s p = some old) : s' p = some old := by
  unfold Creates at creates
  split at creates
  · exact creates.2 ▸ isObject
  · obtain ⟨cells, -, places⟩ := creates
    exact places.keeps isObject

/-- A request that leaves an object alone keeps its cells. -/
theorem Serves.keeps {request : Request Cell} (serves : s.Serves zero pageSize request r s')
    {old : List Cell} (isObject : s p = some old)
    (spares : Spares p old.length request) : s' p = some old := by
  cases request with
  | create size => exact Creates.keeps serves isObject
  | createZero size =>
      simp only [Serves] at serves
      split at serves
      · exact serves.2 ▸ isObject
      · exact Places.keeps serves isObject
  | page size =>
      obtain ⟨-, cells, -, places⟩ := serves
      exact places.keeps isObject
  | resize ptr size =>
      have remains : Function.update s ptr none p = some old := by
        rw [Function.update_of_ne (Ne.symm spares)]
        exact isObject
      simp only [Serves, Resizes] at serves
      split at serves
      · exact Creates.keeps serves isObject
      · split at serves
        · exact serves.2 ▸ remains
        · split at serves
          · exact serves.2 ▸ isObject
          · obtain ⟨old', cells, -, -, -, places⟩ := serves
            exact places.keeps remains
  | delete ptr =>
      obtain ⟨-, rfl⟩ := serves
      split
      · exact isObject
      · rw [Function.update_of_ne (Ne.symm spares)]
        exact isObject
  | write a v =>
      obtain ⟨-, q, k, cells, atQ, inside, rfl, rfl⟩ := serves
      have different : p ≠ q := by
        rintro rfl
        obtain rfl := Option.some.inj (isObject.symm.trans atQ)
        have outside : p + k < p ∨ p + old.length ≤ p + k := spares
        omega
      rw [Function.update_of_ne different]
      exact isObject

/-- Along every run whose requests leave an object alone, the object keeps its cells. -/
theorem allows_keeps {requests : List (Request Cell)} {answers : List Nat}
    (run : Allows (Serves zero pageSize) s requests answers s') {old : List Cell}
    (isObject : s p = some old)
    (spares : ∀ request ∈ requests, Spares p old.length request) : s' p = some old := by
  induction run with
  | nil s => exact isObject
  | cons first rest inductionHypothesis =>
      have kept := Serves.keeps first isObject (spares _ List.mem_cons_self)
      exact inductionHypothesis kept
        fun request member => spares request (List.mem_cons_of_mem _ member)

end Objects

end Balloon.Foundation
