import Mathlib.Logic.Function.Iterate
import Balloon.Process.Model

/-!
Owns the kernel stack that `fork` hands to the child: the saved `esp` and `ebp`,
the copied bytes, and the chain of saved frame pointers that starts at `ebp`.

`fork` moves `esp` and `ebp` by the distance of the two stacks and copies the
bytes as they are, so the frame pointers inside the copy still name the parent's
stack.
-/

namespace Balloon.Process

open Balloon.Foundation
open Balloon.Libc
open Balloon.Allocator

/-- The assignments of `fork` after `set_process_environment`. -/
def finishFork (h : Heap) (call : ForkCall) (newProc : Nat) : Heap :=
  set (copyStack (relocate h call newProc) call.parent newProc) newProc .eip call.eip

theorem fork_eq_finishFork (names : Names) (s : System) (call : ForkCall) :
    fork names s call =
      (spawnProcess names { s with heap := call.cloned } call.parent).map fun (newProc, s) =>
        let h := finishFork (setProcessEnvironment s.heap newProc call.dir) call newProc
        { newProc := newProc, pid := get h newProc .pid, system := { s with heap := h } } := rfl

/-- The four bytes at `x` lie on the stack with top `top`. -/
def OnStack (top x : Nat) : Prop := top - kernelStackSize ≤ x ∧ x + 4 ≤ top

instance (top x : Nat) : Decidable (OnStack top x) := inferInstanceAs (Decidable (_ ∧ _))

/-- The frame pointer `n` frames up from `ebp`. -/
def savedFrame (m : Memory) (ebp n : Nat) : Nat := m.read32^[n] ebp

/-- The two stacks and the record of the child, as `kmalloc` hands them out, and
the registers of the parent. -/
structure StacksReady (h : Heap) (call : ForkCall) (newProc parentTop newTop : Nat) : Prop where
  parentStack : get h call.parent .stack = parentTop
  newStack : get h newProc .stack = newTop
  parentRoom : kernelStackSize ≤ parentTop ∧ parentTop < 2 ^ 32
  newRoom : kernelStackSize ≤ newTop ∧ newTop < 2 ^ 32
  disjoint : parentTop + kernelStackSize ≤ newTop ∨ newTop + kernelStackSize ≤ parentTop
  ownRecord : call.parent + sizeofProcess ≤ newProc ∨ newProc + sizeofProcess ≤ call.parent
  offParent : newProc + sizeofProcess ≤ parentTop - kernelStackSize ∨ parentTop ≤ newProc
  offNew : newProc + sizeofProcess ≤ newTop - kernelStackSize ∨ newTop ≤ newProc
  esp : parentTop - kernelStackSize ≤ call.esp ∧ call.esp < parentTop
  ebp : parentTop - kernelStackSize ≤ call.ebp ∧ call.ebp < parentTop

/-- The child is on its own stack where the parent is on the parent's: in its
registers, and as far up the saved frames as the parent stays on its stack. -/
structure SameFrames (h h' : Heap) (call : ForkCall) (newProc parentTop newTop : Nat) : Prop where
  esp : sub32 newTop (get h' newProc .esp) = sub32 parentTop call.esp
  ebp : sub32 newTop (get h' newProc .ebp) = sub32 parentTop call.ebp
  frames : ∀ n, (∀ i, i ≤ n → OnStack parentTop (savedFrame h.mem call.ebp i)) →
    OnStack newTop (savedFrame h'.mem (get h' newProc .ebp) n) ∧
      newTop - savedFrame h'.mem (get h' newProc .ebp) n =
        parentTop - savedFrame h.mem call.ebp n

variable {h : Heap} {call : ForkCall} {newProc parentTop newTop : Nat}

/-! ### The record of the child -/

theorem get_set_other (h : Heap) {p q : Nat} (f g : Field) (v : Nat)
    (apart : p + f.offset + 4 ≤ q + g.offset ∨ q + g.offset + 4 ≤ p + f.offset) :
    get (set h p f v) q g = get h q g :=
  Memory.read32_write32_disjoint _ _ (by omega)

theorem get_set_self (h : Heap) (p : Nat) (f : Field) {v : Nat} (small : v < 2 ^ 32) :
    get (set h p f v) p f = v :=
  (Memory.read32_write32_same _ _ _).trans (Nat.mod_eq_of_lt small)

/-- Both branches of `fork` move a register by the distance of the two stacks. -/
theorem relocate_eq (ready : StacksReady h call newProc parentTop newTop) :
    relocate h call newProc =
      set (set h newProc .esp (newTop - (parentTop - call.esp))) newProc .ebp
        (newTop - (parentTop - call.ebp)) := by
  obtain ⟨parentLow, parentLt⟩ := ready.parentRoom
  obtain ⟨newLow, newLt⟩ := ready.newRoom
  obtain ⟨espLow, espLt⟩ := ready.esp
  obtain ⟨ebpLow, ebpLt⟩ := ready.ebp
  simp only [kernelStackSize] at parentLow newLow espLow ebpLow
  simp only [relocate, ready.parentStack, ready.newStack]
  by_cases above : parentTop > newTop
  · rw [if_pos above]
    congr 2
    · simp only [sub32, wrap32]
      omega
    · simp only [sub32, wrap32]
      omega
  · rw [if_neg above]
    congr 2
    · simp only [sub32, wrap32]
      omega
    · simp only [sub32, wrap32]
      omega

/-- The stacks are found in the records, which `relocate` has changed elsewhere. -/
theorem copyStack_relocate (ready : StacksReady h call newProc parentTop newTop) :
    (copyStack (relocate h call newProc) call.parent newProc).mem =
      (relocate h call newProc).mem.copy (newTop - kernelStackSize)
        (parentTop - kernelStackSize) kernelStackSize := by
  obtain ⟨parentLow, parentLt⟩ := ready.parentRoom
  obtain ⟨newLow, newLt⟩ := ready.newRoom
  have disjoint := ready.disjoint
  have ownRecord := ready.ownRecord
  have parentStack : get (relocate h call newProc) call.parent .stack = parentTop := by
    have other : ∀ f : Field, newProc + f.offset + 4 ≤ call.parent + Field.stack.offset ∨
        call.parent + Field.stack.offset + 4 ≤ newProc + f.offset := by
      intro f
      have low : f.offset + 4 ≤ sizeofProcess := by cases f <;> decide
      have stackLow : Field.stack.offset + 4 ≤ sizeofProcess := by decide
      omega
    rw [relocate_eq ready, get_set_other _ _ _ _ (other .ebp), get_set_other _ _ _ _ (other .esp),
      ready.parentStack]
  have newStack : get (relocate h call newProc) newProc .stack = newTop := by
    rw [relocate_eq ready, get_set_other _ _ _ _ (by simp only [Field.offset]; omega),
      get_set_other _ _ _ _ (by simp only [Field.offset]; omega), ready.newStack]
  simp only [copyStack, parentStack, newStack]
  rw [sub32_of_le newLt newLow, sub32_of_le parentLt parentLow]
  simp only [kernelStackSize] at parentLow newLow disjoint ⊢
  exact memcpy_eq_copy _ (by omega) (by omega) (by omega)

/-- A byte that no assignment to a field of the record touches. -/
theorem set_bytes (h : Heap) {p : Nat} (f : Field) (v : Nat) {a : Nat}
    (outside : a < p ∨ p + sizeofProcess ≤ a) : (set h p f v).mem a = h.mem a := by
  have low : f.offset + 4 ≤ sizeofProcess := by cases f <;> decide
  exact Memory.write32_outside _ _ (by omega)

/-- The child's stack holds the parent's bytes. -/
theorem finishFork_copied (ready : StacksReady h call newProc parentTop newTop) {k : Nat}
    (inside : k < kernelStackSize) :
    (finishFork h call newProc).mem (newTop - kernelStackSize + k) =
      h.mem (parentTop - kernelStackSize + k) := by
  obtain ⟨parentLow, parentLt⟩ := ready.parentRoom
  obtain ⟨newLow, newLt⟩ := ready.newRoom
  have offParent := ready.offParent
  have offNew := ready.offNew
  rw [finishFork, set_bytes _ _ _ (by omega), copyStack_relocate ready,
    Memory.copy_inside _ (by omega), Nat.add_sub_cancel_left, relocate_eq ready,
    set_bytes _ _ _ (by omega), set_bytes _ _ _ (by omega)]

theorem get_finishFork (ready : StacksReady h call newProc parentTop newTop) {f : Field}
    (notEip : f ≠ .eip) :
    get (finishFork h call newProc) newProc f = get (relocate h call newProc) newProc f := by
  have offNew := ready.offNew
  have newLow := ready.newRoom.1
  have low : f.offset + 4 ≤ sizeofProcess := by cases f <;> decide
  have apart : newProc + Field.eip.offset + 4 ≤ newProc + f.offset ∨
      newProc + f.offset + 4 ≤ newProc + Field.eip.offset := by
    cases f <;> simp only [Field.offset] at notEip ⊢ <;> first | contradiction | omega
  rw [finishFork, get_set_other _ _ _ _ apart, get, copyStack_relocate ready]
  exact Memory.read32_copy_disjoint _ (by omega)

theorem finishFork_esp (ready : StacksReady h call newProc parentTop newTop) :
    get (finishFork h call newProc) newProc .esp = newTop - (parentTop - call.esp) := by
  have newLt := ready.newRoom.2
  rw [get_finishFork ready (by decide), relocate_eq ready,
    get_set_other _ _ _ _ (by simp only [Field.offset]; omega), get_set_self _ _ _ (by omega)]

theorem finishFork_ebp (ready : StacksReady h call newProc parentTop newTop) :
    get (finishFork h call newProc) newProc .ebp = newTop - (parentTop - call.ebp) := by
  have newLt := ready.newRoom.2
  rw [get_finishFork ready (by decide), relocate_eq ready, get_set_self _ _ _ (by omega)]

theorem finishFork_eip (h : Heap) (call : ForkCall) (newProc : Nat) :
    get (finishFork h call newProc) newProc .eip = call.eip % 2 ^ 32 :=
  Memory.read32_write32_same _ _ _

/-! ### The saved frames -/

/-- The word the child finds at its frame pointer is the parent's frame pointer
itself. -/
theorem finishFork_link (ready : StacksReady h call newProc parentTop newTop)
    (onStack : OnStack parentTop call.ebp) :
    (finishFork h call newProc).mem.read32 (newTop - (parentTop - call.ebp)) =
      h.mem.read32 call.ebp := by
  obtain ⟨low, high⟩ := onStack
  obtain ⟨parentLow, parentLt⟩ := ready.parentRoom
  obtain ⟨newLow, newLt⟩ := ready.newRoom
  apply Memory.read32_of_bytes
  intro k bound
  simp only [kernelStackSize] at low parentLow newLow
  have copied := finishFork_copied ready (k := call.ebp + k - (parentTop - kernelStackSize))
    (by simp only [kernelStackSize]; omega)
  simp only [kernelStackSize] at copied
  have here : newTop - (parentTop - call.ebp) + k =
      newTop - 0x8000 + (call.ebp + k - (parentTop - 0x8000)) := by omega
  have there : parentTop - 0x8000 + (call.ebp + k - (parentTop - 0x8000)) = call.ebp + k := by
    omega
  rw [here, copied, there]

/-- With a second frame on the parent's stack, the child's second frame is that
same frame of the parent. -/
theorem not_sameFrames (ready : StacksReady h call newProc parentTop newTop)
    (here : OnStack parentTop call.ebp) (above : OnStack parentTop (h.mem.read32 call.ebp)) :
    ¬ SameFrames h (finishFork h call newProc) call newProc parentTop newTop := by
  intro same
  have parentFrames : ∀ i, i ≤ 1 → OnStack parentTop (savedFrame h.mem call.ebp i) := by
    intro i bound
    have cases : i = 0 ∨ i = 1 := by omega
    rcases cases with rfl | rfl
    · exact here
    · exact above
  obtain ⟨onNew, -⟩ := same.frames 1 parentFrames
  rw [finishFork_ebp ready] at onNew
  change OnStack newTop ((finishFork h call newProc).mem.read32 _) at onNew
  rw [finishFork_link ready here] at onNew
  -- The word lies on both stacks.
  obtain ⟨parentFrom, parentTo⟩ := above
  obtain ⟨newFrom, newTo⟩ := onNew
  have disjoint := ready.disjoint
  omega

/-- The registers are moved right whichever stack is higher, and the child stays
off the parent's frames exactly when no frame above the one at `ebp` lies on the
parent's stack. -/
theorem sameFrames_iff (h : Heap) (call : ForkCall) (newProc parentTop newTop : Nat)
    (ready : StacksReady h call newProc parentTop newTop) :
    SameFrames h (finishFork h call newProc) call newProc parentTop newTop ↔
      ¬ (OnStack parentTop call.ebp ∧ OnStack parentTop (h.mem.read32 call.ebp)) := by
  obtain ⟨parentLow, parentLt⟩ := ready.parentRoom
  obtain ⟨newLow, newLt⟩ := ready.newRoom
  obtain ⟨espLow, espLt⟩ := ready.esp
  obtain ⟨ebpLow, ebpLt⟩ := ready.ebp
  have esp := finishFork_esp ready
  have ebp := finishFork_ebp ready
  constructor
  · rintro same ⟨here, above⟩
    exact not_sameFrames ready here above same
  · intro leaves
    refine ⟨?_, ?_, ?_⟩
    · rw [esp, sub32_of_le newLt (by omega), sub32_of_le parentLt (by omega)]
      simp only [kernelStackSize] at *
      omega
    · rw [ebp, sub32_of_le newLt (by omega), sub32_of_le parentLt (by omega)]
      simp only [kernelStackSize] at *
      omega
    · intro n frames
      cases n with
      | zero =>
          obtain ⟨low, high⟩ : OnStack parentTop call.ebp := frames 0 (Nat.le_refl 0)
          change OnStack newTop (get (finishFork h call newProc) newProc .ebp) ∧
            newTop - get (finishFork h call newProc) newProc .ebp = parentTop - call.ebp
          rw [ebp]
          simp only [OnStack, kernelStackSize] at *
          omega
      | succ n =>
          exact absurd ⟨frames 0 (by omega), frames 1 (by omega)⟩ leaves

/-! ### A stack with two frames -/

/-- A parent at `0x1000` with the stack top `0x20000` and the saved frame pointer
`0x1FFF8` at `0x1FFF0`, and a child at `0x2000` with the stack top `0x30000`. -/
def twoFrames : Heap where
  mem := Memory.write32 (Memory.write32 (Memory.write32 (fun _ => 0) 0x10A8 0x20000) 0x20A8
    0x30000) 0x1FFF0 0x1FFF8
  placementPointer := 0
  heapEnd := 0
  klmallocBinHead := fun _ => 0
  klmallocBigForward := fun _ => 0
  klmallocBigLevel := 0
  klmallocNewestBig := 0

def twoFramesCall : ForkCall where
  parent := 0x1000
  dir := 0
  cloned := twoFrames
  esp := 0x1FFE0
  ebp := 0x1FFF0
  eip := 0

theorem twoFrames_ready : StacksReady twoFrames twoFramesCall 0x2000 0x20000 0x30000 where
  parentStack := by decide
  newStack := by decide
  parentRoom := by decide
  newRoom := by decide
  disjoint := by decide
  ownRecord := by decide
  offParent := by decide
  offNew := by decide
  esp := by decide
  ebp := by decide

/-- `sameFrames_iff` on the stack with two frames. -/
theorem sameFrames_iff_twoFrames :
    SameFrames twoFrames (finishFork twoFrames twoFramesCall 0x2000) twoFramesCall 0x2000 0x20000
        0x30000 ↔
      ¬ (OnStack 0x20000 twoFramesCall.ebp ∧
        OnStack 0x20000 (twoFrames.mem.read32 twoFramesCall.ebp)) :=
  sameFrames_iff _ _ _ _ _ twoFrames_ready

/-- The child of a parent with two frames returns into the parent's second frame. -/
theorem child_on_parent_frame :
    ¬ ∀ (h : Heap) (call : ForkCall) (newProc parentTop newTop : Nat),
      StacksReady h call newProc parentTop newTop →
      SameFrames h (finishFork h call newProc) call newProc parentTop newTop := by
  intro always
  exact not_sameFrames twoFrames_ready (by decide) (by decide)
    (always _ _ _ _ _ twoFrames_ready)

end Balloon.Process
