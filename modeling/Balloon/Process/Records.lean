import Balloon.Process.Model
import Balloon.Allocator.Requests

/-!
Owns the process records as heap blocks: every process sits in a slot of its
own, so that setting a field of one changes no field of another, and what
`spawn_process` and `fork` leave in the fields of old and new processes.
-/

namespace Balloon.Process

open Balloon.Foundation
open Balloon.Libc
open Balloon.Allocator

/-! ### Fields -/

theorem Field.offset_le (field : Field) : field.offset + 4 ≤ sizeofProcess := by
  cases field <;> decide

theorem Field.apart {f g : Field} (different : f ≠ g) :
    f.offset + 4 ≤ g.offset ∨ g.offset + 4 ≤ f.offset := by
  cases f <;> cases g <;> first | exact absurd rfl different | decide

/-- Every process sits in a slot. -/
structure Owned (h : Heap) (base : Nat) (L : Layout) (procs : List Nat) : Prop where
  wf : WellFormed h base L
  held : ∀ p ∈ procs, ∃ hi, L.Slot p hi ∧ p + sizeofProcess ≤ hi

variable {h : Heap} {base : Nat} {L : Layout} {procs : List Nat}

/-- The record of a process lies below `KHEAP_END`. -/
theorem Owned.range (owned : Owned h base L procs) {p : Nat} (isProc : p ∈ procs) :
    0 < p ∧ p + sizeofProcess ≤ 0x02000000 := by
  obtain ⟨hi, slot, room⟩ := owned.held p isProc
  have range := owned.wf.slot_range slot
  have placement := owned.wf.placementLt
  have endLe := owned.wf.endLe
  omega

/-- A byte of a process record, seen from a block elsewhere. -/
theorem Owned.outside (owned : Owned h base L procs) {p lo hi a : Nat} (isProc : p ∈ procs)
    (slot : L.Slot lo hi) (other : lo ≠ p) (within : p ≤ a ∧ a < p + sizeofProcess) :
    a < lo ∨ hi ≤ a := by
  obtain ⟨hi', slot', room⟩ := owned.held p isProc
  have apart := owned.wf.slot_disjoint slot slot' other
  omega

/-- Setting a field changes that field of that process only. -/
theorem Owned.get_set (owned : Owned h base L procs) {p q : Nat} (isProc : p ∈ procs)
    (isProc' : q ∈ procs) (f g : Field) (v : Nat) :
    get (set h p f v) q g = if q = p ∧ g = f then v % 2 ^ 32 else get h q g := by
  have low := f.offset_le
  have low' := g.offset_le
  by_cases same : q = p
  · subst same
    by_cases sameField : g = f
    · subst sameField
      rw [if_pos ⟨rfl, rfl⟩]
      exact Memory.read32_write32_same _ _ _
    · rw [if_neg fun both => sameField both.2]
      have apart := Field.apart sameField
      exact Memory.read32_write32_disjoint _ _ (by omega)
  · rw [if_neg fun both => same both.1]
    obtain ⟨hi, slot, room⟩ := owned.held p isProc
    obtain ⟨hi', slot', room'⟩ := owned.held q isProc'
    have apart := owned.wf.slot_disjoint slot slot' (Ne.symm same)
    exact Memory.read32_write32_disjoint _ _ (by omega)

/-- Memory may change inside the slots. -/
theorem Owned.write (owned : Owned h base L procs) {m : Memory} {lo hi : Nat}
    (slot : L.Slot lo hi) (bytes : ∀ a, a < lo ∨ hi ≤ a → m a = h.mem a) :
    Owned { h with mem := m } base L procs where
  wf := owned.wf.writeSlots fun a _ _ outside => bytes a (outside lo hi slot)
  held := owned.held

theorem Owned.set (owned : Owned h base L procs) {p : Nat} (isProc : p ∈ procs) (f : Field)
    (v : Nat) : Owned (set h p f v) base L procs := by
  obtain ⟨hi, slot, room⟩ := owned.held p isProc
  have low := f.offset_le
  exact owned.write slot fun a outside => Memory.write32_outside _ _ (by omega)

/-! ### Allocation -/

/-- Whatever keeps the slots keeps the processes and their fields. -/
theorem Owned.extends (owned : Owned h base L procs) {h' : Heap} {L' : Layout}
    (step : Extends h base L h' L') :
    Owned h' base L' procs ∧ ∀ q ∈ procs, ∀ f, get h' q f = get h q f := by
  constructor
  · refine ⟨step.wf, fun p isProc => ?_⟩
    obtain ⟨hi, slot, room⟩ := owned.held p isProc
    exact ⟨hi, step.slots p hi slot, room⟩
  · intro q isProc f
    obtain ⟨hi, slot, room⟩ := owned.held q isProc
    have low := f.offset_le
    exact Memory.read32_congr fun k bound =>
      step.bytes _ (Or.inr ⟨q, hi, slot, by omega, by omega⟩)

theorem Owned.not_mem_of_fresh (owned : Owned h base L procs) {p : Nat}
    (fresh : ∀ hi, ¬ L.Slot p hi) : p ∉ procs := by
  intro isProc
  obtain ⟨hi, slot, -⟩ := owned.held p isProc
  exact fresh hi slot

/-- `kmalloc(sizeof(process_t))` makes a new process record. -/
theorem Owned.kmallocProcess (owned : Owned h base L procs) {p : Nat} {h' : Heap}
    (returned : h.kmallocMapped sizeofProcess = some (p, h')) :
    ∃ L', Owned h' base L' (p :: procs) ∧ p ∉ procs ∧
      ∀ q ∈ procs, ∀ f, get h' q f = get h q f := by
  obtain ⟨hi, L', step, slot, fresh, room⟩ :=
    owned.wf.kmallocMapped (by decide) (by decide) returned
  obtain ⟨owned', same⟩ := owned.extends step
  refine ⟨L', ⟨owned'.wf, ?_⟩, owned.not_mem_of_fresh fresh, same⟩
  intro q member
  rcases List.mem_cons.mp member with rfl | old
  · exact ⟨hi, slot, room⟩
  · exact owned'.held q old

/-- `kmalloc(KERNEL_STACK_SIZE)` makes a stack apart from all records. -/
theorem Owned.kmallocStack (owned : Owned h base L procs) {block : Nat} {h' : Heap}
    (returned : h.kmallocMapped kernelStackSize = some (block, h')) :
    ∃ hi L', Owned h' base L' procs ∧ L'.Slot block hi ∧ block ∉ procs ∧
      block + kernelStackSize ≤ hi ∧ ∀ q ∈ procs, ∀ f, get h' q f = get h q f := by
  obtain ⟨hi, L', step, slot, fresh, room⟩ :=
    owned.wf.kmallocMapped (by decide) (by decide) returned
  obtain ⟨owned', same⟩ := owned.extends step
  exact ⟨hi, L', owned', slot, owned.not_mem_of_fresh fresh, room, same⟩

/-! ### `spawn_process` -/

/-- The new process has pid 1 and no successor, and `root_proc->next` names
it. -/
theorem Owned.enqueue (owned : Owned h base L procs) (names : Names) {root proc : Nat}
    (isRoot : root ∈ procs) (new : proc ∈ procs) :
    Owned (enqueue names h root proc) base L procs ∧
      get (enqueue names h root proc) proc .pid = 1 ∧
      get (enqueue names h root proc) proc .next = 0 ∧
      ∀ q ∈ procs, q ≠ proc → ∀ f, get (enqueue names h root proc) q f =
        if q = root ∧ f = .next then proc else get h q f := by
  have o₁ := owned.set new .pid 1
  have o₂ := o₁.set new .name names.forked
  have o₃ := o₂.set new .esp 0
  have o₄ := o₃.set new .ebp 0
  have o₅ := o₄.set new .eip 0
  have o₆ := o₅.set isRoot .next proc
  have procLt := (owned.range new).2
  refine ⟨o₆.set new .next 0, ?_, ?_, fun q isProc notNew f => ?_⟩
  · rw [Process.enqueue, o₆.get_set new new, o₅.get_set isRoot new, o₄.get_set new new,
      o₃.get_set new new, o₂.get_set new new, o₁.get_set new new, owned.get_set new new]
    simp
  · rw [Process.enqueue, o₆.get_set new new]
    simp
  · rw [Process.enqueue, o₆.get_set new isProc, o₅.get_set isRoot isProc, o₄.get_set new isProc,
      o₃.get_set new isProc, o₂.get_set new isProc, o₁.get_set new isProc,
      owned.get_set new isProc]
    simp only [notNew, false_and, if_false]
    rw [Nat.mod_eq_of_lt (show proc < 2 ^ 32 by omega)]

/-- A new process, its stack block, and what became of the old processes. -/
structure Spawned (s : System) (procs : List Nat) (s' : System) (base : Nat) (L' : Layout)
    (proc block hi : Nat) : Prop where
  owned : Owned s'.heap base L' (proc :: procs)
  root : s'.rootProc = s.rootProc
  fresh : proc ∉ procs
  stackSlot : L'.Slot block hi
  stackApart : block ∉ proc :: procs
  stackRoom : block + kernelStackSize ≤ hi
  pid : get s'.heap proc .pid = 1
  next : get s'.heap proc .next = 0
  stack : get s'.heap proc .stack = block + kernelStackSize
  old : ∀ q ∈ procs, ∀ f, get s'.heap q f =
    if q = s.rootProc ∧ f = .next then proc else get s.heap q f

theorem Owned.spawnProcess {s s' : System} {names : Names} {parent proc : Nat}
    (owned : Owned s.heap base L procs) (root : s.rootProc ∈ procs)
    (returned : spawnProcess names s parent = some (proc, s')) :
    ∃ L' block hi, Spawned s procs s' base L' proc block hi := by
  obtain ⟨⟨proc', h₁⟩, allocated, rest⟩ := Option.bind_eq_some_iff.mp returned
  obtain ⟨⟨block, h₂⟩, stacked, result⟩ := Option.map_eq_some_iff.mp rest
  obtain ⟨rfl, rfl⟩ := Prod.mk.inj result
  obtain ⟨L₁, owned₁, fresh, same₁⟩ := owned.kmallocProcess allocated
  have new : proc' ∈ proc' :: procs := List.mem_cons_self
  have isRoot : s.rootProc ∈ proc' :: procs := List.mem_cons_of_mem _ root
  obtain ⟨linked, pid, next, old⟩ := owned₁.enqueue names isRoot new
  obtain ⟨hi, L₂, o₁, stackSlot, stackApart, stackRoom, same₂⟩ := linked.kmallocStack stacked
  have o₂ := o₁.set new .stack (wrap32 (block + kernelStackSize))
  have range := o₁.wf.slot_range stackSlot
  have endLe := o₁.wf.endLe
  have stackLt : block + kernelStackSize < 2 ^ 32 := by omega
  -- The last two assignments set the stack fields only.
  have final : ∀ q ∈ proc' :: procs, ∀ f, q ≠ proc' ∨ (f ≠ .stack ∧ f ≠ .userStack) →
      get (Process.set (Process.set h₂ proc' .stack (wrap32 (block + kernelStackSize))) proc'
        .userStack (get (Process.set h₂ proc' .stack (wrap32 (block + kernelStackSize))) parent
          .userStack)) q f = get (Process.enqueue names h₁ s.rootProc proc') q f := by
    intro q isProc f other
    rw [o₂.get_set new isProc, o₁.get_set new isProc, same₂ q isProc, if_neg (by grind),
      if_neg (by grind)]
  refine ⟨L₂, block, hi, o₂.set new _ _, rfl, fresh, stackSlot, stackApart, stackRoom,
    (final _ new .pid (by simp)).trans pid, (final _ new .next (by simp)).trans next, ?_, ?_⟩
  · rw [o₂.get_set new new, o₁.get_set new new]
    simp only [reduceCtorEq, and_false, if_false, and_self, if_true]
    rw [wrap32_of_lt stackLt, Nat.mod_eq_of_lt stackLt]
  · intro q isOld f
    have notNew : q ≠ proc' := fun equal => fresh (equal ▸ isOld)
    have isProc : q ∈ proc' :: procs := List.mem_cons_of_mem _ isOld
    rw [final q isProc f (Or.inl notNew), old q isProc notNew f, same₁ q isOld]

/-! ### `fork` -/

theorem Owned.relocate (owned : Owned h base L procs) (call : ForkCall) {newProc : Nat}
    (new : newProc ∈ procs) :
    Owned (relocate h call newProc) base L procs ∧
      ∀ q ∈ procs, ∀ f, ¬ (q = newProc ∧ (f = .esp ∨ f = .ebp)) →
        get (relocate h call newProc) q f = get h q f := by
  unfold Process.relocate
  dsimp only
  split
  all_goals
    refine ⟨(owned.set new _ _).set new _ _, fun q isProc f other => ?_⟩
    rw [(owned.set new _ _).get_set new isProc, owned.get_set new isProc, if_neg, if_neg]
  all_goals
    rintro ⟨same, sameField⟩
    exact other ⟨same, by simp [sameField]⟩

theorem Owned.copyStack (owned : Owned h base L procs) (parent : Nat) {newProc block hi : Nat}
    (slot : L.Slot block hi) (apart : block ∉ procs) (room : block + kernelStackSize ≤ hi)
    (stack : get h newProc .stack = block + kernelStackSize) :
    Owned (copyStack h parent newProc) base L procs ∧
      ∀ q ∈ procs, ∀ f, get (copyStack h parent newProc) q f = get h q f := by
  have range := owned.wf.slot_range slot
  have endLe := owned.wf.endLe
  have stackLt : block + kernelStackSize < 2 ^ 32 := by omega
  have start : sub32 (get h newProc .stack) kernelStackSize = block := by
    rw [stack, sub32_of_le stackLt (Nat.le_add_left _ _), Nat.add_sub_cancel]
  have bytes : ∀ a, a < block ∨ hi ≤ a → (Process.copyStack h parent newProc).mem a = h.mem a := by
    intro a outside
    have apartFrom : a < block ∨ block + kernelStackSize ≤ a := by omega
    rw [Process.copyStack, start]
    exact memcpy_outside h.mem stackLt.le apartFrom
  refine ⟨owned.write slot bytes, fun q isProc f => ?_⟩
  have low := f.offset_le
  refine Memory.read32_congr fun k bound => bytes _ ?_
  exact owned.outside isProc slot (fun same => apart (same ▸ isProc)) (by omega)

/-- A fork adds one process and, among the old fields, changes only `next` of
`root_proc`. -/
theorem Owned.fork {s : System} {names : Names} {call : ForkCall} {result : Forked}
    (owned : Owned s.heap base L procs) (root : s.rootProc ∈ procs)
    (cloned : ∃ L', Extends s.heap base L call.cloned L')
    (returned : fork names s call = some result) :
    ∃ L', Owned result.system.heap base L' (result.newProc :: procs) ∧
      result.system.rootProc = s.rootProc ∧ result.newProc ∉ procs ∧ result.pid = 1 ∧
      get result.system.heap result.newProc .pid = 1 ∧
      get result.system.heap result.newProc .next = 0 ∧
      ∀ q ∈ procs, ∀ f, get result.system.heap q f =
        if q = s.rootProc ∧ f = .next then result.newProc else get s.heap q f := by
  obtain ⟨L₁, step⟩ := cloned
  obtain ⟨ownedCloned, sameCloned⟩ := owned.extends step
  obtain ⟨⟨newProc, s'⟩, spawned, rfl⟩ := Option.map_eq_some_iff.mp returned
  obtain ⟨L₂, block, hi, spec⟩ :=
    Owned.spawnProcess (s := { s with heap := call.cloned }) ownedCloned root spawned
  have new : newProc ∈ newProc :: procs := List.mem_cons_self
  have o₁ : Owned (setProcessEnvironment s'.heap newProc call.dir) base L₂ (newProc :: procs) :=
    spec.owned.set new .pageDirectory call.dir
  obtain ⟨o₂, sameRelocated⟩ := o₁.relocate call new
  have stack : get (Process.relocate (setProcessEnvironment s'.heap newProc call.dir) call newProc)
      newProc .stack = block + kernelStackSize := by
    rw [sameRelocated _ new _ (by simp)]
    refine (spec.owned.get_set new new _ _ _).trans ?_
    simpa using spec.stack
  obtain ⟨o₃, sameCopied⟩ :=
    o₂.copyStack call.parent spec.stackSlot spec.stackApart spec.stackRoom stack
  -- Every field but four of the new process is as `spawn_process` left it.
  have final : ∀ q ∈ newProc :: procs, ∀ f,
      ¬ (q = newProc ∧ (f = .pageDirectory ∨ f = .esp ∨ f = .ebp ∨ f = .eip)) →
      get (Process.set (Process.copyStack (Process.relocate (setProcessEnvironment s'.heap newProc
        call.dir) call newProc) call.parent newProc) newProc .eip call.eip) q f =
        get s'.heap q f := by
    intro q isProc f other
    rw [o₃.get_set new isProc, if_neg (by grind), sameCopied q isProc,
      sameRelocated q isProc f (by grind)]
    exact (spec.owned.get_set new isProc _ _ _).trans (if_neg (by grind))
  have pid := (final _ new .pid (by simp)).trans spec.pid
  refine ⟨L₂, o₃.set new _ _, spec.root, spec.fresh, pid, pid,
    (final _ new .next (by simp)).trans spec.next, fun q old f => ?_⟩
  have notNew : q ≠ newProc := fun equal => spec.fresh (equal ▸ old)
  rw [final q (List.mem_cons_of_mem _ old) f (by simp [notNew]), spec.old q old f,
    sameCloned q old f]

@[simp] theorem heapEnd_set (h : Heap) (proc : Nat) (f : Field) (v : Nat) :
    (set h proc f v).heapEnd = h.heapEnd := rfl

@[simp] theorem heapEnd_copyStack (h : Heap) (parent newProc : Nat) :
    (copyStack h parent newProc).heapEnd = h.heapEnd := rfl

@[simp] theorem heapEnd_setProcessEnvironment (h : Heap) (proc directory : Nat) :
    (setProcessEnvironment h proc directory).heapEnd = h.heapEnd := rfl

@[simp] theorem heapEnd_relocate (h : Heap) (call : ForkCall) (newProc : Nat) :
    (relocate h call newProc).heapEnd = h.heapEnd := by
  rw [relocate]
  split <;> rfl

/-- A fork needs at most ten pages besides what `clone_directory` took. -/
theorem Owned.fork_returns {s : System} {names : Names} {call : ForkCall}
    (owned : Owned s.heap base L procs) (root : s.rootProc ∈ procs)
    (cloned : ∃ L', Extends s.heap base L call.cloned L')
    (room : call.cloned.heapEnd + 0xA000 ≤ kheapEnd) :
    ∃ result, Process.fork names s call = some result ∧
      result.system.heap.heapEnd ≤ call.cloned.heapEnd + 0xA000 := by
  obtain ⟨L₁, step⟩ := cloned
  obtain ⟨ownedCloned, -⟩ := owned.extends step
  have recordPages : bigPages sizeofProcess = 1 := by decide
  have stackPages : bigPages kernelStackSize = 9 := by decide
  obtain ⟨proc, h₁, allocated, grown₁⟩ :=
    ownedCloned.wf.kmallocMapped_returns (by decide : 0 < sizeofProcess) (by omega)
  obtain ⟨L₂, owned₁, -, -⟩ := ownedCloned.kmallocProcess allocated
  have linked := (owned₁.enqueue names (List.mem_cons_of_mem _ root) List.mem_cons_self).1
  have unmoved : (Process.enqueue names h₁ s.rootProc proc).heapEnd = h₁.heapEnd := rfl
  obtain ⟨block, h₂, stacked, grown₂⟩ :=
    linked.wf.kmallocMapped_returns (by decide : 0 < kernelStackSize) (by omega)
  have spawned : ∃ s', s'.heap.heapEnd = h₂.heapEnd ∧
      Process.spawnProcess names { s with heap := call.cloned } call.parent = some (proc, s') := by
    simp only [Process.spawnProcess, allocated, Option.bind_some, stacked, Option.map_some]
    exact ⟨_, rfl, rfl⟩
  obtain ⟨s', heapEnd, spawned⟩ := spawned
  refine ⟨_, by rw [Process.fork, spawned, Option.map_some], ?_⟩
  simp only [heapEnd_set, heapEnd_copyStack, heapEnd_relocate, heapEnd_setProcessEnvironment]
  omega

end Balloon.Process
