import Balloon.Process.Records
import Balloon.Foundation.Transition
import Balloon.Allocator.Exhaustion

/-!
Owns the run queue over whole runs: the list that hangs off `root_proc` after
`init_kernel_process` and any sequence of forks. `spawn_process` overwrites
`root_proc->next` and gives every process the pid 1, and `init_kernel_process`
leaves `next` as it found it.
-/

namespace Balloon.Process

open Balloon.Foundation
open Balloon.Libc
open Balloon.Allocator

/-- The list that hangs off `root_proc`. -/
def queueNext (s : System) : Option Nat → Option Nat
  | none => nodeAt s.rootProc
  | some proc => nodeAt (get s.heap proc .next)

/-- The system and the processes created so far, newest first. -/
structure Table where
  system : System
  procs : List Nat

namespace Table

/-- `init_kernel_process`. -/
def boot (names : Names) (initialEsp : Nat) (h : Heap) : Option Table :=
  (initKernelProcess names initialEsp h).map fun (init, s) => { system := s, procs := [init] }

def step (names : Names) (t : Table) (call : ForkCall) : Option Table :=
  (fork names t.system call).map fun result =>
    { system := result.system, procs := result.newProc :: t.procs }

/-- `fork` is called by an existing process, and its `clone_directory` takes
memory from the allocator without touching the blocks handed out before. -/
def Called (t : Table) (call : ForkCall) : Prop :=
  call.parent ∈ t.procs ∧ ∀ base L, WellFormed t.system.heap base L →
    ∃ L', Extends t.system.heap base L call.cloned L'

/-- Following `next` from `root_proc` ends and meets every process exactly
once, and the pids are pairwise distinct. -/
def QueueOk (t : Table) : Prop :=
  ∃ xs, Path (queueNext t.system) none xs ∧ xs.Nodup ∧ xs.Perm t.procs ∧
    (t.procs.map fun proc => get t.system.heap proc .pid).Nodup

/-! ### What a run leaves in the records -/

/-- The kernel process `init` with the stale word in its `next`, and its
children, newest first. -/
structure Created (t : Table) (base : Nat) (L : Layout) (stale init : Nat)
    (children : List Nat) : Prop where
  procs : t.procs = children ++ [init]
  owned : Owned t.system.heap base L t.procs
  root : t.system.rootProc = init
  nodup : t.procs.Nodup
  initPid : get t.system.heap init .pid = 0
  initNext : get t.system.heap init .next = children.head?.getD stale
  childPid : ∀ child ∈ children, get t.system.heap child .pid = 1
  childNext : ∀ child ∈ children, get t.system.heap child .next = 0

variable {t : Table} {base : Nat} {L : Layout} {stale init : Nat} {children : List Nat}

theorem created_boot {h h₁ : Heap} (wf : WellFormed h base L) {names : Names} {initialEsp : Nat}
    (allocated : h.kmallocMapped sizeofProcess = some (init, h₁))
    (booted : boot names initialEsp h = some t) :
    ∃ L', Created t base L' (get h₁ init .next) init [] := by
  have noProcs : Owned h base L [] := ⟨wf, nofun⟩
  obtain ⟨L', owned, -, -⟩ := noProcs.kmallocProcess allocated
  have isInit : init ∈ [init] := List.mem_singleton_self init
  have o₁ := owned.set isInit .pid 0
  have o₂ := o₁.set isInit .name names.kernel
  have o₃ := o₂.set isInit .stack (wrap32 (initialEsp + 1))
  simp only [boot, initKernelProcess, allocated, Option.map_some, Option.some.injEq] at booted
  subst booted
  have final : ∀ f, get (Process.set (Process.set (Process.set (Process.set h₁ init .pid 0) init
      .name names.kernel) init .stack (wrap32 (initialEsp + 1))) init .userStack 0) init f = _ :=
    fun f => by
      rw [o₃.get_set isInit isInit, o₂.get_set isInit isInit, o₁.get_set isInit isInit,
        owned.get_set isInit isInit]
  exact ⟨L', rfl, o₃.set isInit _ _, rfl, List.nodup_singleton init, (final .pid).trans (by simp),
    (final .next).trans (by simp), nofun, nofun⟩

/-- One fork adds one child, which `root_proc->next` then names. -/
theorem Created.step (created : Created t base L stale init children) {names : Names}
    {call : ForkCall} (called : Called t call) {t' : Table}
    (stepped : t.step names call = some t') :
    ∃ child L', Created t' base L' stale init (child :: children) := by
  obtain ⟨result, forked, rfl⟩ := Option.map_eq_some_iff.mp stepped
  have isInit : init ∈ t.procs := by simp [created.procs]
  have root : t.system.rootProc ∈ t.procs := created.root ▸ isInit
  obtain ⟨L', owned, sameRoot, fresh, -, pid, next, old⟩ :=
    created.owned.fork root (called.2 base L created.owned.wf) forked
  rw [created.root] at old
  have isChild : ∀ child ∈ children, child ∈ t.procs ∧ child ≠ init := by
    intro child member
    have nodup := created.nodup
    rw [created.procs] at nodup ⊢
    have apart := (List.nodup_append.mp nodup).2.2 child member init (by simp)
    exact ⟨List.mem_append_left _ member, apart⟩
  refine ⟨result.newProc, L', ?_, owned, sameRoot.trans created.root,
    List.nodup_cons.mpr ⟨fresh, created.nodup⟩, ?_, ?_, ?_, ?_⟩
  · simp [created.procs]
  · rw [old init isInit, if_neg (by simp)]
    exact created.initPid
  · rw [old init isInit, if_pos ⟨rfl, rfl⟩]
    rfl
  · intro child member
    rcases List.mem_cons.mp member with rfl | inOld
    · exact pid
    · rw [old child (isChild child inOld).1, if_neg (by simp)]
      exact created.childPid child inOld
  · intro child member
    rcases List.mem_cons.mp member with rfl | inOld
    · exact next
    · rw [old child (isChild child inOld).1, if_neg fun both => (isChild child inOld).2 both.1]
      exact created.childNext child inOld

/-- A run of forks makes one child for each. -/
theorem Created.run (created : Created t base L stale init children) {names : Names}
    {calls : List ForkCall} (called : EveryStep (Table.step names) Called t calls) {t' : Table}
    (ran : calls.foldlM (Table.step names) t = some t') :
    ∃ children' L', Created t' base L' stale init children' ∧
      children'.length = children.length + calls.length := by
  induction calls generalizing t L children with
  | nil =>
      obtain rfl : t = t' := Option.some.inj ran
      exact ⟨children, L, created, rfl⟩
  | cons call rest inductionHypothesis =>
      rw [List.foldlM_cons] at ran
      obtain ⟨t₁, stepped, ranRest⟩ := Option.bind_eq_some_iff.mp ran
      obtain ⟨child, L₁, created₁⟩ := created.step called.1 stepped
      obtain ⟨children', L', created', count⟩ :=
        inductionHypothesis created₁ (called.2 t₁ stepped) ranRest
      refine ⟨children', L', created', ?_⟩
      rw [count, List.length_cons, List.length_cons]
      omega

/-! ### The queue -/

/-- The queue is right with one child, and without children when the stale
word is zero. -/
theorem Created.queueOk_iff (created : Created t base L stale init children) :
    t.QueueOk ↔ children.length = 1 ∨ (children = [] ∧ stale = 0) := by
  have isInit : init ∈ t.procs := by simp [created.procs]
  have initPos := (created.owned.range isInit).1
  have first : queueNext t.system none = some init := by
    rw [queueNext, created.root]
    exact nodeAt_pos initPos
  have second : queueNext t.system (some init) = nodeAt (children.head?.getD stale) :=
    congrArg nodeAt created.initNext
  have nodup := created.nodup
  rw [created.procs] at nodup
  rcases children with _ | ⟨child, _ | ⟨other, rest⟩⟩
  · have procs : t.procs = [init] := created.procs
    constructor
    · rintro ⟨xs, path, -, perm, -⟩
      rw [procs, List.perm_singleton] at perm
      subst perm
      exact Or.inr ⟨rfl, nodeAt_eq_none_iff.mp (second.symm.trans path.2)⟩
    · rintro (one | ⟨-, rfl⟩)
      · contradiction
      · rw [QueueOk, procs]
        exact ⟨[init], ⟨first, second⟩, nodup, List.Perm.refl _, by simp⟩
  · have procs : t.procs = [child, init] := created.procs
    have isChild : child ∈ t.procs := by simp [procs]
    have childPos := (created.owned.range isChild).1
    refine iff_of_true ?_ (Or.inl rfl)
    rw [QueueOk, procs]
    refine ⟨[init, child], ⟨first, second.trans (nodeAt_pos childPos), ?_⟩, ?_, ?_, ?_⟩
    · exact nodeAt_eq_none_iff.mpr (created.childNext child (by simp))
    · exact (List.Perm.swap init child []).nodup nodup
    · exact List.Perm.swap child init []
    · simp [created.childPid child (by simp), created.initPid]
  · -- Two children have the same pid.
    refine iff_of_false ?_ (by simp)
    rintro ⟨-, -, -, -, pids⟩
    rw [created.procs] at pids
    simp [created.childPid child (by simp), created.childPid other (by simp)] at pids

/-- After `init_kernel_process` and any run of forks, the queue is right exactly
after one fork, or before the first when the word `kmalloc` left in `next` is
zero. -/
theorem queueOk_iff_forks {h h₁ : Heap} (wf : WellFormed h base L) (names : Names)
    (initialEsp : Nat) (allocated : h.kmallocMapped sizeofProcess = some (init, h₁)) {t₀ t : Table}
    (booted : boot names initialEsp h = some t₀) (calls : List ForkCall)
    (called : EveryStep (Table.step names) Called t₀ calls)
    (ran : calls.foldlM (Table.step names) t₀ = some t) :
    t.QueueOk ↔ calls.length = 1 ∨ (calls = [] ∧ get h₁ init .next = 0) := by
  obtain ⟨L₀, created₀⟩ := created_boot wf allocated booted
  obtain ⟨children, L', created, count⟩ := created₀.run called ran
  rw [List.length_nil, Nat.zero_add] at count
  rw [created.queueOk_iff, count, ← List.length_eq_zero_iff, ← List.length_eq_zero_iff, count]

/-! ### Runs on a fresh heap -/

/-- The heap `init_heap` sets up above `0x1000`, its memory all zero. -/
def freshHeap : Heap := (Client.started (fun _ => 0) 0x1000 []).heap

/-- The heap after `clone_directory` of a directory without tables. -/
def clonedHeap (h : Heap) : Heap :=
  match h.kmallocAligned 8196 with
  | none => h
  | some (dir, h) => { h with mem := memset h.mem dir 0 8196 }.store (dir + 8192) (dir + 4096)

/-- The call of `fork` on behalf of `parent` in the heap `h`. -/
def forkFrom (parent : Nat) (h : Heap) : ForkCall where
  parent := parent
  dir := 0
  cloned := clonedHeap h
  esp := 0
  ebp := 0
  eip := 0

@[simp] theorem cloned_forkFrom (parent : Nat) (h : Heap) :
    (forkFrom parent h).cloned = clonedHeap h := rfl

theorem clonedHeap_spec {h : Heap} (wf : WellFormed h base L)
    (room : h.heapEnd + 0x4000 ≤ kheapEnd) :
    (∃ L', Extends h base L (clonedHeap h) L') ∧ (clonedHeap h).heapEnd ≤ h.heapEnd + 0x4000 := by
  have positive := wf.heapEnd_pos
  have pages : bigPages (need 8196 true) = 4 := by decide
  obtain ⟨lo, hi, p, h', L', served, step, slot, fresh, within, isPtr, -⟩ :=
    wf.kmallocRaw (by decide : 0 < need 8196 true) (fits_of_room (by omega))
  have grown := heapEnd_kmallocRaw_le (by omega) served
  have range := step.wf.slot_range slot
  have endLe := step.wf.endLe
  rw [if_pos rfl] at isPtr
  have cloned : clonedHeap h =
      { h' with mem := memset h'.mem p 0 8196 }.store (p + 8192) (p + 4096) := by
    rw [clonedHeap, Heap.kmallocAligned, served]
  rw [cloned]
  refine ⟨⟨L', step.writeFresh slot fresh fun a outside => ?_⟩, ?_⟩
  · refine (Memory.write32_outside _ _ (by omega)).trans ?_
    change memset h'.mem p 0 8196 a = _
    rw [memset_eq_fill h'.mem 0 (by omega)]
    exact Memory.fill_outside _ _ (by omega)
  · change h'.heapEnd ≤ _
    omega

/-- Forks by the kernel process return while there is room for them. -/
theorem Created.forks_return (created : Created t base L stale init children) (names : Names)
    (count : Nat) (room : t.system.heap.heapEnd + 0xE000 * count ≤ kheapEnd) :
    ∃ calls t', calls.length = count ∧ EveryStep (Table.step names) Called t calls ∧
      calls.foldlM (Table.step names) t = some t' := by
  induction count generalizing t L children with
  | zero => exact ⟨[], t, rfl, trivial, rfl⟩
  | succ count inductionHypothesis =>
      have isInit : init ∈ t.procs := by simp [created.procs]
      obtain ⟨-, clonedEnd⟩ := clonedHeap_spec created.owned.wf (by linarith)
      have called : Called t (forkFrom init t.system.heap) := by
        refine ⟨isInit, fun base L wf => ?_⟩
        rw [cloned_forkFrom]
        exact (clonedHeap_spec wf (by linarith)).1
      have forkRoom : (forkFrom init t.system.heap).cloned.heapEnd + 0xA000 ≤ kheapEnd := by
        rw [cloned_forkFrom]
        linarith
      obtain ⟨result, forked, grown⟩ := created.owned.fork_returns
        (created.root ▸ isInit) (called.2 base L created.owned.wf) forkRoom
      rw [cloned_forkFrom] at grown
      have stepped : t.step names (forkFrom init t.system.heap) =
          some { system := result.system, procs := result.newProc :: t.procs } := by
        rw [Table.step, forked, Option.map_some]
      obtain ⟨child, L', created'⟩ := created.step called stepped
      have roomLeft : result.system.heap.heapEnd + 0xE000 * count ≤ kheapEnd := by
        linarith
      obtain ⟨calls, t', length, allowed, ran⟩ := inductionHypothesis created' roomLeft
      refine ⟨_ :: calls, t', by rw [List.length_cons, length], ⟨called, fun s' stepped' => ?_⟩, ?_⟩
      · exact Option.some.inj (stepped.symm.trans stepped') ▸ allowed
      · rw [List.foldlM_cons, stepped]
        exact ran

/-- On the fresh heap the kernel boots and can fork. -/
theorem freshHeap_forks (names : Names) (count : Nat) (room : count ≤ 100) :
    ∃ base init h₁ t₀ calls t, WellFormed freshHeap base Client.emptyLayout ∧
      freshHeap.kmallocMapped sizeofProcess = some (init, h₁) ∧ boot names 0 freshHeap = some t₀ ∧
      calls.length = count ∧ EveryStep (Table.step names) Called t₀ calls ∧
      calls.foldlM (Table.step names) t₀ = some t := by
  obtain ⟨base, managed⟩ :=
    Client.managed_started (fun _ => 0) (Client.bumped_nil 0x1000) (by decide)
  have wf : WellFormed freshHeap base Client.emptyLayout := managed.wf
  have heapEnd : freshHeap.heapEnd = 0x2000 := by decide
  have pages : bigPages sizeofProcess = 1 := by decide
  have limit : kheapEnd = 0x02000000 := rfl
  obtain ⟨init, h₁, allocated, grown⟩ :=
    wf.kmallocMapped_returns (by decide : 0 < sizeofProcess) (by omega)
  obtain ⟨t₀, booted, unmoved⟩ :
      ∃ t₀, boot names 0 freshHeap = some t₀ ∧ t₀.system.heap.heapEnd = h₁.heapEnd := by
    simp only [boot, initKernelProcess, allocated, Option.map_some]
    exact ⟨_, rfl, rfl⟩
  obtain ⟨L', created⟩ := created_boot wf allocated booted
  obtain ⟨calls, t, length, allowed, ran⟩ := created.forks_return names count (by omega)
  exact ⟨base, init, h₁, t₀, calls, t, wf, allocated, booted, length, allowed, ran⟩

/-- The queue after one fork on the fresh heap, from `queueOk_iff_forks`. -/
theorem queueOk_iff_forks_once :
    ∃ t₀ call t, boot ⟨0x100000, 0x100007⟩ 0 freshHeap = some t₀ ∧
      t₀.step ⟨0x100000, 0x100007⟩ call = some t ∧ t.QueueOk := by
  obtain ⟨base, init, h₁, t₀, calls, t, wf, allocated, booted, length, called, ran⟩ :=
    freshHeap_forks ⟨0x100000, 0x100007⟩ 1 (by decide)
  obtain ⟨call, rfl⟩ := List.length_eq_one_iff.mp length
  refine ⟨t₀, call, t, booted, by simpa using ran, ?_⟩
  exact (queueOk_iff_forks wf _ 0 allocated booted [call] called ran).mpr (Or.inl length)

/-- After two forks on the fresh heap the first child is lost. -/
theorem second_fork_breaks_queue :
    ¬ ∀ (h : Heap) (base : Nat) (L : Layout) (names : Names) (initialEsp : Nat) (t₀ : Table)
      (calls : List ForkCall) (t : Table), WellFormed h base L →
      boot names initialEsp h = some t₀ → EveryStep (Table.step names) Called t₀ calls →
      calls.foldlM (Table.step names) t₀ = some t → t.QueueOk := by
  intro always
  obtain ⟨base, init, h₁, t₀, calls, t, wf, allocated, booted, length, called, ran⟩ :=
    freshHeap_forks ⟨0x100000, 0x100007⟩ 2 (by decide)
  have queue := always _ _ _ _ _ _ _ _ wf booted called ran
  obtain ⟨L₀, created₀⟩ := created_boot wf allocated booted
  obtain ⟨children, L', created, count⟩ := created₀.run called ran
  rw [List.length_nil, length] at count
  rcases created.queueOk_iff.mp queue with one | ⟨none, -⟩
  · omega
  · rw [none] at count
    contradiction

end Table

end Balloon.Process
