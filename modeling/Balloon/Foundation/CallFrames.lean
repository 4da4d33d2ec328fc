import Mathlib.Tactic.SplitIfs
import Balloon.Foundation.ByteMemory
import Balloon.Foundation.Transition

/-!
Owns the stack of compiled code that keeps frame pointers. A call leaves its return address and the
frame pointer of its caller on the stack. Along every run of calls, returns and stores that spare
these words, the saved frame pointers lead through the active calls, the last one first.
-/

namespace Balloon.Foundation

/-- The memory, the stack pointer and the frame pointer. -/
structure CallStack where
  memory : Memory
  esp : Nat
  ebp : Nat

/-- An active call: where its frame starts, and where it returns to. -/
structure Frame where
  base : Nat
  ret : Nat

namespace CallStack

/-- `call`, and the `push ebp`, `mov ebp, esp` and `sub esp, locals` of the function. -/
def call (s : CallStack) (ret locals : Nat) : CallStack where
  memory := (s.memory.write32 (s.esp - 4) ret).write32 (s.esp - 8) s.ebp
  esp := s.esp - 8 - locals
  ebp := s.esp - 8

/-- `leave` and `ret`. -/
def leave (s : CallStack) : CallStack where
  memory := s.memory
  esp := s.ebp + 8
  ebp := s.memory.read32 s.ebp

/-- A run of the saved frame pointers; it ends at a null pointer. -/
def walk (m : Memory) : Nat → Nat → Option (List Frame)
  | 0, _ => none
  | fuel + 1, ebp =>
      if ebp = 0 then some []
      else (walk m fuel (m.read32 ebp)).map fun frames => ⟨ebp, m.read32 (ebp + 4)⟩ :: frames

/-- The saved frame pointers lead through these frames to `outer`. -/
def Linked (m : Memory) (outer : Nat) : Nat → List Frame → Prop
  | ebp, [] => ebp = outer
  | ebp, frame :: frames =>
      frame.base = ebp ∧ frame.ret = m.read32 (ebp + 4) ∧ Linked m outer (m.read32 ebp) frames

variable {m m' : Memory} {outer ebp : Nat} {frames : List Frame}

theorem Linked.congr (linked : Linked m outer ebp frames)
    (same : ∀ frame ∈ frames, ∀ k, k < 8 → m' (frame.base + k) = m (frame.base + k)) :
    Linked m' outer ebp frames := by
  induction frames generalizing ebp with
  | nil => exact linked
  | cons frame frames inductionHypothesis =>
      obtain ⟨base, ret, rest⟩ := linked
      obtain ⟨here, later⟩ := List.forall_mem_cons.mp same
      rw [base] at here
      have saved : m'.read32 ebp = m.read32 ebp :=
        Memory.read32_congr fun k bound => here k (by omega)
      have returns : m'.read32 (ebp + 4) = m.read32 (ebp + 4) :=
        Memory.read32_congr fun k bound => by
          rw [Nat.add_assoc]
          exact here (4 + k) (by omega)
      refine ⟨base, ret.trans returns.symm, ?_⟩
      rw [saved]
      exact inductionHypothesis rest later

/-- The walk finds linked frames. -/
theorem Linked.walk (linked : Linked m 0 ebp frames) (nonzero : ∀ frame ∈ frames, frame.base ≠ 0)
    {fuel : Nat} (enough : frames.length < fuel) : CallStack.walk m fuel ebp = some frames := by
  induction frames generalizing ebp fuel with
  | nil =>
      obtain ⟨fuel, rfl⟩ := Nat.exists_eq_succ_of_ne_zero (Nat.ne_of_gt enough)
      exact if_pos linked
  | cons frame frames inductionHypothesis =>
      obtain ⟨fuel, rfl⟩ := Nat.exists_eq_succ_of_ne_zero (Nat.ne_of_gt (Nat.zero_lt_of_lt enough))
      obtain ⟨base, ret, rest⟩ := linked
      obtain ⟨here, later⟩ := List.forall_mem_cons.mp nonzero
      rw [List.length_cons] at enough
      rw [CallStack.walk, if_neg (base ▸ here), inductionHypothesis rest later (by omega), ← base,
        Option.map_some]
      obtain ⟨b, r⟩ := frame
      simp only at base ret
      rw [ret, base]

/-! ### Runs -/

/-- The stack, and the calls that are active. -/
structure Traced where
  stack : CallStack
  active : List Frame

/-- What a program does: it calls, it returns, it stores a byte, or it moves its stack pointer, as
`push` does. -/
inductive Event where
  | call (ret locals : Nat)
  | leave
  | store (a : Nat) (v : UInt8)
  | move (esp : Nat)

def step (s : Traced) : Event → Option Traced
  | .call ret locals => some ⟨s.stack.call ret locals, ⟨s.stack.esp - 8, ret⟩ :: s.active⟩
  | .leave => if s.active = [] then none else some ⟨s.stack.leave, s.active.tail⟩
  | .store a v =>
      some { s with stack := { s.stack with memory := Function.update s.stack.memory a v } }
  | .move esp => some { s with stack := { s.stack with esp := esp } }

/-- Calls have room, stores spare the words of active calls, and the stack pointer stays below the
frames. -/
def Allowed (s : Traced) : Event → Prop
  | .call ret locals => 8 + locals < s.stack.esp ∧ ret < 2 ^ 32
  | .leave => True
  | .store a _ => ∀ frame ∈ s.active, a < frame.base ∨ frame.base + 8 ≤ a
  | .move esp => esp < 2 ^ 32 ∧ ∀ frame ∈ s.active, esp ≤ frame.base

/-- The invariant. -/
structure Sound (outer : Nat) (s : Traced) : Prop where
  linked : Linked s.stack.memory outer s.stack.ebp s.active
  apart : s.active.Pairwise fun inner frame => inner.base + 8 ≤ frame.base
  above : ∀ frame ∈ s.active,
    s.stack.esp ≤ frame.base ∧ 0 < frame.base ∧ frame.base + 8 < 2 ^ 32
  esp : s.stack.esp < 2 ^ 32
  ebp : s.stack.ebp < 2 ^ 32

variable {s s' : Traced}

theorem Sound.call (sound : Sound outer s) {ret locals : Nat} (room : 8 + locals < s.stack.esp)
    (word : ret < 2 ^ 32) :
    Sound outer ⟨s.stack.call ret locals, ⟨s.stack.esp - 8, ret⟩ :: s.active⟩ := by
  have top := sound.esp
  have saved : (s.stack.call ret locals).memory.read32 (s.stack.esp - 8) = s.stack.ebp := by
    rw [CallStack.call, Memory.read32_write32_same]
    exact Nat.mod_eq_of_lt sound.ebp
  have returns : (s.stack.call ret locals).memory.read32 (s.stack.esp - 8 + 4) = ret := by
    rw [CallStack.call, Memory.read32_write32_disjoint _ _ (by omega),
      show s.stack.esp - 8 + 4 = s.stack.esp - 4 by omega, Memory.read32_write32_same]
    exact Nat.mod_eq_of_lt word
  have kept : ∀ a, s.stack.esp ≤ a → (s.stack.call ret locals).memory a = s.stack.memory a := by
    intro a above
    dsimp only [CallStack.call]
    rw [Memory.write32_outside _ _ (by omega), Memory.write32_outside _ _ (by omega)]
  refine ⟨⟨rfl, returns.symm, ?_⟩, ?_, ?_, ?_, ?_⟩
  · change Linked _ outer ((s.stack.call ret locals).memory.read32 (s.stack.esp - 8)) s.active
    rw [saved]
    apply sound.linked.congr
    intro frame member k bound
    have above := (sound.above frame member).1
    exact kept _ (by omega)
  · refine List.pairwise_cons.mpr ⟨fun frame member => ?_, sound.apart⟩
    have above := (sound.above frame member).1
    dsimp only
    omega
  · refine List.forall_mem_cons.mpr ⟨?_, fun frame member => ?_⟩
    · dsimp only [CallStack.call]
      omega
    · have above := sound.above frame member
      dsimp only [CallStack.call]
      omega
  · dsimp only [CallStack.call]
    omega
  · dsimp only [CallStack.call]
    omega

theorem Sound.leave (sound : Sound outer s) (active : s.active ≠ []) :
    Sound outer ⟨s.stack.leave, s.active.tail⟩ := by
  obtain ⟨linked, apart, above, -, -⟩ := sound
  obtain ⟨frame, frames, split⟩ := List.exists_cons_of_ne_nil active
  rw [split] at linked apart above
  rw [split, List.tail_cons]
  obtain ⟨base, -, rest⟩ := linked
  obtain ⟨here, later⟩ := List.forall_mem_cons.mp above
  obtain ⟨inner, outside⟩ := List.pairwise_cons.mp apart
  refine ⟨rest, outside, fun other member => ?_, ?_, Memory.read32_lt _ _⟩
  · have next := inner other member
    have range := later other member
    dsimp only [CallStack.leave]
    omega
  · dsimp only [CallStack.leave]
    omega

theorem Sound.store (sound : Sound outer s) {a : Nat} (v : UInt8)
    (spares : ∀ frame ∈ s.active, a < frame.base ∨ frame.base + 8 ≤ a) :
    Sound outer { s with stack :=
      { s.stack with memory := Function.update s.stack.memory a v } } where
  linked := by
    apply sound.linked.congr
    intro frame member k bound
    have outside := spares frame member
    exact Function.update_of_ne (by omega) _ _
  apart := sound.apart
  above := sound.above
  esp := sound.esp
  ebp := sound.ebp

/-- What a program does keeps the frames linked. -/
theorem Sound.step (sound : Sound outer s) {event : Event} (allowed : Allowed s event)
    (returns : CallStack.step s event = some s') : Sound outer s' := by
  cases event with
  | call ret locals =>
      obtain rfl := Option.some.inj returns
      exact sound.call allowed.1 allowed.2
  | leave =>
      rw [CallStack.step] at returns
      split_ifs at returns with active
      obtain rfl := Option.some.inj returns
      exact sound.leave active
  | store a v =>
      obtain rfl := Option.some.inj returns
      exact sound.store v allowed
  | move esp =>
      obtain rfl := Option.some.inj returns
      refine ⟨sound.linked, sound.apart, fun frame member => ?_, allowed.1, sound.ebp⟩
      exact ⟨allowed.2 frame member, (sound.above frame member).2⟩

/-- Where no call is active yet. -/
theorem sound_start {stack : CallStack} (esp : stack.esp < 2 ^ 32) (ebp : stack.ebp < 2 ^ 32) :
    Sound stack.ebp ⟨stack, []⟩ where
  linked := rfl
  apart := List.Pairwise.nil
  above := nofun
  esp := esp
  ebp := ebp

/-- Of a program that starts with a null frame pointer, every state of every run. -/
theorem sound_along_run {stack : CallStack} (esp : stack.esp < 2 ^ 32) (null : stack.ebp = 0)
    {events : List Event} (allowed : EveryStep CallStack.step Allowed ⟨stack, []⟩ events) :
    ∀ s ∈ visited CallStack.step ⟨stack, []⟩ events, Sound 0 s := by
  have start := sound_start esp (by omega)
  rw [null] at start
  exact visited_invariant (fun _ _ _ sound ok returns => sound.step ok returns) start allowed

theorem Sound.walk (sound : Sound 0 s) {fuel : Nat} (enough : s.active.length < fuel) :
    CallStack.walk s.stack.memory fuel s.stack.ebp = some s.active := by
  refine sound.linked.walk (fun frame member => ?_) enough
  have above := sound.above frame member
  omega

end CallStack

end Balloon.Foundation
