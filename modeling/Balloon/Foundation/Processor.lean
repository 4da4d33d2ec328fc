import Mathlib.Logic.Function.Basic
import Mathlib.Data.Option.Basic
import Balloon.Foundation.WordStack

/-!
Owns the part of a 32-bit x86 processor that interrupts use: registers and segment selectors, the
stack in memory, pushes and pops, the delivery of an interrupt through a gate and `iret`, and what
a compiled C function may do between its call and its return. Code is a list of instructions; a
call runs a function as a whole.

It does not own privilege changes, paging, or where instructions lie in memory. `World` is whatever
functions act on besides registers and memory.
-/

namespace Balloon.Foundation

inductive Reg where
  | eax
  | ecx
  | edx
  | ebx
  | esp
  | ebp
  | esi
  | edi
deriving DecidableEq

inductive Seg where
  | ds
  | es
  | fs
  | gs
  | ss
deriving DecidableEq

@[ext] structure Cpu (World : Type) where
  regs : Reg → BitVec 32
  segs : Seg → BitVec 16
  cs : BitVec 16
  eip : BitVec 32
  eflags : BitVec 32
  memory : Memory
  world : World

inductive Instr where
  | cli
  | pushImm (word : BitVec 32)
  | push (r : Reg)
  | pop (r : Reg)
  | pusha
  | popa
  | movFromSeg (r : Reg) (s : Seg)
  | movImm16 (r : Reg) (low : BitVec 16)
  | movToSeg (s : Seg) (r : Reg)
  | addEsp (n : BitVec 32)
  | call (target next : BitVec 32)
  | iret
deriving DecidableEq

/-- A register whose low half is replaced. -/
def setLow (word : BitVec 32) (low : BitVec 16) : BitVec 32 :=
  BitVec.ofNat 32 (word.toNat / 2 ^ 16 * 2 ^ 16 + low.toNat)

/-- Flags without the interrupt flag. -/
def clearInterrupt (eflags : BitVec 32) : BitVec 32 := eflags &&& ~~~0x200#32

/-- Flags as an interrupt gate leaves them: VM, RF, NT, IF and TF are clear. -/
def gateFlags (eflags : BitVec 32) : BitVec 32 := eflags &&& ~~~0x34300#32

namespace Cpu

variable {World : Type}

def set (c : Cpu World) (r : Reg) (word : BitVec 32) : Cpu World :=
  { c with regs := Function.update c.regs r word }

/-- The word at an address. -/
def load (c : Cpu World) (a : BitVec 32) : BitVec 32 := BitVec.ofNat 32 (c.memory.read32 a.toNat)

def push (c : Cpu World) (word : BitVec 32) : Cpu World :=
  { c.set .esp (c.regs .esp - 4) with
    memory := c.memory.write32 (c.regs .esp - 4).toNat word.toNat }

def pushAll (c : Cpu World) (words : List (BitVec 32)) : Cpu World := words.foldl push c

/-- An instruction. `calls` gives what the function at an address does, from its first instruction
to the one behind its `ret`. -/
def exec (calls : BitVec 32 → Cpu World → Option (Cpu World)) (c : Cpu World) :
    Instr → Option (Cpu World)
  | .cli => some { c with eflags := clearInterrupt c.eflags }
  | .pushImm word => some (c.push word)
  | .push r => some (c.push (c.regs r))
  | .pop r => some ((c.set .esp (c.regs .esp + 4)).set r (c.load (c.regs .esp)))
  | .pusha => some (c.pushAll [c.regs .eax, c.regs .ecx, c.regs .edx, c.regs .ebx, c.regs .esp,
      c.regs .ebp, c.regs .esi, c.regs .edi])
  | .popa => some (((((((c.set .edi (c.load (c.regs .esp))).set .esi
      (c.load (c.regs .esp + 4))).set .ebp (c.load (c.regs .esp + 8))).set .ebx
      (c.load (c.regs .esp + 16))).set .edx (c.load (c.regs .esp + 20))).set .ecx
      (c.load (c.regs .esp + 24))).set .eax (c.load (c.regs .esp + 28)) |>.set .esp
      (c.regs .esp + 32))
  | .movFromSeg r s => some (c.set r (setLow (c.regs r) (c.segs s)))
  | .movImm16 r low => some (c.set r (setLow (c.regs r) low))
  | .movToSeg s r => some { c with segs := Function.update c.segs s ((c.regs r).setWidth 16) }
  | .addEsp n => some (c.set .esp (c.regs .esp + n))
  | .call target next => calls target (c.push next)
  | .iret => some { c.set .esp (c.regs .esp + 12) with
      eip := c.load (c.regs .esp)
      cs := (c.load (c.regs .esp + 4)).setWidth 16
      eflags := c.load (c.regs .esp + 8) }

def run (calls : BitVec 32 → Cpu World → Option (Cpu World)) (code : List Instr)
    (c : Cpu World) : Option (Cpu World) := code.foldlM (exec calls) c

/-- Delivery through an interrupt gate at the privilege of the interrupted code. Some exceptions
push an error code. -/
def deliver (c : Cpu World) (selector : BitVec 16) (offset : BitVec 32)
    (errorCode : Option (BitVec 32)) : Cpu World :=
  { c.pushAll ([c.eflags, c.cs.setWidth 32, c.eip] ++ errorCode.toList) with
    cs := selector
    eip := offset
    eflags := gateFlags c.eflags }

/-- The stack pointer leads to these words, none of them behind the last address. -/
structure Stack (c : Cpu World) (words : List (BitVec 32)) : Prop where
  held : c.memory.WordsAt (c.regs .esp).toNat words
  room : (c.regs .esp).toNat + 4 * words.length ≤ 2 ^ 32

/-! ### Registers -/

@[simp] theorem regs_set_same (c : Cpu World) (r : Reg) (word : BitVec 32) :
    (c.set r word).regs r = word := by simp only [set, Function.update_self]

theorem regs_set_of_ne (c : Cpu World) {r r' : Reg} (word : BitVec 32) (other : r' ≠ r) :
    (c.set r word).regs r' = c.regs r' := by simp only [set, Function.update_of_ne other]

@[simp] theorem memory_set (c : Cpu World) (r : Reg) (word : BitVec 32) :
    (c.set r word).memory = c.memory := rfl

@[simp] theorem world_set (c : Cpu World) (r : Reg) (word : BitVec 32) :
    (c.set r word).world = c.world := rfl

@[simp] theorem segs_set (c : Cpu World) (r : Reg) (word : BitVec 32) :
    (c.set r word).segs = c.segs := rfl

@[simp] theorem eflags_set (c : Cpu World) (r : Reg) (word : BitVec 32) :
    (c.set r word).eflags = c.eflags := rfl

@[simp] theorem eflags_push (c : Cpu World) (word : BitVec 32) :
    (c.push word).eflags = c.eflags := rfl

@[simp] theorem load_set (c : Cpu World) (r : Reg) (word a : BitVec 32) :
    (c.set r word).load a = c.load a := rfl

theorem setWidth_setLow (word : BitVec 32) (low : BitVec 16) :
    (setLow word low).setWidth 16 = low := by
  apply BitVec.eq_of_toNat_eq
  have small := word.isLt
  have lowSmall := low.isLt
  rw [BitVec.toNat_setWidth, setLow, BitVec.toNat_ofNat]
  omega

/-! ### Code -/

variable {calls : BitVec 32 → Cpu World → Option (Cpu World)}

theorem run_append (first second : List Instr) (c : Cpu World) :
    run calls (first ++ second) c = (run calls first c).bind (run calls second) :=
  List.foldlM_append

theorem run_cons (i : Instr) (code : List Instr) (c : Cpu World) :
    run calls (i :: code) c = (exec calls c i).bind (run calls code) := rfl

theorem run_nil (c : Cpu World) : run calls [] c = some c := rfl

theorem run_singleton (i : Instr) (c : Cpu World) : run calls [i] c = exec calls c i := by
  rw [run_cons]
  exact Option.bind_fun_some _

/-- Loads of one selector into every segment register. -/
def loadSegs (r : Reg) : List Instr :=
  [.movToSeg .ds r, .movToSeg .es r, .movToSeg .fs r, .movToSeg .gs r, .movToSeg .ss r]

theorem run_loadSegs (r : Reg) (c : Cpu World) :
    run calls (loadSegs r) c = some { c with segs := fun _ => (c.regs r).setWidth 16 } := by
  have all : Function.update (Function.update (Function.update (Function.update
      (Function.update c.segs .ds ((c.regs r).setWidth 16)) .es ((c.regs r).setWidth 16)) .fs
      ((c.regs r).setWidth 16)) .gs ((c.regs r).setWidth 16)) .ss ((c.regs r).setWidth 16) =
        fun _ => (c.regs r).setWidth 16 := by
    funext seg
    cases seg <;> rfl
  simp only [loadSegs, run, List.foldlM_cons, List.foldlM_nil, exec, Option.bind_eq_bind,
    Option.bind_some, Option.pure_def]
  rw [all]

/-! ### Pushes -/

theorem esp_sub_four {p : BitVec 32} (room : 4 ≤ p.toNat) : (p - 4).toNat = p.toNat - 4 := by
  have small := p.isLt
  rw [BitVec.toNat_sub]
  change (2 ^ 32 - 4 + p.toNat) % 2 ^ 32 = p.toNat - 4
  omega

/-- What a sequence of pushes leaves: a lower stack pointer, and other words below the old one. -/
structure Pushed (c c' : Cpu World) (n : Nat) : Prop where
  esp : (c'.regs .esp).toNat + 4 * n = (c.regs .esp).toNat
  regs : ∀ r, r ≠ .esp → c'.regs r = c.regs r
  memory : ∀ a, a + 4 * n < (c.regs .esp).toNat ∨ (c.regs .esp).toNat ≤ a →
    c'.memory a = c.memory a
  segs : c'.segs = c.segs
  cs : c'.cs = c.cs
  eip : c'.eip = c.eip
  eflags : c'.eflags = c.eflags
  world : c'.world = c.world

theorem push_pushed {c : Cpu World} (room : 4 ≤ (c.regs .esp).toNat) (word : BitVec 32) :
    Pushed c (c.push word) 1 where
  esp := by
    change (c.regs .esp - 4).toNat + 4 * 1 = _
    rw [esp_sub_four room]
    omega
  regs r other := regs_set_of_ne c _ other
  memory a outside := by
    change c.memory.write32 (c.regs .esp - 4).toNat word.toNat a = c.memory a
    rw [esp_sub_four room]
    exact Memory.write32_outside c.memory _ (by omega)
  segs := rfl
  cs := rfl
  eip := rfl
  eflags := rfl
  world := rfl

theorem Pushed.trans {c c' c'' : Cpu World} {n n' : Nat} (first : Pushed c c' n)
    (second : Pushed c' c'' n') : Pushed c c'' (n + n') where
  esp := by
    have lower := first.esp
    have lowest := second.esp
    omega
  regs r other := (second.regs r other).trans (first.regs r other)
  memory a outside := by
    have lower := first.esp
    have lowest := second.esp
    rw [second.memory a (by omega), first.memory a (by omega)]
  segs := second.segs.trans first.segs
  cs := second.cs.trans first.cs
  eip := second.eip.trans first.eip
  eflags := second.eflags.trans first.eflags
  world := second.world.trans first.world

theorem pushAll_pushed {c : Cpu World} {words : List (BitVec 32)}
    (room : 4 * words.length ≤ (c.regs .esp).toNat) : Pushed c (c.pushAll words) words.length := by
  induction words generalizing c with
  | nil => exact ⟨rfl, fun _ _ => rfl, fun _ _ => rfl, rfl, rfl, rfl, rfl, rfl⟩
  | cons word words inductionHypothesis =>
      rw [List.length_cons] at room ⊢
      have first := push_pushed (show 4 ≤ (c.regs .esp).toNat by omega) word
      have lower := first.esp
      have rest := @inductionHypothesis (c.push word) (by omega)
      rw [Nat.add_comm]
      exact first.trans rest

theorem Stack.push {c : Cpu World} {words : List (BitVec 32)} (stack : c.Stack words)
    (room : 4 ≤ (c.regs .esp).toNat) (word : BitVec 32) : (c.push word).Stack (word :: words) := by
  have lower : ((c.push word).regs .esp).toNat + 4 * 1 = (c.regs .esp).toNat :=
    (push_pushed room word).esp
  have top := stack.room
  have address : ((c.push word).regs .esp).toNat = (c.regs .esp - 4).toNat := rfl
  constructor
  · rw [address]
    apply Memory.WordsAt.push
    rw [← address, show ((c.push word).regs .esp).toNat + 4 = (c.regs .esp).toNat by omega]
    exact stack.held
  · rw [List.length_cons]
    omega

theorem Stack.pushAll {c : Cpu World} {words pushed : List (BitVec 32)} (stack : c.Stack words)
    (room : 4 * pushed.length ≤ (c.regs .esp).toNat) :
    (c.pushAll pushed).Stack (pushed.reverse ++ words) := by
  induction pushed generalizing c words with
  | nil => exact stack
  | cons word pushed inductionHypothesis =>
      rw [List.length_cons] at room
      have lower := (push_pushed (show 4 ≤ (c.regs .esp).toNat by omega) word).esp
      have rest := inductionHypothesis (stack.push (by omega) word) (by omega)
      rw [List.reverse_cons, List.append_assoc]
      exact rest

/-! ### Pops -/

theorem Stack.load {c : Cpu World} {words : List (BitVec 32)} (stack : c.Stack words) {i : Nat}
    {word : BitVec 32} (found : words[i]? = some word) {a : BitVec 32}
    (address : a = c.regs .esp + BitVec.ofNat 32 (4 * i)) : c.load a = word := by
  have inside : i < words.length := (List.getElem?_eq_some_iff.mp found).1
  have room := stack.room
  have small := (c.regs .esp).isLt
  have place : a.toNat = (c.regs .esp).toNat + 4 * i := by
    rw [address, BitVec.toNat_add, BitVec.toNat_ofNat]
    omega
  apply BitVec.eq_of_toNat_eq
  rw [Cpu.load, place, stack.held.get found, BitVec.toNat_ofNat]
  exact Nat.mod_eq_of_lt word.isLt

/-- What takes `n` words off the stack: everything but registers stays. -/
structure Popped (c c' : Cpu World) (n : Nat) : Prop where
  esp : c'.regs .esp = c.regs .esp + BitVec.ofNat 32 (4 * n)
  memory : c'.memory = c.memory
  world : c'.world = c.world
  segs : c'.segs = c.segs

/-- The words that are left, where there is room for an empty stack behind them. -/
theorem Popped.stack {c c' : Cpu World} {first words : List (BitVec 32)}
    (popped : Popped c c' first.length) (stack : c.Stack (first ++ words))
    (room : (c.regs .esp).toNat + 4 * first.length < 2 ^ 32) : c'.Stack words := by
  have above := stack.room
  have esp : (c'.regs .esp).toNat = (c.regs .esp).toNat + 4 * first.length := by
    rw [popped.esp, BitVec.toNat_add, BitVec.toNat_ofNat]
    omega
  rw [List.length_append] at above
  constructor
  · rw [esp, popped.memory]
    exact (Memory.wordsAt_append.mp stack.held).2
  · omega

variable (calls)

theorem addEsp_runs (c : Cpu World) (n : Nat) :
    ∃ c', exec calls c (.addEsp (BitVec.ofNat 32 (4 * n))) = some c' ∧ Popped c c' n ∧
      ∀ r, r ≠ .esp → c'.regs r = c.regs r :=
  ⟨_, rfl, ⟨regs_set_same c _ _, rfl, rfl, rfl⟩, fun _ other => regs_set_of_ne c _ other⟩

theorem Stack.pop_runs {c : Cpu World} {word : BitVec 32} {words : List (BitVec 32)}
    (stack : c.Stack (word :: words)) {r : Reg} (other : r ≠ .esp) :
    ∃ c', exec calls c (.pop r) = some c' ∧ Popped c c' 1 ∧ c'.regs r = word ∧
      ∀ r', r' ≠ .esp → r' ≠ r → c'.regs r' = c.regs r' := by
  have loaded : c.load (c.regs .esp) = word := @Stack.load _ c _ stack 0 word rfl _ (by simp)
  refine ⟨_, rfl, ⟨?_, rfl, rfl, rfl⟩, ?_, ?_⟩
  · rw [regs_set_of_ne _ _ other.symm, regs_set_same]
    rfl
  · rw [regs_set_same, loaded]
  · intro r' notEsp notR
    rw [regs_set_of_ne _ _ notR, regs_set_of_ne _ _ notEsp]

theorem Stack.popa_runs {c : Cpu World} {edi esi ebp skipped ebx edx ecx eax : BitVec 32}
    {words : List (BitVec 32)}
    (stack : c.Stack (edi :: esi :: ebp :: skipped :: ebx :: edx :: ecx :: eax :: words)) :
    ∃ c', exec calls c .popa = some c' ∧ Popped c c' 8 ∧ c'.regs .edi = edi ∧ c'.regs .esi = esi ∧
      c'.regs .ebp = ebp ∧ c'.regs .ebx = ebx ∧ c'.regs .edx = edx ∧ c'.regs .ecx = ecx ∧
      c'.regs .eax = eax := by
  have isEdi : c.load (c.regs .esp) = edi := @Stack.load _ c _ stack 0 _ rfl _ (by simp)
  have isEsi := @Stack.load _ c _ stack 1 _ rfl _ rfl
  have isEbp := @Stack.load _ c _ stack 2 _ rfl _ rfl
  have isEbx := @Stack.load _ c _ stack 4 _ rfl _ rfl
  have isEdx := @Stack.load _ c _ stack 5 _ rfl _ rfl
  have isEcx := @Stack.load _ c _ stack 6 _ rfl _ rfl
  have isEax := @Stack.load _ c _ stack 7 _ rfl _ rfl
  refine ⟨_, rfl, ⟨regs_set_same _ _ _, rfl, rfl, rfl⟩, ?_⟩
  simp only [set, Function.update_self, ne_eq, reduceCtorEq, not_false_eq_true,
    Function.update_of_ne]
  exact ⟨isEdi, isEsi, isEbp, isEbx, isEdx, isEcx, isEax⟩

theorem Stack.iret_runs {c : Cpu World} {eip cs eflags : BitVec 32} {words : List (BitVec 32)}
    (stack : c.Stack (eip :: cs :: eflags :: words)) :
    ∃ c', exec calls c .iret = some c' ∧ Popped c c' 3 ∧ c'.eip = eip ∧
      c'.cs = cs.setWidth 16 ∧ c'.eflags = eflags ∧ ∀ r, r ≠ .esp → c'.regs r = c.regs r := by
  have isEip : c.load (c.regs .esp) = eip := @Stack.load _ c _ stack 0 _ rfl _ (by simp)
  have isCs := @Stack.load _ c _ stack 1 _ rfl _ rfl
  have isEflags := @Stack.load _ c _ stack 2 _ rfl _ rfl
  refine ⟨_, rfl, ⟨regs_set_same c .esp _, rfl, rfl, rfl⟩, isEip, ?_, isEflags, ?_⟩
  · exact congrArg (BitVec.setWidth 16) isCs
  · exact fun _ other => regs_set_of_ne c _ other

variable {calls}

/-! ### C functions -/

/-- What the convention of C asks of a function that was called in `s`, where the return address is
on top of the stack, and came back in `t`: the words behind the return address are still there, but
the arguments are the function's own. -/
structure Returned (s t : Cpu World) : Prop where
  esp : t.regs .esp = s.regs .esp + 4
  ebx : t.regs .ebx = s.regs .ebx
  ebp : t.regs .ebp = s.regs .ebp
  esi : t.regs .esi = s.regs .esi
  edi : t.regs .edi = s.regs .edi
  segs : t.segs = s.segs
  cs : t.cs = s.cs

/-- The code at an address is a compiled C function of one pointer, whose meaning is `f`. It may use
`frame` bytes below its return address, and what is above its argument is memory like any other. -/
def Compiled (calls : BitVec 32 → Cpu World → Option (Cpu World)) (target : BitVec 32) (frame : Nat)
    (f : BitVec 32 → Memory → World → Option (Memory × World)) : Prop :=
  ∀ s m w, frame ≤ (s.regs .esp).toNat → (s.regs .esp).toNat + 8 ≤ 2 ^ 32 →
    f (s.load (s.regs .esp + 4)) s.memory s.world = some (m, w) →
      ∃ t, calls target s = some t ∧ Returned s t ∧ t.world = w ∧
        ∀ a, a + frame < (s.regs .esp).toNat ∨ (s.regs .esp).toNat + 8 ≤ a → t.memory a = m a

/-- A function that does what its meaning says and returns at once. -/
def interpret (f : BitVec 32 → Memory → World → Option (Memory × World)) (s : Cpu World) :
    Option (Cpu World) :=
  (f (s.load (s.regs .esp + 4)) s.memory s.world).map fun (m, w) =>
    { s.set .esp (s.regs .esp + 4) with memory := m, world := w }

theorem compiled_interpret {calls : BitVec 32 → Cpu World → Option (Cpu World)}
    {target : BitVec 32} {f : BitVec 32 → Memory → World → Option (Memory × World)}
    (means : calls target = interpret f) : Compiled calls target 0 f := by
  intro s m w _ _ called
  refine ⟨{ s.set .esp (s.regs .esp + 4) with memory := m, world := w }, ?_, ?_, rfl,
    fun _ _ => rfl⟩
  · rw [means, interpret, called]
    rfl
  · exact ⟨regs_set_same s .esp (s.regs .esp + 4), rfl, rfl, rfl, rfl, rfl, rfl⟩

/-- Words in memory that did not change in the meantime. -/
theorem Stack.kept {s t : Cpu World} {first kept : List (BitVec 32)} (stack : s.Stack (first ++ kept))
    (esp : (t.regs .esp).toNat = (s.regs .esp).toNat + 4 * first.length)
    (same : ∀ a, (s.regs .esp).toNat + 4 * first.length ≤ a →
      a < (s.regs .esp).toNat + 4 * (first.length + kept.length) → t.memory a = s.memory a) :
    t.Stack kept := by
  have room := stack.room
  rw [List.length_append] at room
  constructor
  · rw [esp]
    apply (Memory.wordsAt_append.mp stack.held).2.congr
    intro a above below
    exact same a above (by omega)
  · omega

end Cpu

end Balloon.Foundation
