import Mathlib.Tactic.SplitIfs
import Balloon.Foundation.Processor

/-!
Owns interrupts.s: the stubs of the interrupt vectors and the code they share, which saves the
interrupted registers as a `registers_t`, calls the handler and restores them. The interrupted code
goes on as if nothing had happened, up to its segment registers: all of them get the selector that
was in `ds`.

It speaks about interrupts that do not change the privilege, as all of this kernel are.
-/

namespace Balloon.Interrupts

open Balloon.Foundation

/-! ### The code -/

/-- The addresses of the C functions and of the instructions behind their calls. -/
structure Labels where
  idtHandler : BitVec 32
  irqHandler : BitVec 32
  idtReturn : BitVec 32
  irqReturn : BitVec 32

/-- `ISR_NOERRCODE`. -/
def isrNoErrcode (n : Nat) : List Instr := [.cli, .pushImm 0, .pushImm (BitVec.ofNat 32 n)]

/-- `ISR_ERRCODE`. -/
def isrErrcode (n : Nat) : List Instr := [.cli, .pushImm (BitVec.ofNat 32 n)]

/-- `IRQ`, which has the number of the line in its label only. -/
def irq (isr : Nat) : List Instr := [.cli, .pushImm 0, .pushImm (BitVec.ofNat 32 isr)]

/-- `isr_common_stub` and `irq_common_stub`, which differ in the function they call. -/
def commonStub (handler next : BitVec 32) : List Instr :=
  [.pusha, .movFromSeg .eax .ds, .push .eax, .movImm16 .eax 0x10, .movToSeg .ds .eax,
    .movToSeg .es .eax, .movToSeg .fs .eax, .movToSeg .gs .eax, .movToSeg .ss .eax, .push .esp,
    .call handler next, .addEsp 4, .pop .ebx, .movToSeg .ds .ebx, .movToSeg .es .ebx,
    .movToSeg .fs .ebx, .movToSeg .gs .ebx, .movToSeg .ss .ebx, .popa, .addEsp 8, .iret]

def isrCommonStub (labels : Labels) : List Instr := commonStub labels.idtHandler labels.idtReturn

def irqCommonStub (labels : Labels) : List Instr := commonStub labels.irqHandler labels.irqReturn

/-- The vectors whose stub expects the processor to push an error code. -/
def expectsErrorCode (vector : Nat) : Bool := vector ∈ [8, 10, 11, 12, 13, 14]

/-- The code of a vector: `isr0` to `isr31`, `irq0` to `irq15` and `isr255`. -/
def stub (labels : Labels) (vector : Nat) : Option (List Instr) :=
  if vector < 32 ∨ vector = 255 then
    some ((if expectsErrorCode vector then isrErrcode vector else isrNoErrcode vector) ++
      isrCommonStub labels)
  else if vector < 48 then some (irq vector ++ irqCommonStub labels)
  else none

/-- The function that the stub of a vector calls, and where that returns to. -/
def handlerOf (labels : Labels) (vector : Nat) : BitVec 32 × BitVec 32 :=
  if vector < 32 ∨ vector = 255 then (labels.idtHandler, labels.idtReturn)
  else (labels.irqHandler, labels.irqReturn)

/-- A `registers_t` up to `eflags`. The fields behind it exist only where the privilege changes. -/
structure Registers where
  ds : BitVec 32
  edi : BitVec 32
  esi : BitVec 32
  ebp : BitVec 32
  esp : BitVec 32
  ebx : BitVec 32
  edx : BitVec 32
  ecx : BitVec 32
  eax : BitVec 32
  intNo : BitVec 32
  errCode : BitVec 32
  eip : BitVec 32
  cs : BitVec 32
  eflags : BitVec 32
deriving DecidableEq

/-- The fields in the order of their addresses. -/
def Registers.words (r : Registers) : List (BitVec 32) :=
  [r.ds, r.edi, r.esi, r.ebp, r.esp, r.ebx, r.edx, r.ecx, r.eax, r.intNo, r.errCode, r.eip, r.cs,
    r.eflags]

variable {World : Type} {c s t : Cpu World} {words : List (BitVec 32)}

/-- The `registers_t` of an interrupt: the upper half of `ds` is the one of `eax`, and `esp` is the
one in front of `pusha`. -/
def interrupted (c : Cpu World) (vector : Nat) (errorCode : Option (BitVec 32)) : Registers where
  ds := setLow (c.regs .eax) (c.segs .ds)
  edi := c.regs .edi
  esi := c.regs .esi
  ebp := c.regs .ebp
  esp := c.regs .esp - 20
  ebx := c.regs .ebx
  edx := c.regs .edx
  ecx := c.regs .ecx
  eax := c.regs .eax
  intNo := BitVec.ofNat 32 vector
  errCode := errorCode.getD 0
  eip := c.eip
  cs := c.cs.setWidth 32
  eflags := c.eflags

/-! ### Saving -/

/-- A state on the way into the handler of an interrupt of `c`, with `words` pushed so far. -/
structure Entering (c s : Cpu World) (words : List (BitVec 32)) : Prop where
  stack : s.Stack words
  esp : (s.regs .esp).toNat + 4 * words.length = (c.regs .esp).toNat
  regs : ∀ r, r ≠ .esp → r ≠ .eax → s.regs r = c.regs r
  memory : ∀ a, a + 4 * words.length < (c.regs .esp).toNat ∨ (c.regs .esp).toNat ≤ a →
    s.memory a = c.memory a
  world : s.world = c.world

theorem Entering.start (c : Cpu World) : Entering c c [] :=
  ⟨⟨trivial, Nat.le_of_lt (c.regs .esp).isLt⟩, rfl, fun _ _ _ => rfl, fun _ _ => rfl, rfl⟩

theorem Entering.pushAll (entering : Entering c s words) {pushed : List (BitVec 32)}
    (room : 4 * (words.length + pushed.length) ≤ (c.regs .esp).toNat) :
    Entering c (s.pushAll pushed) (pushed.reverse ++ words) := by
  have before := entering.esp
  have change := @Cpu.pushAll_pushed _ s pushed (by omega)
  have after := change.esp
  refine ⟨entering.stack.pushAll (by omega), ?_, ?_, ?_, change.world.trans entering.world⟩
  · rw [List.length_append, List.length_reverse]
    omega
  · intro r notEsp notEax
    rw [change.regs r notEsp, entering.regs r notEsp notEax]
  · intro a outside
    rw [List.length_append, List.length_reverse] at outside
    rw [change.memory a (by omega), entering.memory a (by omega)]

theorem Entering.push (entering : Entering c s words)
    (room : 4 * (words.length + 1) ≤ (c.regs .esp).toNat) (word : BitVec 32) :
    Entering c (s.push word) (word :: words) := 
  @Entering.pushAll _ _ _ _ entering [word] room

/-- Whatever else changes, the words are still there. -/
theorem Entering.congr (entering : Entering c s words) (regs : ∀ r, r ≠ .eax → t.regs r = s.regs r)
    (memory : t.memory = s.memory) (world : t.world = s.world) : Entering c t words := by
  have esp := regs .esp (by decide)
  refine ⟨⟨?_, ?_⟩, ?_, ?_, ?_, world.trans entering.world⟩
  · rw [esp, memory]
    exact entering.stack.held
  · rw [esp]
    exact entering.stack.room
  · rw [esp]
    exact entering.esp
  · intro r notEsp notEax
    rw [regs r notEax, entering.regs r notEsp notEax]
  · rw [memory]
    exact entering.memory

theorem Entering.set (entering : Entering c s words) (word : BitVec 32) :
    Entering c (s.set .eax word) words :=
  entering.congr (fun _ other => Cpu.regs_set_of_ne s word other) (Cpu.memory_set s .eax word)
    (Cpu.world_set s .eax word)

/-- The common code up to the call. -/
def saving (handler next : BitVec 32) : List Instr :=
  [.pusha, .movFromSeg .eax .ds, .push .eax, .movImm16 .eax 0x10] ++
    (Cpu.loadSegs .eax ++ [.push .esp, .call handler next])

/-- The common code behind the call. -/
def restoring : List Instr :=
  .addEsp 4 :: .pop .ebx :: (Cpu.loadSegs .ebx ++ [.popa, .addEsp 8, .iret])

theorem esp_eq {p q : BitVec 32} {n : Nat} (below : p.toNat + n = q.toNat) :
    p = q - BitVec.ofNat 32 n := by
  have small := q.isLt
  apply BitVec.eq_of_toNat_eq
  rw [BitVec.toNat_sub, BitVec.toNat_ofNat]
  omega

/-- At the first instruction of the handler of an interrupt of `c`: the return address, the pointer
to the `registers_t` and that, the segments of the kernel, and no further interrupts. -/
structure AtHandler (c : Cpu World) (vector : Nat) (errorCode : Option (BitVec 32))
    (next : BitVec 32) (s : Cpu World) : Prop where
  entering : Entering c s (next :: (s.regs .esp + 8) :: (interrupted c vector errorCode).words)
  segs : s.segs = fun _ => 0x10
  masked : s.eflags &&& 0x200 = 0

/-- `pusha` and the push of `ds`. -/
theorem save_runs {vector : Nat} {errorCode : Option (BitVec 32)} (room : 64 ≤ (c.regs .esp).toNat)
    (entering : Entering c s [BitVec.ofNat 32 vector, errorCode.getD 0, c.eip, c.cs.setWidth 32,
      c.eflags]) (eax : s.regs .eax = c.regs .eax) (segs : s.segs = c.segs) :
    ∃ s', (∀ calls, Cpu.run calls
        [.pusha, .movFromSeg .eax .ds, .push .eax, .movImm16 .eax 0x10] s = some s') ∧
      Entering c s' (interrupted c vector errorCode).words ∧
      (s'.regs .eax).setWidth 16 = (0x10 : BitVec 16) ∧ s'.eflags = s.eflags := by
  have esp : s.regs .esp = c.regs .esp - 20 := esp_eq entering.esp
  have regs := entering.regs
  have before := entering.esp
  simp only [List.length_cons, List.length_nil] at before
  have pushed := @Entering.pushAll _ _ _ _ entering [s.regs .eax, s.regs .ecx, s.regs .edx,
    s.regs .ebx, s.regs .esp, s.regs .ebp, s.regs .esi, s.regs .edi]
    (by simp only [List.length_cons, List.length_nil]; omega)
  have change := @Cpu.pushAll_pushed _ s [s.regs .eax, s.regs .ecx, s.regs .edx, s.regs .ebx,
    s.regs .esp, s.regs .ebp, s.regs .esi, s.regs .edi]
    (by simp only [List.length_cons, List.length_nil]; omega)
  have ran : ∀ calls, Cpu.run calls
      [.pusha, .movFromSeg .eax .ds, .push .eax, .movImm16 .eax 0x10] s =
      Cpu.run calls [.movFromSeg .eax .ds, .push .eax, .movImm16 .eax 0x10] (s.pushAll [s.regs .eax,
        s.regs .ecx, s.regs .edx, s.regs .ebx, s.regs .esp, s.regs .ebp, s.regs .esi,
        s.regs .edi]) := by
    intro calls
    rw [Cpu.run_cons, Cpu.exec, Option.bind_some]
  simp only [ran]
  generalize s.pushAll _ = p at pushed change ⊢
  have word : setLow (p.regs .eax) (p.segs .ds) = setLow (c.regs .eax) (c.segs .ds) := by
    rw [change.regs .eax (by decide), change.segs, eax, segs]
  have marked := ((pushed.set (setLow (c.regs .eax) (c.segs .ds))).push
    (by simp only [List.length_append, List.length_reverse, List.length_cons, List.length_nil]
        omega) (setLow (c.regs .eax) (c.segs .ds)))
  have loaded : ∀ calls, Cpu.run calls [.movFromSeg .eax .ds, .push .eax, .movImm16 .eax 0x10] p =
      some (((p.set .eax (setLow (c.regs .eax) (c.segs .ds))).push
        (setLow (c.regs .eax) (c.segs .ds))).set .eax
          (setLow (((p.set .eax (setLow (c.regs .eax) (c.segs .ds))).push
            (setLow (c.regs .eax) (c.segs .ds))).regs .eax) 0x10)) := by
    intro calls
    rw [Cpu.run_cons, Cpu.exec, word, Option.bind_some, Cpu.run_cons, Cpu.exec,
      Cpu.regs_set_same, Option.bind_some, Cpu.run_cons, Cpu.exec, Option.bind_some, Cpu.run_nil]
  have words : (interrupted c vector errorCode).words = setLow (c.regs .eax) (c.segs .ds) ::
      ([s.regs .eax, s.regs .ecx, s.regs .edx, s.regs .ebx, s.regs .esp, s.regs .ebp, s.regs .esi,
        s.regs .edi].reverse ++ [BitVec.ofNat 32 vector, errorCode.getD 0, c.eip,
        c.cs.setWidth 32, c.eflags]) := by
    rw [eax, esp, regs .ecx (by decide) (by decide), regs .edx (by decide) (by decide),
      regs .ebx (by decide) (by decide), regs .ebp (by decide) (by decide),
      regs .esi (by decide) (by decide), regs .edi (by decide) (by decide)]
    simp only [Registers.words, interrupted, List.reverse_cons, List.reverse_nil, List.nil_append,
      List.cons_append]
  refine ⟨_, loaded, ?_, ?_, ?_⟩
  · rw [words]
    exact marked.set _
  · rw [Cpu.regs_set_same, Cpu.setWidth_setLow]
  · rw [Cpu.eflags_set, Cpu.eflags_push, Cpu.eflags_set, change.eflags]

theorem Entering.loadSegs (entering : Entering c s words) (segs : Seg → BitVec 16) :
    Entering c { s with segs := segs } words :=
  ⟨⟨entering.stack.held, entering.stack.room⟩, entering.esp, entering.regs, entering.memory,
    entering.world⟩

/-- From the saved registers to the call of the handler. -/
theorem call_runs {vector : Nat} {errorCode : Option (BitVec 32)} (room : 64 ≤ (c.regs .esp).toNat)
    (entering : Entering c s (interrupted c vector errorCode).words)
    (selector : (s.regs .eax).setWidth 16 = (0x10 : BitVec 16)) (masked : s.eflags &&& 0x200 = 0)
    (handler next : BitVec 32) :
    ∃ s', AtHandler c vector errorCode next s' ∧ ∀ calls,
      Cpu.run calls (Cpu.loadSegs .eax ++ [.push .esp, .call handler next]) s =
        calls handler s' := by
  have length : (interrupted c vector errorCode).words.length = 14 := rfl
  have loaded := entering.loadSegs fun _ => 0x10
  have pointed := loaded.push (by omega) (s.regs .esp)
  have called := pointed.push (by rw [List.length_cons]; omega) next
  have pointer : ((({ s with segs := fun _ => (0x10 : BitVec 16) } : Cpu World).push
      (s.regs .esp)).push next).regs .esp + 8 = s.regs .esp := by
    simp only [Cpu.push, Cpu.regs_set_same]
    bv_omega
  refine ⟨(({ s with segs := fun _ => (0x10 : BitVec 16) } : Cpu World).push (s.regs .esp)).push next,
    ⟨?_, rfl, masked⟩, ?_⟩
  · rw [pointer]
    exact called
  · intro calls
    rw [Cpu.run_append, Cpu.run_loadSegs, selector, Option.bind_some, Cpu.run_cons, Cpu.exec,
      Option.bind_some, Cpu.run_singleton, Cpu.exec]

/-- The handler's argument points to the `registers_t`, behind the return address and itself. -/
theorem AtHandler.registers {vector : Nat} {errorCode : Option (BitVec 32)} {next : BitVec 32}
    (atHandler : AtHandler c vector errorCode next s) :
    (s.regs .esp).toNat + 64 = (c.regs .esp).toNat ∧ s.load (s.regs .esp + 4) = s.regs .esp + 8 ∧
      s.memory.WordsAt (s.regs .esp + 8).toNat (interrupted c vector errorCode).words := by
  have low : (s.regs .esp).toNat + 64 = (c.regs .esp).toNat := atHandler.entering.esp
  have regs : (s.regs .esp + 8).toNat = (s.regs .esp).toNat + 8 := by
    have small := (c.regs .esp).isLt
    rw [BitVec.toNat_add]
    change ((s.regs .esp).toNat + 8) % 2 ^ 32 = _
    omega
  refine ⟨low, @Cpu.Stack.load _ s _ atHandler.entering.stack 1 _ rfl _ rfl, ?_⟩
  rw [regs]
  exact (@Memory.wordsAt_append _ _ [next, s.regs .esp + 8] _).mp atHandler.entering.stack.held |>.2

/-! ### Restoring -/

/-- The handler keeps the `registers_t` and comes back. -/
structure Back (c : Cpu World) (s t : Cpu World) : Prop where
  esp : t.regs .esp = s.regs .esp + 4
  kept : ∀ a, (s.regs .esp).toNat + 8 ≤ a → a < (c.regs .esp).toNat → t.memory a = s.memory a

/-- The interrupted code in front of its next instruction: its general registers, its stack and its
flags are back, all segment registers have the selector of `ds`, and memory is what the handler
left. -/
def resumed (c t : Cpu World) : Cpu World :=
  { c with
    segs := fun _ => c.segs .ds
    memory := t.memory
    world := t.world }

/-- A state on the way back to `c`, with `words` left on the stack. -/
structure Leaving (c t u : Cpu World) (words : List (BitVec 32)) : Prop where
  stack : u.Stack words
  esp : (u.regs .esp).toNat + 4 * words.length = (c.regs .esp).toNat
  memory : u.memory = t.memory
  world : u.world = t.world

theorem Leaving.popped {u u' : Cpu World} {first : List (BitVec 32)}
    (leaving : Leaving c t u (first ++ words)) (popped : Cpu.Popped u u' first.length) :
    Leaving c t u' words := by
  have below := leaving.esp
  have small := (c.regs .esp).isLt
  rw [List.length_append] at below
  have esp : (u'.regs .esp).toNat = (u.regs .esp).toNat + 4 * first.length := by
    rw [popped.esp, BitVec.toNat_add, BitVec.toNat_ofNat]
    omega
  exact ⟨popped.stack leaving.stack (by omega), by omega, popped.memory.trans leaving.memory,
    popped.world.trans leaving.world⟩

theorem Leaving.loadSegs {u : Cpu World} (leaving : Leaving c t u words) (segs : Seg → BitVec 16) :
    Leaving c t { u with segs := segs } words :=
  ⟨⟨leaving.stack.held, leaving.stack.room⟩, leaving.esp, leaving.memory, leaving.world⟩

theorem restoring_runs {vector : Nat} {errorCode : Option (BitVec 32)} {next : BitVec 32}
    (at_handler : AtHandler c vector errorCode next s) (back : Back c s t)
    (calls : BitVec 32 → Cpu World → Option (Cpu World)) :
    Cpu.run calls restoring t = some (resumed c t) := by
  have entering := at_handler.entering
  have top := entering.esp
  have length : (interrupted c vector errorCode).words.length = 14 := rfl
  rw [List.length_cons, List.length_cons, length] at top
  obtain ⟨t₁, dropped, popped₁, -⟩ := Cpu.addEsp_runs calls t 1
  have esp : (t₁.regs .esp).toNat = (s.regs .esp).toNat + 8 := by
    have small := (c.regs .esp).isLt
    rw [popped₁.esp, back.esp, BitVec.add_assoc, BitVec.toNat_add]
    change ((s.regs .esp).toNat + 8) % 2 ^ 32 = _
    omega
  have first : Leaving c t t₁ (interrupted c vector errorCode).words := by
    refine ⟨?_, by omega, popped₁.memory, popped₁.world⟩
    apply @Cpu.Stack.kept _ s _ [next, s.regs .esp + 8] _ entering.stack esp
    intro a above below
    simp only [List.length_cons, List.length_nil] at above below
    rw [popped₁.memory]
    exact back.kept a (by omega) (by omega)
  obtain ⟨t₂, reloaded, popped₂, ds, -⟩ := first.stack.pop_runs calls (show Reg.ebx ≠ .esp by decide)
  have second := (@Leaving.popped _ _ _ _ _ _ [_] first popped₂).loadSegs fun _ => c.segs .ds
  obtain ⟨t₃, restored, popped₃, edi, esi, ebp, ebx, edx, ecx, eax⟩ := second.stack.popa_runs calls
  have third := @Leaving.popped _ _ _ _ _ _ [_, _, _, _, _, _, _, _] second popped₃
  obtain ⟨t₄, dropped', popped₄, regs₄⟩ := Cpu.addEsp_runs calls t₃ 2
  have fourth := @Leaving.popped _ _ _ _ _ _ [_, _] third popped₄
  obtain ⟨t₅, returned, popped₅, eip, cs, eflags, regs₅⟩ := fourth.stack.iret_runs calls
  have fifth := @Leaving.popped _ _ _ _ _ _ [_, _, _] fourth popped₅
  have selector : (t₂.regs .ebx).setWidth 16 = c.segs .ds := by
    rw [ds]
    exact Cpu.setWidth_setLow _ _
  have general : ∀ r, r ≠ .esp → t₅.regs r = t₃.regs r := fun r other =>
    (regs₅ r other).trans (regs₄ r other)
  have ends : t₅ = resumed c t := by
    apply Cpu.ext
    · funext r
      cases r with
      | esp => exact BitVec.eq_of_toNat_eq fifth.esp
      | eax => exact (general _ (by decide)).trans eax
      | ecx => exact (general _ (by decide)).trans ecx
      | edx => exact (general _ (by decide)).trans edx
      | ebx => exact (general _ (by decide)).trans ebx
      | ebp => exact (general _ (by decide)).trans ebp
      | esi => exact (general _ (by decide)).trans esi
      | edi => exact (general _ (by decide)).trans edi
    · exact popped₅.segs.trans (popped₄.segs.trans popped₃.segs)
    · rw [cs]
      apply BitVec.eq_of_toNat_eq
      have small := c.cs.isLt
      simp only [BitVec.toNat_setWidth, interrupted, resumed]
      omega
    · exact eip
    · exact eflags
    · exact fifth.memory
    · exact fifth.world
  have add₁ : Cpu.exec calls t (.addEsp 4) = some t₁ := dropped
  have add₂ : Cpu.exec calls t₃ (.addEsp 8) = some t₄ := dropped'
  rw [restoring, Cpu.run_cons, add₁, Option.bind_some, Cpu.run_cons, reloaded, Option.bind_some,
    Cpu.run_append, Cpu.run_loadSegs, Option.bind_some, selector, Cpu.run_cons, restored,
    Option.bind_some, Cpu.run_cons, add₂, Option.bind_some, Cpu.run_cons, returned,
    Option.bind_some, Cpu.run_nil, ends]

/-! ### Stubs -/

theorem deliver_entering (room : 64 ≤ (c.regs .esp).toNat) (selector : BitVec 16)
    (offset : BitVec 32) (errorCode : Option (BitVec 32)) :
    Entering c (c.deliver selector offset errorCode)
      (errorCode.toList ++ [c.eip, c.cs.setWidth 32, c.eflags]) := by
  have length : errorCode.toList.length ≤ 1 := by cases errorCode <;> simp
  have pushed := @Entering.pushAll _ _ _ _ (Entering.start c)
    ([c.eflags, c.cs.setWidth 32, c.eip] ++ errorCode.toList)
    (by simp only [List.length_append, List.length_cons, List.length_nil]; omega)
  have words : ([c.eflags, c.cs.setWidth 32, c.eip] ++ errorCode.toList).reverse ++ [] =
      errorCode.toList ++ [c.eip, c.cs.setWidth 32, c.eflags] := by
    cases errorCode <;> rfl
  rw [words] at pushed
  exact ⟨⟨pushed.stack.held, pushed.stack.room⟩, pushed.esp, pushed.regs, pushed.memory,
    pushed.world⟩

theorem masked_clearInterrupt (eflags : BitVec 32) : clearInterrupt eflags &&& 0x200 = 0 := by
  have disjoint : ~~~0x200#32 &&& 0x200#32 = 0 := by decide
  rw [clearInterrupt, BitVec.and_assoc]
  exact (congrArg (eflags &&& ·) disjoint).trans BitVec.and_zero

/-- In front of the common code, with the interrupts off. -/
structure Numbered (c : Cpu World) (vector : Nat) (errorCode : Option (BitVec 32))
    (s : Cpu World) : Prop where
  entering : Entering c s [BitVec.ofNat 32 vector, errorCode.getD 0, c.eip, c.cs.setWidth 32,
    c.eflags]
  eax : s.regs .eax = c.regs .eax
  segs : s.segs = c.segs
  masked : s.eflags &&& 0x200 = 0

/-- A stub whose pushes make up for an error code that the processor has not pushed. -/
theorem numbers_runs {vector : Nat} {errorCode : Option (BitVec 32)}
    (room : 64 ≤ (c.regs .esp).toNat) (selector : BitVec 16) (offset : BitVec 32) :
    ∃ s, (∀ calls, Cpu.run calls (.cli :: ((if errorCode.isSome then [] else [.pushImm 0]) ++
        [.pushImm (BitVec.ofNat 32 vector)])) (c.deliver selector offset errorCode) = some s) ∧
      Numbered c vector errorCode s := by
  have delivered := deliver_entering room selector offset errorCode
  have pushed := @Cpu.pushAll_pushed _ c ([c.eflags, c.cs.setWidth 32, c.eip] ++ errorCode.toList)
    (by cases errorCode <;> simp <;> omega)
  have eax : (c.deliver selector offset errorCode).regs .eax = c.regs .eax :=
    pushed.regs .eax (by decide)
  have segs : (c.deliver selector offset errorCode).segs = c.segs := pushed.segs
  generalize c.deliver selector offset errorCode = d at delivered eax segs ⊢
  have entering : Entering c { d with eflags := clearInterrupt d.eflags } _ :=
    delivered.congr (fun _ _ => rfl) rfl rfl
  have masked := masked_clearInterrupt d.eflags
  cases errorCode with
  | none =>
      have zero := entering.push (by simp; omega) 0
      have number := zero.push (by simp; omega) (BitVec.ofNat 32 vector)
      exact ⟨_, fun _ => rfl, number, eax, segs, masked⟩
  | some word =>
      have number := entering.push (by simp; omega) (BitVec.ofNat 32 vector)
      exact ⟨_, fun _ => rfl, number, eax, segs, masked⟩

/-- The code of a stub up to the call: the number of the vector, with a zero below it in place of an
error code that the processor does not push. -/
def entry (labels : Labels) (vector : Nat) : List Instr :=
  (.cli :: ((if expectsErrorCode vector then [] else [.pushImm 0]) ++
      [.pushImm (BitVec.ofNat 32 vector)])) ++
    saving (handlerOf labels vector).1 (handlerOf labels vector).2

theorem stub_eq {labels : Labels} {vector : Nat} {code : List Instr}
    (isStub : stub labels vector = some code) : code = entry labels vector ++ restoring := by
  unfold stub at isStub
  unfold entry handlerOf
  split_ifs at isStub with isIsr errorCode isIrq
  · obtain rfl := Option.some.inj isStub
    rw [if_pos isIsr, if_pos errorCode]
    rfl
  · obtain rfl := Option.some.inj isStub
    rw [if_pos isIsr, if_neg errorCode]
    rfl
  · obtain rfl := Option.some.inj isStub
    have none : ¬ expectsErrorCode vector = true := by
      simp only [expectsErrorCode, List.mem_cons, List.not_mem_nil, or_false, decide_eq_true_eq]
      omega
    rw [if_neg isIsr, if_neg none]
    rfl

/-- An interrupt as far as the handler, which starts with a `registers_t` of the interrupted code. -/
theorem entry_runs {vector : Nat} {errorCode : Option (BitVec 32)} (labels : Labels)
    (expected : errorCode.isSome = expectsErrorCode vector) (room : 64 ≤ (c.regs .esp).toNat)
    (selector : BitVec 16) (offset : BitVec 32) :
    ∃ s, AtHandler c vector errorCode (handlerOf labels vector).2 s ∧ ∀ calls,
      Cpu.run calls (entry labels vector) (c.deliver selector offset errorCode) =
        calls (handlerOf labels vector).1 s := by
  obtain ⟨p, numbered, isNumbered⟩ :=
    @numbers_runs _ _ vector errorCode room selector offset
  obtain ⟨q, saved, entering, kernel, eflags⟩ := save_runs room isNumbered.entering isNumbered.eax
    isNumbered.segs
  obtain ⟨s, atHandler, called⟩ := call_runs room entering kernel (eflags ▸ isNumbered.masked)
    (handlerOf labels vector).1 (handlerOf labels vector).2
  refine ⟨s, atHandler, fun calls => ?_⟩
  rw [entry, ← expected, Cpu.run_append, numbered, Option.bind_some, saving, Cpu.run_append, saved,
    Option.bind_some, called]

/-- The whole stub: a call of the handler, then the code that restores. -/
theorem stub_runs {labels : Labels} {vector : Nat} {code : List Instr}
    (isStub : stub labels vector = some code) {errorCode : Option (BitVec 32)}
    (expected : errorCode.isSome = expectsErrorCode vector) (room : 64 ≤ (c.regs .esp).toNat)
    (selector : BitVec 16) (offset : BitVec 32) :
    ∃ s, AtHandler c vector errorCode (handlerOf labels vector).2 s ∧ ∀ calls,
      Cpu.run calls code (c.deliver selector offset errorCode) =
        (calls (handlerOf labels vector).1 s).bind (Cpu.run calls restoring) := by
  obtain ⟨s, atHandler, entered⟩ := entry_runs labels expected room selector offset
  refine ⟨s, atHandler, fun calls => ?_⟩
  rw [stub_eq isStub, Cpu.run_append, entered]

end Balloon.Interrupts
