import Balloon.Elf.Symbols
import Balloon.Foundation.CallFrames
import Balloon.Printf.Lines

/-!
Owns the embedding of `kprint_stacktrace` and `panic` of logging.c, and what a panic shows in any
state of the kernel: its message, and a line for each active call.

What `kprintf` does to memory, below the frames and in its buffer, is apart from what the trace
reads, and left out.
-/

namespace Balloon.Logging

open Balloon.Foundation
open Balloon.Console
open Balloon.Elf
open Balloon.Libc
open Balloon.Printf

/-! ### The functions -/

/-- The characters that `%s` prints for a pointer. -/
def stringAt (m : Memory) (a : Nat) : Option (List Char) :=
  (strlen m a).map fun len => (m.bytesAt a len).map charOf

/-- The `kprintf` of `kprint_stacktrace`. -/
def printFrame (m : Memory) (kernelElf : ElfT) (undef : Nat → Nat) (o : Output) (frame : Frame) :
    Option Output :=
  (stringAt m (elfLookupSymbol m frame.ret kernelElf (undef frame.base))).bind fun name =>
    o.kprintf "   [0x%x] %s\n".toList [.word (UInt32.ofNat frame.ret), .string name]

/-- The loop of `kprint_stacktrace`. Where `elf_lookup_symbol` finds no symbol it returns what the
return register holds, for the frame at `ebp` the value `undef ebp`. -/
def kprintStacktrace (m : Memory) (kernelElf : ElfT) (undef : Nat → Nat) :
    Nat → Nat → Output → Option Output
  | 0, _, _ => none
  | fuel + 1, ebp, o =>
      if ebp ≠ 0 then
        let eip := m.read32 (ebp + 4)
        (printFrame m kernelElf undef o ⟨ebp, eip⟩).bind
          (kprintStacktrace m kernelElf undef fuel (m.read32 ebp))
      else some o

/-- `panic` up to its last loop, in the state behind its prologue. It calls `kprint_stacktrace`,
which returns to `afterTrace`. -/
def panic (kernelElf : ElfT) (undef : Nat → Nat) (fuel afterTrace locals : Nat) (s : CallStack)
    (msg : Nat) (o : Output) : Option Output :=
  (stringAt s.memory msg).bind fun text =>
    (o.kprintf "PANIC: %s\n".toList [.string text]).bind fun o =>
      let inTrace := s.call afterTrace locals
      (kprintStacktrace inTrace.memory kernelElf undef fuel inTrace.ebp o).bind fun o =>
        o.kprintf "*****\n\n".toList []

variable {m : Memory} {kernelElf : ElfT} {undef : Nat → Nat} {o : Output}

theorem stringAt_eq {a len : Nat} (string : CString m a len) (fits : a + len < 2 ^ 32) :
    stringAt m a = some ((m.bytesAt a len).map charOf) := by
  rw [stringAt, strlen_eq string fits, Option.map_some]

/-- The trace prints the frames of the walk. -/
theorem kprintStacktrace_walk {fuel ebp : Nat} {frames : List Frame}
    (walked : CallStack.walk m fuel ebp = some frames) :
    kprintStacktrace m kernelElf undef fuel ebp o =
      frames.foldlM (printFrame m kernelElf undef) o := by
  induction fuel generalizing ebp frames o with
  | zero => contradiction
  | succ fuel inductionHypothesis =>
      rw [CallStack.walk] at walked
      rw [kprintStacktrace]
      split_ifs at walked with null
      · obtain rfl := Option.some.inj walked
        rw [if_neg (not_not.mpr null)]
        rfl
      · obtain ⟨rest, walkedRest, rfl⟩ := Option.map_eq_some_iff.mp walked
        rw [if_pos null, List.foldlM_cons]
        refine congrArg (Option.bind _) (funext fun o => ?_)
        exact inductionHypothesis walkedRest

/-! ### Lines -/

/-- The name of the first function symbol that the processor finds for an address. -/
def Named (m : Memory) (kernelElf : ElfT) (addr : Nat) (name : List Char) : Prop :=
  ∃ i, IsFirst (CoversLow m kernelElf addr) i ∧ stringAt m (symbolName m kernelElf i) = some name

def traceLine (frame : Frame) (name : List Char) : List Char :=
  "   [0x".toList ++ (hexText frame.ret ++ ("] ".toList ++ name))

/-- The trace can print the frame. -/
structure Known (m : Memory) (kernelElf : ElfT) (frame : Frame) (name : List Char) : Prop where
  ret : frame.ret < 2 ^ 32
  named : Named m kernelElf frame.ret name
  visible : Visible 64 name

/-- The call of `kprint_stacktrace`. -/
def traceCall (frame : Frame) (name : List Char) : Call where
  pieces := literal "   [0x".toList (by decide) ++ directly (.number .hex) ::
    (literal "] ".toList plain_bracket ++ directly .string :: literal ['\n'] plain_newline)
  args := [.word (UInt32.ofNat frame.ret), .string name]

theorem traceCall_printsLines {frame : Frame} {name : List Char}
    (known : Known m kernelElf frame name) :
    PrintsLines (traceCall frame name) [traceLine frame name] := by
  have word : (UInt32.ofNat frame.ret).toNat = frame.ret :=
    UInt32.toNat_ofNat_of_lt' known.ret
  apply printsLine
  · have fits := known.visible.fits
    exact (shortStrings_nil.string (by omega)).word _
  · rw [traceCall, render_literal, render_hex, render_literal, render_string, render_end, word]
    have whole : traceLine frame name ++ ['\n'] = "   [0x".toList ++
        (hexText frame.ret ++ ("] ".toList ++ (name ++ ['\n']))) := by
      change ("   [0x".toList ++ (hexText frame.ret ++ ("] ".toList ++ name))) ++ ['\n'] = _
      rw [List.append_assoc, List.append_assoc, List.append_assoc]
    exact congrArg (fun line => some (line, [])) whole.symm
  · have start : Visible 6 "   [0x".toList := .of_all (by decide) (by decide)
    have close : Visible 2 "] ".toList := .of_all (by decide) (by decide)
    have behind := close.append known.visible (Nat.le_refl 66)
    exact start.append ((visible_hexText known.ret).append behind (Nat.le_refl 74)) (by decide)

/-- A frame whose return address has a name adds its line. -/
theorem printFrame_shows {frame : Frame} {name : List Char}
    (known : Known m kernelElf frame name) {before : List (List UInt8)}
    (shows : o.screen.Shows before) :
    ∃ o', printFrame m kernelElf undef o frame = some o' ∧
      o'.screen.Shows (before ++ [(traceLine frame name).map byteOf]) := by
  obtain ⟨i, first, string⟩ := known.named
  obtain ⟨o', printed, after⟩ := (traceCall_printsLines known).shows shows
  refine ⟨o', ?_, after⟩
  rw [printFrame, first.elfLookupSymbol, string, Option.bind_some, ← printed]
  rfl

theorem printFrames_show {frames : List Frame} {names : List (List Char)}
    (known : List.Forall₂ (Known m kernelElf) frames names) {before : List (List UInt8)}
    (shows : o.screen.Shows before) :
    ∃ o', frames.foldlM (printFrame m kernelElf undef) o = some o' ∧
      o'.screen.Shows (before ++ (List.zipWith traceLine frames names).map (·.map byteOf)) := by
  induction known generalizing o before with
  | nil => exact ⟨o, rfl, by rwa [List.zipWith_nil_left, List.map_nil, List.append_nil]⟩
  | @cons frame name frames names first rest inductionHypothesis =>
      obtain ⟨o₁, printed, shows₁⟩ := @printFrame_shows m kernelElf undef o _ _ first _ shows
      obtain ⟨o₂, printedRest, shows₂⟩ := inductionHypothesis shows₁
      refine ⟨o₂, ?_, ?_⟩
      · rw [List.foldlM_cons, printed]
        exact printedRest
      · rwa [List.append_assoc, List.singleton_append] at shows₂

/-! ### Panics -/

def panicLine (text : List Char) : List Char := "PANIC: ".toList ++ text

def panicCall (text : List Char) : Call where
  pieces := literal "PANIC: ".toList (by decide) ++ directly .string :: literal ['\n'] plain_newline
  args := [.string text]

theorem panicCall_printsLines {text : List Char} (visible : Visible 73 text) :
    PrintsLines (panicCall text) [panicLine text] := by
  apply printsLine
  · have fits := visible.fits
    exact shortStrings_nil.string (by omega)
  · rw [panicCall, render_literal, render_string, render_end, Option.map_some, Option.map_some]
    exact congrArg (fun line => some (line, [])) (List.append_assoc _ _ _).symm
  · have start : Visible 7 "PANIC: ".toList := .of_all (by decide) (by decide)
    have whole : Visible 80 ("PANIC: ".toList ++ text) := start.append visible (Nat.le_refl 80)
    exact whole

/-- The last call of `panic`, with a line and an empty one. -/
def endCall : Call := ⟨literal "*****\n\n".toList (by decide), []⟩

theorem endCall_printsLines : PrintsLines endCall ["*****".toList, []] where
  short := nofun
  rendered := by
    rw [endCall, render_end]
    rfl
  fits := by decide
  visible := by
    intro line member
    rcases List.mem_pair.mp member with rfl | rfl
    · exact .of_all (by decide) (by decide)
    · exact .of_all (by decide) (by decide)

/-- In every state of every run of calls and returns, a panic shows its message and then, the last
one first, each active call with its return address and the name of the function it returns to. -/
theorem panic_shows_calls {stack : CallStack} (esp : stack.esp < 2 ^ 32) (null : stack.ebp = 0)
    {events : List CallStack.Event}
    (allowed : EveryStep CallStack.step CallStack.Allowed ⟨stack, []⟩ events) :
    ∀ s ∈ visited CallStack.step ⟨stack, []⟩ events,
      ∀ afterTrace locals fuel msg text names before,
        8 + locals < s.stack.esp → s.active.length + 1 < fuel →
        List.Forall₂ (Known (s.stack.call afterTrace locals).memory kernelElf)
          (⟨s.stack.esp - 8, afterTrace⟩ :: s.active) names →
        stringAt s.stack.memory msg = some text → Visible 73 text → o.screen.Shows before →
        ∃ o', panic kernelElf undef fuel afterTrace locals s.stack msg o = some o' ∧
          o'.screen.Shows (before ++ (panicLine text ::
            List.zipWith traceLine (⟨s.stack.esp - 8, afterTrace⟩ :: s.active) names ++
              ["*****".toList, []]).map (·.map byteOf)) := by
  intro s member afterTrace locals fuel msg text names before room enough known string visible shows
  have sound := CallStack.sound_along_run esp null allowed s member
  have word : afterTrace < 2 ^ 32 := by
    cases known with
    | cons first _ => exact first.ret
  have walked := (sound.call room word).walk enough
  obtain ⟨o₁, printed₁, shows₁⟩ := (panicCall_printsLines visible).shows shows
  obtain ⟨o₂, printed₂, shows₂⟩ := @printFrames_show _ kernelElf undef o₁ _ _ known _ shows₁
  obtain ⟨o₃, printed₃, shows₃⟩ := endCall_printsLines.shows shows₂
  have first : o.kprintf "PANIC: %s\n".toList [.string text] = some o₁ := printed₁
  have last : o₂.kprintf "*****\n\n".toList [] = some o₃ := printed₃
  refine ⟨o₃, ?_, ?_⟩
  · rw [panic, string, Option.bind_some, first, Option.bind_some]
    dsimp only
    rw [kprintStacktrace_walk walked, printed₂, Option.bind_some, last]
  · rw [List.append_assoc, List.append_assoc, ← List.map_append, ← List.map_append] at shows₃
    exact shows₃

/-! ### A panic of a function called from `main` -/

/-- A table with the symbol `main` of the addresses from 0x100000 to 0x101000, and the text
`"oops"` at 0x3000. -/
def exampleMemory : Memory := fun a =>
  if a = 0x1000 then 1 else if a = 0x1006 then 0x10 else if a = 0x1009 then 0x10
  else if a = 0x100C then 2
  else if a = 0x2001 then 0x6D else if a = 0x2002 then 0x61 else if a = 0x2003 then 0x69
  else if a = 0x2004 then 0x6E
  else if a = 0x3000 then 0x6F else if a = 0x3001 then 0x6F else if a = 0x3002 then 0x70
  else if a = 0x3003 then 0x73 else 0

def exampleElf : ElfT := ⟨0x1000, 16, 0x2000, 6⟩

def exampleStack : CallStack := ⟨exampleMemory, 0x9000, 0⟩

/-- `main` is called, and calls `panic`. -/
def exampleCalls : List CallStack.Event := [.call 0x100010 0, .call 0x100020 0]

def inPanic : CallStack := (exampleStack.call 0x100010 0).call 0x100020 0

theorem known_example {base ret : Nat} (inMain : 0x100000 ≤ ret ∧ ret < 0x101000) :
    Known (inPanic.call 0x100030 0).memory exampleElf ⟨base, ret⟩ "main".toList where
  ret := by
    dsimp only
    omega
  named := by
    have value : symbolValue (inPanic.call 0x100030 0).memory exampleElf 0 = 0x100000 := by decide
    have size : symbolSize (inPanic.call 0x100030 0).memory exampleElf 0 = 0x1000 := by decide
    have name : symbolName (inPanic.call 0x100030 0).memory exampleElf 0 = 0x2001 := by decide
    have string : CString (inPanic.call 0x100030 0).memory 0x2001 4 := ⟨by decide, by decide⟩
    refine ⟨0, ⟨⟨⟨by decide, by decide, ?_, ?_⟩, ?_⟩, nofun⟩, ?_⟩
    · rw [value]
      exact inMain.1
    · rw [value, size]
      exact inMain.2
    · rw [value, size]
      decide
    · rw [name, stringAt_eq string (by decide)]
      decide
  visible := .of_all (by decide) (by decide)

/-- `panic("oops")` on a cleared screen. -/
theorem panic_shows_calls_oops :
    ∃ o', panic exampleElf (fun _ => 0) 4 0x100030 0 inPanic 0x3000
        ⟨fun _ => '\x00', (Screen.initial fun _ => 0#16).consoleClear⟩ = some o' ∧
      o'.screen.Shows ([] ++ (panicLine "oops".toList ::
        List.zipWith traceLine
            [⟨0x8FE8, 0x100030⟩, ⟨0x8FF0, 0x100020⟩, ⟨0x8FF8, 0x100010⟩]
            ["main".toList, "main".toList, "main".toList] ++
          ["*****".toList, []]).map (·.map byteOf)) := by
  have allowed : EveryStep CallStack.step CallStack.Allowed ⟨exampleStack, []⟩ exampleCalls :=
    everyStep_cons_some rfl ⟨by decide, by decide⟩
      (everyStep_cons_some rfl ⟨by decide, by decide⟩ trivial)
  have visits : (⟨inPanic, [⟨0x8FF0, 0x100020⟩, ⟨0x8FF8, 0x100010⟩]⟩ : CallStack.Traced) ∈
      visited CallStack.step ⟨exampleStack, []⟩ exampleCalls :=
    mem_visited_of_foldlM rfl
  have message : CString inPanic.memory 0x3000 4 := ⟨by decide, by decide⟩
  refine panic_shows_calls (by decide) rfl allowed _ visits _ _ _ _ _ _ _ (by decide) (by decide)
    (.cons (known_example (by decide)) (.cons (known_example (by decide))
      (.cons (known_example (by decide)) .nil)))
    ?_ (.of_all (by decide) (by decide)) (Screen.shows_consoleClear _)
  rw [stringAt_eq message (by decide)]
  decide

end Balloon.Logging
