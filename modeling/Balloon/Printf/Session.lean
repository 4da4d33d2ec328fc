import Balloon.Console.Terminal
import Balloon.Printf.Language

/-!
Owns `kprintf` as a whole: its static buffer, which keeps what the last call left in it, and the
screen that `console_puts` prints the buffer on. A session is any sequence of calls. However its
output is cut into calls and however each format makes its part, the screen is the one of the
printed text.

It speaks about calls that stay in the buffer; the others write over what lies behind it.
-/

namespace Balloon.Printf

open Balloon.Console

/-- The static buffer of `kprintf` and the screen. -/
structure Output where
  buf : Nat → Char
  screen : Screen

/-- The stores into the buffer, given newest first. -/
def storeAll (buf : Nat → Char) (stores : List (Nat × Char)) : Nat → Char :=
  stores.foldr (fun store buf => Function.update buf store.1 store.2) buf

/-- A `char` of the kernel. -/
def byteOf (c : Char) : UInt8 := UInt8.ofNat c.toNat

/-- `kprintf`; `none` where it fails or stores behind its buffer. -/
def Output.kprintf (o : Output) (msg : List Char) (args : List Arg) : Option Output :=
  (Printf.kprintf msg args).bind fun stores =>
    if ∀ store ∈ stores, store.1 < 1024 then
      let buf := storeAll o.buf stores
      some ⟨buf, o.screen.consolePuts ((List.range 1024).map fun i => byteOf (buf i))⟩
    else none

/-- A call of `kprintf` with a format of the language. -/
structure Call where
  pieces : List Piece
  args : List Arg

/-- Calls of `kprintf`, one after the other. -/
def session (o : Output) (calls : List Call) : Option Output :=
  calls.foldlM (fun o call => o.kprintf (spell call.pieces) call.args) o

/-- The call prints `text`, which is NUL-free and fits the buffer with its NUL, and stores no
count. -/
structure Prints (call : Call) (text : List Char) : Prop where
  short : ShortStrings call.args
  rendered : render call.pieces 0 call.args = some (text, [])
  fits : text.length < 1024
  noNul : ∀ c ∈ text, byteOf c ≠ 0

/-! ### The buffer -/

theorem storeAll_zipIdx (buf : Nat → Char) (text : List Char) (first i : Nat) :
    storeAll buf ((text.zipIdx first).map Prod.swap).reverse i =
      if first ≤ i then (text[i - first]?).getD (buf i) else buf i := by
  induction text generalizing buf first with
  | nil => simp [storeAll]
  | cons c text inductionHypothesis =>
      have step : storeAll buf (((c :: text).zipIdx first).map Prod.swap).reverse =
          storeAll (Function.update buf first c)
            ((text.zipIdx (first + 1)).map Prod.swap).reverse := by
        simp only [storeAll, List.foldr_reverse, List.zipIdx_cons, List.map_cons, List.foldl_cons,
          Prod.fst_swap, Prod.snd_swap]
      rw [step, inductionHypothesis]
      rcases Nat.lt_trichotomy i first with below | same | above
      · rw [if_neg (by omega), if_neg (by omega), Function.update_of_ne (by omega)]
      · subst same
        rw [if_neg (by omega), if_pos (Nat.le_refl i), Nat.sub_self, Function.update_self]
        rfl
      · have index : i - first = (i - (first + 1)) + 1 := by omega
        rw [if_pos (by omega), if_pos (by omega), index, List.getElem?_cons_succ,
          Function.update_of_ne (by omega)]

/-- What the buffer holds behind a call: the text, its NUL and the remains of earlier calls. -/
theorem storeAll_bufferStores (buf : Nat → Char) (text : List Char) (i : Nat) :
    storeAll buf (bufferStores text) i = ((text ++ ['\x00'])[i]?).getD (buf i) := by
  rw [bufferStores, storeAll_zipIdx, if_pos (Nat.zero_le i), Nat.sub_zero]

theorem bufferStores_inside {text : List Char} (fits : text.length < 1024) :
    ∀ store ∈ bufferStores text, store.1 < 1024 := by
  intro store member
  rw [bufferStores, List.mem_reverse, List.mem_map] at member
  obtain ⟨⟨c, i⟩, listed, rfl⟩ := member
  have inside := (List.mem_zipIdx listed).2.1
  rw [List.length_append, List.length_singleton] at inside
  change i < 1024
  omega

variable {call : Call} {text : List Char}

/-- `console_puts` reads the text off the buffer and stops at its NUL. -/
theorem buffer_takeWhile (noNul : ∀ c ∈ text, byteOf c ≠ 0) (fits : text.length < 1024)
    {buf : Nat → Char} (holds : ∀ i, i ≤ text.length → buf i = ((text ++ ['\x00'])[i]?).getD (buf i)) :
    ((List.range 1024).map fun i => byteOf (buf i)).takeWhile (· ≠ 0) = text.map byteOf := by
  obtain ⟨rest, split⟩ : ∃ rest, 1024 = text.length + (1 + rest) := ⟨1023 - text.length, by omega⟩
  have written : (List.range text.length).map (fun i => byteOf (buf i)) = text.map byteOf := by
    apply List.ext_getElem
    · simp
    · intro i bound bound'
      have inside : i < text.length := by simpa using bound'
      simp only [List.getElem_map, List.getElem_range]
      rw [holds i (Nat.le_of_lt inside), List.getElem?_append_left inside,
        List.getElem?_eq_getElem inside]
      rfl
  have nul : byteOf (buf text.length) = 0 := by
    rw [holds text.length (Nat.le_refl _), List.getElem?_append_right (Nat.le_refl _), Nat.sub_self]
    rfl
  rw [split, List.range_add, List.map_append, written, List.range_add, List.map_append,
    List.map_append, List.takeWhile_append_of_pos]
  · rw [List.range_one, List.map_singleton, List.map_singleton, List.singleton_append,
      List.takeWhile_cons_of_neg (by simpa using nul), List.append_nil]
  · intro c member
    obtain ⟨d, listed, rfl⟩ := List.mem_map.mp member
    simpa using noNul d listed

/-- One call prints its text and nothing else. -/
theorem Prints.kprintf (prints : Prints call text) (o : Output) :
    ∃ buf, o.kprintf (spell call.pieces) call.args =
      some ⟨buf, (text.map byteOf).foldl Screen.consolePutchar o.screen⟩ := by
  have stores : Printf.kprintf (spell call.pieces) call.args =
      some ((text.length, '\x00') :: bufferStores text) := by
    rw [Printf.kprintf, vsprintf_rendered prints.short prints.rendered]
    rfl
  have inside : ∀ store ∈ (text.length, '\x00') :: bufferStores text, store.1 < 1024 :=
    List.forall_mem_cons.mpr ⟨prints.fits, bufferStores_inside prints.fits⟩
  refine ⟨storeAll o.buf ((text.length, '\x00') :: bufferStores text), ?_⟩
  rw [Output.kprintf, stores, Option.bind_some, if_pos inside]
  simp only [Screen.consolePuts]
  rw [buffer_takeWhile prints.noNul prints.fits]
  intro i upTo
  change Function.update (storeAll o.buf (bufferStores text)) text.length '\x00' i = _
  by_cases last : i = text.length
  · rw [last, Function.update_self, List.getElem?_append_right (Nat.le_refl _), Nat.sub_self]
    rfl
  · rw [Function.update_of_ne last, storeAll_bufferStores,
      List.getElem?_append_left (by omega), List.getElem?_eq_getElem (by omega)]
    rfl

/-! ### Sessions -/

/-- A session prints the texts of its calls, one behind the other. -/
theorem session_prints {calls : List Call} {texts : List (List Char)}
    (prints : List.Forall₂ Prints calls texts) (o : Output) :
    ∃ buf, session o calls =
      some ⟨buf, (texts.flatten.map byteOf).foldl Screen.consolePutchar o.screen⟩ := by
  induction prints generalizing o with
  | nil => exact ⟨o.buf, rfl⟩
  | @cons call text calls texts first rest inductionHypothesis =>
      obtain ⟨buf, printed⟩ := first.kprintf o
      obtain ⟨buf', session⟩ := inductionHypothesis
        ⟨buf, (text.map byteOf).foldl Screen.consolePutchar o.screen⟩
      refine ⟨buf', ?_⟩
      rw [Printf.session, List.foldlM_cons, printed]
      rw [List.flatten_cons, List.map_append, List.foldl_append]
      exact session

/-- The characters of lines, each with its newline. -/
theorem foldl_lines {lines : List (List UInt8)} (good : ∀ line ∈ lines, Line line) (s : Screen) :
    (lines.flatMap (· ++ [0x0A])).foldl Screen.consolePutchar s =
      lines.foldl Screen.printLine s := by
  induction lines generalizing s with
  | nil => rfl
  | cons line lines inductionHypothesis =>
      obtain ⟨first, rest⟩ := List.forall_mem_cons.mp good
      have printed : s.printLine line =
          (line ++ [0x0A]).foldl Screen.consolePutchar s := by
        rw [Screen.printLine, Screen.consolePuts_eq s first, List.foldl_append]
        rfl
      rw [List.flatMap_cons, List.foldl_append, inductionHypothesis rest, List.foldl_cons, printed]

theorem shows_more {s : Screen} {before lines : List (List UInt8)} (shows : s.Shows before)
    (good : ∀ line ∈ lines, Line line) :
    (lines.foldl Screen.printLine s).Shows (before ++ lines) := by
  induction lines generalizing s before with
  | nil => rwa [List.append_nil]
  | cons line lines inductionHypothesis =>
      obtain ⟨first, rest⟩ := List.forall_mem_cons.mp good
      have further := inductionHypothesis (shows.printLine first) rest
      rwa [List.append_assoc, List.singleton_append] at further

/-- A session whose output, put together, is the text of some lines adds these lines to what the
screen shows, however the text is cut into calls and whatever formats make its parts. -/
theorem session_shows {calls : List Call} {texts : List (List Char)}
    (prints : List.Forall₂ Prints calls texts) {before lines : List (List UInt8)}
    (good : ∀ line ∈ lines, Line line)
    (together : texts.flatten.map byteOf = lines.flatMap (· ++ [0x0A])) {o : Output}
    (shows : o.screen.Shows before) :
    ∃ o', session o calls = some o' ∧ o'.screen.Shows (before ++ lines) := by
  obtain ⟨buf, printed⟩ := session_prints prints o
  refine ⟨_, printed, ?_⟩
  rw [together, foldl_lines good]
  exact shows_more shows good

/-- `kprintf("%d", 42)` and `kprintf("\n")` on a cleared screen. -/
theorem session_shows_number :
    ∃ o', session ⟨fun _ => '\x00', (Screen.initial fun _ => 0#16).consoleClear⟩
        [⟨[.directive ⟨[], none, none, none, .number .decimal⟩], [.word 42]⟩,
          ⟨[.text '\n' (by decide)], []⟩] = some o' ∧
      o'.screen.Shows ([] ++ [[0x34, 0x32]]) := by
  have noStrings : ∀ args : List Arg, (∀ s, .string s ∉ args) → ShortStrings args :=
    fun args none s member => absurd member (none s)
  refine @session_shows _ [['4', '2'], ['\n']] ?_ [] [[0x34, 0x32]] ?_ rfl _
    (Screen.shows_consoleClear _)
  · refine .cons ⟨noStrings _ (by simp), rfl, by decide, ?_⟩
      (.cons ⟨noStrings _ (by simp), rfl, by decide, ?_⟩ .nil)
    · simp [byteOf]
    · simp [byteOf]
  · intro line member
    obtain rfl := List.mem_singleton.mp member
    exact ⟨by decide, by simp⟩

end Balloon.Printf
