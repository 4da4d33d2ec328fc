import Mathlib.Algebra.Group.Nat.Defs
import Mathlib.Algebra.Group.Int.Defs
import Mathlib.Algebra.GroupWithZero.Nat
import Mathlib.Data.Nat.Log
import Mathlib.Data.Int.Order.Basic

/-!
Owns the embedding of printf.c: `skip_atoi`, `number`, `vsprintf` and `kprintf`. A
format is the list of its characters before the terminating NUL; `fmt` is what is
left of it. It does not own what `kprintf` does with the finished buffer, nor
`vprintf`, which nothing calls.

`int` arithmetic wraps, as on the target. An argument that is not of the kind its
directive takes is `none`.
-/

namespace Balloon.Printf

/-- The 32-bit `int` with the given value modulo 2^32. -/
def wrapInt (n : Int) : Int := Int.bmod n (2 ^ 32)

/-- An argument of a variadic call. Pointers are words, except those to a string. -/
inductive Arg where
  | word (value : UInt32)
  | string (chars : List Char)
deriving DecidableEq

/-- `va_arg` for an `int`, an `unsigned long` or a pointer that is not read. -/
def vaWord : List Arg → Option (UInt32 × List Arg)
  | .word value :: args => some (value, args)
  | _ => none

/-- `va_arg` for a `char *`. -/
def vaString : List Arg → Option (List Char × List Arg)
  | .string s :: args => some (s, args)
  | _ => none

/-- The bits of `flags` and `type`. -/
structure Flags where
  zeropad : Bool
  sign : Bool
  plus : Bool
  space : Bool
  left : Bool
  special : Bool
  small : Bool
deriving DecidableEq

def Flags.none : Flags := ⟨false, false, false, false, false, false, false⟩

/-- Where `str` points in the buffer, the characters stored into it, and the values
`%n` has stored, with their addresses; newest first. -/
structure Sink where
  str : Nat
  stores : List (Nat × Char)
  counts : List (UInt32 × Nat)

namespace Sink

/-- `*str++ = c`. -/
def put (k : Sink) (c : Char) : Sink :=
  { k with str := k.str + 1, stores := (k.str, c) :: k.stores }

def puts (k : Sink) (chars : List Char) : Sink := chars.foldl put k

/-- `rounds` rounds of a loop around `*str++ = c`. -/
def fill (k : Sink) (c : Char) : Nat → Sink
  | 0 => k
  | rounds + 1 => (k.put c).fill c rounds

/-- `while (size-- > 0) *str++ = c;`, with what it leaves in `size`. -/
def padAfter (k : Sink) (c : Char) (size : Int) : Sink × Int :=
  (k.fill c size.toNat, wrapInt (min size 0 - 1))

/-- `while (--size > 0) *str++ = c;`, with what it leaves in `size`. -/
def padBefore (k : Sink) (c : Char) (size : Int) : Sink × Int :=
  let size := wrapInt (size - 1)
  (k.fill c size.toNat, min size 0)

/-- `while (len < size--) *str++ = c;`, with what it leaves in `size`. -/
def padTo (k : Sink) (c : Char) (len size : Int) : Sink × Int :=
  (k.fill c (size - len).toNat, wrapInt (min size len - 1))

end Sink

def isDigit (c : Char) : Bool := '0' ≤ c ∧ c ≤ '9'

/-- The loop of `skip_atoi`, from the value `i` on. -/
def skipAtoi : List Char → Int → Int × List Char
  | [], i => (i, [])
  | c :: rest, i =>
      if isDigit c then skipAtoi rest (wrapInt (i * 10 + c.toNat - '0'.toNat)) else (i, c :: rest)

/-- The table of digits, of which `small` selects the lower-case one. -/
def digits (small : Bool) : List Char :=
  ['0', '1', '2', '3', '4', '5', '6', '7', '8', '9'] ++
    if small then
      ['a', 'b', 'c', 'd', 'e', 'f', 'g', 'h', 'i', 'j', 'k', 'l', 'm',
        'n', 'o', 'p', 'q', 'r', 's', 't', 'u', 'v', 'w', 'x', 'y', 'z']
    else
      ['A', 'B', 'C', 'D', 'E', 'F', 'G', 'H', 'I', 'J', 'K', 'L', 'M',
        'N', 'O', 'P', 'Q', 'R', 'S', 'T', 'U', 'V', 'W', 'X', 'Y', 'Z']

/-- `while (num != 0) tmp[i++] = digits[do_div(num, base)];`, whose division is
unsigned. A 32-bit number is 0 after 32 rounds. -/
def digitLoop (digits : List Char) (base : Nat) : Nat → Nat → List Char
  | 0, _ => []
  | fuel + 1, num =>
      if num = 0 then []
      else digits.getD (num % base) '\x00' :: digitLoop digits base fuel (num / base)

/-- The output loops of `number`, where `tmp` holds the digits, the last one first. -/
def writeNumber (k : Sink) (tmp : List Char) (sign : Char) (base : Nat) (size precision : Int)
    (type : Flags) : Sink :=
  let c := if type.zeropad then '0' else ' '
  let spaced := if type.zeropad ∨ type.left then (k, size) else k.padAfter ' ' size
  let signed := if sign ≠ '\x00' then spaced.1.put sign else spaced.1
  let prefixed :=
    if type.special then
      if base = 8 then signed.put '0'
      else if base = 16 then (signed.put '0').put ((digits type.small).getD 33 '\x00')
      else signed
    else signed
  let filled := if type.left then (prefixed, spaced.2) else prefixed.padAfter c spaced.2
  let zeros := filled.1.fill '0' (precision - tmp.length).toNat
  ((zeros.puts tmp.reverse).padAfter ' ' filled.2).1

/-- `number`; for a base it refuses it returns a null pointer, which is `none`. -/
def number (k : Sink) (num : UInt32) (base : Nat) (size precision : Int) (type : Flags) :
    Option Sink :=
  let type := { type with zeropad := type.zeropad && !type.left }
  if base < 2 ∨ base > 36 then none
  else
    let negative := type.sign ∧ 2 ^ 31 ≤ num.toNat
    let sign :=
      if negative then '-' else if type.plus then '+' else if type.space then ' ' else '\x00'
    let num := if negative then -num else num
    let size := if sign ≠ '\x00' then wrapInt (size - 1) else size
    let size :=
      if type.special then
        if base = 16 then wrapInt (size - 2) else if base = 8 then wrapInt (size - 1) else size
      else size
    let tmp := if num = 0 then ['0'] else digitLoop (digits type.small) base 32 num.toNat
    let precision := if (tmp.length : Int) > precision then (tmp.length : Int) else precision
    some (writeNumber k tmp sign base (wrapInt (size - precision)) precision type)

/-- The flags of a directive, behind its `%`. -/
def scanFlags : List Char → Flags → Flags × List Char
  | '-' :: fmt, flags => scanFlags fmt { flags with left := true }
  | '+' :: fmt, flags => scanFlags fmt { flags with plus := true }
  | ' ' :: fmt, flags => scanFlags fmt { flags with space := true }
  | '#' :: fmt, flags => scanFlags fmt { flags with special := true }
  | '0' :: fmt, flags => scanFlags fmt { flags with zeropad := true }
  | fmt, flags => (flags, fmt)

/-- What a directive says before its conversion. -/
structure Directive where
  flags : Flags
  fieldWidth : Int
  precision : Int

/-- The field width. The `*` is not skipped. -/
def scanWidth (flags : Flags) (args : List Arg) :
    List Char → Option (Flags × Int × List Char × List Arg)
  | [] => some (flags, -1, [], args)
  | c :: fmt =>
      if isDigit c then
        let (fieldWidth, fmt) := skipAtoi (c :: fmt) 0
        some (flags, fieldWidth, fmt, args)
      else if c = '*' then
        (vaWord args).map fun (value, args) =>
          let fieldWidth := wrapInt value.toNat
          if fieldWidth < 0 then
            ({ flags with left := true }, wrapInt (-fieldWidth), c :: fmt, args)
          else (flags, fieldWidth, c :: fmt, args)
      else some (flags, -1, c :: fmt, args)

/-- The precision, from its `.` on. Here too the `*` is not skipped. -/
def scanPrecision (args : List Arg) : List Char → Option (Int × List Char × List Arg)
  | '.' :: fmt =>
      let scanned : Option (Int × List Char × List Arg) :=
        match fmt with
        | [] => some (-1, [], args)
        | c :: rest =>
            if isDigit c then
              let (precision, fmt) := skipAtoi (c :: rest) 0
              some (precision, fmt, args)
            else if c = '*' then
              (vaWord args).map fun (value, args) => (wrapInt value.toNat, c :: rest, args)
            else some (-1, c :: rest, args)
      scanned.map fun (precision, fmt, args) =>
        (if precision < 0 then 0 else precision, fmt, args)
  | fmt => some (-1, fmt, args)

/-- The qualifier, which no conversion reads. -/
def scanQualifier : List Char → List Char
  | 'h' :: fmt | 'l' :: fmt | 'L' :: fmt => fmt
  | fmt => fmt

/-- A directive from behind its `%` to its conversion. -/
def scanDirective (fmt : List Char) (args : List Arg) :
    Option (Directive × List Char × List Arg) := do
  let (flags, fmt) := scanFlags fmt Flags.none
  let (flags, fieldWidth, fmt, args) ← scanWidth flags args fmt
  let (precision, fmt, args) ← scanPrecision args fmt
  return (⟨flags, fieldWidth, precision⟩, scanQualifier fmt, args)

/-- The case `'c'`. -/
def convertChar (k : Sink) (d : Directive) (value : UInt32) : Sink :=
  let padded := if d.flags.left then (k, d.fieldWidth) else k.padBefore ' ' d.fieldWidth
  ((padded.1.put (Char.ofNat (value.toNat % 256))).padBefore ' ' padded.2).1

/-- The case `'s'`. -/
def convertString (k : Sink) (d : Directive) (s : List Char) : Sink :=
  let len := wrapInt s.length
  let len := if d.precision < 0 then len else if len > d.precision then d.precision else len
  let padded := if d.flags.left then (k, d.fieldWidth) else k.padTo ' ' len d.fieldWidth
  ((padded.1.puts (s.take len.toNat)).padTo ' ' len padded.2).1

/-- The cases that call `number`. -/
def convertNumber (k : Sink) (d : Directive) (base : Nat) (args : List Arg) (fmt : List Char) :
    Option (Sink × List Char × List Arg) := do
  let (value, args) ← vaWord args
  let k ← number k value base d.fieldWidth d.precision d.flags
  return (k, fmt, args)

/-- The directive as the case `'p'` changes it. -/
def Directive.pointer (d : Directive) : Directive :=
  if d.fieldWidth = -1 then
    { d with fieldWidth := 8, flags := { d.flags with zeropad := true } }
  else d

/-- The conversion of a directive. Behind a format that ends in it, the `--fmt` of the
source is undone by the `++fmt` of its loop. -/
def convert (k : Sink) (d : Directive) (args : List Arg) :
    List Char → Option (Sink × List Char × List Arg)
  | [] => some (k.put '%', [], args)
  | c :: fmt =>
      match c with
      | 'c' => (vaWord args).map fun (value, args) => (convertChar k d value, fmt, args)
      | 's' => (vaString args).map fun (s, args) => (convertString k d s, fmt, args)
      | 'o' => convertNumber k d 8 args fmt
      | 'p' => convertNumber k d.pointer 16 args fmt
      | 'x' => convertNumber k { d with flags := { d.flags with small := true } } 16 args fmt
      | 'X' => convertNumber k d 16 args fmt
      | 'd' | 'i' => convertNumber k { d with flags := { d.flags with sign := true } } 10 args fmt
      | 'u' => convertNumber k d 10 args fmt
      | 'b' => convertNumber k d 2 args fmt
      | 'n' =>
          (vaWord args).map fun (ip, args) =>
            ({ k with counts := (ip, k.str) :: k.counts }, fmt, args)
      | '%' => some (k.put '%', fmt, args)
      | c => some ((k.put '%').put c, fmt, args)

/-- The loop of `vsprintf`; every round reads a character of the format. -/
def vsprintfLoop : Nat → Sink → List Char → List Arg → Option Sink
  | _, k, [], _ => some k
  | 0, _, _ :: _, _ => none
  | fuel + 1, k, c :: fmt, args =>
      if c ≠ '%' then vsprintfLoop fuel (k.put c) fmt args
      else do
        let (d, fmt, args) ← scanDirective fmt args
        let (k, fmt, args) ← convert k d args fmt
        vsprintfLoop fuel k fmt args

/-- `vsprintf`: the stores and the returned length. -/
def vsprintf (fmt : List Char) (args : List Arg) : Option (Sink × Nat) :=
  (vsprintfLoop fmt.length ⟨0, [], []⟩ fmt args).map fun k =>
    ({ k with stores := (k.str, '\x00') :: k.stores }, k.str)

/-- `kprintf`: the offsets in its `buf` of everything it stores there. -/
def kprintf (msg : List Char) (args : List Arg) : Option (List (Nat × Char)) :=
  (vsprintf msg args).map fun (k, i) => (i, '\x00') :: k.stores

end Balloon.Printf
