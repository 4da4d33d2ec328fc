import Balloon.Allocator.Model

/-!
Owns the embedding of process.c and of the parent's path through `fork` in
task.c: the fields of `process_t`, `init_kernel_process`, `spawn_process`,
`set_process_environment` and `fork`. It does not own `clone_directory`: the
directory it returned and the heap it left are arguments of a fork, as are the
registers `fork` reads.
-/

namespace Balloon.Process

open Balloon.Foundation
open Balloon.Libc
open Balloon.Allocator

def kernelStackSize : Nat := 0x8000

def sizeofProcess : Nat := 176

/-- The fields of `process_t`, those of its `thread_t` included. -/
inductive Field where
  | pid | name | esp | ebp | eip | pageDirectory | next | stack | userStack
deriving DecidableEq, Repr

/-- The floating-point registers and the padding fill the bytes 20 to 159. -/
def Field.offset : Field → Nat
  | .pid => 0
  | .name => 4
  | .esp => 8
  | .ebp => 12
  | .eip => 16
  | .pageDirectory => 160
  | .next => 164
  | .stack => 168
  | .userStack => 172

/-- `proc->field`. -/
def get (h : Heap) (proc : Nat) (field : Field) : Nat := h.mem.read32 (proc + field.offset)

/-- `proc->field = v`. -/
def set (h : Heap) (proc : Nat) (field : Field) (v : Nat) : Heap :=
  h.store (proc + field.offset) v

/-- The heap and the list of processes that hangs off `root_proc`. -/
structure System where
  heap : Heap
  rootProc : Nat

/-- The addresses of the string literals `"kernel"` and `"forked"`. -/
structure Names where
  kernel : Nat
  forked : Nat

def initKernelProcess (names : Names) (initialEsp : Nat) (h : Heap) : Option (Nat × System) :=
  (h.kmallocMapped sizeofProcess).map fun (init, h) =>
    let h := set h init .pid 0
    let h := set h init .name names.kernel
    let h := set h init .stack (wrap32 (initialEsp + 1))
    let h := set h init .userStack 0
    (init, { heap := h, rootProc := init })

def setProcessEnvironment (h : Heap) (proc directory : Nat) : Heap :=
  set h proc .pageDirectory directory

/-- The assignments of `spawn_process` before it allocates the stack. -/
def enqueue (names : Names) (h : Heap) (rootProc proc : Nat) : Heap :=
  let h := set h proc .pid 1
  let h := set h proc .name names.forked
  let h := set h proc .esp 0
  let h := set h proc .ebp 0
  let h := set h proc .eip 0
  let h := set h rootProc .next proc
  set h proc .next 0

def spawnProcess (names : Names) (s : System) (parent : Nat) : Option (Nat × System) :=
  (s.heap.kmallocMapped sizeofProcess).bind fun (proc, h) =>
    ((enqueue names h s.rootProc proc).kmallocMapped kernelStackSize).map fun (block, h) =>
      let h := set h proc .stack (wrap32 (block + kernelStackSize))
      let h := set h proc .userStack (get h parent .userStack)
      (proc, { s with heap := h })

/-- A call of `fork`: the calling process, the directory `clone_directory`
returned, the heap it left, and the registers at the call of `read_eip`. -/
structure ForkCall where
  parent : Nat
  dir : Nat
  cloned : Heap
  esp : Nat
  ebp : Nat
  eip : Nat

/-- What `fork` hands back to the parent: `new_proc` and `new_proc->pid`. -/
structure Forked where
  newProc : Nat
  pid : Nat
  system : System

/-- The stack pointers `fork` saves for the child. -/
def relocate (h : Heap) (call : ForkCall) (newProc : Nat) : Heap :=
  let parentStack := get h call.parent .stack
  let newStack := get h newProc .stack
  if parentStack > newStack then
    set (set h newProc .esp (sub32 call.esp (sub32 parentStack newStack))) newProc .ebp
      (sub32 call.ebp (sub32 parentStack newStack))
  else
    set (set h newProc .esp (wrap32 (call.esp + sub32 newStack parentStack))) newProc .ebp
      (sub32 call.ebp (sub32 parentStack newStack))

/-- `memcpy` of the parent's kernel stack to the child's. -/
def copyStack (h : Heap) (parent newProc : Nat) : Heap :=
  { h with
    mem := memcpy h.mem (sub32 (get h newProc .stack) kernelStackSize)
      (sub32 (get h parent .stack) kernelStackSize) kernelStackSize }

/-- `fork` on the path of the parent. -/
def fork (names : Names) (s : System) (call : ForkCall) : Option Forked :=
  (spawnProcess names { s with heap := call.cloned } call.parent).map fun (newProc, s) =>
    let h := setProcessEnvironment s.heap newProc call.dir
    let h := relocate h call newProc
    let h := copyStack h call.parent newProc
    let h := set h newProc .eip call.eip
    { newProc := newProc, pid := get h newProc .pid, system := { s with heap := h } }

end Balloon.Process
