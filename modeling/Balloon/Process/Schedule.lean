import Balloon.Process.Queue

/-!
Owns `schedule` of process.c on a run queue of any length: the assignments
`current_process = schedule()` of `switch_task` go round the list that hangs off `root_proc`.
-/

namespace Balloon.Process

open Balloon.Foundation
open Balloon.Allocator

/-- `schedule`, called while `current` is `current_process`. -/
def schedule (s : System) (current : Nat) : Nat :=
  if get s.heap current .next ≠ 0 then get s.heap current .next else s.rootProc

variable {s : System} {procs : List Nat}

/-- The process behind `current`, or the first. -/
theorem some_schedule (path : Path (queueNext s) none procs) {current : Nat}
    (member : current ∈ procs) :
    some (schedule s current) = (queueNext s (some current)).or procs.head? := by
  have first : queueNext s none = procs.head? :=
    Path.next_lastFrom (show Path (queueNext s) none ([] ++ procs) from path)
  have started : s.rootProc ≠ 0 := by
    intro null
    rw [queueNext, null] at first
    cases procs with
    | nil => contradiction
    | cons x rest => contradiction
  rw [← first, schedule, queueNext, queueNext]
  by_cases last : get s.heap current .next = 0
  · rw [if_neg (not_not.mpr last), nodeAt, if_pos last, Option.none_or, nodeAt, if_neg started]
  · rw [if_pos last, nodeAt, if_neg last, Option.some_or]

theorem schedule_cyclic (path : Path (queueNext s) none procs) {i : Nat}
    (inside : i < procs.length) :
    some (schedule s procs[i]) = procs[(i + 1) % procs.length]? := by
  rw [some_schedule path (List.getElem_mem inside), path.next_getElem inside]
  by_cases last : i + 1 < procs.length
  · rw [List.getElem?_eq_getElem last, Option.some_or, Nat.mod_eq_of_lt last,
      List.getElem?_eq_getElem last]
  · have wraps : i + 1 = procs.length := by omega
    rw [wraps, List.getElem?_eq_none (Nat.le_refl _), Option.none_or, Nat.mod_self,
      List.head?_eq_getElem?]

/-- From any process of the queue, as many steps as it has processes visit each exactly once
and come back. -/
theorem schedule_round (path : Path (queueNext s) none procs) {current : Nat}
    (member : current ∈ procs) :
    ((List.range procs.length).map fun k => (schedule s)^[k + 1] current).Perm procs ∧
      procs.Nodup ∧ (schedule s)^[procs.length] current = current := by
  obtain ⟨i, inside, rfl⟩ := List.getElem_of_mem member
  have step := fun i inside => schedule_cyclic (i := i) path inside
  refine ⟨?_, path.nodup, ?_⟩
  · rw [map_iterate_eq_rotate step inside]
    exact List.rotate_perm procs (i + 1)
  · have round := iterate_cyclic step inside procs.length
    rw [Nat.add_mod_right, Nat.mod_eq_of_lt inside, List.getElem?_eq_getElem inside] at round
    exact Option.some.inj round

/-- Two processes at `0x1000` and `0x2000`. -/
def pair : System where
  heap := (Client.boot (Memory.write32 (fun _ => 0) (0x1000 + 164) 0x2000) 0x100000).heap
  rootProc := 0x1000

/-- `schedule_round` from the last process of two. -/
theorem schedule_round_pair :
    ((List.range 2).map fun k => (schedule pair)^[k + 1] 0x2000).Perm [0x1000, 0x2000] ∧
      [0x1000, 0x2000].Nodup ∧ (schedule pair)^[2] 0x2000 = 0x2000 := by
  have path : Path (queueNext pair) none [0x1000, 0x2000] :=
    ⟨by decide, by decide, (by decide : queueNext pair (some 0x2000) = none)⟩
  exact schedule_round path (by decide)

end Balloon.Process
