import Mathlib.Data.List.Basic
import Mathlib.Tactic.Linarith

/-!
# Counting semaphores

`src/common/sem.c`. A negative value counts the sleepers. `_post_sem` wakes the waiter at
`sleeplist.prev`, which is the one that has slept longest, because `_insert_into_list` puts a
new waiter at the other end. The list here is in waking order. A process sleeps as long as
it is on the list: a post takes it off with `up` set, an alert from another source takes it
off with `up` clear, and the wait then returns false.
-/
namespace OsLab.Common

/-- `INT_MAX`. -/
def intMax : Int := 2 ^ 31 - 1

/-- The value and the sleepers, longest sleeping first. -/
structure Semaphore where
  /-- The counter; below zero it is minus the number of sleepers. -/
  val : Int
  /-- Waiting processes in the order in which posts wake them. -/
  sleeplist : List Nat
  deriving Repr, DecidableEq

namespace Semaphore

/-- `init_sem`. -/
def initSem (val : Int) : Semaphore := ⟨val, []⟩

/-- `_get_sem`: take a unit if there is one. -/
def getSem (sem : Semaphore) : Bool × Semaphore :=
  if 0 < sem.val then (true, { sem with val := sem.val - 1 }) else (false, sem)

/-- `_wait_sem` up to the call of `sched`: either the wait passes at once, or the process is
on the sleep list. -/
def waitSem (sem : Semaphore) (proc : Nat) : Bool × Semaphore :=
  let val := sem.val - 1
  if 0 ≤ val then (true, { sem with val }) else (false, ⟨val, sem.sleeplist ++ [proc]⟩)

/-- `_wait_sem` after it was woken by another source: the waiter leaves the list and its
unit of the counter is given back. -/
def unwait (sem : Semaphore) (proc : Nat) : Semaphore :=
  ⟨sem.val + 1, sem.sleeplist.erase proc⟩

/-- `_post_sem`; `none` is its PANIC on a negative counter with nobody asleep. -/
def postSem (sem : Semaphore) : Option Semaphore :=
  let val := sem.val + 1
  if val ≤ 0 then
    match sem.sleeplist with
    | [] => none
    | _ :: rest => some ⟨val, rest⟩
  else some { sem with val }

/-- `_post_sem` on a counter that is an `int`: `++sem->val` has no meaning at `INT_MAX`. -/
def postInt (sem : Semaphore) : Option Semaphore := if sem.val < intMax then sem.postSem else none

/-- The loop of `post_all_sem`: post, and stop when the unit posted can be taken back. -/
def postAllLoop : Nat → Semaphore → Option Semaphore
  | 0, _ => none
  | fuel + 1, sem => do
    let posted ← sem.postSem
    match posted.getSem with
    | (true, after) => some after
    | (false, after) => postAllLoop fuel after

/-- `post_all_sem`. Every round raises the counter by one until it is positive. -/
def postAllSem (sem : Semaphore) : Option Semaphore :=
  postAllLoop (sem.val.natAbs + 1) sem

/-- The counter and the sleep list agree. -/
def Balanced (sem : Semaphore) : Prop := (sem.sleeplist.length : Int) = max 0 (-sem.val)

/-- A fresh semaphore with a nonnegative value is balanced. -/
theorem initSem_balanced {val : Int} (nonnegative : 0 ≤ val) : (initSem val).Balanced := by
  simp only [Balanced, initSem, List.length_nil]
  omega

/-- Waiting keeps the balance. -/
theorem waitSem_balanced {sem : Semaphore} (balanced : sem.Balanced) (proc : Nat) :
    (sem.waitSem proc).2.Balanced := by
  simp only [Balanced, waitSem] at balanced ⊢
  split
  · simp only
    omega
  · simp only [List.length_append, List.length_cons, List.length_nil]
    push_cast
    omega

/-- A sleeper that is alerted leaves the semaphore balanced. -/
theorem unwait_balanced {sem : Semaphore} {proc : Nat} (balanced : sem.Balanced)
    (asleep : proc ∈ sem.sleeplist) : (sem.unwait proc).Balanced := by
  have shorter := List.length_erase_of_mem asleep
  have nonempty := List.length_pos_of_mem asleep
  simp only [Balanced, unwait] at balanced ⊢
  omega

/-- A sleeper that is alerted leaves no surplus. -/
theorem unwait_nonpos {sem : Semaphore} {proc : Nat} (balanced : sem.Balanced)
    (asleep : proc ∈ sem.sleeplist) : (sem.unwait proc).val ≤ 0 := by
  have nonempty := List.length_pos_of_mem asleep
  simp only [Balanced, unwait] at balanced ⊢
  omega

/-- On a balanced semaphore a post never panics and keeps the balance. -/
theorem postSem_balanced {sem : Semaphore} (balanced : sem.Balanced) :
    ∃ posted, sem.postSem = some posted ∧ posted.Balanced ∧ posted.val = sem.val + 1 ∧
      posted.sleeplist = sem.sleeplist.tail := by
  obtain ⟨val, sleeplist⟩ := sem
  simp only [Balanced] at balanced
  simp only [postSem]
  cases sleeplist with
  | nil =>
    simp only [List.length_nil] at balanced
    refine ⟨⟨val + 1, []⟩, ?_, ?_, rfl, rfl⟩
    · rw [if_neg (by omega)]
    · simp only [Balanced, List.length_nil]
      omega
  | cons first rest =>
    simp only [List.length_cons] at balanced
    refine ⟨⟨val + 1, rest⟩, ?_, ?_, rfl, rfl⟩
    · rw [if_pos (by push_cast at balanced; omega)]
    · simp only [Balanced]
      push_cast at balanced
      omega

end Semaphore

end OsLab.Common
