import OsLab.Lib.Transition
import OsLab.Common.Sem
import Mathlib.Data.List.Nodup

/-!
# Semaphores under concurrent calls

`_wait_sem`, `_post_sem`, `get_sem`, `get_all_sem` and `post_all_sem` of `src/common/sem.c`,
called by any number of processes. A section under `sem->lock` is one step. A wait that has to
sleep consists of two: the one that puts its `WaitData` on the sleep list, and the one after it
runs again, which finds out whether a post has marked the `WaitData` up. In between, any other
source may wake the process. The counter is an `int`: a step that would overflow it is not
taken, since the code has no meaning there.
-/
namespace OsLab.Common.SemRun

open OsLab.Lib

/-- `INT_MIN`. -/
def intMin : Int := -2 ^ 31

/-- A call of `_wait_sem` that did not pass at once. -/
structure WaitData where
  /-- It may be woken by other sources than posts. -/
  alertable : Bool
  /-- A post has granted it a unit. -/
  up : Bool
  /-- The process runs again and takes `sem->lock` next. -/
  awake : Bool
  deriving Repr, DecidableEq

/-- What an observer of the semaphore sees happen. -/
inductive Event where
  /-- A wait passed without sleeping. -/
  | passed (proc : Nat)
  /-- A wait put its `WaitData` on the sleep list. -/
  | enqueued (proc : Nat)
  /-- A post marked a waiter up. -/
  | marked (proc : Nat)
  /-- A waiter woken by another source took its `WaitData` off the list. -/
  | withdrawn (proc : Nat)
  /-- `_post_sem` raised the counter. -/
  | posted
  /-- `_get_sem` took a unit. -/
  | got
  /-- `get_all_sem` took all units there were. -/
  | gotAll (units : Nat)
  deriving Repr, DecidableEq

/-- The places where this code panics. -/
inductive PanicSite where
  /-- `_post_sem` found the sleep list empty. -/
  | postEmpty
  /-- `ASSERT(++sem->val <= 0)`. -/
  | withdrawPositive
  deriving Repr, DecidableEq

/-- The semaphore and the calls of `_wait_sem` that have not returned. -/
structure State where
  /-- The counter and the sleep list. -/
  sem : Semaphore
  /-- The `WaitData` of each process. -/
  waits : Nat → Option WaitData
  panic : Option PanicSite
  history : List Event

/-- What happens next. -/
inductive Act where
  /-- `proc` calls `_wait_sem`. -/
  | wait (proc : Nat) (alertable : Bool)
  /-- An alertable waiter is woken by another source. -/
  | wake (proc : Nat)
  /-- A waiter that runs again takes `sem->lock` and returns. -/
  | resume (proc : Nat)
  | post
  | get
  | getAll
  | postAll

namespace State

/-- `init_sem`. -/
def init (val : Int) : State := ⟨.initSem val, fun _ => none, none, []⟩

/-- Replace the `WaitData` of a process. -/
def setWait (s : State) (proc : Nat) (wait : Option WaitData) : State :=
  { s with waits := fun other => if other = proc then wait else s.waits other }

/-- Add an event to the history. -/
def note (s : State) (event : Event) : State := { s with history := event :: s.history }

/-- `_wait_sem` up to the call of `sched`. -/
def wait (s : State) (proc : Nat) (alertable : Bool) : State :=
  match s.sem.waitSem proc with
  | (true, sem) => { s with sem }.note (.passed proc)
  | (false, sem) => ({ s with sem }.setWait proc (some ⟨alertable, false, false⟩)).note
      (.enqueued proc)

/-- `_wait_sem` after `sched` has returned. -/
def resume (s : State) (proc : Nat) (wait : WaitData) : State :=
  if wait.up then s.setWait proc none
  else if s.sem.val + 1 ≤ 0 then
    ({ s with sem := s.sem.unwait proc }.setWait proc none).note (.withdrawn proc)
  else { s with panic := some .withdrawPositive }

/-- `wait->up=true` and `activate_proc(wait->proc)`. -/
def markUp (s : State) (proc : Nat) : State :=
  let raise (wait : WaitData) : WaitData := { wait with up := true, awake := true }
  (s.setWait proc ((s.waits proc).map raise)).note (.marked proc)

/-- `_post_sem`. -/
def post (s : State) : State :=
  if s.sem.val + 1 ≤ 0 then
    match s.sem.sleeplist with
    | [] => { s with panic := some .postEmpty }
    | proc :: rest => ({ s with sem := ⟨s.sem.val + 1, rest⟩ }.note .posted).markUp proc
  else { s with sem := { s.sem with val := s.sem.val + 1 } }.note .posted

/-- `_get_sem`, where it takes a unit. -/
def get (s : State) : State := { s with sem := s.sem.getSem.2 }.note .got

/-- `get_all_sem`. -/
def getAll (s : State) : State :=
  if 0 < s.sem.val then { s with sem := { s.sem with val := 0 } }.note (.gotAll s.sem.val.toNat)
  else s

/-- The loop of `post_all_sem`; `none` where the rounds do not suffice. -/
def postAllLoop : Nat → State → Option State
  | 0, _ => none
  | rounds + 1, s =>
    let s := s.post
    if s.panic.isSome then some s
    else if s.sem.getSem.1 then some s.get
    else postAllLoop rounds s

/-- `post_all_sem`. Every round raises the counter by one until it is positive. -/
def postAll (s : State) : Option State := postAllLoop (s.sem.val.natAbs + 1) s

/-- One step. -/
def step (s : State) (act : Act) : Option State :=
  if s.panic.isSome then none
  else match act with
    | .wait proc alertable =>
      if s.waits proc = none ∧ intMin < s.sem.val then some (s.wait proc alertable) else none
    | .wake proc =>
      match s.waits proc with
      | some wait => if wait.alertable then some (s.setWait proc (some { wait with awake := true }))
        else none
      | none => none
    | .resume proc =>
      match s.waits proc with
      | some wait => if wait.awake then some (s.resume proc wait) else none
      | none => none
    | .post => if s.sem.val < intMax then some s.post else none
    | .get => if s.sem.getSem.1 then some s.get else some s
    | .getAll => some s.getAll
    | .postAll => if s.sem.val < intMax then s.postAll else none

end State

/-- A semaphore initialised with `val`, as a machine. -/
def machine (val : Int) : Machine State Act where
  init s := s = .init val
  step := State.step

/-! ## What the history says -/

/-- The waiters that were enqueued and neither marked up nor withdrawn, first come first. -/
def waiting : List Event → List Nat
  | [] => []
  | .enqueued proc :: earlier => waiting earlier ++ [proc]
  | .marked proc :: earlier | .withdrawn proc :: earlier => (waiting earlier).erase proc
  | _ :: earlier => waiting earlier

/-- Every waiter marked up was the first one in the queue. -/
def Fifo : List Event → Prop
  | [] => True
  | .marked proc :: earlier => (waiting earlier).head? = some proc ∧ Fifo earlier
  | _ :: earlier => Fifo earlier

/-- The number of posts. -/
def posts : List Event → Nat
  | [] => 0
  | .posted :: earlier => posts earlier + 1
  | _ :: earlier => posts earlier

/-- The number of units granted. -/
def granted : List Event → Nat
  | [] => 0
  | .passed _ :: earlier | .marked _ :: earlier | .got :: earlier => granted earlier + 1
  | .gotAll units :: earlier => granted earlier + units
  | _ :: earlier => granted earlier

/-- What holds whenever `sem->lock` is free. -/
structure Inv (val : Int) (s : State) : Prop where
  sound : s.panic = none
  balanced : s.sem.Balanced
  queue : s.sem.sleeplist = waiting s.history
  nodup : s.sem.sleeplist.Nodup
  /-- On the list are the calls that were not marked up. -/
  asleep : ∀ proc, proc ∈ s.sem.sleeplist ↔ ∃ wait, s.waits proc = some wait ∧ wait.up = false
  conserved : val + posts s.history = granted s.history + max 0 s.sem.val
  fifo : Fifo s.history

namespace Inv

variable {val : Int} {s s' : State} {proc : Nat}

/-- A fresh semaphore. -/
theorem init (nonnegative : 0 ≤ val) : Inv val (.init val) where
  sound := rfl
  balanced := Semaphore.initSem_balanced nonnegative
  queue := rfl
  nodup := .nil
  asleep := by simp [State.init, Semaphore.initSem]
  conserved := by simp [State.init, Semaphore.initSem, posts, granted, nonnegative]
  fifo := trivial

/-- A wait passes or goes to the end of the list. -/
theorem wait (inv : Inv val s) (alertable : Bool) (fresh : s.waits proc = none) :
    Inv val (s.wait proc alertable) := by
  obtain ⟨sound, balanced, queue, nodup, asleep, conserved, fifo⟩ := inv
  have awake : proc ∉ s.sem.sleeplist := by
    rw [asleep, fresh]
    simp
  have kept := Semaphore.waitSem_balanced balanced proc
  simp only [State.wait, Semaphore.waitSem] at kept ⊢
  by_cases passes : 0 ≤ s.sem.val - 1
  · rw [if_pos passes] at kept ⊢
    refine ⟨sound, kept, queue, nodup, asleep, ?_, fifo⟩
    simp only [State.note, posts, granted]
    push_cast
    omega
  · rw [if_neg passes] at kept ⊢
    refine ⟨sound, kept, ?_, ?_, ?_, ?_, fifo⟩
    · simp only [State.note, State.setWait, waiting, queue]
    · simp only [State.note, State.setWait]
      exact nodup.append (List.nodup_singleton proc) (by simpa using awake)
    · intro other
      simp only [State.note, State.setWait, List.mem_append, List.mem_singleton, asleep other]
      by_cases same : other = proc
      · simp [same]
      · simp [same]
    · simp only [State.note, State.setWait, posts, granted]
      omega

/-- A waiter that was woken by another source is still on the list. -/
theorem wake (inv : Inv val s) {wait : WaitData} (waits : s.waits proc = some wait) :
    Inv val (s.setWait proc (some { wait with awake := true })) := by
  obtain ⟨sound, balanced, queue, nodup, asleep, conserved, fifo⟩ := inv
  refine ⟨sound, balanced, queue, nodup, fun other => ?_, conserved, fifo⟩
  simp only [State.setWait, asleep other]
  by_cases same : other = proc
  · simp [same, waits]
  · simp [same]

/-- A waiter that was not marked up gives its unit of the counter back. -/
theorem resume (inv : Inv val s) {wait : WaitData} (waits : s.waits proc = some wait) :
    Inv val (s.resume proc wait) := by
  obtain ⟨sound, balanced, queue, nodup, asleep, conserved, fifo⟩ := inv
  unfold State.resume
  split
  · rename_i up
    refine ⟨sound, balanced, queue, nodup, fun other => ?_, conserved, fifo⟩
    simp only [State.setWait, asleep other]
    by_cases same : other = proc
    · simp [same, waits, up]
    · simp [same]
  · rename_i notUp
    have listed : proc ∈ s.sem.sleeplist := (asleep proc).mpr ⟨wait, waits, by simpa using notUp⟩
    have nonpositive := Semaphore.unwait_nonpos balanced listed
    simp only [Semaphore.unwait] at nonpositive
    rw [if_pos nonpositive]
    refine ⟨sound, Semaphore.unwait_balanced balanced listed, ?_, nodup.erase proc, ?_, ?_, fifo⟩
    · simp only [State.note, State.setWait, Semaphore.unwait, waiting, queue]
    · intro other
      simp only [State.note, State.setWait, Semaphore.unwait, nodup.mem_erase_iff, asleep other]
      by_cases same : other = proc
      · simp [same]
      · simp [same]
    · simp only [State.note, State.setWait, Semaphore.unwait, posts, granted]
      omega

/-- A post marks the first waiter up, or leaves its unit where there is none. -/
theorem post (inv : Inv val s) : Inv val s.post ∧ s.post.sem.val = s.sem.val + 1 := by
  obtain ⟨sound, balanced, queue, nodup, asleep, conserved, fifo⟩ := inv
  simp only [Semaphore.Balanced] at balanced
  unfold State.post
  split
  · rename_i negative
    split
    · -- a negative counter counts somebody
      rename_i empty
      rw [empty, List.length_nil] at balanced
      omega
    · rename_i first rest list
      rw [list] at balanced queue nodup asleep
      simp only [List.length_cons] at balanced
      push_cast at balanced
      have apart := (List.nodup_cons.mp nodup).1
      refine ⟨⟨sound, ?_, ?_, (List.nodup_cons.mp nodup).2, fun other => ?_, ?_, ?_, fifo⟩, rfl⟩
      · simp only [State.note, State.setWait, State.markUp, Semaphore.Balanced]
        omega
      · simp only [State.note, State.setWait, State.markUp, waiting, ← queue, List.erase_cons_head]
      · simp only [State.note, State.setWait, State.markUp]
        have before := asleep other
        by_cases same : other = first
        · subst same
          simp only [if_true, apart, false_iff, not_exists, not_and]
          intro wait marked
          obtain ⟨old, -, rfl⟩ := Option.map_eq_some_iff.mp marked
          simp
        · simpa [same] using before
      · simp only [State.note, State.setWait, State.markUp, posts, granted]
        push_cast
        omega
      · simp only [State.note, State.setWait, waiting, ← queue, List.head?_cons]
  · rename_i positive
    refine ⟨⟨sound, ?_, queue, nodup, asleep, ?_, fifo⟩, rfl⟩
    · simp only [State.note, Semaphore.Balanced]
      omega
    · simp only [State.note, posts, granted]
      push_cast
      omega

/-- A unit is taken where there is one. -/
theorem get (inv : Inv val s) (there : s.sem.getSem.1 = true) : Inv val s.get := by
  obtain ⟨sound, balanced, queue, nodup, asleep, conserved, fifo⟩ := inv
  have positive : 0 < s.sem.val := by
    by_contra none
    rw [Semaphore.getSem, if_neg none] at there
    contradiction
  simp only [Semaphore.Balanced] at balanced
  simp only [State.get, Semaphore.getSem, if_pos positive]
  refine ⟨sound, ?_, queue, nodup, asleep, ?_, fifo⟩
  · simp only [State.note, Semaphore.Balanced]
    omega
  · simp only [State.note, posts, granted]
    push_cast
    omega

/-- All units are taken. -/
theorem getAll (inv : Inv val s) : Inv val s.getAll := by
  obtain ⟨sound, balanced, queue, nodup, asleep, conserved, fifo⟩ := inv
  simp only [Semaphore.Balanced] at balanced
  unfold State.getAll
  split
  · rename_i positive
    refine ⟨sound, ?_, queue, nodup, asleep, ?_, fifo⟩
    · simp only [State.note, Semaphore.Balanced]
      omega
    · simp only [State.note, posts, granted]
      push_cast
      omega
  · exact ⟨sound, balanced, queue, nodup, asleep, conserved, fifo⟩

/-- The loop of `post_all_sem` ends, and consists of posts and a get. -/
theorem postAllLoop (inv : Inv val s) {rounds : Nat} (some_round : 0 < rounds)
    (enough : 0 < s.sem.val + rounds) :
    ∃ s', State.postAllLoop rounds s = some s' ∧ Inv val s' := by
  induction rounds generalizing s with
  | zero => omega
  | succ rounds ih =>
    obtain ⟨posted, raised⟩ := inv.post
    simp only [State.postAllLoop, posted.sound, Option.isSome_none, Bool.false_eq_true, if_false]
    split
    · rename_i there
      exact ⟨_, rfl, posted.get there⟩
    · rename_i missing
      have nonpositive : s.post.sem.val ≤ 0 := by
        by_contra positive
        rw [Semaphore.getSem, if_pos (by omega)] at missing
        contradiction
      push_cast at enough
      exact ih posted (by omega) (by omega)

/-- `post_all_sem` returns. -/
theorem postAll (inv : Inv val s) : ∃ s', s.postAll = some s' ∧ Inv val s' :=
  inv.postAllLoop (by omega) (by omega)

/-- Every step keeps the invariant. -/
theorem step {act : Act} (inv : Inv val s) (taken : s.step act = some s') : Inv val s' := by
  unfold State.step at taken
  rw [inv.sound] at taken
  simp only [Option.isSome_none, Bool.false_eq_true, if_false] at taken
  cases act with
  | wait proc alertable =>
    simp only [Option.ite_none_right_eq_some, Option.some.injEq] at taken
    obtain ⟨⟨fresh, -⟩, rfl⟩ := taken
    exact inv.wait alertable fresh
  | wake proc =>
    cases waits : s.waits proc with
    | none => simp [waits] at taken
    | some wait =>
      simp only [waits, Option.ite_none_right_eq_some, Option.some.injEq] at taken
      obtain ⟨-, rfl⟩ := taken
      exact inv.wake waits
  | resume proc =>
    cases waits : s.waits proc with
    | none => simp [waits] at taken
    | some wait =>
      simp only [waits, Option.ite_none_right_eq_some, Option.some.injEq] at taken
      obtain ⟨-, rfl⟩ := taken
      exact inv.resume waits
  | post =>
    simp only [Option.ite_none_right_eq_some, Option.some.injEq] at taken
    obtain ⟨-, rfl⟩ := taken
    exact inv.post.1
  | get =>
    dsimp only at taken
    split at taken
    · rename_i there
      obtain rfl := Option.some.inj taken
      exact inv.get there
    · obtain rfl := Option.some.inj taken
      exact inv
  | getAll =>
    obtain rfl := Option.some.inj taken
    exact inv.getAll
  | postAll =>
    simp only [Option.ite_none_right_eq_some] at taken
    obtain ⟨-, done⟩ := taken
    obtain ⟨after, returned, kept⟩ := inv.postAll
    obtain rfl := Option.some.inj (returned.symm.trans done)
    exact kept

/-- The invariant holds in every state reached. -/
theorem reach {guard : State → Act → Prop} (nonnegative : 0 ≤ val)
    (reached : (machine val).Reach guard s) : Inv val s := by
  refine reached.invariant ?_ fun _ _ _ _ inv _ taken => inv.step taken
  rintro s rfl
  exact .init nonnegative

end Inv

/-- The semaphore is correct: in every run from an initial value that is not negative, the sleep
list is as long as the counter is below zero, neither the `PANIC` of `_post_sem` nor the `ASSERT`
of `_wait_sem` is reached, the units posted are those granted and those left over, and waiters
are marked up in the order in which they came. -/
theorem semaphore_correct (val : Int) (nonnegative : 0 ≤ val) (s : State)
    (reached : (machine val).Reach Machine.Any s) :
    (s.sem.sleeplist.length : Int) = max 0 (-s.sem.val) ∧ s.panic = none ∧
      val + posts s.history = granted s.history + max 0 s.sem.val ∧ Fifo s.history := by
  have inv := Inv.reach nonnegative reached
  exact ⟨inv.balanced, inv.sound, inv.conserved, inv.fifo⟩

/-- Two processes wait, the first is alerted and a post comes before it has taken the lock
again; a third waits and withdraws. -/
def alertRun : List Act :=
  [.wait 1 true, .wait 2 false, .wake 1, .post, .resume 1, .wait 3 true, .wake 3, .resume 3,
    .postAll]

/-- After that run both remaining waiters were granted a unit, in the order in which they came. -/
theorem semaphore_correct_alertRun :
    ∃ s, (machine 0).Reach Machine.Any s ∧ s.history = [.got, .posted, .marked 2, .posted,
        .withdrawn 3, .enqueued 3, .marked 1, .posted, .enqueued 2, .enqueued 1] ∧
      s.sem.sleeplist.length = 0 ∧ (0 : Int) + 3 = 3 + max 0 s.sem.val := by
  have shown : ((machine 0).exec Machine.Any (.init 0) alertRun).map
      (fun s => (s.history, s.sem.sleeplist)) = some ([.got, .posted, .marked 2, .posted,
        .withdrawn 3, .enqueued 3, .marked 1, .posted, .enqueued 2, .enqueued 1], []) := by
    decide +kernel
  obtain ⟨s, reached, observed⟩ := Machine.Reach.exec_map rfl shown
  obtain ⟨history, list⟩ := Prod.mk.inj observed
  obtain ⟨-, -, conserved, -⟩ := semaphore_correct 0 (by decide) s reached
  rw [history] at conserved
  exact ⟨s, reached, history, by rw [list]; rfl, conserved⟩

/-! ## One call of `post_all_sem` -/

/-- `wait->up=true`, and the process runs again. -/
def WaitData.raised (wait : WaitData) : WaitData := { wait with up := true, awake := true }

/-- The loop of `post_all_sem` with `ret`, in at most some rounds; `none` where they do not suffice,
and where `++` overflows an `int`. -/
def State.postAllFrom : Nat → Int → State → Option (Int × State)
  | 0, _, _ => none
  | rounds + 1, ret, s =>
    if s.sem.val < intMax ∧ ret < intMax then
      let s := s.post
      if s.panic.isSome then some (ret, s)
      else if s.sem.getSem.1 then some (ret + 1, s.get)
      else s.postAllFrom rounds (ret + 1)
    else none

/-- What `post_all_sem` leaves: the sleepers are marked up one after the other, and there is no unit
more than before. -/
structure PostedAll (s s' : State) : Prop where
  sound : s'.panic = none
  sem : s'.sem = ⟨max 0 s.sem.val, []⟩
  /-- The sleepers are marked up and run again, the other waits stay. -/
  waits : ∀ proc, s'.waits proc =
    if proc ∈ s.sem.sleeplist then (s.waits proc).map WaitData.raised else s.waits proc
  /-- They are marked in the order of the list; then the last unit posted is taken back. -/
  history : s'.history = .got :: .posted ::
    ((s.sem.sleeplist.reverse.flatMap fun proc => [.marked proc, .posted]) ++ s.history)

/-- A post where nobody sleeps is taken back at once. -/
theorem postAllFrom_last {s : State} {ret : Int} (sound : s.panic = none)
    (nobody : s.sem.sleeplist = []) (nonnegative : 0 ≤ s.sem.val) (high : s.sem.val < intMax)
    (short : ret < intMax) : ∃ s', PostedAll s s' ∧ ∀ rounds, 1 ≤ rounds →
      s.postAllFrom rounds ret = some (ret + 1, s') := by
  have posts : s.post = { s with sem := ⟨s.sem.val + 1, []⟩ }.note .posted := by
    rw [State.post, if_neg (by omega)]
    dsimp only
    rw [nobody]
  have takes : (⟨s.sem.val + 1, []⟩ : Semaphore).getSem = (true, ⟨s.sem.val, []⟩) := by
    rw [Semaphore.getSem, if_pos (by simp only; omega), Int.add_sub_cancel]
  refine ⟨s.post.get, ⟨?_, ?_, fun proc => ?_, ?_⟩, fun rounds some_ => ?_⟩
  · rw [posts]
    exact sound
  · rw [posts, max_eq_right nonnegative]
    exact congrArg Prod.snd takes
  · rw [posts, nobody, if_neg (by simp)]
    rfl
  · rw [posts, nobody]
    rfl
  · obtain ⟨rounds, rfl⟩ : ∃ less, rounds = less + 1 := ⟨rounds - 1, by omega⟩
    have quiet : s.post.panic.isSome = false := by rw [posts]; simp [State.note, sound]
    have taken : s.post.sem.getSem.1 = true := by rw [posts]; exact congrArg Prod.fst takes
    simp [State.postAllFrom, high, short, quiet, taken]

/-- The loop, by the number of sleepers. -/
theorem postAllFrom_all {s : State} {ret : Int} (sound : s.panic = none)
    (balanced : s.sem.Balanced) (high : s.sem.val < intMax)
    (short : ret + s.sem.sleeplist.length < intMax) :
    ∃ enough s', PostedAll s s' ∧ ∀ rounds, enough ≤ rounds →
      s.postAllFrom rounds ret = some (ret + s.sem.sleeplist.length + 1, s') := by
  rw [Semaphore.Balanced] at balanced
  induction asleep : s.sem.sleeplist generalizing s ret with
  | nil =>
    rw [asleep, List.length_nil] at balanced short
    obtain ⟨s', all, returns⟩ := postAllFrom_last sound asleep (by omega) high
      (show ret < intMax by omega)
    exact ⟨1, s', all, fun rounds many => by rw [returns rounds many]; simp⟩
  | cons first rest ih =>
    rw [asleep, List.length_cons] at balanced short
    -- one sleeper is marked, and no unit can be taken back yet
    have posts : s.post = ({ s with sem := ⟨s.sem.val + 1, rest⟩ }.note .posted).markUp first := by
      rw [State.post, if_pos (by omega), asleep]
    have counter : s.post.sem = ⟨s.sem.val + 1, rest⟩ := by rw [posts]; rfl
    have quiet : s.post.panic = none := by rw [posts]; exact sound
    have positive : 0 < intMax := by decide
    obtain ⟨enough, s', all, returns⟩ := @ih s.post (ret + 1) quiet
      (by rw [counter]; simp only; omega) (by rw [counter]; simp only; omega)
      (by rw [counter]; simp only; omega) (by rw [counter])
    have marked : ∀ proc, s.post.waits proc =
        if proc = first then (s.waits first).map WaitData.raised else s.waits proc := by
      intro proc
      rw [posts]
      rfl
    refine ⟨enough + 1, s', ⟨all.sound, ?_, fun proc => ?_, ?_⟩, fun rounds many => ?_⟩
    · rw [all.sem, counter, Semaphore.mk.injEq]
      exact ⟨by simp only; omega, rfl⟩
    · rw [all.waits, counter, marked, asleep]
      by_cases here : proc = first
      · subst here
        simp only [if_true, List.mem_cons, true_or]
        split
        · cases s.waits proc <;> rfl
        · rfl
      · simp only [here, if_false, List.mem_cons, false_or]
    · rw [all.history, counter, posts, asleep]
      simp [State.markUp, State.setWait, State.note]
    · obtain ⟨rounds, rfl⟩ : ∃ less, rounds = less + 1 := ⟨rounds - 1, by omega⟩
      have none : s.post.sem.getSem.1 = false := by
        rw [counter, Semaphore.getSem, if_neg (by simp only; omega)]
      have sum : ret + ((rest.length + 1 : Nat) : Int) + 1 = ret + 1 + rest.length + 1 := by omega
      rw [State.postAllFrom, if_pos ⟨high, by omega⟩]
      simp only [quiet, Option.isSome_none, Bool.false_eq_true, if_false, none]
      rw [returns rounds (by omega), List.length_cons, sum]

/-- `post_all_sem` on a counter that is neither `INT_MIN` nor `INT_MAX` marks up and activates the
waiters on the sleep list in their order, returns their number and leaves no surplus. -/
theorem post_all_wakes_everyone (s : State) (sound : s.panic = none) (balanced : s.sem.Balanced)
    (low : intMin < s.sem.val) (high : s.sem.val < intMax) :
    ∃ enough s', PostedAll s s' ∧ ∀ rounds, enough ≤ rounds →
      s.postAllFrom rounds (-1) = some ((s.sem.sleeplist.length : Int), s') := by
  have length : (s.sem.sleeplist.length : Int) = max 0 (-s.sem.val) := balanced
  rw [intMin] at low
  obtain ⟨enough, s', all, returns⟩ := @postAllFrom_all s (-1) sound balanced high (by
    rw [intMax]
    omega)
  refine ⟨enough, s', all, fun rounds many => ?_⟩
  have sum : -1 + (s.sem.sleeplist.length : Int) + 1 = s.sem.sleeplist.length := by omega
  rw [returns rounds many, sum]

/-- Two waiters are woken. -/
theorem post_all_wakes_everyone_two : ∃ enough s', ∀ rounds, enough ≤ rounds →
    (⟨⟨-2, [4, 3]⟩, fun _ => some ⟨true, false, false⟩, none, []⟩ : State).postAllFrom rounds (-1) =
      some (2, s') := by
  obtain ⟨enough, s', -, returns⟩ := post_all_wakes_everyone
    ⟨⟨-2, [4, 3]⟩, fun _ => some ⟨true, false, false⟩, none, []⟩ rfl
    (by simp [Semaphore.Balanced]) (by decide) (by decide)
  exact ⟨enough, s', returns⟩

/-- At `INT_MAX` the counter overflows in `_post_sem`: the call returns in no number of rounds. -/
theorem post_all_overflows : (⟨intMax, []⟩ : Semaphore).Balanced ∧
    ∀ rounds, (State.init intMax).postAllFrom rounds (-1) = none := by
  refine ⟨by simp [Semaphore.Balanced, intMax], fun rounds => ?_⟩
  cases rounds with
  | zero => rfl
  | succ rounds => exact if_neg fun both => absurd both.1 (Int.lt_irrefl _)

end OsLab.Common.SemRun
