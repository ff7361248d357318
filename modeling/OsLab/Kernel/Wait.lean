import OsLab.Common.SemRun
import OsLab.Kernel.Sched

/-!
# Waiting on semaphores

`_wait_sem` and `_post_sem` of `src/common/sem.c` together with the scheduler they call. A call
that has to sleep runs in three sections: under `sem->lock` it puts its `WaitData` on the sleep
list; with that lock still held it waits for the scheduler lock, gives the first lock back and
calls `sched`; and when it runs again it takes `sem->lock` once more. A post that finds a
waiter marks it up, and then activates it under the scheduler lock. The processes that wait are
the ones the CPUs run, and `kill` sets its flag between any two sections.
-/
namespace OsLab.Kernel.Wait

open OsLab.Lib OsLab.Common

/-- A call of `_wait_sem` that did not pass at once. -/
structure WaitData where
  sem : Nat
  /-- The wait may be interrupted. -/
  alertable : Bool
  /-- A post has granted it a unit. -/
  up : Bool
  /-- `sched` was called. -/
  slept : Bool
  deriving Repr, DecidableEq

/-- Why `sem->lock` is held between two sections. -/
inductive Holder where
  /-- A process is on the sleep list and about to take the scheduler lock. -/
  | sleeper (proc : Nat)
  /-- A post is about to activate a process. -/
  | poster (proc : Nat)
  deriving Repr, DecidableEq

/-- What an observer of the calls sees happen. -/
inductive Event where
  /-- A wait found the counter at `count`, took a unit and returned true. -/
  | passed (proc sem : Nat) (alertable : Bool) (count : Int)
  /-- A wait put its `WaitData` on the sleep list. -/
  | enqueued (proc sem : Nat) (alertable : Bool)
  /-- A post marked a waiter up. -/
  | marked (proc sem : Nat)
  /-- A wait that had to sleep returned. -/
  | returned (proc sem : Nat) (alertable result : Bool)
  deriving Repr, DecidableEq

/-- Whose wait an event is about. -/
def Event.proc : Event → Nat
  | .passed proc .. | .enqueued proc .. | .marked proc _ | .returned proc .. => proc

/-- The places where this code panics. -/
inductive PanicSite where
  /-- `_post_sem` found the sleep list empty. -/
  | postEmpty
  /-- `ASSERT(++sem->val <= 0)`. -/
  | withdrawPositive
  /-- The `ASSERT` of `unalertable_wait_sem`. -/
  | unalertableFailed
  deriving Repr, DecidableEq

/-- The scheduler, the semaphores and the calls of `_wait_sem` that have not returned. -/
structure State where
  sched : Sched.State
  sems : Nat → Semaphore
  /-- Who holds the lock of a semaphore between two sections. -/
  locks : Nat → Option Holder
  /-- The `WaitData` of each process. -/
  waits : Nat → Option WaitData
  /-- Set once one of the panics above has happened. -/
  panic : Option PanicSite
  history : List Event

/-- What happens next. -/
inductive Act where
  /-- The process on a CPU calls `_wait_sem`. -/
  | wait (cpu sem : Nat) (alertable : Bool)
  /-- The process on a CPU, which is on a sleep list, calls `sched`. -/
  | sleep (cpu : Nat)
  /-- The process on a CPU comes back from `sched` and leaves `_wait_sem`. -/
  | resume (cpu : Nat)
  /-- `_post_sem` up to the call of `activate_proc`. -/
  | post (sem : Nat)
  /-- `_post_sem` calls `activate_proc`. -/
  | activate (sem : Nat)
  /-- The scheduler does something else. -/
  | other (act : Sched.Act)

namespace State

/-- What the scheduler does besides. Processes are activated by nothing but posts once they were
started, and while a process is in `_wait_sem` only the timer takes its CPU. -/
def Permits (s : State) : Sched.Act → Prop
  | .activate proc => s.sched.state proc = .unused
  | .sched cpu new => s.waits (s.sched.thisproc cpu) = none ∧ (new = .runnable ∨ new = .zombie)
  | _ => True

instance (s : State) (act : Sched.Act) : Decidable (s.Permits act) := by
  cases act <;> unfold Permits <;> infer_instance

/-- Replace a semaphore. -/
def setSem (s : State) (sem : Nat) (new : Semaphore) : State :=
  { s with sems := Function.update s.sems sem new }

/-- Take or give back the lock of a semaphore. -/
def setLock (s : State) (sem : Nat) (holder : Option Holder) : State :=
  { s with locks := Function.update s.locks sem holder }

/-- Replace the `WaitData` of a process. -/
def setWait (s : State) (proc : Nat) (wait : Option WaitData) : State :=
  { s with waits := Function.update s.waits proc wait }

/-- Add an event to the history. -/
def note (s : State) (event : Event) : State := { s with history := event :: s.history }

/-- `_wait_sem` up to `lock_for_sched`. -/
def wait (s : State) (proc sem : Nat) (alertable : Bool) : State :=
  match (s.sems sem).waitSem proc with
  | (true, new) => (s.setSem sem new).note (.passed proc sem alertable (s.sems sem).val)
  | (false, new) => (((s.setSem sem new).setWait proc (some ⟨sem, alertable, false, false⟩)).setLock
      sem (some (.sleeper proc))).note (.enqueued proc sem alertable)

/-- `sched` as `_wait_sem` calls it. -/
def sleep (s : State) (cpu : Nat) (wait : WaitData) : State :=
  let new := if wait.alertable then .sleeping else .deepSleeping
  let proc := s.sched.thisproc cpu
  ({ s with sched := s.sched.simpleSched cpu new }.setWait proc
    (some { wait with slept := true })).setLock wait.sem none

/-- `_wait_sem` returns, and where it was called by `unalertable_wait_sem` the result is
checked. -/
def leave (s : State) (proc : Nat) (wait : WaitData) (result : Bool) : State :=
  let s := (s.setWait proc none).note (.returned proc wait.sem wait.alertable result)
  if wait.alertable || result then s else { s with panic := some .unalertableFailed }

/-- `_wait_sem` after `sched` has returned. -/
def resume (s : State) (proc : Nat) (wait : WaitData) : State :=
  let sem := s.sems wait.sem
  if wait.up then s.leave proc wait true
  else if sem.val + 1 ≤ 0 then (s.setSem wait.sem (sem.unwait proc)).leave proc wait false
  else { s with panic := some .withdrawPositive }

/-- `_post_sem` up to the call of `activate_proc`. -/
def post (s : State) (sem : Nat) : State :=
  let val := (s.sems sem).val + 1
  if val ≤ 0 then
    match (s.sems sem).sleeplist with
    | [] => { s with panic := some .postEmpty }
    | proc :: rest =>
      let raise (wait : WaitData) : WaitData := { wait with up := true }
      (((s.setSem sem ⟨val, rest⟩).setWait proc ((s.waits proc).map raise)).setLock sem
        (some (.poster proc))).note (.marked proc sem)
  else s.setSem sem { s.sems sem with val }

/-- One step with `ncpu` CPUs. -/
def step (ncpu : Nat) (s : State) (act : Act) : Option State :=
  if s.panic.isSome then none
  else match act with
    | .wait cpu sem alertable =>
      let proc := s.sched.thisproc cpu
      if cpu < ncpu ∧ proc ≠ cpu ∧ s.waits proc = none ∧ s.locks sem = none ∧
          SemRun.intMin < (s.sems sem).val then
        some (s.wait proc sem alertable)
      else none
    | .sleep cpu =>
      match s.waits (s.sched.thisproc cpu) with
      | some wait => if cpu < ncpu ∧ wait.slept = false then some (s.sleep cpu wait) else none
      | none => none
    | .resume cpu =>
      match s.waits (s.sched.thisproc cpu) with
      | some wait =>
        if cpu < ncpu ∧ wait.slept = true ∧ s.locks wait.sem = none then
          some (s.resume (s.sched.thisproc cpu) wait)
        else none
      | none => none
    | .post sem =>
      if s.locks sem = none ∧ (s.sems sem).val < intMax then some (s.post sem) else none
    | .activate sem =>
      match s.locks sem with
      | some (.poster proc) =>
        some ({ s with sched := s.sched.activateProc proc false }.setLock sem none)
      | _ => none
    | .other act =>
      if s.Permits act then (s.sched.step ncpu act).map fun sched => { s with sched } else none

/-- After boot, with the semaphores initialised with `vals`. -/
def boot (ncpu : Nat) (vals : Nat → Int) : State where
  sched := .boot ncpu
  sems sem := .initSem (vals sem)
  locks _ := none
  waits _ := none
  panic := none
  history := []

end State

/-- Processes that wait on semaphores, as a machine. -/
def machine (ncpu : Nat) (vals : Nat → Int) : Machine State Act where
  init s := s = .boot ncpu vals
  step := State.step ncpu

/-- The steps in which no process that was killed goes to sleep in an unalertable wait. -/
def AliveAsleep (s : State) : Act → Prop
  | .sleep cpu => ∀ wait ∈ s.waits (s.sched.thisproc cpu), wait.alertable = false →
      (s.sched.procs (s.sched.thisproc cpu)).killed = false
  | _ => True

instance (s : State) (act : Act) : Decidable (AliveAsleep s act) := by
  cases act <;> unfold AliveAsleep <;> infer_instance

/-! ## What the history says -/

/-- The latest event that concerns a process. -/
def latest (proc : Nat) (history : List Event) : Option Event :=
  history.find? fun event => event.proc == proc

/-- Every unalertable wait that returned did so with true, every wait that returned true after it
slept had been marked up by a post, and every other that returned true took a unit from a
positive counter. -/
def Granted : List Event → Prop
  | [] => True
  | .returned proc sem alertable result :: earlier => (alertable = false → result = true) ∧
      (result = true → latest proc earlier = some (.marked proc sem)) ∧ Granted earlier
  | .passed _ _ _ count :: earlier => 0 < count ∧ Granted earlier
  | _ :: earlier => Granted earlier

theorem latest_cons (proc : Nat) (event : Event) (earlier : List Event) :
    latest proc (event :: earlier) = if event.proc = proc then some event
      else latest proc earlier := by
  simp only [latest, List.find?_cons]
  split <;> simp_all

/-- The latest event of a process that is in `_wait_sem`. -/
def WaitData.stage (wait : WaitData) (proc : Nat) : Event :=
  if wait.up then .marked proc wait.sem else .enqueued proc wait.sem wait.alertable

/-! ## The invariant -/

/-- What holds between two sections. -/
structure Inv (ncpu : Nat) (s : State) : Prop where
  scheduled : Sched.Inv ncpu s.sched
  /-- On a sleep list are waits for that semaphore that were not marked up. -/
  listed : ∀ sem proc, proc ∈ (s.sems sem).sleeplist →
    ∃ wait, s.waits proc = some wait ∧ wait.sem = sem ∧ wait.up = false
  nodup : ∀ sem, (s.sems sem).sleeplist.Nodup
  /-- What a post is about to activate was marked up. -/
  pending : ∀ sem proc, s.locks sem = some (.poster proc) →
    ∃ wait, s.waits proc = some wait ∧ wait.sem = sem ∧ wait.up = true
  /-- An unalertable wait sleeps deeply until it is marked up. -/
  deep : ∀ proc wait, s.waits proc = some wait → wait.alertable = false → wait.up = false →
    wait.slept = true → s.sched.state proc = .deepSleeping
  user : ∀ proc wait, s.waits proc = some wait → ncpu ≤ proc
  staged : ∀ proc wait, s.waits proc = some wait → latest proc s.history = some (wait.stage proc)
  honest : Granted s.history
  /-- The `ASSERT` of `unalertable_wait_sem` has not failed. -/
  sound : s.panic ≠ some .unalertableFailed

namespace Inv

variable {ncpu : Nat} {s s' : State} {proc sem cpu : Nat} {data : WaitData}

/-- At the start nobody waits. -/
theorem boot (ncpu : Nat) (vals : Nat → Int) : Inv ncpu (.boot ncpu vals) where
  scheduled := .boot ncpu
  listed := by simp [State.boot, Semaphore.initSem]
  nodup sem := .nil
  pending := by simp [State.boot]
  deep := by simp [State.boot]
  user := by simp [State.boot]
  staged := by simp [State.boot]
  honest := trivial
  sound := by simp [State.boot]

/-- A counter changes, and waiters leave the list. -/
theorem shrink (inv : Inv ncpu s) {new : Semaphore}
    (fewer : new.sleeplist.Sublist (s.sems sem).sleeplist) : Inv ncpu (s.setSem sem new) := by
  have lists : ∀ other, ((s.setSem sem new).sems other).sleeplist.Sublist
      (s.sems other).sleeplist := by
    intro other
    by_cases same : other = sem
    · subst same
      simpa [State.setSem] using fewer
    · simp [State.setSem, same]
  exact ⟨inv.scheduled, fun other proc member => inv.listed other proc ((lists other).subset member),
    fun other => (inv.nodup other).sublist (lists other), inv.pending, inv.deep, inv.user,
    inv.staged, inv.honest, inv.sound⟩

/-- Something happens to a process that is not in `_wait_sem`. -/
theorem note (inv : Inv ncpu s) (event : Event) (outside : s.waits event.proc = none)
    (honest : Granted (event :: s.history)) : Inv ncpu (s.note event) := by
  refine ⟨inv.scheduled, inv.listed, inv.nodup, inv.pending, inv.deep, inv.user,
    fun proc wait waits => ?_, honest, inv.sound⟩
  have apart : event.proc ≠ proc := by
    rintro rfl
    exact absurd (outside.symm.trans waits) (by simp)
  exact (latest_cons proc event s.history).trans ((if_neg apart).trans (inv.staged proc wait waits))

/-- A wait goes to the end of the sleep list. -/
theorem enqueue (inv : Inv ncpu s) (alertable : Bool) (val : Int) (fresh : s.waits proc = none)
    (user : ncpu ≤ proc) :
    Inv ncpu ((((s.setSem sem ⟨val, (s.sems sem).sleeplist ++ [proc]⟩).setWait proc
      (some ⟨sem, alertable, false, false⟩)).setLock sem (some (.sleeper proc))).note
        (.enqueued proc sem alertable)) := by
  have unlisted : ∀ other, proc ∉ (s.sems other).sleeplist := by
    intro other member
    obtain ⟨wait, waits, -⟩ := inv.listed other proc member
    rw [fresh] at waits
    contradiction
  have kept : ∀ other wait, s.waits other = some wait →
      Function.update s.waits proc (some ⟨sem, alertable, false, false⟩) other = some wait := by
    intro other wait waits
    rw [Function.update_of_ne _, waits]
    rintro rfl
    rw [fresh] at waits
    contradiction
  refine ⟨inv.scheduled, fun other one member => ?_, fun other => ?_, fun other one held => ?_,
    fun one wait waits unalertable down slept => ?_, fun one wait waits => ?_,
    fun one wait waits => ?_, inv.honest, inv.sound⟩
  · simp only [State.note, State.setLock, State.setWait, State.setSem] at member ⊢
    by_cases same : other = sem
    · subst same
      simp only [Function.update_self, List.mem_append, List.mem_singleton] at member
      obtain member | rfl := member
      · obtain ⟨wait, waits, rest⟩ := inv.listed other one member
        exact ⟨wait, kept one wait waits, rest⟩
      · exact ⟨_, Function.update_self .., rfl, rfl⟩
    · rw [Function.update_of_ne same] at member
      obtain ⟨wait, waits, rest⟩ := inv.listed other one member
      exact ⟨wait, kept one wait waits, rest⟩
  · simp only [State.note, State.setLock, State.setWait, State.setSem]
    by_cases same : other = sem
    · subst same
      rw [Function.update_self]
      exact (inv.nodup other).append (List.nodup_singleton proc) (by simpa using unlisted other)
    · rw [Function.update_of_ne same]
      exact inv.nodup other
  · simp only [State.note, State.setLock, State.setWait, Function.update_apply] at held
    split at held
    · simp at held
    · obtain ⟨wait, waits, rest⟩ := inv.pending other one held
      exact ⟨wait, kept one wait waits, rest⟩
  · simp only [State.note, State.setLock, State.setWait, Function.update_apply] at waits
    split at waits
    · obtain rfl := Option.some.inj waits
      contradiction
    · exact inv.deep one wait waits unalertable down slept
  · simp only [State.note, State.setLock, State.setWait, Function.update_apply] at waits
    split at waits
    · rename_i same
      exact same ▸ user
    · exact inv.user one wait waits
  · simp only [State.note, State.setLock, State.setWait, Function.update_apply] at waits ⊢
    rw [latest_cons]
    split at waits
    · rename_i same
      subst same
      obtain rfl := Option.some.inj waits
      simp [Event.proc, WaitData.stage]
    · rename_i apart
      exact (if_neg (Ne.symm apart)).trans (inv.staged one wait waits)

/-- A wait takes a unit or goes to the end of the sleep list. -/
theorem wait (inv : Inv ncpu s) (alertable : Bool) (fresh : s.waits proc = none)
    (user : ncpu ≤ proc) : Inv ncpu (s.wait proc sem alertable) := by
  unfold State.wait Semaphore.waitSem
  by_cases passes : 0 ≤ (s.sems sem).val - 1
  · simp only [passes, if_true]
    have taken : Inv ncpu (s.setSem sem { s.sems sem with val := (s.sems sem).val - 1 }) :=
      inv.shrink (List.Sublist.refl _)
    have positive : 0 < (s.sems sem).val := by omega
    exact taken.note (.passed proc sem alertable _) fresh ⟨positive, inv.honest⟩
  · simp only [passes, if_false]
    exact inv.enqueue alertable _ fresh user

/-- `_wait_sem` returns. -/
theorem leave (inv : Inv ncpu s) {result : Bool} (waits : s.waits proc = some data)
    (unlisted : ∀ other, proc ∉ (s.sems other).sleeplist) (free : s.locks data.sem = none)
    (granted : data.alertable = false → result = true) (raised : result = true → data.up = true) :
    Inv ncpu (s.leave proc data result) := by
  have kept : ∀ other wait, other ≠ proc → s.waits other = some wait →
      Function.update s.waits proc none other = some wait := by
    intro other wait apart waits
    rw [Function.update_of_ne apart, waits]
  have gone : Inv ncpu (s.setWait proc none) := by
    refine ⟨inv.scheduled, fun other one member => ?_, inv.nodup, fun other one held => ?_,
      fun one wait waits => ?_, fun one wait waits => ?_, fun one wait waits => ?_, inv.honest,
      inv.sound⟩
    · obtain ⟨wait, waits, rest⟩ := inv.listed other one member
      refine ⟨wait, kept one wait ?_ waits, rest⟩
      rintro rfl
      exact unlisted other member
    · obtain ⟨wait, waiting, same, up⟩ := inv.pending other one held
      refine ⟨wait, kept one wait ?_ waiting, same, up⟩
      rintro rfl
      -- a post that is about to activate this process holds the lock
      obtain rfl := Option.some.inj (waiting.symm.trans waits)
      rw [same] at free
      exact absurd (free.symm.trans held) (by simp)
    · simp only [State.setWait, Function.update_apply] at waits
      split at waits
      · contradiction
      · exact inv.deep one wait waits
    · simp only [State.setWait, Function.update_apply] at waits
      split at waits
      · contradiction
      · exact inv.user one wait waits
    · simp only [State.setWait, Function.update_apply] at waits
      split at waits
      · contradiction
      · exact inv.staged one wait waits
  have checked : (data.alertable || result) = true := by
    cases alertable : data.alertable with
    | true => rfl
    | false => exact granted alertable
  unfold State.leave
  rw [if_pos checked]
  refine gone.note _ (Function.update_self ..) ⟨granted, fun yes => ?_, inv.honest⟩
  refine (inv.staged proc data waits).trans ?_
  rw [WaitData.stage, if_pos (raised yes)]

/-- `_wait_sem` goes on after `sched`. -/
theorem resume (inv : Inv ncpu s) (waits : s.waits proc = some data) (slept : data.slept = true)
    (free : s.locks data.sem = none) (running : s.sched.state proc = .running) :
    Inv ncpu (s.resume proc data) := by
  have elsewhere : ∀ other, proc ∈ (s.sems other).sleeplist → other = data.sem ∧
      data.up = false := by
    intro other member
    obtain ⟨wait, waiting, rfl, down⟩ := inv.listed other proc member
    obtain rfl := Option.some.inj (waiting.symm.trans waits)
    exact ⟨rfl, down⟩
  unfold State.resume
  dsimp only
  by_cases up : data.up = true
  · rw [if_pos up]
    refine inv.leave waits (fun other member => ?_) free (fun _ => rfl) fun _ => up
    rw [(elsewhere other member).2] at up
    contradiction
  · rw [if_neg up]
    have down : data.up = false := by simpa using up
    split
    · refine (inv.shrink List.erase_sublist).leave waits (fun other member => ?_) free
        (fun unalertable => ?_) (by simp)
      · simp only [State.setSem, Function.update_apply] at member
        split at member
        · exact (inv.nodup data.sem).not_mem_erase member
        · rename_i apart
          exact apart (elsewhere other member).1
      · -- it would still be asleep
        rw [inv.deep proc data waits unalertable down slept] at running
        contradiction
    · exact { inv with sound := by simp }

/-- A waiter that has left the sleep list is marked up. -/
theorem mark (inv : Inv ncpu s) (waits : s.waits proc = some data)
    (unlisted : ∀ other, proc ∉ (s.sems other).sleeplist) :
    Inv ncpu (((s.setWait proc (some { data with up := true })).setLock data.sem
      (some (.poster proc))).note (.marked proc data.sem)) := by
  have kept : ∀ other wait, other ≠ proc → s.waits other = some wait →
      Function.update s.waits proc (some { data with up := true }) other = some wait := by
    intro other wait apart waits
    rw [Function.update_of_ne apart, waits]
  refine ⟨inv.scheduled, fun other one member => ?_, inv.nodup, fun other one held => ?_,
    fun one wait waiting unalertable down => ?_, fun one wait waiting => ?_,
    fun one wait waiting => ?_, inv.honest, inv.sound⟩
  · obtain ⟨wait, waiting, rest⟩ := inv.listed other one member
    refine ⟨wait, kept one wait ?_ waiting, rest⟩
    rintro rfl
    exact unlisted other member
  · simp only [State.note, State.setLock, State.setWait, Function.update_apply] at held
    split at held
    · rename_i same
      obtain rfl := Holder.poster.inj (Option.some.inj held)
      exact ⟨_, Function.update_self .., same.symm, rfl⟩
    · rename_i apart
      obtain ⟨wait, waiting, same, up⟩ := inv.pending other one held
      refine ⟨wait, kept one wait ?_ waiting, same, up⟩
      rintro rfl
      obtain rfl := Option.some.inj (waiting.symm.trans waits)
      exact apart same.symm
  · simp only [State.note, State.setLock, State.setWait, Function.update_apply] at waiting
    split at waiting
    · obtain rfl := Option.some.inj waiting
      contradiction
    · exact inv.deep one wait waiting unalertable down
  · simp only [State.note, State.setLock, State.setWait, Function.update_apply] at waiting
    split at waiting
    · rename_i same
      exact same ▸ inv.user proc data waits
    · exact inv.user one wait waiting
  · simp only [State.note, State.setLock, State.setWait, Function.update_apply] at waiting ⊢
    rw [latest_cons]
    split at waiting
    · rename_i same
      subst same
      obtain rfl := Option.some.inj waiting
      simp [Event.proc, WaitData.stage]
    · rename_i apart
      exact (if_neg (Ne.symm apart)).trans (inv.staged one wait waiting)

/-- A post leaves its unit or marks the first waiter up. -/
theorem post (inv : Inv ncpu s) : Inv ncpu (s.post sem) := by
  unfold State.post
  dsimp only
  split
  · split
    · exact { inv with sound := by simp }
    · rename_i first rest list
      obtain ⟨data, waits, rfl, -⟩ := inv.listed sem first (by rw [list]; exact List.mem_cons_self)
      have popped : Inv ncpu (s.setSem data.sem ⟨(s.sems data.sem).val + 1, rest⟩) :=
        inv.shrink (by rw [list]; exact List.sublist_cons_self first rest)
      rw [waits]
      refine popped.mark waits fun other member => ?_
      simp only [State.setSem, Function.update_apply] at member
      split at member
      · have apart := inv.nodup data.sem
        rw [list] at apart
        exact (List.nodup_cons.mp apart).1 member
      · rename_i different
        obtain ⟨wait, waiting, same, -⟩ := inv.listed other first member
        obtain rfl := Option.some.inj (waiting.symm.trans waits)
        exact different same.symm
  · exact inv.shrink (List.Sublist.refl _)

/-- A process on a sleep list calls `sched`. -/
theorem sleep (inv : Inv ncpu s) (below : cpu < ncpu)
    (waits : s.waits (s.sched.thisproc cpu) = some data)
    (alive : data.alertable = false → (s.sched.procs (s.sched.thisproc cpu)).killed = false) :
    Inv ncpu (s.sleep cpu data) := by
  have user := inv.user _ _ waits
  have idles : ∀ new, s.sched.thisproc cpu = cpu → new = Sched.ProcState.runnable := by
    intro new idle
    omega
  have kept : ∀ other wait, s.waits other = some wait →
      ∃ after, (s.sleep cpu data).waits other = some after ∧ after.sem = wait.sem ∧
        after.up = wait.up ∧ after.stage other = wait.stage other := by
    intro other wait waiting
    simp only [State.sleep, State.setLock, State.setWait, Function.update_apply]
    split
    · rename_i same
      rw [same, waits] at waiting
      obtain rfl := Option.some.inj waiting
      exact ⟨_, rfl, rfl, rfl, rfl⟩
    · exact ⟨wait, waiting, rfl, rfl, rfl⟩
  refine ⟨inv.scheduled.simpleSched below (idles _), fun other one member => ?_, inv.nodup,
    fun other one held => ?_, fun one wait waiting unalertable down slept => ?_,
    fun one wait waiting => ?_, fun one wait waiting => ?_, inv.honest, inv.sound⟩
  · obtain ⟨wait, waiting, sem, down⟩ := inv.listed other one member
    obtain ⟨after, now, sameSem, sameUp, -⟩ := kept one wait waiting
    exact ⟨after, now, sameSem.trans sem, sameUp.trans down⟩
  · simp only [State.sleep, State.setLock, State.setWait, Function.update_apply] at held
    split at held
    · contradiction
    · obtain ⟨wait, waiting, sem, up⟩ := inv.pending other one held
      obtain ⟨after, now, sameSem, sameUp, -⟩ := kept one wait waiting
      exact ⟨after, now, sameSem.trans sem, sameUp.trans up⟩
  · simp only [State.sleep, State.setLock, State.setWait, Function.update_apply] at waiting ⊢
    split at waiting
    · rename_i same
      obtain rfl := Option.some.inj waiting
      simp only at unalertable
      rw [same, unalertable]
      exact inv.scheduled.simpleSched_this below (idles _) (alive unalertable) (by simp)
    · have asleep := inv.deep one wait waiting unalertable down slept
      rw [inv.scheduled.simpleSched_asleep below (idles _) (by rw [asleep]; rfl), asleep]
  · simp only [State.sleep, State.setLock, State.setWait, Function.update_apply] at waiting
    split at waiting
    · rename_i same
      exact same ▸ user
    · exact inv.user one wait waiting
  · simp only [State.sleep, State.setLock, State.setWait, Function.update_apply] at waiting
    split at waiting
    · rename_i same
      subst same
      obtain rfl := Option.some.inj waiting
      exact inv.staged _ data waits
    · exact inv.staged one wait waiting

/-- The scheduler goes on, and wakes no deep sleeper that was not marked up. -/
theorem reschedule (inv : Inv ncpu s) {sched : Sched.State} (consistent : Sched.Inv ncpu sched)
    (spares : ∀ proc wait, s.waits proc = some wait → wait.up = false →
      s.sched.state proc = .deepSleeping → sched.state proc = .deepSleeping) :
    Inv ncpu { s with sched } := by
  refine { inv with scheduled := consistent, deep := ?_ }
  intro proc wait waits unalertable down slept
  exact spares proc wait waits down (inv.deep proc wait waits unalertable down slept)

/-- A lock is given back. -/
theorem unlock (inv : Inv ncpu s) : Inv ncpu (s.setLock sem none) := by
  refine { inv with pending := fun other proc held => ?_ }
  simp only [State.setLock, Function.update_apply] at held
  split at held
  · contradiction
  · exact inv.pending other proc held

/-- Every step in which nobody killed goes to sleep unalertably keeps the invariant. -/
theorem step {act : Act} (inv : Inv ncpu s) (alive : AliveAsleep s act)
    (taken : s.step ncpu act = some s') : Inv ncpu s' := by
  unfold State.step at taken
  split at taken
  · contradiction
  cases act with
  | wait cpu sem alertable =>
    simp only [Option.ite_none_right_eq_some, Option.some.injEq] at taken
    obtain ⟨⟨below, busy, fresh, -, -⟩, rfl⟩ := taken
    exact inv.wait alertable fresh (inv.scheduled.this_user below busy)
  | sleep cpu =>
    cases waits : s.waits (s.sched.thisproc cpu) with
    | none => simp [waits] at taken
    | some data =>
      simp only [waits, Option.ite_none_right_eq_some, Option.some.injEq] at taken
      obtain ⟨⟨below, -⟩, rfl⟩ := taken
      exact inv.sleep below waits (alive data waits)
  | resume cpu =>
    cases waits : s.waits (s.sched.thisproc cpu) with
    | none => simp [waits] at taken
    | some data =>
      simp only [waits, Option.ite_none_right_eq_some, Option.some.injEq] at taken
      obtain ⟨⟨below, slept, free⟩, rfl⟩ := taken
      exact inv.resume waits slept free (inv.scheduled.running cpu below)
  | post sem =>
    simp only [Option.ite_none_right_eq_some, Option.some.injEq] at taken
    obtain ⟨-, rfl⟩ := taken
    exact inv.post
  | activate sem =>
    dsimp only at taken
    split at taken
    · rename_i proc held
      obtain rfl := Option.some.inj taken
      obtain ⟨raised, waiting, -, up⟩ := inv.pending sem proc held
      refine (inv.reschedule (inv.scheduled.activateProc false) ?_).unlock
      intro other wait waits down deep
      have apart : other ≠ proc := by
        rintro rfl
        obtain rfl := Option.some.inj (waiting.symm.trans waits)
        rw [up] at down
        contradiction
      exact (Sched.activateProc_other apart).trans deep
    · contradiction
  | other act =>
    simp only [Option.ite_none_right_eq_some] at taken
    obtain ⟨permitted, done⟩ := taken
    obtain ⟨sched, moved, rfl⟩ := Option.map_eq_some_iff.mp done
    refine inv.reschedule (inv.scheduled.step moved) fun proc wait _ _ deep => ?_
    refine inv.scheduled.step_deepSleeping moved deep ?_
    rintro rfl
    -- what is started was not in use
    simp only [State.Permits] at permitted
    rw [deep] at permitted
    contradiction

end Inv

/-- Where nobody goes to sleep in an unalertable wait after it was killed, unalertable waits
return true, and only after they were granted a unit: in every run the `ASSERT` of
`unalertable_wait_sem` has not failed. -/
theorem unalertable_wait_granted (ncpu : Nat) (vals : Nat → Int) (s : State)
    (reached : (machine ncpu vals).Reach AliveAsleep s) :
    Granted s.history ∧ s.panic ≠ some .unalertableFailed := by
  have inv : Inv ncpu s := by
    refine reached.invariant ?_ fun _ _ _ _ inv alive taken => inv.step alive taken
    rintro s rfl
    exact .boot ncpu vals
  exact ⟨inv.honest, inv.sound⟩

/-- Two processes are started on two CPUs, and the one on the first CPU takes a sleep lock. -/
def lockTaken : List Act :=
  [.other (.create 2 0), .other (.activate 2), .other (.create 3 0), .other (.activate 3),
    .other (.tick 0), .other (.tick 1), .wait 0 0 false]

/-- The other process is killed while it sleeps, and then the lock is released. -/
def killedAsleep : List Act :=
  lockTaken ++ [.wait 1 0 false, .sleep 1, .other (.kill 2), .other (.alert 2), .post 0,
    .activate 0, .other (.tick 1), .resume 1]

/-- In that run it gets the lock. -/
theorem unalertable_wait_granted_killedAsleep :
    ∃ s, (machine 2 fun _ => 1).Reach AliveAsleep s ∧ s.history = [.returned 2 0 false true,
      .marked 2 0, .enqueued 2 0 false, .passed 3 0 false 1] ∧ s.panic ≠ some .unalertableFailed := by
  have shown : ((machine 2 fun _ => 1).exec AliveAsleep (.boot 2 fun _ => 1) killedAsleep).map
      (·.history) = some [.returned 2 0 false true, .marked 2 0, .enqueued 2 0 false,
        .passed 3 0 false 1] := by
    decide +kernel
  obtain ⟨s, reached, observed⟩ := Machine.Reach.exec_map rfl shown
  exact ⟨s, reached, observed, (unalertable_wait_granted 2 _ s reached).2⟩

/-- The other process is killed before it goes to sleep: `sched` returns at once. -/
def killedBefore : List Act :=
  lockTaken ++ [.other (.kill 2), .wait 1 0 false, .sleep 1, .resume 1]

/-- In that run its unalertable wait returns false while the lock is held, and the `ASSERT`
fails. -/
theorem unalertable_wait_interrupted :
    ∃ s, (machine 2 fun _ => 1).Reach Machine.Any s ∧ s.history = [.returned 2 0 false false,
      .enqueued 2 0 false, .passed 3 0 false 1] ∧ ¬ Granted s.history ∧
        s.panic = some .unalertableFailed := by
  have shown : ((machine 2 fun _ => 1).exec Machine.Any (.boot 2 fun _ => 1) killedBefore).map
      (fun s => (s.history, s.panic)) = some ([.returned 2 0 false false, .enqueued 2 0 false,
        .passed 3 0 false 1], some .unalertableFailed) := by
    decide +kernel
  obtain ⟨s, reached, observed⟩ := Machine.Reach.exec_map rfl shown
  obtain ⟨history, panic⟩ := Prod.mk.inj observed
  refine ⟨s, reached, history, ?_, panic⟩
  rw [history]
  simp [Granted]

end OsLab.Kernel.Wait
