import OsLab.Lib.Transition
import OsLab.Common.Sem
import Mathlib.Logic.Function.Iterate

/-!
# The process tree

`src/kernel/proc.c` and `create_container` of `src/kernel/container.c`: who is whose child, and
how `exit` and `wait` find each other. A section under `plock` is one step. `exit` takes the
scheduler lock before it gives `plock` back for the last time, and the sections of `wait` and
`exit` that look for zombies hold both; so its last section ends, for them, when the process is a
zombie. In between `plock` counts as held, while sections under the lock of a semaphore go on.

Processes are numbers that are never used twice, and `root_proc` is the first. Waiting for
`childexit` may be interrupted at any time.
-/
namespace OsLab.Kernel.ProcTree

open OsLab.Lib OsLab.Common

/-- `root_proc`. -/
abbrev rootProc : Nat := 0

/-- How far a process has come, and which call it is in. -/
inductive Stage where
  /-- `create_proc` has not returned it yet. -/
  | unborn
  /-- `create_proc` has returned it. -/
  | created
  /-- `fork` has created it, and has put it in the list of its parent or not yet. -/
  | forked (inserted : Bool)
  /-- `create_container` has created it, and has called `set_parent_to_this` or not yet. -/
  | founder (container : Nat) (inserted : Bool)
  /-- It was started, and is in none of the calls below. -/
  | ready
  /-- In `fork` or `create_container`, with the process created there. -/
  | creating (child : Nat)
  /-- In `wait`, before `wait_sem`. -/
  | waiting
  /-- In `wait_sem`, asleep; a post may have granted it a unit. -/
  | asleep (up : Bool)
  /-- In `wait`, after `wait_sem` has returned true. -/
  | granted
  /-- In `exit`, after its children were handed over. -/
  | exiting
  /-- In `exit`, after its parent was notified. -/
  | posted
  | zombie
  /-- `wait` has returned it. -/
  | reaped
  deriving Repr, DecidableEq

/-- What these functions use of `struct proc`. -/
structure Proc where
  stage : Stage
  parent : Option Nat
  /-- `children`, from `children.next` on. -/
  children : List Nat
  container : Nat
  exitcode : Int
  childexit : Semaphore
  deriving Repr, DecidableEq

/-- After `init_proc`. -/
def Proc.fresh : Proc := ⟨.created, none, [], 0, 0, .initSem 0⟩

/-- What `fork` makes of a fresh process before anybody else knows of it. -/
def Proc.forkedBy (this container : Nat) : Proc :=
  { fresh with stage := .forked false, parent := some this, container := container }

/-- The root process of a container that is being created. -/
def Proc.founderOf (container : Nat) : Proc := { fresh with stage := .founder container false }

/-- The places where this code panics. -/
inductive PanicSite where
  /-- `ASSERT(proc->parent==NULL)` of `set_parent_to_this`. -/
  | hasParent
  /-- The root process of a container calls `exit`. -/
  | rootExits
  /-- `ASSERT(childproc->parent==this)` of `exit`. -/
  | exitChild
  /-- `ASSERT(childproc->parent==this)` of `wait`. -/
  | waitChild
  /-- `_post_sem` found the sleep list empty. -/
  | postEmpty
  /-- `ASSERT(++sem->val <= 0)` of `_wait_sem`. -/
  | withdrawPositive
  deriving Repr, DecidableEq

/-- What an observer of `exit` and `wait` sees happen. -/
inductive Event where
  /-- `exit` was called. -/
  | exited (proc : Nat) (code : Int)
  /-- `exit` notified a process. -/
  | notified (proc target : Nat)
  /-- `wait` returned a child and its exit code. -/
  | reaped (proc child : Nat) (code : Int)
  /-- `wait` returned -1, there being no child. -/
  | childless (proc : Nat)
  /-- `wait` returned -1, `wait_sem` having returned false. -/
  | interrupted (proc : Nat)
  /-- `wait` returned -1, there being no zombie among the children. -/
  | zombieless (proc : Nat)
  deriving Repr, DecidableEq

/-- The processes and the containers. -/
structure State where
  procs : Nat → Proc
  /-- `rootproc` of every container. -/
  rootproc : Nat → Nat
  numContainers : Nat
  /-- Who holds `plock` between two steps. -/
  plock : Option Nat
  panic : Option PanicSite
  history : List Event

/-- What happens next. -/
inductive Act where
  /-- `create_proc`, or a `fork` that cannot copy the memory. -/
  | create (proc : Nat)
  | setContainer (this proc : Nat)
  | setParent (this proc : Nat)
  /-- `start_proc`. -/
  | start (proc : Nat)
  /-- `fork` creates the child. -/
  | forkCreate (this child : Nat)
  /-- `fork` puts the child into the list. -/
  | forkInsert (this : Nat)
  /-- `fork` starts the child. -/
  | forkStart (this : Nat)
  /-- `create_container` creates the container and its root process. -/
  | containerCreate (this child : Nat)
  /-- `create_container` calls `set_parent_to_this`. -/
  | containerInsert (this : Nat)
  /-- `create_container` starts the root process. -/
  | containerStart (this : Nat)
  /-- `exit` hands the children over. -/
  | exit (this : Nat) (code : Int)
  /-- `exit` notifies the parent. -/
  | exitNotify (this : Nat)
  /-- `exit` calls `sched`. -/
  | exitZombie (this : Nat)
  /-- `wait` looks whether there is a child. -/
  | wait (this : Nat)
  /-- `wait` calls `wait_sem`. -/
  | waitSem (this : Nat)
  /-- `wait_sem` goes on after it slept. -/
  | resume (this : Nat)
  /-- `wait` looks for a zombie. -/
  | reap (this : Nat)

namespace State

/-- Change a process. -/
def modify (s : State) (proc : Nat) (change : Proc → Proc) : State :=
  { s with procs := Function.update s.procs proc (change (s.procs proc)) }

/-- Change the stage of a process. -/
def enter (s : State) (proc : Nat) (stage : Stage) : State := s.modify proc ({ · with stage })

/-- Add an event to the history. -/
def note (s : State) (event : Event) : State := { s with history := event :: s.history }

/-- The kernel panics. -/
def fail (s : State) (site : PanicSite) : State := { s with panic := some site }

/-- The stage of a process. -/
def stage (s : State) (proc : Nat) : Stage := (s.procs proc).stage

/-- Enter a process as a child. -/
def adopt (s : State) (this child : Nat) : State :=
  (s.modify child ({ · with parent := some this })).modify this
    fun p => { p with children := child :: p.children }

/-- `set_parent_to_this`. -/
def setParentToThis (s : State) (this proc : Nat) : State :=
  if (s.procs proc).parent = none then s.adopt this proc else s.fail .hasParent

/-- `start_proc`. -/
def startProc (s : State) (proc : Nat) : State :=
  let s := if (s.procs proc).parent = none then s.adopt rootProc proc else s
  s.enter proc .ready

/-- `post_sem(&target->childexit)`. -/
def postChildexit (s : State) (target : Nat) : State :=
  let sem := (s.procs target).childexit
  if sem.val + 1 ≤ 0 then
    match sem.sleeplist with
    | [] => s.fail .postEmpty
    | proc :: rest =>
      (s.modify target ({ · with childexit := ⟨sem.val + 1, rest⟩ })).enter proc (.asleep true)
  else s.modify target ({ · with childexit := { sem with val := sem.val + 1 } })

/-- How many children are zombies. -/
def zombies (s : State) (this : Nat) : Nat :=
  (s.procs this).children.countP fun child => decide (s.stage child = .zombie)

/-- The children of `this` get a new parent and go to the root process of its container, which is
notified of those that are zombies. -/
def handOver (s : State) (this : Nat) : State :=
  let children := (s.procs this).children
  let times := s.zombies this
  let root := s.rootproc (s.procs this).container
  let reparent (proc : Nat) : Proc :=
    if proc ∈ children then { s.procs proc with parent := some rootProc } else s.procs proc
  let s := { s with procs := reparent }
  let s := s.modify root fun p => { p with children := children ++ p.children }
  let s := s.modify this ({ · with children := [] })
  (·.postChildexit root)^[times] s

/-- The first section of `exit`. -/
def exit (s : State) (this : Nat) (code : Int) : State :=
  if this = s.rootproc (s.procs this).container ∨ this = rootProc then s.fail .rootExits
  else if (s.procs this).children.any fun child => (s.procs child).parent ≠ some this then
    s.fail .exitChild
  else
    let s := (s.modify this ({ · with exitcode := code })).note (.exited this code)
    let s := if (s.procs this).children = [] then s else s.handOver this
    s.enter this .exiting

/-- The last section of `exit` up to the call of `sched`. -/
def exitNotify (s : State) (this target : Nat) : State :=
  let s := (s.postChildexit target).note (.notified this target)
  { s.enter this .posted with plock := some this }

/-- `wait_sem(&this->childexit)` up to the call of `sched`. -/
def waitSem (s : State) (this : Nat) : State :=
  match (s.procs this).childexit.waitSem this with
  | (true, sem) => (s.modify this ({ · with childexit := sem })).enter this .granted
  | (false, sem) => (s.modify this ({ · with childexit := sem })).enter this (.asleep false)

/-- `wait_sem` after `sched` has returned. -/
def resume (s : State) (this : Nat) (up : Bool) : State :=
  let sem := (s.procs this).childexit
  if up then s.enter this .granted
  else if sem.val + 1 ≤ 0 then
    ((s.modify this ({ · with childexit := sem.unwait this })).enter this .ready).note
      (.interrupted this)
  else s.fail .withdrawPositive

/-- The loop of `wait` over the children. -/
def findZombie (s : State) (this : Nat) : List Nat → Except PanicSite (Option Nat)
  | [] => .ok none
  | child :: rest =>
    if (s.procs child).parent ≠ some this then .error .waitChild
    else if s.stage child = .zombie then .ok (some child)
    else s.findZombie this rest

/-- The last section of `wait`. -/
def reap (s : State) (this : Nat) : State :=
  match s.findZombie this (s.procs this).children with
  | .error site => s.fail site
  | .ok none => (s.enter this .ready).note (.zombieless this)
  | .ok (some child) =>
    (((s.modify this fun p => { p with children := p.children.erase child }).enter child
      .reaped).enter this .ready).note (.reaped this child (s.procs child).exitcode)

/-- One step. -/
def step (s : State) (act : Act) : Option State :=
  if s.panic.isSome then none
  else match act with
    | .create proc =>
      if s.plock = none ∧ s.stage proc = .unborn then some (s.modify proc fun _ => .fresh) else none
    | .setContainer this proc =>
      if s.stage this = .ready ∧ s.stage proc = .created then
        some (s.modify proc ({ · with container := (s.procs this).container }))
      else none
    | .setParent this proc =>
      if s.plock = none ∧ s.stage this = .ready ∧ s.stage proc = .created then
        some (s.setParentToThis this proc)
      else none
    | .start proc =>
      if s.plock = none ∧ s.stage proc = .created then some (s.startProc proc) else none
    | .forkCreate this child =>
      if s.plock = none ∧ s.stage this = .ready ∧ s.stage child = .unborn then
        let new := Proc.forkedBy this (s.procs this).container
        some ((s.modify child fun _ => new).enter this (.creating child))
      else none
    | .forkInsert this =>
      match s.stage this with
      | .creating child =>
        if s.plock = none ∧ s.stage child = .forked false then
          some ((s.modify this fun p => { p with children := child :: p.children }).enter child
            (.forked true))
        else none
      | _ => none
    | .forkStart this =>
      match s.stage this with
      | .creating child =>
        if s.plock = none ∧ s.stage child = .forked true then
          some ((s.startProc child).enter this .ready)
        else none
      | _ => none
    | .containerCreate this child =>
      if s.plock = none ∧ s.stage this = .ready ∧ s.stage child = .unborn then
        let container := s.numContainers
        let s := { s with rootproc := Function.update s.rootproc container child,
                          numContainers := s.numContainers + 1 }
        some ((s.modify child fun _ => .founderOf container).enter this (.creating child))
      else none
    | .containerInsert this =>
      match s.stage this with
      | .creating child =>
        match s.stage child with
        | .founder container false =>
          if s.plock = none then
            some ((s.setParentToThis this child).modify child
              ({ · with container, stage := .founder container true }))
          else none
        | _ => none
      | _ => none
    | .containerStart this =>
      match s.stage this with
      | .creating child =>
        match s.stage child with
        | .founder _ true =>
          if s.plock = none then some ((s.startProc child).enter this .ready) else none
        | _ => none
      | _ => none
    | .exit this code =>
      if s.plock = none ∧ s.stage this = .ready then some (s.exit this code) else none
    | .exitNotify this =>
      match (s.procs this).parent with
      | some target =>
        if s.plock = none ∧ s.stage this = .exiting then some (s.exitNotify this target) else none
      | none => none
    | .exitZombie this =>
      if s.plock = some this ∧ s.stage this = .posted then
        some { s.enter this .zombie with plock := none }
      else none
    | .wait this =>
      if s.plock = none ∧ s.stage this = .ready then
        if (s.procs this).children = [] then some (s.note (.childless this))
        else some (s.enter this .waiting)
      else none
    | .waitSem this => if s.stage this = .waiting then some (s.waitSem this) else none
    | .resume this =>
      match s.stage this with
      | .asleep up => some (s.resume this up)
      | _ => none
    | .reap this =>
      if s.plock = none ∧ s.stage this = .granted then some (s.reap this) else none

/-- After `define_init(root_proc)`. -/
def boot : State where
  procs proc := if proc = rootProc then { Proc.fresh with stage := .ready, parent := some rootProc }
    else { Proc.fresh with stage := .unborn }
  rootproc _ := rootProc
  numContainers := 1
  plock := none
  panic := none
  history := []

end State

/-! ## Parents and children -/

/-- The process was started and `wait` has not returned it. -/
def Stage.started : Stage → Bool
  | .unborn | .created | .forked _ | .founder .. | .reaped => false
  | _ => true

section Updates

variable (s : State) (proc other : Nat)

@[simp] theorem modify_procs (change : Proc → Proc) : (s.modify proc change).procs other =
    if other = proc then change (s.procs proc) else s.procs other := by
  simp only [State.modify, Function.update_apply]

@[simp] theorem enter_procs (stage : Stage) : (s.enter proc stage).procs other =
    if other = proc then { s.procs proc with stage } else s.procs other := modify_procs ..

@[simp] theorem note_procs (event : Event) : (s.note event).procs = s.procs := rfl

@[simp] theorem adopt_stage (child : Nat) : (s.adopt proc child).stage other = s.stage other := by
  simp only [State.adopt, State.stage, modify_procs]
  split
  · split <;> simp_all
  · split <;> simp_all

/-- `start_proc` changes the stage of the process it starts. -/
theorem startProc_stage : (s.startProc proc).stage other =
    if other = proc then .ready else s.stage other := by
  unfold State.startProc
  dsimp only
  by_cases same : other = proc
  · simp [State.stage, same]
  · rw [if_neg same]
    split
    · rw [State.stage, enter_procs, if_neg same]
      exact adopt_stage ..
    · rw [State.stage, enter_procs, if_neg same]
      rfl

/-- Two changes of a process are one. -/
theorem modify_modify (first second : Proc → Proc) :
    (s.modify proc first).modify proc second = s.modify proc fun p => second (first p) := by
  simp [State.modify]

end Updates

/-! ## Notifications -/

/-- A process that sleeps in `wait_sem` is marked up. -/
def Stage.woken : Stage → Stage
  | .asleep _ => .asleep true
  | stage => stage

namespace Stage

@[simp] theorem woken_started (stage : Stage) : stage.woken.started = stage.started := by
  cases stage <;> rfl

/-- Who is in another stage than sleep was so before. -/
theorem woken_eq {stage after : Stage} (awake : ∀ up, after ≠ .asleep up) :
    stage.woken = after ↔ stage = after := by
  cases stage with
  | asleep up =>
    simp only [woken]
    exact ⟨fun same => absurd same.symm (awake true), fun same => absurd same.symm (awake up)⟩
  | _ => rfl

end Stage

/-- `childexit` was posted. -/
def Proc.notified (p : Proc) : Proc :=
  { p with stage := p.stage.woken, childexit := ⟨p.childexit.val + 1, []⟩ }

/-- Nobody but the process itself sleeps on its `childexit`. -/
def Proc.Alone (proc : Nat) (p : Proc) : Prop :=
  p.stage = .asleep false ∧ p.childexit = ⟨-1, [proc]⟩ ∨
    p.stage ≠ .asleep false ∧ p.childexit.sleeplist = [] ∧ 0 ≤ p.childexit.val

namespace Proc.Alone

variable {proc : Nat} {p : Proc}

theorem val_ge (alone : p.Alone proc) : -1 ≤ p.childexit.val := by
  obtain ⟨-, sem⟩ | ⟨-, -, nonnegative⟩ := alone
  · rw [sem]
  · omega

theorem notified (alone : p.Alone proc) : p.notified.Alone proc := by
  have lower := alone.val_ge
  refine .inr ⟨?_, rfl, by simp only [Proc.notified]; omega⟩
  simp only [Proc.notified]
  cases p.stage <;> simp [Stage.woken]

end Proc.Alone

/-- A post of `childexit` does not panic and concerns nobody else. -/
theorem postChildexit_eq {s : State} {target : Nat} (alone : (s.procs target).Alone target) :
    s.postChildexit target = s.modify target Proc.notified := by
  unfold State.postChildexit
  obtain ⟨stage, sem⟩ | ⟨stage, list, nonnegative⟩ := alone
  · simp only [sem]
    norm_num
    simp [State.enter, State.modify, Proc.notified, stage, sem, Stage.woken]
  · rw [if_neg (by omega)]
    have same : (s.procs target).stage.woken = (s.procs target).stage := by
      cases here : (s.procs target).stage with
      | asleep up =>
        cases up with
        | true => rfl
        | false => exact absurd here stage
      | _ => rfl
    simp [State.modify, Proc.notified, same, list]

/-- So do any number of posts. -/
theorem postChildexit_iterate {s : State} {target : Nat} (alone : (s.procs target).Alone target)
    (times : Nat) :
    (·.postChildexit target)^[times] s = s.modify target Proc.notified^[times] := by
  induction times generalizing s with
  | zero => simp [State.modify]
  | succ times ih =>
    rw [Function.iterate_succ_apply, postChildexit_eq alone, ih (by simpa using alone.notified)]
    simp [State.modify]

end OsLab.Kernel.ProcTree
