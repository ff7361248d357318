import OsLab.Lib.Transition
import Mathlib.Data.List.Count
import Mathlib.Logic.Function.Basic

/-!
# The scheduler

`src/kernel/sched.c`: the states of the processes, the run queues of the containers and what
runs on the CPUs. A section under the scheduler lock is one step. A queue is the list of its
nodes from `head->next` on; a node belongs to a process or, as a group, to a container below.
Processes are numbers: the idle process of a CPU carries the number of the CPU, and all other
processes have numbers from the number of CPUs on. Containers are numbered as they are created,
so that a container comes after its parent, and `root_container` is the first.
-/
namespace OsLab.Kernel.Sched

open OsLab.Lib

/-- `enum procstate`. -/
inductive ProcState where
  | unused
  | runnable
  | running
  | sleeping
  | deepSleeping
  | zombie
  deriving Repr, DecidableEq

/-- RUNNABLE or RUNNING. -/
def ProcState.active : ProcState → Bool
  | .runnable | .running => true
  | _ => false

@[simp] theorem active_runnable : ProcState.runnable.active = true := rfl
@[simp] theorem active_running : ProcState.running.active = true := rfl

/-- What the scheduler uses of `struct proc`. -/
structure Proc where
  state : ProcState
  killed : Bool
  container : Nat
  deriving Repr, DecidableEq

/-- A node of a run queue. -/
inductive Node where
  /-- `proc->schinfo.rq`. -/
  | proc (proc : Nat)
  /-- `container->schinfo.rq`. -/
  | group (container : Nat)
  deriving Repr, DecidableEq

/-- The two `ASSERT`s of `simple_sched`. -/
inductive PanicSite where
  /-- `ASSERT(this->state == RUNNING)`. -/
  | thisNotRunning
  /-- `ASSERT(next->state == RUNNABLE)`. -/
  | nextNotRunnable
  deriving Repr, DecidableEq

/-- The processes, the run queues and the CPUs. -/
structure State where
  procs : Nat → Proc
  /-- `schqueue.rq` of every container. -/
  queue : Nat → List Node
  /-- `cpus[cpu].sched.thisproc`. -/
  thisproc : Nat → Nat
  numContainers : Nat
  panicFlag : Bool
  /-- Set once an `ASSERT` has failed. -/
  panic : Option PanicSite

namespace State

/-- The state of a process. -/
def state (s : State) (proc : Nat) : ProcState := (s.procs proc).state

/-- `p->state=state`. -/
def setState (s : State) (proc : Nat) (state : ProcState) : State :=
  { s with procs := Function.update s.procs proc { s.procs proc with state } }

/-- `_detach_from_list` of the node of a process, in whichever queue it is. -/
def detach (s : State) (proc : Nat) : State :=
  { s with queue := fun container => (s.queue container).erase (.proc proc) }

/-- The node of a process goes to the front of the queue of its container. -/
def insertFront (s : State) (proc : Nat) : State :=
  let container := (s.procs proc).container
  { s with queue := Function.update s.queue container (.proc proc :: s.queue container) }

/-- The node of a process goes to the end of the queue of its container. -/
def insertBack (s : State) (proc : Nat) : State :=
  let container := (s.procs proc).container
  { s with queue := Function.update s.queue container (s.queue container ++ [.proc proc]) }

/-- `_activate_proc`. -/
def activateProc (s : State) (proc : Nat) (onalert : Bool) : State :=
  match s.state proc with
  | .running | .runnable | .zombie => s
  | .deepSleeping => if onalert then s else (s.setState proc .runnable).insertFront proc
  | .sleeping | .unused => (s.setState proc .runnable).insertFront proc

/-- `activate_group`. -/
def activateGroup (s : State) (group father : Nat) : State :=
  { s with queue := Function.update s.queue father (.group group :: s.queue father) }

/-- `update_this_state`. -/
def updateThisState (s : State) (cpu : Nat) (new : ProcState) : State :=
  let this := s.thisproc cpu
  let idle := cpu
  let s := if this ≠ idle ∧ (s.state this).active then s.detach this else s
  let s := s.setState this new
  if this ≠ idle ∧ new.active then s.insertBack this else s

end State

/-- A group whose turn it was goes to the end of the queue. -/
def rotate (queue : Nat → List Node) (head group : Nat) : Nat → List Node :=
  Function.update queue head ((queue head).erase (.group group) ++ [.group group])

/-- `find_proc` of `sched.c` on the queue of `head`: the first process that is RUNNABLE, and the
queues after the groups it was found through went to the ends of theirs. The depth bounds how far
it goes down the tree of containers. -/
def findProc (procs : Nat → Proc) (queue : Nat → List Node) :
    (depth head : Nat) → Option (Nat × (Nat → List Node))
  | 0, _ => none
  | depth + 1, head => (queue head).findSome? fun node =>
    match node with
    | .proc proc => if (procs proc).state = .runnable then some (proc, queue) else none
    | .group group => (findProc procs queue depth group).map fun found =>
        (found.1, rotate found.2 head group)

namespace State

/-- `pick_next`. No path down the tree of containers is longer than there are containers. -/
def pickNext (s : State) (cpu : Nat) : Nat × (Nat → List Node) :=
  if s.panicFlag then (cpu, s.queue)
  else match findProc s.procs s.queue s.numContainers 0 with
    | some found => found
    | none => (cpu, s.queue)

/-- `update_this_proc`. -/
def updateThisProc (s : State) (cpu proc : Nat) : State :=
  { s with thisproc := Function.update s.thisproc cpu proc }

/-- `simple_sched`, from the call with the scheduler lock held to the release of the lock, which
happens in `next`. -/
def simpleSched (s : State) (cpu : Nat) (new : ProcState) : State :=
  let this := s.thisproc cpu
  if s.state this ≠ .running then { s with panic := some .thisNotRunning }
  else if (s.procs this).killed ∧ new ≠ .zombie then s
  else
    let s := s.updateThisState cpu new
    let (next, queue) := s.pickNext cpu
    let s := { s with queue }.updateThisProc cpu next
    if s.state next ≠ .runnable then { s with panic := some .nextNotRunnable }
    else s.setState next .running

end State

/-- What happens next. -/
inductive Act where
  /-- `init_proc` of a process that is not in use, for a container. -/
  | create (proc container : Nat)
  /-- `activate_proc`: `start_proc` or a post. -/
  | activate (proc : Nat)
  | alert (proc : Nat)
  /-- `kill` sets the flag of a process that is in use. -/
  | kill (proc : Nat)
  /-- The process on a CPU calls `sched`. -/
  | sched (cpu : Nat) (new : ProcState)
  /-- The timer of a CPU goes off. -/
  | tick (cpu : Nat)
  /-- A container is created. -/
  | newContainer
  /-- `activate_group` of a container that is in no queue. -/
  | activateGroup (group father : Nat)
  /-- Some CPU panics for a reason of its own. -/
  | panicElsewhere

namespace State

/-- One step with `ncpu` CPUs. -/
def step (ncpu : Nat) (s : State) (act : Act) : Option State :=
  if s.panic.isSome then none
  else match act with
    | .create proc container =>
      if ncpu ≤ proc ∧ container < s.numContainers ∧
          (s.state proc = .unused ∨ s.state proc = .zombie) then
        some { s with procs := Function.update s.procs proc ⟨.unused, false, container⟩ }
      else none
    | .activate proc => some (s.activateProc proc false)
    | .alert proc => some (s.activateProc proc true)
    | .kill proc =>
      if ncpu ≤ proc ∧ s.state proc ≠ .unused then
        some { s with procs := Function.update s.procs proc { s.procs proc with killed := true } }
      else none
    | .sched cpu new =>
      if cpu < ncpu ∧ new ≠ .unused ∧ new ≠ .running ∧ (s.thisproc cpu = cpu → new = .runnable)
      then some (s.simpleSched cpu new)
      else none
    | .tick cpu => if cpu < ncpu then some (s.simpleSched cpu .runnable) else none
    | .newContainer => some { s with numContainers := s.numContainers + 1 }
    | .activateGroup group father =>
      if father < group ∧ group < s.numContainers ∧
          ∀ head, head < s.numContainers → .group group ∉ s.queue head then
        some (s.activateGroup group father)
      else none
    | .panicElsewhere => some { s with panicFlag := true }

/-- After `define_init(sched)`: every CPU runs its idle process, and there is nothing else. -/
def boot (ncpu : Nat) : State where
  procs proc := ⟨if proc < ncpu then .running else .unused, false, 0⟩
  queue _ := []
  thisproc cpu := cpu
  numContainers := 1
  panicFlag := false
  panic := none

end State

/-- The scheduler of `ncpu` CPUs as a machine. -/
def machine (ncpu : Nat) : Machine State Act where
  init s := s = .boot ncpu
  step := State.step ncpu

/-! ## Run queues -/

section Updates

variable (s : State) (proc : Nat) (new : ProcState)

@[simp] theorem setState_queue : (s.setState proc new).queue = s.queue := rfl
@[simp] theorem setState_thisproc : (s.setState proc new).thisproc = s.thisproc := rfl

@[simp] theorem setState_state (other : Nat) :
    (s.setState proc new).state other = if other = proc then new else s.state other := by
  simp only [State.state, State.setState, Function.update_apply]
  split <;> rfl

@[simp] theorem setState_container (other : Nat) :
    ((s.setState proc new).procs other).container = (s.procs other).container := by
  simp only [State.setState, Function.update_apply]
  split
  · rename_i same
    rw [same]
  · rfl

@[simp] theorem detach_procs : (s.detach proc).procs = s.procs := rfl
@[simp] theorem detach_state : (s.detach proc).state = s.state := rfl
@[simp] theorem insertBack_procs : (s.insertBack proc).procs = s.procs := rfl
@[simp] theorem insertBack_state : (s.insertBack proc).state = s.state := rfl
@[simp] theorem insertFront_procs : (s.insertFront proc).procs = s.procs := rfl
@[simp] theorem insertFront_thisproc : (s.insertFront proc).thisproc = s.thisproc := rfl
@[simp] theorem insertFront_state : (s.insertFront proc).state = s.state := rfl

/-- How often a node is in a queue after the node of a process was taken out. -/
theorem count_detach (node : Node) (container : Nat) :
    ((s.detach proc).queue container).count node =
      (s.queue container).count node - if node = .proc proc then 1 else 0 := by
  simp only [State.detach, List.count_erase, beq_iff_eq, @eq_comm _ (Node.proc proc)]

/-- How often a node is in a queue after the node of a process went to the end of one. -/
theorem count_insertBack (node : Node) (container : Nat) :
    ((s.insertBack proc).queue container).count node = (s.queue container).count node +
      if container = (s.procs proc).container ∧ node = .proc proc then 1 else 0 := by
  simp only [State.insertBack, Function.update_apply]
  by_cases here : container = (s.procs proc).container
  · subst here
    simp [List.count_append, List.count_singleton, @eq_comm _ (Node.proc proc)]
  · simp [here]

/-- How often a node is in a queue after the node of a process went to the front of one. -/
theorem count_insertFront (node : Node) (container : Nat) :
    ((s.insertFront proc).queue container).count node = (s.queue container).count node +
      if container = (s.procs proc).container ∧ node = .proc proc then 1 else 0 := by
  simp only [State.insertFront, Function.update_apply]
  by_cases here : container = (s.procs proc).container
  · subst here
    simp [List.count_cons, @eq_comm _ (Node.proc proc)]
  · simp [here]

variable (cpu : Nat)

@[simp] theorem updateThisProc_thisproc (other : Nat) : (s.updateThisProc cpu proc).thisproc other =
    if other = cpu then proc else s.thisproc other := by
  simp only [State.updateThisProc, Function.update_apply]

/-- `update_this_state` changes the state of the process on the CPU. -/
@[simp] theorem updateThisState_state (other : Nat) : (s.updateThisState cpu new).state other =
    if other = s.thisproc cpu then new else s.state other := by
  unfold State.updateThisState
  dsimp only
  split <;> split <;> simp

@[simp] theorem updateThisState_container (other : Nat) :
    ((s.updateThisState cpu new).procs other).container = (s.procs other).container := by
  unfold State.updateThisState
  dsimp only
  split <;> split <;> simp

@[simp] theorem updateThisState_thisproc :
    (s.updateThisState cpu new).thisproc = s.thisproc := by
  unfold State.updateThisState
  dsimp only
  split <;> split <;> rfl

@[simp] theorem updateThisState_panic : (s.updateThisState cpu new).panic = s.panic := by
  unfold State.updateThisState
  dsimp only
  split <;> split <;> rfl

@[simp] theorem updateThisState_numContainers :
    (s.updateThisState cpu new).numContainers = s.numContainers := by
  unfold State.updateThisState
  dsimp only
  split <;> split <;> rfl

/-- How often a node is in a queue after `update_this_state`. -/
theorem count_updateThisState (node : Node) (container : Nat) :
    ((s.updateThisState cpu new).queue container).count node =
      (s.queue container).count node -
        (if s.thisproc cpu ≠ cpu ∧ (s.state (s.thisproc cpu)).active ∧
          node = .proc (s.thisproc cpu) then 1 else 0) +
        (if s.thisproc cpu ≠ cpu ∧ new.active ∧
          container = (s.procs (s.thisproc cpu)).container ∧
            node = .proc (s.thisproc cpu) then 1 else 0) := by
  by_cases idle : s.thisproc cpu = cpu
  · simp [State.updateThisState, idle]
  · by_cases was : (s.state (s.thisproc cpu)).active <;> by_cases will : new.active <;>
      simp [State.updateThisState, idle, was, will, count_insertBack, count_detach]

end Updates

/-- A group that goes to the end of its queue leaves the queues with the same nodes. -/
theorem rotate_perm {queue : Nat → List Node} {head group : Nat}
    (member : .group group ∈ queue head) (container : Nat) :
    (rotate queue head group container).Perm (queue container) := by
  simp only [rotate, Function.update_apply]
  split
  · rename_i here
    subst here
    exact (List.perm_append_singleton _ _).trans (List.perm_cons_erase member).symm
  · exact .refl _

/-- What `find_proc` finds is RUNNABLE and in a queue, and the queues keep their nodes. -/
theorem findProc_some {procs : Nat → Proc} {queue : Nat → List Node} {depth head : Nat}
    {found : Nat × (Nat → List Node)} (done : findProc procs queue depth head = some found) :
    (procs found.1).state = .runnable ∧ (∃ container, .proc found.1 ∈ queue container) ∧
      ∀ container, (found.2 container).Perm (queue container) := by
  induction depth generalizing head found with
  | zero => contradiction
  | succ depth ih =>
    rw [findProc] at done
    obtain ⟨node, member, here⟩ := List.exists_of_findSome?_eq_some done
    cases node with
    | proc proc =>
      simp only [Option.ite_none_right_eq_some, Option.some.injEq] at here
      obtain ⟨runnable, rfl⟩ := here
      exact ⟨runnable, ⟨head, member⟩, fun _ => .refl _⟩
    | group group =>
      obtain ⟨below, found_below, rfl⟩ := Option.map_eq_some_iff.mp here
      obtain ⟨runnable, queued, same⟩ := ih found_below
      refine ⟨runnable, queued, fun container => ?_⟩
      have still : .group group ∈ below.2 head := (same head).mem_iff.mpr member
      exact (rotate_perm still container).trans (same container)

/-- Groups are in the queues of containers created before them. -/
def Layered (numContainers : Nat) (queue : Nat → List Node) : Prop :=
  ∀ head group, .group group ∈ queue head → head < group ∧ group < numContainers

/-! ## The invariant -/

/-- `_activate_proc` leaves the states of other processes. -/
theorem activateProc_other {s : State} {proc other : Nat} {onalert : Bool} (apart : other ≠ proc) :
    (s.activateProc proc onalert).state other = s.state other := by
  unfold State.activateProc
  split
  iterate 3 rfl
  · split <;> simp [apart]
  iterate 2 simp [apart]

/-- What holds whenever the scheduler lock is free. -/
structure Inv (ncpu : Nat) (s : State) : Prop where
  sound : s.panic = none
  /-- A process is in the queue of its container once while it is active, and in no other. -/
  queued : ∀ proc, ncpu ≤ proc → ∀ container, (s.queue container).count (.proc proc) =
    if container = (s.procs proc).container ∧ (s.state proc).active then 1 else 0
  unqueued : ∀ proc, proc < ncpu → ∀ container, .proc proc ∉ s.queue container
  running : ∀ cpu, cpu < ncpu → s.state (s.thisproc cpu) = .running
  single : ∀ cpu other, cpu < ncpu → other < ncpu → s.thisproc cpu = s.thisproc other →
    cpu = other
  ownIdle : ∀ cpu, cpu < ncpu → s.thisproc cpu < ncpu → s.thisproc cpu = cpu
  idle : ∀ cpu, cpu < ncpu → s.thisproc cpu ≠ cpu → s.state cpu = .runnable
  rooted : 0 < s.numContainers
  /-- Groups are in the queues of containers created before them. -/
  layered : Layered s.numContainers s.queue

namespace Inv

variable {ncpu : Nat} {s s' : State} {proc cpu : Nat}

/-- At the start every CPU runs its idle process. -/
theorem boot (ncpu : Nat) : Inv ncpu (.boot ncpu) where
  sound := rfl
  queued proc user container := by
    simp [State.boot, State.state, ProcState.active, Nat.not_lt.mpr user]
  unqueued := by simp [State.boot]
  running cpu below := by simp [State.boot, State.state, below]
  single := by simp [State.boot]
  ownIdle := by simp [State.boot]
  idle := by simp [State.boot]
  rooted := Nat.one_pos
  layered := by simp [Layered, State.boot]

/-- Idle processes are active. -/
theorem idle_active (inv : Inv ncpu s) (below : proc < ncpu) : (s.state proc).active = true := by
  by_cases own : s.thisproc proc = proc
  · have running := inv.running proc below
    rw [own] at running
    rw [running]
    rfl
  · rw [inv.idle proc below own]
    rfl

/-- A process that is not active can be replaced by another that is not, and what is no
concern of the scheduler can change at any time. -/
theorem replace (inv : Inv ncpu s) (p : Proc) (user : ncpu ≤ proc)
    (alike : p.state = s.state proc ∧ p.container = (s.procs proc).container ∨
      (s.state proc).active = false ∧ p.state.active = false) :
    Inv ncpu { s with procs := Function.update s.procs proc p } := by
  have keeps : ∀ other, (s.state other).active = true →
      (Function.update s.procs proc p other).state = s.state other := by
    intro other active
    by_cases same : other = proc
    · subst same
      obtain ⟨state, -⟩ | ⟨was, -⟩ := alike
      · simpa using state
      · rw [was] at active
        contradiction
    · simp [same, State.state]
  refine ⟨inv.sound, fun other out container => ?_, inv.unqueued, fun cpu below => ?_, inv.single,
    inv.ownIdle, fun cpu below apart => ?_, inv.rooted, inv.layered⟩
  · rw [inv.queued other out container]
    refine if_congr ?_ rfl rfl
    by_cases same : other = proc
    · subst same
      obtain ⟨state, place⟩ | ⟨was, will⟩ := alike
      · simp [State.state, place, state]
      · rw [State.state] at was
        simp [was, will, State.state]
    · simp [State.state, same]
  · refine (keeps _ ?_).trans (inv.running cpu below)
    rw [inv.running cpu below]
    rfl
  · exact (keeps cpu (inv.idle_active below)).trans (inv.idle cpu below apart)

/-- A process that sleeps or was not started becomes RUNNABLE and enters the queue. -/
theorem wakeUp (inv : Inv ncpu s) (asleep : (s.state proc).active = false) :
    Inv ncpu ((s.setState proc .runnable).insertFront proc) := by
  have user : ncpu ≤ proc := by
    by_contra below
    rw [inv.idle_active (by omega)] at asleep
    contradiction
  refine ⟨inv.sound, fun other out container => ?_, fun other below container member => ?_,
    fun cpu below => ?_, inv.single, inv.ownIdle, fun cpu below apart => ?_, inv.rooted,
    fun head group member => ?_⟩
  · rw [count_insertFront, setState_queue, inv.queued other out container]
    by_cases same : other = proc
    · subst same
      simp [asleep]
    · simp [same]
  · refine inv.unqueued other below container (List.count_pos_iff.mp ?_)
    have positive := List.count_pos_iff.mpr member
    rw [count_insertFront, if_neg (by simp; omega)] at positive
    exact positive
  · have running := inv.running cpu below
    have apart : s.thisproc cpu ≠ proc := by
      intro same
      rw [← same, running] at asleep
      contradiction
    simpa [apart] using running
  · have other : cpu ≠ proc := by omega
    simpa [other] using inv.idle cpu below apart
  · refine inv.layered head group (List.count_pos_iff.mp ?_)
    have positive := List.count_pos_iff.mpr member
    rw [count_insertFront, if_neg (by simp)] at positive
    exact positive

/-- `_activate_proc`. -/
theorem activateProc (inv : Inv ncpu s) (onalert : Bool) : Inv ncpu (s.activateProc proc onalert) := by
  unfold State.activateProc
  cases state : s.state proc with
  | running | runnable | zombie => exact inv
  | sleeping | unused => exact inv.wakeUp (by rw [state]; rfl)
  | deepSleeping =>
    dsimp only
    split
    · exact inv
    · exact inv.wakeUp (by rw [state]; rfl)

/-- What the CPU runs before `simple_sched` takes it off, and the idle process of the CPU. -/
theorem this_user (inv : Inv ncpu s) (below : cpu < ncpu) (busy : s.thisproc cpu ≠ cpu) :
    ncpu ≤ s.thisproc cpu := by
  by_contra idle
  exact busy (inv.ownIdle cpu below (by omega))

/-- After `update_this_state` the queues agree with the states. -/
theorem update_queued (inv : Inv ncpu s) (below : cpu < ncpu) (new : ProcState)
    (user : ncpu ≤ proc) (container : Nat) :
    ((s.updateThisState cpu new).queue container).count (.proc proc) =
      if container = (s.procs proc).container ∧
        ((s.updateThisState cpu new).state proc).active then 1 else 0 := by
  rw [count_updateThisState, inv.queued proc user container, updateThisState_state]
  by_cases this : proc = s.thisproc cpu
  · subst this
    have busy : s.thisproc cpu ≠ cpu := by omega
    by_cases here : container = (s.procs (s.thisproc cpu)).container
    · simp [here, busy, inv.running cpu below]
    · simp [here, busy]
  · simp [this]

/-- After `update_this_state` idle processes are in no queue. -/
theorem update_unqueued (inv : Inv ncpu s) (below : cpu < ncpu) (new : ProcState)
    (idle : proc < ncpu) (container : Nat) :
    .proc proc ∉ (s.updateThisState cpu new).queue container := by
  have apart : s.thisproc cpu ≠ cpu → proc ≠ s.thisproc cpu := by
    intro busy
    have := inv.this_user below busy
    omega
  have none := List.count_eq_zero.mpr (inv.unqueued proc idle container)
  rw [← List.count_eq_zero, count_updateThisState, none]
  have absent : ¬ (s.thisproc cpu ≠ cpu ∧ new.active = true ∧
      container = (s.procs (s.thisproc cpu)).container ∧ Node.proc proc = .proc (s.thisproc cpu)) := by
    rintro ⟨busy, -, -, same⟩
    exact apart busy (Node.proc.inj same)
  rw [if_neg absent, Nat.zero_sub]

/-- `update_this_state` moves no group. -/
theorem update_layered (inv : Inv ncpu s) (new : ProcState) :
    Layered s.numContainers (s.updateThisState cpu new).queue := by
  intro head group member
  refine inv.layered head group (List.count_pos_iff.mp ?_)
  have positive := List.count_pos_iff.mpr member
  rw [count_updateThisState] at positive
  simpa using positive

/-- The process a CPU picks is RUNNABLE, and it is the idle process of the CPU or none. -/
theorem pickNext (inv : Inv ncpu s) {new : ProcState} (below : cpu < ncpu)
    (idles : s.thisproc cpu = cpu → new = .runnable) {next : Nat} {queue : Nat → List Node}
    (picked : (s.updateThisState cpu new).pickNext cpu = (next, queue)) :
    (s.updateThisState cpu new).state next = .runnable ∧ (next < ncpu → next = cpu) ∧
      ∀ container, (queue container).Perm ((s.updateThisState cpu new).queue container) := by
  have idle : (s.updateThisState cpu new).state cpu = .runnable := by
    rw [updateThisState_state]
    split
    · rename_i own
      exact idles own.symm
    · rename_i busy
      exact inv.idle cpu below (Ne.symm busy)
  unfold State.pickNext at picked
  split at picked
  · obtain ⟨rfl, rfl⟩ := Prod.mk.inj picked
    exact ⟨idle, fun _ => rfl, fun _ => .refl _⟩
  · split at picked
    · rename_i found done
      subst picked
      obtain ⟨runnable, ⟨container, member⟩, same⟩ := findProc_some done
      exact ⟨runnable, fun low => absurd member (inv.update_unqueued below new low container), same⟩
    · obtain ⟨rfl, rfl⟩ := Prod.mk.inj picked
      exact ⟨idle, fun _ => rfl, fun _ => .refl _⟩

/-- A process that is killed keeps its CPU unless it exits; otherwise the CPU goes to the process
it picks, and neither `ASSERT` fails. -/
theorem simpleSched_cases (inv : Inv ncpu s) {new : ProcState} (below : cpu < ncpu)
    (idles : s.thisproc cpu = cpu → new = .runnable) :
    s.simpleSched cpu new = s ∧ (s.procs (s.thisproc cpu)).killed = true ∧ new ≠ .zombie ∨
      ∃ next queue, (s.updateThisState cpu new).state next = .runnable ∧
        (next < ncpu → next = cpu) ∧
        (∀ container, (queue container).Perm ((s.updateThisState cpu new).queue container)) ∧
        s.simpleSched cpu new = ({ s.updateThisState cpu new with queue }.updateThisProc cpu
          next).setState next .running := by
  unfold State.simpleSched
  rw [if_neg (not_not.mpr (inv.running cpu below))]
  split
  · rename_i refuses
    exact .inl ⟨rfl, refuses⟩
  · right
    cases picked : (s.updateThisState cpu new).pickNext cpu with
    | mk next queue =>
      obtain ⟨runnable, low, same⟩ := inv.pickNext below idles picked
      refine ⟨next, queue, runnable, low, same, ?_⟩
      simp only [picked]
      rw [if_neg]
      exact not_not.mpr runnable

/-- A CPU hands over to the process it picks. -/
theorem simpleSched (inv : Inv ncpu s) {new : ProcState} (below : cpu < ncpu)
    (idles : s.thisproc cpu = cpu → new = .runnable) : Inv ncpu (s.simpleSched cpu new) := by
  obtain ⟨unchanged, -⟩ | ⟨next, queue, runnable, low, same, handed⟩ :=
    inv.simpleSched_cases below idles
  · rw [unchanged]
    exact inv
  have elsewhere : ∀ other, other < ncpu → other ≠ cpu → s.thisproc other ≠ s.thisproc cpu ∧
      s.thisproc other ≠ next := by
    intro other inside apart
    have different : s.thisproc other ≠ s.thisproc cpu :=
      fun equal => apart (inv.single other cpu inside below equal)
    refine ⟨different, fun equal => ?_⟩
    -- what runs elsewhere is RUNNING, not RUNNABLE
    rw [← equal, updateThisState_state, if_neg different, inv.running other inside] at runnable
    contradiction
  have state : ∀ other, (s.simpleSched cpu new).state other =
      if other = next then .running else (s.updateThisState cpu new).state other := by
    intro other
    rw [handed, setState_state]
    rfl
  have thisproc : ∀ other, (s.simpleSched cpu new).thisproc other =
      if other = cpu then next else s.thisproc other := by
    intro other
    rw [handed, setState_thisproc, updateThisProc_thisproc]
    split
    · rfl
    · exact congrFun (updateThisState_thisproc s new cpu) other
  have queues : (s.simpleSched cpu new).queue = queue := by
    rw [handed]
    rfl
  refine ⟨?_, fun other out container => ?_, fun other inside container member => ?_,
    fun other inside => ?_, fun one two insideOne insideTwo equal => ?_, fun other inside own => ?_,
    fun other inside apart => ?_, ?_, fun head group member => ?_⟩
  · rw [handed]
    exact (updateThisState_panic s new cpu).trans inv.sound
  · rw [queues, (same container).count_eq, inv.update_queued below new out, state]
    have place : ((s.simpleSched cpu new).procs other).container = (s.procs other).container := by
      rw [handed, setState_container]
      exact updateThisState_container s new cpu other
    rw [place]
    by_cases picked : other = next
    · simp [picked, runnable]
    · simp [picked]
  · rw [queues] at member
    exact inv.update_unqueued below new inside container ((same container).mem_iff.mp member)
  · rw [state, thisproc]
    by_cases here : other = cpu
    · simp [here]
    · obtain ⟨notThis, notNext⟩ := elsewhere other inside here
      simpa [here, notNext, notThis] using inv.running other inside
  · rw [thisproc, thisproc] at equal
    by_cases oneHere : one = cpu <;> by_cases twoHere : two = cpu
    · rw [oneHere, twoHere]
    · rw [if_pos oneHere, if_neg twoHere] at equal
      exact absurd equal.symm (elsewhere two insideTwo twoHere).2
    · rw [if_neg oneHere, if_pos twoHere] at equal
      exact absurd equal (elsewhere one insideOne oneHere).2
    · rw [if_neg oneHere, if_neg twoHere] at equal
      exact inv.single one two insideOne insideTwo equal
  · rw [thisproc] at own ⊢
    split
    · rename_i here
      rw [if_pos here] at own
      exact (low own).trans here.symm
    · rename_i there
      rw [if_neg there] at own
      exact inv.ownIdle other inside own
  · rw [thisproc] at apart
    rw [state]
    by_cases here : other = cpu
    · subst here
      rw [if_pos rfl] at apart
      rw [if_neg apart.symm, updateThisState_state]
      split
      · rename_i this
        exact idles this.symm
      · rename_i busy
        exact inv.idle other below (Ne.symm busy)
    · rw [if_neg here] at apart
      have notNext : other ≠ next := by
        rintro rfl
        exact here (low inside)
      have notThis : other ≠ s.thisproc cpu := by
        intro this
        exact here (this.trans (inv.ownIdle cpu below (this ▸ inside)))
      rw [if_neg notNext, updateThisState_state, if_neg notThis]
      exact inv.idle other inside apart
  · rw [handed]
    exact Nat.lt_of_lt_of_eq inv.rooted (updateThisState_numContainers s new cpu).symm
  · rw [queues] at member
    have count : (s.simpleSched cpu new).numContainers = s.numContainers := by
      rw [handed]
      exact updateThisState_numContainers s new cpu
    rw [count]
    exact inv.update_layered new head group ((same head).mem_iff.mp member)

/-- `activate_group`. -/
theorem activateGroup (inv : Inv ncpu s) {group father : Nat} (older : father < group)
    (created : group < s.numContainers) : Inv ncpu (s.activateGroup group father) := by
  have mem : ∀ container node, node ∈ (s.activateGroup group father).queue container →
      node ∈ s.queue container ∨ container = father ∧ node = .group group := by
    intro container node member
    simp only [State.activateGroup, Function.update_apply] at member
    split at member
    · rename_i here
      subst here
      obtain rfl | member := List.mem_cons.mp member
      · exact .inr ⟨rfl, rfl⟩
      · exact .inl member
    · exact .inl member
  refine ⟨inv.sound, fun proc user container => ?_, fun proc below container member => ?_,
    inv.running, inv.single, inv.ownIdle, inv.idle, inv.rooted, fun head other member => ?_⟩
  · refine Eq.trans ?_ (inv.queued proc user container)
    simp only [State.activateGroup, Function.update_apply]
    split
    · rename_i here
      subst here
      exact List.count_cons_of_ne (by simp)
    · rfl
  · obtain old | ⟨-, new⟩ := mem container _ member
    · exact inv.unqueued proc below container old
    · exact Node.noConfusion new
  · obtain old | ⟨rfl, new⟩ := mem head _ member
    · exact inv.layered head other old
    · obtain rfl := Node.group.inj new
      exact ⟨older, created⟩

/-- Every step keeps the invariant. -/
theorem step {act : Act} (inv : Inv ncpu s) (taken : s.step ncpu act = some s') :
    Inv ncpu s' := by
  have awake : s.panic.isSome = false := by
    rw [inv.sound]
    rfl
  simp only [State.step, awake, Bool.false_eq_true, if_false] at taken
  cases act with
  | create proc container =>
    simp only [Option.ite_none_right_eq_some, Option.some.injEq] at taken
    obtain ⟨⟨user, -, unused⟩, rfl⟩ := taken
    have inactive : (s.state proc).active = false := by
      obtain state | state := unused <;> rw [state] <;> rfl
    exact inv.replace ⟨.unused, false, container⟩ user (.inr ⟨inactive, rfl⟩)
  | activate proc =>
    obtain rfl := Option.some.inj taken
    exact inv.activateProc false
  | alert proc =>
    obtain rfl := Option.some.inj taken
    exact inv.activateProc true
  | kill proc =>
    simp only [Option.ite_none_right_eq_some, Option.some.injEq] at taken
    obtain ⟨⟨user, -⟩, rfl⟩ := taken
    exact inv.replace { s.procs proc with killed := true } user (.inl ⟨rfl, rfl⟩)
  | sched cpu new =>
    simp only [Option.ite_none_right_eq_some, Option.some.injEq] at taken
    obtain ⟨⟨below, -, -, idles⟩, rfl⟩ := taken
    exact inv.simpleSched below idles
  | tick cpu =>
    simp only [Option.ite_none_right_eq_some, Option.some.injEq] at taken
    obtain ⟨below, rfl⟩ := taken
    exact inv.simpleSched below fun _ => rfl
  | newContainer =>
    obtain rfl := Option.some.inj taken
    refine { inv with rooted := Nat.succ_pos _, layered := fun head group member => ?_ }
    obtain ⟨older, created⟩ := inv.layered head group member
    exact ⟨older, Nat.lt_succ_of_lt created⟩
  | activateGroup group father =>
    simp only [Option.ite_none_right_eq_some, Option.some.injEq] at taken
    obtain ⟨⟨older, created, -⟩, rfl⟩ := taken
    exact inv.activateGroup older created
  | panicElsewhere =>
    obtain rfl := Option.some.inj taken
    exact { inv with }

/-- A process that is not active is not touched when a CPU is handed over. -/
theorem simpleSched_asleep (inv : Inv ncpu s) {new : ProcState} (below : cpu < ncpu)
    (idles : s.thisproc cpu = cpu → new = .runnable) (asleep : (s.state proc).active = false) :
    (s.simpleSched cpu new).state proc = s.state proc := by
  obtain ⟨unchanged, -⟩ | ⟨next, queue, runnable, -, -, handed⟩ :=
    inv.simpleSched_cases below idles
  · rw [unchanged]
  · have notThis : proc ≠ s.thisproc cpu := by
      rintro rfl
      rw [inv.running cpu below] at asleep
      contradiction
    have notNext : proc ≠ next := by
      rintro rfl
      rw [updateThisState_state, if_neg notThis] at runnable
      rw [runnable] at asleep
      contradiction
    rw [handed, setState_state, if_neg notNext]
    refine (updateThisState_state s new cpu proc).trans ?_
    rw [if_neg notThis]

/-- A process that is not killed and gives up its CPU does not get it at once, unless it stays
RUNNABLE. -/
theorem simpleSched_this (inv : Inv ncpu s) {new : ProcState} (below : cpu < ncpu)
    (idles : s.thisproc cpu = cpu → new = .runnable)
    (alive : (s.procs (s.thisproc cpu)).killed = false) (gives : new ≠ .runnable) :
    (s.simpleSched cpu new).state (s.thisproc cpu) = new := by
  obtain ⟨-, killed, -⟩ | ⟨next, queue, runnable, -, -, handed⟩ :=
    inv.simpleSched_cases below idles
  · rw [alive] at killed
    contradiction
  · have notNext : s.thisproc cpu ≠ next := by
      rintro rfl
      rw [updateThisState_state, if_pos rfl] at runnable
      exact gives runnable
    rw [handed, setState_state, if_neg notNext]
    refine (updateThisState_state s new cpu _).trans ?_
    rw [if_pos rfl]

/-- Nothing but `activate_proc` ends a DEEPSLEEPING state. -/
theorem step_deepSleeping {act : Act} (inv : Inv ncpu s) (taken : s.step ncpu act = some s')
    (deep : s.state proc = .deepSleeping) (spared : act ≠ .activate proc) :
    s'.state proc = .deepSleeping := by
  have asleep : (s.state proc).active = false := by
    rw [deep]
    rfl
  have awake : s.panic.isSome = false := by
    rw [inv.sound]
    rfl
  have wakes : ∀ other onalert, (other = proc → onalert = true) →
      (s.activateProc other onalert).state proc = .deepSleeping := by
    intro other onalert alerted
    by_cases same : other = proc
    · subst same
      simp [State.activateProc, deep, alerted rfl]
    · rw [activateProc_other (Ne.symm same), deep]
  simp only [State.step, awake, Bool.false_eq_true, if_false] at taken
  cases act with
  | create other container =>
    simp only [Option.ite_none_right_eq_some, Option.some.injEq] at taken
    obtain ⟨⟨-, -, unused⟩, rfl⟩ := taken
    have apart : proc ≠ other := by
      rintro rfl
      simp [deep] at unused
    simpa [State.state, apart] using deep
  | activate other =>
    obtain rfl := Option.some.inj taken
    exact wakes other false fun same => absurd (by rw [same]) spared
  | alert other =>
    obtain rfl := Option.some.inj taken
    exact wakes other true fun _ => rfl
  | kill other =>
    simp only [Option.ite_none_right_eq_some, Option.some.injEq] at taken
    obtain ⟨-, rfl⟩ := taken
    simp only [State.state, Function.update_apply] at deep ⊢
    split
    · rename_i same
      rw [← same]
      exact deep
    · exact deep
  | sched cpu new =>
    simp only [Option.ite_none_right_eq_some, Option.some.injEq] at taken
    obtain ⟨⟨below, -, -, idles⟩, rfl⟩ := taken
    rw [inv.simpleSched_asleep below idles asleep, deep]
  | tick cpu =>
    simp only [Option.ite_none_right_eq_some, Option.some.injEq] at taken
    obtain ⟨below, rfl⟩ := taken
    rw [inv.simpleSched_asleep below (fun _ => rfl) asleep, deep]
  | newContainer | panicElsewhere =>
    obtain rfl := Option.some.inj taken
    exact deep
  | activateGroup group father =>
    simp only [Option.ite_none_right_eq_some, Option.some.injEq] at taken
    obtain ⟨-, rfl⟩ := taken
    exact deep

/-- The invariant holds in every state reached. -/
theorem reach {guard : State → Act → Prop} (reached : (machine ncpu).Reach guard s) :
    Inv ncpu s := by
  refine reached.invariant ?_ fun _ _ _ _ inv _ taken => inv.step taken
  rintro s rfl
  exact boot ncpu

end Inv

/-- The scheduler keeps its queues: in every run, a process that is no idle process is once in the
run queue of its container if it is RUNNABLE or RUNNING and otherwise in none, every CPU runs a
process that is RUNNING, no two CPUs run the same, and no `ASSERT` of `simple_sched` has
failed. -/
theorem scheduler_consistent (ncpu : Nat) (s : State)
    (reached : (machine ncpu).Reach Machine.Any s) :
    (∀ proc, ncpu ≤ proc → ∀ container, (s.queue container).count (.proc proc) =
      if container = (s.procs proc).container ∧
        (s.state proc = .runnable ∨ s.state proc = .running) then 1 else 0) ∧
    (∀ cpu, cpu < ncpu → s.state (s.thisproc cpu) = .running) ∧
    (∀ cpu other, cpu < ncpu → other < ncpu → s.thisproc cpu = s.thisproc other → cpu = other) ∧
    s.panic = none := by
  have inv := Inv.reach reached
  refine ⟨fun proc user container => ?_, inv.running, inv.single, inv.sound⟩
  rw [inv.queued proc user container]
  refine if_congr (and_congr Iff.rfl ?_) rfl rfl
  cases s.state proc <;> simp [ProcState.active]

/-- Two CPUs, a process in the root container and one in a container below. The first CPU picks
the one below; that one is killed and cannot sleep. The other process sleeps on the second
CPU and is alerted, and a third exits. -/
def twoCpuRun : List Act :=
  [.create 2 0, .activate 2, .newContainer, .create 3 1, .activate 3, .activateGroup 1 0, .tick 0,
    .kill 3, .sched 0 .sleeping, .tick 1, .sched 1 .sleeping, .create 4 1, .activate 4, .tick 1,
    .alert 2, .sched 1 .zombie]

/-- After that run the killed process still runs, and each active process is in one queue. -/
theorem scheduler_consistent_twoCpuRun :
    ∃ s, (machine 2).Reach Machine.Any s ∧ s.thisproc 0 = 3 ∧ s.thisproc 1 = 2 ∧
      s.queue 0 = [.proc 2, .group 1] ∧ s.queue 1 = [.proc 3] ∧ s.state 3 = .running ∧
      (s.queue 1).count (.proc 4) = 0 ∧ s.panic = none := by
  have shown : ((machine 2).exec Machine.Any (.boot 2) twoCpuRun).map
      (fun s => (s.thisproc 0, s.thisproc 1, s.queue 0, s.queue 1, s.procs 4)) =
        some (3, 2, [.proc 2, .group 1], [.proc 3], ⟨.zombie, false, 1⟩) := by
    decide +kernel
  obtain ⟨s, reached, observed⟩ := Machine.Reach.exec_map rfl shown
  obtain ⟨first, second, root, below, exited⟩ := by simpa using observed
  obtain ⟨queued, running, -, sound⟩ := scheduler_consistent 2 s reached
  refine ⟨s, reached, first, second, root, below, ?_, ?_, sound⟩
  · rw [← first]
    exact running 0 (by decide)
  · rw [queued 4 (by decide) 1, if_neg]
    simp [State.state, exited]

end OsLab.Kernel.Sched
