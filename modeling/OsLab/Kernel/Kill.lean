import OsLab.Kernel.Sched
import Mathlib.Data.List.Nodup

/-!
# Killing a process

`find_proc` and `kill` of `src/kernel/proc.c`. The search sets the flag of the process it finds;
whether `kill` then alerts the process and returns 0 is decided from the program counter the process
was interrupted at.
-/
namespace OsLab.Kernel.Kill

open OsLab.Kernel.Sched (ProcState Node)

/-- A process and its `children`, from `children.next` on. -/
inductive Tree where
  | node (proc : Nat) (children : List Tree)

mutual

/-- The processes of a tree, in the order of the search. -/
def Tree.procs : Tree → List Nat
  | .node proc children => proc :: procsIn children

/-- The processes of some trees. -/
def procsIn : List Tree → List Nat
  | [] => []
  | child :: rest => child.procs ++ procsIn rest

end

/-- What `kill` uses of the processes. -/
structure State where
  /-- Their states, their flags and the run queues. -/
  sched : Sched.State
  pid : Nat → Int
  /-- `ucontext->elr`: where the process was when it last entered the kernel. -/
  elr : Nat → UInt64
  /-- `root_proc` and all below. -/
  tree : Tree

namespace State

/-- The state of a process. -/
def state (s : State) (proc : Nat) : ProcState := s.sched.state proc

/-- `now->killed=1`. -/
def setKilled (s : State) (now : Nat) : State :=
  { s with sched := { s.sched with
      procs := Function.update s.sched.procs now { s.sched.procs now with killed := true } } }

/-- `alert_proc`. -/
def alertProc (s : State) (proc : Nat) : State :=
  { s with sched := s.sched.activateProc proc true }

end State

mutual

/-- `find_proc` of `proc.c`. -/
def findProc (pid : Int) : (now : Tree) → State → Option Nat × State
  | .node now children, s =>
    if s.pid now = pid ∧ s.state now ≠ .unused then (some now, s.setKilled now)
    else findChild pid children s

/-- The loop of `find_proc` over the children. -/
def findChild (pid : Int) : List Tree → State → Option Nat × State
  | [], s => (none, s)
  | childproc :: rest, s =>
    match findProc pid childproc s with
    | (some temp, s) => (some temp, s)
    | (none, s) => findChild pid rest s

end

/-- `kill`. -/
def kill (s : State) (pid : Int) : Int × State :=
  match findProc pid s.tree s with
  | (some killproc, s) =>
    if s.elr killproc >>> 48 = 0 then (0, s.alertProc killproc) else (-1, s)
  | (none, s) => (-1, s)

/-! ## The search -/

/-- The search stops here. -/
def Wanted (s : State) (pid : Int) (proc : Nat) : Bool :=
  decide (s.pid proc = pid ∧ s.state proc ≠ .unused)

/-- What a search leaves that has found this. -/
def found (s : State) : Option Nat → Option Nat × State
  | some proc => (some proc, s.setKilled proc)
  | none => (none, s)

mutual

/-- `find_proc` finds the first process that has the pid and is in use, and sets its flag. -/
theorem findProc_eq (s : State) (pid : Int) (t : Tree) :
    findProc pid t s = found s (t.procs.find? (Wanted s pid)) := by
  match t with
  | .node now children =>
    rw [findProc, Tree.procs, List.find?_cons, Wanted]
    by_cases here : s.pid now = pid ∧ s.state now ≠ .unused
    · simp [here, found]
    · simpa [here] using findChild_eq s pid children

/-- The loop of `find_proc`. -/
theorem findChild_eq (s : State) (pid : Int) (children : List Tree) :
    findChild pid children s = found s ((procsIn children).find? (Wanted s pid)) := by
  match children with
  | [] => rfl
  | childproc :: rest =>
    rw [findChild, procsIn, List.find?_append, findProc_eq s pid childproc]
    cases (childproc.procs.find? (Wanted s pid)) with
    | some proc => rfl
    | none => exact findChild_eq s pid rest

end

/-- `kill` by what the search finds. -/
theorem kill_eq (s : State) (pid : Int) :
    kill s pid = match s.tree.procs.find? (Wanted s pid) with
      | some proc =>
        if s.elr proc >>> 48 = 0 then (0, (s.setKilled proc).alertProc proc)
        else (-1, s.setKilled proc)
      | none => (-1, s) := by
  rw [kill, findProc_eq]
  cases s.tree.procs.find? (Wanted s pid) with
  | some proc => rfl
  | none => rfl

/-! ## What happens to the process -/

section Alert

variable {s : State} {proc other : Nat}

@[simp] theorem setKilled_state : (s.setKilled proc).state other = s.state other := by
  simp only [State.state, Sched.State.state, State.setKilled, Function.update_apply]
  split
  · rename_i same
    rw [same]
  · rfl

/-- An alert wakes a process that is SLEEPING, and puts it in the queue of its container. -/
theorem alertProc_sleeping (asleep : s.state proc = .sleeping) :
    (s.alertProc proc).state proc = .runnable ∧
      .proc proc ∈ (s.alertProc proc).sched.queue (s.sched.procs proc).container := by
  have alerted : (s.alertProc proc).sched =
      (s.sched.setState proc .runnable).insertFront proc := by
    simp only [State.state] at asleep
    simp only [State.alertProc, Sched.State.activateProc, asleep]
  rw [State.state, alerted]
  refine ⟨by simp, ?_⟩
  simp [Sched.State.insertFront, Sched.State.setState]

/-- An alert changes nothing for a process in use that is not SLEEPING. -/
theorem alertProc_awake (used : s.state proc ≠ .unused) (awake : s.state proc ≠ .sleeping) :
    s.alertProc proc = s := by
  simp only [State.state] at used awake
  simp only [State.alertProc, Sched.State.activateProc]
  cases state : s.sched.state proc with
  | unused => exact absurd state used
  | sleeping => exact absurd state awake
  | running | runnable | zombie | deepSleeping => rfl

/-- An alert leaves the flags, and everything of other processes. -/
theorem alertProc_frame (s : State) (proc : Nat) :
    ((s.alertProc proc).sched.procs proc).killed = (s.sched.procs proc).killed ∧
      ∀ other, other ≠ proc → (s.alertProc proc).sched.procs other = s.sched.procs other := by
  simp only [State.alertProc, Sched.State.activateProc]
  split
  iterate 3 exact ⟨rfl, fun _ _ => rfl⟩
  · exact ⟨rfl, fun _ _ => rfl⟩
  iterate 2 exact ⟨by simp [Sched.State.setState, Sched.State.insertFront],
    fun other apart => by simp [Sched.State.setState, Sched.State.insertFront, apart]⟩

end Alert

/-- A process was killed: its flag is set, it was woken if it was SLEEPING, and nothing has changed
for any other process. -/
structure Killed (s s' : State) (proc : Nat) : Prop where
  flag : (s'.sched.procs proc).killed = true
  woken : s.state proc = .sleeping → s'.state proc = .runnable ∧
    .proc proc ∈ s'.sched.queue (s.sched.procs proc).container
  state : s.state proc ≠ .sleeping → s'.state proc = s.state proc
  others : ∀ other, other ≠ proc → s'.sched.procs other = s.sched.procs other

/-- The process that `kill` has found and alerted. -/
theorem killed_alertProc {s : State} {proc : Nat} (used : s.state proc ≠ .unused) :
    Killed s ((s.setKilled proc).alertProc proc) proc := by
  obtain ⟨flag, others⟩ := alertProc_frame (s.setKilled proc) proc
  refine ⟨?_, fun asleep => ?_, fun awake => ?_, fun other apart => ?_⟩
  · rw [flag]
    simp [State.setKilled]
  · have woken := alertProc_sleeping (s := s.setKilled proc) (by simpa using asleep)
    simpa [State.setKilled] using woken
  · rw [alertProc_awake (by simpa using used) (by simpa using awake), setKilled_state]
  · rw [others other apart]
    simp [State.setKilled, apart]

/-- With different pids the search finds the process that has the pid. -/
theorem find_wanted {s : State} {pid : Int} (distinct : (s.tree.procs.map s.pid).Nodup) {proc : Nat}
    (member : proc ∈ s.tree.procs) (named : s.pid proc = pid) (used : s.state proc ≠ .unused) :
    s.tree.procs.find? (Wanted s pid) = some proc := by
  cases result : s.tree.procs.find? (Wanted s pid) with
  | none =>
    have unwanted := List.find?_eq_none.mp result proc member
    simp [Wanted, named, used] at unwanted
  | some other =>
    have wanted := List.find?_some result
    simp only [Wanted, decide_eq_true_eq] at wanted
    rw [List.inj_on_of_nodup_map distinct (List.mem_of_find?_eq_some result) member
      (wanted.1.trans named.symm)]

/-- For every tree of processes with different pids: `kill` returns 0 and has killed exactly the
process that has the pid, or it returns -1 and has changed nothing, and it returns -1 just when there
is no such process in use; this is so exactly when the process that has the pid, if there is one, was
interrupted at a user address. -/
theorem kill_all_or_nothing {s : State} {pid : Int} (distinct : (s.tree.procs.map s.pid).Nodup) :
    (∀ proc ∈ s.tree.procs, s.pid proc = pid → s.state proc ≠ .unused →
      s.elr proc >>> 48 = 0) ↔
    (((kill s pid).1 = 0 ∧ ∃ proc ∈ s.tree.procs, s.pid proc = pid ∧
        (∀ other ∈ s.tree.procs, s.pid other = pid → other = proc) ∧
        Killed s (kill s pid).2 proc) ∨
      ((kill s pid).1 = -1 ∧ (kill s pid).2 = s)) ∧
    ((kill s pid).1 = -1 ↔
      ∀ proc ∈ s.tree.procs, s.pid proc = pid → s.state proc = .unused) := by
  rw [kill_eq]
  constructor
  · intro interrupted
    cases result : s.tree.procs.find? (Wanted s pid) with
    | none =>
      refine ⟨.inr ⟨rfl, rfl⟩, fun _ proc member named => ?_, fun _ => rfl⟩
      have unwanted := List.find?_eq_none.mp result proc member
      simpa [Wanted, named] using unwanted
    | some proc =>
      have member := List.mem_of_find?_eq_some result
      have wanted := List.find?_some result
      simp only [Wanted, decide_eq_true_eq] at wanted
      obtain ⟨named, used⟩ := wanted
      dsimp only
      rw [if_pos (interrupted proc member named used)]
      refine ⟨.inl ⟨rfl, proc, member, named, fun other inside same => ?_, killed_alertProc used⟩,
        fun failed => absurd failed (by simp), fun none => absurd (none proc member named) used⟩
      exact List.inj_on_of_nodup_map distinct inside member (same.trans named.symm)
  · -- a process in the kernel makes `kill` fail, although there is a process
    rintro ⟨-, failed⟩ proc member named used
    by_contra kernel
    rw [find_wanted distinct member named used] at failed
    exact used (failed.mp (by simp [kernel]) proc member named)

/-- `root_proc`, with two children and a grandchild that is SLEEPING. The first child was
interrupted in the kernel. -/
def family : State where
  sched := { Sched.State.boot 0 with
    procs := fun proc => ⟨if proc = 3 then .sleeping else .running, false, 0⟩ }
  pid proc := proc + 1
  elr proc := if proc = 1 then 0xffff000000080000 else 0x400000
  tree := .node 0 [.node 1 [], .node 2 [.node 3 []]]

/-- The grandchild is killed and woken. -/
theorem kill_all_or_nothing_sleeping : (kill family 4).1 = 0 ∧
    (((kill family 4).1 = 0 ∧ ∃ proc ∈ family.tree.procs, family.pid proc = 4 ∧
        (∀ other ∈ family.tree.procs, family.pid other = 4 → other = proc) ∧
        Killed family (kill family 4).2 proc) ∨
      ((kill family 4).1 = -1 ∧ (kill family 4).2 = family)) ∧
    ((kill family 4).1 = -1 ↔
      ∀ proc ∈ family.tree.procs, family.pid proc = 4 → family.state proc = .unused) :=
  ⟨by decide, (kill_all_or_nothing (by decide)).mp (by decide)⟩

/-- `kill` of a process that was interrupted in the kernel returns -1, and has set its flag. -/
theorem kill_fails_after_flag : (family.tree.procs.map family.pid).Nodup ∧
    family.state 1 = .running ∧ (kill family 2).1 = -1 ∧
    (family.sched.procs 1).killed = false ∧ ((kill family 2).2.sched.procs 1).killed = true := by
  decide

end OsLab.Kernel.Kill
