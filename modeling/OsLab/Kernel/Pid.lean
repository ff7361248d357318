import OsLab.Kernel.ProcTree
import OsLab.Lib.Ownership

/-!
# Process identifiers

The identifier managers of `src/kernel/proc.c` beside the process tree: `init_proc` takes a global
identifier, `start_proc` a local one from the manager of the container of the process, and `wait`
gives both back. `fork` returns the global identifier of the child, `wait` the local one.
-/
namespace OsLab.Kernel.Pid

open OsLab.Lib
open OsLab.Kernel.ProcTree (Act Proc Stage rootProc)

/-- `PIDManager`. -/
structure PIDManager where
  max : Nat
  /-- The identifiers in the list of `freep`, from `freep.node.next` on. -/
  freep : List Nat
  deriving Repr, DecidableEq

namespace PIDManager

/-- `init_pidmanager`. -/
def init : PIDManager := ⟨0, []⟩

/-- `reuse_pid`. -/
def reusePid (manager : PIDManager) (pid : Nat) : PIDManager :=
  { manager with freep := pid :: manager.freep }

/-- `getpid`. -/
def getpid (manager : PIDManager) : Nat × PIDManager :=
  match manager.freep with
  | [] => (manager.max + 1, { manager with max := manager.max + 1 })
  | pid :: rest => (pid, { manager with freep := rest })

/-- The identifiers up to `max` that are not in the list. -/
def Taken (manager : PIDManager) (pid : Nat) : Prop :=
  1 ≤ pid ∧ pid ≤ manager.max ∧ pid ∉ manager.freep

/-- The identifiers in the list and those in use are those up to `max`, each in one place. -/
structure Sound (manager : PIDManager) (own : Nat → Option Nat) : Prop where
  nodup : manager.freep.Nodup
  free : ∀ pid ∈ manager.freep, 1 ≤ pid ∧ pid ≤ manager.max
  exact : Exact manager.Taken own

namespace Sound

variable {manager : PIDManager} {own own' : Nat → Option Nat} {proc pid : Nat}

theorem init : PIDManager.init.Sound fun _ => none := by
  refine ⟨List.nodup_nil, by simp [PIDManager.init], nofun, fun pid => ?_⟩
  simp only [Taken, PIDManager.init, reduceCtorEq, exists_false, iff_false]
  omega

theorem congr (sound : manager.Sound own) (same : ∀ proc, own' proc = own proc) :
    manager.Sound own' :=
  ⟨sound.nodup, sound.free, sound.exact.congr (fun _ => .rfl) same⟩

/-- A process without an identifier gets one. -/
theorem getpid (sound : manager.Sound own) (bare : own proc = none) :
    manager.getpid.2.Sound (Function.update own proc (some manager.getpid.1)) := by
  unfold PIDManager.getpid
  cases list : manager.freep with
  | nil =>
    have unused : ¬ manager.Taken (manager.max + 1) := fun taken => by
      have within := taken.2.1
      omega
    refine ⟨by simp, by simp, (sound.exact.take bare unused).congr (fun pid => ?_)
      fun _ => rfl⟩
    simp only [Taken, list, List.not_mem_nil, not_false_eq_true, and_true]
    omega
  | cons pid rest =>
    have nodup := sound.nodup
    have range := sound.free
    rw [list] at nodup range
    obtain ⟨absent, nodup⟩ := List.nodup_cons.mp nodup
    have unused : ¬ manager.Taken pid := fun taken => taken.2.2 (by simp [list])
    refine ⟨nodup, fun other member => range other (List.mem_cons_of_mem _ member),
      (sound.exact.take bare unused).congr (fun other => ?_) fun _ => rfl⟩
    simp only [Taken, list, List.mem_cons, not_or]
    by_cases same : other = pid
    · subst same
      simp [absent, range other]
    · simp [same]

/-- An identifier is given back. -/
theorem reusePid (sound : manager.Sound own) (owned : own proc = some pid) :
    (manager.reusePid pid).Sound (Function.update own proc none) := by
  obtain ⟨first, last, absent⟩ := (sound.exact.taken_iff pid).mpr ⟨proc, owned⟩
  refine ⟨List.nodup_cons.mpr ⟨absent, sound.nodup⟩, fun other member => ?_,
    (sound.exact.release owned).congr (fun other => ?_) fun _ => rfl⟩
  · obtain rfl | member := List.mem_cons.mp member
    · exact ⟨first, last⟩
    · exact sound.free other member
  · simp only [Taken, PIDManager.reusePid, List.mem_cons, not_or]
    tauto

end Sound

end PIDManager

/-! ## What the steps of the process tree do to identifiers -/

/-- Which part of its life a process is in. -/
inductive Phase where
  /-- It was not initialised. -/
  | unborn
  /-- It was initialised and `wait` has not returned it. -/
  | live
  /-- `wait` has returned it. -/
  | reaped
  deriving Repr, DecidableEq

/-- Which part of its life a process is in. -/
@[simp] def phase : Stage → Phase
  | .unborn => .unborn
  | .reaped => .reaped
  | _ => .live

/-- The process was initialised and `wait` has not returned it. -/
def live (stage : Stage) : Bool := phase stage = .live

/-- A process that was started was initialised. -/
theorem phase_of_started {stage : Stage} (started : stage.started = true) :
    phase stage = .live := by
  cases stage <;> first | rfl | contradiction

theorem live_of_started {stage : Stage} (started : stage.started = true) : live stage = true := by
  rw [live, phase_of_started started]
  rfl

/-- A process that keeps its identifiers. -/
structure Same (before after : Proc) : Prop where
  phase : phase after.stage = phase before.stage
  started : after.stage.started = before.stage.started
  container : after.container = before.container
  /-- It does not become the root process of a container. -/
  founder : ∀ container inserted, after.stage = .founder container inserted →
    before.stage = .founder container inserted

namespace Same

variable {before middle after : Proc}

theorem refl (p : Proc) : Same p p := ⟨rfl, rfl, rfl, fun _ _ => id⟩

theorem live (same : Same before after) : live after.stage = live before.stage := by
  rw [Pid.live, same.phase, Pid.live]

theorem trans (one : Same before middle) (two : Same middle after) : Same before after :=
  ⟨two.phase.trans one.phase, two.started.trans one.started, two.container.trans one.container,
    fun container inserted founder => one.founder _ _ (two.founder container inserted founder)⟩

/-- A process that was started goes on. -/
theorem of_started (was : before.stage.started = true) (is : after.stage.started = true)
    (container : after.container = before.container) : Same before after := by
  refine ⟨(phase_of_started is).trans (phase_of_started was).symm, is.trans was.symm, container, ?_⟩
  intro _ _ founder
  rw [founder] at is
  contradiction

end Same

/-- Steps after which nobody but the process itself sleeps on a `childexit`, and processes other
than `subject` keep their identifiers. -/
structure Moved (subject : Option Nat) (s s' : ProcTree.State) : Prop where
  alone : ∀ proc, (s'.procs proc).Alone proc
  same : ∀ proc, subject ≠ some proc → Same (s.procs proc) (s'.procs proc)
  containers : s.numContainers ≤ s'.numContainers

namespace Moved

variable {s s' s'' : ProcTree.State} {subject : Option Nat} {this proc child : Nat}

theorem refl (alone : ∀ proc, (s.procs proc).Alone proc) : Moved subject s s :=
  ⟨alone, fun _ _ => .refl _, Nat.le_refl _⟩

theorem note (moved : Moved subject s s') (event : ProcTree.Event) :
    Moved subject s (s'.note event) := ⟨moved.alone, moved.same, moved.containers⟩

theorem fail (moved : Moved subject s s') (site : ProcTree.PanicSite) :
    Moved subject s (s'.fail site) := ⟨moved.alone, moved.same, moved.containers⟩

/-- One process changes. -/
theorem modify (moved : Moved subject s s') {change : Proc → Proc}
    (alone : (change (s'.procs proc)).Alone proc)
    (same : subject ≠ some proc → Same (s'.procs proc) (change (s'.procs proc))) :
    Moved subject s (s'.modify proc change) := by
  refine ⟨fun other => ?_, fun other notSubject => ?_, moved.containers⟩
  · rw [ProcTree.modify_procs]
    split
    · rename_i isProc
      exact isProc ▸ alone
    · exact moved.alone other
  · rw [ProcTree.modify_procs]
    split
    · rename_i isProc
      subst isProc
      exact (moved.same other notSubject).trans (same notSubject)
    · exact moved.same other notSubject

/-- One process changes neither its stage nor its semaphore. -/
theorem modify_plain (moved : Moved subject s s') (proc : Nat) (change : Proc → Proc)
    (stage : ∀ p, (change p).stage = p.stage) (sem : ∀ p, (change p).childexit = p.childexit)
    (container : subject ≠ some proc →
      (change (s'.procs proc)).container = (s'.procs proc).container) :
    Moved subject s (s'.modify proc change) := by
  refine moved.modify ?_ fun notSubject =>
    ⟨by rw [stage], by rw [stage], container notSubject, fun _ _ founder => by rwa [stage] at founder⟩
  have alone := moved.alone proc
  unfold Proc.Alone at alone ⊢
  rwa [stage, sem]

/-- A process that does not sleep enters a stage in which it does not sleep either. -/
theorem enter (moved : Moved subject s s') {before after : Stage} (was : s'.stage proc = before)
    (awake : before ≠ .asleep false) (will : after ≠ .asleep false)
    (same : subject ≠ some proc → phase after = phase before ∧ after.started = before.started ∧
      ∀ container inserted, after ≠ .founder container inserted) :
    Moved subject s (s'.enter proc after) := by
  refine moved.modify ?_ fun notSubject => ?_
  · obtain ⟨asleep, -⟩ | ⟨-, rest⟩ := moved.alone proc
    · exact absurd (was.symm.trans asleep) awake
    · exact .inr ⟨will, rest⟩
  · have stage : (s'.procs proc).stage = before := was
    obtain ⟨phase, started, founder⟩ := same notSubject
    exact ⟨by rw [stage, phase], by rw [stage, started], rfl,
      fun container inserted founds => absurd founds (founder container inserted)⟩

/-- A process that was started changes its stage and its semaphore. -/
theorem settle (moved : Moved subject s s') {stage : Stage} {sem : OsLab.Common.Semaphore}
    (was : (s'.stage this).started = true) (will : stage.started = true)
    (alone : ({ s'.procs this with stage := stage, childexit := sem } : Proc).Alone this) :
    Moved subject s ((s'.modify this ({ · with childexit := sem })).enter this stage) := by
  rw [ProcTree.State.enter, ProcTree.modify_modify]
  exact moved.modify alone fun _ => .of_started was will rfl

/-- `childexit` of a process is posted any number of times. -/
theorem post (moved : Moved subject s s') (target times : Nat) :
    Moved subject s ((·.postChildexit target)^[times] s') ∧
      ∀ proc stage, (∀ up, stage ≠ .asleep up) → s'.stage proc = stage →
        ((·.postChildexit target)^[times] s').stage proc = stage := by
  rw [ProcTree.postChildexit_iterate (moved.alone target)]
  have kept : ∀ p : Proc, p.Alone target → (Proc.notified^[times] p).Alone target ∧
      Same p (Proc.notified^[times] p) ∧
      ∀ stage, (∀ up, stage ≠ .asleep up) → p.stage = stage →
        (Proc.notified^[times] p).stage = stage := by
    induction times with
    | zero => exact fun p alone => ⟨alone, .refl p, fun _ _ => id⟩
    | succ times ih =>
      intro p alone
      obtain ⟨alone', same, stays⟩ := ih p.notified alone.notified
      rw [Function.iterate_succ_apply]
      have woken : Same p p.notified := by
        refine ⟨?_, ProcTree.Stage.woken_started _, rfl, fun container inserted founder => ?_⟩
        · simp only [Proc.notified]
          cases p.stage <;> rfl
        · rwa [Proc.notified, ProcTree.Stage.woken_eq (by simp)] at founder
      refine ⟨alone', woken.trans same, fun stage awake was => stays stage awake ?_⟩
      rwa [Proc.notified, ProcTree.Stage.woken_eq awake]
  obtain ⟨alone, same, stays⟩ := kept _ (moved.alone target)
  refine ⟨moved.modify alone fun _ => same, fun proc stage awake was => ?_⟩
  rw [ProcTree.State.stage, ProcTree.modify_procs]
  split
  · rename_i isTarget
    exact stays stage awake (isTarget ▸ was)
  · exact was

/-- A process enters the list of another. -/
theorem adopt (moved : Moved subject s s') : Moved subject s (s'.adopt this child) := by
  unfold ProcTree.State.adopt
  refine (moved.modify_plain _ _ ?_ ?_ ?_).modify_plain _ _ ?_ ?_ ?_ <;> intros <;> rfl

theorem setParentToThis (moved : Moved subject s s') (this child : Nat) :
    Moved subject s (s'.setParentToThis this child) ∧
      ∀ other, (s'.setParentToThis this child).stage other = s'.stage other := by
  unfold ProcTree.State.setParentToThis
  split
  · exact ⟨moved.adopt, fun other => ProcTree.adopt_stage ..⟩
  · exact ⟨moved.fail _, fun _ => rfl⟩

/-- `start_proc` starts a process. -/
theorem startProc (moved : Moved (some proc) s s') (early : (s'.stage proc).started = false) :
    Moved (some proc) s (s'.startProc proc) := by
  have awake : s'.stage proc ≠ .asleep false := by
    intro asleep
    rw [asleep] at early
    contradiction
  unfold ProcTree.State.startProc
  dsimp only
  split
  · exact moved.adopt.enter (ProcTree.adopt_stage ..) awake (by simp) fun other => absurd rfl other
  · exact moved.enter rfl awake (by simp) fun other => absurd rfl other

/-- `start_proc` leaves a process in its container. -/
theorem startProc_container (s : ProcTree.State) (proc other : Nat) :
    ((s.startProc proc).procs other).container = (s.procs other).container := by
  have adopted : ((s.adopt rootProc proc).procs other).container = (s.procs other).container := by
    simp only [ProcTree.State.adopt, ProcTree.modify_procs]
    split <;> split <;> simp_all
  unfold ProcTree.State.startProc
  dsimp only
  split <;> rw [ProcTree.enter_procs] <;> split
  · rename_i isProc
    subst isProc
    exact adopted
  · exact adopted
  · rename_i isProc
    subst isProc
    rfl
  · rfl

/-- `exit` hands the children over. -/
theorem handOver (moved : Moved subject s s') (ready : s'.stage this = .ready) :
    Moved subject s (s'.handOver this) ∧ (s'.handOver this).stage this = .ready := by
  let named (proc : Nat) : Proc :=
    if proc ∈ (s'.procs this).children then { s'.procs proc with parent := some rootProc }
    else s'.procs proc
  have renamed : Moved subject s { s' with procs := named } := by
    refine ⟨fun proc => ?_, fun proc other => (moved.same proc other).trans ?_, moved.containers⟩
    · have alone := moved.alone proc
      unfold Proc.Alone at alone ⊢
      dsimp only [named]
      split <;> exact alone
    · dsimp only [named]
      split
      · exact ⟨rfl, rfl, rfl, fun _ _ => id⟩
      · exact .refl _
  have stage : (named this).stage = .ready := by
    dsimp only [named]
    split <;> exact ready
  have given := (renamed.modify_plain (s'.rootproc (s'.procs this).container)
    (fun p => { p with children := (s'.procs this).children ++ p.children }) (fun _ => rfl)
    (fun _ => rfl) fun _ => rfl).modify_plain this ({ · with children := [] }) (fun _ => rfl)
    (fun _ => rfl) fun _ => rfl
  obtain ⟨posted, stays⟩ := given.post (s'.rootproc (s'.procs this).container) (s'.zombies this)
  refine ⟨posted, stays this _ (by simp) ?_⟩
  simp only [ProcTree.State.stage, ProcTree.modify_procs, if_true]
  split
  · rename_i isRoot
    simp only [← isRoot]
    exact stage
  · exact stage

/-- The first section of `exit`. -/
theorem exit (moved : Moved subject s s') (ready : s'.stage this = .ready) (code : Int) :
    Moved subject s (s'.exit this code) := by
  have coded : Moved subject s ((s'.modify this ({ · with exitcode := code })).note
      (.exited this code)) := by
    refine (moved.modify_plain _ _ ?_ ?_ ?_).note _ <;> intros <;> rfl
  have still : ((s'.modify this ({ · with exitcode := code })).note (.exited this code)).stage this =
      .ready := by
    simpa [ProcTree.State.stage] using ready
  unfold ProcTree.State.exit
  split
  · exact moved.fail _
  · split
    · exact moved.fail _
    · dsimp only
      split
      · exact coded.enter still (by simp) (by simp) fun _ => ⟨rfl, rfl, by simp⟩
      · obtain ⟨given, ready'⟩ := coded.handOver still
        exact given.enter ready' (by simp) (by simp) fun _ => ⟨rfl, rfl, by simp⟩

/-- `fork` or `create_container` creates a process. -/
theorem create (moved : Moved (some child) s s') {p : Proc} (ready : s'.stage this = .ready)
    (unborn : s'.stage child = .unborn) (alone : p.Alone child) :
    Moved (some child) s ((s'.modify child fun _ => p).enter this (.creating child)) := by
  have apart : this ≠ child := by
    rintro rfl
    rw [ready] at unborn
    contradiction
  have made : Moved (some child) s (s'.modify child fun _ => p) :=
    moved.modify alone fun other => absurd rfl other
  have stays : (s'.modify child fun _ => p).stage this = .ready := by
    rwa [ProcTree.State.stage, ProcTree.modify_procs, if_neg apart]
  exact made.enter stays (by simp) (by simp) fun _ => ⟨rfl, rfl, by simp⟩

/-- `fork` or `create_container` starts the process it has created. -/
theorem startPrivate (moved : Moved (some child) s s') (creating : s'.stage this = .creating child)
    (early : (s'.stage child).started = false) :
    Moved (some child) s ((s'.startProc child).enter this .ready) := by
  have apart : this ≠ child := by
    rintro rfl
    rw [creating] at early
    contradiction
  have stays : (s'.startProc child).stage this = .creating child := by
    rw [ProcTree.startProc_stage, if_neg apart, creating]
  exact (moved.startProc early).enter stays (by simp) (by simp) fun _ => ⟨rfl, rfl, nofun⟩

/-- `wait_sem` up to the call of `sched`. -/
theorem waitSem (moved : Moved subject s s') (waiting : s'.stage this = .waiting) :
    Moved subject s (s'.waitSem this) := by
  obtain ⟨asleep, -⟩ | ⟨-, list, nonnegative⟩ := moved.alone this
  · rw [ProcTree.State.stage, asleep] at waiting
    contradiction
  have was : (s'.stage this).started = true := by rw [waiting]; rfl
  unfold ProcTree.State.waitSem OsLab.Common.Semaphore.waitSem
  by_cases passes : 0 ≤ (s'.procs this).childexit.val - 1
  · simp only [passes, if_true]
    exact moved.settle was rfl (.inr ⟨by simp, list, passes⟩)
  · simp only [passes, if_false]
    have zero : (s'.procs this).childexit.val = 0 := by omega
    refine moved.settle was rfl (.inl ⟨rfl, ?_⟩)
    simp [zero, list]

/-- `wait_sem` after `sched` has returned. -/
theorem resume (moved : Moved subject s s') {up : Bool} (asleep : s'.stage this = .asleep up) :
    Moved subject s (s'.resume this up) := by
  unfold ProcTree.State.resume
  cases up with
  | true => exact moved.enter asleep (by simp) (by simp) fun _ => ⟨rfl, rfl, nofun⟩
  | false =>
    obtain ⟨-, sem⟩ | ⟨awake, -⟩ := moved.alone this
    · simp only [sem, Bool.false_eq_true, if_false]
      refine (moved.settle (by rw [asleep]; rfl) rfl (.inr ⟨by simp, ?_⟩)).note _
      simp [OsLab.Common.Semaphore.unwait]
    · exact absurd asleep awake

end Moved

/-- The process that an action initialises, starts, reaps or puts into a container. -/
def subject (s : ProcTree.State) : Act → Option Nat
  | .create proc | .setContainer _ proc | .start proc | .forkCreate _ proc
  | .containerCreate _ proc => some proc
  | .forkStart this | .containerInsert this | .containerStart this =>
    match s.stage this with
    | .creating child => some child
    | _ => none
  | .reap this =>
    match s.findZombie this (s.procs this).children with
    | .ok found => found
    | .error _ => none
  | _ => none

/-- The loop of `wait` finds zombies. -/
theorem findZombie_zombie {s : ProcTree.State} {this child : Nat} {children : List Nat}
    (found : s.findZombie this children = .ok (some child)) : s.stage child = .zombie := by
  induction children with
  | nil => simp [ProcTree.State.findZombie] at found
  | cons other rest ih =>
    rw [ProcTree.State.findZombie] at found
    split at found
    · simp at found
    · split at found
      · rename_i zombie
        simp only [Except.ok.injEq, Option.some.injEq] at found
        exact found ▸ zombie
      · exact ih found

/-- A step changes the identifiers of its subject only. -/
theorem step_moved {s s' : ProcTree.State} {act : Act} (alone : ∀ proc, (s.procs proc).Alone proc)
    (taken : s.step act = some s') : Moved (subject s act) s s' := by
  have still : Moved (subject s act) s s := .refl alone
  have fresh : ∀ {proc stage parent container}, ({ Proc.fresh with
      stage := stage, parent := parent, container := container } : Proc).Alone proc ∨
        stage = .asleep false := by
    intro proc stage parent container
    by_cases asleep : stage = .asleep false
    · exact .inr asleep
    · exact .inl (.inr ⟨asleep, rfl, Int.le_refl 0⟩)
  unfold ProcTree.State.step at taken
  split at taken
  · contradiction
  cases act with
  | create proc =>
    simp only [Option.ite_none_right_eq_some, Option.some.injEq] at taken
    obtain ⟨-, rfl⟩ := taken
    exact still.modify (fresh.resolve_right (by simp)) fun other => absurd rfl other
  | setContainer this proc =>
    simp only [Option.ite_none_right_eq_some, Option.some.injEq] at taken
    obtain ⟨-, rfl⟩ := taken
    exact still.modify_plain _ _ (fun _ => rfl) (fun _ => rfl) fun other => absurd rfl other
  | setParent this proc =>
    simp only [Option.ite_none_right_eq_some, Option.some.injEq] at taken
    obtain ⟨-, rfl⟩ := taken
    exact (still.setParentToThis this proc).1
  | start proc =>
    simp only [Option.ite_none_right_eq_some, Option.some.injEq] at taken
    obtain ⟨⟨-, created⟩, rfl⟩ := taken
    exact still.startProc (by rw [created]; rfl)
  | forkCreate this child =>
    simp only [Option.ite_none_right_eq_some, Option.some.injEq] at taken
    obtain ⟨⟨-, ready, unborn⟩, rfl⟩ := taken
    exact still.create ready unborn (fresh.resolve_right (by simp))
  | forkInsert this =>
    dsimp only at taken
    split at taken
    · rename_i child creating
      simp only [Option.ite_none_right_eq_some, Option.some.injEq] at taken
      obtain ⟨⟨-, forked⟩, rfl⟩ := taken
      have listed := still.modify_plain this (fun p => { p with children := child :: p.children })
        (fun _ => rfl) (fun _ => rfl) fun _ => rfl
      refine listed.enter ?_ (by simp : Stage.forked false ≠ _) (by simp) fun _ => ⟨rfl, rfl, by simp⟩
      rw [ProcTree.State.stage, ProcTree.modify_procs]
      split
      · rename_i isThis
        exact isThis ▸ forked
      · exact forked
    · contradiction
  | forkStart this =>
    dsimp only at taken
    split at taken
    · rename_i child creating
      simp only [Option.ite_none_right_eq_some, Option.some.injEq] at taken
      obtain ⟨⟨-, forked⟩, rfl⟩ := taken
      rw [subject, creating] at still ⊢
      exact still.startPrivate creating (by rw [forked]; rfl)
    · contradiction
  | containerCreate this child =>
    simp only [Option.ite_none_right_eq_some, Option.some.injEq] at taken
    obtain ⟨⟨-, ready, unborn⟩, rfl⟩ := taken
    have opened : Moved (some child) s
        { s with rootproc := Function.update s.rootproc s.numContainers child,
                 numContainers := s.numContainers + 1 } :=
      ⟨alone, fun _ _ => .refl _, Nat.le_succ _⟩
    exact opened.create ready unborn (fresh.resolve_right (by simp))
  | containerInsert this =>
    dsimp only at taken
    split at taken
    · rename_i child creating
      split at taken
      · rename_i container founder
        simp only [Option.ite_none_right_eq_some, Option.some.injEq] at taken
        obtain ⟨-, rfl⟩ := taken
        rw [subject, creating] at still ⊢
        obtain ⟨adopted, stays⟩ := still.setParentToThis this child
        refine adopted.modify ?_ fun other => absurd rfl other
        obtain ⟨asleep, -⟩ | ⟨-, rest⟩ := adopted.alone child
        · rw [← ProcTree.State.stage, stays, founder] at asleep
          contradiction
        · exact .inr ⟨by simp, rest⟩
      · contradiction
    · contradiction
  | containerStart this =>
    dsimp only at taken
    split at taken
    · rename_i child creating
      split at taken
      · rename_i container founder
        simp only [Option.ite_none_right_eq_some, Option.some.injEq] at taken
        obtain ⟨-, rfl⟩ := taken
        rw [subject, creating] at still ⊢
        exact still.startPrivate creating (by rw [founder]; rfl)
      · contradiction
    · contradiction
  | exit this code =>
    simp only [Option.ite_none_right_eq_some, Option.some.injEq] at taken
    obtain ⟨⟨-, ready⟩, rfl⟩ := taken
    exact still.exit ready code
  | exitNotify this =>
    dsimp only at taken
    split at taken
    · rename_i target parent
      simp only [Option.ite_none_right_eq_some, Option.some.injEq] at taken
      obtain ⟨⟨-, exiting⟩, rfl⟩ := taken
      obtain ⟨posted, stays⟩ := still.post target 1
      have left := (posted.note (.notified this target)).enter (stays this _ (by simp) exiting)
        (by simp) (by simp : Stage.posted ≠ .asleep false) fun _ => ⟨rfl, rfl, by simp⟩
      exact ⟨left.alone, left.same, left.containers⟩
    · contradiction
  | exitZombie this =>
    simp only [Option.ite_none_right_eq_some, Option.some.injEq] at taken
    obtain ⟨⟨-, posted⟩, rfl⟩ := taken
    have dead : Moved _ s (s.enter this .zombie) := still.enter posted (by simp) (by simp)
      fun _ => ⟨rfl, rfl, by simp⟩
    exact ⟨dead.alone, dead.same, dead.containers⟩
  | wait this =>
    simp only [Option.ite_none_right_eq_some] at taken
    obtain ⟨⟨-, ready⟩, done⟩ := taken
    split at done
    · obtain rfl := Option.some.inj done
      exact still.note _
    · obtain rfl := Option.some.inj done
      exact still.enter ready (by simp) (by simp) fun _ => ⟨rfl, rfl, by simp⟩
  | waitSem this =>
    simp only [Option.ite_none_right_eq_some, Option.some.injEq] at taken
    obtain ⟨waiting, rfl⟩ := taken
    exact still.waitSem waiting
  | resume this =>
    dsimp only at taken
    split at taken
    · rename_i up asleep
      obtain rfl := Option.some.inj taken
      exact still.resume asleep
    · contradiction
  | reap this =>
    simp only [Option.ite_none_right_eq_some, Option.some.injEq] at taken
    obtain ⟨⟨-, granted⟩, rfl⟩ := taken
    unfold ProcTree.State.reap
    cases found : s.findZombie this (s.procs this).children with
    | error site => exact still.fail site
    | ok child =>
      cases child with
      | none =>
        have woken : Moved _ s (s.enter this .ready) := still.enter granted (by simp) (by simp)
          fun _ => ⟨rfl, rfl, by simp⟩
        exact woken.note _
      | some child =>
        have zombie := findZombie_zombie found
        have apart : this ≠ child := by
          rintro rfl
          rw [zombie] at granted
          contradiction
        rw [subject, found] at still ⊢
        have listed := still.modify_plain this
          (fun p => { p with children := p.children.erase child }) (fun _ => rfl) (fun _ => rfl)
          fun _ => rfl
        have still' : (s.modify this fun p => { p with children := p.children.erase child }).stage
            child = .zombie := by
          simpa [ProcTree.State.stage, Ne.symm apart] using zombie
        have buried := listed.enter still' (by simp) (by simp : Stage.reaped ≠ .asleep false)
          fun other => absurd rfl other
        have stays : ((s.modify this fun p => { p with children := p.children.erase child }).enter
            child .reaped).stage this = .granted := by
          simpa [ProcTree.State.stage, apart] using granted
        have woken := buried.enter stays (by simp) (by simp : Stage.ready ≠ .asleep false)
          fun _ => ⟨rfl, rfl, by simp⟩
        exact woken.note _

/-! ## The machine -/

/-- What `fork` and `wait` return. -/
inductive Event where
  /-- `fork` returned this identifier to the parent. -/
  | forked (this child pid : Nat)
  /-- `wait` returned this identifier to the parent. -/
  | waited (this child pid : Nat)
  deriving Repr, DecidableEq

/-- The process tree, the identifiers of the processes and their managers. -/
structure State where
  tree : ProcTree.State
  /-- `pid` of every process. -/
  pid : Nat → Nat
  /-- `localpid` of every process. -/
  localpid : Nat → Nat
  globalmanager : PIDManager
  /-- `localpidmanager` of every container. -/
  localpidmanager : Nat → PIDManager
  /-- What `fork` and `wait` have returned, latest first. -/
  history : List Event

namespace State

/-- `init_proc`: the process gets a global identifier. -/
def initProc (s : State) (proc : Nat) : State :=
  let (pid, manager) := s.globalmanager.getpid
  { s with pid := Function.update s.pid proc pid, globalmanager := manager }

/-- `init_container`: its manager has given out nothing. -/
def initContainer (s : State) (container : Nat) : State :=
  { s with localpidmanager := Function.update s.localpidmanager container .init }

/-- `start_proc`: the process gets an identifier of its container. -/
def startProc (s : State) (proc : Nat) : State :=
  let container := (s.tree.procs proc).container
  let (pid, manager) := (s.localpidmanager container).getpid
  { s with
    localpid := Function.update s.localpid proc pid
    localpidmanager := Function.update s.localpidmanager container manager }

/-- `wait` returns a child, and its identifiers are given back. -/
def reap (s : State) (this child : Nat) : State :=
  let container := (s.tree.procs child).container
  { s with
    globalmanager := s.globalmanager.reusePid (s.pid child)
    localpidmanager := Function.update s.localpidmanager container
      ((s.localpidmanager container).reusePid (s.localpid child))
    history := .waited this child (s.localpid child) :: s.history }

/-- What a step does to identifiers. -/
def number (s : State) : Act → State
  | .create proc => s.initProc proc
  | .forkCreate _ child => s.initProc child
  | .containerCreate _ child => (s.initContainer s.tree.numContainers).initProc child
  | .start proc => s.startProc proc
  | .forkStart this =>
    match s.tree.stage this with
    | .creating child =>
      { s.startProc child with history := .forked this child (s.pid child) :: s.history }
    | _ => s
  | .containerStart this =>
    match s.tree.stage this with
    | .creating child => s.startProc child
    | _ => s
  | .reap this =>
    match s.tree.findZombie this (s.tree.procs this).children with
    | .ok (some child) => s.reap this child
    | _ => s
  | _ => s

/-- One step of the process tree, with its identifiers. -/
def step (s : State) (act : Act) : Option State :=
  (s.tree.step act).map fun tree => { s.number act with tree }

/-- After `define_init(root_proc)`: `root_proc` has the first identifiers. -/
def boot : State where
  tree := .boot
  pid _ := 1
  localpid _ := 1
  globalmanager := ⟨1, []⟩
  localpidmanager container := if container = 0 then ⟨1, []⟩ else .init
  history := []

/-- The global identifiers in use. -/
def globalOwn (s : State) (proc : Nat) : Option Nat :=
  if live (s.tree.stage proc) then some (s.pid proc) else none

/-- The identifiers of a container in use. -/
def localOwn (s : State) (container proc : Nat) : Option Nat :=
  if (s.tree.stage proc).started ∧ (s.tree.procs proc).container = container then
    some (s.localpid proc)
  else none

end State

/-- Processes with their identifiers as a machine. -/
def machine : Machine State Act where
  init s := s = .boot
  step := State.step

/-- The container of a process exists, also the one it is the root process of. -/
def Bound (n : Nat) (p : Proc) : Prop :=
  p.container < n ∧ ∀ container inserted, p.stage = .founder container inserted → container < n

/-- What holds between two steps. -/
structure Inv (s : State) : Prop where
  alone : ∀ proc, (s.tree.procs proc).Alone proc
  bound : ∀ proc, Bound s.tree.numContainers (s.tree.procs proc)
  global : s.globalmanager.Sound s.globalOwn
  inner : ∀ container, (s.localpidmanager container).Sound (s.localOwn container)

namespace Inv

variable {s : State} {tree' : ProcTree.State} {subject : Option Nat} {proc child : Nat}

/-- Other processes than the subject stay in containers that exist. -/
theorem bound_moved (inv : Inv s) (moved : Moved subject s.tree tree')
    (own : ∀ proc, subject = some proc → Bound tree'.numContainers (tree'.procs proc)) :
    ∀ proc, Bound tree'.numContainers (tree'.procs proc) := by
  intro proc
  by_cases isSubject : subject = some proc
  · exact own proc isSubject
  · have same := moved.same proc isSubject
    have more := moved.containers
    obtain ⟨inside, founder⟩ := inv.bound proc
    refine ⟨by rw [same.container]; omega, fun container inserted founds => ?_⟩
    have before := founder container inserted (same.founder container inserted founds)
    omega

/-- A global identifier stays in use. -/
theorem globalOwn_same {s' : State} (same : Same (s.tree.procs proc) (s'.tree.procs proc))
    (pid : s'.pid proc = s.pid proc) : s'.globalOwn proc = s.globalOwn proc := by
  have live : live (s'.tree.stage proc) = live (s.tree.stage proc) := Same.live same
  simp only [State.globalOwn, live, pid]

/-- So does a local one. -/
theorem localOwn_same {s' : State} (same : Same (s.tree.procs proc) (s'.tree.procs proc))
    (pid : s'.localpid proc = s.localpid proc) (container : Nat) :
    s'.localOwn container proc = s.localOwn container proc := by
  have started : (s'.tree.stage proc).started = (s.tree.stage proc).started := same.started
  simp only [State.localOwn, started, same.container, pid]

/-- A process that was not started has no local identifier. -/
theorem localOwn_none (early : (s.tree.stage proc).started = false) (container : Nat) :
    s.localOwn container proc = none := by
  simp [State.localOwn, early]

/-- A step that gives out no identifier. -/
theorem keep (inv : Inv s) (moved : Moved subject s.tree tree') (history : List Event)
    (own : ∀ proc, subject = some proc → live (tree'.stage proc) = live (s.tree.stage proc) ∧
      (s.tree.stage proc).started = false ∧ (tree'.stage proc).started = false ∧
      Bound tree'.numContainers (tree'.procs proc)) :
    Inv { s with tree := tree', history := history } := by
  refine ⟨moved.alone, inv.bound_moved moved fun proc isSubject => (own proc isSubject).2.2.2,
    inv.global.congr fun proc => ?_, fun container => (inv.inner container).congr fun proc => ?_⟩
  · by_cases isSubject : subject = some proc
    · simp only [State.globalOwn, (own proc isSubject).1]
    · exact globalOwn_same (moved.same proc isSubject) rfl
  · by_cases isSubject : subject = some proc
    · obtain ⟨-, before, after, -⟩ := own proc isSubject
      rw [localOwn_none before, localOwn_none after]
    · refine localOwn_same ?_ ?_ container
      exacts [moved.same proc isSubject, rfl]

/-- A process is initialised. -/
theorem initProc (inv : Inv s) (moved : Moved (some child) s.tree tree')
    (unborn : s.tree.stage child = .unborn) (born : live (tree'.stage child) = true)
    (early : (tree'.stage child).started = false)
    (bound : Bound tree'.numContainers (tree'.procs child)) :
    Inv { s.initProc child with tree := tree' } := by
  have bare : s.globalOwn child = none := by simp [State.globalOwn, unborn, live]
  refine ⟨moved.alone, inv.bound_moved moved fun proc isSubject => ?_,
    (inv.global.getpid bare).congr fun proc => ?_,
    fun container => (inv.inner container).congr fun proc => ?_⟩
  · obtain rfl := Option.some.inj isSubject
    exact bound
  · by_cases isChild : proc = child
    · subst isChild
      simp [State.globalOwn, State.initProc, born]
    · rw [Function.update_of_ne isChild]
      exact globalOwn_same (moved.same proc (by simpa using Ne.symm isChild))
        (Function.update_of_ne isChild ..)
  · by_cases isChild : proc = child
    · subst isChild
      rw [localOwn_none early, localOwn_none (by rw [unborn]; rfl)]
    · refine localOwn_same ?_ ?_ container
      exacts [moved.same proc (by simpa using Ne.symm isChild), rfl]

/-- A container is made, in which there is nobody yet. -/
theorem initContainer (inv : Inv s) : Inv (s.initContainer s.tree.numContainers) := by
  refine ⟨inv.alone, inv.bound, inv.global, fun container => ?_⟩
  by_cases new : container = s.tree.numContainers
  · subst new
    simp only [State.initContainer, Function.update_self]
    refine PIDManager.Sound.init.congr fun proc => ?_
    have elsewhere : (s.tree.procs proc).container ≠ s.tree.numContainers :=
      Nat.ne_of_lt (inv.bound proc).1
    simp [State.localOwn, elsewhere]
  · simp only [State.initContainer, Function.update_of_ne new]
    exact inv.inner container

/-- A process is started. -/
theorem startProc (inv : Inv s) (moved : Moved (some child) s.tree tree') (history : List Event)
    (born : live (s.tree.stage child) = true) (early : (s.tree.stage child).started = false)
    (started : (tree'.stage child).started = true)
    (container : (tree'.procs child).container = (s.tree.procs child).container)
    (founder : ∀ container inserted, tree'.stage child ≠ .founder container inserted) :
    Inv { s.startProc child with tree := tree', history := history } := by
  have more := moved.containers
  have inside := (inv.bound child).1
  refine ⟨moved.alone, inv.bound_moved moved fun proc isSubject => ?_,
    inv.global.congr fun proc => ?_, fun other => ?_⟩
  · obtain rfl := Option.some.inj isSubject
    exact ⟨container ▸ Nat.lt_of_lt_of_le inside more, fun _ _ founds => absurd founds (founder _ _)⟩
  · by_cases isChild : proc = child
    · subst isChild
      simp only [State.globalOwn, born, live_of_started started]
      rfl
    · exact globalOwn_same (moved.same proc (by simpa using Ne.symm isChild)) rfl
  · have frame : ∀ proc, proc ≠ child →
        ({ s.startProc child with tree := tree', history := history } : State).localOwn other proc =
          s.localOwn other proc := by
      intro proc isChild
      refine localOwn_same ?_ ?_ other
      exacts [moved.same proc (by simpa using Ne.symm isChild), Function.update_of_ne isChild ..]
    by_cases here : other = (s.tree.procs child).container
    · subst here
      simp only [State.startProc, Function.update_self]
      refine ((inv.inner _).getpid (localOwn_none early _)).congr fun proc => ?_
      by_cases isChild : proc = child
      · subst isChild
        simp [State.localOwn, started, container]
      · rw [Function.update_of_ne isChild]
        exact frame proc isChild
    · simp only [State.startProc, Function.update_of_ne here]
      refine (inv.inner other).congr fun proc => ?_
      by_cases isChild : proc = child
      · subst isChild
        rw [localOwn_none early]
        simp [State.localOwn, container, Ne.symm here]
      · exact frame proc isChild

/-- A process is reaped. -/
theorem reap (inv : Inv s) (this : Nat) (moved : Moved (some child) s.tree tree')
    (zombie : s.tree.stage child = .zombie) (reaped : tree'.stage child = .reaped)
    (container : (tree'.procs child).container = (s.tree.procs child).container) :
    Inv { s.reap this child with tree := tree' } := by
  have more := moved.containers
  have inside := (inv.bound child).1
  have owned : s.globalOwn child = some (s.pid child) := by simp [State.globalOwn, zombie, live]
  have owned' : s.localOwn (s.tree.procs child).container child = some (s.localpid child) := by
    simp [State.localOwn, zombie, Stage.started]
  refine ⟨moved.alone, inv.bound_moved moved fun proc isSubject => ?_,
    (inv.global.reusePid owned).congr fun proc => ?_, fun other => ?_⟩
  · obtain rfl := Option.some.inj isSubject
    refine ⟨container ▸ Nat.lt_of_lt_of_le inside more, fun _ _ founds => ?_⟩
    rw [← ProcTree.State.stage, reaped] at founds
    contradiction
  · by_cases isChild : proc = child
    · subst isChild
      simp [State.globalOwn, reaped, live]
    · rw [Function.update_of_ne isChild]
      exact globalOwn_same (moved.same proc (by simpa using Ne.symm isChild)) rfl
  · have frame : ∀ proc, proc ≠ child →
        ({ s.reap this child with tree := tree' } : State).localOwn other proc =
          s.localOwn other proc := by
      intro proc isChild
      refine localOwn_same ?_ ?_ other
      exacts [moved.same proc (by simpa using Ne.symm isChild), rfl]
    have gone : ({ s.reap this child with tree := tree' } : State).localOwn other child = none :=
      localOwn_none (by rw [reaped]; rfl) other
    by_cases here : other = (s.tree.procs child).container
    · subst here
      simp only [State.reap, Function.update_self]
      refine ((inv.inner _).reusePid owned').congr fun proc => ?_
      by_cases isChild : proc = child
      · subst isChild
        rw [Function.update_self]
        exact gone
      · rw [Function.update_of_ne isChild]
        exact frame proc isChild
    · simp only [State.reap, Function.update_of_ne here]
      refine (inv.inner other).congr fun proc => ?_
      by_cases isChild : proc = child
      · subst isChild
        refine gone.trans ?_
        simp [State.localOwn, Ne.symm here]
      · exact frame proc isChild

theorem boot : Inv .boot := by
  have root : State.boot.globalOwn = Function.update (fun _ => none) rootProc (some 1) := by
    funext proc
    by_cases isRoot : proc = rootProc
    · subst isRoot
      rfl
    · simp [State.globalOwn, State.boot, ProcTree.State.boot, ProcTree.State.stage, isRoot, live]
  have inner : ∀ container, State.boot.localOwn container =
      Function.update (fun _ => none) rootProc (if container = 0 then some 1 else none) := by
    intro container
    funext proc
    by_cases isRoot : proc = rootProc
    · subst isRoot
      by_cases first : container = 0
      · subst first
        rfl
      · simp [State.localOwn, State.boot, ProcTree.State.boot, ProcTree.State.stage, Proc.fresh,
          first, Ne.symm first]
    · simp [State.localOwn, State.boot, ProcTree.State.boot, ProcTree.State.stage, isRoot,
        Stage.started]
  refine ⟨fun proc => ?_, fun proc => ?_, ?_, fun container => ?_⟩
  · simp only [State.boot, ProcTree.State.boot]
    split <;> exact .inr ⟨by simp, rfl, Int.le_refl 0⟩
  · simp only [State.boot, ProcTree.State.boot]
    split <;> exact ⟨Nat.zero_lt_one, by simp⟩
  · rw [root]
    exact PIDManager.Sound.init.getpid rfl
  · rw [inner]
    by_cases first : container = 0
    · subst first
      exact PIDManager.Sound.init.getpid rfl
    · simp only [State.boot, first, if_false]
      exact PIDManager.Sound.init.congr fun proc => by simp

/-- The process that `fork` or `create_container` creates. -/
theorem creating_procs {t : ProcTree.State} {this : Nat} (ready : t.stage this = .ready)
    (unborn : t.stage child = .unborn) (p : Proc) :
    ((t.modify child fun _ => p).enter this (.creating child)).procs child = p := by
  have apart : child ≠ this := by
    rintro rfl
    rw [ready] at unborn
    contradiction
  simp [apart]

/-- The process that `fork` or `create_container` has created is started. -/
theorem startPrivate (inv : Inv s) {this : Nat} (history : List Event)
    (moved : Moved (some child) s.tree ((s.tree.startProc child).enter this .ready))
    (creating : s.tree.stage this = .creating child) (born : live (s.tree.stage child) = true)
    (early : (s.tree.stage child).started = false) :
    Inv { s.startProc child with
      tree := (s.tree.startProc child).enter this .ready, history := history } := by
  have apart : child ≠ this := by
    rintro rfl
    rw [creating] at early
    contradiction
  have stage : ((s.tree.startProc child).enter this .ready).stage child = .ready := by
    rw [ProcTree.State.stage, ProcTree.enter_procs, if_neg apart, ← ProcTree.State.stage,
      ProcTree.startProc_stage, if_pos rfl]
  refine inv.startProc moved history born early (by rw [stage]; rfl) ?_ (by simp [stage])
  rw [ProcTree.enter_procs, if_neg apart, Moved.startProc_container]

/-- Steps with identifiers keep the invariant. -/
theorem step {s' : State} {act : Act} (inv : Inv s) (stepped : s.step act = some s') : Inv s' := by
  obtain ⟨tree', taken, rfl⟩ := Option.map_eq_some_iff.mp stepped
  clear stepped
  dsimp only
  have moved := step_moved inv.alone taken
  have some_container : 0 < s.tree.numContainers :=
    Nat.lt_of_le_of_lt (Nat.zero_le _) (inv.bound rootProc).1
  unfold ProcTree.State.step at taken
  split at taken
  · contradiction
  cases act with
  | create proc =>
    simp only [Option.ite_none_right_eq_some, Option.some.injEq] at taken
    obtain ⟨⟨-, unborn⟩, rfl⟩ := taken
    refine inv.initProc moved unborn ?_ ?_ ?_ <;>
      simp [ProcTree.State.stage, Proc.fresh, live, Stage.started, Bound, some_container,
        ProcTree.State.modify]
  | setContainer this proc =>
    simp only [Option.ite_none_right_eq_some, Option.some.injEq] at taken
    obtain ⟨⟨-, created⟩, rfl⟩ := taken
    refine inv.keep moved s.history fun proc isSubject => ?_
    obtain rfl := Option.some.inj isSubject
    have stage : (s.tree.procs proc).stage = .created := created
    simp only [ProcTree.State.stage, ProcTree.modify_procs, if_true, stage]
    exact ⟨trivial, rfl, rfl, (inv.bound this).1, by simp⟩
  | start proc =>
    simp only [Option.ite_none_right_eq_some, Option.some.injEq] at taken
    obtain ⟨⟨-, created⟩, rfl⟩ := taken
    have stage := ProcTree.startProc_stage s.tree proc proc
    rw [if_pos rfl] at stage
    exact inv.startProc moved s.history (by rw [created]; rfl) (by rw [created]; rfl)
      (by rw [stage]; rfl) (Moved.startProc_container ..) (by simp [stage])
  | forkCreate this child =>
    simp only [Option.ite_none_right_eq_some, Option.some.injEq] at taken
    obtain ⟨⟨-, ready, unborn⟩, rfl⟩ := taken
    have made := creating_procs ready unborn (Proc.forkedBy this (s.tree.procs this).container)
    refine inv.initProc moved unborn ?_ ?_ ?_
    all_goals simp only [ProcTree.State.stage, made]
    exacts [rfl, rfl, ⟨(inv.bound this).1, by rintro _ _ ⟨⟩⟩]
  | forkStart this =>
    dsimp only at taken
    split at taken
    · rename_i child creating
      simp only [Option.ite_none_right_eq_some, Option.some.injEq] at taken
      obtain ⟨⟨-, forked⟩, rfl⟩ := taken
      rw [subject, creating] at moved
      simp only [State.number, creating]
      exact inv.startPrivate _ moved creating (by rw [forked]; rfl) (by rw [forked]; rfl)
    · contradiction
  | containerCreate this child =>
    simp only [Option.ite_none_right_eq_some, Option.some.injEq] at taken
    obtain ⟨⟨-, ready, unborn⟩, rfl⟩ := taken
    let opened : ProcTree.State :=
      { s.tree with
        rootproc := Function.update s.tree.rootproc s.tree.numContainers child
        numContainers := s.tree.numContainers + 1 }
    have made : ((opened.modify child fun _ => .founderOf s.tree.numContainers).enter this
        (.creating child)).procs child = .founderOf s.tree.numContainers :=
      creating_procs ready unborn _
    have bound : Bound (s.tree.numContainers + 1) (.founderOf s.tree.numContainers) := by
      refine ⟨Nat.succ_pos _, fun container inserted founds => ?_⟩
      obtain ⟨rfl, -⟩ := Stage.founder.inj founds
      exact Nat.lt_succ_self _
    exact inv.initContainer.initProc moved unborn (congrArg (fun p => live p.stage) made)
      (congrArg (fun p => p.stage.started) made) ((congrArg (Bound _) made).mpr bound)
  | containerInsert this =>
    dsimp only at taken
    split at taken
    · rename_i child creating
      split at taken
      · rename_i container founder
        simp only [Option.ite_none_right_eq_some, Option.some.injEq] at taken
        obtain ⟨-, rfl⟩ := taken
        rw [subject, creating] at moved
        refine inv.keep moved s.history fun proc isSubject => ?_
        obtain rfl := Option.some.inj isSubject
        have inside := (inv.bound child).2 container false founder
        have more := moved.containers
        have stage : (s.tree.procs child).stage = .founder container false := founder
        simp only [ProcTree.State.stage, ProcTree.modify_procs, if_true, stage]
        refine ⟨rfl, rfl, rfl, Nat.lt_of_lt_of_le inside more, fun other inserted founds => ?_⟩
        obtain ⟨rfl, -⟩ := Stage.founder.inj founds
        exact Nat.lt_of_lt_of_le inside more
      · contradiction
    · contradiction
  | containerStart this =>
    dsimp only at taken
    split at taken
    · rename_i child creating
      split at taken
      · rename_i container founder
        simp only [Option.ite_none_right_eq_some, Option.some.injEq] at taken
        obtain ⟨-, rfl⟩ := taken
        rw [subject, creating] at moved
        simp only [State.number, creating]
        exact inv.startPrivate _ moved creating (by rw [founder]; rfl) (by rw [founder]; rfl)
      · contradiction
    · contradiction
  | reap this =>
    simp only [Option.ite_none_right_eq_some, Option.some.injEq] at taken
    obtain ⟨⟨-, granted⟩, rfl⟩ := taken
    unfold ProcTree.State.reap subject at moved
    unfold ProcTree.State.reap State.number
    cases found : s.tree.findZombie this (s.tree.procs this).children with
    | error site =>
      simp only [found] at moved ⊢
      exact inv.keep moved s.history (by simp)
    | ok child =>
      cases child with
      | none =>
        simp only [found] at moved ⊢
        exact inv.keep moved s.history (by simp)
      | some child =>
        simp only [found] at moved ⊢
        have zombie := findZombie_zombie found
        have apart : child ≠ this := by
          rintro rfl
          rw [zombie] at granted
          contradiction
        refine inv.reap this moved zombie ?_ ?_
        · simp [ProcTree.State.stage, apart]
        · simp [apart]
  | _ => exact inv.keep moved s.history (by rintro _ ⟨⟩)

theorem reach {guard : State → Act → Prop} (reached : machine.Reach guard s) : Inv s :=
  Machine.Reach.invariant reached (fun _ initial => initial ▸ boot)
    fun _ _ _ _ inv _ taken => inv.step taken

end Inv

/-- The identifiers in the list of a manager and those in use are disjoint, without duplicates, and
together those from 1 to `max`. -/
structure PIDManager.Splits (manager : PIDManager) (used : Nat → Prop) : Prop where
  nodup : manager.freep.Nodup
  disjoint : ∀ pid ∈ manager.freep, ¬ used pid
  all : ∀ pid, pid ∈ manager.freep ∨ used pid ↔ 1 ≤ pid ∧ pid ≤ manager.max

theorem PIDManager.Sound.splits {manager : PIDManager} {own : Nat → Option Nat} {used : Nat → Prop}
    (sound : manager.Sound own) (owned : ∀ pid, used pid ↔ ∃ proc, own proc = some pid) :
    manager.Splits used := by
  have taken : ∀ pid, used pid ↔ manager.Taken pid := fun pid =>
    (owned pid).trans (sound.exact.taken_iff pid).symm
  refine ⟨sound.nodup, fun pid member inUse => ((taken pid).mp inUse).2.2 member, fun pid => ?_⟩
  rw [taken]
  constructor
  · rintro (member | ⟨first, last, -⟩)
    · exact sound.free pid member
    · exact ⟨first, last⟩
  · rintro ⟨first, last⟩
    by_cases member : pid ∈ manager.freep
    · exact .inl member
    · exact .inr ⟨first, last, member⟩

/-- Processes that were initialised and not reaped have different global identifiers, processes of
one container that were started and not reaped have different local ones, and every manager has
each identifier up to its `max` either in its list or in use. -/
theorem pids_unique (s : State) (reached : machine.Reach Machine.Any s) :
    (∀ proc other, live (s.tree.stage proc) → live (s.tree.stage other) →
      s.pid proc = s.pid other → proc = other) ∧
    (∀ proc other, (s.tree.stage proc).started → (s.tree.stage other).started →
      (s.tree.procs proc).container = (s.tree.procs other).container →
      s.localpid proc = s.localpid other → proc = other) ∧
    s.globalmanager.Splits (fun pid => ∃ proc, live (s.tree.stage proc) ∧ s.pid proc = pid) ∧
    ∀ container, (s.localpidmanager container).Splits fun pid => ∃ proc,
      (s.tree.stage proc).started ∧ (s.tree.procs proc).container = container ∧
        s.localpid proc = pid := by
  have inv := Inv.reach reached
  refine ⟨fun proc other one two same => ?_, fun proc other one two inside same => ?_, ?_,
    fun container => ?_⟩
  · refine inv.global.exact.alone (b := s.pid proc) ?_ ?_
    · simp [State.globalOwn, one]
    · simp [State.globalOwn, two, same]
  · refine (inv.inner (s.tree.procs proc).container).exact.alone (b := s.localpid proc) ?_ ?_
    · simp [State.localOwn, one]
    · simp [State.localOwn, two, inside, same]
  · exact inv.global.splits fun pid => by simp [State.globalOwn]
  · exact (inv.inner container).splits fun pid => by simp [State.localOwn, and_assoc]

/-- `root_proc` creates a container, whose root process forks two processes; the first exits and is
reaped. -/
def reapingRun : List Act :=
  [.containerCreate 0 1, .containerInsert 0, .containerStart 0, .forkCreate 1 2, .forkInsert 1,
    .forkStart 1, .forkCreate 1 3, .forkInsert 1, .forkStart 1, .exit 2 7, .exitNotify 2,
    .exitZombie 2, .wait 1, .waitSem 1, .reap 1]

/-- After that run the third identifier of the kernel and the second of the container are free. -/
theorem pids_unique_reapingRun : ∃ s, machine.Reach Machine.Any s ∧
    s.globalmanager = ⟨4, [3]⟩ ∧ s.localpidmanager 1 = ⟨3, [2]⟩ ∧
    ∀ proc, live (s.tree.stage proc) → s.pid proc ≠ 3 := by
  have shown : (machine.exec Machine.Any .boot reapingRun).map
      (fun s => (s.globalmanager, s.localpidmanager 1)) = some (⟨4, [3]⟩, ⟨3, [2]⟩) := by
    decide +kernel
  obtain ⟨s, reached, observed⟩ := Machine.Reach.exec_map rfl shown
  obtain ⟨global, inner⟩ := Prod.mk.inj observed
  obtain ⟨-, -, splits, -⟩ := pids_unique s reached
  refine ⟨s, reached, global, inner, fun proc alive same => ?_⟩
  exact splits.disjoint 3 (by simp [global]) ⟨proc, alive, same⟩

/-! ## What `fork` and `wait` return -/

/-- `getpid` changes the manager. -/
theorem PIDManager.getpid_ne (manager : PIDManager) : manager.getpid.2 ≠ manager := by
  unfold PIDManager.getpid
  cases manager with
  | mk max freep => cases freep <;> simp

/-- `wait` returns for a child what `fork` returned. -/
def Alike (s : State) : Prop := ∀ this child returned waited,
  .forked this child returned ∈ s.history → .waited this child waited ∈ s.history →
    returned = waited

/-- No container is created, and a process is created or reaped only while the manager of the
kernel and the manager of the root container are in the same state. -/
def Together (s : State) : Act → Prop
  | .containerCreate .. => False
  | .create _ | .forkCreate .. | .reap _ => s.globalmanager = s.localpidmanager 0
  | _ => True

instance (s : State) : (act : Act) → Decidable (Together s act)
  | .containerCreate .. => .isFalse id
  | .create .. | .forkCreate .. | .reap .. =>
    inferInstanceAs (Decidable (s.globalmanager = s.localpidmanager 0))
  | .setContainer .. | .setParent .. | .start .. | .forkInsert .. | .forkStart ..
  | .containerInsert .. | .containerStart .. | .exit .. | .exitNotify .. | .exitZombie ..
  | .wait .. | .waitSem .. | .resume .. => .isTrue trivial

/-- The identifier an event tells of. -/
def Event.Told (s : State) : Event → Prop
  | .forked _ child pid | .waited _ child pid =>
    s.tree.stage child ≠ .unborn ∧ pid = s.pid child

/-- What holds between two steps while the managers go together. -/
structure Level (s : State) : Prop where
  container : ∀ proc, (s.tree.procs proc).container = 0
  founder : ∀ proc container inserted, s.tree.stage proc ≠ .founder container inserted
  /-- The two identifiers of a process that was started are the same. -/
  pid : ∀ proc, (s.tree.stage proc).started → s.localpid proc = s.pid proc
  /-- The managers are in the same state, or one process waits for its local identifier. -/
  managers :
    (s.globalmanager = s.localpidmanager 0 ∧
      ∀ proc, live (s.tree.stage proc) → (s.tree.stage proc).started) ∨
    ∃ child, (s.localpidmanager 0).getpid = (s.pid child, s.globalmanager) ∧
      ∀ proc, live (s.tree.stage proc) → proc = child ∨ (s.tree.stage proc).started
  /-- What was returned are identifiers of processes that were initialised. -/
  told : ∀ event ∈ s.history, event.Told s

namespace Level

variable {s : State} {tree' : ProcTree.State} {subject : Option Nat} {child : Nat}

theorem boot : Level .boot := by
  refine ⟨fun proc => ?_, fun proc => ?_, fun _ _ => rfl, .inl ⟨rfl, fun proc => ?_⟩, by rintro _ ⟨⟩⟩
  · simp only [State.boot, ProcTree.State.boot]
    split <;> rfl
  · simp only [State.boot, ProcTree.State.boot, ProcTree.State.stage]
    split <;> simp
  · simp only [State.boot, ProcTree.State.boot, ProcTree.State.stage]
    split <;> simp [live, Stage.started]

/-- Processes other than the subject stay in the root container. -/
theorem container_moved (level : Level s) (moved : Moved subject s.tree tree')
    (own : ∀ proc, subject = some proc → (tree'.procs proc).container = 0) (proc : Nat) :
    (tree'.procs proc).container = 0 := by
  by_cases isSubject : subject = some proc
  · exact own proc isSubject
  · rw [(moved.same proc isSubject).container, level.container]

/-- Processes other than the subject do not become root processes of containers. -/
theorem founder_moved (level : Level s) (moved : Moved subject s.tree tree')
    (own : ∀ proc, subject = some proc →
      ∀ container inserted, tree'.stage proc ≠ .founder container inserted) (proc : Nat) :
    ∀ container inserted, tree'.stage proc ≠ .founder container inserted := by
  intro container inserted founds
  by_cases isSubject : subject = some proc
  · exact own proc isSubject container inserted founds
  · exact level.founder proc _ _ ((moved.same proc isSubject).founder _ _ founds)

/-- What was returned stays true. -/
theorem told_moved (level : Level s) (moved : Moved subject s.tree tree')
    (own : ∀ proc, subject = some proc → tree'.stage proc ≠ .unborn) (s' : State)
    (tree : s'.tree = tree')
    (pid : ∀ proc, s.tree.stage proc ≠ .unborn → s'.pid proc = s.pid proc) :
    ∀ event ∈ s.history, event.Told s' := by
  have stays : ∀ proc, s.tree.stage proc ≠ .unborn → s'.tree.stage proc ≠ .unborn := by
    intro proc born unborn
    rw [tree] at unborn
    by_cases isSubject : subject = some proc
    · exact own proc isSubject unborn
    · have same : phase (tree'.stage proc) = phase (s.tree.stage proc) :=
        (moved.same proc isSubject).phase
      rw [unborn] at same
      apply born
      revert same
      cases s.tree.stage proc <;> simp
  intro event member
  have told := level.told event member
  cases event with
  | forked _ child returned | waited _ child returned =>
    obtain ⟨born, rfl⟩ := told
    exact ⟨stays child born, (pid child born).symm⟩

/-- A step that gives out no identifier. -/
theorem keep (level : Level s) (moved : Moved none s.tree tree') :
    Level { s with tree := tree' } := by
  have live : ∀ proc, live (tree'.stage proc) = live (s.tree.stage proc) := fun proc =>
    (moved.same proc nofun).live
  have started : ∀ proc, (tree'.stage proc).started = (s.tree.stage proc).started := fun proc =>
    (moved.same proc nofun).started
  refine ⟨level.container_moved moved nofun, level.founder_moved moved nofun, fun proc is => ?_, ?_,
    level.told_moved moved nofun _ rfl fun _ _ => rfl⟩
  · exact level.pid proc (started proc ▸ is)
  · simp only [live, started]
    exact level.managers

/-- While the managers are in the same state, processes that were initialised were started. -/
theorem settled (level : Level s) (together : s.globalmanager = s.localpidmanager 0) (proc : Nat)
    (alive : live (s.tree.stage proc)) : (s.tree.stage proc).started := by
  obtain ⟨-, all⟩ | ⟨child, pending, -⟩ := level.managers
  · exact all proc alive
  · have same := congrArg Prod.snd pending
    exact absurd (same.trans together) (PIDManager.getpid_ne _)

/-- A process is initialised. -/
theorem initProc (level : Level s) (together : s.globalmanager = s.localpidmanager 0)
    (moved : Moved (some child) s.tree tree') (unborn : s.tree.stage child = .unborn)
    (early : (tree'.stage child).started = false) (born : tree'.stage child ≠ .unborn)
    (container : (tree'.procs child).container = 0)
    (founder : ∀ container inserted, tree'.stage child ≠ .founder container inserted) :
    Level { s.initProc child with tree := tree' } := by
  have others : ∀ proc, proc ≠ child → Same (s.tree.procs proc) (tree'.procs proc) :=
    fun proc other => moved.same proc (by simpa using Ne.symm other)
  refine ⟨level.container_moved moved ?_, level.founder_moved moved ?_, fun proc is => ?_,
    .inr ⟨child, ?_, fun proc alive => ?_⟩, level.told_moved moved ?_ _ rfl fun proc was => ?_⟩
  · simpa using container
  · simpa using founder
  · have other : proc ≠ child := by
      rintro rfl
      exact Bool.false_ne_true (early.symm.trans is)
    have was : (s.tree.stage proc).started := (others proc other).started ▸ is
    simpa [State.initProc, other] using level.pid proc was
  · simp [State.initProc, together]
  · by_cases isChild : proc = child
    · exact .inl isChild
    · have same := others proc isChild
      have was : live (s.tree.stage proc) := same.live ▸ alive
      have started : (tree'.stage proc).started = (s.tree.stage proc).started := same.started
      exact .inr (started.trans (level.settled together proc was))
  · simpa using born
  · have other : proc ≠ child := by
      rintro rfl
      exact was unborn
    simp [State.initProc, other]

/-- The process that waits for its local identifier is started. -/
theorem startProc (level : Level s) (moved : Moved (some child) s.tree tree')
    (history : List Event) (events : ∀ event ∈ history, event ∈ s.history ∨
      ∃ this, event = .forked this child (s.pid child))
    (was : live (s.tree.stage child)) (early : (s.tree.stage child).started = false)
    (ready : tree'.stage child = .ready) (container : (tree'.procs child).container = 0) :
    Level { s.startProc child with tree := tree', history := history } := by
  have others : ∀ proc, proc ≠ child → Same (s.tree.procs proc) (tree'.procs proc) :=
    fun proc other => moved.same proc (by simpa using Ne.symm other)
  obtain ⟨-, all⟩ | ⟨pending, given, all⟩ := level.managers
  · exact absurd (all child was) (by simp [early])
  obtain rfl : child = pending := (all child was).resolve_right (by simp [early])
  have inside := level.container child
  refine ⟨level.container_moved moved ?_, level.founder_moved moved ?_, fun proc is => ?_,
    .inl ⟨?_, fun proc alive => ?_⟩, fun event member => ?_⟩
  · simpa using container
  · simp [ready]
  · by_cases isChild : proc = child
    · subst isChild
      simp [State.startProc, inside, given]
    · have started : (s.tree.stage proc).started := (others proc isChild).started ▸ is
      simpa [State.startProc, isChild] using level.pid proc started
  · simp [State.startProc, inside, given]
  · by_cases isChild : proc = child
    · subst isChild
      rw [ready]
      rfl
    · have same := others proc isChild
      have alive' : live (s.tree.stage proc) := same.live ▸ alive
      have started : (tree'.stage proc).started = (s.tree.stage proc).started := same.started
      exact started.trans ((all proc alive').resolve_left isChild)
  · obtain old | ⟨this, rfl⟩ := events event member
    · refine level.told_moved moved (by simp [ready]) _ ?_ ?_ event old
      exacts [rfl, fun _ _ => rfl]
    · exact ⟨by simp [ready], rfl⟩

/-- A process is reaped. -/
theorem reap (level : Level s) (this : Nat) (together : s.globalmanager = s.localpidmanager 0)
    (moved : Moved (some child) s.tree tree') (zombie : s.tree.stage child = .zombie)
    (reaped : tree'.stage child = .reaped) (container : (tree'.procs child).container = 0) :
    Level { s.reap this child with tree := tree' } := by
  have others : ∀ proc, proc ≠ child → Same (s.tree.procs proc) (tree'.procs proc) :=
    fun proc other => moved.same proc (by simpa using Ne.symm other)
  have inside := level.container child
  have same := level.pid child (by rw [zombie]; rfl)
  refine ⟨level.container_moved moved ?_, level.founder_moved moved ?_, fun proc is => ?_,
    .inl ⟨?_, fun proc alive => ?_⟩, fun event member => ?_⟩
  · simpa using container
  · simp [reaped]
  · have other : proc ≠ child := by
      rintro rfl
      rw [reaped] at is
      contradiction
    exact level.pid proc ((others proc other).started ▸ is)
  · simp [State.reap, inside, same, together]
  · have other : proc ≠ child := by
      rintro rfl
      simp [reaped, live] at alive
    have same := others proc other
    have alive' : live (s.tree.stage proc) := same.live ▸ alive
    have started : (tree'.stage proc).started = (s.tree.stage proc).started := same.started
    exact started.trans (level.settled together proc alive')
  · obtain rfl | old := List.mem_cons.mp member
    · exact ⟨by simp [reaped], same⟩
    · refine level.told_moved moved (by simp [reaped]) _ ?_ ?_ event old
      exacts [rfl, fun _ _ => rfl]

/-- The process that `fork` has created is started. -/
theorem forkStart (level : Level s) {this : Nat}
    (moved : Moved (some child) s.tree ((s.tree.startProc child).enter this .ready))
    (creating : s.tree.stage this = .creating child) (forked : s.tree.stage child = .forked true) :
    Level { s.startProc child with
      tree := (s.tree.startProc child).enter this .ready
      history := .forked this child (s.pid child) :: s.history } := by
  have apart : child ≠ this := by
    rintro rfl
    rw [creating] at forked
    contradiction
  refine level.startProc moved _ (fun event member => ?_) (by rw [forked]; rfl)
    (by rw [forked]; rfl) ?_ ?_
  · obtain rfl | old := List.mem_cons.mp member
    · exact .inr ⟨this, rfl⟩
    · exact .inl old
  · rw [ProcTree.State.stage, ProcTree.enter_procs, if_neg apart, ← ProcTree.State.stage,
      ProcTree.startProc_stage, if_pos rfl]
  · rw [ProcTree.enter_procs, if_neg apart, Moved.startProc_container, level.container]

/-- Steps under the condition keep the managers together. -/
theorem step {s' : State} {act : Act} (inv : Inv s) (level : Level s) (together : Together s act)
    (stepped : s.step act = some s') : Level s' := by
  obtain ⟨tree', taken, rfl⟩ := Option.map_eq_some_iff.mp stepped
  clear stepped
  dsimp only
  have moved := step_moved inv.alone taken
  unfold ProcTree.State.step at taken
  split at taken
  · contradiction
  cases act with
  | create proc =>
    simp only [Option.ite_none_right_eq_some, Option.some.injEq] at taken
    obtain ⟨⟨-, unborn⟩, rfl⟩ := taken
    refine level.initProc together moved unborn ?_ ?_ ?_ ?_ <;>
      simp [ProcTree.State.stage, Proc.fresh, Stage.started]
  | setContainer this proc =>
    simp only [Option.ite_none_right_eq_some, Option.some.injEq] at taken
    obtain ⟨⟨-, created⟩, rfl⟩ := taken
    refine level.keep ⟨moved.alone, fun other _ => ?_, moved.containers⟩
    by_cases isProc : other = proc
    · subst isProc
      rw [ProcTree.modify_procs, if_pos rfl]
      exact ⟨rfl, rfl, (level.container this).trans (level.container other).symm, fun _ _ => id⟩
    · exact moved.same other (by simpa [subject] using Ne.symm isProc)
  | start proc =>
    simp only [Option.ite_none_right_eq_some, Option.some.injEq] at taken
    obtain ⟨⟨-, created⟩, rfl⟩ := taken
    have stage := ProcTree.startProc_stage s.tree proc proc
    rw [if_pos rfl] at stage
    exact level.startProc moved s.history (fun _ member => .inl member) (by rw [created]; rfl)
      (by rw [created]; rfl) stage (by rw [Moved.startProc_container, level.container])
  | forkCreate this child =>
    simp only [Option.ite_none_right_eq_some, Option.some.injEq] at taken
    obtain ⟨⟨-, ready, unborn⟩, rfl⟩ := taken
    have made := Inv.creating_procs ready unborn
      (Proc.forkedBy this (s.tree.procs this).container)
    refine level.initProc together moved unborn ?_ ?_ ?_ ?_
    all_goals simp only [ProcTree.State.stage, made]
    exacts [rfl, by rintro ⟨⟩, level.container this, by rintro _ _ ⟨⟩]
  | forkStart this =>
    dsimp only at taken
    split at taken
    · rename_i child creating
      simp only [Option.ite_none_right_eq_some, Option.some.injEq] at taken
      obtain ⟨⟨-, forked⟩, rfl⟩ := taken
      rw [subject, creating] at moved
      simp only [State.number, creating]
      exact level.forkStart moved creating forked
    · contradiction
  | containerCreate this child => exact together.elim
  | containerInsert this | containerStart this =>
    dsimp only at taken
    split at taken
    · split at taken
      · rename_i founder
        exact absurd founder (level.founder _ _ _)
      · contradiction
    · contradiction
  | reap this =>
    simp only [Option.ite_none_right_eq_some, Option.some.injEq] at taken
    obtain ⟨⟨-, granted⟩, rfl⟩ := taken
    unfold ProcTree.State.reap subject at moved
    unfold ProcTree.State.reap State.number
    cases found : s.tree.findZombie this (s.tree.procs this).children with
    | error site =>
      simp only [found] at moved ⊢
      exact level.keep moved
    | ok child =>
      cases child with
      | none =>
        simp only [found] at moved ⊢
        exact level.keep moved
      | some child =>
        simp only [found] at moved ⊢
        have zombie := findZombie_zombie found
        have apart : child ≠ this := by
          rintro rfl
          rw [zombie] at granted
          contradiction
        refine level.reap this together moved zombie ?_ ?_
        · simp [ProcTree.State.stage, apart]
        · simp [apart, level.container]
  | _ => exact level.keep moved

end Level

/-- While no container is created, and no process is created or reaped between the creation of a
process and its start, `wait` returns for a child what `fork` returned. -/
theorem wait_returns_forked (s : State) (reached : machine.Reach Together s) : Alike s := by
  have level : Level s := Machine.Reach.invariant reached (fun _ initial => initial ▸ .boot)
    fun _ _ _ earlier level together taken => level.step (Inv.reach earlier) together taken
  intro this child returned waited told told'
  obtain ⟨-, rfl⟩ := level.told _ told
  obtain ⟨-, rfl⟩ := level.told _ told'
  rfl

/-- `root_proc` forks two processes, waits for the first, and forks a third. -/
def familyRun : List Act :=
  [.forkCreate 0 1, .forkInsert 0, .forkStart 0, .forkCreate 0 2, .forkInsert 0, .forkStart 0,
    .exit 1 7, .exitNotify 1, .exitZombie 1, .wait 0, .waitSem 0, .reap 0, .forkCreate 0 3,
    .forkInsert 0, .forkStart 0]

/-- That run is under the condition; the third process gets the identifier of the first. -/
theorem wait_returns_forked_familyRun : ∃ s, machine.Reach Together s ∧ Alike s ∧
    s.history = [.forked 0 3 2, .waited 0 1 2, .forked 0 2 3, .forked 0 1 2] := by
  have shown : (machine.exec Together .boot familyRun).map (·.history) =
      some [.forked 0 3 2, .waited 0 1 2, .forked 0 2 3, .forked 0 1 2] := by
    decide +kernel
  obtain ⟨s, reached, history⟩ := Machine.Reach.exec_map rfl shown
  exact ⟨s, reached, wait_returns_forked s reached, history⟩

/-- In a container of its own, and also in the root container when two processes are created before
the first of them is started, `wait` returns another identifier than `fork`. -/
theorem wait_returns_another :
    (∃ s, machine.Reach Machine.Any s ∧ .forked 1 2 3 ∈ s.history ∧ .waited 1 2 2 ∈ s.history) ∧
    ∃ s, machine.Reach Machine.Any s ∧ .forked 1 4 5 ∈ s.history ∧ .waited 1 4 4 ∈ s.history ∧
      s.tree.numContainers = 1 := by
  constructor
  · have shown : (machine.exec Machine.Any .boot
        [.containerCreate 0 1, .containerInsert 0, .containerStart 0, .forkCreate 1 2,
          .forkInsert 1, .forkStart 1, .exit 2 7, .exitNotify 2, .exitZombie 2, .wait 1,
          .waitSem 1, .reap 1]).map (·.history) = some [.waited 1 2 2, .forked 1 2 3] := by
      decide +kernel
    obtain ⟨s, reached, history⟩ := Machine.Reach.exec_map rfl shown
    exact ⟨s, reached, by simp [history], by simp [history]⟩
  · have shown : (machine.exec Machine.Any .boot
        [.forkCreate 0 1, .forkInsert 0, .forkStart 0, .forkCreate 0 2, .forkInsert 0,
          .forkStart 0, .forkCreate 2 3, .forkCreate 1 4, .forkInsert 1, .forkStart 1,
          .exit 4 7, .exitNotify 4, .exitZombie 4, .wait 1, .waitSem 1, .reap 1]).map
        (fun s => (s.history, s.tree.numContainers)) =
          some ([.waited 1 4 4, .forked 1 4 5, .forked 0 2 3, .forked 0 1 2], 1) := by
      decide +kernel
    obtain ⟨s, reached, observed⟩ := Machine.Reach.exec_map rfl shown
    obtain ⟨history, containers⟩ := Prod.mk.inj observed
    exact ⟨s, reached, by simp [history], by simp [history], containers⟩

end OsLab.Kernel.Pid
