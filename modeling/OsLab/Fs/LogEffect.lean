import OsLab.Fs.Log
import Mathlib.Data.Finset.Insert

/-!
# What a step of the log does

Every step of the log machine changes the header, the flags and the open operations in one
of eight ways (`Effect`), and `step_effect` finds the way. The invariants of the log are
proved from these cases alone, without the code of the steps.
-/
namespace OsLab.Fs.Log

open OsLab.Lib OsLab.Common

namespace Pc

/-- The places of a process that runs a commit, from closing the group to `iscommit=0`. -/
def committing : Pc → Bool
  | .copyFrom _ | .copyTo _ | .copyWrite _ | .copyReleaseFrom _ | .copyReleaseTo _
  | .copyNext _ | .writeHeader | .installLock | .install _ | .installWrite _
  | .installRelease _ | .clearHeader | .finish => true
  | _ => false

/-- The places inside `begin_op`. -/
def beginning : Pc → Bool
  | .beginLock | .beginWait | .beginSleep => true
  | _ => false

/-- The places of a commit after `header.num_blocks=0`. -/
def cleared : Pc → Bool
  | .clearHeader | .finish => true
  | _ => false

/-- The entry of the header a commit is working on. -/
def index? : Pc → Option Nat
  | .copyFrom index | .copyTo index | .copyWrite index | .copyReleaseFrom index
  | .copyReleaseTo index | .copyNext index | .install index | .installWrite index
  | .installRelease index => some index
  | _ => none

end Pc

namespace State

@[simp] theorem procs_pc (s : State) (proc : Nat) : (s.procs proc).pc = s.pc proc := rfl

@[simp] theorem procs_rm (s : State) (proc : Nat) : (s.procs proc).rm = s.rm proc := rfl

@[simp] theorem pc_mk (header : LogHeader) (log : Control) (loglock : Option Nat)
    (procs : Nat → Proc) (panic : Option PanicSite) (history : List Event) (proc : Nat) :
    (State.mk header log loglock procs panic history).pc proc = (procs proc).pc := rfl

@[simp] theorem rm_mk (header : LogHeader) (log : Control) (loglock : Option Nat)
    (procs : Nat → Proc) (panic : Option PanicSite) (history : List Event) (proc : Nat) :
    (State.mk header log loglock procs panic history).rm proc = (procs proc).rm := rfl

section Updates

variable (s : State) (proc : Nat) (new : Proc) (target : Pc) (event : Event) (site : PanicSite)

@[simp] theorem setProc_procs (other : Nat) :
    (s.setProc proc new).procs other = if other = proc then new else s.procs other := rfl

@[simp] theorem setProc_pc (other : Nat) :
    (s.setProc proc new).pc other = if other = proc then new.pc else s.pc other := by
  simp only [pc, setProc_procs]
  split <;> rfl

@[simp] theorem setProc_rm (other : Nat) :
    (s.setProc proc new).rm other = if other = proc then new.rm else s.rm other := by
  simp only [rm, setProc_procs]
  split <;> rfl

@[simp] theorem setProc_header : (s.setProc proc new).header = s.header := rfl
@[simp] theorem setProc_log : (s.setProc proc new).log = s.log := rfl
@[simp] theorem setProc_loglock : (s.setProc proc new).loglock = s.loglock := rfl
@[simp] theorem setProc_history : (s.setProc proc new).history = s.history := rfl
@[simp] theorem setProc_panic : (s.setProc proc new).panic = s.panic := rfl
@[simp] theorem setProc_mustWait : (s.setProc proc new).mustWait = s.mustWait := rfl

@[simp] theorem goto_procs (other : Nat) : (s.goto proc target).procs other =
    if other = proc then ⟨target, s.rm proc⟩ else s.procs other := rfl

@[simp] theorem goto_pc (other : Nat) :
    (s.goto proc target).pc other = if other = proc then target else s.pc other := by
  simp [goto]

@[simp] theorem goto_rm (other : Nat) : (s.goto proc target).rm other = s.rm other := by
  simp only [goto, setProc_rm]
  split
  · rename_i same
    rw [same]
  · rfl

@[simp] theorem goto_header : (s.goto proc target).header = s.header := rfl
@[simp] theorem goto_log : (s.goto proc target).log = s.log := rfl
@[simp] theorem goto_history : (s.goto proc target).history = s.history := rfl
@[simp] theorem goto_panic : (s.goto proc target).panic = s.panic := rfl

@[simp] theorem note_procs : (s.note event).procs = s.procs := rfl
@[simp] theorem note_pc (other : Nat) : (s.note event).pc other = s.pc other := rfl
@[simp] theorem note_rm (other : Nat) : (s.note event).rm other = s.rm other := rfl
@[simp] theorem note_log : (s.note event).log = s.log := rfl
@[simp] theorem note_history : (s.note event).history = event :: s.history := rfl
@[simp] theorem note_panic : (s.note event).panic = s.panic := rfl

@[simp] theorem halt_history : (s.halt site).history = s.history := rfl
@[simp] theorem halt_panic : (s.halt site).panic = some site := rfl

end Updates

end State

/-- The blocks an operation of `proc` has synced since it began, from the history. -/
def opSyncs (proc : Nat) : List Event → Finset Nat
  | [] => ∅
  | .began other :: earlier => if other = proc then ∅ else opSyncs proc earlier
  | .synced other blockNo :: earlier =>
    if other = proc then insert blockNo (opSyncs proc earlier) else opSyncs proc earlier
  | _ :: earlier => opSyncs proc earlier

/-- What a step can do to the header, the flags, the open operations and what they have
synced. Everything a step does to one process leaves the others as they are. -/
inductive Effect (s s' : State) : Prop where
  /-- Nothing of it changes. -/
  | same (header : s'.header = s.header) (iscommit : s'.log.iscommit = s.log.iscommit)
      (outstanding : s'.log.outstanding = s.log.outstanding) (procs : s'.procs = s.procs)
      (syncs : ∀ other, opSyncs other s.history ⊆ opSyncs other s'.history)
  /-- A process that has no open operation moves on inside or outside a commit. -/
  | move (proc : Nat) (others : ∀ other, other ≠ proc → s'.procs other = s.procs other)
      (header : s'.header = s.header) (iscommit : s'.log.iscommit = s.log.iscommit)
      (outstanding : s'.log.outstanding = s.log.outstanding)
      (before : s.pc proc ≠ .inOp) (after : s'.pc proc ≠ .inOp)
      (committing : (s'.pc proc).committing = (s.pc proc).committing)
      (cleared : (s'.pc proc).cleared = true → (s.pc proc).cleared = true)
      (indexed : ∀ index, (s'.pc proc).index? = some index →
        (s.pc proc).index? = some index ∨ index < s.header.numBlocks)
      (charged : (s'.pc proc).beginning = true →
        s'.rm proc = 0 ∨ ((s.pc proc).beginning = true ∧ s'.rm proc = s.rm proc))
      (syncs : ∀ other, opSyncs other s.history ⊆ opSyncs other s'.history)
  /-- `begin_op` admits an operation. -/
  | enter (proc : Nat) (others : ∀ other, other ≠ proc → s'.procs other = s.procs other)
      (header : s'.header = s.header) (iscommit : s'.log.iscommit = s.log.iscommit)
      (outstanding : s'.log.outstanding = s.log.outstanding + 1)
      (room : s.mustWait = false) (before : s.pc proc ≠ .inOp) (after : s'.pc proc = .inOp)
      (quiet : (s.pc proc).committing = false)
      (charged : s'.rm proc = 0 ∨ ((s.pc proc).beginning = true ∧ s'.rm proc = s.rm proc))
      (history : s'.history = .began proc :: s.history)
  /-- `cache_sync` records a new block. -/
  | record (proc blockNo : Nat) (others : ∀ other, other ≠ proc → s'.procs other = s.procs other)
      (header : s'.header = s.header.push blockNo)
      (iscommit : s'.log.iscommit = s.log.iscommit)
      (outstanding : s'.log.outstanding = s.log.outstanding)
      (open_ : s.pc proc = .inOp) (fresh : blockNo ∉ s.header.named)
      (roomInOp : s.rm proc < opMaxNumBlocks) (roomInLog : s.header.numBlocks < logMaxSize)
      (after : s'.procs proc = ⟨.inOp, s.rm proc + 1⟩)
      (history : s'.history = .synced proc blockNo :: s.history)
  /-- `end_op` of an operation that leaves others open. -/
  | leave (proc : Nat) (others : ∀ other, other ≠ proc → s'.procs other = s.procs other)
      (header : s'.header = s.header) (iscommit : s'.log.iscommit = s.log.iscommit)
      (outstanding : s'.log.outstanding = s.log.outstanding - 1)
      (more : 0 < s.log.outstanding - 1) (open_ : s.pc proc = .inOp)
      (after : s'.pc proc = .endPost)
      (syncs : ∀ other, opSyncs other s.history ⊆ opSyncs other s'.history)
  /-- `end_op` of the last open operation. -/
  | close (proc : Nat) (others : ∀ other, other ≠ proc → s'.procs other = s.procs other)
      (header : s'.header = s.header) (free : s.log.iscommit = false)
      (iscommit : s'.log.iscommit = true)
      (outstanding : s'.log.outstanding = s.log.outstanding - 1)
      (last : ¬ 0 < s.log.outstanding - 1) (open_ : s.pc proc = .inOp)
      (after : s'.pc proc = State.copyPc s.header 0)
      (syncs : ∀ other, opSyncs other s.history ⊆ opSyncs other s'.history)
      (history : s'.history = .closed proc :: s.history)
  /-- The commit has installed every block and empties the header. -/
  | reset (proc : Nat) (others : ∀ other, other ≠ proc → s'.procs other = s.procs other)
      (header : s'.header = s.header.reset) (iscommit : s'.log.iscommit = s.log.iscommit)
      (outstanding : s'.log.outstanding = s.log.outstanding)
      (before : (s.pc proc).committing = true) (after : s'.pc proc = .clearHeader)
      (syncs : ∀ other, opSyncs other s.history ⊆ opSyncs other s'.history)
      (uncleared : (s.pc proc).cleared = false)
  /-- The commit is over. -/
  | finish (proc : Nat) (others : ∀ other, other ≠ proc → s'.procs other = s.procs other)
      (header : s'.header = s.header) (iscommit : s'.log.iscommit = false)
      (outstanding : s'.log.outstanding = s.log.outstanding)
      (before : s.pc proc = .finish) (after : s'.pc proc = .postLogsem)
      (syncs : ∀ other, opSyncs other s.history ⊆ opSyncs other s'.history)

/-- A process may go from one place to the other without opening or ending an operation or
a commit, and without entering `begin_op`. -/
def Pc.Quiet (place target : Pc) : Prop :=
  place ≠ .inOp ∧ target ≠ .inOp ∧ target.committing = place.committing ∧
    (target.cleared = true → place.cleared = true) ∧
    (target.beginning = true → place.beginning = true)

instance (place target : Pc) : Decidable (Pc.Quiet place target) :=
  inferInstanceAs (Decidable (_ ∧ _ ∧ _ ∧ _ ∧ _))

/-- A step that moves one process quietly, with whatever else it does left outside the
effect. -/
theorem Effect.of_goto {s s' : State} {proc : Nat} {place target : Pc}
    (at_ : s.pc proc = place) (quiet : Pc.Quiet place target)
    (indexed : ∀ index, target.index? = some index →
      place.index? = some index ∨ index < s.header.numBlocks)
    (procs : s'.procs = (s.goto proc target).procs) (header : s'.header = s.header)
    (iscommit : s'.log.iscommit = s.log.iscommit)
    (outstanding : s'.log.outstanding = s.log.outstanding)
    (syncs : ∀ other, opSyncs other s.history ⊆ opSyncs other s'.history) : Effect s s' := by
  obtain ⟨before, after, committing, cleared, beginning⟩ := quiet
  have self : s'.procs proc = ⟨target, s.rm proc⟩ := by simp [procs]
  have placed : s'.pc proc = target := by rw [State.pc, self]
  refine .move proc ?_ header iscommit outstanding ?_ ?_ ?_ ?_ ?_ ?_ syncs
  · intro other different
    simp [procs, different]
  · rw [at_]
    exact before
  · rw [placed]
    exact after
  · rw [placed, at_]
    exact committing
  · rw [placed, at_]
    exact cleared
  · rw [placed, at_]
    exact indexed
  · intro inBegin
    rw [placed] at inBegin
    rw [at_]
    exact .inr ⟨beginning inBegin, by rw [State.rm, self]⟩

/-- The test of `begin_op`, entered from a place outside operations and commits. -/
theorem beginSection_effect {s entered : State} {proc : Nat}
    (others : ∀ other, other ≠ proc → entered.procs other = s.procs other)
    (header : entered.header = s.header) (log : entered.log = s.log)
    (history : entered.history = s.history) (before : s.pc proc ≠ .inOp)
    (quiet : (s.pc proc).committing = false)
    (charged : entered.rm proc = 0 ∨ ((s.pc proc).beginning = true ∧ entered.rm proc = s.rm proc)) :
    Effect s (entered.beginSection proc) := by
  have sameTest : entered.mustWait = s.mustWait := by
    simp only [State.mustWait, header, log]
  unfold State.beginSection
  split
  · refine .move proc ?_ header ?_ ?_ before ?_ ?_ ?_ ?_ ?_ ?_
    · intro other different
      simp [different, others]
    · simp [log]
    · simp [log]
    · simp
    · rw [quiet, State.goto_pc, if_pos rfl]
      rfl
    · simp [Pc.cleared]
    · simp [Pc.index?]
    · intro _
      simpa using charged
    · simp [history]
  · rename_i room
    refine .enter proc ?_ header ?_ ?_ ?_ before ?_ quiet ?_ ?_
    · intro other different
      simp [different, others]
    · simp [log]
    · simp [log]
    · simpa [sameTest] using room
    · simp
    · simpa using charged
    · simp [history]

/-- A committing place is no open operation. -/
theorem Pc.ne_inOp_of_committing {place : Pc} (committing : place.committing = true) :
    place ≠ .inOp := by
  intro same
  rw [same] at committing
  contradiction

/-- Going on inside a commit is quiet. -/
theorem Pc.quiet_of_committing {place target : Pc} (before : place.committing = true)
    (after : target.committing = true)
    (cleared : target.cleared = true → place.cleared = true) : Pc.Quiet place target := by
  refine ⟨ne_inOp_of_committing before, ne_inOp_of_committing after, ?_, cleared, ?_⟩
  · rw [before, after]
  · intro beginning
    cases target <;> contradiction

/-- The place after the test of the copy loop is inside the commit, before the header is
emptied. -/
theorem copyPc_committing (header : LogHeader) (index : Nat) :
    (State.copyPc header index).committing = true ∧
      (State.copyPc header index).cleared = false := by
  unfold State.copyPc
  split <;> exact ⟨rfl, rfl⟩

/-- The copy loop goes on only with an entry in use. -/
theorem copyPc_index {header : LogHeader} {index found : Nat}
    (at_ : (State.copyPc header index).index? = some found) : found < header.numBlocks := by
  unfold State.copyPc at at_
  split at at_
  · rename_i used
    obtain rfl := Option.some.inj at_
    exact used
  · contradiction

/-- The loop test of the installation moves on or empties the header. -/
theorem installNext_effect {s held : State} {proc index : Nat} {place : Pc}
    (procs : held.procs = s.procs) (header : held.header = s.header) (log : held.log = s.log)
    (history : held.history = s.history) (at_ : s.pc proc = place)
    (before : place.committing = true) (uncleared : place.cleared = false) :
    Effect s (held.installNext proc index) := by
  unfold State.installNext
  split
  · rename_i used
    have quiet : Pc.Quiet place (.install index) :=
      Pc.quiet_of_committing before rfl (by simp [Pc.cleared])
    refine .of_goto at_ quiet ?_ ?_ header (by simp [log]) (by simp [log]) (by simp [history])
    · intro found same
      obtain rfl := Option.some.inj same
      rw [header] at used
      exact .inr used
    · funext other
      simp only [State.goto_procs, procs, State.rm]
  · refine .reset proc ?_ (by simp [header]) (by simp [log]) (by simp [log]) ?_ (by simp) ?_ ?_
    · intro other different
      simp [different, procs]
    · rw [at_]
      exact before
    · simp [history]
    · rw [at_]
      exact uncleared

/-- The next step of a process inside the log code. -/
theorem advance_effect {sblock : SuperBlock} {s s' : State} {proc : Nat}
    (taken : s.advance sblock proc = some s') : Effect s s' := by
  -- a committing place and the one after it, with at most an event noted
  have within {place target : Pc} {next : State} (at_ : s.pc proc = place)
      (before : place.committing = true) (after : target.committing = true)
      (cleared : target.cleared = true → place.cleared = true)
      (indexed : ∀ index, target.index? = some index →
        place.index? = some index ∨ index < s.header.numBlocks)
      (procs : next.procs = (s.goto proc target).procs) (header : next.header = s.header)
      (log : next.log = s.log)
      (syncs : ∀ other, opSyncs other s.history ⊆ opSyncs other next.history) : Effect s next :=
    .of_goto at_ (Pc.quiet_of_committing before after cleared) indexed procs header (by rw [log])
      (by rw [log]) syncs
  cases place : s.pc proc with
  | idle | inOp => simp [State.advance, place] at taken
  | beginLock =>
    simp only [State.advance, place, Option.ite_none_right_eq_some, Option.some.injEq] at taken
    obtain ⟨-, rfl⟩ := taken
    exact beginSection_effect (fun _ _ => rfl) rfl rfl rfl (by simp [place])
      (by rw [place]; rfl) (.inr ⟨by rw [place]; rfl, rfl⟩)
  | beginWait =>
    simp only [State.advance, place] at taken
    split at taken <;> obtain rfl := Option.some.inj taken
    · exact .of_goto place (by decide) (by simp [Pc.index?]) rfl rfl rfl rfl (by simp)
    · exact .of_goto place (by decide) (by simp [Pc.index?]) rfl rfl rfl rfl (by simp)
  | beginSleep =>
    simp only [State.advance, place, Option.ite_none_left_eq_some, Option.some.injEq] at taken
    obtain ⟨-, rfl⟩ := taken
    exact .of_goto place (by decide) (by simp [Pc.index?]) rfl rfl rfl rfl (by simp)
  | endPost =>
    simp only [State.advance, place] at taken
    split at taken <;> obtain rfl := Option.some.inj taken
    · exact .same rfl rfl rfl rfl (by simp)
    · exact .of_goto place (by decide) (by simp [Pc.index?]) rfl rfl rfl rfl (by simp)
  | endWait =>
    simp only [State.advance, place] at taken
    split at taken <;> obtain rfl := Option.some.inj taken
    · exact .of_goto place (by decide) (by simp [Pc.index?]) rfl rfl rfl rfl (by simp [opSyncs])
    · exact .of_goto place (by decide) (by simp [Pc.index?]) rfl rfl rfl rfl (by simp)
  | endSleep =>
    simp only [State.advance, place, Option.ite_none_left_eq_some, Option.some.injEq] at taken
    obtain ⟨-, rfl⟩ := taken
    exact .of_goto place (by decide) (by simp [Pc.index?]) rfl rfl rfl rfl (by simp [opSyncs])
  | copyFrom | copyTo | copyReleaseFrom | copyReleaseTo | install =>
    simp only [State.advance, place, Option.some.injEq] at taken
    subst taken
    exact within place rfl rfl (by simp [Pc.cleared]) (by simp [Pc.index?]) rfl rfl rfl (by simp)
  | copyWrite | writeHeader | installWrite | clearHeader =>
    simp only [State.advance, place, Option.some.injEq] at taken
    subst taken
    exact within place rfl rfl (by simp [Pc.cleared]) (by simp [Pc.index?]) rfl rfl rfl
      (by simp [opSyncs])
  | copyNext index =>
    simp only [State.advance, place, Option.ite_none_right_eq_some, Option.some.injEq] at taken
    obtain ⟨-, rfl⟩ := taken
    refine within place rfl (copyPc_committing _ _).1 ?_ ?_ rfl rfl rfl (by simp)
    · simp [(copyPc_committing s.header (index + 1)).2]
    · exact fun found at_ => .inr (copyPc_index at_)
  | installLock =>
    simp only [State.advance, place, Option.ite_none_right_eq_some, Option.some.injEq] at taken
    obtain ⟨-, rfl⟩ := taken
    exact installNext_effect rfl rfl rfl rfl place rfl rfl
  | installRelease index =>
    simp only [State.advance, place, Option.some.injEq] at taken
    subst taken
    exact installNext_effect rfl rfl rfl rfl place rfl rfl
  | finish =>
    simp only [State.advance, place, Option.ite_none_right_eq_some, Option.some.injEq] at taken
    obtain ⟨-, rfl⟩ := taken
    refine .finish proc ?_ rfl rfl rfl place (by simp) (by simp)
    intro other different
    simp [different]
  | postLogsem =>
    simp only [State.advance, place] at taken
    split at taken <;> obtain rfl := Option.some.inj taken
    · exact .same rfl rfl rfl rfl (by simp)
    · exact .of_goto place (by decide) (by simp [Pc.index?]) rfl rfl rfl rfl (by simp)
  | postCheck =>
    simp only [State.advance, place] at taken
    split at taken <;> obtain rfl := Option.some.inj taken
    · exact .same rfl rfl rfl rfl (by simp)
    · exact .of_goto place (by decide) (by simp [Pc.index?]) rfl rfl rfl rfl (by simp [opSyncs])

/-- An alert of a sleeper. -/
theorem alerted_effect {s s' : State} {proc : Nat} (taken : s.alerted proc = some s') :
    Effect s s' := by
  unfold State.alerted at taken
  split at taken
  · simp only [Option.ite_none_right_eq_some, Option.some.injEq] at taken
    obtain ⟨-, rfl⟩ := taken
    exact .same rfl rfl rfl rfl (by simp)
  · rename_i place
    simp only [Option.ite_none_right_eq_some, Option.some.injEq] at taken
    obtain ⟨-, rfl⟩ := taken
    exact .of_goto place (by decide) (by simp [Pc.index?]) rfl rfl rfl rfl (by simp [opSyncs])
  · contradiction

/-- `cache_sync` of an open operation. -/
theorem syncSection_effect {s : State} {proc blockNo : Nat} (open_ : s.pc proc = .inOp) :
    Effect s (s.syncSection proc blockNo) := by
  have grows : ∀ other, opSyncs other s.history ⊆
      opSyncs other (.synced proc blockNo :: s.history) := by
    intro other
    simp only [opSyncs]
    split
    · exact Finset.subset_insert _ _
    · exact Finset.Subset.refl _
  unfold State.syncSection
  split
  · exact .same rfl rfl rfl rfl grows
  · rename_i fresh
    split
    · exact .same rfl rfl rfl rfl (by simp)
    · rename_i room
      refine .record proc blockNo ?_ rfl rfl rfl open_ fresh (by omega) (by omega) ?_ rfl
      · intro other different
        simp [different]
      · simp [open_]

/-- The first section of `end_op`. -/
theorem endSection_effect {s : State} {proc : Nat} (open_ : s.pc proc = .inOp) :
    Effect s (s.endSection proc) := by
  unfold State.endSection
  split
  · exact .same rfl rfl rfl rfl (by simp)
  · rename_i free
    split
    · rename_i more
      refine .leave proc ?_ rfl rfl rfl more open_ (by simp) (by simp [opSyncs])
      intro other different
      simp [different]
    · rename_i last
      refine .close proc ?_ rfl (by simpa using free) rfl rfl last open_ (by simp)
        (by simp [opSyncs]) rfl
      intro other different
      simp [different]

/-- Every step has one of the eight effects. -/
theorem step_effect {sblock : SuperBlock} {s s' : State} {act : Act}
    (taken : s.step sblock act = some s') : Effect s s' := by
  unfold State.step at taken
  split at taken
  · contradiction
  · cases act with
    | beginOp proc =>
      simp only [Option.ite_none_right_eq_some, Option.some.injEq] at taken
      obtain ⟨⟨place, -⟩, rfl⟩ := taken
      refine beginSection_effect ?_ rfl rfl rfl (by simp [place]) (by rw [place]; rfl) ?_
      · intro other different
        simp [different]
      · exact .inl (by simp)
    | store proc blockNo data =>
      simp only [Option.ite_none_right_eq_some, Option.some.injEq] at taken
      obtain ⟨-, rfl⟩ := taken
      exact .same rfl rfl rfl rfl (by simp [opSyncs])
    | sync proc blockNo =>
      simp only [Option.ite_none_right_eq_some, Option.some.injEq] at taken
      obtain ⟨⟨open_, -⟩, rfl⟩ := taken
      exact syncSection_effect open_
    | syncNull proc blockNo =>
      simp only [Option.ite_none_right_eq_some, Option.some.injEq] at taken
      obtain ⟨-, rfl⟩ := taken
      exact .same rfl rfl rfl rfl (by simp [opSyncs])
    | endOp proc =>
      simp only [Option.ite_none_right_eq_some, Option.some.injEq] at taken
      obtain ⟨⟨open_, -⟩, rfl⟩ := taken
      exact endSection_effect open_
    | run proc => exact advance_effect taken
    | alert proc => exact alerted_effect taken

/-- The action and the place of its process behind an event of the history. -/
def Explains (sblock : SuperBlock) (s : State) (act : Act) : Event → Prop
  | .began proc => s.mustWait = false ∧
      (act = .beginOp proc ∧ s.pc proc = .idle ∨ act = .run proc ∧ s.pc proc = .beginLock)
  | .stored proc blockNo data => act = .store proc blockNo data ∧ s.InClient proc
  | .synced proc blockNo => act = .sync proc blockNo ∧ s.pc proc = .inOp
  | .wroteThrough proc blockNo => act = .syncNull proc blockNo ∧ s.InClient proc
  | .ended proc => act = .endOp proc ∧ s.pc proc = .inOp ∧ 0 < s.log.outstanding - 1
  | .closed proc => act = .endOp proc ∧ s.pc proc = .inOp ∧ ¬ 0 < s.log.outstanding - 1
  | .logCopied target => ∃ proc index, act = .run proc ∧ s.pc proc = .copyWrite index ∧
      target = sblock.logBlock index
  | .headerWritten => ∃ proc, act = .run proc ∧ s.pc proc = .writeHeader
  | .installed blockNo => ∃ proc index, act = .run proc ∧ s.pc proc = .installWrite index ∧
      blockNo = s.header.entry index
  | .headerCleared => ∃ proc, act = .run proc ∧ s.pc proc = .clearHeader
  | .returned proc => act = .run proc ∧ (s.pc proc = .postCheck ∨
      s.pc proc = .endSleep ∧ proc ∉ s.log.check.sleeplist ∨
      s.pc proc = .endWait ∧ 0 < s.log.check.val)
  | .interrupted proc => act = .alert proc ∧ s.pc proc = .endSleep

/-- A step that notes nothing, or one event that its action explains. -/
def Noted (sblock : SuperBlock) (s : State) (act : Act) (s' : State) : Prop :=
  s'.history = s.history ∨ ∃ event, s'.history = event :: s.history ∧ Explains sblock s act event

/-- What the next step of a process inside the log code notes. -/
theorem advance_noted {sblock : SuperBlock} {s s' : State} {proc : Nat}
    (taken : s.advance sblock proc = some s') : Noted sblock s (.run proc) s' := by
  have installs : ∀ (held : State) index, held.history = s.history →
      Noted sblock s (.run proc) (held.installNext proc index) := by
    intro held index same
    refine .inl ?_
    unfold State.installNext
    split <;> exact same
  cases place : s.pc proc with
  | idle | inOp => simp [State.advance, place] at taken
  | beginLock =>
    simp only [State.advance, place, Option.ite_none_right_eq_some, Option.some.injEq] at taken
    obtain ⟨-, rfl⟩ := taken
    unfold State.beginSection
    split
    · exact .inl rfl
    · rename_i room
      exact .inr ⟨_, rfl, by simpa using room, .inr ⟨rfl, place⟩⟩
  | beginWait =>
    simp only [State.advance, place] at taken
    split at taken <;> obtain rfl := Option.some.inj taken <;> exact .inl rfl
  | beginSleep =>
    simp only [State.advance, place, Option.ite_none_left_eq_some, Option.some.injEq] at taken
    obtain ⟨-, rfl⟩ := taken
    exact .inl rfl
  | endPost | postLogsem =>
    simp only [State.advance, place] at taken
    split at taken <;> obtain rfl := Option.some.inj taken <;> exact .inl rfl
  | endWait =>
    simp only [State.advance, place] at taken
    split at taken <;> obtain rfl := Option.some.inj taken
    · rename_i passed
      refine .inr ⟨_, rfl, rfl, .inr (.inr ⟨place, ?_⟩)⟩
      simp only [Semaphore.waitSem] at passed
      split at passed
      · omega
      · simp at passed
    · exact .inl rfl
  | endSleep =>
    simp only [State.advance, place, Option.ite_none_left_eq_some, Option.some.injEq] at taken
    obtain ⟨awake, rfl⟩ := taken
    exact .inr ⟨_, rfl, rfl, .inr (.inl ⟨place, awake⟩)⟩
  | copyFrom | copyTo | copyReleaseFrom | copyReleaseTo | install =>
    simp only [State.advance, place, Option.some.injEq] at taken
    subst taken
    exact .inl rfl
  | copyWrite index =>
    simp only [State.advance, place, Option.some.injEq] at taken
    subst taken
    exact .inr ⟨_, rfl, proc, index, rfl, place, rfl⟩
  | writeHeader | clearHeader =>
    simp only [State.advance, place, Option.some.injEq] at taken
    subst taken
    exact .inr ⟨_, rfl, proc, rfl, place⟩
  | installWrite index =>
    simp only [State.advance, place, Option.some.injEq] at taken
    subst taken
    exact .inr ⟨_, rfl, proc, index, rfl, place, rfl⟩
  | copyNext | finish =>
    simp only [State.advance, place, Option.ite_none_right_eq_some, Option.some.injEq] at taken
    obtain ⟨-, rfl⟩ := taken
    exact .inl rfl
  | installLock =>
    simp only [State.advance, place, Option.ite_none_right_eq_some, Option.some.injEq] at taken
    obtain ⟨-, rfl⟩ := taken
    exact installs _ _ rfl
  | installRelease index =>
    simp only [State.advance, place, Option.some.injEq] at taken
    subst taken
    exact installs _ _ rfl
  | postCheck =>
    simp only [State.advance, place] at taken
    split at taken <;> obtain rfl := Option.some.inj taken
    · exact .inl rfl
    · exact .inr ⟨_, rfl, rfl, .inl place⟩

/-- What a step notes. -/
theorem step_noted {sblock : SuperBlock} {s s' : State} {act : Act}
    (taken : s.step sblock act = some s') : Noted sblock s act s' := by
  unfold State.step at taken
  split at taken
  · contradiction
  · cases act with
    | beginOp proc =>
      simp only [Option.ite_none_right_eq_some, Option.some.injEq] at taken
      obtain ⟨⟨place, -⟩, rfl⟩ := taken
      unfold State.beginSection
      split
      · exact .inl rfl
      · rename_i room
        exact .inr ⟨_, rfl, by simpa using room, .inl ⟨rfl, place⟩⟩
    | store proc blockNo data =>
      simp only [Option.ite_none_right_eq_some, Option.some.injEq] at taken
      obtain ⟨client, rfl⟩ := taken
      exact .inr ⟨_, rfl, rfl, client⟩
    | sync proc blockNo =>
      simp only [Option.ite_none_right_eq_some, Option.some.injEq] at taken
      obtain ⟨⟨open_, -⟩, rfl⟩ := taken
      unfold State.syncSection
      split
      · exact .inr ⟨_, rfl, rfl, open_⟩
      · split
        · exact .inl rfl
        · exact .inr ⟨_, rfl, rfl, open_⟩
    | syncNull proc blockNo =>
      simp only [Option.ite_none_right_eq_some, Option.some.injEq] at taken
      obtain ⟨client, rfl⟩ := taken
      exact .inr ⟨_, rfl, rfl, client⟩
    | endOp proc =>
      simp only [Option.ite_none_right_eq_some, Option.some.injEq] at taken
      obtain ⟨⟨open_, -⟩, rfl⟩ := taken
      unfold State.endSection
      split
      · exact .inl rfl
      · split
        · rename_i more
          exact .inr ⟨_, rfl, rfl, open_, more⟩
        · rename_i last
          exact .inr ⟨_, rfl, rfl, open_, last⟩
    | run proc => exact advance_noted taken
    | alert proc =>
      simp only [State.alerted] at taken
      split at taken
      · simp only [Option.ite_none_right_eq_some, Option.some.injEq] at taken
        obtain ⟨-, rfl⟩ := taken
        exact .inl rfl
      · rename_i place
        simp only [Option.ite_none_right_eq_some, Option.some.injEq] at taken
        obtain ⟨-, rfl⟩ := taken
        exact .inr ⟨_, rfl, rfl, place⟩
      · contradiction

end OsLab.Fs.Log
