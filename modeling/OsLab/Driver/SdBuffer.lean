import OsLab.Driver.Sd

/-!
# Buffers of the SD driver, statement by statement

`sdrw` and `sd_intr` of `src/driver/sd.c` with `unalertable_wait_sem` and `post_sem` inside them,
every statement on shared fields a step of its own. A buffer is on the stack of the call that queues
it, so buffers are named by calls, which are never used twice; `sdrw` of a call has returned when
its stage is `returned`. The handler runs when the controller has finished what was started.
-/
namespace OsLab.Driver.SdBuffer

open OsLab.Lib OsLab.Common

/-- Who holds the lock of a semaphore. -/
inductive Party where
  /-- The call whose buffer it is in. -/
  | caller
  /-- `sd_intr`. -/
  | handler
  deriving Repr, DecidableEq

/-- The next statement of a call. -/
inductive Stage where
  /-- `sdrw` was not called. -/
  | unborn
  /-- `init_sem(&b->bufsem,0)`. -/
  | init
  /-- `_insert_into_list(buflist.prev,&b->lnode)`. -/
  | insert
  /-- The test of `t==b` and `sd_start(t)`. -/
  | start
  /-- `_release_spinlock(&sdlock)`. -/
  | release
  /-- The test of the loop. -/
  | testing
  | lockSem
  /-- `--sem->val >= 0`. -/
  | decrement
  /-- The release of the semaphore when the wait passes at once. -/
  | passed
  /-- The insertion into `sleeplist`. -/
  | enlist
  /-- The release of the semaphore and `sched`. -/
  | sched
  /-- Asleep in `sched`. -/
  | asleep
  /-- `acquire_spinlock(0, &sem->lock)` after `sched`. -/
  | woken
  /-- The test of `wait->up` and the release of the semaphore. -/
  | check
  /-- `sdrw` has returned. -/
  | returned
  deriving Repr, DecidableEq

/-- A call and what is shared of its buffer. -/
structure Call where
  stage : Stage
  flags : UInt32
  /-- `bufsem.lock`. -/
  lock : Option Party
  /-- `bufsem.val` and `bufsem.sleeplist`. -/
  bufsem : Semaphore
  /-- `wait->up` of the sleeper. -/
  up : Bool
  deriving Repr, DecidableEq

/-- The test of the loop of `sdrw`. -/
def Call.served (c : Call) : Bool := c.flags &&& (bValid ||| bDirty) = bValid

/-- The next statement of `sd_intr`, with the buffer `t` while it is still to be used. -/
inductive Place where
  /-- The transfer of the data. -/
  | transfer (t : Nat)
  /-- `_detach_from_list(&t->lnode)`. -/
  | detach (t : Nat)
  /-- `t->flags=B_VALID`. -/
  | setFlags (t : Nat)
  | lockSem (t : Nat)
  /-- `++sem->val <= 0`. -/
  | increment (t : Nat)
  /-- The sleeper leaves `sleeplist` and is activated. -/
  | wake (t : Nat)
  | unlockSem (t : Nat)
  /-- The test of the list and `sd_start`. -/
  | startNext
  /-- `_release_spinlock(&sdlock)`. -/
  | release
  deriving Repr, DecidableEq

/-- The buffer that `sd_intr` is going to use. -/
def Place.target : Place → Option Nat
  | .transfer t | .detach t | .setFlags t | .lockSem t | .increment t | .wake t | .unlockSem t =>
    some t
  | .startNext | .release => none

/-- Who holds `sdlock`. -/
inductive Holder where
  /-- A call of `sdrw`. -/
  | caller (call : Nat)
  /-- `sd_intr`. -/
  | handler
  deriving Repr, DecidableEq

/-- What the controller does. -/
inductive Emmc where
  | idle
  /-- It executes a command. -/
  | busy
  /-- It has finished one, and `EMMC_INTERRUPT` is set. -/
  | raised
  deriving Repr, DecidableEq

/-- The calls, the handler and the controller. -/
structure State where
  calls : Nat → Call
  /-- `buflist`, from `buflist.next` on. -/
  buflist : List Nat
  sdlock : Option Holder
  /-- The handler, while it runs. -/
  handler : Option Place
  emmc : Emmc
  panic : Bool

/-- What happens next. -/
inductive Act where
  /-- A call of `sdrw` with these flags acquires `sdlock`. -/
  | sdrw (call : Nat) (flags : UInt32)
  /-- The next statement of a call. -/
  | caller (call : Nat)
  /-- The controller finishes its command. -/
  | finish
  /-- `sd_intr` acquires `sdlock` and takes the first buffer. -/
  | intr
  /-- The next statement of `sd_intr`. -/
  | handler

namespace State

/-- Change a call. -/
def modify (s : State) (call : Nat) (change : Call → Call) : State :=
  { s with calls := Function.update s.calls call (change (s.calls call)) }

/-- `sd_start`. -/
def sdStart (s : State) : State :=
  if s.emmc = .raised then { s with panic := true } else { s with emmc := .busy }

/-- The next statement of a call. -/
def stepCaller (s : State) (call : Nat) : Option State :=
  let c := s.calls call
  match c.stage with
  | .unborn | .asleep | .returned => none
  | .init => some (s.modify call ({ · with stage := .insert, bufsem := .initSem 0, lock := none }))
  | .insert =>
    some { s.modify call ({ · with stage := .start }) with buflist := s.buflist ++ [call] }
  | .start =>
    let s := s.modify call ({ · with stage := .release })
    some (if s.buflist.head? = some call then s.sdStart else s)
  | .release => some { s.modify call ({ · with stage := .testing }) with sdlock := none }
  | .testing => some (s.modify call ({ · with stage := if c.served then .returned else .lockSem }))
  | .lockSem =>
    if c.lock = none then
      some (s.modify call ({ · with stage := .decrement, lock := some .caller }))
    else none
  | .decrement =>
    let val := c.bufsem.val - 1
    some (s.modify call fun c => { c with
      stage := if 0 ≤ val then .passed else .enlist
      bufsem := { c.bufsem with val } })
  | .passed => some (s.modify call ({ · with stage := .testing, lock := none }))
  | .enlist =>
    some (s.modify call fun c => { c with
      stage := .sched
      bufsem := { c.bufsem with sleeplist := c.bufsem.sleeplist ++ [call] }
      up := false })
  | .sched => some (s.modify call ({ · with stage := .asleep, lock := none }))
  | .woken =>
    if c.lock = none then some (s.modify call ({ · with stage := .check, lock := some .caller }))
    else none
  | .check =>
    if c.up then some (s.modify call ({ · with stage := .testing, lock := none }))
    else some { s with panic := true }

/-- The next statement of `sd_intr`. -/
def stepHandler (s : State) : Place → Option State
  | .transfer t => some { s with handler := some (.detach t), emmc := .idle }
  | .detach t => some { s with handler := some (.setFlags t), buflist := s.buflist.erase t }
  | .setFlags t =>
    some { s.modify t ({ · with flags := bValid }) with handler := some (.lockSem t) }
  | .lockSem t =>
    if (s.calls t).lock = none then
      some { s.modify t ({ · with lock := some .handler }) with handler := some (.increment t) }
    else none
  | .increment t =>
    let val := (s.calls t).bufsem.val + 1
    some { s.modify t (fun c => { c with bufsem := { c.bufsem with val } }) with
      handler := some (if val ≤ 0 then .wake t else .unlockSem t) }
  | .wake t =>
    match (s.calls t).bufsem.sleeplist with
    | [] => some { s with panic := true }
    | sleeper :: rest =>
      let s := s.modify t fun c => { c with bufsem := { c.bufsem with sleeplist := rest }, up := true }
      some { s.modify sleeper ({ · with stage := .woken }) with handler := some (.unlockSem t) }
  | .unlockSem t => some { s.modify t ({ · with lock := none }) with handler := some .startNext }
  | .startNext =>
    let s := if s.buflist = [] then s else s.sdStart
    some { s with handler := some .release }
  | .release => some { s with handler := none, sdlock := none }

/-- One step. -/
def step (s : State) (act : Act) : Option State :=
  if s.panic then none
  else match act with
    | .sdrw call flags =>
      if s.sdlock = none ∧ (s.calls call).stage = .unborn ∧
          (flags &&& bDirty ≠ 0 ∨ flags &&& bValid = 0) then
        some { s.modify call ({ · with stage := .init, flags }) with
          sdlock := some (.caller call) }
      else none
    | .caller call => s.stepCaller call
    | .finish => if s.emmc = .busy then some { s with emmc := .raised } else none
    | .intr =>
      if s.sdlock = none ∧ s.emmc = .raised then
        match s.buflist with
        | [] => some { s with panic := true }
        | t :: _ => some { s with sdlock := some .handler, handler := some (.transfer t) }
      else none
    | .handler => s.handler.bind s.stepHandler

/-- Nothing was called. -/
def boot : State where
  calls _ := ⟨.unborn, 0, none, .initSem 0, false⟩
  buflist := []
  sdlock := none
  handler := none
  emmc := .idle
  panic := false

end State

/-- The driver statement by statement. -/
def machine : Machine State Act where
  init s := s = .boot
  step := State.step

/-- `sd_intr` sets the flags only while the call is past the test of its loop. -/
def Tested (s : State) (act : Act) : Prop :=
  match act, s.handler with
  | .handler, some (.setFlags t) => (s.calls t).stage ≠ .testing
  | _, _ => True

instance (s : State) (act : Act) : Decidable (Tested s act) := by
  unfold Tested
  split <;> infer_instance

/-! ## The invariant -/

theorem modify_self (s : State) (call : Nat) (change : Call → Call) :
    (s.modify call change).calls call = change (s.calls call) := Function.update_self ..

/-- The call holds `sdlock`. -/
def Stage.locking : Stage → Bool
  | .init | .insert | .start | .release => true
  | _ => false

/-- A call before it enters the list. -/
def Call.Fresh (c : Call) : Prop :=
  match c.stage with
  | .init => c.served = false
  | .insert => c.served = false ∧ c.lock = none ∧ c.bufsem = ⟨0, []⟩
  | _ => True

theorem Call.Fresh.of_unlocking {c : Call} (outside : c.stage.locking = false) : c.Fresh := by
  unfold Call.Fresh
  cases stage : c.stage <;> simp_all [Stage.locking]

/-- A call whose semaphore was not posted, after it entered the list. -/
def Call.Early (call : Nat) (c : Call) : Prop :=
  match c.stage with
  | .start | .release | .testing | .lockSem => c.lock = none ∧ c.bufsem = ⟨0, []⟩
  | .decrement => c.lock = some .caller ∧ c.bufsem = ⟨0, []⟩
  | .enlist => c.lock = some .caller ∧ c.bufsem = ⟨-1, []⟩
  | .sched => c.lock = some .caller ∧ c.bufsem = ⟨-1, [call]⟩
  | .asleep => c.lock = none ∧ c.bufsem = ⟨-1, [call]⟩
  | _ => False

/-- A call whose buffer `sd_intr` still uses, depending on the next statement there. -/
def Place.Fits (calls : Nat → Call) (buflist : List Nat) : Place → Prop
  | .transfer t | .detach t => t ∈ buflist
  | .setFlags t => t ∉ buflist ∧ (calls t).Early t ∧ (calls t).served = false
  | .lockSem t => t ∉ buflist ∧ (calls t).Early t ∧ (calls t).stage ≠ .testing
  | .increment t => t ∉ buflist ∧ (calls t).lock = some .handler ∧
    ((calls t).stage = .lockSem ∧ (calls t).bufsem = ⟨0, []⟩ ∨
      (calls t).stage = .asleep ∧ (calls t).bufsem = ⟨-1, [t]⟩)
  | .wake t => t ∉ buflist ∧ (calls t).lock = some .handler ∧ (calls t).stage = .asleep ∧
    (calls t).bufsem = ⟨0, [t]⟩
  | .unlockSem t => t ∉ buflist ∧ (calls t).lock = some .handler ∧
    ((calls t).stage = .lockSem ∨ (calls t).stage = .woken)
  | .startNext | .release => True

/-- Only the call of that buffer matters, and whether it is in the list. -/
theorem Place.Fits.congr {calls calls' : Nat → Call} {buflist buflist' : List Nat} {place : Place}
    (fits : place.Fits calls buflist)
    (same : ∀ t, place.target = some t → calls' t = calls t ∧ (t ∈ buflist' ↔ t ∈ buflist)) :
    place.Fits calls' buflist' := by
  cases place with
  | startNext | release => trivial
  | _ t =>
    obtain ⟨call, list⟩ := same t rfl
    simpa only [Place.Fits, call, list] using fits

/-- What holds between two steps. -/
structure Inv (s : State) : Prop where
  locking : ∀ call, (s.calls call).stage.locking → s.sdlock = some (.caller call)
  held : s.handler.isSome → s.sdlock = some .handler
  fresh : ∀ call, (s.calls call).Fresh
  nodup : s.buflist.Nodup
  listed : ∀ call ∈ s.buflist, (s.calls call).Early call ∧ (s.calls call).served = false
  fits : ∀ place, s.handler = some place → place.Fits s.calls s.buflist

namespace Inv

variable {s : State} {call : Nat}

theorem boot : Inv .boot := ⟨nofun, nofun, fun _ => trivial, List.nodup_nil, nofun, nofun⟩

/-- A buffer that is used by others is that of a call that has not returned. -/
theorem not_returned (inv : Inv s)
    (used : call ∈ s.buflist ∨ ∃ place, s.handler = some place ∧ place.target = some call) :
    (s.calls call).stage ≠ .returned := by
  have early : (s.calls call).Early call → (s.calls call).stage ≠ .returned := by
    intro early done
    rw [Call.Early, done] at early
    exact early
  obtain member | ⟨place, running, isTarget⟩ := used
  · exact early (inv.listed call member).1
  · have fits := inv.fits place running
    cases place with
    | transfer t | detach t =>
      obtain rfl := Option.some.inj isTarget
      exact early (inv.listed t fits).1
    | setFlags t | lockSem t =>
      obtain rfl := Option.some.inj isTarget
      exact early fits.2.1
    | increment t =>
      obtain rfl := Option.some.inj isTarget
      obtain ⟨-, -, ⟨stage, -⟩ | ⟨stage, -⟩⟩ := fits <;> simp [stage]
    | wake t =>
      obtain rfl := Option.some.inj isTarget
      simp [fits.2.2.1]
    | unlockSem t =>
      obtain rfl := Option.some.inj isTarget
      obtain ⟨-, -, stage | stage⟩ := fits <;> simp [stage]
    | startNext | release => contradiction

/-- While a call holds `sdlock`, the handler does not run. -/
theorem no_handler (inv : Inv s) (locking : (s.calls call).stage.locking = true) :
    s.handler = none := by
  have held := inv.locking call locking
  by_contra running
  have also := inv.held (Option.isSome_iff_ne_none.mpr running)
  simp [held] at also

/-- A statement of a call that leaves the list and `sdlock` alone. -/
theorem modify (inv : Inv s) {change : Call → Call} (fresh : (change (s.calls call)).Fresh)
    (flags : (change (s.calls call)).flags = (s.calls call).flags)
    (locking : (change (s.calls call)).stage.locking → (s.calls call).stage.locking)
    (early : (s.calls call).Early call →
      ((s.calls call).stage = .testing → (s.calls call).served = false) →
      (change (s.calls call)).Early call ∧
        ((s.calls call).stage.locking = false → (change (s.calls call)).stage ≠ .testing))
    (stuck : (s.calls call).lock = some .handler → (s.calls call).stage ≠ .lockSem ∧
      (s.calls call).stage ≠ .asleep ∧ (s.calls call).stage ≠ .woken) :
    Inv (s.modify call change) := by
  have same : (change (s.calls call)).served = (s.calls call).served := by
    rw [Call.served, flags, Call.served]
  refine ⟨fun other => ?_, inv.held, fun other => ?_, inv.nodup, fun other member => ?_,
    fun place running => ?_⟩
  · by_cases isCall : other = call
    · subst isCall
      intro inside
      exact inv.locking other (locking (by simpa [State.modify] using inside))
    · simpa [State.modify, isCall] using inv.locking other
  · by_cases isCall : other = call
    · subst isCall
      simpa [State.modify] using fresh
    · simpa [State.modify, isCall] using inv.fresh other
  · by_cases isCall : other = call
    · subst isCall
      obtain ⟨was, unserved⟩ := inv.listed other member
      simpa [State.modify, same, unserved] using (early was fun _ => unserved).1
    · simpa [State.modify, isCall] using inv.listed other member
  · have fits := inv.fits place running
    by_cases isCall : place.target = some call
    · have outside : (s.calls call).stage.locking = false := by
        by_contra inside
        have idle := inv.no_handler (by simpa using inside)
        simp [State.modify, idle] at running
      cases place with
      | transfer t | detach t => exact fits
      | setFlags t =>
        obtain rfl := Option.some.inj isCall
        obtain ⟨absent, was, unserved⟩ := fits
        refine ⟨absent, ?_⟩
        simpa [State.modify, same, unserved] using (early was fun _ => unserved).1
      | lockSem t =>
        obtain rfl := Option.some.inj isCall
        obtain ⟨absent, was, past⟩ := fits
        refine ⟨absent, ?_⟩
        obtain ⟨still, later⟩ := early was fun testing => absurd testing past
        simpa [State.modify] using ⟨still, later outside⟩
      | increment t =>
        obtain rfl := Option.some.inj isCall
        obtain ⟨-, held, ⟨stage, -⟩ | ⟨stage, -⟩⟩ := fits <;> simp [stage] at stuck <;> contradiction
      | wake t =>
        obtain rfl := Option.some.inj isCall
        obtain ⟨-, held, stage, -⟩ := fits
        exact absurd stage (stuck held).2.1
      | unlockSem t =>
        obtain rfl := Option.some.inj isCall
        obtain ⟨-, held, stage | stage⟩ := fits <;> simp [stage] at stuck <;> contradiction
      | startNext | release => exact fits
    · refine fits.congr fun t isTarget => ⟨Function.update_of_ne ?_ .., .rfl⟩
      rintro rfl
      exact isCall isTarget

/-- Only the call that holds `sdlock` is between its two statements on it. -/
theorem alone (inv : Inv s) (locking : (s.calls call).stage.locking = true) {other : Nat}
    (also : (s.calls other).stage.locking = true) : other = call := by
  have held := inv.locking call locking
  rw [inv.locking other also] at held
  exact Holder.caller.inj (Option.some.inj held)

/-- A call enters the list. -/
theorem insert (inv : Inv s) (stage : (s.calls call).stage = .insert) :
    Inv { s.modify call ({ · with stage := .start }) with buflist := s.buflist ++ [call] } := by
  have inside : (s.calls call).stage.locking = true := by rw [stage]; rfl
  have fresh := inv.fresh call
  rw [Call.Fresh, stage] at fresh
  obtain ⟨unserved, free, zero⟩ := fresh
  have absent : call ∉ s.buflist := fun member => by
    have early := (inv.listed call member).1
    rw [Call.Early, stage] at early
    exact early
  have idle := inv.no_handler inside
  refine ⟨fun other => ?_, inv.held, fun other => ?_, ?_, fun other member => ?_, ?_⟩
  · by_cases isCall : other = call
    · subst isCall
      exact fun _ => inv.locking other inside
    · simpa [State.modify, isCall] using inv.locking other
  · by_cases isCall : other = call
    · subst isCall
      simp [State.modify, Call.Fresh]
    · simpa [State.modify, isCall] using inv.fresh other
  · exact inv.nodup.append (by simp) (by simpa using absent)
  · by_cases isCall : other = call
    · subst isCall
      have same : ({ s.calls other with stage := .start } : Call).served = false := unserved
      simp only [State.modify, Function.update_self]
      exact ⟨⟨free, zero⟩, same⟩
    · have member : other ∈ s.buflist := by simpa [isCall] using member
      simpa [State.modify, isCall] using inv.listed other member
  · simp [State.modify, idle]

/-- A call gives `sdlock` back. -/
theorem release (inv : Inv s) (stage : (s.calls call).stage = .release) :
    Inv { s.modify call ({ · with stage := .testing }) with sdlock := none } := by
  have inside : (s.calls call).stage.locking = true := by rw [stage]; rfl
  have idle := inv.no_handler inside
  refine ⟨fun other also => ?_, ?_, fun other => ?_, inv.nodup, fun other member => ?_, ?_⟩
  · by_cases isCall : other = call
    · subst isCall
      simp [State.modify, Stage.locking] at also
    · exact absurd (inv.alone inside (by simpa [State.modify, isCall] using also)) isCall
  · simp [State.modify, idle]
  · by_cases isCall : other = call
    · subst isCall
      simp [State.modify, Call.Fresh]
    · simpa [State.modify, isCall] using inv.fresh other
  · by_cases isCall : other = call
    · subst isCall
      obtain ⟨early, unserved⟩ := inv.listed other member
      rw [Call.Early, stage] at early
      have same : ({ s.calls other with stage := .testing } : Call).served = false := unserved
      simpa [State.modify, Call.Early, same] using early
    · simpa [State.modify, isCall] using inv.listed other member
  · simp [State.modify, idle]

/-- `sd_start` changes nothing of the calls. -/
theorem sdStart (inv : Inv s) : Inv s.sdStart ∧ s.sdStart.handler = s.handler := by
  unfold State.sdStart
  split <;> refine ⟨?_, rfl⟩ <;> exact ⟨inv.locking, inv.held, inv.fresh, inv.nodup, inv.listed, inv.fits⟩

/-- A statement of a call. -/
theorem stepCaller {s' : State} (inv : Inv s) (taken : s.stepCaller call = some s') : Inv s' := by
  have fresh := inv.fresh call
  unfold State.stepCaller at taken
  cases stage : (s.calls call).stage with
  | unborn | asleep | returned => simp [stage] at taken
  | init =>
    simp only [stage, Option.some.injEq] at taken
    obtain rfl := taken
    rw [Call.Fresh, stage] at fresh
    refine inv.modify ⟨fresh, rfl, rfl⟩ ?_ ?_ ?_ ?_ <;> simp [stage, Stage.locking, Call.Early]
  | insert =>
    simp only [stage, Option.some.injEq] at taken
    obtain rfl := taken
    exact inv.insert stage
  | start =>
    simp only [stage, Option.some.injEq] at taken
    obtain rfl := taken
    have moved : Inv (s.modify call ({ · with stage := .release })) := by
      refine inv.modify ?_ ?_ ?_ ?_ ?_ <;> simp [stage, Stage.locking, Call.Early, Call.Fresh]
    split
    · exact moved.sdStart.1
    · exact moved
  | release =>
    simp only [stage, Option.some.injEq] at taken
    obtain rfl := taken
    exact inv.release stage
  | testing =>
    simp only [stage, Option.some.injEq] at taken
    obtain rfl := taken
    refine inv.modify ?_ ?_ ?_ (fun early unserved => ?_) ?_
    · cases (s.calls call).served <;> simp [Call.Fresh]
    · rfl
    · cases (s.calls call).served <;> simp [Stage.locking]
    · rw [Call.Early, stage] at early
      simpa [unserved stage, Call.Early] using early
    · simp [stage]
  | lockSem =>
    simp only [stage, Option.ite_none_right_eq_some, Option.some.injEq] at taken
    obtain ⟨free, rfl⟩ := taken
    refine inv.modify ?_ ?_ ?_ ?_ ?_ <;> simp [stage, free, Stage.locking, Call.Early, Call.Fresh]
  | decrement =>
    simp only [stage, Option.some.injEq] at taken
    obtain rfl := taken
    have outside : ∀ passes : Prop, ∀ _ : Decidable passes,
        (if passes then Stage.passed else .enlist).locking = false := by
      intro passes _
      split <;> rfl
    refine inv.modify (.of_unlocking (outside _ _)) rfl ?_ (fun early _ => ?_) ?_
    · simp [outside]
    · rw [Call.Early, stage] at early
      obtain ⟨held, zero⟩ := early
      simp [Call.Early, held, zero]
    · simp [stage]
  | passed =>
    simp only [stage, Option.some.injEq] at taken
    obtain rfl := taken
    refine inv.modify ?_ ?_ ?_ ?_ ?_ <;> simp [stage, Stage.locking, Call.Early, Call.Fresh]
  | enlist =>
    simp only [stage, Option.some.injEq] at taken
    obtain rfl := taken
    refine inv.modify ?_ ?_ ?_ (fun early _ => ?_) ?_
    · simp [Call.Fresh]
    · rfl
    · simp [Stage.locking]
    · rw [Call.Early, stage] at early
      obtain ⟨held, one⟩ := early
      simp [Call.Early, held, one]
    · simp [stage]
  | sched =>
    simp only [stage, Option.some.injEq] at taken
    obtain rfl := taken
    refine inv.modify ?_ ?_ ?_ ?_ ?_ <;> simp [stage, Stage.locking, Call.Early, Call.Fresh]
  | woken =>
    simp only [stage, Option.ite_none_right_eq_some, Option.some.injEq] at taken
    obtain ⟨free, rfl⟩ := taken
    refine inv.modify ?_ ?_ ?_ ?_ ?_ <;> simp [stage, free, Stage.locking, Call.Early, Call.Fresh]
  | check =>
    simp only [stage] at taken
    split at taken
    · obtain rfl := Option.some.inj taken
      refine inv.modify ?_ ?_ ?_ ?_ ?_ <;> simp [stage, Stage.locking, Call.Early, Call.Fresh]
    · obtain rfl := Option.some.inj taken
      exact ⟨inv.locking, inv.held, inv.fresh, inv.nodup, inv.listed, inv.fits⟩

/-- A statement of the handler on its buffer, which has left the list. -/
theorem handle (inv : Inv s) (running : s.handler.isSome) {change : Call → Call} {place : Place}
    (absent : call ∉ s.buflist) (unlocked : (change (s.calls call)).stage.locking = false)
    (fits : place.Fits (s.modify call change).calls s.buflist) :
    Inv { s.modify call change with handler := some place } := by
  refine ⟨fun other => ?_, fun _ => inv.held running, fun other => ?_, inv.nodup,
    fun other member => ?_, ?_⟩
  · by_cases isCall : other = call
    · subst isCall
      simp [State.modify, unlocked]
    · simpa [State.modify, isCall] using inv.locking other
  · by_cases isCall : other = call
    · subst isCall
      simpa [State.modify] using Call.Fresh.of_unlocking unlocked
    · simpa [State.modify, isCall] using inv.fresh other
  · have isOther : other ≠ call := by
      rintro rfl
      exact absent member
    simpa [State.modify, isOther] using inv.listed other member
  · rintro _ ⟨⟩
    exact fits

/-- A statement of the handler; it sets the flags while the call is past its test. -/
theorem stepHandler {s' : State} {place : Place} (inv : Inv s) (running : s.handler = some place)
    (tested : ∀ t, place = .setFlags t → (s.calls t).stage ≠ .testing)
    (taken : s.stepHandler place = some s') : Inv s' := by
  have runs : s.handler.isSome := by simp [running]
  have fits := inv.fits place running
  have outside : ∀ t, (s.calls t).stage.locking = false := fun t => by
    by_contra inside
    have idle := inv.no_handler (by simpa using inside)
    simp [idle] at running
  cases place with
  | transfer t =>
    obtain rfl := Option.some.inj taken
    refine ⟨inv.locking, fun _ => inv.held runs, inv.fresh, inv.nodup, inv.listed, ?_⟩
    rintro _ ⟨⟩
    exact fits
  | detach t =>
    obtain rfl := Option.some.inj taken
    refine ⟨inv.locking, fun _ => inv.held runs, inv.fresh, inv.nodup.erase t,
      fun other member => inv.listed other (List.mem_of_mem_erase member), ?_⟩
    rintro _ ⟨⟩
    exact ⟨inv.nodup.not_mem_erase, inv.listed t fits⟩
  | setFlags t =>
    obtain rfl := Option.some.inj taken
    obtain ⟨absent, early, -⟩ := fits
    refine inv.handle runs absent (outside t) ⟨absent, ?_⟩
    rw [modify_self]
    exact ⟨early, tested t rfl⟩
  | lockSem t =>
    simp only [State.stepHandler, Option.ite_none_right_eq_some, Option.some.injEq] at taken
    obtain ⟨free, rfl⟩ := taken
    obtain ⟨absent, early, past⟩ := fits
    refine inv.handle runs absent (outside t) ⟨absent, ?_⟩
    have unlocked := outside t
    rw [modify_self]
    refine ⟨rfl, ?_⟩
    unfold Call.Early at early
    cases stage : (s.calls t).stage <;> simp_all [Stage.locking]
  | increment t =>
    obtain rfl := Option.some.inj taken
    obtain ⟨absent, held, ⟨stage, sem⟩ | ⟨stage, sem⟩⟩ := fits
    · exact inv.handle runs absent (outside t)
        (by simp [sem, State.modify, Place.Fits, absent, held, stage])
    · exact inv.handle runs absent (outside t)
        (by simp [sem, State.modify, Place.Fits, absent, held, stage])
  | wake t =>
    obtain ⟨absent, held, stage, sem⟩ := fits
    simp only [State.stepHandler, sem, Option.some.injEq] at taken
    obtain rfl := taken
    have once : ∀ first second : Call → Call,
        (s.modify t first).modify t second = s.modify t fun c => second (first c) := by
      intro first second
      simp [State.modify]
    rw [once]
    refine inv.handle runs absent rfl ⟨absent, ?_⟩
    rw [modify_self]
    exact ⟨held, .inr rfl⟩
  | unlockSem t =>
    obtain rfl := Option.some.inj taken
    exact inv.handle runs fits.1 (outside t) trivial
  | startNext =>
    obtain rfl := Option.some.inj taken
    have started : Inv (if s.buflist = [] then s else s.sdStart) ∧
        (if s.buflist = [] then s else s.sdStart).handler = s.handler := by
      split
      · exact ⟨inv, rfl⟩
      · exact inv.sdStart
    obtain ⟨inv', same⟩ := started
    refine ⟨inv'.locking, fun _ => inv'.held (by rw [same]; exact runs), inv'.fresh, inv'.nodup,
      inv'.listed, ?_⟩
    rintro _ ⟨⟩
    trivial
  | release =>
    obtain rfl := Option.some.inj taken
    refine ⟨fun other inside => ?_, nofun, inv.fresh, inv.nodup, inv.listed, nofun⟩
    have unlocked := outside other
    exact absurd inside (by simpa using unlocked)

/-- A call begins. -/
theorem sdrw (inv : Inv s) {flags : UInt32} (free : s.sdlock = none)
    (unborn : (s.calls call).stage = .unborn)
    (pending : flags &&& bDirty ≠ 0 ∨ flags &&& bValid = 0) :
    Inv { s.modify call ({ · with stage := .init, flags }) with sdlock := some (.caller call) } := by
  have idle : s.handler = none := by
    by_contra running
    have held := inv.held (Option.isSome_iff_ne_none.mpr running)
    simp [free] at held
  have outside : ∀ other, (s.calls other).stage.locking = false := fun other => by
    by_contra inside
    have held := inv.locking other (by simpa using inside)
    simp [free] at held
  have unserved : ({ s.calls call with stage := .init, flags } : Call).served = false := by
    have served := Buf.served_of_pending (b := ⟨flags, 0, .replicate 128 0, .initSem 0⟩)
      (by simpa [Buf.pending, Buf.dirty] using pending)
    exact served
  refine ⟨fun other inside => ?_, ?_, fun other => ?_, inv.nodup, fun other member => ?_, ?_⟩
  · by_cases isCall : other = call
    · rw [isCall]
    · exact absurd inside (by simpa [State.modify, isCall] using outside other)
  · simp [State.modify, idle]
  · by_cases isCall : other = call
    · subst isCall
      simp only [State.modify, Function.update_self]
      exact unserved
    · simpa [State.modify, isCall] using inv.fresh other
  · have isOther : other ≠ call := by
      rintro rfl
      have early := (inv.listed other member).1
      rw [Call.Early, unborn] at early
      exact early
    simpa [State.modify, isOther] using inv.listed other member
  · simp [State.modify, idle]

/-- Steps under the condition keep the invariant. -/
theorem step {s' : State} {act : Act} (inv : Inv s) (tested : Tested s act)
    (taken : s.step act = some s') : Inv s' := by
  unfold State.step at taken
  split at taken
  · contradiction
  cases act with
  | sdrw call flags =>
    simp only [Option.ite_none_right_eq_some, Option.some.injEq] at taken
    obtain ⟨⟨free, unborn, pending⟩, rfl⟩ := taken
    exact inv.sdrw free unborn pending
  | caller call => exact inv.stepCaller taken
  | finish =>
    simp only [Option.ite_none_right_eq_some, Option.some.injEq] at taken
    obtain ⟨-, rfl⟩ := taken
    exact ⟨inv.locking, inv.held, inv.fresh, inv.nodup, inv.listed, inv.fits⟩
  | intr =>
    simp only [Option.ite_none_right_eq_some] at taken
    obtain ⟨⟨free, -⟩, taken⟩ := taken
    split at taken
    · obtain rfl := Option.some.inj taken
      exact ⟨inv.locking, inv.held, inv.fresh, inv.nodup, inv.listed, inv.fits⟩
    · rename_i t rest list
      obtain rfl := Option.some.inj taken
      refine ⟨fun other inside => ?_, fun _ => rfl, inv.fresh, inv.nodup, inv.listed, ?_⟩
      · have held := inv.locking other inside
        simp [free] at held
      · rintro _ ⟨⟩
        exact list ▸ List.mem_cons_self ..
  | handler =>
    obtain ⟨place, running, taken⟩ := Option.bind_eq_some_iff.mp taken
    refine inv.stepHandler running (fun t isSet => ?_) taken
    subst isSet
    simpa only [Tested, running] using tested

theorem reach (reached : machine.Reach Tested s) : Inv s :=
  Machine.Reach.invariant reached (fun _ initial => initial ▸ boot)
    fun _ _ _ _ inv tested taken => inv.step tested taken

end Inv

/-- No buffer of a call that has returned is used by `sd_intr`, or found by others in the list. -/
def Untouched (s : State) : Prop :=
  ∀ call, (s.calls call).stage = .returned →
    call ∉ s.buflist ∧ s.handler.bind Place.target ≠ some call

/-- While `sd_intr` sets the flags of a buffer only when its call is past the test of the loop,
`sdrw` returns after the last access of `sd_intr` to the buffer. -/
theorem sdrw_outlasts_intr (s : State) (reached : machine.Reach Tested s) : Untouched s := by
  have inv := Inv.reach reached
  intro call returned
  constructor
  · exact fun member => inv.not_returned (.inl member) returned
  · intro used
    obtain ⟨place, running, target⟩ := Option.bind_eq_some_iff.mp used
    exact inv.not_returned (.inr ⟨place, running, target⟩) returned

/-- A call is queued and goes to sleep; its command finishes, and the handler serves it. -/
def sleptRun : List Act :=
  [.sdrw 0 0] ++ List.replicate 9 (.caller 0) ++ [.finish, .intr] ++ List.replicate 9 .handler ++
    List.replicate 3 (.caller 0)

/-- In that run `sdrw` returns, after the handler has ended. -/
theorem sdrw_outlasts_intr_sleptRun : ∃ s, machine.Reach Tested s ∧
    (s.calls 0).stage = .returned ∧ s.handler = none ∧ Untouched s := by
  have shown : (machine.exec Tested .boot sleptRun).map (fun s => ((s.calls 0).stage, s.handler)) =
      some (.returned, none) := by
    decide +kernel
  obtain ⟨s, reached, observed⟩ := Machine.Reach.exec_map rfl shown
  obtain ⟨returned, idle⟩ := Prod.mk.inj observed
  exact ⟨s, reached, returned, idle, sdrw_outlasts_intr s reached⟩

/-- The call tests the flags after `sd_intr` has set them and before it has posted the semaphore:
`sdrw` returns while `sd_intr` is about to lock the semaphore in the buffer. -/
theorem sdrw_returns_before_post : ∃ s, machine.Reach Machine.Any s ∧
    (s.calls 0).stage = .returned ∧ s.handler = some (.lockSem 0) ∧ ¬ Untouched s := by
  have shown : (machine.exec Machine.Any .boot (List.flatten [[.sdrw 0 0],
      List.replicate 4 (.caller 0), [.finish, .intr], List.replicate 3 .handler, [.caller 0]])).map
      (fun s => ((s.calls 0).stage, s.handler)) = some (.returned, some (.lockSem 0)) := by
    decide +kernel
  obtain ⟨s, reached, observed⟩ := Machine.Reach.exec_map rfl shown
  obtain ⟨returned, running⟩ := Prod.mk.inj observed
  refine ⟨s, reached, returned, running, fun untouched => (untouched 0 returned).2 ?_⟩
  rw [running]
  rfl

end OsLab.Driver.SdBuffer
