import OsLab.Fs.PipeRun

/-!
# The lock of a pipe

`pipeRead` and `pipeWrite` hold `pi->lock` at every access to the buffer as long as nobody has to
sleep. Then any number of readers and writers may use the pipe. A process that slept goes on
without the lock and releases it in the end although another process may hold it.
-/
namespace OsLab.Fs.PipeRun

open OsLab.Lib OsLab.Common

namespace Pc

/-- The next step reads or writes `data`, `nread` or `nwrite`. -/
def accesses : Pc → Bool
  | .writeTest (_ :: _) _ | .writeStore .. | .readTest _ | .readNext .. | .readLoad .. => true
  | _ => false

/-- The next step is `_release_spinlock`. -/
def releases : Pc → Bool
  | .writeFail | .writeRelease .. | .writeLeave _ | .readFail | .readRelease _ | .readLeave ..
  | .closeLeave => true
  | _ => false

/-- Between `_acquire_spinlock` and `_release_spinlock`. -/
def inside : Pc → Bool
  | .writeTest .. | .writeFail | .writePost .. | .writeRelease .. | .writeStore .. | .writeDone _
  | .writeLeave _ | .readTest _ | .readFail | .readRelease _ | .readNext .. | .readLoad ..
  | .readDone .. | .readLeave .. | .closeSet _ | .closeLeave => true
  | _ => false

/-- On the way to sleep. -/
def waits : Pc → Bool
  | .writePost .. | .writeRelease .. | .writeWait .. | .writeAsleep .. | .readRelease _
  | .readWait _ | .readAsleep _ => true
  | _ => false

/-- Accesses and releases stand inside. -/
theorem inside_of_uses {pc : Pc} (uses : pc.accesses = true ∨ pc.releases = true) :
    pc.inside = true := by
  cases pc <;> first | rfl | simp [accesses, releases] at uses

/-- Who is not on the way to sleep is not woken. -/
theorem wake_eq {pc : Pc} (awake : pc.waits = false) : pc.wake = pc := by
  cases pc <;> first | rfl | simp [waits] at awake

end Pc

/-- Whoever accesses the buffer or releases the lock holds the lock. -/
def LockHeld (s : State) : Prop :=
  ∀ proc, (s.pcs proc).accesses = true ∨ (s.pcs proc).releases = true → s.holder = some proc

/-- No test makes a process sleep: `pipeWrite` finds room, a closed read end or the process
killed; `pipeRead` finds a byte, a closed write end or the process killed. -/
def Unblocked (s : State) : Act → Prop
  | .run proc =>
    match s.pcs proc with
    | .writeTest (_ :: _) _ => s.buffer.full = true → s.readopen = false ∨ s.killed proc = true
    | .readTest _ => s.buffer.empty = true → s.writeopen = true → s.killed proc = true
    | _ => True
  | _ => True

instance (s : State) (act : Act) : Decidable (Unblocked s act) := by
  unfold Unblocked
  split
  · split <;> infer_instance
  · infer_instance

/-- What is true of a process where it stands, as long as nobody sleeps. -/
structure Fine (s : State) (proc : Nat) (pc : Pc) : Prop where
  held : pc.inside = true → s.holder = some proc
  awake : pc.waits = false
  room : ∀ byte todo n, pc = .writeStore byte todo n →
    s.buffer.stored.length < s.buffer.loaded.length + pipesize
  more : ∀ got n, pc = .readLoad got n → s.buffer.loaded.length < s.buffer.stored.length

/-- Outside there is nothing to protect. -/
theorem Fine.of_outside {s : State} {proc : Nat} {pc : Pc} (outside : pc.inside = false)
    (awake : pc.waits = false) : Fine s proc pc := by
  refine ⟨fun inside => ?_, awake, ?_, ?_⟩
  · simp [outside] at inside
  · rintro byte todo n rfl
    simp [Pc.inside] at outside
  · rintro got n rfl
    simp [Pc.inside] at outside

/-- What the lock protects, as long as nobody sleeps. -/
structure Guarded (s : State) : Prop where
  sound : s.buffer.Sound
  locked : s.holder ≠ none → s.locked = true
  fine : ∀ proc, Fine s proc (s.pcs proc)

/-- Posts leave the lock alone. -/
theorem State.postRead_lock {s s' : State} (posted : s.postRead = some s') :
    s'.holder = s.holder ∧ s'.locked = s.locked := by
  simp only [postRead, Option.map_eq_some_iff] at posted
  obtain ⟨sem, -, rfl⟩ := posted
  simp only [wakeFirst]
  split
  · split <;> exact ⟨rfl, rfl⟩
  · exact ⟨rfl, rfl⟩

/-- Posts leave the lock alone. -/
theorem State.postWrite_lock {s s' : State} (posted : s.postWrite = some s') :
    s'.holder = s.holder ∧ s'.locked = s.locked := by
  simp only [postWrite, Option.map_eq_some_iff] at posted
  obtain ⟨sem, -, rfl⟩ := posted
  simp only [wakeFirst]
  split
  · split <;> exact ⟨rfl, rfl⟩
  · exact ⟨rfl, rfl⟩

namespace Guarded

variable {s s' : State}

/-- Nobody is woken. -/
theorem pcs_eq (guarded : Guarded s) (quiet : Quiet s s') (proc : Nat) :
    s'.pcs proc = s.pcs proc := by
  rcases quiet.pcs proc with same | woken
  · exact same
  · rw [woken, Pc.wake_eq (guarded.fine proc).awake]

/-- Nobody else is inside while a process holds the lock. -/
theorem alone (guarded : Guarded s) {proc other : Nat} (holds : s.holder = some proc)
    (different : other ≠ proc) : (s.pcs other).inside = false := by
  by_contra inside
  have also := (guarded.fine other).held (by simpa using inside)
  rw [holds] at also
  exact different (Option.some.inj also).symm

/-- Nobody is inside while the lock is free. -/
theorem nobody (guarded : Guarded s) (free : s.locked = false) (other : Nat) :
    (s.pcs other).inside = false := by
  by_contra inside
  have holds := (guarded.fine other).held (by simpa using inside)
  simp [guarded.locked (by simp [holds])] at free

/-- A process that holds the lock moves on inside, and may change the buffer: nobody else is
concerned. -/
theorem advance (guarded : Guarded s) (s' : State) {proc : Nat} {pc : Pc}
    (holds : s.holder = some proc) (same : s'.pcs = s.pcs) (holder : s'.holder = s.holder)
    (locked : s'.locked = s.locked) (sound : s'.buffer.Sound) (awake : pc.waits = false)
    (room : ∀ byte todo n, pc = .writeStore byte todo n →
      s'.buffer.stored.length < s'.buffer.loaded.length + pipesize)
    (more : ∀ got n, pc = .readLoad got n → s'.buffer.loaded.length < s'.buffer.stored.length) :
    Guarded (s'.goto proc pc) := by
  refine ⟨sound, fun _ => locked.trans (guarded.locked (by simp [holds])),
    State.forall_goto ⟨fun _ => holder.trans holds, awake, room, more⟩ fun other different => ?_⟩
  rw [same]
  exact .of_outside (guarded.alone holds different) (guarded.fine other).awake

/-- A process takes the lock. -/
theorem acquire (guarded : Guarded s) {proc : Nat} {pc : Pc} (free : s.locked = false)
    (awake : pc.waits = false) (early : pc.plain = true) :
    Guarded ({ s with locked := true, holder := some proc }.goto proc pc) := by
  refine ⟨guarded.sound, fun _ => rfl, State.forall_goto ⟨fun _ => rfl, awake, ?_, ?_⟩
    fun other _ => .of_outside (guarded.nobody free other) (guarded.fine other).awake⟩
  · rintro byte todo n rfl
    simp [Pc.plain] at early
  · rintro got n rfl
    simp [Pc.plain] at early

/-- The process that holds the lock releases it and returns. -/
theorem release (guarded : Guarded s) {proc : Nat} (holds : s.holder = some proc)
    (same : s'.pcs = s.pcs) (buffer : s'.buffer = s.buffer) :
    Guarded (s'.release proc .idle) := by
  refine ⟨buffer ▸ guarded.sound, by simp [State.release, State.goto],
    State.forall_goto (.of_outside rfl rfl) fun other different => ?_⟩
  rw [same]
  exact .of_outside (guarded.alone holds different) (guarded.fine other).awake

/-- A process inside posts and moves on. -/
theorem post (guarded : Guarded s) {proc : Nat} {pc : Pc} {posted : State}
    (holds : s.holder = some proc) (quiet : Quiet s posted)
    (lock : posted.holder = s.holder ∧ posted.locked = s.locked) (awake : pc.waits = false)
    (room : ∀ byte todo n, pc ≠ .writeStore byte todo n) (more : ∀ got n, pc ≠ .readLoad got n) :
    Guarded (posted.goto proc pc) :=
  guarded.advance posted holds (funext (guarded.pcs_eq quiet)) lock.1 lock.2
    (quiet.buffer ▸ guarded.sound) awake (fun byte todo n same => absurd same (room byte todo n))
    fun got n same => absurd same (more got n)

/-- A process inside moves on without a change. -/
theorem move (guarded : Guarded s) {proc : Nat} {pc : Pc} (holds : s.holder = some proc)
    (awake : pc.waits = false) (room : ∀ byte todo n, pc ≠ .writeStore byte todo n)
    (more : ∀ got n, pc ≠ .readLoad got n) : Guarded (s.goto proc pc) :=
  guarded.post holds (.refl s) ⟨rfl, rfl⟩ awake room more

/-- The next step of a process that need not sleep. -/
theorem run (guarded : Guarded s) {proc : Nat} (met : Unblocked s (.run proc))
    (taken : s.run proc = some s') : Guarded s' := by
  have holds := (guarded.fine proc).held
  have awake := (guarded.fine proc).awake
  simp only [State.run] at taken
  simp only [Unblocked] at met
  cases stands : s.pcs proc with
  | idle => simp [stands] at taken
  | writeAsleep todo n => simp [stands, Pc.waits] at awake
  | readAsleep n => simp [stands, Pc.waits] at awake
  | writePost todo n => simp [stands, Pc.waits] at awake
  | writeRelease todo n => simp [stands, Pc.waits] at awake
  | writeWait todo n => simp [stands, Pc.waits] at awake
  | readRelease n => simp [stands, Pc.waits] at awake
  | readWait n => simp [stands, Pc.waits] at awake
  | writeEnter bytes =>
    simp only [stands, State.acquire, Option.ite_none_left_eq_some] at taken
    obtain ⟨free, same⟩ := taken
    obtain rfl := Option.some.inj same
    exact guarded.acquire (by simpa using free) rfl rfl
  | readEnter n =>
    simp only [stands, State.acquire, Option.ite_none_left_eq_some] at taken
    obtain ⟨free, same⟩ := taken
    obtain rfl := Option.some.inj same
    exact guarded.acquire (by simpa using free) rfl rfl
  | closeEnter writable =>
    simp only [stands, State.acquire, Option.ite_none_left_eq_some] at taken
    obtain ⟨free, same⟩ := taken
    obtain rfl := Option.some.inj same
    exact guarded.acquire (by simpa using free) rfl rfl
  | writeTest todo n =>
    rw [stands] at holds met
    simp only [stands, State.testWrite, Option.some.injEq] at taken
    subst taken
    split
    · exact guarded.move (holds rfl) rfl (by simp) (by simp)
    · split
      · rename_i full
        have stops := met full
        rw [if_pos (by simpa using stops)]
        exact guarded.move (holds rfl) rfl (by simp) (by simp)
      · rename_i free
        have room := guarded.sound.room (by simpa using free)
        exact guarded.advance s (holds rfl) rfl rfl rfl guarded.sound rfl (fun _ _ _ _ => room) (by simp)
  | writeStore byte todo n =>
    rw [stands] at holds
    simp only [stands, Option.some.injEq] at taken
    subst taken
    exact guarded.advance { s with buffer := s.buffer.store byte } (holds rfl) rfl rfl rfl
      (guarded.sound.store ((guarded.fine proc).room byte todo n stands) byte) rfl (by simp) (by simp)
  | writeDone n =>
    rw [stands] at holds
    simp only [stands, Option.map_eq_some_iff] at taken
    obtain ⟨posted, post, rfl⟩ := taken
    exact guarded.post (holds rfl) (State.postRead_quiet post) (State.postRead_lock post) rfl (by simp)
      (by simp)
  | writeFail =>
    rw [stands] at holds
    simp only [stands, Option.some.injEq] at taken
    exact taken ▸ guarded.release (holds rfl) rfl rfl
  | writeLeave n =>
    rw [stands] at holds
    simp only [stands, Option.some.injEq] at taken
    exact taken ▸ guarded.release (holds rfl) rfl rfl
  | readTest n =>
    rw [stands] at holds met
    simp only [stands, State.testRead, Option.some.injEq] at taken
    subst taken
    split
    · rename_i empty
      simp only [Bool.and_eq_true] at empty
      rw [if_pos (met empty.1 empty.2)]
      exact guarded.move (holds rfl) rfl (by simp) (by simp)
    · exact guarded.move (holds rfl) rfl (by simp) (by simp)
  | readFail =>
    rw [stands] at holds
    simp only [stands, Option.some.injEq] at taken
    exact taken ▸ guarded.release (holds rfl) rfl rfl
  | readNext got n =>
    rw [stands] at holds
    simp only [stands, State.nextRead, Option.some.injEq] at taken
    subst taken
    split
    · split
      · exact guarded.move (holds rfl) rfl (by simp) (by simp)
      · rename_i filled
        have more := guarded.sound.more (by simpa using filled)
        exact guarded.advance s (holds rfl) rfl rfl rfl guarded.sound rfl (by simp) fun _ _ _ => more
    · exact guarded.move (holds rfl) rfl (by simp) (by simp)
  | readLoad got n =>
    rw [stands] at holds
    simp only [stands, Option.some.injEq] at taken
    subst taken
    exact guarded.advance { s with buffer := s.buffer.load } (holds rfl) rfl rfl rfl
      (guarded.sound.load ((guarded.fine proc).more got n stands)) rfl (by simp) (by simp)
  | readDone got n =>
    rw [stands] at holds
    simp only [stands, Option.map_eq_some_iff] at taken
    obtain ⟨posted, post, rfl⟩ := taken
    exact guarded.post (holds rfl) (State.postWrite_quiet post) (State.postWrite_lock post) rfl
      (by simp) (by simp)
  | readLeave got n =>
    rw [stands] at holds
    simp only [stands, Option.some.injEq] at taken
    exact taken ▸ guarded.release (holds rfl) rfl rfl
  | closeSet writable =>
    rw [stands] at holds
    simp only [stands, State.setClosed] at taken
    split at taken
    · simp only [Option.map_eq_some_iff] at taken
      obtain ⟨posted, post, rfl⟩ := taken
      have after := State.postRead_quiet post
      have closing : Quiet s posted :=
        ⟨⟨after.buffer, after.returned, fun opened => by simpa using after.writeopen opened⟩,
          after.pcs⟩
      have lock := State.postRead_lock post
      exact guarded.post (holds rfl) closing lock rfl (by simp) (by simp)
    · simp only [Option.map_eq_some_iff] at taken
      obtain ⟨posted, post, rfl⟩ := taken
      have after := State.postWrite_quiet post
      have closing : Quiet s posted :=
        ⟨⟨after.buffer, after.returned, after.writeopen⟩, after.pcs⟩
      have lock := State.postWrite_lock post
      exact guarded.post (holds rfl) closing lock rfl (by simp) (by simp)
  | closeLeave =>
    rw [stands] at holds
    simp only [stands, Option.some.injEq] at taken
    exact taken ▸ guarded.release (holds rfl) rfl rfl

/-- A call starts. -/
theorem call (guarded : Guarded s) {proc : Nat} {pc : Pc} (taken : s.call proc pc = some s')
    (outside : pc.inside = false) (awake : pc.waits = false) : Guarded s' := by
  simp only [State.call, Option.ite_none_right_eq_some] at taken
  obtain ⟨-, same⟩ := taken
  obtain rfl := Option.some.inj same
  refine ⟨guarded.sound, guarded.locked, State.forall_goto (.of_outside outside awake)
    fun other _ => ?_⟩
  exact ⟨(guarded.fine other).held, (guarded.fine other).awake, (guarded.fine other).room,
    (guarded.fine other).more⟩

/-- Every step after which nobody sleeps. -/
theorem step (guarded : Guarded s) {act : Act} (met : Unblocked s act)
    (taken : s.step act = some s') : Guarded s' := by
  simp only [State.step, Option.ite_none_left_eq_some] at taken
  replace taken := taken.2
  cases act with
  | write proc bytes => exact guarded.call taken rfl rfl
  | read proc n => exact guarded.call taken rfl rfl
  | close proc writable => exact guarded.call taken rfl rfl
  | kill proc =>
    obtain rfl := Option.some.inj taken
    refine ⟨guarded.sound, guarded.locked, fun other => ?_⟩
    exact ⟨(guarded.fine other).held, (guarded.fine other).awake, (guarded.fine other).room,
      (guarded.fine other).more⟩
  | run proc => exact guarded.run met taken

/-- A new pipe. -/
theorem start (data : Nat → UInt8) : Guarded (.init data) where
  sound := RingBuffer.Holds.start
  locked := by simp [State.init]
  fine _ := .of_outside rfl rfl

/-- The lock protects the buffer in every state reached without anybody sleeping. -/
theorem reach (reached : machine.Reach Unblocked s) : Guarded s := by
  refine reached.invariant (fun s initial => ?_) fun s act s' _ guarded met taken => ?_
  · obtain ⟨data, rfl⟩ := initial
    exact .start data
  · exact guarded.step met taken

/-- Accesses and releases happen under the lock. -/
theorem lockHeld (guarded : Guarded s) : LockHeld s :=
  fun proc uses => (guarded.fine proc).held (Pc.inside_of_uses uses)

end Guarded

end OsLab.Fs.PipeRun
