import OsLab.Fs.PipeLock

/-!
# The console

`console_read`, `console_write` and `console_intr` of `src/kernel/console.c`. Each acquire and
release of `conslock`, each wait, each test for input, each character taken by a reader and each
character handled by the interrupt is one step. The lock of the console's inode, which the two
calls give up while they run, is left out.

Like the functions on pipes, `console_read` releases the lock to sleep and goes on without it.
-/
namespace OsLab.Kernel.Console

open OsLab.Lib OsLab.Common

/-- `INPUT_BUF`. -/
def inputBuf : Nat := 128

/-- The range of `usize`. -/
def usizeRange : Nat := 2 ^ 64

/-- `C('C')`. -/
def ctrlC : UInt8 := 3

/-- `C('D')`. -/
def ctrlD : UInt8 := 4

/-- `C('U')`. -/
def ctrlU : UInt8 := 21

/-- `'\n'`. -/
def newline : UInt8 := 10

/-- `'\r'`. -/
def carriageReturn : UInt8 := 13

/-- `'\x7f'`. -/
def delete : UInt8 := 127

/-- `input`. -/
structure Input where
  buf : Nat → UInt8
  r : Nat
  w : Nat
  e : Nat

namespace Input

/-- `input.e--`. -/
def back (input : Input) : Input := { input with e := (input.e + usizeRange - 1) % usizeRange }

/-- The loop of `C('U')`, which goes back to the start of the line. It meets the write index
after as many rounds as there are indices at the latest. -/
def eraseLine : Nat → Input → Input
  | 0, input => input
  | rounds + 1, input =>
    if input.e ≠ input.w ∧
        input.buf ((input.e + usizeRange - 1) % usizeRange % inputBuf) ≠ newline then
      eraseLine rounds input.back
    else input

/-- `console_intr` with an ordinary character; the flag tells whether a line is complete. -/
def put (input : Input) (char : UInt8) : Input × Bool :=
  if char ≠ 0 ∧ (input.e + usizeRange - input.r) % usizeRange < inputBuf then
    let char := if char = carriageReturn then newline else char
    let input := { input with
      buf := Function.update input.buf (input.e % inputBuf) char
      e := (input.e + 1) % usizeRange }
    if char = newline ∨ char = ctrlD ∨ input.e = (input.r + inputBuf) % usizeRange then
      ({ input with w := input.e }, true)
    else (input, false)
  else (input, false)

/-- One character of the loop of `console_intr`, apart from `C('C')`. -/
def type (input : Input) (char : UInt8) : Input × Bool :=
  if char = ctrlU then (input.eraseLine usizeRange, false)
  else if char = delete then (if input.e ≠ input.w then input.back else input, false)
  else input.put char

end Input

/-- Where a process stands. A reader has `left` of `total` characters to read and has got `got`;
an interrupt has `chars` still to handle. -/
inductive Pc where
  | idle
  /-- `console_read`, before the lock. -/
  | readEnter (n : Nat)
  /-- Before the tests of the loops. -/
  | readTest (left total : Nat) (got : List UInt8)
  /-- Before the release that returns -1. -/
  | readFail
  /-- Before the release in the loop. -/
  | readRelease (left total : Nat) (got : List UInt8)
  /-- Before `unalertable_wait_sem(&conssem)`. -/
  | readWait (left total : Nat) (got : List UInt8)
  /-- Asleep on `conssem`. -/
  | readAsleep (left total : Nat) (got : List UInt8)
  /-- Before a character is taken. -/
  | readTake (left total : Nat) (got : List UInt8)
  /-- Before the last release. -/
  | readLeave (got : List UInt8)
  /-- `console_write`, before the lock. -/
  | writeEnter
  /-- Before its release. -/
  | writeLeave
  /-- `console_intr`, before the lock. -/
  | intrEnter (chars : List UInt8)
  /-- Before the next character. -/
  | intrNext (chars : List UInt8)
  /-- Before its release. -/
  | intrLeave
  deriving Repr, DecidableEq

/-- The console and its users. -/
structure State where
  input : Input
  /-- `conslock.locked`. -/
  locked : Bool
  /-- The process that has acquired the lock since it was last released. -/
  holder : Option Nat
  conssem : Semaphore
  pcs : Nat → Pc
  /-- The `killed` flag of each process. -/
  killed : Nat → Bool
  /-- What the calls of `console_read` returned, in order. -/
  returned : List (List UInt8)

/-- What happens next. -/
inductive Act where
  | read (proc : Nat) (n : Nat)
  | write (proc : Nat)
  /-- A process is interrupted, and `uart_get_char` delivers these characters. -/
  | intr (proc : Nat) (chars : List UInt8)
  | kill (proc : Nat)
  | run (proc : Nat)

/-- Where a process goes on that a post has woken. -/
def Pc.wake : Pc → Pc
  | .readAsleep left total got => .readTest left total got
  | pc => pc

namespace State

/-- `console_init`. -/
def init : State :=
  ⟨⟨fun _ => 0, 0, 0, 0⟩, false, none, .initSem 0, fun _ => .idle, fun _ => false, []⟩

/-- Move a process. -/
def goto (s : State) (proc : Nat) (pc : Pc) : State :=
  { s with pcs := Function.update s.pcs proc pc }

/-- `_acquire_spinlock`, which waits while the lock is taken. -/
def acquire (s : State) (proc : Nat) (pc : Pc) : Option State :=
  if s.locked then none else some ({ s with locked := true, holder := some proc }.goto proc pc)

/-- `_release_spinlock`. -/
def release (s : State) (proc : Nat) (pc : Pc) : State :=
  { s with locked := false, holder := none }.goto proc pc

/-- `post_sem(&conssem)`. -/
def post (s : State) : Option State :=
  s.conssem.postInt.map fun sem =>
    if s.conssem.val + 1 ≤ 0 then
      match s.conssem.sleeplist.head? with
      | some sleeper => { s with conssem := sem }.goto sleeper (s.pcs sleeper).wake
      | none => { s with conssem := sem }
    else { s with conssem := sem }

/-- `unalertable_wait_sem(&conssem)`. A killed process panics here unless a post comes before it
looks again; it counts as asleep. -/
def wait (s : State) (proc left total : Nat) (got : List UInt8) : State :=
  match s.conssem.waitSem proc with
  | (true, sem) => { s with conssem := sem }.goto proc (.readTest left total got)
  | (false, sem) => { s with conssem := sem }.goto proc (.readAsleep left total got)

/-- The tests at the head of the loops of `console_read`. -/
def test (s : State) (proc left total : Nat) (got : List UInt8) : State :=
  if left = 0 then s.goto proc (.readLeave got)
  else if s.input.r = s.input.w then
    if s.killed proc then s.goto proc .readFail else s.goto proc (.readRelease left total got)
  else s.goto proc (.readTake left total got)

/-- The rest of the loop of `console_read`. -/
def take (s : State) (proc left total : Nat) (got : List UInt8) : State :=
  let char := s.input.buf (s.input.r % inputBuf)
  let after := { s with input := { s.input with r := (s.input.r + 1) % usizeRange } }
  if char = ctrlD then
    if left < total then s.goto proc (.readLeave got) else after.goto proc (.readLeave got)
  else if char = newline then after.goto proc (.readLeave (got ++ [char]))
  else after.goto proc (.readTest (left - 1) total (got ++ [char]))

/-- The loop of `console_intr`: it ends with the characters or with one that is negative as a
signed byte. -/
def intr (s : State) (proc : Nat) : List UInt8 → Option State
  | [] => some (s.goto proc .intrLeave)
  | char :: chars =>
    if 128 ≤ char then some (s.goto proc .intrLeave)
    else if char = ctrlC then
      some ({ s with killed := Function.update s.killed proc true }.goto proc (.intrNext chars))
    else
      match s.input.type char with
      | (input, true) => (State.post { s with input }).map fun s => s.goto proc (.intrNext chars)
      | (input, false) => some ({ s with input }.goto proc (.intrNext chars))

/-- The next step of a process. -/
def run (s : State) (proc : Nat) : Option State :=
  match s.pcs proc with
  | .idle | .readAsleep .. => none
  | .readEnter n => s.acquire proc (.readTest n n [])
  | .readTest left total got => some (s.test proc left total got)
  | .readFail => some (s.release proc .idle)
  | .readRelease left total got => some (s.release proc (.readWait left total got))
  | .readWait left total got => some (s.wait proc left total got)
  | .readTake left total got => some (s.take proc left total got)
  | .readLeave got => some ({ s with returned := s.returned ++ [got] }.release proc .idle)
  | .writeEnter => s.acquire proc .writeLeave
  | .writeLeave => some (s.release proc .idle)
  | .intrEnter chars => s.acquire proc (.intrNext chars)
  | .intrNext chars => s.intr proc chars
  | .intrLeave => some (s.release proc .idle)

/-- A process outside the functions enters one. -/
def call (s : State) (proc : Nat) (pc : Pc) : Option State :=
  if s.pcs proc = .idle then some (s.goto proc pc) else none

/-- One step. -/
def step (s : State) : Act → Option State
  | .read proc n => s.call proc (.readEnter n)
  | .write proc => s.call proc .writeEnter
  | .intr proc chars => s.call proc (.intrEnter chars)
  | .kill proc => some { s with killed := Function.update s.killed proc true }
  | .run proc => s.run proc

end State

/-- The console and its users, as a machine. -/
def machine : Machine State Act where
  init s := s = .init
  step := State.step

/-! ## The lock -/

namespace Pc

/-- The next step reads or writes `input`. -/
def accesses : Pc → Bool
  | .readTest .. | .readTake .. | .intrNext _ => true
  | _ => false

/-- The next step is `_release_spinlock`. -/
def releases : Pc → Bool
  | .readFail | .readRelease .. | .readLeave _ | .writeLeave | .intrLeave => true
  | _ => false

/-- Between `_acquire_spinlock` and `_release_spinlock`. -/
def inside (pc : Pc) : Bool := pc.accesses || pc.releases

/-- On the way to sleep. -/
def waits : Pc → Bool
  | .readRelease .. | .readWait .. | .readAsleep .. => true
  | _ => false

/-- Who is not on the way to sleep is not woken. -/
theorem wake_eq {pc : Pc} (awake : pc.waits = false) : pc.wake = pc := by
  cases pc <;> first | rfl | simp [waits] at awake

end Pc

/-- Whoever accesses the input or releases the lock holds the lock. -/
def LockHeld (s : State) : Prop :=
  ∀ proc, (s.pcs proc).accesses = true ∨ (s.pcs proc).releases = true → s.holder = some proc

/-- No test makes a process sleep: `console_read` finds input or the process killed. -/
def Unblocked (s : State) : Act → Prop
  | .run proc =>
    match s.pcs proc with
    | .readTest left _ _ => left ≠ 0 → s.input.r = s.input.w → s.killed proc = true
    | _ => True
  | _ => True

instance (s : State) (act : Act) : Decidable (Unblocked s act) := by
  unfold Unblocked
  split
  · split <;> infer_instance
  · infer_instance

/-- What is true of a process where it stands, as long as nobody sleeps. -/
structure Fine (s : State) (proc : Nat) (pc : Pc) : Prop where
  held : pc.inside = true → s.holder = some proc
  awake : pc.waits = false

/-- What the lock protects, as long as nobody sleeps. -/
structure Guarded (s : State) : Prop where
  locked : s.holder ≠ none → s.locked = true
  fine : ∀ proc, Fine s proc (s.pcs proc)

/-- What holds of every process where it stands, after one has moved. -/
theorem State.forall_goto {P : Nat → Pc → Prop} {s : State} {proc : Nat} {pc : Pc}
    (self : P proc pc) (others : ∀ other, other ≠ proc → P other (s.pcs other)) (other : Nat) :
    P other ((s.goto proc pc).pcs other) := by
  by_cases same : other = proc
  · subst same
    simpa only [goto, Function.update_self] using self
  · simpa only [goto, Function.update_of_ne same] using others other same

namespace Guarded

variable {s s' : State}

/-- Nobody else is inside while a process holds the lock. -/
theorem alone (guarded : Guarded s) {proc other : Nat} (holds : s.holder = some proc)
    (different : other ≠ proc) : (s.pcs other).inside = false := by
  by_contra inside
  have also := (guarded.fine other).held (by simpa using inside)
  rw [holds] at also
  exact different (Option.some.inj also).symm

/-- A process that holds the lock moves on inside. -/
theorem advance (guarded : Guarded s) (s' : State) {proc : Nat} {pc : Pc}
    (holds : s.holder = some proc) (same : s'.pcs = s.pcs) (holder : s'.holder = s.holder)
    (locked : s'.locked = s.locked) (awake : pc.waits = false) : Guarded (s'.goto proc pc) := by
  refine ⟨fun _ => locked.trans (guarded.locked (by simp [holds])),
    State.forall_goto ⟨fun _ => holder.trans holds, awake⟩ fun other different => ?_⟩
  rw [same]
  exact ⟨fun inside => absurd inside (by simp [guarded.alone holds different]),
    (guarded.fine other).awake⟩

/-- A process takes the lock. -/
theorem acquire (guarded : Guarded s) {proc : Nat} {pc : Pc}
    (taken : s.acquire proc pc = some s') (awake : pc.waits = false) : Guarded s' := by
  simp only [State.acquire, Option.ite_none_left_eq_some] at taken
  obtain ⟨free, same⟩ := taken
  obtain rfl := Option.some.inj same
  refine ⟨fun _ => rfl, State.forall_goto ⟨fun _ => rfl, awake⟩ fun other _ => ?_⟩
  refine ⟨fun inside => ?_, (guarded.fine other).awake⟩
  have holds := (guarded.fine other).held inside
  exact absurd (guarded.locked (by simp [holds])) free

/-- The process that holds the lock releases it and returns. -/
theorem release (guarded : Guarded s) {proc : Nat} (holds : s.holder = some proc)
    (same : s'.pcs = s.pcs) : Guarded (s'.release proc .idle) := by
  refine ⟨by simp [State.release, State.goto], State.forall_goto ⟨nofun, rfl⟩
    fun other different => ?_⟩
  rw [same]
  exact ⟨fun inside => absurd inside (by simp [guarded.alone holds different]),
    (guarded.fine other).awake⟩

/-- A call starts. -/
theorem call (guarded : Guarded s) {proc : Nat} {pc : Pc} (taken : s.call proc pc = some s')
    (outside : pc.inside = false) (awake : pc.waits = false) : Guarded s' := by
  simp only [State.call, Option.ite_none_right_eq_some] at taken
  obtain ⟨-, same⟩ := taken
  obtain rfl := Option.some.inj same
  refine ⟨guarded.locked, State.forall_goto
    ⟨fun inside => absurd inside (by simp [outside]), awake⟩ fun other _ => ?_⟩
  exact ⟨(guarded.fine other).held, (guarded.fine other).awake⟩

/-- A post wakes nobody and leaves the lock alone. -/
theorem post (guarded : Guarded s) (posted : s.post = some s') :
    s'.pcs = s.pcs ∧ s'.holder = s.holder ∧ s'.locked = s.locked := by
  simp only [State.post, Option.map_eq_some_iff] at posted
  obtain ⟨sem, -, rfl⟩ := posted
  split
  · split
    · refine ⟨?_, rfl, rfl⟩
      simp only [State.goto, Pc.wake_eq (guarded.fine _).awake, Function.update_eq_self]
    · exact ⟨rfl, rfl, rfl⟩
  · exact ⟨rfl, rfl, rfl⟩

/-- A character handled by the interrupt. -/
theorem intr (guarded : Guarded s) {proc : Nat} {chars : List UInt8}
    (holds : s.holder = some proc) (taken : s.intr proc chars = some s') : Guarded s' := by
  cases chars with
  | nil =>
    obtain rfl := Option.some.inj taken
    exact guarded.advance s holds rfl rfl rfl rfl
  | cons char chars =>
    simp only [State.intr] at taken
    split at taken
    · obtain rfl := Option.some.inj taken
      exact guarded.advance s holds rfl rfl rfl rfl
    · split at taken
      · obtain rfl := Option.some.inj taken
        exact guarded.advance _ holds rfl rfl rfl rfl
      · split at taken
        · rename_i input _
          simp only [Option.map_eq_some_iff] at taken
          obtain ⟨posted, post, rfl⟩ := taken
          have typed : Guarded { s with input := input } :=
            ⟨guarded.locked, fun other => ⟨(guarded.fine other).held, (guarded.fine other).awake⟩⟩
          obtain ⟨same, holder, locked⟩ := typed.post post
          exact guarded.advance posted holds same holder locked rfl
        · obtain rfl := Option.some.inj taken
          exact guarded.advance _ holds rfl rfl rfl rfl

/-- The next step of a process that need not sleep. -/
theorem run (guarded : Guarded s) {proc : Nat} (met : Unblocked s (.run proc))
    (taken : s.run proc = some s') : Guarded s' := by
  have holds := (guarded.fine proc).held
  have awake := (guarded.fine proc).awake
  simp only [State.run] at taken
  simp only [Unblocked] at met
  cases stands : s.pcs proc with
  | idle => simp [stands] at taken
  | readAsleep left total got => simp [stands, Pc.waits] at awake
  | readRelease left total got => simp [stands, Pc.waits] at awake
  | readWait left total got => simp [stands, Pc.waits] at awake
  | readEnter n => exact guarded.acquire (by simpa only [stands] using taken) rfl
  | writeEnter => exact guarded.acquire (by simpa only [stands] using taken) rfl
  | intrEnter chars => exact guarded.acquire (by simpa only [stands] using taken) rfl
  | readTest left total got =>
    rw [stands] at holds met
    simp only [stands, State.test, Option.some.injEq] at taken
    subst taken
    split
    · exact guarded.advance s (holds rfl) rfl rfl rfl rfl
    · rename_i unfinished
      split
      · rename_i drained
        rw [if_pos (met unfinished drained)]
        exact guarded.advance s (holds rfl) rfl rfl rfl rfl
      · exact guarded.advance s (holds rfl) rfl rfl rfl rfl
  | readTake left total got =>
    rw [stands] at holds
    simp only [stands, State.take, Option.some.injEq] at taken
    subst taken
    split
    · split
      · exact guarded.advance s (holds rfl) rfl rfl rfl rfl
      · exact guarded.advance _ (holds rfl) rfl rfl rfl rfl
    · split
      · exact guarded.advance _ (holds rfl) rfl rfl rfl rfl
      · exact guarded.advance _ (holds rfl) rfl rfl rfl rfl
  | readFail =>
    rw [stands] at holds
    simp only [stands, Option.some.injEq] at taken
    exact taken ▸ guarded.release (holds rfl) rfl
  | readLeave got =>
    rw [stands] at holds
    simp only [stands, Option.some.injEq] at taken
    exact taken ▸ guarded.release (holds rfl) rfl
  | writeLeave =>
    rw [stands] at holds
    simp only [stands, Option.some.injEq] at taken
    exact taken ▸ guarded.release (holds rfl) rfl
  | intrLeave =>
    rw [stands] at holds
    simp only [stands, Option.some.injEq] at taken
    exact taken ▸ guarded.release (holds rfl) rfl
  | intrNext chars =>
    rw [stands] at holds
    exact guarded.intr (holds rfl) (by simpa only [stands] using taken)

/-- Every step after which nobody sleeps. -/
theorem step (guarded : Guarded s) {act : Act} (met : Unblocked s act)
    (taken : s.step act = some s') : Guarded s' := by
  cases act with
  | read proc n => exact guarded.call taken rfl rfl
  | write proc => exact guarded.call taken rfl rfl
  | intr proc chars => exact guarded.call taken rfl rfl
  | kill proc =>
    obtain rfl := Option.some.inj taken
    exact ⟨guarded.locked, fun other => ⟨(guarded.fine other).held, (guarded.fine other).awake⟩⟩
  | run proc => exact guarded.run met taken

/-- The lock protects the input in every state reached without anybody sleeping. -/
theorem reach (reached : machine.Reach Unblocked s) : Guarded s := by
  refine reached.invariant (fun s initial => ?_) fun s act s' _ guarded met taken => ?_
  · rw [show s = .init from initial]
    exact ⟨by simp [State.init], fun _ => ⟨nofun, rfl⟩⟩
  · exact guarded.step met taken

/-- Accesses and releases happen under the lock. -/
theorem lockHeld (guarded : Guarded s) : LockHeld s :=
  fun proc uses => (guarded.fine proc).held (by simpa [Pc.inside] using uses)

end Guarded

/-- As long as no test makes a process sleep, whoever accesses the buffer of a pipe or the input
of the console, or releases their lock, holds that lock; the counters of the pipe are at most
`PIPESIZE` apart, and its buffer holds exactly the bytes stored and not loaded, in order, with
any number of readers and writers. -/
theorem blocking_calls_hold_lock {s : Fs.PipeRun.State} {t : State}
    (piped : Fs.PipeRun.machine.Reach Fs.PipeRun.Unblocked s)
    (typed : machine.Reach Unblocked t) :
    Fs.PipeRun.LockHeld s ∧
      (s.buffer.nwrite + Fs.PipeRun.counterRange - s.buffer.nread) % Fs.PipeRun.counterRange ≤
        Fs.PipeRun.pipesize ∧
      s.buffer.Sound ∧ LockHeld t := by
  have guarded := Fs.PipeRun.Guarded.reach piped
  exact ⟨guarded.lockHeld, guarded.sound.distance, guarded.sound, (Guarded.reach typed).lockHeld⟩

/-- Two writers and a reader on a pipe, and a reader of a line on the console. -/
theorem blocking_calls_hold_lock_unblocked :
    (∃ s, Fs.PipeRun.machine.Reach Fs.PipeRun.Unblocked s ∧
      (s.pcs 2, s.buffer.stored) = (.readNext [7] 3, [7, 8]) ∧ Fs.PipeRun.LockHeld s ∧
      s.buffer.Sound) ∧
    ∃ s, machine.Reach Unblocked s ∧ (s.pcs 1, s.input.w) = (.readTest 4 5 [104], 2) ∧
      LockHeld s := by
  have piped : (Fs.PipeRun.machine.exec Fs.PipeRun.Unblocked (.init fun _ => 0)
      (List.flatten [[.write 0 [7], .write 1 [8], .read 2 3], List.replicate 6 (.run 0),
        List.replicate 6 (.run 1), List.replicate 4 (.run 2)])).map
      (fun s => (s.pcs 2, s.buffer.stored)) = some (.readNext [7] 3, [7, 8]) := by
    decide +kernel
  have typed : (machine.exec Unblocked .init (List.flatten [[.intr 0 [104, 10]],
      List.replicate 5 (.run 0), [.read 1 5], List.replicate 3 (.run 1)])).map
      (fun s => (s.pcs 1, s.input.w)) =
      some (.readTest 4 5 [104], 2) := by
    decide +kernel
  have initial : Fs.PipeRun.machine.init (.init fun _ => 0) := ⟨_, rfl⟩
  obtain ⟨s, reached, observed⟩ := Machine.Reach.exec_map initial piped
  obtain ⟨s', reached', observed'⟩ := Machine.Reach.exec_map (by rfl) typed
  obtain ⟨held, -, sound, held'⟩ := blocking_calls_hold_lock reached reached'
  exact ⟨⟨s, reached, observed, held, sound⟩, s', reached', observed', held'⟩

/-- A reader of an empty pipe is woken by a write and is before an access although nobody holds the
lock; then a second reader comes, both load the one byte there is, and the read counter overtakes
the write counter. A reader of the console is before an access while the interrupt that woke it
holds the lock. -/
theorem lock_not_held_after_sleep :
    (∃ s, Fs.PipeRun.machine.Reach Machine.Any s ∧ ¬ Fs.PipeRun.LockHeld s) ∧
    (∃ s, Fs.PipeRun.machine.Reach Machine.Any s ∧
      ¬ (s.buffer.nwrite + Fs.PipeRun.counterRange - s.buffer.nread) % Fs.PipeRun.counterRange ≤
          Fs.PipeRun.pipesize) ∧
    ∃ s, machine.Reach Machine.Any s ∧ ¬ LockHeld s := by
  have woken : (Fs.PipeRun.machine.exec Machine.Any (.init fun _ => 0)
      (List.flatten [[.read 0 1], List.replicate 4 (.run 0), [.write 2 [7]],
        List.replicate 6 (.run 2)])).map (fun s => (s.pcs 0, s.holder)) =
      some (.readTest 1, none) := by
    decide +kernel
  have overtaken : (Fs.PipeRun.machine.exec Machine.Any (.init fun _ => 0)
      (List.flatten [[.read 0 1], List.replicate 4 (.run 0), [.write 2 [7]],
        List.replicate 6 (.run 2), [.read 1 1], List.replicate 3 (.run 1),
        [.run 0, .run 0, .run 0, .run 1]])).map (fun s => (s.buffer.nread, s.buffer.nwrite)) =
      some (2, 1) := by
    decide +kernel
  have typed : (machine.exec Machine.Any .init
      (List.flatten [[.read 0 1], List.replicate 4 (.run 0), [.intr 1 [10], .run 1, .run 1]])).map
      (fun s => (s.pcs 0, s.holder)) = some (.readTest 1 1 [], some 1) := by
    decide +kernel
  have initial : Fs.PipeRun.machine.init (.init fun _ => 0) := ⟨_, rfl⟩
  obtain ⟨s, reached, observed⟩ := Machine.Reach.exec_map initial woken
  obtain ⟨s', reached', observed'⟩ := Machine.Reach.exec_map initial overtaken
  obtain ⟨s'', reached'', observed''⟩ := Machine.Reach.exec_map (by rfl) typed
  refine ⟨⟨s, reached, ?_⟩, ⟨s', reached', ?_⟩, s'', reached'', ?_⟩
  · intro held
    obtain ⟨stands, nobody⟩ := Prod.mk.inj observed
    have holds := held 0 (by simp [stands, Fs.PipeRun.Pc.accesses])
    simp [nobody] at holds
  · obtain ⟨read, written⟩ := Prod.mk.inj observed'
    rw [read, written]
    decide
  · intro held
    obtain ⟨stands, other⟩ := Prod.mk.inj observed''
    have holds := held 0 (by simp [stands, Pc.accesses])
    simp [other] at holds

end OsLab.Kernel.Console
