import OsLab.Lib.RingBuffer
import OsLab.Lib.Transition
import OsLab.Common.Sem

/-!
# Pipes

`pipeRead`, `pipeWrite` and `pipeClose` of `src/fs/pipe.c`, called by any number of processes on
one pipe. Each acquire and release of `pi->lock`, each call on a semaphore, each test of the
full or empty condition and each transfer of one byte is one step.

`_release_spinlock` clears the lock whoever holds it. `pipeRead` and `pipeWrite` release the lock
to sleep and go on without it when they have been woken.
-/
namespace OsLab.Fs.PipeRun

open OsLab.Lib OsLab.Common

/-- `PIPESIZE`. -/
def pipesize : Nat := 512

/-- The range of the counters, which are 32 bits wide. -/
def counterRange : Nat := 2 ^ 32

/-- The size of the buffer and the width of the counters suit each other. -/
theorem sized : RingBuffer.Sized pipesize counterRange := ⟨⟨2 ^ 23, rfl⟩, by decide⟩

/-- Where a process stands. The bytes it has still to write are `todo`, those it has read are
`got`; `n` is the count it was called with. -/
inductive Pc where
  | idle
  /-- `pipeWrite`, before the lock. -/
  | writeEnter (bytes : List UInt8)
  /-- Before the test of the loops. -/
  | writeTest (todo : List UInt8) (n : Nat)
  /-- Before the release that returns -1. -/
  | writeFail
  /-- Before `post_sem(&pi->rlock)` in the loop. -/
  | writePost (todo : List UInt8) (n : Nat)
  /-- Before the release in the loop. -/
  | writeRelease (todo : List UInt8) (n : Nat)
  /-- Before `unalertable_wait_sem(&pi->wlock)`. -/
  | writeWait (todo : List UInt8) (n : Nat)
  /-- Asleep on `pi->wlock`. -/
  | writeAsleep (todo : List UInt8) (n : Nat)
  /-- Before the transfer of a byte. -/
  | writeStore (byte : UInt8) (todo : List UInt8) (n : Nat)
  /-- Before `post_sem(&pi->rlock)` at the end. -/
  | writeDone (n : Nat)
  /-- Before the last release. -/
  | writeLeave (n : Nat)
  /-- `pipeRead`, before the lock. -/
  | readEnter (n : Nat)
  /-- Before the test of the first loop. -/
  | readTest (n : Nat)
  /-- Before the release that returns -1. -/
  | readFail
  /-- Before the release in the first loop. -/
  | readRelease (n : Nat)
  /-- Before `unalertable_wait_sem(&pi->rlock)`. -/
  | readWait (n : Nat)
  /-- Asleep on `pi->rlock`. -/
  | readAsleep (n : Nat)
  /-- Before the test of the second loop. -/
  | readNext (got : List UInt8) (n : Nat)
  /-- Before the transfer of a byte. -/
  | readLoad (got : List UInt8) (n : Nat)
  /-- Before `post_sem(&pi->wlock)`. -/
  | readDone (got : List UInt8) (n : Nat)
  /-- Before the last release. -/
  | readLeave (got : List UInt8) (n : Nat)
  /-- `pipeClose`, before the lock. -/
  | closeEnter (writable : Bool)
  /-- Before the end is marked closed. -/
  | closeSet (writable : Bool)
  /-- Before the release. -/
  | closeLeave
  deriving Repr, DecidableEq

/-- The buffer of the pipe, together with the bytes that went in and came out of it. -/
structure Buffer where
  data : Nat → UInt8
  nread : Nat
  nwrite : Nat
  /-- The bytes stored, in order. -/
  stored : List UInt8
  /-- The bytes loaded, in order. -/
  loaded : List UInt8

namespace Buffer

/-- `pi->nwrite==pi->nread+PIPESIZE`. -/
def full (buffer : Buffer) : Bool := buffer.nwrite = (buffer.nread + pipesize) % counterRange

/-- `pi->nread==pi->nwrite`. -/
def empty (buffer : Buffer) : Bool := buffer.nread = buffer.nwrite

/-- `pi->data[pi->nwrite++ % PIPESIZE] = byte`. -/
def store (buffer : Buffer) (byte : UInt8) : Buffer :=
  { buffer with
    data := Function.update buffer.data (buffer.nwrite % pipesize) byte
    nwrite := (buffer.nwrite + 1) % counterRange
    stored := buffer.stored ++ [byte] }

/-- The byte at `pi->data[pi->nread % PIPESIZE]`. -/
def next (buffer : Buffer) : UInt8 := buffer.data (buffer.nread % pipesize)

/-- Load a byte with `pi->nread++`. -/
def load (buffer : Buffer) : Buffer :=
  { buffer with
    nread := (buffer.nread + 1) % counterRange
    loaded := buffer.loaded ++ [buffer.next] }

/-- The buffer as a ring. -/
def ring (buffer : Buffer) : RingBuffer UInt8 := ⟨buffer.data, buffer.nread, buffer.nwrite⟩

/-- The ring holds the bytes stored and not loaded. -/
def Sound (buffer : Buffer) : Prop :=
  buffer.ring.Holds pipesize counterRange buffer.loaded buffer.stored

end Buffer

/-- A pipe and its users. -/
structure State where
  /-- `data`, `nread` and `nwrite`. -/
  buffer : Buffer
  /-- `lock.locked`. -/
  locked : Bool
  /-- The process that has acquired the lock since it was last released. -/
  holder : Option Nat
  readopen : Bool
  writeopen : Bool
  rlock : Semaphore
  wlock : Semaphore
  pcs : Nat → Pc
  /-- The `killed` flag of each process. -/
  killed : Nat → Bool
  /-- The memory of the pipe was given back. -/
  freed : Bool
  /-- What the calls of `pipeRead` returned, with the count they were called with, in order. -/
  returned : List (Nat × List UInt8)

/-- What happens next. -/
inductive Act where
  | write (proc : Nat) (bytes : List UInt8)
  | read (proc : Nat) (n : Nat)
  | close (proc : Nat) (writable : Bool)
  | kill (proc : Nat)
  | run (proc : Nat)

/-- Where a process goes on that a post has woken. -/
def Pc.wake : Pc → Pc
  | .writeAsleep todo n => .writeTest todo n
  | .readAsleep n => .readTest n
  | pc => pc

namespace State

/-- `pipeAlloc`; the contents of the buffer are whatever was there. -/
def init (data : Nat → UInt8) : State :=
  ⟨⟨data, 0, 0, [], []⟩, false, none, true, true, .initSem 0, .initSem 0, fun _ => .idle,
    fun _ => false, false, []⟩

/-- Move a process. -/
def goto (s : State) (proc : Nat) (pc : Pc) : State :=
  { s with pcs := Function.update s.pcs proc pc }

/-- `_acquire_spinlock`, which waits while the lock is taken. -/
def acquire (s : State) (proc : Nat) (pc : Pc) : Option State :=
  if s.locked then none else some ({ s with locked := true, holder := some proc }.goto proc pc)

/-- `_release_spinlock`. -/
def release (s : State) (proc : Nat) (pc : Pc) : State :=
  { s with locked := false, holder := none }.goto proc pc

/-- The sleeper that a post on the semaphore wakes goes on. -/
def wakeFirst (s : State) (sem : Semaphore) : State :=
  if sem.val + 1 ≤ 0 then
    match sem.sleeplist.head? with
    | some sleeper => s.goto sleeper (s.pcs sleeper).wake
    | none => s
  else s

/-- `post_sem(&pi->rlock)`. -/
def postRead (s : State) : Option State :=
  s.rlock.postInt.map fun sem => { s with rlock := sem }.wakeFirst s.rlock

/-- `post_sem(&pi->wlock)`. -/
def postWrite (s : State) : Option State :=
  s.wlock.postInt.map fun sem => { s with wlock := sem }.wakeFirst s.wlock

/-- `unalertable_wait_sem(&pi->rlock)`. A killed process panics here unless a post comes before
it looks again; it counts as asleep. -/
def waitRead (s : State) (proc n : Nat) : State :=
  match s.rlock.waitSem proc with
  | (true, sem) => { s with rlock := sem }.goto proc (.readTest n)
  | (false, sem) => { s with rlock := sem }.goto proc (.readAsleep n)

/-- `unalertable_wait_sem(&pi->wlock)`, likewise. -/
def waitWrite (s : State) (proc : Nat) (todo : List UInt8) (n : Nat) : State :=
  match s.wlock.waitSem proc with
  | (true, sem) => { s with wlock := sem }.goto proc (.writeTest todo n)
  | (false, sem) => { s with wlock := sem }.goto proc (.writeAsleep todo n)

/-- The tests at the head of the loops of `pipeWrite`. -/
def testWrite (s : State) (proc : Nat) (todo : List UInt8) (n : Nat) : State :=
  match todo with
  | [] => s.goto proc (.writeDone n)
  | byte :: rest =>
    if s.buffer.full then
      if !s.readopen || s.killed proc then s.goto proc .writeFail
      else s.goto proc (.writePost todo n)
    else s.goto proc (.writeStore byte rest n)

/-- The tests at the head of the first loop of `pipeRead`. -/
def testRead (s : State) (proc n : Nat) : State :=
  if s.buffer.empty && s.writeopen then
    if s.killed proc then s.goto proc .readFail else s.goto proc (.readRelease n)
  else s.goto proc (.readNext [] n)

/-- The tests of the second loop of `pipeRead`. -/
def nextRead (s : State) (proc : Nat) (got : List UInt8) (n : Nat) : State :=
  if got.length < n then
    if s.buffer.empty then s.goto proc (.readDone got n) else s.goto proc (.readLoad got n)
  else s.goto proc (.readDone got n)

/-- `pipeClose` under the lock, up to its release. -/
def setClosed (s : State) (proc : Nat) (writable : Bool) : Option State :=
  if writable then
    (State.postRead { s with writeopen := false }).map fun s => s.goto proc .closeLeave
  else (State.postWrite { s with readopen := false }).map fun s => s.goto proc .closeLeave

/-- The next step of a process. -/
def run (s : State) (proc : Nat) : Option State :=
  match s.pcs proc with
  | .idle | .writeAsleep .. | .readAsleep _ => none
  | .writeEnter bytes => s.acquire proc (.writeTest bytes bytes.length)
  | .writeTest todo n => some (s.testWrite proc todo n)
  | .writeFail => some (s.release proc .idle)
  | .writePost todo n => s.postRead.map fun s => s.goto proc (.writeRelease todo n)
  | .writeRelease todo n => some (s.release proc (.writeWait todo n))
  | .writeWait todo n => some (s.waitWrite proc todo n)
  | .writeStore byte todo n =>
    some ({ s with buffer := s.buffer.store byte }.goto proc (.writeTest todo n))
  | .writeDone n => s.postRead.map fun s => s.goto proc (.writeLeave n)
  | .writeLeave _ => some (s.release proc .idle)
  | .readEnter n => s.acquire proc (.readTest n)
  | .readTest n => some (s.testRead proc n)
  | .readFail => some (s.release proc .idle)
  | .readRelease n => some (s.release proc (.readWait n))
  | .readWait n => some (s.waitRead proc n)
  | .readNext got n => some (s.nextRead proc got n)
  | .readLoad got n =>
    some ({ s with buffer := s.buffer.load }.goto proc (.readNext (got ++ [s.buffer.next]) n))
  | .readDone got n => s.postWrite.map fun s => s.goto proc (.readLeave got n)
  | .readLeave got n => some ({ s with returned := s.returned ++ [(n, got)] }.release proc .idle)
  | .closeEnter writable => s.acquire proc (.closeSet writable)
  | .closeSet writable => s.setClosed proc writable
  | .closeLeave => some ({ s with freed := !s.readopen && !s.writeopen }.release proc .idle)

/-- A process outside the functions calls one. -/
def call (s : State) (proc : Nat) (pc : Pc) : Option State :=
  if s.pcs proc = .idle then some (s.goto proc pc) else none

/-- One step. Once its memory is given back there is no pipe any more. -/
def step (s : State) (act : Act) : Option State :=
  if s.freed then none
  else match act with
    | .write proc bytes => s.call proc (.writeEnter bytes)
    | .read proc n => s.call proc (.readEnter n)
    | .close proc writable => s.call proc (.closeEnter writable)
    | .kill proc => some { s with killed := Function.update s.killed proc true }
    | .run proc => s.run proc

end State

/-- A pipe and its users, as a machine. -/
def machine : Machine State Act where
  init s := ∃ data, s = .init data
  step := State.step

/-- What holds of every process where it stands, after one has moved. -/
theorem State.forall_goto {P : Nat → Pc → Prop} {s : State} {proc : Nat} {pc : Pc}
    (self : P proc pc) (others : ∀ other, other ≠ proc → P other (s.pcs other)) (other : Nat) :
    P other ((s.goto proc pc).pcs other) := by
  by_cases same : other = proc
  · subst same
    simpa only [goto, Function.update_self] using self
  · simpa only [goto, Function.update_of_ne same] using others other same

/-! ## The buffer -/

namespace Buffer

variable {buffer : Buffer}

/-- The test of `pipeWrite`. -/
theorem Sound.full_iff (sound : buffer.Sound) :
    buffer.full = true ↔ buffer.stored.length = buffer.loaded.length + pipesize := by
  rw [← RingBuffer.Holds.full_iff sound sized]
  simp [full, ring]

/-- The test of `pipeRead`. -/
theorem Sound.empty_iff (sound : buffer.Sound) :
    buffer.empty = true ↔ buffer.loaded.length = buffer.stored.length := by
  rw [← RingBuffer.Holds.empty_iff sound sized]
  simp [empty, ring]

/-- A buffer that is not full has room. -/
theorem Sound.room (sound : buffer.Sound) (free : buffer.full = false) :
    buffer.stored.length < buffer.loaded.length + pipesize := by
  have bounded := sound.bounded
  have different : buffer.stored.length ≠ buffer.loaded.length + pipesize := by
    intro same
    simp [sound.full_iff.mpr same] at free
  omega

/-- A buffer that is not empty has a byte. -/
theorem Sound.more (sound : buffer.Sound) (filled : buffer.empty = false) :
    buffer.loaded.length < buffer.stored.length := by
  have ordered := sound.order.length_le
  have different : buffer.loaded.length ≠ buffer.stored.length := by
    intro same
    simp [sound.empty_iff.mpr same] at filled
  omega

/-- Storing a byte where there is room. -/
theorem Sound.store (sound : buffer.Sound)
    (room : buffer.stored.length < buffer.loaded.length + pipesize) (byte : UInt8) :
    (buffer.store byte).Sound :=
  RingBuffer.Holds.push sound sized room byte

/-- Loading a byte where there is one. -/
theorem Sound.load (sound : buffer.Sound)
    (more : buffer.loaded.length < buffer.stored.length) : buffer.load.Sound :=
  RingBuffer.Holds.pop sound sized more

end Buffer

/-! ## Posts and waits -/

/-- A state whose buffer and results are the same, where ends may have been closed. -/
structure SameData (s s' : State) : Prop where
  buffer : s'.buffer = s.buffer
  returned : s'.returned = s.returned
  writeopen : s'.writeopen = true → s.writeopen = true

/-- In addition, sleepers may have been woken. -/
structure Quiet (s s' : State) : Prop extends SameData s s' where
  pcs : ∀ proc, s'.pcs proc = s.pcs proc ∨ s'.pcs proc = (s.pcs proc).wake

/-- Nothing happened. -/
theorem Quiet.refl (s : State) : Quiet s s := ⟨⟨rfl, rfl, id⟩, fun _ => .inl rfl⟩

/-- Waking the first sleeper. -/
theorem State.wakeFirst_quiet (s : State) (sem : Semaphore) : Quiet s (s.wakeFirst sem) := by
  simp only [wakeFirst]
  split
  · split
    · rename_i sleeper _
      refine ⟨⟨rfl, rfl, id⟩, fun proc => ?_⟩
      by_cases same : proc = sleeper
      · subst same
        exact .inr (by simp [goto])
      · exact .inl (by simp [goto, Function.update_of_ne same])
    · exact .refl s
  · exact .refl s

/-- A post to the readers. -/
theorem State.postRead_quiet {s s' : State} (posted : s.postRead = some s') : Quiet s s' := by
  simp only [postRead, Option.map_eq_some_iff] at posted
  obtain ⟨sem, -, rfl⟩ := posted
  have woken := State.wakeFirst_quiet { s with rlock := sem } s.rlock
  exact ⟨⟨woken.buffer, woken.returned, woken.writeopen⟩, woken.pcs⟩

/-- A post to the writers. -/
theorem State.postWrite_quiet {s s' : State} (posted : s.postWrite = some s') : Quiet s s' := by
  simp only [postWrite, Option.map_eq_some_iff] at posted
  obtain ⟨sem, -, rfl⟩ := posted
  have woken := State.wakeFirst_quiet { s with wlock := sem } s.wlock
  exact ⟨⟨woken.buffer, woken.returned, woken.writeopen⟩, woken.pcs⟩

/-! ## One writer and one reader -/

/-- Only one process writes and only one process reads. -/
def OnePair (writer reader : Nat) (_ : State) : Act → Prop
  | .write proc _ => proc = writer
  | .read proc _ => proc = reader
  | _ => True

instance (writer reader : Nat) (s : State) (act : Act) : Decidable (OnePair writer reader s act) :=
  match act with
  | .write proc _ => inferInstanceAs (Decidable (proc = writer))
  | .read proc _ => inferInstanceAs (Decidable (proc = reader))
  | .close _ _ | .kill _ | .run _ => isTrue trivial

namespace Pc

/-- In `pipeWrite`. -/
def writes : Pc → Bool
  | .writeEnter _ | .writeTest .. | .writeFail | .writePost .. | .writeRelease .. | .writeWait ..
  | .writeAsleep .. | .writeStore .. | .writeDone _ | .writeLeave _ => true
  | _ => false

/-- In `pipeRead`. -/
def reads : Pc → Bool
  | .readEnter _ | .readTest _ | .readFail | .readRelease _ | .readWait _ | .readAsleep _
  | .readNext .. | .readLoad .. | .readDone .. | .readLeave .. => true
  | _ => false

/-- The bytes loaded and not returned. -/
def got : Pc → List UInt8
  | .readNext got _ | .readLoad got _ | .readDone got _ | .readLeave got _ => got
  | _ => []

/-- Not in a place where something is known about the buffer or about bytes loaded. -/
def plain : Pc → Bool
  | .writeStore .. | .readNext .. | .readLoad .. | .readDone .. | .readLeave .. => false
  | _ => true

/-- Bytes are loaded in the second loop of `pipeRead` only. -/
theorem got_of_plain {pc : Pc} (plain : pc.plain = true) : pc.got = [] := by
  cases pc <;> first | rfl | simp [Pc.plain] at plain

end Pc

/-- The bytes that the calls of `pipeRead` returned, in order. -/
def returnedBytes (returned : List (Nat × List UInt8)) : List UInt8 :=
  (returned.map Prod.snd).flatten

/-- What a process knows where it stands. -/
structure Good (writer reader : Nat) (s : State) (proc : Nat) (pc : Pc) : Prop where
  isWriter : pc.writes = true → proc = writer
  isReader : pc.reads = true → proc = reader
  room : ∀ byte todo n, pc = .writeStore byte todo n →
    s.buffer.stored.length < s.buffer.loaded.length + pipesize
  more : ∀ got n, pc = .readLoad got n → s.buffer.loaded.length < s.buffer.stored.length
  /-- The first loop of `pipeRead` ends with a byte or with the write end closed. -/
  first : ∀ n, pc = .readNext [] n → s.writeopen = true →
    s.buffer.loaded.length < s.buffer.stored.length
  /-- Nothing is returned only with the write end closed. -/
  last : ∀ n, pc = .readDone [] n ∨ pc = .readLeave [] n → 0 < n → s.writeopen = false
  listed : proc = reader → s.buffer.loaded = returnedBytes s.returned ++ pc.got

namespace Good

variable {writer reader proc : Nat} {s s' : State} {pc : Pc}

/-- What a process knows survives where the data is the same. -/
theorem sameData (good : Good writer reader s proc pc) (quiet : SameData s s') :
    Good writer reader s' proc pc := by
  refine ⟨good.isWriter, good.isReader, ?_, ?_, ?_, ?_, ?_⟩
  · rw [quiet.buffer]
    exact good.room
  · rw [quiet.buffer]
    exact good.more
  · rw [quiet.buffer]
    exact fun n next opened => good.first n next (quiet.writeopen opened)
  · intro n leaving positive
    have closed := good.last n leaving positive
    by_contra opened
    rw [quiet.writeopen (by simpa using opened)] at closed
    simp at closed
  · rw [quiet.buffer, quiet.returned]
    exact good.listed

/-- A process that is woken knows what it knew. -/
theorem wake (good : Good writer reader s proc pc) : Good writer reader s proc pc.wake := by
  cases pc with
  | writeAsleep todo n =>
    exact ⟨good.isWriter, by simp [Pc.wake, Pc.reads], by simp [Pc.wake], by simp [Pc.wake],
      by simp [Pc.wake], by simp [Pc.wake], good.listed⟩
  | readAsleep n =>
    exact ⟨by simp [Pc.wake, Pc.writes], good.isReader, by simp [Pc.wake], by simp [Pc.wake],
      by simp [Pc.wake], by simp [Pc.wake], good.listed⟩
  | _ => exact good

/-- In a plain place there is little to know. -/
theorem of_plain (plain : pc.plain = true) (isWriter : pc.writes = true → proc = writer)
    (isReader : pc.reads = true → proc = reader)
    (listed : proc = reader → s.buffer.loaded = returnedBytes s.returned) :
    Good writer reader s proc pc := by
  refine ⟨isWriter, isReader, ?_, ?_, ?_, ?_, ?_⟩
  · rintro byte todo n rfl
    simp [Pc.plain] at plain
  · rintro got n rfl
    simp [Pc.plain] at plain
  · rintro n rfl
    simp [Pc.plain] at plain
  · rintro n (rfl | rfl) <;> simp [Pc.plain] at plain
  · simpa [Pc.got_of_plain plain] using listed

/-- From one plain place to another in the same function or out of it. -/
theorem step_plain (good : Good writer reader s proc pc) {pc' : Pc} (plain : pc'.plain = true)
    (writes : pc'.writes = true → pc.writes = true) (reads : pc'.reads = true → pc.reads = true)
    (returns : pc.got = []) : Good writer reader s proc pc' :=
  of_plain plain (fun now => good.isWriter (writes now)) (fun now => good.isReader (reads now))
    (by simpa [returns] using good.listed)

end Good

/-- A pipe with one writer and one reader is a stream. -/
structure OneStream (writer reader : Nat) (s : State) : Prop where
  sound : s.buffer.Sound
  good : ∀ proc, Good writer reader s proc (s.pcs proc)
  /-- Reads that returned nothing saw the write end closed. -/
  nothing : ∀ n, (n, []) ∈ s.returned → 0 < n → s.writeopen = false

namespace OneStream

variable {writer reader : Nat} {s s' : State}

/-- A process moves after a quiet change. -/
theorem move (stream : OneStream writer reader s) (quiet : Quiet s s') {proc : Nat} {pc : Pc}
    (good : Good writer reader s' proc pc) : OneStream writer reader (s'.goto proc pc) := by
  have same : SameData s' (s'.goto proc pc) := ⟨rfl, rfl, id⟩
  refine ⟨quiet.buffer ▸ stream.sound, ?_, fun n inside positive => ?_⟩
  · refine State.forall_goto (good.sameData same) fun other _ => ?_
    have before := (stream.good other).sameData quiet.toSameData
    rcases quiet.pcs other with kept | woken
    · exact kept ▸ before.sameData same
    · exact woken ▸ before.wake.sameData same
  · have closed := stream.nothing n (quiet.returned ▸ inside) positive
    by_contra opened
    rw [quiet.writeopen (by simpa [State.goto] using opened)] at closed
    simp at closed

/-- Another process is not in the same function. -/
theorem frame_store (stream : OneStream writer reader s) {proc other : Nat} {byte : UInt8}
    (different : other ≠ proc) (isWriter : proc = writer) :
    Good writer reader { s with buffer := s.buffer.store byte } other (s.pcs other) := by
  have before := stream.good other
  refine ⟨before.isWriter, before.isReader, ?_, ?_, ?_, before.last, before.listed⟩
  · intro byte' todo n storing
    exact absurd (before.isWriter (by rw [storing]; rfl)) (isWriter ▸ different)
  · intro got n loading
    have more := before.more got n loading
    simp only [Buffer.store, List.length_append, List.length_singleton]
    omega
  · intro n next opened
    have more := before.first n next opened
    simp only [Buffer.store, List.length_append, List.length_singleton]
    omega

/-- Another process is not in the same function. -/
theorem frame_load (stream : OneStream writer reader s) {proc other : Nat}
    (different : other ≠ proc) (isReader : proc = reader) :
    Good writer reader { s with buffer := s.buffer.load } other (s.pcs other) := by
  have before := stream.good other
  have outside : (s.pcs other).reads = false := by
    by_contra inside
    exact different ((before.isReader (by simpa using inside)).trans isReader.symm)
  refine ⟨before.isWriter, before.isReader, ?_, ?_, ?_, ?_, ?_⟩
  · intro byte todo n storing
    have room := before.room byte todo n storing
    simp only [Buffer.load, List.length_append, List.length_singleton]
    omega
  · intro got n loading
    simp [loading, Pc.reads] at outside
  · intro n next
    simp [next, Pc.reads] at outside
  · rintro n (leaving | leaving) <;> simp [leaving, Pc.reads] at outside
  · intro same
    exact absurd (same.trans isReader.symm) different

/-- A process moves to a plain place after a quiet change. -/
theorem move_plain (stream : OneStream writer reader s) (quiet : Quiet s s') {proc : Nat}
    {pc pc' : Pc} (stands : s.pcs proc = pc) (plain : pc'.plain = true)
    (writes : pc'.writes = true → pc.writes = true) (reads : pc'.reads = true → pc.reads = true)
    (returns : pc.got = []) : OneStream writer reader (s'.goto proc pc') := by
  have here := stream.good proc
  rw [stands] at here
  exact stream.move quiet ((here.sameData quiet.toSameData).step_plain plain writes reads returns)

/-- The next step of a process keeps the stream. -/
theorem run (stream : OneStream writer reader s) {proc : Nat} (taken : s.run proc = some s') :
    OneStream writer reader s' := by
  have here := stream.good proc
  have silent : ∀ {locked holder}, Quiet s { s with locked := locked, holder := holder } :=
    ⟨⟨rfl, rfl, id⟩, fun _ => .inl rfl⟩
  simp only [State.run] at taken
  cases stands : s.pcs proc with
  | idle => simp [stands] at taken
  | writeAsleep todo n => simp [stands] at taken
  | readAsleep n => simp [stands] at taken
  | writeEnter bytes =>
    simp only [stands, State.acquire, Option.ite_none_left_eq_some] at taken
    obtain ⟨-, same⟩ := taken
    obtain rfl := Option.some.inj same
    exact stream.move_plain silent stands rfl (fun _ => rfl) nofun rfl
  | writeTest todo n =>
    simp only [stands, State.testWrite, Option.some.injEq] at taken
    subst taken
    split
    · exact stream.move_plain (.refl s) stands rfl (fun _ => rfl) nofun rfl
    · split
      · split
        · exact stream.move_plain (.refl s) stands rfl (fun _ => rfl) nofun rfl
        · exact stream.move_plain (.refl s) stands rfl (fun _ => rfl) nofun rfl
      · rename_i byte rest free
        rw [stands] at here
        have room := stream.sound.room (by simpa using free)
        exact stream.move (.refl s) ⟨fun _ => here.isWriter rfl, nofun, fun _ _ _ _ => room, nofun,
          nofun, nofun, here.listed⟩
  | writeFail =>
    simp only [stands, Option.some.injEq] at taken
    subst taken
    exact stream.move_plain silent stands rfl nofun nofun rfl
  | writePost todo n =>
    simp only [stands, Option.map_eq_some_iff] at taken
    obtain ⟨posted, post, rfl⟩ := taken
    exact stream.move_plain (State.postRead_quiet post) stands rfl (fun _ => rfl) nofun rfl
  | writeRelease todo n =>
    simp only [stands, Option.some.injEq] at taken
    subst taken
    exact stream.move_plain silent stands rfl (fun _ => rfl) nofun rfl
  | writeWait todo n =>
    simp only [stands, State.waitWrite, Option.some.injEq] at taken
    have waiting : ∀ sem, Quiet s { s with wlock := sem } := fun _ =>
      ⟨⟨rfl, rfl, id⟩, fun _ => .inl rfl⟩
    split at taken <;> subst taken <;>
      exact stream.move_plain (waiting _) stands rfl (fun _ => rfl) nofun rfl
  | writeStore byte todo n =>
    simp only [stands, Option.some.injEq] at taken
    subst taken
    rw [stands] at here
    have isWriter := here.isWriter rfl
    refine ⟨stream.sound.store (here.room byte todo n rfl) byte,
      State.forall_goto ?_ fun other different => ?_, stream.nothing⟩
    · exact .of_plain rfl (fun _ => isWriter) nofun
        (by simpa [Pc.got, Buffer.store, State.goto] using here.listed)
    · exact (stream.frame_store different isWriter).sameData ⟨rfl, rfl, id⟩
  | writeDone n =>
    simp only [stands, Option.map_eq_some_iff] at taken
    obtain ⟨posted, post, rfl⟩ := taken
    exact stream.move_plain (State.postRead_quiet post) stands rfl (fun _ => rfl) nofun rfl
  | writeLeave n =>
    simp only [stands, Option.some.injEq] at taken
    subst taken
    exact stream.move_plain silent stands rfl nofun nofun rfl
  | readEnter n =>
    simp only [stands, State.acquire, Option.ite_none_left_eq_some] at taken
    obtain ⟨-, same⟩ := taken
    obtain rfl := Option.some.inj same
    exact stream.move_plain silent stands rfl nofun (fun _ => rfl) rfl
  | readTest n =>
    simp only [stands, State.testRead, Option.some.injEq] at taken
    subst taken
    split
    · split
      · exact stream.move_plain (.refl s) stands rfl nofun (fun _ => rfl) rfl
      · exact stream.move_plain (.refl s) stands rfl nofun (fun _ => rfl) rfl
    · rename_i ready
      rw [stands] at here
      refine stream.move (.refl s) ⟨nofun, fun _ => here.isReader rfl, nofun, nofun,
        fun m _ opened => ?_, nofun, here.listed⟩
      exact stream.sound.more (by simpa [opened] using ready)
  | readFail =>
    simp only [stands, Option.some.injEq] at taken
    subst taken
    exact stream.move_plain silent stands rfl nofun nofun rfl
  | readRelease n =>
    simp only [stands, Option.some.injEq] at taken
    subst taken
    exact stream.move_plain silent stands rfl nofun (fun _ => rfl) rfl
  | readWait n =>
    simp only [stands, State.waitRead, Option.some.injEq] at taken
    have waiting : ∀ sem, Quiet s { s with rlock := sem } := fun _ =>
      ⟨⟨rfl, rfl, id⟩, fun _ => .inl rfl⟩
    split at taken <;> subst taken <;>
      exact stream.move_plain (waiting _) stands rfl nofun (fun _ => rfl) rfl
  | readNext got n =>
    simp only [stands, State.nextRead, Option.some.injEq] at taken
    subst taken
    rw [stands] at here
    have isReader := here.isReader rfl
    split
    · rename_i unfinished
      split
      · rename_i drained
        refine stream.move (.refl s) ⟨nofun, fun _ => isReader, nofun, nofun, nofun, ?_,
          here.listed⟩
        -- The loop ends at once: had the write end been open, there would have been a byte.
        rintro m (first | first) positive
        · obtain ⟨rfl, rfl⟩ := Pc.readDone.inj first
          by_contra opened
          have more := here.first n rfl (by simpa using opened)
          have same := stream.sound.empty_iff.mp drained
          omega
        · simp at first
      · rename_i filled
        have more := stream.sound.more (by simpa using filled)
        exact stream.move (.refl s) ⟨nofun, fun _ => isReader, nofun, fun _ _ _ => more, nofun,
          nofun, here.listed⟩
    · rename_i finished
      refine stream.move (.refl s) ⟨nofun, fun _ => isReader, nofun, nofun, nofun, ?_,
        here.listed⟩
      rintro m (first | first) positive
      · obtain ⟨rfl, rfl⟩ := Pc.readDone.inj first
        simp at finished
        omega
      · simp at first
  | readLoad got n =>
    simp only [stands, Option.some.injEq] at taken
    subst taken
    rw [stands] at here
    have isReader := here.isReader rfl
    refine ⟨stream.sound.load (here.more got n rfl),
      State.forall_goto ?_ fun other different => ?_, stream.nothing⟩
    · refine ⟨nofun, fun _ => isReader, nofun, nofun, by simp, nofun, fun same => ?_⟩
      have listed := here.listed same
      simp only [Pc.got] at listed
      simp only [State.goto, Buffer.load, Pc.got, listed, List.append_assoc]
    · exact (stream.frame_load different isReader).sameData ⟨rfl, rfl, id⟩
  | readDone got n =>
    simp only [stands, Option.map_eq_some_iff] at taken
    obtain ⟨posted, post, rfl⟩ := taken
    rw [stands] at here
    have quiet := State.postWrite_quiet post
    have after := here.sameData quiet.toSameData
    refine stream.move quiet ⟨nofun, fun _ => here.isReader rfl, nofun, nofun, nofun, ?_,
      after.listed⟩
    rintro m (first | first) positive
    · simp at first
    · obtain ⟨rfl, rfl⟩ := Pc.readLeave.inj first
      exact after.last n (.inl rfl) positive
  | readLeave got n =>
    simp only [stands, Option.some.injEq] at taken
    subst taken
    rw [stands] at here
    have isReader := here.isReader rfl
    refine ⟨stream.sound, State.forall_goto ?_ fun other different => ?_,
      fun m inside positive => ?_⟩
    · refine .of_plain rfl nofun nofun fun same => ?_
      have listed := here.listed same
      simpa [returnedBytes, Pc.got, State.goto, State.release] using listed
    · have before := stream.good other
      exact ⟨before.isWriter, before.isReader, before.room, before.more, before.first,
        before.last, fun same => absurd (same.trans isReader.symm) different⟩
    · rcases List.mem_append.mp inside with old | new
      · exact stream.nothing m old positive
      · obtain ⟨rfl, rfl⟩ := Prod.mk.inj (List.mem_singleton.mp new)
        exact here.last m (.inr rfl) positive
  | closeEnter writable =>
    simp only [stands, State.acquire, Option.ite_none_left_eq_some] at taken
    obtain ⟨-, same⟩ := taken
    obtain rfl := Option.some.inj same
    exact stream.move_plain silent stands rfl nofun nofun rfl
  | closeSet writable =>
    simp only [stands, State.setClosed] at taken
    split at taken
    · simp only [Option.map_eq_some_iff] at taken
      obtain ⟨posted, post, rfl⟩ := taken
      have after := State.postRead_quiet post
      have closing : Quiet s posted :=
        ⟨⟨after.buffer, after.returned, fun opened => by simpa using after.writeopen opened⟩,
          after.pcs⟩
      exact stream.move_plain closing stands rfl nofun nofun rfl
    · simp only [Option.map_eq_some_iff] at taken
      obtain ⟨posted, post, rfl⟩ := taken
      have after := State.postWrite_quiet post
      have closing : Quiet s posted :=
        ⟨⟨after.buffer, after.returned, after.writeopen⟩, after.pcs⟩
      exact stream.move_plain closing stands rfl nofun nofun rfl
  | closeLeave =>
    simp only [stands, Option.some.injEq] at taken
    subst taken
    have freeing : Quiet s { s with
        freed := !s.readopen && !s.writeopen, locked := false, holder := none } :=
      ⟨⟨rfl, rfl, id⟩, fun _ => .inl rfl⟩
    exact stream.move_plain freeing stands rfl nofun nofun rfl

/-- A call starts. -/
theorem call (stream : OneStream writer reader s) {proc : Nat} {pc : Pc}
    (taken : s.call proc pc = some s') (plain : pc.plain = true)
    (isWriter : pc.writes = true → proc = writer) (isReader : pc.reads = true → proc = reader) :
    OneStream writer reader s' := by
  simp only [State.call, Option.ite_none_right_eq_some] at taken
  obtain ⟨idle, same⟩ := taken
  obtain rfl := Option.some.inj same
  have here := stream.good proc
  rw [idle] at here
  exact stream.move (.refl s) (.of_plain plain isWriter isReader
    (by simpa [Pc.got] using here.listed))

/-- Every step of the pair and of whoever closes an end keeps the stream. -/
theorem step (stream : OneStream writer reader s) {act : Act} (met : OnePair writer reader s act)
    (taken : s.step act = some s') : OneStream writer reader s' := by
  simp only [State.step, Option.ite_none_left_eq_some] at taken
  replace taken := taken.2
  cases act with
  | write proc bytes => exact stream.call taken rfl (fun _ => met) nofun
  | read proc n => exact stream.call taken rfl nofun (fun _ => met)
  | close proc writable => exact stream.call taken rfl nofun nofun
  | kill proc =>
    obtain rfl := Option.some.inj taken
    exact ⟨stream.sound, fun other => (stream.good other).sameData ⟨rfl, rfl, id⟩, stream.nothing⟩
  | run proc => exact stream.run taken

/-- A new pipe. -/
theorem start (data : Nat → UInt8) : OneStream writer reader (.init data) where
  sound := RingBuffer.Holds.start
  good _ := .of_plain rfl nofun nofun fun _ => rfl
  nothing := by simp [State.init]

end OneStream

/-- A buffer that holds what was stored and not loaded has counters at a distance of at most
`PIPESIZE`, modulo their range. -/
theorem Buffer.Sound.distance {buffer : Buffer} (sound : buffer.Sound) :
    (buffer.nwrite + counterRange - buffer.nread) % counterRange ≤ pipesize := by
  have first : buffer.nread = buffer.loaded.length % counterRange := sound.first
  have last : buffer.nwrite = buffer.stored.length % counterRange := sound.last
  have ordered := sound.order.length_le
  have bounded := sound.bounded
  simp only [counterRange, pipesize] at *
  omega

/-- A pipe with one writer and one reader is a stream of bytes: what the reads have loaded and
what they have returned are prefixes of what the writes have stored, the counters are at most
`PIPESIZE` apart, also after they have wrapped around, and a read of a positive count returns
nothing only after the write end was closed. -/
theorem pipe_is_byte_stream (writer reader : Nat) {s : State}
    (reached : machine.Reach (OnePair writer reader) s) :
    returnedBytes s.returned <+: s.buffer.stored ∧ s.buffer.loaded <+: s.buffer.stored ∧
      (s.buffer.nwrite + counterRange - s.buffer.nread) % counterRange ≤ pipesize ∧
      ∀ n, (n, []) ∈ s.returned → 0 < n → s.writeopen = false := by
  have stream : OneStream writer reader s := by
    refine reached.invariant (fun s initial => ?_) fun s act s' _ stream met taken => ?_
    · obtain ⟨data, rfl⟩ := initial
      exact .start data
    · exact stream.step met taken
  have listed := (stream.good reader).listed rfl
  have loaded : s.buffer.loaded <+: s.buffer.stored := stream.sound.order
  refine ⟨?_, loaded, stream.sound.distance, stream.nothing⟩
  rw [listed] at loaded
  exact (List.prefix_append _ _).trans loaded

/-- Process 0 writes two bytes and process 1 reads one. -/
theorem pipe_is_byte_stream_oneOfTwo :
    ∃ s, machine.Reach (OnePair 0 1) s ∧
      (s.returned, s.buffer.stored) = ([(1, [7])], [7, 8]) ∧
      returnedBytes s.returned <+: s.buffer.stored ∧
      (s.buffer.nwrite + counterRange - s.buffer.nread) % counterRange ≤ pipesize := by
  have shown : (machine.exec (OnePair 0 1) (.init fun _ => 0)
      (List.flatten [[.write 0 [7, 8]], List.replicate 8 (.run 0), [.read 1 1],
        List.replicate 7 (.run 1)])).map (fun s => (s.returned, s.buffer.stored)) =
      some ([(1, [7])], [7, 8]) := by
    decide +kernel
  have initial : machine.init (.init fun _ => 0) := ⟨_, rfl⟩
  obtain ⟨s, reached, observed⟩ := Machine.Reach.exec_map initial shown
  obtain ⟨streamed, -, near, -⟩ := pipe_is_byte_stream 0 1 reached
  exact ⟨s, reached, observed, streamed, near⟩

end OsLab.Fs.PipeRun
