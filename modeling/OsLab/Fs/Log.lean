import OsLab.Lib.Transition
import OsLab.Common.Sem
import OsLab.Fs.Defines

/-!
# The log under concurrent operations

`cache_begin_op`, `cache_sync` and `cache_end_op` of `src/fs/cache.c`, as any number of
processes run them. A section between taking and dropping `loglock` is one step; every wait
and every post is a step of its own, also where the code posts with `loglock` held, so that
`loglock` stays taken between the parts of such a section. Every device write of a commit is
a step. What the blocks contain is left to the machine built over this one: here a
modification and a device write only enter the history.
-/
namespace OsLab.Fs.Log

open OsLab.Lib OsLab.Common

/-- Where a process is in `cache_begin_op` and `cache_end_op`. -/
inductive Pc where
  /-- Outside every operation. -/
  | idle
  /-- In `begin_op`, about to take `loglock` and test for room. -/
  | beginLock
  /-- In `begin_op`: the test failed and `loglock` is dropped; `wait_sem(&log.logsem)` is next. -/
  | beginWait
  /-- In `wait_sem(&log.logsem)`, asleep or woken. -/
  | beginSleep
  /-- Between `begin_op` and `end_op`. -/
  | inOp
  /-- In `end_op` with other operations open: `post_sem(&log.logsem)` is next. -/
  | endPost
  /-- In `end_op`: `loglock` is dropped; `wait_sem(&log.check)` is next. -/
  | endWait
  /-- In `wait_sem(&log.check)`, asleep or woken. -/
  | endSleep
  /-- Copying entry `index` to the log: the home block is acquired next. -/
  | copyFrom (index : Nat)
  /-- Copying: the log block is acquired next. -/
  | copyTo (index : Nat)
  /-- Copying: the data is copied and the log block written next. -/
  | copyWrite (index : Nat)
  /-- Copying: the home block is released next. -/
  | copyReleaseFrom (index : Nat)
  /-- Copying: the log block is released next. -/
  | copyReleaseTo (index : Nat)
  /-- Copying: `loglock` is taken next, for the loop test. -/
  | copyNext (index : Nat)
  /-- The first `write_header` is next. -/
  | writeHeader
  /-- `loglock` is taken next, for the installation of the blocks. -/
  | installLock
  /-- Installing entry `index`: its block is acquired next. -/
  | install (index : Nat)
  /-- Installing: the block is written next. -/
  | installWrite (index : Nat)
  /-- Installing: the block is unpinned and released next. -/
  | installRelease (index : Nat)
  /-- The second `write_header` is next. -/
  | clearHeader
  /-- `loglock` is taken next, to end the commit. -/
  | finish
  /-- `post_all_sem(&log.logsem)` is next. -/
  | postLogsem
  /-- `post_all_sem(&log.check)` is next. -/
  | postCheck
  deriving Repr, DecidableEq

/-- A process: its place and the `rm` of its `OpContext`. -/
structure Proc where
  pc : Pc
  /-- How many blocks of the header are charged to its operation. -/
  rm : Nat
  deriving Repr, DecidableEq

/-- `struct LOG`. -/
structure Control where
  /-- A commit is running. -/
  iscommit : Bool
  outstanding : Int
  /-- Where `begin_op` waits for room. -/
  logsem : Semaphore
  /-- Where `end_op` waits for the commit of its group. -/
  check : Semaphore
  deriving Repr, DecidableEq

/-- What an observer of the log sees happen. -/
inductive Event where
  /-- `begin_op` admitted an operation of `proc`. -/
  | began (proc : Nat)
  /-- `proc` gave a block it holds new contents. -/
  | stored (proc blockNo : Nat) (data : BlockData)
  /-- `cache_sync` with the context of the operation of `proc`. -/
  | synced (proc blockNo : Nat)
  /-- `cache_sync` without a context: the block is written home at once. -/
  | wroteThrough (proc blockNo : Nat)
  /-- `end_op` of an operation that leaves others open. -/
  | ended (proc : Nat)
  /-- `end_op` of the last open operation: its group is closed and the commit starts. -/
  | closed (proc : Nat)
  /-- A device write of the copy loop of the commit, at block `target`. -/
  | logCopied (target : Nat)
  /-- The header naming the blocks of the group is on the device. -/
  | headerWritten
  /-- A block of the group is written home. -/
  | installed (blockNo : Nat)
  /-- The header naming no block is on the device. -/
  | headerCleared
  /-- `end_op` returned to `proc`. -/
  | returned (proc : Nat)
  /-- `end_op` returned to `proc` because its wait was interrupted. -/
  | interrupted (proc : Nat)
  deriving DecidableEq

/-- The places where this code panics. -/
inductive PanicSite where
  /-- The wait of `begin_op` was interrupted. -/
  | beginInterrupted
  /-- `cache_sync` found no room for a new block. -/
  | syncFull
  /-- `end_op` found a commit running. -/
  | endCommitting
  /-- `_post_sem` found nobody asleep under a negative counter. -/
  | postEmpty
  deriving Repr, DecidableEq

/-- The log, the lock around it and the processes that use it. -/
structure State where
  /-- The header in memory. -/
  header : LogHeader
  /-- The flags and semaphores. -/
  log : Control
  /-- Who holds `loglock` across steps. -/
  loglock : Option Nat
  procs : Nat → Proc
  /-- Set once the kernel has panicked; nothing runs from then on. -/
  panic : Option PanicSite
  history : List Event

/-- What the scheduler and the clients choose: the next step of a process inside the log
code, a call of a client, or an alert of a sleeping process by `kill`. -/
inductive Act where
  | beginOp (proc : Nat)
  /-- `proc` gives a block new contents. -/
  | store (proc blockNo : Nat) (data : BlockData)
  /-- `proc` calls `cache_sync` with the context of its operation. -/
  | sync (proc blockNo : Nat)
  /-- `proc` calls `cache_sync` with a null context. -/
  | syncNull (proc blockNo : Nat)
  | endOp (proc : Nat)
  /-- `proc`, inside the log code, does its next step. -/
  | run (proc : Nat)
  /-- `proc`, asleep in the log code, is woken by another source. -/
  | alert (proc : Nat)

namespace State

/-- Where a process is. -/
def pc (s : State) (proc : Nat) : Pc := (s.procs proc).pc

/-- The blocks charged to the operation of a process. -/
def rm (s : State) (proc : Nat) : Nat := (s.procs proc).rm

/-- Replace one process. -/
def setProc (s : State) (proc : Nat) (new : Proc) : State :=
  { s with procs := fun other => if other = proc then new else s.procs other }

/-- Move one process. -/
def goto (s : State) (proc : Nat) (pc : Pc) : State := s.setProc proc ⟨pc, s.rm proc⟩

/-- Add an event to the history. -/
def note (s : State) (event : Event) : State := { s with history := event :: s.history }

/-- PANIC. -/
def halt (s : State) (site : PanicSite) : State := { s with panic := some site }

/-- The condition under which `begin_op` waits. -/
def mustWait (s : State) : Bool :=
  s.log.iscommit ||
    decide ((logMaxSize : Int) < s.header.numBlocks + (s.log.outstanding + 1) * opMaxNumBlocks)

/-- The test of `begin_op` and, where it passes, the admission. -/
def beginSection (s : State) (proc : Nat) : State :=
  if s.mustWait then s.goto proc .beginWait
  else ({ s with log := { s.log with outstanding := s.log.outstanding + 1 } }.goto proc .inOp).note
    (.began proc)

/-- `cache_sync` with a context, from taking to dropping `loglock`. -/
def syncSection (s : State) (proc blockNo : Nat) : State :=
  if blockNo ∈ s.header.named then s.note (.synced proc blockNo)
  else if opMaxNumBlocks ≤ s.rm proc ∨ logMaxSize ≤ s.header.numBlocks then s.halt .syncFull
  else ({ s with header := s.header.push blockNo }.setProc proc ⟨s.pc proc, s.rm proc + 1⟩).note
    (.synced proc blockNo)

/-- The place after the loop test of the copy loop. -/
def copyPc (header : LogHeader) (index : Nat) : Pc :=
  if index < header.numBlocks then .copyFrom index else .writeHeader

/-- The first section of `end_op`. The last operation goes on to the copy loop, whose first
test is in the same section. -/
def endSection (s : State) (proc : Nat) : State :=
  if s.log.iscommit then s.halt .endCommitting
  else if 0 < s.log.outstanding - 1 then
    ({ s with
        log := { s.log with outstanding := s.log.outstanding - 1 }
        loglock := some proc }.goto proc .endPost).note (.ended proc)
  else
    ({ s with log := { s.log with outstanding := s.log.outstanding - 1, iscommit := true } }.goto
      proc (copyPc s.header 0)).note (.closed proc)

/-- The loop test of the installation and, at its end, `header.num_blocks=0`. -/
def installNext (s : State) (proc index : Nat) : State :=
  if index < s.header.numBlocks then s.goto proc (.install index)
  else { s with header := s.header.reset, loglock := none }.goto proc .clearHeader

/-- The next step of a process inside the log code; `none` where it has to wait. -/
def advance (sblock : SuperBlock) (s : State) (proc : Nat) : Option State :=
  match s.pc proc with
  | .idle | .inOp => none
  | .beginLock => if s.loglock = none then some (s.beginSection proc) else none
  | .beginWait =>
    match s.log.logsem.waitSem proc with
    | (true, logsem) => some ({ s with log := { s.log with logsem } }.goto proc .beginLock)
    | (false, logsem) => some ({ s with log := { s.log with logsem } }.goto proc .beginSleep)
  | .beginSleep =>
    if proc ∈ s.log.logsem.sleeplist then none else some (s.goto proc .beginLock)
  | .endPost =>
    match s.log.logsem.postSem with
    | none => some (s.halt .postEmpty)
    | some logsem =>
      some ({ s with log := { s.log with logsem }, loglock := none }.goto proc .endWait)
  | .endWait =>
    match s.log.check.waitSem proc with
    | (true, check) =>
      some (({ s with log := { s.log with check } }.goto proc .idle).note (.returned proc))
    | (false, check) => some ({ s with log := { s.log with check } }.goto proc .endSleep)
  | .endSleep =>
    if proc ∈ s.log.check.sleeplist then none
    else some ((s.goto proc .idle).note (.returned proc))
  | .copyFrom index => some (s.goto proc (.copyTo index))
  | .copyTo index => some (s.goto proc (.copyWrite index))
  | .copyWrite index =>
    some ((s.goto proc (.copyReleaseFrom index)).note (.logCopied (sblock.logBlock index)))
  | .copyReleaseFrom index => some (s.goto proc (.copyReleaseTo index))
  | .copyReleaseTo index => some (s.goto proc (.copyNext index))
  | .copyNext index =>
    if s.loglock = none then some (s.goto proc (copyPc s.header (index + 1))) else none
  | .writeHeader => some ((s.goto proc .installLock).note .headerWritten)
  | .installLock =>
    if s.loglock = none then some ({ s with loglock := some proc }.installNext proc 0) else none
  | .install index => some (s.goto proc (.installWrite index))
  | .installWrite index =>
    some ((s.goto proc (.installRelease index)).note (.installed (s.header.entry index)))
  | .installRelease index => some (s.installNext proc (index + 1))
  | .clearHeader => some ((s.goto proc .finish).note .headerCleared)
  | .finish =>
    if s.loglock = none then
      some ({ s with log := { s.log with iscommit := false }, loglock := some proc }.goto proc
        .postLogsem)
    else none
  | .postLogsem =>
    match s.log.logsem.postAllSem with
    | none => some (s.halt .postEmpty)
    | some logsem => some ({ s with log := { s.log with logsem } }.goto proc .postCheck)
  | .postCheck =>
    match s.log.check.postAllSem with
    | none => some (s.halt .postEmpty)
    | some check =>
      some (({ s with log := { s.log with check }, loglock := none }.goto proc .idle).note
        (.returned proc))

/-- An alert of a sleeper. `begin_op` panics when its wait is interrupted, `end_op` returns. -/
def alerted (s : State) (proc : Nat) : Option State :=
  match s.pc proc with
  | .beginSleep =>
    if proc ∈ s.log.logsem.sleeplist then
      some ({ s with log := { s.log with logsem := s.log.logsem.unwait proc } }.halt
        .beginInterrupted)
    else none
  | .endSleep =>
    if proc ∈ s.log.check.sleeplist then
      some (({ s with log := { s.log with check := s.log.check.unwait proc } }.goto proc
        .idle).note (.interrupted proc))
    else none
  | _ => none

/-- A client of the cache runs between calls, in an operation or outside. -/
def InClient (s : State) (proc : Nat) : Prop := s.pc proc = .idle ∨ s.pc proc = .inOp

instance (s : State) (proc : Nat) : Decidable (s.InClient proc) :=
  inferInstanceAs (Decidable (_ ∨ _))

/-- One action. -/
def step (sblock : SuperBlock) (s : State) (act : Act) : Option State :=
  if s.panic.isSome then none
  else match act with
    | .beginOp proc =>
      if s.pc proc = .idle ∧ s.loglock = none then
        some ((s.setProc proc ⟨.beginLock, 0⟩).beginSection proc)
      else none
    | .store proc blockNo data =>
      if s.InClient proc then some (s.note (.stored proc blockNo data)) else none
    | .sync proc blockNo =>
      if s.pc proc = .inOp ∧ s.loglock = none then some (s.syncSection proc blockNo) else none
    | .syncNull proc blockNo =>
      if s.InClient proc then some (s.note (.wroteThrough proc blockNo)) else none
    | .endOp proc =>
      if s.pc proc = .inOp ∧ s.loglock = none then some (s.endSection proc) else none
    | .run proc => s.advance sblock proc
    | .alert proc => s.alerted proc

/-- The log after `init_bcache`, which keeps the array of the header it found on the disk,
with every process outside the code of the log. -/
def boot (found : LogHeader) : State :=
  { header := found.reset
    log := ⟨false, 0, .initSem 0, .initSem 0⟩
    loglock := none
    procs := fun _ => ⟨.idle, 0⟩
    panic := none
    history := [] }

end State

/-- The log as a machine, for a given layout of the disk. -/
def machine (sblock : SuperBlock) : Machine State Act where
  init s := ∃ found, s = .boot found
  step := State.step sblock

theorem init_boot (sblock : SuperBlock) (found : LogHeader) :
    (machine sblock).init (.boot found) := ⟨found, rfl⟩

end OsLab.Fs.Log
