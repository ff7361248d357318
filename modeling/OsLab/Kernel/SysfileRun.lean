import OsLab.Lib.Transition
import OsLab.Fs.InodeRun
import OsLab.Kernel.Sysfile
import Mathlib.Data.Finset.Basic

/-!
# System calls one at a time

The requests of the file-system calls answered for one process at a time, and the machine whose
steps are whole calls of any process. A call that panics or waits for ever is no step. What the
allocators, pipes and the console answer, and what the stack holds, is chosen with the call.
-/
namespace OsLab.Kernel.Sysfile

open OsLab.Lib OsLab.Fs

/-- Files, processes and what is below them. -/
structure State where
  fs : FsState
  /-- `ftable.filelist`. -/
  files : Nat → File
  /-- `ftable.lock` is taken. -/
  ftableLock : Bool
  pipes : Nat → Pipe
  /-- The pipe that `kalloc` returns next. -/
  nextPipe : Nat
  /-- `oftable->openfile` of the processes. -/
  openfiles : Nat → Nat → Option Nat
  /-- `cwd` of the processes. -/
  cwds : Nat → Option Nat
  /-- The processes that have not exited. -/
  live : Finset Nat
  /-- The process that `create_proc` returns next. -/
  nextProc : Nat
  /-- Whether the requests for memory to come succeed; they do where nothing is said. -/
  memory : List Bool
  /-- What `pipeRead` and `pipeWrite` transfer and return. -/
  transfers : List (List UInt8 × Int)

namespace State

/-- Another file in a descriptor. -/
def setSlot (s : State) (proc fd : Nat) (file : Option Nat) : State :=
  { s with
    openfiles := Function.update s.openfiles proc (Function.update (s.openfiles proc) fd file) }

/-- Other fields of a file. -/
def setFile (s : State) (file : Nat) (fields : File) : State :=
  { s with files := Function.update s.files file fields }

/-- A process without files. -/
def born (s : State) : State :=
  { s with
    openfiles := Function.update s.openfiles s.nextProc fun _ => none
    cwds := Function.update s.cwds s.nextProc none
    live := insert s.nextProc s.live
    nextProc := s.nextProc + 1 }

/-- Whether the next request for memory succeeds. -/
def granted (s : State) : Bool := s.memory.headD true

/-- The next request for memory was answered. -/
def answered (s : State) : State := { s with memory := s.memory.tail }

/-- The answers to the requests. -/
def serve : Prog.Handler SysOp SysOp.Out State
  | .inode op, s => (FsState.serve op s.fs).map fun result => (result.1, { s with fs := result.2 })
  | .beginOp, s => some ((), s)
  | .endOp, s => some ((), s)
  | .lockFtable, s => if s.ftableLock then none else some ((), { s with ftableLock := true })
  | .unlockFtable, s => some ((), { s with ftableLock := false })
  | .loadFile file, s => if file < nfile then some (s.files file, s) else none
  | .setFile file fields, s => if file < nfile then some ((), s.setFile file fields) else none
  | .kallocPipe, s =>
    if s.granted then some (some s.nextPipe, { s.answered with nextPipe := s.nextPipe + 1 })
    else some (none, s.answered)
  | .loadPipe pipe, s => some (s.pipes pipe, s)
  | .setPipe pipe fields, s => some ((), { s with pipes := Function.update s.pipes pipe fields })
  | .kfreePipe _, s => some ((), s)
  | .pipeRead _ _, s =>
    match s.transfers with
    | [] => none
    | answer :: rest => some (answer, { s with transfers := rest })
  | .pipeWrite _ _, s =>
    match s.transfers with
    | [] => none
    | answer :: rest => some (answer.2, { s with transfers := rest })
  | .openfile proc fd, s => if fd < nofile then some (s.openfiles proc fd, s) else none
  | .setOpenfile proc fd file, s => if fd < nofile then some ((), s.setSlot proc fd file) else none
  | .strayOpenfile _ _, _ => none
  | .cwd proc, s => some (s.cwds proc, s)
  | .setCwd proc inode, s =>
    some ((), { s with cwds := Function.update s.cwds proc (some inode) })
  | .createProc, s =>
    if s.granted then some (some s.nextProc, s.answered.born) else some (none, s.answered)
  | .vmCopy, s => some (s.granted, s.answered)
  | .retire proc, s => some ((), { s with live := s.live.erase proc })

end State

/-- The system calls. -/
inductive Call where
  | openat (cwdOnly : Bool) (path : List UInt8) (omode : Mode)
  | dup (fd : Int)
  | close (fd : Int)
  | read (fd size : Int) (writeable : Bool)
  | write (fd : Int) (buffer : List UInt8)
  | writev (fd : Int) (iov : List (List UInt8))
  | pipe2 (flags : Int)
  | mkdirat (cwdOnly : Bool) (path : List UInt8) (mode : Int)
  | mknodat (cwdOnly : Bool) (path : List UInt8) (major minor : UInt16)
  | unlinkat (cwdOnly : Bool) (path : List UInt8) (flag : Int)
  | fstat (fd : Int) (writeable : Bool)
  | newfstatat (cwdOnly : Bool) (path : List UInt8) (writeable : Bool) (flags : Int)
  | chdir (path : List UInt8)
  | execve (path : List UInt8)
  /-- `clone`, which calls `fork`. -/
  | fork
  | exit

/-- The code of a call. -/
def Call.program (sblock : SuperBlock) (stack : Stack) (this : Nat) : Call → SysProg Int
  | .openat cwdOnly path omode => Sysfile.openat sblock stack this cwdOnly path omode
  | .dup fd => Sysfile.dup this fd
  | .close fd => Sysfile.close sblock this fd
  | .read fd size writeable => Sysfile.read sblock this fd size writeable
  | .write fd buffer => Sysfile.write sblock this fd buffer
  | .writev fd iov => Sysfile.writev sblock this fd iov
  | .pipe2 flags => do
    match ← Sysfile.pipe2 sblock this flags with
    | none => return -1
    | some _ => return 0
  | .mkdirat cwdOnly path mode => Sysfile.mkdirat sblock stack this cwdOnly path mode
  | .mknodat cwdOnly path major minor => Sysfile.mknodat sblock stack this cwdOnly path major minor
  | .unlinkat cwdOnly path flag => Sysfile.unlinkat sblock stack this cwdOnly path flag
  | .fstat fd writeable => Sysfile.fstat this fd writeable
  | .newfstatat cwdOnly path writeable flags =>
    Sysfile.newfstatat sblock stack this cwdOnly path writeable flags
  | .chdir path => Sysfile.chdir sblock stack this path
  | .execve path => Sysfile.execve sblock stack this path
  | .fork => do
    match ← Sysfile.fork this with
    | none => return -1
    | some np => return np
  | .exit => do
    Sysfile.exit sblock this
    return 0

/-- A stack of zeros. -/
def zeroStack : Stack := ⟨[], [], List.replicate dirEntryBytes 0⟩

/-- A call by a process, and what its surroundings will answer. -/
structure Act where
  this : Nat
  call : Call
  /-- What the stack holds. -/
  stack : Stack := zeroStack
  /-- What requests for memory are answered. -/
  memory : List Bool := []
  /-- What pipes transfer. -/
  transfers : List (List UInt8 × Int) := []
  /-- What the console has for `console_read`. -/
  console : List (List UInt8 × Int) := []

/-- The state in which a call is made. -/
def State.surrounded (s : State) (act : Act) : State :=
  { s with
    memory := act.memory
    transfers := act.transfers
    fs := { s.fs with console := act.console } }

/-- A call of a process, from its start to its end. -/
def State.step (sblock : SuperBlock) (s : State) (act : Act) : Option State :=
  if act.this ∈ s.live then
    ((act.call.program sblock act.stack act.this).run serve (s.surrounded act)).map Prod.snd
  else none

/-- The kernel before it starts the first process, with an image on disk. -/
def State.blank (blocks : Nat → BlockData) : State where
  fs := ⟨⟨blocks, fun _ => false, false⟩, fun _ => none, [], false, 0, []⟩
  files _ := ⟨.none, 0, false, false, 0, 0, 0⟩
  ftableLock := false
  pipes _ := ⟨false, false⟩
  nextPipe := 0
  openfiles _ _ := none
  cwds _ := none
  live := ∅
  nextProc := 0
  memory := []
  transfers := []

/-- `root_proc`, `init_inodes`, and what `kernel_entry` of `src/kernel/core.c` does for the first
process. It returns `inodes.root`. -/
def boot (sblock : SuperBlock) (stack : Stack) : SysProg Nat := do
  let _ ← SysProg.createProc
  match ← SysProg.lift (inodeGet sblock rootInodeNo) with
  | none => SysProg.panic
  | some root =>
    match ← SysProg.createProc with
    | none => SysProg.panic
    | some p =>
      SysProg.beginOp
      match ← SysProg.lift (namei sblock stack 0 [47] .op) with
      | none => SysProg.panic
      | some dir =>
        SysProg.endOp
        SysProg.setCwd p dir
        return root

/-- The kernel has started from an image, and `inodes.root` is `root`. -/
def Booted (sblock : SuperBlock) (root : Nat) (s : State) : Prop :=
  ∃ blocks stack, (boot sblock stack).run State.serve (State.blank blocks) = some (root, s)

/-- System calls one at a time, from some states. -/
def machine (sblock : SuperBlock) (init : State → Prop) : Machine State Act where
  init := init
  step := State.step sblock

/-- What a run of calls after the start shows of its last state is true of a state reached. -/
theorem Booted.reach {sblock : SuperBlock} {stack : Stack} {blocks : Nat → BlockData} {root : Nat}
    {acts : List Act} {guard : State → Act → Prop} [∀ s act, Decidable (guard s act)] {β : Type}
    {f : State → β} {shown : β}
    (done : (((boot sblock stack).run State.serve (.blank blocks)).bind fun started =>
      ((machine sblock (Booted sblock root)).exec guard started.2 acts).map fun s =>
        (started.1, f s)) = some (root, shown)) :
    ∃ s, (machine sblock (Booted sblock root)).Reach guard s ∧ f s = shown := by
  obtain ⟨⟨first, s₀⟩, started, rest⟩ := Option.bind_eq_some_iff.mp done
  obtain ⟨s, performed, same⟩ := Option.map_eq_some_iff.mp rest
  obtain ⟨rfl, observed⟩ := Prod.mk.inj same
  have booted : Booted sblock first s₀ := ⟨blocks, stack, started⟩
  exact ⟨s, Machine.Reach.exec (.start booted) performed, observed⟩

/-- A small disk. -/
def smallDisk : SuperBlock where
  numBlocks := 32
  numDataBlocks := 25
  numInodes := 16
  numLogBlocks := 2
  logStart := 2
  inodeStart := 4
  bitmapStart := 6

/-- An image with nothing but the root directory. -/
def smallImage (blockNo : Nat) : BlockData :=
  if blockNo = 4 then setEntryAt .zero 1
    { InodeEntry.zero.setAddr 0 7 with type := inodeDirectory, numLinks := 1, numBytes := 32 }
  else if blockNo = 6 then Bytes.set .zero 0 255
  else if blockNo = 7 then Bytes.blit .zero 0 32 fun byte =>
    (DirEntry.pack 1 (DirEntry.strncpy [46]) ++
      DirEntry.pack 1 (DirEntry.strncpy [46, 46])).getD byte 0
  else .zero

end OsLab.Kernel.Sysfile
