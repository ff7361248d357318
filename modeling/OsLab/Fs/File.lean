import OsLab.Fs.Directory

/-!
# Open files

`src/fs/file.c` and the parts of `src/fs/pipe.c` that open and close pipes. Files are spoken of by
their places in `ftable.filelist`, processes by numbers that are never used twice. What a pipe
transfers is left to whoever answers `pipeRead` and `pipeWrite`.
-/
namespace OsLab.Fs

open OsLab.Lib

/-- `NFILE`. -/
def nfile : Nat := 65536

/-- `NOFILE`. -/
def nofile : Nat := 16

/-- The type of a file. -/
inductive FileType where
  | none
  | pipe
  | inode
  deriving Repr, DecidableEq

/-- `File`. -/
structure File where
  type : FileType
  ref : Int
  readable : Bool
  writable : Bool
  pipe : Nat
  ip : Nat
  off : Nat
  deriving Repr, DecidableEq

/-- What opening and closing uses of `Pipe`. -/
structure Pipe where
  /-- The end for reading is open. -/
  readopen : Bool
  /-- The end for writing is open. -/
  writeopen : Bool
  deriving Repr, DecidableEq

/-- The requests of the code that works on files and processes. -/
inductive SysOp where
  /-- A request of the code that works on inodes. -/
  | inode (op : InodeOp)
  | beginOp
  | endOp
  /-- `_acquire_spinlock(&ftable.lock)`. -/
  | lockFtable
  /-- `_release_spinlock(&ftable.lock)`. -/
  | unlockFtable
  | loadFile (file : Nat)
  /-- Other fields of a file. -/
  | setFile (file : Nat) (fields : File)
  /-- `kalloc(sizeof(Pipe))`, answered by a null pointer if there is no memory. -/
  | kallocPipe
  | loadPipe (pipe : Nat)
  /-- Other fields of a pipe. -/
  | setPipe (pipe : Nat) (fields : Pipe)
  | kfreePipe (pipe : Nat)
  /-- `pipeRead`, answered by the bytes and the result. -/
  | pipeRead (pipe count : Nat)
  /-- `pipeWrite`, answered by the result. -/
  | pipeWrite (pipe : Nat) (bytes : List UInt8)
  /-- `oftable->openfile[fd]` of a process. -/
  | openfile (proc fd : Nat)
  /-- Another file in `oftable->openfile[fd]`, or a null pointer. -/
  | setOpenfile (proc fd : Nat) (file : Option Nat)
  /-- A null pointer stored through `oftable->openfile` at an index outside the table. -/
  | strayOpenfile (proc : Nat) (fd : Int)
  /-- `cwd` of a process. -/
  | cwd (proc : Nat)
  /-- Another `cwd`. -/
  | setCwd (proc : Nat) (inode : Nat)
  /-- `create_proc`, answered by a null pointer if there is no memory. -/
  | createProc
  /-- `vm_copy`: it succeeds if there is memory. -/
  | vmCopy
  /-- A process is no longer live. -/
  | retire (proc : Nat)

/-- The answer to a request. -/
def SysOp.Out : SysOp → Type
  | .inode op => op.Out
  | .loadFile _ => File
  | .kallocPipe => Option Nat
  | .loadPipe _ => Pipe
  | .pipeRead _ _ => List UInt8 × Int
  | .pipeWrite _ _ => Int
  | .openfile _ _ => Option Nat
  | .cwd _ => Option Nat
  | .createProc => Option Nat
  | .vmCopy => Bool
  | _ => Unit

/-- Code that works on files and processes. -/
abbrev SysProg (α : Type) : Type := Prog SysOp SysOp.Out α

namespace SysProg

/-- Code that works on inodes only. -/
def lift {α : Type} (program : InodeProg α) : SysProg α :=
  program.translate fun op => .request (SysOp.inode op)

/-- `PANIC()`. -/
def panic {α : Type} : SysProg α := lift InodeProg.panic

/-- `ASSERT`. -/
def assert (holds : Prop) [Decidable holds] : SysProg Unit := lift (InodeProg.assert holds)

/-- `bcache.begin_op`. -/
def beginOp : SysProg Unit := .request SysOp.beginOp

/-- `bcache.end_op`. -/
def endOp : SysProg Unit := .request SysOp.endOp

/-- `_acquire_spinlock(&ftable.lock)`. -/
def lockFtable : SysProg Unit := .request SysOp.lockFtable

/-- `_release_spinlock(&ftable.lock)`. -/
def unlockFtable : SysProg Unit := .request SysOp.unlockFtable

/-- The fields of a file. -/
def loadFile (file : Nat) : SysProg File := .request (SysOp.loadFile file)

/-- Other fields of a file. -/
def setFile (file : Nat) (fields : File) : SysProg Unit := .request (SysOp.setFile file fields)

/-- `kalloc(sizeof(Pipe))`. -/
def kallocPipe : SysProg (Option Nat) := .request SysOp.kallocPipe

/-- The fields of a pipe. -/
def loadPipe (pipe : Nat) : SysProg Pipe := .request (SysOp.loadPipe pipe)

/-- Other fields of a pipe. -/
def setPipe (pipe : Nat) (fields : Pipe) : SysProg Unit := .request (SysOp.setPipe pipe fields)

/-- `kfree` of a pipe. -/
def kfreePipe (pipe : Nat) : SysProg Unit := .request (SysOp.kfreePipe pipe)

/-- `pipeRead`. -/
def pipeRead (pipe count : Nat) : SysProg (List UInt8 × Int) :=
  .request (SysOp.pipeRead pipe count)

/-- `pipeWrite`. -/
def pipeWrite (pipe : Nat) (bytes : List UInt8) : SysProg Int :=
  .request (SysOp.pipeWrite pipe bytes)

/-- `oftable->openfile[fd]`. -/
def openfile (proc fd : Nat) : SysProg (Option Nat) := .request (SysOp.openfile proc fd)

/-- Another file in `oftable->openfile[fd]`. -/
def setOpenfile (proc fd : Nat) (file : Option Nat) : SysProg Unit :=
  .request (SysOp.setOpenfile proc fd file)

/-- A null pointer in `oftable->openfile[fd]` outside the table. -/
def strayOpenfile (proc : Nat) (fd : Int) : SysProg Unit := .request (SysOp.strayOpenfile proc fd)

/-- `cwd`. -/
def cwd (proc : Nat) : SysProg (Option Nat) := .request (SysOp.cwd proc)

/-- Another `cwd`. -/
def setCwd (proc inode : Nat) : SysProg Unit := .request (SysOp.setCwd proc inode)

/-- `create_proc`. -/
def createProc : SysProg (Option Nat) := .request SysOp.createProc

/-- `vm_copy`. -/
def vmCopy : SysProg Bool := .request SysOp.vmCopy

/-- A process is no longer live. -/
def retire (proc : Nat) : SysProg Unit := .request (SysOp.retire proc)

end SysProg

open SysProg

section Code

variable (sblock : SuperBlock)

/-- The loop of `filealloc`. -/
def fileallocLoop : (rounds i : Nat) → SysProg (Option Nat)
  | 0, _ => do
    unlockFtable
    return none
  | rounds + 1, i => do
    let fields ← loadFile i
    if fields.ref = 0 then
      setFile i { fields with ref := 1 }
      unlockFtable
      return some i
    else fileallocLoop rounds (i + 1)

/-- `filealloc`. -/
def filealloc : SysProg (Option Nat) := do
  lockFtable
  fileallocLoop nfile 0

/-- `filedup`. -/
def filedup (f : Nat) : SysProg Nat := do
  lockFtable
  let fields ← loadFile f
  assert (fields.ref ≥ 1)
  setFile f { fields with ref := fields.ref + 1 }
  unlockFtable
  return f

/-- `pipeClose`. -/
def pipeClose (pi : Nat) (writable : Bool) : SysProg Unit := do
  let fields ← loadPipe pi
  let fields := if writable then { fields with writeopen := false }
    else { fields with readopen := false }
  setPipe pi fields
  if !fields.readopen && !fields.writeopen then kfreePipe pi

/-- What `fileclose` does once there are no references. -/
def closeLast (now : File) : SysProg Unit :=
  match now.type with
  | .pipe => pipeClose now.pipe now.writable
  | .inode => do
    beginOp
    lift (inodePut sblock .op now.ip)
    endOp
  | .none => pure ()

/-- `fileclose`. -/
def fileclose (f : Nat) : SysProg Unit := do
  lockFtable
  let fields ← loadFile f
  assert (fields.ref ≥ 1)
  let now := { fields with ref := fields.ref - 1 }
  if now.ref > 0 then
    setFile f now
    unlockFtable
  else
    setFile f { now with type := .none }
    unlockFtable
    closeLast sblock now

/-- `fileread`: the bytes, and the result. -/
def fileread (f count : Nat) : SysProg (List UInt8 × Int) := do
  let fields ← loadFile f
  if !fields.readable then return ([], -1)
  else
    match fields.type with
    | .pipe => pipeRead fields.pipe count
    | .inode =>
      lift (inodeLock fields.ip)
      let now ← loadFile f
      let (bytes, ans) ← lift (inodeRead sblock now.ip now.off count)
      setFile f (if ans > 0 then { now with off := now.off + ans.toNat } else now)
      lift (inodeUnlock now.ip)
      return (bytes, ans)
    | .none => panic

/-- `maxbytes` of `filewrite`. -/
def maxbytes : Nat := (opMaxNumBlocks - 4) / 2 * blockSize

/-- The loop of `filewrite` over the bytes that are left. -/
def filewriteLoop (f : Nat) : (rounds : Nat) → List UInt8 → SysProg Unit
  | 0, _ => pure ()
  | rounds + 1, bytes => do
    if bytes ≠ [] then
      beginOp
      let fields ← loadFile f
      lift (inodeLock fields.ip)
      let now ← loadFile f
      let reallen ← lift (inodeWrite sblock .op now.ip (bytes.take maxbytes) now.off)
      setFile f { now with off := now.off + reallen }
      lift (inodeUnlock now.ip)
      endOp
      assert (reallen = (bytes.take maxbytes).length)
      filewriteLoop f rounds (bytes.drop maxbytes)

/-- `filewrite`. -/
def filewrite (f : Nat) (bytes : List UInt8) : SysProg Int := do
  let fields ← loadFile f
  if !fields.writable then return -1
  else
    match fields.type with
    | .pipe => pipeWrite fields.pipe bytes
    | .inode =>
      filewriteLoop sblock f bytes.length bytes
      return bytes.length
    | .none => return 0

/-- The end of `pipeAlloc` where it fails. -/
def pipeAllocBad (f0 f1 : Option Nat) : SysProg (Option (Nat × Nat)) := do
  f0.forM (fileclose sblock)
  f1.forM (fileclose sblock)
  return none

/-- `pipeAlloc`: the two files, or `none` where it returns `-1`. -/
def pipeAlloc : SysProg (Option (Nat × Nat)) := do
  match ← filealloc with
  | none => pipeAllocBad sblock none none
  | some f0 =>
    match ← filealloc with
    | none => pipeAllocBad sblock (some f0) none
    | some f1 =>
      match ← kallocPipe with
      | none => pipeAllocBad sblock (some f0) (some f1)
      | some p =>
        setPipe p ⟨true, true⟩
        setFile f0 { ← loadFile f0 with type := .pipe, readable := true, writable := false, pipe := p }
        setFile f1 { ← loadFile f1 with type := .pipe, readable := false, writable := true, pipe := p }
        return some (f0, f1)

end Code

end OsLab.Fs
