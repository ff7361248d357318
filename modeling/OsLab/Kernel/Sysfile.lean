import OsLab.Fs.File

/-!
# File-system system calls

`src/kernel/sysfile.c`, and what `fork` and `exit` of `src/kernel/proc.c` and `execve` of
`src/kernel/exec.c` do with files and inodes. `this` is `thisproc()`. A path is the list of its
bytes before the zero; the buffer of a call is the list of its bytes, or the fact that it may be
written.
-/
namespace OsLab.Kernel.Sysfile

open OsLab.Lib OsLab.Fs
open SysProg

section Code

variable (sblock : SuperBlock) (stack : Stack) (this : Nat)

/-- `user_strlen(path, 256)` is not zero. -/
def pathReadable (path : List UInt8) : Bool := path.length < 256

/-- `fd2file`. -/
def fd2file (fd : Int) : SysProg (Option Nat) :=
  if fd < 0 ∨ fd ≥ nofile then return none else openfile this fd.toNat

/-- The loop of `fdalloc`. -/
def fdallocLoop (f : Nat) : (rounds fd : Nat) → SysProg (Option Nat)
  | 0, _ => return none
  | rounds + 1, fd => do
    match ← openfile this fd with
    | none =>
      setOpenfile this fd (some f)
      return some fd
    | some _ => fdallocLoop f rounds (fd + 1)

/-- `fdalloc`: the descriptor, or `none` where it returns `-1`. -/
def fdalloc (f : Nat) : SysProg (Option Nat) := fdallocLoop this f nofile 0

/-- `dup`. -/
def dup (fd : Int) : SysProg Int := do
  match ← fd2file this fd with
  | none => return -1
  | some f =>
    match ← fdalloc this f with
    | none => return -1
    | some fd =>
      let _ ← filedup f
      return fd

/-- `read` into a buffer of `size` bytes that may be written or not. -/
def read (fd : Int) (size : Int) (writeable : Bool) : SysProg Int := do
  match ← fd2file this fd with
  | none => return -1
  | some f =>
    if size ≤ 0 ∨ !writeable then return -1
    else return (← fileread sblock f size.toNat).2

/-- `write`. -/
def write (fd : Int) (buffer : List UInt8) : SysProg Int := do
  match ← fd2file this fd with
  | none => return -1
  | some f => if buffer = [] then return -1 else filewrite sblock f buffer

/-- The loop of `writev`. -/
def writevLoop (f : Nat) : List (List UInt8) → Int → SysProg Int
  | [], tot => return tot
  | base :: rest, tot => do
    let written ← filewrite sblock f base
    writevLoop f rest (tot + written)

/-- `writev`. -/
def writev (fd : Int) (iov : List (List UInt8)) : SysProg Int := do
  match ← fd2file this fd with
  | none => return -1
  | some f => if iov = [] then return -1 else writevLoop sblock f iov 0

/-- The null pointer that `close` stores through `openfile`. -/
def clearOpenfile (fd : Int) : SysProg Unit :=
  if fd < 0 ∨ fd ≥ nofile then strayOpenfile this fd else setOpenfile this fd.toNat none

/-- `close`. It does not check the descriptor, and `fileclose` follows a null pointer. -/
def close (fd : Int) : SysProg Int := do
  let file ← fd2file this fd
  clearOpenfile this fd
  match file with
  | none => panic
  | some f =>
    fileclose sblock f
    return 0

/-- `stati`: it panics for an inode of no type. -/
def stati (ip : Nat) : InodeProg Unit := do
  let type := (← InodeProg.entry ip).type
  InodeProg.assert (type = inodeRegular ∨ type = inodeDirectory ∨ type = inodeDevice)

/-- `filestat` of `src/fs/file.c`. -/
def filestat (f : Nat) : SysProg Int := do
  let fields ← loadFile f
  match fields.type with
  | .inode =>
    lift (do
      inodeLock fields.ip
      stati fields.ip
      inodeUnlock fields.ip)
    return 0
  | .pipe | .none => return -1

/-- `fstat`. The buffer for the result may be written or not. -/
def fstat (fd : Int) (writeable : Bool) : SysProg Int := do
  match ← fd2file this fd with
  | none => return -1
  | some f => if !writeable then return -1 else filestat f

/-- `newfstatat`. The buffer for the result may be written or not. -/
def newfstatat (cwdOnly : Bool) (path : List UInt8) (writeable : Bool) (flags : Int) :
    SysProg Int := do
  if !pathReadable path || !writeable || !cwdOnly || flags ≠ 0 then return -1
  else
    beginOp
    match ← cwd this with
    | none => panic
    | some dir =>
      match ← lift (namei sblock stack dir path .op) with
      | none =>
        endOp
        return -1
      | some ip =>
        lift (do
          inodeLock ip
          stati ip
          inodeUnlock ip
          inodePut sblock .op ip)
        endOp
        return 0

/-- The loop of `isdirempty`. -/
def isdiremptyLoop (dp : Nat) : (rounds off : Nat) → InodeProg Bool
  | 0, _ => InodeProg.panic
  | rounds + 1, off => do
    if off < (← InodeProg.entry dp).numBytes.toNat then
      let (de, ans) ← inodeRead sblock dp off dirEntryBytes
      InodeProg.assert (ans = dirEntryBytes)
      if DirEntry.inodeNo de ≠ 0 then return false
      else isdiremptyLoop dp rounds (off + dirEntryBytes)
    else return true

/-- `isdirempty`. -/
def isdirempty (dp : Nat) : InodeProg Bool := do
  let now ← InodeProg.entry dp
  isdiremptyLoop sblock dp (now.numBytes.toNat / dirEntryBytes + 2) (2 * dirEntryBytes)

/-- `num_links` of an inode changes, and `inodes.sync`. -/
def changeLinks (ip : Nat) (change : UInt16 → UInt16) : InodeProg Unit := do
  let now ← InodeProg.entry ip
  InodeProg.setEntry ip { now with numLinks := change now.numLinks }
  inodeSync sblock .op ip true

/-- The end of `unlinkat` at the label `bad`. -/
def unlinkBad (dp : Nat) : InodeProg Bool := do
  inodeUnlock dp
  inodePut sblock .op dp
  return false

/-- The part of `unlinkat` that takes away the link of `..` in a directory. -/
def unlinkParent (dp ip : Nat) : InodeProg Unit := do
  if (← InodeProg.entry ip).type = inodeDirectory then changeLinks sblock dp (· - 1)

/-- The part of `unlinkat` that takes away the entry at `off` and the link to `ip`. -/
def unlinkEntry (dp ip off : Nat) : InodeProg Bool := do
  let written ← inodeWrite sblock .op dp (List.replicate dirEntryBytes 0) off
  InodeProg.assert (written = dirEntryBytes)
  unlinkParent sblock dp ip
  inodeUnlock dp
  inodePut sblock .op dp
  changeLinks sblock ip (· - 1)
  inodeUnlock ip
  inodePut sblock .op ip
  return true

/-- `unlinkat` between `begin_op` and `end_op`: whether it succeeds. -/
def unlink (dir : Nat) (path : List UInt8) : InodeProg Bool := do
  match ← nameiparent sblock stack dir path .op with
  | none => return false
  | some (dp, name) =>
    inodeLock dp
    if name = [46] ∨ name = [46, 46] then unlinkBad sblock dp
    else
      match ← inodeLookup sblock stack dp name with
      | none => unlinkBad sblock dp
      | some (inumber, off) =>
        match ← inodeGet sblock inumber with
        | none => InodeProg.panic
        | some ip =>
          inodeLock ip
          let now ← InodeProg.entry ip
          InodeProg.assert (now.numLinks ≥ 1)
          if now.type = inodeDirectory then
            if ← isdirempty sblock ip then unlinkEntry sblock dp ip off
            else
              inodeUnlock ip
              inodePut sblock .op ip
              unlinkBad sblock dp
          else unlinkEntry sblock dp ip off

/-- `unlinkat`. -/
def unlinkat (cwdOnly : Bool) (path : List UInt8) (flag : Int) : SysProg Int := do
  assert (cwdOnly = true ∧ flag = 0)
  if !pathReadable path then return -1
  else
    beginOp
    match ← cwd this with
    | none => panic
    | some dir =>
      let done ← lift (unlink sblock stack dir path)
      endOp
      return if done then 0 else -1

/-- The part of `create` for a directory. -/
def createDots (dir ip : Nat) (type : UInt16) : InodeProg Unit := do
  if type = inodeDirectory then
    changeLinks sblock dir (· + 1)
    let _ ← inodeInsert sblock stack .op ip [46] (← InodeProg.load ip).inodeNo
    let _ ← inodeInsert sblock stack .op ip [46, 46] (← InodeProg.load dir).inodeNo

/-- The part of `create` that makes a new inode in `dir`. -/
def createNew (dir : Nat) (name : List UInt8) (type major minor : UInt16) : InodeProg Nat := do
  let inodeNo ← inodeAlloc sblock .op type
  match ← inodeGet sblock inodeNo with
  | none => InodeProg.panic
  | some ip =>
    inodeLock ip
    InodeProg.setEntry ip { ← InodeProg.entry ip with major, minor, numLinks := 1 }
    inodeSync sblock .op ip true
    createDots sblock stack dir ip type
    let _ ← inodeInsert sblock stack .op dir name (← InodeProg.load ip).inodeNo
    inodeUnlock dir
    inodePut sblock .op dir
    return ip

/-- `create`: the inode, which is locked. -/
def create (cwd : Nat) (path : List UInt8) (type major minor : UInt16) :
    InodeProg (Option Nat) := do
  match ← nameiparent sblock stack cwd path .op with
  | none => return none
  | some (dir, name) =>
    inodeLock dir
    match ← inodeGet sblock (foundNo (← inodeLookup sblock stack dir name)) with
    | some ip =>
      inodeUnlock dir
      inodePut sblock .op dir
      inodeLock ip
      if type = inodeRegular ∧ (← InodeProg.entry ip).type = inodeRegular then return some ip
      else
        inodeUnlock ip
        inodePut sblock .op ip
        return none
    | none => return some (← createNew sblock stack dir name type major minor)

/-- What `openat` is asked for. -/
structure Mode where
  creat : Bool
  wronly : Bool
  rdwr : Bool
  deriving Repr, DecidableEq

/-- The inode that `openat` opens, which is locked. -/
def openInode (dir : Nat) (path : List UInt8) (omode : Mode) : InodeProg (Option Nat) := do
  if omode.creat then create sblock stack dir path inodeRegular 0 0
  else
    match ← namei sblock stack dir path .op with
    | none => return none
    | some ip =>
      inodeLock ip
      return some ip

/-- The end of `openat` where there is no descriptor. -/
def openBad (ip : Nat) : SysProg Int := do
  lift (do
    inodeUnlock ip
    inodePut sblock .op ip)
  endOp
  return -1

/-- `openat`. -/
def openat (cwdOnly : Bool) (path : List UInt8) (omode : Mode) : SysProg Int := do
  if !pathReadable path || !cwdOnly then return -1
  else
    beginOp
    match ← cwd this with
    | none => panic
    | some dir =>
      match ← lift (openInode sblock stack dir path omode) with
      | none =>
        endOp
        return -1
      | some ip =>
        match ← filealloc with
        | none => openBad sblock ip
        | some f =>
          match ← fdalloc this f with
          | none =>
            fileclose sblock f
            openBad sblock ip
          | some fd =>
            lift (inodeUnlock ip)
            endOp
            setFile f { ← loadFile f with
              type := .inode, ip, off := 0, readable := !omode.wronly,
              writable := omode.wronly || omode.rdwr }
            return fd

/-- `create`, and giving the inode back, in `mkdirat` and `mknodat`. -/
def makeInode (path : List UInt8) (type major minor : UInt16) : SysProg Int := do
  beginOp
  match ← cwd this with
  | none => panic
  | some dir =>
    match ← lift (create sblock stack dir path type major minor) with
    | none =>
      endOp
      return -1
    | some ip =>
      lift (do
        inodeUnlock ip
        inodePut sblock .op ip)
      endOp
      return 0

/-- `mkdirat`. -/
def mkdirat (cwdOnly : Bool) (path : List UInt8) (mode : Int) : SysProg Int :=
  if !pathReadable path || !cwdOnly || mode ≠ 0 then return -1
  else makeInode sblock stack this path inodeDirectory 0 0

/-- `mknodat`. -/
def mknodat (cwdOnly : Bool) (path : List UInt8) (major minor : UInt16) : SysProg Int :=
  if !pathReadable path || !cwdOnly then return -1
  else makeInode sblock stack this path inodeDevice major minor

/-- `chdir`. -/
def chdir (path : List UInt8) : SysProg Int := do
  beginOp
  match ← cwd this with
  | none => panic
  | some dir =>
    match ← lift (namei sblock stack dir path .op) with
    | none =>
      endOp
      return -1
    | some ip =>
      lift (inodeLock ip)
      if (← lift (InodeProg.entry ip)).type ≠ inodeDirectory then
        lift (do
          inodeUnlock ip
          inodePut sblock .op ip)
        endOp
        return -1
      else
        lift (do
          inodeUnlock ip
          inodePut sblock .op dir)
        endOp
        setCwd this ip
        return 0

/-- `pipe2`: the two descriptors, or `none` where it returns `-1`. -/
def pipe2 (flags : Int) : SysProg (Option (Nat × Nat)) := do
  if flags ≠ 0 then return none
  else
    match ← pipeAlloc sblock with
    | none => return none
    | some (rf, wf) =>
      let fd0 ← fdalloc this rf
      let fd1 ← fdalloc this wf
      match fd0, fd1 with
      | some fd0, some fd1 => return some (fd0, fd1)
      | _, _ =>
        fd0.forM fun fd => setOpenfile this fd none
        fileclose sblock rf
        fileclose sblock wf
        return none

/-! ## Processes -/

/-- The body of the loop of `fork` over the descriptors. -/
def forkSlot (np i : Nat) : SysProg Unit := do
  match ← openfile this i with
  | none => pure ()
  | some f => setOpenfile np i (some (← filedup f))

/-- The loop of `fork` over the descriptors. -/
def forkLoop (np : Nat) : (rounds i : Nat) → SysProg Unit
  | 0, _ => pure ()
  | rounds + 1, i => do
    forkSlot this np i
    forkLoop np rounds (i + 1)

/-- `fork`: the new process, or `none` where it returns `-1`. -/
def fork : SysProg (Option Nat) := do
  match ← createProc with
  | none => return none
  | some np =>
    if ← vmCopy then
      forkLoop this np nofile 0
      match ← cwd this with
      | none => panic
      | some dir =>
        setCwd np (← lift (inodeShare dir))
        return some np
    else
      retire np
      return none

/-- The body of the loop of `exit` over the descriptors. -/
def exitSlot (i : Nat) : SysProg Unit := do
  match ← openfile this i with
  | none => pure ()
  | some f =>
    fileclose sblock f
    setOpenfile this i none

/-- The loop of `exit` over the descriptors. -/
def exitLoop : (rounds i : Nat) → SysProg Unit
  | 0, _ => pure ()
  | rounds + 1, i => do
    exitSlot sblock this i
    exitLoop rounds (i + 1)

/-- The part of `exit` that gives the working directory back. The operation of `inode_put` has no
context. -/
def exitCwd : SysProg Unit := do
  match ← cwd this with
  | none => pure ()
  | some dir => lift (inodePut sblock .null dir)

/-- `exit`. -/
def exit : SysProg Unit := do
  exitLoop sblock this nofile 0
  exitCwd sblock this
  retire this

/-- A field of 2, 4 or 8 bytes at a position of some bytes. -/
def field (bytes : List UInt8) (position width : Nat) : Nat :=
  word width fun byte => bytes.getD (position + byte) 0

/-- `sizeof(Elf64_Ehdr)`. -/
def ehdrBytes : Nat := 64

/-- `sizeof(Elf64_Phdr)`. -/
def phdrBytes : Nat := 56

/-- The checks of `execve` on the header of the file. -/
def elfHeader (elf : List UInt8) : Bool :=
  elf.take 5 = [0x7f, 0x45, 0x4c, 0x46, 2]

/-- The part of `execve` for a segment that is loaded, the first or a later one. What it does in
memory is left out, and `uvm_alloc` is taken to succeed: the code panics otherwise. -/
def execSegment (ip : Nat) (first : Bool) (ph : List UInt8) : InodeProg Unit := do
  let vaddr := field ph 16 8
  let filesz := field ph 32 8
  let memsz := field ph 40 8
  InodeProg.assert (filesz ≤ memsz ∧ vaddr ≤ (vaddr + memsz) % 2 ^ 64)
  InodeProg.assert (first = true → vaddr % 4096 = 0)
  let (_, ans) ← inodeRead sblock ip (field ph 8 8) filesz
  InodeProg.assert (ans = filesz)

/-- The loop of `execve` over the program headers from the one at `off` on. -/
def execLoop (ip : Nat) : (rounds off : Nat) → (first : Bool) → InodeProg Unit
  | 0, _, _ => pure ()
  | rounds + 1, off, first => do
    let (ph, ans) ← inodeRead sblock ip off phdrBytes
    InodeProg.assert (ans = phdrBytes)
    if field ph 0 4 = 1 then
      execSegment sblock ip first ph
      execLoop ip rounds ((off + phdrBytes) % 2 ^ 64) false
    else execLoop ip rounds ((off + phdrBytes) % 2 ^ 64) first

/-- `execve` between `inodes.lock` and `inodes.unlock`: whether it succeeds. -/
def execInode (ip : Nat) : InodeProg Bool := do
  let (elf, ans) ← inodeRead sblock ip 0 ehdrBytes
  if ans ≠ ehdrBytes ∨ !elfHeader elf then return false
  else
    execLoop sblock ip (field elf 56 2) (field elf 32 8) true
    return true

/-- `execve`. -/
def execve (path : List UInt8) : SysProg Int := do
  if !pathReadable path then return -1
  else
    beginOp
    match ← cwd this with
    | none => panic
    | some dir =>
      match ← lift (namei sblock stack dir path .op) with
      | none =>
        endOp
        return -1
      | some ip =>
        let done ← lift (do
          inodeLock ip
          let done ← execInode sblock ip
          inodeUnlock ip
          inodePut sblock .op ip
          return done)
        endOp
        return if done then 0 else -1

end Code

end OsLab.Kernel.Sysfile
