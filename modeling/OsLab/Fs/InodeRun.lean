import OsLab.Fs.Store
import OsLab.Fs.Directory

/-!
# Inodes over the plain store

The requests of the code that works on inodes, answered by one process at a time: the plain store of
blocks, the inodes in memory and the list of those that can be found. Memory that was given back is
not used, and memory that is given out has not been used before.
-/
namespace OsLab.Fs

open OsLab.Lib
open InodeProg

/-- The blocks and the inodes in memory. -/
structure FsState where
  store : Store
  /-- The inodes in memory, by their addresses. -/
  inodes : Nat → Option Inode
  /-- The inodes in the list of `head`. -/
  list : List Nat
  /-- The spin lock of the list is taken. -/
  listLock : Bool
  /-- The address that `kalloc` returns next. -/
  next : Nat
  /-- What `console_read` will copy and return. -/
  console : List (List UInt8 × Int)

namespace FsState

/-- An inode in memory changes. -/
def setInode (s : FsState) (inode : Nat) (fields : Inode) : FsState :=
  { s with inodes := Function.update s.inodes inode (some fields) }

/-- An inode that is in memory changes. -/
def amend (s : FsState) (inode : Nat) (change : Inode → Inode) : Option (Unit × FsState) :=
  (s.inodes inode).map fun fields => ((), s.setInode inode (change fields))

/-- The answers to the requests. -/
def serve : Prog.Handler InodeOp InodeOp.Out FsState
  | .block op, s => (Store.serve op s.store).map fun result =>
      (result.1, { s with store := result.2 })
  | .lockList, s => if s.listLock then none else some ((), { s with listLock := true })
  | .unlockList, s => some ((), { s with listLock := false })
  | .walkList, s => some (s.list, s)
  | .insertList inode, s => some ((), { s with list := inode :: s.list })
  | .detach inode, s => some ((), { s with list := s.list.erase inode })
  | .kalloc inodeNo, s => some (s.next, { s.setInode s.next (.init inodeNo) with next := s.next + 1 })
  | .kfree inode, s => some ((), { s with inodes := Function.update s.inodes inode none })
  | .load inode, s => (s.inodes inode).map fun fields => (fields, s)
  | .setEntry inode entry, s => s.amend inode ({ · with entry })
  | .setValid inode, s => s.amend inode ({ · with valid := true })
  | .incrementRc inode, s => s.amend inode fun fields => { fields with rc := fields.rc + 1 }
  | .decrementRc inode, s => s.amend inode fun fields => { fields with rc := fields.rc - 1 }
  | .wait inode, s => (s.inodes inode).bind fun fields =>
      if fields.locked then none else some ((), s.setInode inode { fields with locked := true })
  | .post inode, s => s.amend inode ({ · with locked := false })
  | .putc _, s => some ((), s)
  | .getc _, s =>
    match s.console with
    | [] => none
    | answer :: rest => some (answer, { s with console := rest })

end FsState

end OsLab.Fs
