import OsLab.Fs.Inode

/-!
# Directories and paths

The directory functions and the path names of `src/fs/inode.c`. A string is the list of its bytes
before the zero. The code reads past a buffer of `FILE_NAME_MAX_LENGTH` bytes that has no zero in
it, and writes back a buffer of which it has read only a part; what the stack holds there is a
parameter.
-/
namespace OsLab.Fs

open OsLab.Lib
open InodeProg

/-- What the stack holds where the code reads what it has not written. -/
structure Stack where
  /-- The bytes behind the buffer of a name, up to the first zero. -/
  pastName : List UInt8
  /-- The bytes behind a directory entry, up to the first zero. -/
  pastEntry : List UInt8
  /-- A directory entry before anything was read into it. -/
  garbage : List UInt8

/-- `sizeof(DirEntry)`. -/
def dirEntryBytes : Nat := 2 + fileNameMaxLength

namespace DirEntry

/-- `now.inode_no`. -/
def inodeNo (now : List UInt8) : Nat := word 2 fun byte => now.getD byte 0

/-- `now.name` as a string. -/
def name (stack : Stack) (now : List UInt8) : List UInt8 :=
  let text := ((now.drop 2).take fileNameMaxLength).takeWhile (· ≠ 0)
  if text.length = fileNameMaxLength then text ++ stack.pastEntry else text

/-- An entry with a number, in 16 bits, and the bytes of a name. -/
def pack (inodeNo : Nat) (name : List UInt8) : List UInt8 :=
  [digit inodeNo 0, digit inodeNo 1] ++ name

/-- `strncpy(now.name,name,FILE_NAME_MAX_LENGTH)`. -/
def strncpy (name : List UInt8) : List UInt8 :=
  (name.take fileNameMaxLength).rightpad fileNameMaxLength 0

end DirEntry

/-- What a read of some bytes leaves in a buffer. -/
def overlay (bytes buffer : List UInt8) : List UInt8 := bytes ++ buffer.drop bytes.length

section Code

variable (sblock : SuperBlock) (stack : Stack)

/-- The loop of `inode_lookup`: the number and the index of the entry with the name. It does not
end where the index, of 32 bits, wraps round. -/
def lookupLoop (inode : Nat) (name : List UInt8) :
    (rounds i : Nat) → List UInt8 → InodeProg (Option (Nat × Nat))
  | 0, _, _ => panic
  | rounds + 1, i, now => do
    if i < (← entry inode).numBytes.toNat then
      let now := overlay (← inodeRead sblock inode i dirEntryBytes).1 now
      if DirEntry.inodeNo now ≠ 0 ∧ name = DirEntry.name stack now then
        return some (DirEntry.inodeNo now, i)
      else lookupLoop inode name rounds ((i + dirEntryBytes) % 2 ^ 32) now
    else return none

/-- `inode_lookup`: the number, and the index if there is one. -/
def inodeLookup (inode : Nat) (name : List UInt8) : InodeProg (Option (Nat × Nat)) := do
  let now ← entry inode
  assert (now.type = inodeDirectory)
  lookupLoop sblock stack inode name (now.numBytes.toNat / dirEntryBytes + 2) 0 stack.garbage

/-- The number that `inode_lookup` returns. -/
def foundNo (found : Option (Nat × Nat)) : Nat := (found.map Prod.fst).getD 0

/-- The loop of `inode_lookup2`: the number of the entry with the name, or zero and the index of
the first free entry. -/
def lookup2Loop (inode : Nat) (name : List UInt8) :
    (rounds i index : Nat) → List UInt8 → InodeProg (Nat × Nat)
  | 0, _, _, _ => panic
  | rounds + 1, i, index, now => do
    let size := (← entry inode).numBytes.toNat
    if i < size then
      let now := overlay (← inodeRead sblock inode i dirEntryBytes).1 now
      let index := if DirEntry.inodeNo now = 0 ∧ index = inodeMaxBytes then i else index
      if DirEntry.inodeNo now ≠ 0 ∧ name = DirEntry.name stack now then
        return (DirEntry.inodeNo now, i)
      else lookup2Loop inode name rounds ((i + dirEntryBytes) % 2 ^ 32) index now
    else return (0, if index = inodeMaxBytes then size else index)

/-- `inode_lookup2`. -/
def inodeLookup2 (inode : Nat) (name : List UInt8) : InodeProg (Nat × Nat) := do
  let now ← entry inode
  assert (now.type = inodeDirectory)
  lookup2Loop sblock stack inode name (now.numBytes.toNat / dirEntryBytes + 2) 0 inodeMaxBytes
    stack.garbage

/-- `inode_insert`: the index, or `-1` in 64 bits. -/
def inodeInsert (ctx : Ctx) (inode : Nat) (name : List UInt8) (inodeNo : Nat) :
    InodeProg Nat := do
  assert ((← entry inode).type = inodeDirectory)
  let (found, offset) ← inodeLookup2 sblock stack inode name
  if found ≠ 0 then return 2 ^ 64 - 1
  else
    let _ ← inodeWrite sblock ctx inode (DirEntry.pack inodeNo (DirEntry.strncpy name)) offset
    return offset

/-- `inode_remove`. -/
def inodeRemove (ctx : Ctx) (inode index : Nat) : InodeProg Unit := do
  let now := overlay (← inodeRead sblock inode index dirEntryBytes).1 stack.garbage
  let _ ← inodeWrite sblock ctx inode (DirEntry.pack 0 (now.drop 2)) index

/-! ## Paths -/

/-- `skipelem`: the rest of the path and the name, or `none` for a null pointer. -/
def skipelem (path : List UInt8) : Option (List UInt8 × List UInt8) :=
  match path.dropWhile (· = 47) with
  | [] => none
  | byte :: rest =>
    let s := (byte :: rest).takeWhile (· ≠ 47)
    some (((byte :: rest).dropWhile (· ≠ 47)).dropWhile (· = 47),
      if fileNameMaxLength ≤ s.length then s.take fileNameMaxLength ++ stack.pastName else s)

/-- The loop of `namex` at the directory `ans`: the inode and the last name. -/
def namexLoop (ctx : Ctx) (nameiparent : Bool) :
    (rounds ans : Nat) → (path name : List UInt8) → InodeProg (Option (Nat × List UInt8))
  | 0, _, _, _ => panic
  | rounds + 1, ans, path, name =>
    match skipelem stack path with
    | none => do
      if nameiparent then
        inodePut sblock ctx ans
        return none
      else return some (ans, name)
    | some (path, name) => do
      inodeLock ans
      if (← entry ans).type ≠ inodeDirectory then
        inodeUnlock ans
        inodePut sblock ctx ans
        return none
      else if nameiparent && path.isEmpty then
        inodeUnlock ans
        return some (ans, name)
      else
        match ← inodeGet sblock (foundNo (← inodeLookup sblock stack ans name)) with
        | none =>
          inodeUnlock ans
          inodePut sblock ctx ans
          return none
        | some next =>
          inodeUnlock ans
          inodePut sblock ctx ans
          namexLoop ctx nameiparent rounds next path name

/-- The inode that `namex` starts from: the root, or `thisproc()->cwd`. -/
def namexStart (cwd : Nat) (path : List UInt8) : InodeProg (Option Nat) :=
  if path.head? = some 47 then inodeGet sblock rootInodeNo
  else return some (← inodeShare cwd)

/-- `namex`, where `cwd` is `thisproc()->cwd`. -/
def namex (cwd : Nat) (path : List UInt8) (nameiparent : Bool) (ctx : Ctx) :
    InodeProg (Option (Nat × List UInt8)) := do
  match ← namexStart sblock cwd path with
  | none => panic
  | some ans => namexLoop sblock stack ctx nameiparent (path.length + 1) ans path []

/-- `namei`. -/
def namei (cwd : Nat) (path : List UInt8) (ctx : Ctx) : InodeProg (Option Nat) :=
  return (← namex sblock stack cwd path false ctx).map Prod.fst

/-- `nameiparent`. -/
def nameiparent (cwd : Nat) (path : List UInt8) (ctx : Ctx) :
    InodeProg (Option (Nat × List UInt8)) :=
  namex sblock stack cwd path true ctx

end Code

end OsLab.Fs
