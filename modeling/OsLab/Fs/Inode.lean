import OsLab.Fs.Alloc
import OsLab.Fs.InodeEntry

/-!
# Inodes

The functions of `src/fs/inode.c` up to the directories. They work on blocks through the cache, on
inodes in memory, which are spoken of by their addresses, and on the list of those inodes. All of
these are requests, so the code can be run over a plain store as well as between the requests of
other processes.
-/
namespace OsLab.Fs

open OsLab.Lib

/-- `Inode`: an inode in memory. Its sleep lock is taken or free. -/
structure Inode where
  /-- The lock is taken. -/
  locked : Bool
  rc : Int
  inodeNo : Nat
  /-- The entry is loaded. -/
  valid : Bool
  entry : InodeEntry

/-- `init_inode`, and the number that `inode_get` gives the new inode. -/
def Inode.init (inodeNo : Nat) : Inode := ⟨false, 0, inodeNo, false, .zero⟩

/-- The requests of the code that works on inodes. -/
inductive InodeOp where
  /-- A call of the cache, or a panic. -/
  | block (op : BlockOp)
  /-- `_acquire_spinlock(&lock)`. -/
  | lockList
  /-- `_release_spinlock(&lock)`. -/
  | unlockList
  /-- A walk of the list, answered by the addresses in it. -/
  | walkList
  /-- `_insert_into_list(&head,&inode->node)`. -/
  | insertList (inode : Nat)
  /-- `_detach_from_list(&inode->node)`. -/
  | detach (inode : Nat)
  /-- `kalloc(sizeof(Inode))` and `init_inode`, answered by the address. -/
  | kalloc (inodeNo : Nat)
  /-- `kfree(inode)`. -/
  | kfree (inode : Nat)
  | load (inode : Nat)
  /-- Another entry in an inode. -/
  | setEntry (inode : Nat) (entry : InodeEntry)
  /-- `inode->valid=1`. -/
  | setValid (inode : Nat)
  /-- `_increment_rc(&inode->rc)`. -/
  | incrementRc (inode : Nat)
  /-- `_decrement_rc(&inode->rc)`. -/
  | decrementRc (inode : Nat)
  /-- `unalertable_wait_sem(&inode->lock)`. -/
  | wait (inode : Nat)
  /-- `post_sem(&inode->lock)`. -/
  | post (inode : Nat)
  /-- `putc` of each of some bytes. -/
  | putc (bytes : List UInt8)
  /-- The loop of `console_read`, answered by what it copied and the result. -/
  | getc (count : Nat)
  deriving DecidableEq

/-- The answer to a request. -/
def InodeOp.Out : InodeOp → Type
  | .block op => op.Out
  | .walkList => List Nat
  | .kalloc _ => Nat
  | .load _ => Inode
  | .getc _ => List UInt8 × Int
  | _ => Unit

/-- Code that works on inodes. -/
abbrev InodeProg (α : Type) : Type := Prog InodeOp InodeOp.Out α

namespace InodeProg

/-- Code that works on blocks only. -/
def lift {α : Type} (program : BlockProg α) : InodeProg α :=
  program.translate fun op => .request (InodeOp.block op)

/-- `cache->acquire`. -/
def acquire (blockNo : Nat) : InodeProg BlockData := .request (InodeOp.block (.acquire blockNo))

/-- New contents for a block. -/
def store (blockNo : Nat) (data : BlockData) : InodeProg Unit :=
  .request (InodeOp.block (.store blockNo data))

/-- `cache->sync`. -/
def sync (ctx : Ctx) (blockNo : Nat) : InodeProg Unit := .request (InodeOp.block (.sync ctx blockNo))

/-- `cache->release`. -/
def release (blockNo : Nat) : InodeProg Unit := .request (InodeOp.block (.release blockNo))

/-- `PANIC()`. -/
def panic {α : Type} : InodeProg α := .call (.block .panic) Empty.elim

/-- `ASSERT`. -/
def assert (holds : Prop) [Decidable holds] : InodeProg Unit := if holds then pure () else panic

/-- `_acquire_spinlock(&lock)`. -/
def lockList : InodeProg Unit := .request InodeOp.lockList

/-- `_release_spinlock(&lock)`. -/
def unlockList : InodeProg Unit := .request InodeOp.unlockList

/-- A walk of the list. -/
def walkList : InodeProg (List Nat) := .request InodeOp.walkList

/-- `_insert_into_list(&head,&inode->node)`. -/
def insertList (inode : Nat) : InodeProg Unit := .request (InodeOp.insertList inode)

/-- `_detach_from_list(&inode->node)`. -/
def detach (inode : Nat) : InodeProg Unit := .request (InodeOp.detach inode)

/-- `kalloc(sizeof(Inode))` and `init_inode`. -/
def kalloc (inodeNo : Nat) : InodeProg Nat := .request (InodeOp.kalloc inodeNo)

/-- `kfree(inode)`. -/
def kfree (inode : Nat) : InodeProg Unit := .request (InodeOp.kfree inode)

/-- The fields of an inode. -/
def load (inode : Nat) : InodeProg Inode := .request (InodeOp.load inode)

/-- `inode->entry`. -/
def entry (inode : Nat) : InodeProg InodeEntry := return (← load inode).entry

/-- Another entry in an inode. -/
def setEntry (inode : Nat) (entry : InodeEntry) : InodeProg Unit :=
  .request (InodeOp.setEntry inode entry)

/-- `inode->valid=1`. -/
def setValid (inode : Nat) : InodeProg Unit := .request (InodeOp.setValid inode)

/-- `_increment_rc(&inode->rc)`. -/
def incrementRc (inode : Nat) : InodeProg Unit := .request (InodeOp.incrementRc inode)

/-- `_decrement_rc(&inode->rc)`. -/
def decrementRc (inode : Nat) : InodeProg Unit := .request (InodeOp.decrementRc inode)

/-- `unalertable_wait_sem(&inode->lock)`. -/
def wait (inode : Nat) : InodeProg Unit := .request (InodeOp.wait inode)

/-- `post_sem(&inode->lock)`. -/
def post (inode : Nat) : InodeProg Unit := .request (InodeOp.post inode)

/-- `putc` of each of some bytes. -/
def putc (bytes : List UInt8) : InodeProg Unit := .request (InodeOp.putc bytes)

/-- The loop of `console_read`. -/
def getc (count : Nat) : InodeProg (List UInt8 × Int) := .request (InodeOp.getc count)

end InodeProg

open InodeProg

/-- `to_block_no`. -/
def SuperBlock.toBlockNo (sblock : SuperBlock) (inodeNo : Nat) : Nat :=
  sblock.inodeStart + inodeNo / inodePerBlock

section Code

variable (sblock : SuperBlock)

/-- The loop of `inode_alloc`. -/
def inodeAllocLoop (ctx : Ctx) (type : UInt16) : (rounds ino : Nat) → InodeProg Nat
  | 0, _ => panic
  | rounds + 1, ino => do
    let bno := sblock.toBlockNo ino
    let data ← acquire bno
    if (entryAt data (ino % inodePerBlock)).type = inodeInvalid then
      store bno (setEntryAt data (ino % inodePerBlock) { InodeEntry.zero with type })
      sync ctx bno
      release bno
      return ino
    else
      release bno
      inodeAllocLoop ctx type rounds (ino + 1)

/-- `inode_alloc`. -/
def inodeAlloc (ctx : Ctx) (type : UInt16) : InodeProg Nat := do
  assert (type ≠ inodeInvalid)
  inodeAllocLoop sblock ctx type (sblock.numInodes - 1) 1

/-- `inode_lock`. -/
def inodeLock (inode : Nat) : InodeProg Unit := do
  assert ((← load inode).rc > 0)
  wait inode

/-- `inode_unlock`. -/
def inodeUnlock (inode : Nat) : InodeProg Unit := do
  assert ((← load inode).rc > 0)
  post inode

/-- `inode_sync`. -/
def inodeSync (ctx : Ctx) (inode : Nat) (doWrite : Bool) : InodeProg Unit := do
  let now ← load inode
  let blockno := sblock.toBlockNo now.inodeNo
  let index := now.inodeNo % inodePerBlock
  if now.valid && doWrite then
    let data ← acquire blockno
    store blockno (setEntryAt data index now.entry)
    sync ctx blockno
    release blockno
  else if !now.valid then
    let data ← acquire blockno
    setEntry inode (entryAt data index)
    setValid inode
    release blockno

/-- The loop of `inode_get` over the list: the first inode with the number. -/
def inodeFind (inodeNo : Nat) : List Nat → InodeProg (Option Nat)
  | [] => return none
  | p :: rest => do
    if (← load p).inodeNo = inodeNo then return some p else inodeFind inodeNo rest

/-- `inode_get`. -/
def inodeGet (inodeNo : Nat) : InodeProg (Option Nat) := do
  if inodeNo = 0 then return none
  assert (inodeNo < sblock.numInodes)
  lockList
  match ← inodeFind inodeNo (← walkList) with
  | some nowInode =>
    incrementRc nowInode
    unlockList
    return some nowInode
  | none =>
    let newInode ← kalloc inodeNo
    incrementRc newInode
    inodeLock newInode
    inodeSync sblock .null newInode false
    inodeUnlock newInode
    insertList newInode
    unlockList
    return some newInode

/-- `if (addr) cache->free(ctx,addr)`. -/
def freeIf (ctx : Ctx) (addr : Nat) : InodeProg Unit :=
  if addr = 0 then pure () else lift (cacheFree sblock ctx addr)

/-- The loop of `inode_clear` over the addresses of the indirect block. -/
def clearIndirectLoop (ctx : Ctx) (data : BlockData) : (rounds index : Nat) → InodeProg Unit
  | 0, _ => pure ()
  | rounds + 1, index => do
    freeIf sblock ctx (addrAt data index)
    clearIndirectLoop ctx data rounds (index + 1)

/-- The body of the loop of `inode_clear` over the direct addresses. -/
def clearDirect (ctx : Ctx) (inode index : Nat) : InodeProg Unit := do
  let now ← entry inode
  if now.addr index ≠ 0 then
    lift (cacheFree sblock ctx (now.addr index))
    setEntry inode (now.setAddr index 0)

/-- The loop of `inode_clear` over the direct addresses. -/
def clearDirectLoop (ctx : Ctx) (inode : Nat) : (rounds index : Nat) → InodeProg Unit
  | 0, _ => pure ()
  | rounds + 1, index => do
    clearDirect sblock ctx inode index
    clearDirectLoop ctx inode rounds (index + 1)

/-- The part of `inode_clear` that frees the indirect block and the blocks it names. -/
def clearIndirect (ctx : Ctx) (inode : Nat) : InodeProg Unit := do
  let now ← entry inode
  if now.indirect ≠ 0 then
    let data ← acquire now.indirect.toNat
    clearIndirectLoop sblock ctx data inodeNumIndirect 0
    release now.indirect.toNat
    lift (cacheFree sblock ctx now.indirect.toNat)
    setEntry inode { now with indirect := 0 }

/-- `inode_clear`. -/
def inodeClear (ctx : Ctx) (inode : Nat) : InodeProg Unit := do
  clearIndirect sblock ctx inode
  clearDirectLoop sblock ctx inode inodeNumDirect 0
  setEntry inode { ← entry inode with numBytes := 0 }
  inodeSync sblock ctx inode true

/-- `inode_share`. -/
def inodeShare (inode : Nat) : InodeProg Nat := do
  incrementRc inode
  return inode

/-- `inode_put`. -/
def inodePut (ctx : Ctx) (inode : Nat) : InodeProg Unit := do
  wait inode
  decrementRc inode
  let now ← load inode
  if now.rc = 0 ∧ now.entry.numLinks = 0 then
    setEntry inode { now.entry with type := inodeInvalid }
    inodeClear sblock ctx inode
    inodeSync sblock ctx inode true
    lockList
    detach inode
    unlockList
    post inode
    kfree inode
  else post inode

/-- `inode_map` below `INODE_NUM_DIRECT`. -/
def mapDirect (ctx : Ctx) (inode numblock : Nat) : InodeProg (Nat × Bool) := do
  let now ← entry inode
  if now.addr numblock = 0 then
    let blockNo ← lift (cacheAlloc sblock ctx)
    setEntry inode (now.setAddr numblock blockNo)
    inodeSync sblock ctx inode true
    return ((← entry inode).addr numblock, true)
  else return (now.addr numblock, false)

/-- The part of `inode_map` that allocates the indirect block if there is none. -/
def indirectBlock (ctx : Ctx) (inode : Nat) : InodeProg Nat := do
  let now ← entry inode
  if now.indirect = 0 then
    let blockNo ← lift (cacheAlloc sblock ctx)
    setEntry inode { now with indirect := .ofNat blockNo }
    inodeSync sblock ctx inode true
    return (← entry inode).indirect.toNat
  else return now.indirect.toNat

/-- `inode_map` from `INODE_NUM_DIRECT` on. -/
def mapIndirect (ctx : Ctx) (inode numblock : Nat) : InodeProg (Nat × Bool) := do
  let inblock ← indirectBlock sblock ctx inode
  let data ← acquire inblock
  if addrAt data numblock = 0 then
    let blockNo ← lift (cacheAlloc sblock ctx)
    store inblock (setAddrAt data numblock blockNo)
    sync ctx inblock
    release inblock
    return (blockNo % 2 ^ 32, true)
  else
    release inblock
    return (addrAt data numblock, false)

/-- `inode_map`: the block, and whether a block was allocated for it. -/
def inodeMap (ctx : Ctx) (inode offset : Nat) : InodeProg (Nat × Bool) :=
  if offset < inodeNumDirect then mapDirect sblock ctx inode offset
  else mapIndirect sblock ctx inode (offset - inodeNumDirect)

/-- `console_write`. -/
def consoleWrite (inode : Nat) (bytes : List UInt8) : InodeProg Nat := do
  inodeUnlock inode
  putc bytes
  inodeLock inode
  return bytes.length

/-- `console_read`: what it copies, and the result. -/
def consoleRead (inode count : Nat) : InodeProg (List UInt8 × Int) := do
  inodeUnlock inode
  let result ← getc count
  inodeLock inode
  return result

/-- The loop of `inode_read` over the blocks from the one at `i` on: the bytes it copies. -/
def readLoop (inode last : Nat) : (rounds i : Nat) → InodeProg (List UInt8)
  | 0, _ => return []
  | rounds + 1, i => do
    if i < last then
      let (bno, _) ← inodeMap sblock .null inode (i / blockSize)
      let data ← acquire bno
      let len := min (blockSize - i % blockSize) (last - i)
      release bno
      let rest ← readLoop inode last rounds ((i / blockSize + 1) * blockSize)
      return (List.range len).map (fun byte => data.get (i % blockSize + byte)) ++ rest
    else return []

/-- `inode_read`: the bytes it copies, and the result. The sums are taken in 64 bits. -/
def inodeRead (inode offset count : Nat) : InodeProg (List UInt8 × Int) := do
  let now ← entry inode
  if now.type = inodeDevice then
    assert (now.major = 1)
    consoleRead inode count
  else
    let size := now.numBytes.toNat
    let count := if (count + offset) % 2 ^ 64 > size then (size + 2 ^ 64 - offset) % 2 ^ 64 else count
    let last := (offset + count) % 2 ^ 64
    assert (offset ≤ size)
    assert (last ≤ size)
    assert (offset ≤ last)
    let bytes ← readLoop sblock inode last (last - offset) offset
    return (bytes, count)

/-- The loop of `inode_write` over the blocks from the one at `i` on. -/
def writeLoop (ctx : Ctx) (inode last : Nat) : (rounds i : Nat) → List UInt8 → InodeProg Unit
  | 0, _, _ => pure ()
  | rounds + 1, i, src => do
    if i < last then
      let (bno, _) ← inodeMap sblock ctx inode (i / blockSize)
      let data ← acquire bno
      let len := min (blockSize - i % blockSize) (last - i)
      store bno (data.blit (i % blockSize) len fun byte => src.getD byte 0)
      sync ctx bno
      release bno
      writeLoop ctx inode last rounds ((i / blockSize + 1) * blockSize) (src.drop len)

/-- The part of `inode_write` that makes the file longer. -/
def extend (ctx : Ctx) (inode last : Nat) : InodeProg Unit := do
  let now ← entry inode
  if now.numBytes.toNat < last then
    setEntry inode { now with numBytes := .ofNat last }
    inodeSync sblock ctx inode true

/-- `inode_write` of all of `src`. The sum is taken in 64 bits. -/
def inodeWrite (ctx : Ctx) (inode : Nat) (src : List UInt8) (offset : Nat) : InodeProg Nat := do
  let now ← entry inode
  let last := (offset + src.length) % 2 ^ 64
  if now.type = inodeDevice then
    assert (now.major = 1)
    consoleWrite inode src
  else
    assert (offset ≤ now.numBytes.toNat)
    assert (last ≤ inodeMaxBytes)
    assert (offset ≤ last)
    extend sblock ctx inode last
    writeLoop sblock ctx inode last (last - offset) offset src
    return src.length

end Code

end OsLab.Fs
