import OsLab.Fs.Defines
import Mathlib.Logic.Function.Basic

/-!
# Inodes and directory entries on disk

`InodeEntry`, `IndirectBlock` and `DirEntry` of `src/fs/defines.h`, as records of fields of fixed
width, and where they stand in the bytes of a block.
-/
namespace OsLab.Fs

open OsLab.Lib

/-- `INODE_NUM_DIRECT`. -/
def inodeNumDirect : Nat := 12

/-- `INODE_NUM_INDIRECT`. -/
def inodeNumIndirect : Nat := blockSize / 4

/-- `INODE_PER_BLOCK`. -/
def inodePerBlock : Nat := blockSize / inodeEntryBytes

/-- `INODE_MAX_BLOCKS`. -/
def inodeMaxBlocks : Nat := inodeNumDirect + inodeNumIndirect

/-- `INODE_MAX_BYTES`. -/
def inodeMaxBytes : Nat := inodeMaxBlocks * blockSize

/-- `FILE_NAME_MAX_LENGTH`. -/
def fileNameMaxLength : Nat := 14

/-- `ROOT_INODE_NO`. -/
def rootInodeNo : Nat := 1

/-- `INODE_INVALID`. -/
def inodeInvalid : UInt16 := 0

/-- `INODE_DIRECTORY`. -/
def inodeDirectory : UInt16 := 1

/-- `INODE_REGULAR`. -/
def inodeRegular : UInt16 := 2

/-- `INODE_DEVICE`. -/
def inodeDevice : UInt16 := 3

/-- `InodeEntry`. -/
structure InodeEntry where
  /-- The type of the inode; `INODE_INVALID` where it is free. -/
  type : UInt16
  major : UInt16
  minor : UInt16
  numLinks : UInt16
  numBytes : UInt32
  addrs : Fin inodeNumDirect → UInt32
  /-- The block of indirect addresses. -/
  indirect : UInt32
  deriving DecidableEq

namespace InodeEntry

/-- `memset(entry,0,sizeof(InodeEntry))`. -/
def zero : InodeEntry := ⟨0, 0, 0, 0, 0, fun _ => 0, 0⟩

/-- A direct address; zero outside the array. -/
def addr (entry : InodeEntry) (index : Nat) : Nat :=
  if inside : index < inodeNumDirect then (entry.addrs ⟨index, inside⟩).toNat else 0

/-- `entry.addrs[index]=blockNo`, in 32 bits. -/
def setAddr (entry : InodeEntry) (index blockNo : Nat) : InodeEntry :=
  { entry with addrs := fun other =>
      if other.val = index then UInt32.ofNat blockNo else entry.addrs other }

/-- The bytes of an entry. -/
def bytes (entry : InodeEntry) (position : Nat) : UInt8 :=
  if position < 2 then digit entry.type.toNat position
  else if position < 4 then digit entry.major.toNat (position - 2)
  else if position < 6 then digit entry.minor.toNat (position - 4)
  else if position < 8 then digit entry.numLinks.toNat (position - 6)
  else if position < 12 then digit entry.numBytes.toNat (position - 8)
  else if position < 60 then digit (entry.addr ((position - 12) / 4)) ((position - 12) % 4)
  else digit entry.indirect.toNat (position - 60)

/-- The entry that stands in some bytes. -/
def ofBytes (source : Nat → UInt8) : InodeEntry where
  type := .ofNat (word 2 source)
  major := .ofNat (word 2 fun byte => source (2 + byte))
  minor := .ofNat (word 2 fun byte => source (4 + byte))
  numLinks := .ofNat (word 2 fun byte => source (6 + byte))
  numBytes := .ofNat (word 4 fun byte => source (8 + byte))
  addrs index := .ofNat (word 4 fun byte => source (12 + 4 * index.val + byte))
  indirect := .ofNat (word 4 fun byte => source (60 + byte))

/-- An entry depends on its own bytes. -/
theorem ofBytes_congr {left right : Nat → UInt8}
    (agree : ∀ position, position < inodeEntryBytes → left position = right position) :
    ofBytes left = ofBytes right := by
  simp only [inodeEntryBytes] at agree
  simp only [ofBytes, mk.injEq]
  refine ⟨?_, ?_, ?_, ?_, ?_, funext fun index => ?_, ?_⟩
  all_goals
    congr 1
    refine word_congr fun byte below => agree _ ?_
  all_goals first | omega | skip
  have := index.isLt
  unfold inodeNumDirect at this
  omega

/-- The entry written in some bytes is read back. -/
theorem ofBytes_bytes (entry : InodeEntry) : ofBytes entry.bytes = entry := by
  have short : ∀ (value : UInt16) (f : Nat → UInt8),
      (∀ byte, byte < 2 → f byte = digit value.toNat byte) → UInt16.ofNat (word 2 f) = value := by
    intro value f same
    rw [word_congr same, word_digit, show 256 ^ 2 = 2 ^ 16 from rfl,
      Nat.mod_eq_of_lt value.toNat_lt, UInt16.ofNat_toNat]
  have long : ∀ (value : UInt32) (f : Nat → UInt8),
      (∀ byte, byte < 4 → f byte = digit value.toNat byte) → UInt32.ofNat (word 4 f) = value := by
    intro value f same
    rw [word_congr same, word_digit, show 256 ^ 4 = 2 ^ 32 from rfl,
      Nat.mod_eq_of_lt value.toNat_lt, UInt32.ofNat_toNat]
  obtain ⟨type, major, minor, numLinks, numBytes, addrs, indirect⟩ := entry
  simp only [ofBytes, mk.injEq]
  refine ⟨short _ _ ?_, short _ _ ?_, short _ _ ?_, short _ _ ?_, long _ _ ?_,
    funext fun index => long _ _ ?_, long _ _ ?_⟩ <;> intro byte below
  · simp [bytes, below]
  · simp [bytes, show ¬2 + byte < 2 by omega, show 2 + byte < 4 by omega]
  · simp [bytes, show ¬4 + byte < 2 by omega, show ¬4 + byte < 4 by omega,
      show 4 + byte < 6 by omega]
  · simp [bytes, show ¬6 + byte < 2 by omega, show ¬6 + byte < 4 by omega,
      show ¬6 + byte < 6 by omega, show 6 + byte < 8 by omega]
  · simp [bytes, show ¬8 + byte < 2 by omega, show ¬8 + byte < 4 by omega,
      show ¬8 + byte < 6 by omega, show ¬8 + byte < 8 by omega, show 8 + byte < 12 by omega]
  · have inside := index.isLt
    have last : index.val < 12 := inside
    have place : (12 + 4 * index.val + byte - 12) / 4 = index.val := by omega
    rw [bytes, if_neg (by omega), if_neg (by omega), if_neg (by omega), if_neg (by omega),
      if_neg (by omega), if_pos (by omega), place, show (12 + 4 * index.val + byte - 12) % 4 = byte by
        omega]
    simp [addr, inside]
  · rw [bytes, if_neg (by omega), if_neg (by omega), if_neg (by omega), if_neg (by omega),
      if_neg (by omega), if_neg (by omega), Nat.add_sub_cancel_left]

@[simp] theorem addr_setAddr (entry : InodeEntry) {index other blockNo : Nat}
    (inside : index < inodeNumDirect) (narrow : blockNo < 2 ^ 32) :
    (entry.setAddr index blockNo).addr other =
      if other = index then blockNo else entry.addr other := by
  simp only [addr, setAddr]
  by_cases same : other = index
  · subst same
    simp only [inside, dif_pos, if_true, UInt32.toNat_ofNat']
    exact Nat.mod_eq_of_lt narrow
  · simp [same]

end InodeEntry

/-- The entry at an index of an inode block. -/
def entryAt (data : BlockData) (index : Nat) : InodeEntry :=
  .ofBytes fun position => data.get (inodeEntryBytes * index + position)

/-- Another entry at an index of an inode block. -/
def setEntryAt (data : BlockData) (index : Nat) (entry : InodeEntry) : BlockData :=
  data.blit (inodeEntryBytes * index) inodeEntryBytes entry.bytes

/-- Entries read back; the others of the block stay. -/
theorem entryAt_setEntryAt {data : BlockData} {index other : Nat} {entry : InodeEntry}
    (inside : index < inodePerBlock) (otherInside : other < inodePerBlock) :
    entryAt (setEntryAt data index entry) other =
      if other = index then entry else entryAt data other := by
  have size : inodePerBlock = 8 := rfl
  have block : blockSize = 512 := rfl
  simp only [entryAt, setEntryAt, show inodeEntryBytes = 64 from rfl]
  by_cases same : other = index
  · subst same
    rw [if_pos rfl, ← entry.ofBytes_bytes]
    refine InodeEntry.ofBytes_congr fun position below => ?_
    simp only [show inodeEntryBytes = 64 from rfl] at below
    rw [Bytes.get_blit (by omega), if_pos (by omega), Nat.add_sub_cancel_left,
      entry.ofBytes_bytes]
  · rw [if_neg same]
    refine InodeEntry.ofBytes_congr fun position below => ?_
    simp only [show inodeEntryBytes = 64 from rfl] at below
    rw [Bytes.get_blit (by omega), if_neg (by omega)]

/-! ## Indirect blocks -/

/-- `addrs[index]` of an indirect block. -/
def addrAt (data : BlockData) (index : Nat) : Nat := data.peek (4 * index) 4

/-- `addrs[index]=blockNo`, in 32 bits. -/
def setAddrAt (data : BlockData) (index blockNo : Nat) : BlockData :=
  data.blit (4 * index) 4 (digit blockNo)

/-- Addresses read back; the others of the block stay. -/
theorem addrAt_setAddrAt {data : BlockData} {index other blockNo : Nat}
    (inside : index < inodeNumIndirect) (otherInside : other < inodeNumIndirect)
    (narrow : blockNo < 2 ^ 32) :
    addrAt (setAddrAt data index blockNo) other =
      if other = index then blockNo else addrAt data other := by
  have size : inodeNumIndirect = 128 := rfl
  have block : blockSize = 512 := rfl
  by_cases same : other = index
  · subst same
    rw [if_pos rfl, addrAt, setAddrAt, Bytes.peek_blit_digit (by omega)]
    exact Nat.mod_eq_of_lt narrow
  · rw [if_neg same, addrAt, setAddrAt, Bytes.peek_blit_of_disjoint (by omega) (by omega)]
    rfl

@[simp] theorem addrAt_zero (index : Nat) : addrAt .zero index = 0 := by simp [addrAt]

/-- Outside the block there are no addresses. -/
theorem addrAt_outside {index : Nat} (data : BlockData) (outside : inodeNumIndirect ≤ index) :
    addrAt data index = 0 := by
  have size : inodeNumIndirect = 128 := rfl
  have block : blockSize = 512 := rfl
  rw [addrAt, Bytes.peek, word_congr fun byte _ => Bytes.get_outside (by omega)]
  rfl

end OsLab.Fs
