import OsLab.Lib.Bytes

/-!
# On-disk representations

`src/fs/defines.h`, the constants of `src/fs/cache.h`, and the super block that
`src/user/mkfs/main.c` writes. Block numbers and counters are natural numbers; where a field
of fixed width is stored on disk, its encoding reduces it to that width.
-/
namespace OsLab.Fs

open OsLab.Lib

/-- `BLOCK_SIZE`. -/
def blockSize : Nat := 512

/-- `sizeof(usize)`. -/
def usizeBytes : Nat := 8

/-- `LOG_MAX_SIZE`: how many block numbers the log header can record. -/
def logMaxSize : Nat := (blockSize - usizeBytes) / usizeBytes

/-- `OP_MAX_NUM_BLOCKS`: how many distinct blocks one atomic operation can hold. -/
def opMaxNumBlocks : Nat := 10

/-- `EVICTION_THRESHOLD`. -/
def evictionThreshold : Nat := 20

/-- The contents of one block. -/
abbrev BlockData : Type := Bytes blockSize

/-- What the device holds, by block number. -/
abbrev Disk : Type := Nat → BlockData

/-- `SuperBlock`: the layout of the disk. -/
structure SuperBlock where
  /-- Total number of blocks in the file system. -/
  numBlocks : Nat
  numDataBlocks : Nat
  numInodes : Nat
  /-- Number of blocks for logging, including the log header. -/
  numLogBlocks : Nat
  /-- The first block of the logging area. -/
  logStart : Nat
  /-- The first block of the inode area. -/
  inodeStart : Nat
  /-- The first block of the bitmap area. -/
  bitmapStart : Nat
  deriving Repr, DecidableEq

namespace SuperBlock

/-- `sblock->log_start+i+1` in `cache_end_op`: where the log keeps its copy of the block named
at `index`. The sum is taken in 32 bits. -/
def logBlock (sblock : SuperBlock) (index : Nat) : Nat := (sblock.logStart + index + 1) % 2 ^ 32

/-- A layout with a header block and with the logging area below the limit of its numbers. -/
structure LogFits (sblock : SuperBlock) : Prop where
  header : 1 ≤ sblock.numLogBlocks
  narrow : sblock.logStart + sblock.numLogBlocks ≤ 2 ^ 32

/-- Inside the area the copies follow the header block. -/
theorem LogFits.logBlock_eq {sblock : SuperBlock} (fits : sblock.LogFits) {index : Nat}
    (inside : index + 1 < sblock.numLogBlocks) :
    sblock.logBlock index = sblock.logStart + index + 1 := by
  have narrow := fits.narrow
  exact Nat.mod_eq_of_lt (by omega)

end SuperBlock

/-- `sizeof(InodeEntry)`. -/
def inodeEntryBytes : Nat := 64

/-- `FSSIZE`, the size of the image `mkfs` writes. -/
def fsSize : Nat := 1000

/-- `NINODES` of `mkfs`. -/
def nInodes : Nat := 200

/-- The super block of `mkfs`, from its `num_log_blocks`, `ninodeblocks` and `nbitmap`. -/
def mkfsSuperBlock : SuperBlock :=
  let numLogBlocks := logMaxSize
  let ninodeblocks := nInodes / (blockSize / inodeEntryBytes) + 1
  let nbitmap := fsSize / (blockSize * 8) + 1
  let nmeta := 2 + numLogBlocks + ninodeblocks + nbitmap
  { numBlocks := fsSize
    numDataBlocks := fsSize - nmeta
    numInodes := nInodes
    numLogBlocks
    logStart := 2
    inodeStart := 2 + numLogBlocks
    bitmapStart := 2 + numLogBlocks + ninodeblocks }

/-- `LogHeader`: the number of blocks recorded and the array of their numbers. -/
structure LogHeader where
  /-- How many entries of the array are in use. -/
  numBlocks : Nat
  /-- The array of block numbers. -/
  blockNo : Fin logMaxSize → Nat

namespace LogHeader

/-- The header of an empty log. -/
def empty : LogHeader := ⟨0, fun _ => 0⟩

/-- `header.block_no[index]`. -/
def entry (header : LogHeader) (index : Nat) : Nat :=
  if inside : index < logMaxSize then header.blockNo ⟨index, inside⟩ else 0

/-- The block numbers the header records, in order. -/
def named (header : LogHeader) : List Nat := (List.range header.numBlocks).map header.entry

/-- `header.block_no[header.num_blocks++]=block_no`. -/
def push (header : LogHeader) (blockNo : Nat) : LogHeader :=
  { numBlocks := header.numBlocks + 1
    blockNo := fun index => if index.val = header.numBlocks then blockNo
      else header.blockNo index }

/-- `header.num_blocks=0`; the array keeps its contents. -/
def reset (header : LogHeader) : LogHeader := { header with numBlocks := 0 }

@[simp] theorem reset_numBlocks (header : LogHeader) : header.reset.numBlocks = 0 := rfl

@[simp] theorem push_numBlocks (header : LogHeader) (blockNo : Nat) :
    (header.push blockNo).numBlocks = header.numBlocks + 1 := rfl

@[simp] theorem reset_named (header : LogHeader) : header.reset.named = [] := rfl

/-- Recording a block where there is room appends its number. -/
theorem named_push {header : LogHeader} {blockNo : Nat} (room : header.numBlocks < logMaxSize) :
    (header.push blockNo).named = header.named ++ [blockNo] := by
  simp only [named, push, List.range_succ, List.map_append, List.map_cons, List.map_nil]
  congr 1
  · apply List.map_congr_left
    intro index used
    have below : index < header.numBlocks := List.mem_range.mp used
    simp only [entry]
    rw [dif_pos (by omega), dif_pos (by omega), if_neg (by omega)]
  · simp [entry, room]

end LogHeader

end OsLab.Fs
