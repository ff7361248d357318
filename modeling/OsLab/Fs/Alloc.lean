import OsLab.Lib.Program
import OsLab.Fs.Defines

/-!
# The allocation of blocks

`cache_alloc` and `cache_free` of `src/fs/cache.c`. They use the blocks of the bitmap like any
other client of the cache, so they are programs over its calls: the same code runs over the
cache and its log, and over a plain store of blocks. A block is spoken of by its number; a
client holds at most one block of a number.
-/
namespace OsLab.Fs

open OsLab.Lib

/-- The context of a call: the one of the operation of the caller, or a null pointer. -/
inductive Ctx where
  /-- `&ctx`. -/
  | op
  /-- `NULL`. -/
  | null
  deriving Repr, DecidableEq

/-- The calls of the code that works on blocks. -/
inductive BlockOp where
  /-- `cache->acquire`, answered by the contents of the block. -/
  | acquire (blockNo : Nat)
  /-- New contents for a block that was acquired. -/
  | store (blockNo : Nat) (data : BlockData)
  /-- `cache->sync`. -/
  | sync (ctx : Ctx) (blockNo : Nat)
  /-- `cache->release`. -/
  | release (blockNo : Nat)
  /-- `_acquire_spinlock(&bitmaplock)`. -/
  | lockBitmap
  /-- `_release_spinlock(&bitmaplock)`. -/
  | unlockBitmap
  /-- `PANIC()` or a failed `ASSERT`. -/
  | panic
  /-- An `int` overflows, after which C says nothing about the run. -/
  | overflow
  deriving DecidableEq

/-- The answer to a call. -/
def BlockOp.Out : BlockOp → Type
  | .acquire _ => BlockData
  | .panic | .overflow => Empty
  | _ => Unit

/-- The block that a call hands to `cache->sync`. -/
def BlockOp.synced : BlockOp → Option Nat
  | .sync _ blockNo => some blockNo
  | _ => none

/-- Code that works on blocks. -/
abbrev BlockProg (α : Type) : Type := Prog BlockOp BlockOp.Out α

/-! ## Bitmaps -/

/-- `BIT_PER_BLOCK`. -/
def bitPerBlock : Nat := blockSize * 8

/-- The bit of a byte that `1<<i` selects is set. -/
def bitSet (byte : UInt8) (i : Nat) : Bool := byte.toBitVec.getLsbD i

/-- `byte|=(1<<i)`. -/
def markBit (byte : UInt8) (i : Nat) : UInt8 := .ofBitVec (byte.toBitVec ||| .twoPow 8 i)

/-- `byte-=(1<<i)`, in eight bits. -/
def clearBit (byte : UInt8) (i : Nat) : UInt8 := .ofBitVec (byte.toBitVec - .twoPow 8 i)

/-- Marking a bit sets it and leaves the other bits of its byte. -/
theorem bitSet_markBit (byte : UInt8) (i : Nat) {j : Nat} (jBit : j < 8) :
    bitSet (markBit byte i) j = (decide (i = j) || bitSet byte j) := by
  simp only [bitSet, markBit, BitVec.getLsbD_or, BitVec.getLsbD_twoPow]
  by_cases same : i = j
  · simp [same, jBit]
  · simp [same]

/-- Subtracting a bit that is set is the same as flipping it. -/
theorem sub_twoPow {bits : BitVec 8} {i : Nat} (set : bits.getLsbD i = true) :
    bits - .twoPow 8 i = bits ^^^ .twoPow 8 i := by
  have rejoined : (bits ^^^ .twoPow 8 i) + .twoPow 8 i = bits := by
    rw [BitVec.add_eq_or_of_and_eq_zero]
    · ext k inside
      by_cases same : k = i
      · subst same
        simp_all
      · simp [same]
    · ext k inside
      by_cases same : k = i
      · subst same
        simp_all
      · simp [same]
  exact BitVec.sub_eq_iff_eq_add.mpr rejoined.symm

/-- Subtracting a bit that is set clears it and leaves the other bits of its byte. -/
theorem bitSet_clearBit {byte : UInt8} {i j : Nat} (jBit : j < 8) (set : bitSet byte i = true) :
    bitSet (clearBit byte i) j = (decide (i ≠ j) && bitSet byte j) := by
  simp only [bitSet] at set
  simp only [bitSet, clearBit, sub_twoPow set, BitVec.getLsbD_xor, BitVec.getLsbD_twoPow]
  by_cases same : i = j
  · subst same
    simp [set, jBit]
  · simp [same]

/-- The bit of a bitmap block for the block at `index` among those it describes. -/
def marked (data : BlockData) (index : Nat) : Bool := bitSet (data.get (index / 8)) (index % 8)

/-- Change one byte of a block. -/
def changeByte (data : BlockData) (add : Nat) (change : UInt8 → UInt8) : BlockData :=
  data.set add (change (data.get add))

/-- A bit in another byte stays. -/
theorem marked_changeByte_of_ne {data : BlockData} {add index : Nat} {change : UInt8 → UInt8}
    (inside : index < bitPerBlock) (other : index / 8 ≠ add) :
    marked (changeByte data add change) index = marked data index := by
  have byte : index / 8 < blockSize := Nat.div_lt_of_lt_mul (Nat.mul_comm _ _ ▸ inside)
  rw [marked, changeByte, Bytes.get_set byte, if_neg other, marked]

/-- A bit in the byte that is changed. -/
theorem marked_changeByte {data : BlockData} {index : Nat} {change : UInt8 → UInt8}
    (inside : index < bitPerBlock) :
    marked (changeByte data (index / 8) change) index =
      bitSet (change (data.get (index / 8))) (index % 8) := by
  have byte : index / 8 < blockSize := Nat.div_lt_of_lt_mul (Nat.mul_comm _ _ ▸ inside)
  rw [marked, changeByte, Bytes.get_set byte, if_pos rfl]

/-- Marking a bit of a bitmap block. -/
theorem marked_markBit {data : BlockData} {index other : Nat} (inside : other < bitPerBlock) :
    marked (changeByte data (index / 8) (markBit · (index % 8))) other =
      (decide (index = other) || marked data other) := by
  by_cases byte : other / 8 = index / 8
  · rw [← byte, marked_changeByte inside, bitSet_markBit _ _ (Nat.mod_lt _ (by decide)), marked]
    congr 2
    exact propext ⟨fun bit => by omega, fun same => by rw [same]⟩
  · rw [marked_changeByte_of_ne inside byte, decide_eq_false (fun same => byte (by rw [same])),
      Bool.false_or]

/-- Subtracting a bit of a bitmap block that is set. -/
theorem marked_clearBit {data : BlockData} {index other : Nat} (inside : other < bitPerBlock)
    (set : marked data index = true) :
    marked (changeByte data (index / 8) (clearBit · (index % 8))) other =
      (decide (index ≠ other) && marked data other) := by
  by_cases byte : other / 8 = index / 8
  · rw [← byte, marked_changeByte inside, byte, bitSet_clearBit (Nat.mod_lt _ (by decide)) set,
      marked, byte]
    congr 2
    exact propext ⟨fun bit same => bit (by rw [same]), fun different bit => different (by omega)⟩
  · have different : index ≠ other := fun same => byte (by rw [same])
    rw [marked_changeByte_of_ne inside byte, decide_eq_true different, Bool.true_and]

/-! ## The code -/

namespace BlockProg

/-- `cache->acquire`. -/
def acquire (blockNo : Nat) : BlockProg BlockData := .request (BlockOp.acquire blockNo)

/-- New contents for a block. -/
def store (blockNo : Nat) (data : BlockData) : BlockProg Unit :=
  .request (BlockOp.store blockNo data)

/-- `cache->sync`. -/
def sync (ctx : Ctx) (blockNo : Nat) : BlockProg Unit := .request (BlockOp.sync ctx blockNo)

/-- `cache->release`. -/
def release (blockNo : Nat) : BlockProg Unit := .request (BlockOp.release blockNo)

/-- `_acquire_spinlock(&bitmaplock)`. -/
def lockBitmap : BlockProg Unit := .request BlockOp.lockBitmap

/-- `_release_spinlock(&bitmaplock)`. -/
def unlockBitmap : BlockProg Unit := .request BlockOp.unlockBitmap

/-- `PANIC()`. -/
def panic {α : Type} : BlockProg α := .call .panic Empty.elim

/-- An `int` overflows. -/
def overflow {α : Type} : BlockProg α := .call .overflow Empty.elim

section Run

variable {σ : Type} (handle : Prog.Handler BlockOp BlockOp.Out σ) (s : σ)

theorem run_acquire (blockNo : Nat) :
    (acquire blockNo).run handle s = handle (.acquire blockNo) s :=
  Prog.run_request handle _ s

theorem run_store (blockNo : Nat) (data : BlockData) :
    (store blockNo data).run handle s = handle (.store blockNo data) s :=
  Prog.run_request handle _ s

theorem run_sync (ctx : Ctx) (blockNo : Nat) :
    (sync ctx blockNo).run handle s = handle (.sync ctx blockNo) s :=
  Prog.run_request handle _ s

theorem run_release (blockNo : Nat) :
    (release blockNo).run handle s = handle (.release blockNo) s :=
  Prog.run_request handle _ s

theorem run_lockBitmap : lockBitmap.run handle s = handle .lockBitmap s :=
  Prog.run_request handle _ s

theorem run_unlockBitmap : unlockBitmap.run handle s = handle .unlockBitmap s :=
  Prog.run_request handle _ s

end Run

end BlockProg

open BlockProg

/-- `(int)sblock->num_blocks`, as the bound of the loops of `cache_alloc`: they do not run where
it is negative. -/
def SuperBlock.allocLimit (sblock : SuperBlock) : Nat :=
  if sblock.numBlocks < 2 ^ 31 then sblock.numBlocks else 0

/-- The bitmap block that `cache_alloc` acquires for the blocks from `blockstart` on. The sum is
taken in 32 bits. -/
def SuperBlock.allocBlock (sblock : SuperBlock) (blockstart : Nat) : Nat :=
  (sblock.bitmapStart + blockstart / bitPerBlock) % 2 ^ 32

/-- The bitmap block that `cache_free` acquires for a block. The sum is taken in 64 bits. -/
def SuperBlock.freeBlock (sblock : SuperBlock) (blockNo : Nat) : Nat :=
  (sblock.bitmapStart + blockNo / bitPerBlock) % 2 ^ 64

/-- The two inner loops of `cache_alloc`: the first bit that is clear, as a byte and a bit in
it, among those of the blocks from `blockstart` on and below `limit`. -/
@[irreducible] def findClear (limit blockstart : Nat) (data : BlockData) : Option (Nat × Nat) :=
  (List.range blockSize).findSome? fun add =>
    (List.range 8).findSome? fun i =>
      if blockstart + add * 8 + i < limit ∧ bitSet (data.get add) i = false then some (add, i)
      else none

/-- The loop of `cache_alloc` over the blocks of the bitmap, from the one for `blockstart` on.
`blockstart` is an `int`. -/
def allocLoop (sblock : SuperBlock) (ctx : Ctx) : (rounds blockstart : Nat) → BlockProg Nat
  | 0, _ => do
    unlockBitmap
    panic
  | rounds + 1, blockstart => do
    let mp := sblock.allocBlock blockstart
    let data ← acquire mp
    match findClear sblock.allocLimit blockstart data with
    | some (add, i) =>
      store mp (changeByte data add (markBit · i))
      sync ctx mp
      release mp
      let ans := blockstart + add * 8 + i
      let _ ← acquire ans
      store ans .zero
      sync ctx ans
      release ans
      unlockBitmap
      return ans
    | none =>
      release mp
      if blockstart + bitPerBlock < 2 ^ 31 then
        allocLoop sblock ctx rounds (blockstart + bitPerBlock)
      else overflow

/-- `cache_alloc`. -/
def cacheAlloc (sblock : SuperBlock) (ctx : Ctx) : BlockProg Nat := do
  lockBitmap
  allocLoop sblock ctx ((sblock.allocLimit + bitPerBlock - 1) / bitPerBlock) 0

/-- `cache_free`. -/
def cacheFree (sblock : SuperBlock) (ctx : Ctx) (blockNo : Nat) : BlockProg Unit := do
  lockBitmap
  let mp := sblock.freeBlock blockNo
  let data ← acquire mp
  let idx := blockNo % bitPerBlock
  store mp (changeByte data (idx / 8) (clearBit · (idx % 8)))
  sync ctx mp
  release mp
  unlockBitmap

end OsLab.Fs
