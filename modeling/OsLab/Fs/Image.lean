import OsLab.Lib.Ownership
import OsLab.Fs.BlockAllocator
import OsLab.Fs.Inode
import Mathlib.Data.Finset.Card
import Mathlib.Data.Finset.Range
import Mathlib.Order.Interval.Finset.Nat

/-!
# The image of a file system

What the blocks of a store mean: which block each inode has at each place for one, which blocks are
marked, and the bytes of the files. In a consistent image the marked data blocks are those that
inodes have, each of them once. Allocating a block for a place that has none, writing to a block of
a file and freeing all blocks of an inode keep the image consistent.
-/
namespace OsLab.Fs

open OsLab.Lib

/-- A place of an inode for the number of a block. -/
inductive Slot where
  /-- `addrs[i]`. -/
  | direct (i : Nat)
  | indirect
  /-- `addrs[j]` of the indirect block. -/
  | entry (j : Nat)
  deriving Repr, DecidableEq

/-- The place for a block of the file. -/
def Slot.ofBlock (k : Nat) : Slot :=
  if k < inodeNumDirect then .direct k else .entry (k - inodeNumDirect)

theorem Slot.ofBlock_inj {k l : Nat} (same : Slot.ofBlock k = .ofBlock l) : k = l := by
  unfold Slot.ofBlock at same
  split at same <;> split at same <;> simp only [Slot.direct.injEq, Slot.entry.injEq,
    reduceCtorEq] at same
  · exact same
  · omega

theorem Slot.ofBlock_ne_indirect (k : Nat) : Slot.ofBlock k ≠ .indirect := by
  unfold Slot.ofBlock
  split <;> simp

/-- An entry without its addresses. -/
def InodeEntry.plain (entry : InodeEntry) : InodeEntry :=
  { entry with addrs := fun _ => 0, indirect := 0 }

theorem InodeEntry.plain_setAddr (entry : InodeEntry) (i blockNo : Nat) :
    (entry.setAddr i blockNo).plain = entry.plain := rfl

/-- The first data block. -/
def SuperBlock.dataStart (sblock : SuperBlock) : Nat := sblock.numBlocks - sblock.numDataBlocks

/-- The areas of the disk: the bitmap and the inodes are before the data blocks, and apart. -/
structure SuperBlock.Layout (sblock : SuperBlock) : Prop where
  narrow : sblock.numBlocks < 2 ^ 32
  nonempty : 0 < sblock.numBlocks
  bitmap : ∀ blockNo, sblock.InBitmap blockNo → blockNo < sblock.dataStart
  inodes : ∀ ino, ino < sblock.numInodes → sblock.toBlockNo ino < sblock.dataStart
  apart : ∀ ino, ino < sblock.numInodes → ¬ sblock.InBitmap (sblock.toBlockNo ino)

namespace SuperBlock.Layout

variable {sblock : SuperBlock} (layout : sblock.Layout)

include layout

omit layout in
theorem dataStart_le : sblock.dataStart ≤ sblock.numBlocks := Nat.sub_le ..

/-- The blocks of the bitmap. -/
theorem bitmap_fits : sblock.bitmapStart + sblock.numBlocks / bitPerBlock < 2 ^ 32 := by
  have size : bitPerBlock = 4096 := rfl
  have nonempty := layout.nonempty
  have narrow := layout.narrow
  have inside : sblock.dataStart ≤ sblock.numBlocks := dataStart_le
  have last := layout.bitmap
    (sblock.bitmapStart + (sblock.numBlocks + bitPerBlock - 1) / bitPerBlock - 1)
    ⟨by rw [size]; omega, by rw [size]; omega⟩
  rw [size] at last ⊢
  omega

/-- Block 0 is no data block. -/
theorem dataStart_pos : 0 < sblock.dataStart := by
  have size : bitPerBlock = 4096 := rfl
  have nonempty := layout.nonempty
  exact Nat.lt_of_le_of_lt (Nat.zero_le _)
    (layout.bitmap sblock.bitmapStart ⟨Nat.le_refl _, by rw [size]; omega⟩)

/-- The mark of a block is in the bitmap. -/
theorem freeBlock_inBitmap {blockNo : Nat} (onDisk : blockNo < sblock.numBlocks) :
    sblock.InBitmap (sblock.freeBlock blockNo) :=
  Allocator.inBitmap_freeBlock layout.bitmap_fits onDisk

theorem freeBlock_lt {blockNo : Nat} (onDisk : blockNo < sblock.numBlocks) :
    sblock.freeBlock blockNo < sblock.dataStart :=
  layout.bitmap _ (layout.freeBlock_inBitmap onDisk)

theorem toBlockNo_ne_freeBlock {ino blockNo : Nat} (inside : ino < sblock.numInodes)
    (onDisk : blockNo < sblock.numBlocks) : sblock.toBlockNo ino ≠ sblock.freeBlock blockNo :=
  fun same => layout.apart ino inside (same ▸ layout.freeBlock_inBitmap onDisk)

end SuperBlock.Layout

/-! ## Who has which block -/

namespace Store

/-- The entry of an inode on disk. -/
@[irreducible] def inodeEntry (sblock : SuperBlock) (s : Store) (ino : Nat) : InodeEntry :=
  entryAt (s.blocks (sblock.toBlockNo ino)) (ino % inodePerBlock)

/-- The number at a place of an inode, and zero where there is none. -/
def address (s : Store) (entry : InodeEntry) : Slot → Nat
  | .direct i => entry.addr i
  | .indirect => entry.indirect.toNat
  | .entry j => if entry.indirect = 0 then 0 else addrAt (s.blocks entry.indirect.toNat) j

/-- The block that an inode with an entry has at a place. An inode that is free has none. -/
def has (s : Store) (entry : InodeEntry) (slot : Slot) : Option Nat :=
  if entry.type ≠ inodeInvalid ∧ s.address entry slot ≠ 0 then some (s.address entry slot) else none

/-- The block that an inode has at a place. -/
def own (sblock : SuperBlock) (s : Store) (place : Nat × Slot) : Option Nat :=
  if place.1 < sblock.numInodes then s.has (s.inodeEntry sblock place.1) place.2 else none

/-- A byte of a file. Where there is no block it is zero. -/
def byteAt (sblock : SuperBlock) (s : Store) (ino position : Nat) : UInt8 :=
  match s.own sblock (ino, .ofBlock (position / blockSize)) with
  | some blockNo => (s.blocks blockNo).get (position % blockSize)
  | none => 0

/-- The bytes of a file. -/
def content (sblock : SuperBlock) (s : Store) (ino : Nat) : List UInt8 :=
  (List.range (s.inodeEntry sblock ino).numBytes.toNat).map (s.byteAt sblock ino)

/-- Another entry for an inode on disk. -/
def writeEntry (sblock : SuperBlock) (s : Store) (ino : Nat) (entry : InodeEntry) : Store :=
  s.put (sblock.toBlockNo ino)
    (setEntryAt (s.blocks (sblock.toBlockNo ino)) (ino % inodePerBlock) entry)

/-- A data block that is marked. -/
def Taken (sblock : SuperBlock) (s : Store) (blockNo : Nat) : Prop :=
  sblock.dataStart ≤ blockNo ∧ blockNo < sblock.numBlocks ∧ s.used sblock blockNo = true

/-- The marked data blocks are those that inodes have, each once; what is before the data blocks is
marked, and no file is too long. -/
structure Consistent (sblock : SuperBlock) (s : Store) : Prop where
  /-- Every marked data block has one owner, and no other block has one. -/
  exact : Exact (s.Taken sblock) (s.own sblock)
  before : ∀ blockNo, blockNo < sblock.dataStart → s.used sblock blockNo = true
  short : ∀ ino, ino < sblock.numInodes → (s.inodeEntry sblock ino).type ≠ inodeInvalid →
    (s.inodeEntry sblock ino).numBytes.toNat ≤ inodeMaxBytes

section Own

variable {sblock : SuperBlock} {s s' : Store}

theorem has_eq_some {entry : InodeEntry} {slot : Slot} {blockNo : Nat} :
    s.has entry slot = some blockNo ↔
      entry.type ≠ inodeInvalid ∧ s.address entry slot = blockNo ∧ blockNo ≠ 0 := by
  rw [has, Option.ite_none_right_eq_some, Option.some.injEq]
  constructor
  · rintro ⟨⟨valid, some⟩, rfl⟩
    exact ⟨valid, rfl, some⟩
  · rintro ⟨valid, rfl, some⟩
    exact ⟨⟨valid, some⟩, rfl⟩

theorem own_of_lt {ino : Nat} (inside : ino < sblock.numInodes) (slot : Slot) :
    s.own sblock (ino, slot) = s.has (s.inodeEntry sblock ino) slot := if_pos inside

theorem own_eq_some {ino blockNo : Nat} {slot : Slot} :
    s.own sblock (ino, slot) = some blockNo ↔ ino < sblock.numInodes ∧
      s.has (s.inodeEntry sblock ino) slot = some blockNo := by
  rw [own, Option.ite_none_right_eq_some]

/-- For an inode in use, the places without a block are those with the number zero. -/
theorem has_eq_none {entry : InodeEntry} {slot : Slot} (valid : entry.type ≠ inodeInvalid) :
    s.has entry slot = none ↔ s.address entry slot = 0 := by
  simp [has, valid]

/-- Only the type and the number count. -/
theorem has_eq {left right : InodeEntry} {slot : Slot} (type : left.type = right.type)
    (number : s'.address left slot = s.address right slot) : s'.has left slot = s.has right slot := by
  unfold has
  rw [type, number]

/-- What an inode has at its places is what the entry and the indirect block say. -/
theorem has_congr {entry : InodeEntry} (slot : Slot)
    (block : ∀ blockNo, s.has entry .indirect = some blockNo → s'.blocks blockNo = s.blocks blockNo) :
    s'.has entry slot = s.has entry slot := by
  by_cases free : entry.type = inodeInvalid
  · simp [has, free]
  have same : s'.address entry slot = s.address entry slot := by
    cases slot with
    | direct i => rfl
    | indirect => rfl
    | entry j =>
      by_cases none : entry.indirect = 0
      · simp [address, none]
      · have some : entry.indirect.toNat ≠ 0 :=
          fun zero => none (UInt32.toNat_inj.mp (by simpa using zero))
        have kept := block entry.indirect.toNat (has_eq_some.mpr ⟨free, rfl, some⟩)
        simp only [address, kept]
  exact has_eq rfl same

theorem own_congr {ino : Nat} (slot : Slot)
    (entry : ino < sblock.numInodes → s'.inodeEntry sblock ino = s.inodeEntry sblock ino)
    (block : ∀ blockNo, s.own sblock (ino, .indirect) = some blockNo →
      s'.blocks blockNo = s.blocks blockNo) :
    s'.own sblock (ino, slot) = s.own sblock (ino, slot) := by
  by_cases inside : ino < sblock.numInodes
  · rw [own_of_lt inside, own_of_lt inside, entry inside]
    exact has_congr slot fun blockNo owned => block blockNo (by rwa [own_of_lt inside])
  · simp [own, inside]

theorem byteAt_congr {ino position : Nat}
    (same : s'.own sblock (ino, .ofBlock (position / blockSize)) =
      s.own sblock (ino, .ofBlock (position / blockSize)))
    (block : ∀ blockNo, s.own sblock (ino, .ofBlock (position / blockSize)) = some blockNo →
      s'.blocks blockNo = s.blocks blockNo) :
    s'.byteAt sblock ino position = s.byteAt sblock ino position := by
  simp only [byteAt, same]
  cases owned : s.own sblock (ino, .ofBlock (position / blockSize)) with
  | none => rfl
  | some blockNo => simp only [block blockNo owned]

/-- What inodes have is not free. -/
theorem Consistent.ne_of_free (consistent : s.Consistent sblock) {place : Nat × Slot}
    {blockNo old : Nat} (free : s.used sblock blockNo = false)
    (owned : s.own sblock place = some old) : old ≠ blockNo := by
  rintro rfl
  have used := ((consistent.exact.taken_iff old).mpr ⟨place, owned⟩).2.2
  exact Bool.noConfusion (free.symm.trans used)

/-- What inodes have are data blocks that are marked. -/
theorem Consistent.taken (consistent : s.Consistent sblock) {place : Nat × Slot} {blockNo : Nat}
    (owned : s.own sblock place = some blockNo) : s.Taken sblock blockNo :=
  (consistent.exact.taken_iff blockNo).mpr ⟨place, owned⟩

end Own

/-! ## Changes of the areas -/

section Changes

variable {sblock : SuperBlock} {s : Store} (layout : sblock.Layout)

/-- Inodes are told apart by their block and their place in it. -/
theorem toBlockNo_inj {ino other : Nat} (block : sblock.toBlockNo ino = sblock.toBlockNo other)
    (index : ino % inodePerBlock = other % inodePerBlock) : ino = other := by
  have size : inodePerBlock = 8 := rfl
  simp only [SuperBlock.toBlockNo, size] at block index
  omega

@[simp] theorem inodeEntry_writeEntry (ino other : Nat) (entry : InodeEntry) :
    (s.writeEntry sblock ino entry).inodeEntry sblock other =
      if other = ino then entry else s.inodeEntry sblock other := by
  have small : ∀ n : Nat, n % inodePerBlock < inodePerBlock := fun n => Nat.mod_lt _ (by decide)
  simp only [inodeEntry, writeEntry, put_blocks]
  by_cases block : sblock.toBlockNo other = sblock.toBlockNo ino
  · rw [block, Function.update_self, entryAt_setEntryAt (small _) (small _)]
    by_cases index : other % inodePerBlock = ino % inodePerBlock
    · rw [if_pos index, if_pos (toBlockNo_inj block index)]
    · rw [if_neg index, if_neg fun same => index (by rw [same])]
  · rw [Function.update_of_ne block, if_neg fun same => block (by rw [same])]

include layout

theorem used_writeEntry {ino : Nat} (inside : ino < sblock.numInodes) (entry : InodeEntry)
    {blockNo : Nat} (onDisk : blockNo < sblock.numBlocks) :
    (s.writeEntry sblock ino entry).used sblock blockNo = s.used sblock blockNo := by
  have apart := (layout.toBlockNo_ne_freeBlock inside onDisk).symm
  simp only [used, writeEntry, put_blocks, Function.update_of_ne apart]

theorem blocks_writeEntry {ino : Nat} (inside : ino < sblock.numInodes) (entry : InodeEntry)
    {blockNo : Nat} (data : sblock.dataStart ≤ blockNo) :
    (s.writeEntry sblock ino entry).blocks blockNo = s.blocks blockNo := by
  have before := layout.inodes ino inside
  simp only [writeEntry, put_blocks]
  exact Function.update_of_ne (by omega) ..

theorem inodeEntry_put {blockNo : Nat} (data : sblock.dataStart ≤ blockNo) (new : BlockData)
    {ino : Nat} (inside : ino < sblock.numInodes) :
    (s.put blockNo new).inodeEntry sblock ino = s.inodeEntry sblock ino := by
  have before := layout.inodes ino inside
  simp only [inodeEntry, put_blocks]
  rw [Function.update_of_ne (by omega)]

theorem used_put {blockNo : Nat} (data : sblock.dataStart ≤ blockNo) (new : BlockData)
    {other : Nat} (onDisk : other < sblock.numBlocks) :
    (s.put blockNo new).used sblock other = s.used sblock other := by
  have before := layout.freeBlock_lt onDisk
  simp only [used, put_blocks]
  rw [Function.update_of_ne (by omega)]

theorem inodeEntry_unmark {blockNo : Nat} (onDisk : blockNo < sblock.numBlocks)
    {ino : Nat} (inside : ino < sblock.numInodes) :
    (s.unmark sblock blockNo).inodeEntry sblock ino = s.inodeEntry sblock ino := by
  simp only [inodeEntry, unmark, put_blocks]
  rw [Function.update_of_ne (layout.toBlockNo_ne_freeBlock inside onDisk)]

theorem blocks_unmark {blockNo : Nat} (onDisk : blockNo < sblock.numBlocks) {other : Nat}
    (data : sblock.dataStart ≤ other) : (s.unmark sblock blockNo).blocks other = s.blocks other := by
  have before := layout.freeBlock_lt onDisk
  simp only [unmark, put_blocks]
  exact Function.update_of_ne (by omega) ..

theorem inodeEntry_allocate {blockNo : Nat} (data : sblock.dataStart ≤ blockNo)
    (onDisk : blockNo < sblock.numBlocks) {ino : Nat} (inside : ino < sblock.numInodes) :
    (s.allocate sblock blockNo).inodeEntry sblock ino = s.inodeEntry sblock ino := by
  rw [allocate, inodeEntry_put layout data _ inside]
  simp only [inodeEntry, put_blocks]
  rw [Function.update_of_ne (layout.toBlockNo_ne_freeBlock inside onDisk)]

theorem blocks_allocate {blockNo : Nat} (onDisk : blockNo < sblock.numBlocks) {other : Nat}
    (data : sblock.dataStart ≤ other) : (s.allocate sblock blockNo).blocks other =
      if other = blockNo then .zero else s.blocks other := by
  have before := layout.freeBlock_lt onDisk
  simp only [allocate, put_blocks]
  by_cases same : other = blockNo
  · rw [if_pos same, same, Function.update_self]
  · rw [if_neg same, Function.update_of_ne same, Function.update_of_ne (by omega)]

/-- What inodes have after another entry was written. -/
theorem own_writeEntry (consistent : s.Consistent sblock) {ino : Nat}
    (inside : ino < sblock.numInodes) {entry : InodeEntry}
    (indirect : ∀ blockNo, s.has entry .indirect = some blockNo → sblock.dataStart ≤ blockNo)
    (place : Nat × Slot) :
    (s.writeEntry sblock ino entry).own sblock place =
      if place.1 = ino then s.has entry place.2 else s.own sblock place := by
  obtain ⟨other, slot⟩ := place
  by_cases same : other = ino
  · subst same
    rw [own_of_lt inside, inodeEntry_writeEntry, if_pos rfl, if_pos rfl]
    exact has_congr slot fun blockNo owned => blocks_writeEntry layout inside _ (indirect _ owned)
  · rw [if_neg same]
    refine own_congr slot (fun _ => by rw [inodeEntry_writeEntry, if_neg same]) fun blockNo owned => ?_
    exact blocks_writeEntry layout inside _ (consistent.taken owned).1

/-- What inodes have once a block was marked and cleared. -/
theorem own_allocate (consistent : s.Consistent sblock) {blockNo : Nat}
    (data : sblock.dataStart ≤ blockNo) (onDisk : blockNo < sblock.numBlocks)
    (free : s.used sblock blockNo = false) (place : Nat × Slot) :
    (s.allocate sblock blockNo).own sblock place = s.own sblock place := by
  obtain ⟨other, slot⟩ := place
  refine own_congr slot (inodeEntry_allocate layout data onDisk) fun old owned => ?_
  rw [blocks_allocate layout onDisk (consistent.taken owned).1,
    if_neg (consistent.ne_of_free free owned)]

theorem used_allocate_data {blockNo : Nat} (data : sblock.dataStart ≤ blockNo)
    (onDisk : blockNo < sblock.numBlocks) {other : Nat} (inside : other < sblock.numBlocks) :
    (s.allocate sblock blockNo).used sblock other =
      (decide (blockNo = other) || s.used sblock other) := by
  have before := layout.freeBlock_lt inside
  exact used_allocate layout.bitmap_fits onDisk inside (by omega)

end Changes

/-! ## A block for a place -/

section Attach

variable {sblock : SuperBlock} {s s' : Store} {ino blockNo : Nat} {slot : Slot}

/-- A block that was free is now at a place that had none. It is all zero, and no other place and no
file has changed. -/
structure Attach (sblock : SuperBlock) (s s' : Store) (ino : Nat) (slot : Slot) (blockNo : Nat) :
    Prop where
  data : sblock.dataStart ≤ blockNo
  onDisk : blockNo < sblock.numBlocks
  free : s.used sblock blockNo = false
  bare : s.own sblock (ino, slot) = none
  /-- The place has the block, and no other place has changed. -/
  own : ∀ place, s'.own sblock place = if place = (ino, slot) then some blockNo
    else s.own sblock place
  used : ∀ other, other < sblock.numBlocks →
    s'.used sblock other = (decide (blockNo = other) || s.used sblock other)
  zero : s'.blocks blockNo = .zero
  kept : ∀ other k old, s.own sblock (other, .ofBlock k) = some old →
    s'.blocks old = s.blocks old
  entries : ∀ other, other < sblock.numInodes → other ≠ ino →
    s'.inodeEntry sblock other = s.inodeEntry sblock other
  plain : ∀ other, other < sblock.numInodes →
    (s'.inodeEntry sblock other).plain = (s.inodeEntry sblock other).plain

theorem plain_type {left right : InodeEntry} (same : left.plain = right.plain) :
    left.type = right.type := by
  have type : left.plain.type = right.plain.type := by rw [same]
  exact type

theorem plain_numLinks {left right : InodeEntry} (same : left.plain = right.plain) :
    left.numLinks = right.numLinks := by
  have numLinks : left.plain.numLinks = right.plain.numLinks := by rw [same]
  exact numLinks

theorem plain_numBytes {left right : InodeEntry} (same : left.plain = right.plain) :
    left.numBytes = right.numBytes := by
  have numBytes : left.plain.numBytes = right.plain.numBytes := by rw [same]
  exact numBytes

namespace Attach

/-- The image stays consistent. -/
theorem consistent (attach : Attach sblock s s' ino slot blockNo)
    (consistent : s.Consistent sblock) : s'.Consistent sblock := by
  have notTaken : ¬ s.Taken sblock blockNo := by
    rintro ⟨-, -, used⟩
    exact Bool.noConfusion (attach.free.symm.trans used)
  refine ⟨(consistent.exact.take attach.bare notTaken).congr (fun other => ?_) fun place => ?_,
    fun other before => ?_, fun other inside valid => ?_⟩
  · simp only [Taken]
    constructor
    · rintro ⟨data, onDisk, used⟩
      rw [attach.used other onDisk, Bool.or_eq_true, decide_eq_true_eq] at used
      exact used.imp Eq.symm fun used => ⟨data, onDisk, used⟩
    · rintro (rfl | ⟨data, onDisk, used⟩)
      · exact ⟨attach.data, attach.onDisk, by simp [attach.used _ attach.onDisk]⟩
      · exact ⟨data, onDisk, by rw [attach.used other onDisk, used, Bool.or_true]⟩
  · rw [attach.own, Function.update_apply]
  · have below : other < sblock.numBlocks := Nat.lt_of_lt_of_le before SuperBlock.Layout.dataStart_le
    rw [attach.used other below, consistent.before other before, Bool.or_true]
  · have same := attach.plain other inside
    rw [plain_numBytes same]
    rw [plain_type same] at valid
    exact consistent.short other inside valid

/-- No byte of a file changes. -/
theorem byteAt (attach : Attach sblock s s' ino slot blockNo) (other position : Nat) :
    s'.byteAt sblock other position = s.byteAt sblock other position := by
  by_cases here : (other, Slot.ofBlock (position / blockSize)) = (ino, slot)
  · have gained := attach.own (ino, slot)
    rw [if_pos rfl, ← here] at gained
    have bare := attach.bare
    rw [← here] at bare
    simp [Store.byteAt, gained, bare, attach.zero]
  · exact byteAt_congr (by rw [attach.own, if_neg here]) (attach.kept _ _)

end Attach

/-- Blocks of files and indirect blocks are not one. -/
theorem Consistent.file_ne_indirect (consistent : s.Consistent sblock) {other k old : Nat}
    (owned : s.own sblock (other, .ofBlock k) = some old)
    (indirect : s.own sblock (ino, .indirect) = some blockNo) : old ≠ blockNo := by
  rintro rfl
  have same := consistent.exact.alone owned indirect
  exact Slot.ofBlock_ne_indirect k (Prod.mk.inj same).2

variable (layout : sblock.Layout) (consistent : s.Consistent sblock)
  (inside : ino < sblock.numInodes) (valid : (s.inodeEntry sblock ino).type ≠ inodeInvalid)
  (data : sblock.dataStart ≤ blockNo) (onDisk : blockNo < sblock.numBlocks)
  (free : s.used sblock blockNo = false)

include layout consistent inside valid data onDisk free

/-- A block for a place in the entry: the entry has the block there and nothing else has changed. -/
theorem attach_entry {entry : InodeEntry} (bare : s.own sblock (ino, slot) = none)
    (plain : entry.plain = (s.inodeEntry sblock ino).plain)
    (gained : (s.allocate sblock blockNo).has entry slot = some blockNo)
    (others : ∀ other, other ≠ slot → (s.allocate sblock blockNo).has entry other =
      (s.allocate sblock blockNo).has (s.inodeEntry sblock ino) other) :
    Attach sblock s ((s.allocate sblock blockNo).writeEntry sblock ino entry) ino slot blockNo := by
  have before : ∀ other, (s.allocate sblock blockNo).has (s.inodeEntry sblock ino) other =
      s.own sblock (ino, other) := by
    intro other
    have same := own_allocate layout consistent data onDisk free (ino, other)
    rwa [own_of_lt inside, inodeEntry_allocate layout data onDisk inside] at same
  have kept : ∀ place old, s.own sblock place = some old →
      ((s.allocate sblock blockNo).writeEntry sblock ino entry).blocks old = s.blocks old := by
    intro place old owned
    have dataOld := (consistent.taken owned).1
    rw [blocks_writeEntry layout inside _ dataOld, blocks_allocate layout onDisk dataOld,
      if_neg (consistent.ne_of_free free owned)]
  refine ⟨data, onDisk, free, bare, fun place => ?_, fun other onDisk' => ?_, ?_, fun other k old =>
    kept _ old, fun other inside' away => ?_, fun other inside' => ?_⟩
  · obtain ⟨other, slot'⟩ := place
    by_cases same : other = ino
    · subst same
      have entry' : ((s.allocate sblock blockNo).writeEntry sblock other entry).inodeEntry sblock
          other = entry := by rw [inodeEntry_writeEntry, if_pos rfl]
      have hasEntry : ((s.allocate sblock blockNo).writeEntry sblock other entry).has entry slot' =
          (s.allocate sblock blockNo).has entry slot' := by
        refine has_congr slot' fun old owned => blocks_writeEntry layout inside _ ?_
        by_cases here : Slot.indirect = slot
        · rw [here, gained] at owned
          exact Option.some.inj owned ▸ data
        · rw [others _ here, before] at owned
          exact (consistent.taken owned).1
      rw [own_of_lt inside, entry', hasEntry]
      by_cases here : slot' = slot
      · rw [here, gained, if_pos rfl]
      · rw [others _ here, before, if_neg fun both => here (Prod.mk.inj both).2]
    · rw [if_neg fun both => same (Prod.mk.inj both).1]
      refine own_congr slot' (fun inside' => ?_) fun old => kept _ old
      rw [inodeEntry_writeEntry, if_neg same, inodeEntry_allocate layout data onDisk inside']
  · rw [used_writeEntry layout inside _ onDisk', used_allocate_data layout data onDisk onDisk']
  · rw [blocks_writeEntry layout inside _ data, blocks_allocate layout onDisk data, if_pos rfl]
  · rw [inodeEntry_writeEntry, if_neg away, inodeEntry_allocate layout data onDisk inside']
  · rw [inodeEntry_writeEntry]
    by_cases same : other = ino
    · rw [if_pos same, same, plain]
    · rw [if_neg same, inodeEntry_allocate layout data onDisk inside']

/-- A block at a direct address. -/
theorem attach_direct {i : Nat} (small : i < inodeNumDirect)
    (bare : (s.inodeEntry sblock ino).addr i = 0) :
    Attach sblock s ((s.allocate sblock blockNo).writeEntry sblock ino
      ((s.inodeEntry sblock ino).setAddr i blockNo)) ino (.direct i) blockNo := by
  have narrow := layout.narrow
  have positive := layout.dataStart_pos
  have bare' : s.own sblock (ino, .direct i) = none := by
    rw [own_of_lt inside, has_eq_none valid]
    exact bare
  have read (k : Nat) : ((s.inodeEntry sblock ino).setAddr i blockNo).addr k =
      if k = i then blockNo else (s.inodeEntry sblock ino).addr k :=
    InodeEntry.addr_setAddr _ small (by omega)
  refine attach_entry layout consistent inside valid data onDisk free bare'
    (InodeEntry.plain_setAddr ..) (has_eq_some.mpr ⟨valid, ?_, by omega⟩) fun other differ => ?_
  · rw [address, read, if_pos rfl]
  · cases other with
    | direct k =>
      refine has_eq rfl ?_
      rw [address, read, if_neg fun same => differ (by rw [same])]
      rfl
    | indirect => exact has_eq rfl rfl
    | entry j => exact has_eq rfl rfl

/-- An indirect block. -/
theorem attach_indirect (bare : (s.inodeEntry sblock ino).indirect = 0) :
    Attach sblock s ((s.allocate sblock blockNo).writeEntry sblock ino
      { s.inodeEntry sblock ino with indirect := .ofNat blockNo }) ino .indirect blockNo := by
  have narrow := layout.narrow
  have positive := layout.dataStart_pos
  have number : (UInt32.ofNat blockNo).toNat = blockNo := by
    rw [UInt32.toNat_ofNat']
    exact Nat.mod_eq_of_lt (by omega)
  have zero : ((s.allocate sblock blockNo).blocks blockNo) = .zero := by
    rw [blocks_allocate layout onDisk data, if_pos rfl]
  have bare' : s.own sblock (ino, .indirect) = none := by
    rw [own_of_lt inside, has_eq_none valid, address, bare]
    rfl
  refine attach_entry layout consistent inside valid data onDisk free bare' rfl
    (has_eq_some.mpr ⟨valid, number, by omega⟩) fun other differ => ?_
  cases other with
  | direct k => exact has_eq rfl rfl
  | indirect => exact absurd rfl differ
  | entry j => exact has_eq rfl (by simp [address, number, zero, bare])

/-- A block at an address of the indirect block. -/
theorem attach_indirect_entry {j inblock : Nat} (small : j < inodeNumIndirect)
    (indirect : s.own sblock (ino, .indirect) = some inblock)
    (bare : addrAt (s.blocks inblock) j = 0) :
    Attach sblock s ((s.allocate sblock blockNo).put inblock
      (setAddrAt (s.blocks inblock) j blockNo)) ino (.entry j) blockNo := by
  have narrow := layout.narrow
  have positive := layout.dataStart_pos
  obtain ⟨dataIn, onDiskIn, usedIn⟩ := consistent.taken indirect
  have differ : blockNo ≠ inblock := (consistent.ne_of_free free indirect).symm
  obtain ⟨-, -, number, -⟩ := (own_eq_some.mp indirect).imp_right has_eq_some.mp
  change (s.inodeEntry sblock ino).indirect.toNat = inblock at number
  have some : (s.inodeEntry sblock ino).indirect ≠ 0 := by
    intro none
    rw [none] at number
    change 0 = inblock at number
    omega
  have kept : ∀ place old, s.own sblock place = .some old → old ≠ inblock →
      ((s.allocate sblock blockNo).put inblock (setAddrAt (s.blocks inblock) j blockNo)).blocks old =
        s.blocks old := by
    intro place old owned other
    rw [put_blocks, Function.update_of_ne other, blocks_allocate layout onDisk
      (consistent.taken owned).1, if_neg (consistent.ne_of_free free owned)]
  have entry : ∀ other, other < sblock.numInodes → ((s.allocate sblock blockNo).put inblock
      (setAddrAt (s.blocks inblock) j blockNo)).inodeEntry sblock other =
        s.inodeEntry sblock other := by
    intro other inside'
    rw [inodeEntry_put layout dataIn _ inside', inodeEntry_allocate layout data onDisk inside']
  have bare' : s.own sblock (ino, .entry j) = none := by
    rw [own_of_lt inside, has_eq_none valid, address, if_neg some, number]
    exact bare
  refine ⟨data, onDisk, free, bare', fun place => ?_, fun other onDisk' => ?_, ?_,
    fun other k old owned => kept _ old owned (consistent.file_ne_indirect owned indirect),
    fun other inside' _ => entry other inside', fun other inside' => by rw [entry other inside']⟩
  · obtain ⟨other, slot⟩ := place
    by_cases same : other = ino
    · subst same
      rw [own_of_lt inside, own_of_lt inside, entry other inside]
      cases slot with
      | direct k =>
        rw [if_neg (by simp)]
        exact has_eq rfl rfl
      | indirect =>
        rw [if_neg (by simp)]
        exact has_eq rfl rfl
      | entry k =>
        have read : address ((s.allocate sblock blockNo).put inblock
            (setAddrAt (s.blocks inblock) j blockNo)) (s.inodeEntry sblock other) (.entry k) =
              addrAt (setAddrAt (s.blocks inblock) j blockNo) k := by
          simp only [address, if_neg some, number, put_blocks, Function.update_self]
        have before : s.address (s.inodeEntry sblock other) (.entry k) =
            addrAt (s.blocks inblock) k := by
          simp only [address, if_neg some, number]
        by_cases same : k = j
        · subst same
          rw [addrAt_setAddrAt small small (by omega), if_pos rfl] at read
          rw [if_pos rfl]
          exact has_eq_some.mpr ⟨valid, read, by omega⟩
        · rw [if_neg fun both => same (Slot.entry.inj (Prod.mk.inj both).2)]
          refine has_eq rfl (read.trans (Eq.trans ?_ before.symm))
          by_cases inRange : k < inodeNumIndirect
          · rw [addrAt_setAddrAt small inRange (by omega), if_neg same]
          · rw [addrAt_outside _ (by omega), addrAt_outside _ (by omega)]
    · rw [if_neg fun both => same (Prod.mk.inj both).1]
      refine own_congr slot (entry other) fun old owned => kept _ old owned ?_
      rintro rfl
      exact same (Prod.mk.inj (consistent.exact.alone owned indirect)).1
  · rw [used_put layout dataIn _ onDisk', used_allocate_data layout data onDisk onDisk']
  · rw [put_blocks, Function.update_of_ne differ, blocks_allocate layout onDisk data, if_pos rfl]

end Attach

/-! ## Free blocks -/

/-- How many blocks are not marked. -/
def freeCount (sblock : SuperBlock) (s : Store) : Nat :=
  ((Finset.range sblock.numBlocks).filter fun blockNo => s.used sblock blockNo = false).card

section Free

variable {sblock : SuperBlock} {s s' : Store}

theorem freeCount_congr (same : ∀ blockNo, blockNo < sblock.numBlocks →
    s'.used sblock blockNo = s.used sblock blockNo) : s'.freeCount sblock = s.freeCount sblock := by
  refine congrArg Finset.card (Finset.filter_congr fun blockNo member => ?_)
  rw [same blockNo (Finset.mem_range.mp member)]

theorem freeCount_pos : 0 < s.freeCount sblock ↔
    ∃ blockNo, blockNo < sblock.numBlocks ∧ s.used sblock blockNo = false := by
  simp [freeCount, Finset.card_pos, Finset.Nonempty]

/-- There is one free block less. -/
theorem Attach.freeCount {ino blockNo : Nat} {slot : Slot}
    (attach : Attach sblock s s' ino slot blockNo) :
    s.freeCount sblock = s'.freeCount sblock + 1 := by
  have split : (Finset.range sblock.numBlocks).filter (fun other => s'.used sblock other = false) =
      ((Finset.range sblock.numBlocks).filter fun other => s.used sblock other = false).erase
        blockNo := by
    ext other
    simp only [Finset.mem_filter, Finset.mem_range, Finset.mem_erase]
    constructor
    · rintro ⟨onDisk, unused⟩
      rw [attach.used other onDisk, Bool.or_eq_false_iff, decide_eq_false_iff_not] at unused
      exact ⟨fun same => unused.1 same.symm, onDisk, unused.2⟩
    · rintro ⟨differ, onDisk, unused⟩
      refine ⟨onDisk, ?_⟩
      rw [attach.used other onDisk, unused, decide_eq_false fun same => differ same.symm]
      rfl
  have member : blockNo ∈ (Finset.range sblock.numBlocks).filter
      fun other => s.used sblock other = false :=
    Finset.mem_filter.mpr ⟨Finset.mem_range.mpr attach.onDisk, attach.free⟩
  rw [Store.freeCount, Store.freeCount, split, Finset.card_erase_add_one member]

end Free

/-- How many blocks a range of blocks of a file lacks, its indirect block included. -/
def lacks (sblock : SuperBlock) (s : Store) (ino lo hi : Nat) : Nat :=
  ((Finset.Ico lo hi).filter fun k => s.own sblock (ino, .ofBlock k) = none).card +
    if inodeNumDirect < hi ∧ lo < hi ∧ s.own sblock (ino, .indirect) = none then 1 else 0

/-- A place for a range of blocks of a file. -/
def InRange (lo hi : Nat) (slot : Slot) : Prop :=
  (slot = .indirect ∧ inodeNumDirect < hi ∧ lo < hi) ∨ ∃ k, lo ≤ k ∧ k < hi ∧ slot = .ofBlock k

section Lacks

variable {sblock : SuperBlock} {s s' : Store} {ino : Nat}

/-- The same range lacks no more once inodes have more. -/
theorem lacks_mono (kept : ∀ slot, s'.own sblock (ino, slot) = none → s.own sblock (ino, slot) = none)
    (lo hi : Nat) : s'.lacks sblock ino lo hi ≤ s.lacks sblock ino lo hi := by
  refine Nat.add_le_add (Finset.card_le_card fun k member => ?_) ?_
  · simp only [Finset.mem_filter] at member ⊢
    exact ⟨member.1, kept _ member.2⟩
  · by_cases missing : inodeNumDirect < hi ∧ lo < hi ∧ s'.own sblock (ino, .indirect) = none
    · rw [if_pos missing, if_pos ⟨missing.1, missing.2.1, kept _ missing.2.2⟩]
    · rw [if_neg missing]
      exact Nat.zero_le _

/-- A part of a range lacks no more than the whole. -/
theorem lacks_part {lo lo' hi hi' : Nat} (above : lo ≤ lo') (below : hi' ≤ hi) :
    s.lacks sblock ino lo' hi' ≤ s.lacks sblock ino lo hi := by
  refine Nat.add_le_add (Finset.card_le_card fun k member => ?_) ?_
  · simp only [Finset.mem_filter, Finset.mem_Ico] at member ⊢
    exact ⟨⟨by omega, by omega⟩, member.2⟩
  · by_cases missing : inodeNumDirect < hi' ∧ lo' < hi' ∧ s.own sblock (ino, .indirect) = none
    · rw [if_pos missing, if_pos ⟨by omega, by omega, missing.2.2⟩]
    · rw [if_neg missing]
      exact Nat.zero_le _

/-- A place of the range without a block is lacking. -/
theorem lacks_pos {lo hi : Nat} {slot : Slot} (within : InRange lo hi slot)
    (bare : s.own sblock (ino, slot) = none) : 0 < s.lacks sblock ino lo hi := by
  obtain ⟨rfl, deep, nonempty⟩ | ⟨k, above, below, rfl⟩ := within
  · rw [lacks, if_pos ⟨deep, nonempty, bare⟩]
    omega
  · refine Nat.add_pos_left (Finset.card_pos.mpr ⟨k, ?_⟩) _
    simp only [Finset.mem_filter, Finset.mem_Ico]
    exact ⟨⟨above, below⟩, bare⟩

/-- A range with one place less to fill lacks one block less. -/
theorem Attach.lacks {blockNo lo hi : Nat} {slot : Slot}
    (attach : Attach sblock s s' ino slot blockNo) (within : InRange lo hi slot) :
    s'.lacks sblock ino lo hi + 1 ≤ s.lacks sblock ino lo hi := by
  have kept : ∀ other, s'.own sblock (ino, other) = none → other ≠ slot ∧
      s.own sblock (ino, other) = none := by
    intro other bare
    rw [attach.own] at bare
    split at bare
    · contradiction
    · rename_i differ
      exact ⟨fun same => differ (by rw [same]), bare⟩
  have bare := attach.bare
  obtain ⟨rfl, deep, nonempty⟩ | ⟨k, above, below, rfl⟩ := within
  · have less : ¬ (inodeNumDirect < hi ∧ lo < hi ∧ s'.own sblock (ino, .indirect) = none) :=
      fun missing => (kept _ missing.2.2).1 rfl
    rw [Store.lacks, Store.lacks, if_neg less, if_pos ⟨deep, nonempty, bare⟩]
    refine Nat.add_le_add_right (Finset.card_le_card fun k member => ?_) 1
    simp only [Finset.mem_filter] at member ⊢
    exact ⟨member.1, (kept _ member.2).2⟩
  · have fewer : ((Finset.Ico lo hi).filter fun l => s'.own sblock (ino, .ofBlock l) = none).card <
        ((Finset.Ico lo hi).filter fun l => s.own sblock (ino, .ofBlock l) = none).card := by
      refine Finset.card_lt_card (Finset.ssubset_iff_of_subset (fun l member => ?_) |>.mpr ⟨k, ?_, ?_⟩)
      · simp only [Finset.mem_filter] at member ⊢
        exact ⟨member.1, (kept _ member.2).2⟩
      · simp only [Finset.mem_filter, Finset.mem_Ico]
        exact ⟨⟨above, below⟩, bare⟩
      · intro member
        simp only [Finset.mem_filter] at member
        exact (kept _ member.2).1 rfl
    have indirect : (if inodeNumDirect < hi ∧ lo < hi ∧ s'.own sblock (ino, .indirect) = none
          then 1 else 0) ≤
        if inodeNumDirect < hi ∧ lo < hi ∧ s.own sblock (ino, .indirect) = none then 1 else 0 := by
      by_cases missing : inodeNumDirect < hi ∧ lo < hi ∧ s'.own sblock (ino, .indirect) = none
      · rw [if_pos missing, if_pos ⟨missing.1, missing.2.1, (kept _ missing.2.2).2⟩]
      · rw [if_neg missing]
        exact Nat.zero_le _
    unfold Store.lacks
    omega

end Lacks

/-! ## Writes -/

section Writes

variable {sblock : SuperBlock} {s : Store} (layout : sblock.Layout)
  (consistent : s.Consistent sblock)

include layout consistent

/-- Other bytes in a block of a file. -/
theorem own_put_file {ino k blockNo : Nat}
    (owned : s.own sblock (ino, .ofBlock k) = some blockNo) (new : BlockData)
    (place : Nat × Slot) : (s.put blockNo new).own sblock place = s.own sblock place := by
  obtain ⟨other, slot⟩ := place
  refine own_congr slot (inodeEntry_put layout (consistent.taken owned).1 new) fun old indirect => ?_
  exact Function.update_of_ne (consistent.file_ne_indirect owned indirect).symm ..

theorem byteAt_put_file {ino k blockNo : Nat}
    (owned : s.own sblock (ino, .ofBlock k) = some blockNo) (new : BlockData)
    (other position : Nat) : (s.put blockNo new).byteAt sblock other position =
      if other = ino ∧ position / blockSize = k then new.get (position % blockSize)
      else s.byteAt sblock other position := by
  have same := own_put_file layout consistent owned new (other, .ofBlock (position / blockSize))
  by_cases here : other = ino ∧ position / blockSize = k
  · obtain ⟨rfl, rfl⟩ := here
    rw [if_pos ⟨rfl, rfl⟩]
    simp [byteAt, same, owned]
  · rw [if_neg here]
    refine byteAt_congr same fun old owned' => Function.update_of_ne ?_ ..
    rintro rfl
    have place := Prod.mk.inj (consistent.exact.alone owned' owned)
    exact here ⟨place.1, Slot.ofBlock_inj place.2⟩

theorem Consistent.put_file {ino k blockNo : Nat}
    (owned : s.own sblock (ino, .ofBlock k) = some blockNo) (new : BlockData) :
    (s.put blockNo new).Consistent sblock := by
  have data := (consistent.taken owned).1
  refine ⟨consistent.exact.congr (fun other => ?_) (own_put_file layout consistent owned new),
    fun other before => ?_, fun other inside valid => ?_⟩
  · refine and_congr_right fun _ => and_congr_right fun onDisk => ?_
    rw [used_put layout data new onDisk]
  · rw [used_put layout data new (Nat.lt_of_lt_of_le before SuperBlock.Layout.dataStart_le)]
    exact consistent.before other before
  · rw [inodeEntry_put layout data new inside] at valid ⊢
    exact consistent.short other inside valid

/-- Another entry that says the same of the blocks of the inode. -/
theorem Consistent.rewrite {ino : Nat} (inside : ino < sblock.numInodes) {entry : InodeEntry}
    (same : ∀ slot, s.has entry slot = s.own sblock (ino, slot))
    (short : entry.type ≠ inodeInvalid → entry.numBytes.toNat ≤ inodeMaxBytes) :
    (s.writeEntry sblock ino entry).Consistent sblock ∧
      (∀ place, (s.writeEntry sblock ino entry).own sblock place = s.own sblock place) ∧
      ∀ other position, (s.writeEntry sblock ino entry).byteAt sblock other position =
        s.byteAt sblock other position := by
  have own : ∀ place, (s.writeEntry sblock ino entry).own sblock place = s.own sblock place := by
    intro place
    rw [own_writeEntry layout consistent inside fun blockNo owned => ?_]
    · by_cases here : place.1 = ino
      · rw [if_pos here, same, ← here]
      · rw [if_neg here]
    · rw [same] at owned
      exact (consistent.taken owned).1
  refine ⟨⟨consistent.exact.congr (fun other => ?_) own, fun other before => ?_,
    fun other inside' valid => ?_⟩, own, fun other position => ?_⟩
  · refine and_congr_right fun _ => and_congr_right fun onDisk => ?_
    rw [used_writeEntry layout inside entry onDisk]
  · rw [used_writeEntry layout inside entry
      (Nat.lt_of_lt_of_le before SuperBlock.Layout.dataStart_le)]
    exact consistent.before other before
  · rw [inodeEntry_writeEntry] at valid ⊢
    by_cases here : other = ino
    · rw [if_pos here] at valid ⊢
      exact short valid
    · rw [if_neg here] at valid ⊢
      exact consistent.short other inside' valid
  · exact byteAt_congr (own _) fun old owned =>
      blocks_writeEntry layout inside entry (consistent.taken owned).1

end Writes

/-! ## Freeing all blocks of an inode -/

/-- The marks of some blocks are taken away. -/
def unmarkAll (sblock : SuperBlock) (s : Store) (blocks : List Nat) : Store :=
  blocks.foldl (fun s blockNo => s.unmark sblock blockNo) s

section Free

variable {sblock : SuperBlock} {s : Store} (layout : sblock.Layout)

include layout

theorem unmarkAll_spec {blocks : List Nat} (distinct : blocks.Nodup)
    (used : ∀ blockNo ∈ blocks, blockNo < sblock.numBlocks ∧ s.used sblock blockNo = true) :
    (∀ other, other < sblock.numBlocks → (s.unmarkAll sblock blocks).used sblock other =
      (decide (other ∉ blocks) && s.used sblock other)) ∧
    (∀ other, sblock.dataStart ≤ other →
      (s.unmarkAll sblock blocks).blocks other = s.blocks other) ∧
    ∀ ino, ino < sblock.numInodes →
      (s.unmarkAll sblock blocks).inodeEntry sblock ino = s.inodeEntry sblock ino := by
  induction blocks generalizing s with
  | nil => exact ⟨fun _ _ => rfl, fun _ _ => rfl, fun _ _ => rfl⟩
  | cons first rest ih =>
    obtain ⟨absent, distinct⟩ := List.nodup_cons.mp distinct
    obtain ⟨onDisk, set⟩ := used first (List.mem_cons_self ..)
    have after : ∀ other, other < sblock.numBlocks → (s.unmark sblock first).used sblock other =
        (decide (first ≠ other) && s.used sblock other) :=
      fun other inside => used_unmark layout.bitmap_fits onDisk inside set
    obtain ⟨marks, data, entries⟩ := @ih (s.unmark sblock first) distinct fun blockNo member => by
      obtain ⟨onDisk', set'⟩ := used blockNo (List.mem_cons_of_mem _ member)
      have differ : first ≠ blockNo := by
        rintro rfl
        exact absent member
      exact ⟨onDisk', by rw [after blockNo onDisk', set', decide_eq_true differ]; rfl⟩
    refine ⟨fun other inside => ?_, fun other isData => ?_, fun ino inside => ?_⟩
    · refine (marks other inside).trans ?_
      rw [after other inside, ← Bool.and_assoc, ← Bool.decide_and]
      congr 2
      simp [and_comm, eq_comm]
    · exact (data other isData).trans (blocks_unmark layout onDisk isData)
    · exact (entries ino inside).trans (inodeEntry_unmark layout onDisk inside)

/-- All blocks of an inode are freed and its entry names none. -/
theorem Consistent.clear (consistent : s.Consistent sblock) {ino : Nat}
    (inside : ino < sblock.numInodes) {blocks : List Nat} (distinct : blocks.Nodup)
    (members : ∀ blockNo, blockNo ∈ blocks ↔ ∃ slot, s.own sblock (ino, slot) = some blockNo)
    {entry : InodeEntry} (addrs : ∀ i, entry.addr i = 0) (indirect : entry.indirect = 0)
    (short : entry.type ≠ inodeInvalid → entry.numBytes.toNat ≤ inodeMaxBytes) :
    ((s.unmarkAll sblock blocks).writeEntry sblock ino entry).Consistent sblock ∧
      (∀ place, ((s.unmarkAll sblock blocks).writeEntry sblock ino entry).own sblock place =
        if place.1 = ino then none else s.own sblock place) ∧
      ∀ other position, other ≠ ino →
        ((s.unmarkAll sblock blocks).writeEntry sblock ino entry).byteAt sblock other position =
          s.byteAt sblock other position := by
  have used : ∀ blockNo ∈ blocks, blockNo < sblock.numBlocks ∧ s.used sblock blockNo = true := by
    intro blockNo member
    obtain ⟨slot, owned⟩ := (members blockNo).mp member
    exact (consistent.taken owned).2
  obtain ⟨marks, data, entries⟩ := unmarkAll_spec layout distinct used
  have kept : ∀ other, sblock.dataStart ≤ other →
      ((s.unmarkAll sblock blocks).writeEntry sblock ino entry).blocks other = s.blocks other :=
    fun other isData => (blocks_writeEntry layout inside entry isData).trans (data other isData)
  have own : ∀ place, ((s.unmarkAll sblock blocks).writeEntry sblock ino entry).own sblock place =
      if place.1 = ino then none else s.own sblock place := by
    rintro ⟨other, slot⟩
    by_cases here : other = ino
    · subst here
      rw [if_pos rfl, own_of_lt inside, inodeEntry_writeEntry, if_pos rfl, has, if_neg]
      rintro ⟨-, some⟩
      cases slot <;> simp [address, addrs, indirect] at some
    · rw [if_neg here]
      refine own_congr slot (fun inside' => ?_) fun old owned => kept old (consistent.taken owned).1
      rw [inodeEntry_writeEntry, if_neg here, entries other inside']
  refine ⟨⟨(consistent.exact.releaseAll fun place => place.1 = ino).congr (fun other => ?_) own,
    fun other before => ?_, fun other inside' valid => ?_⟩, own, fun other position away => ?_⟩
  · simp only [Taken]
    constructor
    · rintro ⟨isData, onDisk, set⟩
      rw [used_writeEntry layout inside entry onDisk, marks other onDisk, Bool.and_eq_true,
        decide_eq_true_eq] at set
      refine ⟨⟨isData, onDisk, set.2⟩, ?_⟩
      rintro ⟨_, slot⟩ rfl owned
      exact set.1 ((members other).mpr ⟨slot, owned⟩)
    · rintro ⟨⟨isData, onDisk, set⟩, nobody⟩
      refine ⟨isData, onDisk, ?_⟩
      rw [used_writeEntry layout inside entry onDisk, marks other onDisk, set, Bool.and_true,
        decide_eq_true_eq]
      intro member
      obtain ⟨slot, owned⟩ := (members other).mp member
      exact nobody (ino, slot) rfl owned
  · have onDisk : other < sblock.numBlocks := Nat.lt_of_lt_of_le before SuperBlock.Layout.dataStart_le
    rw [used_writeEntry layout inside entry onDisk, marks other onDisk,
      consistent.before other before, Bool.and_true, decide_eq_true_eq]
    intro member
    obtain ⟨slot, owned⟩ := (members other).mp member
    have isData := (consistent.taken owned).1
    omega
  · rw [inodeEntry_writeEntry] at valid ⊢
    by_cases here : other = ino
    · rw [if_pos here] at valid ⊢
      exact short valid
    · rw [if_neg here, entries other inside'] at valid ⊢
      exact consistent.short other inside' valid
  · refine byteAt_congr (by rw [own, if_neg away]) fun old owned => ?_
    exact kept old (consistent.taken owned).1

end Free

end Store

end OsLab.Fs
