import OsLab.Lib.Splice
import OsLab.Fs.InodeSpec

/-!
# Reading and writing files

The loops of `inode_read` and `inode_write` over the blocks of a file. A read copies the bytes of
the file and changes none; a write changes the bytes it is for and no other byte of any file.
-/
namespace OsLab.Fs

open OsLab.Lib
open InodeProg

/-- How many blocks a file of some bytes has. -/
def blocksFor (count : Nat) : Nat := (count + blockSize - 1) / blockSize

namespace FsState

section Loops

variable {sblock : SuperBlock} {s : FsState} {inode : Nat} {fields : Inode} {i last rounds : Nat}
  {ctx : Ctx}

/-- Where a block goes on: in the block, and then at the next one. -/
theorem block_split (i last : Nat) (more : i < last) :
    min (blockSize - i % blockSize) (last - i) + (last - (i / blockSize + 1) * blockSize) =
      last - i ∧
    (i / blockSize + 1) * blockSize / blockSize = i / blockSize + 1 ∧
    i / blockSize < blocksFor last ∧ last - (i / blockSize + 1) * blockSize < last - i := by
  have size : blockSize = 512 := rfl
  rw [blocksFor, size]
  omega

/-- The next block begins where this one ends, if there is more. -/
theorem block_next {i last j : Nat} (more : i < last)
    (rest : j < last - (i / blockSize + 1) * blockSize) :
    i + (min (blockSize - i % blockSize) (last - i) + j) = (i / blockSize + 1) * blockSize + j := by
  have size : blockSize = 512 := rfl
  rw [size] at rest ⊢
  omega

/-- A byte in a block that the inode has. -/
theorem byteAt_owned {ino blockNo j : Nat}
    (owned : s.store.own sblock (ino, .ofBlock (i / blockSize)) = some blockNo)
    (inBlock : j < blockSize - i % blockSize) :
    s.store.byteAt sblock ino (i + j) = (s.store.blocks blockNo).get (i % blockSize + j) := by
  have size : blockSize = 512 := rfl
  have block : (i + j) / blockSize = i / blockSize := by
    rw [size] at inBlock ⊢
    omega
  have place : (i + j) % blockSize = i % blockSize + j := by
    rw [size] at inBlock ⊢
    omega
  rw [Store.byteAt, block, owned, place]

/-- A block after this one begins before the end. -/
theorem block_last {i last k : Nat} (within : k < blocksFor last) (after : i / blockSize < k) :
    (i / blockSize + 1) * blockSize < last := by
  have size : blockSize = 512 := rfl
  rw [blocksFor, size] at within
  rw [size] at after ⊢
  omega

/-- What a step of the loop of `inode_write` and the rest of the loop write, together. -/
theorem write_byte {other ino i last position : Nat} {src : List UInt8} {old : BlockData}
    {before : UInt8} (more : i < last) (here : other = ino)
    (same : position / blockSize = i / blockSize → old.get (position % blockSize) = before) :
    (if other = ino ∧ (i / blockSize + 1) * blockSize ≤ position ∧ position < last then
      (src.drop (min (blockSize - i % blockSize) (last - i))).getD
        (position - (i / blockSize + 1) * blockSize) 0
    else if other = ino ∧ position / blockSize = i / blockSize then
      (old.blit (i % blockSize) (min (blockSize - i % blockSize) (last - i))
        fun byte => src.getD byte 0).get (position % blockSize)
    else before) =
      if other = ino ∧ i ≤ position ∧ position < last then src.getD (position - i) 0
      else before := by
  have size : blockSize = 512 := rfl
  by_cases later : (i / blockSize + 1) * blockSize ≤ position ∧ position < last
  · have shift : min (blockSize - i % blockSize) (last - i) +
        (position - (i / blockSize + 1) * blockSize) = position - i := by
      rw [size] at later ⊢
      omega
    rw [if_pos ⟨here, later⟩, if_pos ⟨here, by rw [size] at later; omega, later.2⟩,
      List.getD_eq_getElem?_getD, List.getElem?_drop, shift, List.getD_eq_getElem?_getD]
  · rw [if_neg fun both => later both.2]
    by_cases block : position / blockSize = i / blockSize
    · rw [if_pos ⟨here, block⟩, Bytes.get_blit (Nat.mod_lt _ (by decide)), same block]
      by_cases inside : i ≤ position ∧ position < last
      · have place : position % blockSize - i % blockSize = position - i := by
          rw [size] at block ⊢
          omega
        rw [if_pos (by rw [size] at block ⊢; omega), if_pos ⟨here, inside⟩, place]
      · rw [if_neg (by rw [size] at block ⊢; omega), if_neg fun both => inside both.2]
    · rw [if_neg fun both => block both.2, if_neg]
      rintro ⟨-, inside⟩
      rw [size] at block later
      omega

/-- A block of a file is among those a file can have. -/
theorem block_lt (more : i < last) (fits : last ≤ inodeMaxBytes) : i / blockSize < inodeMaxBlocks := by
  have size : blockSize = 512 := rfl
  have most : inodeMaxBytes = 71680 := rfl
  have blocks : inodeMaxBlocks = 140 := rfl
  rw [size, blocks]
  omega

/-- What a read leaves. -/
structure Reads (sblock : SuperBlock) (ino lo hi : Nat) (s s' : FsState) (synced : List Nat) :
    Prop where
  sound : Sound sblock s'
  grown : Grown sblock ino lo hi s s' synced
  byteAt : ∀ other position,
    s'.store.byteAt sblock other position = s.store.byteAt sblock other position

/-- The loop of `inode_read` copies the bytes of the file. -/
theorem readLoop_leads (layout : sblock.Layout) (sound : Sound sblock s)
    (loaded : s.inodes inode = some fields) (enough : last - i ≤ rounds)
    (fits : last ≤ inodeMaxBytes) :
    Leads (readLoop sblock inode last rounds i) s (fun bytes s' synced =>
        Reads sblock fields.inodeNo (i / blockSize) (blocksFor last) s s' synced ∧
        bytes = (List.range (last - i)).map fun j => s.store.byteAt sblock fields.inodeNo (i + j))
      (Fails sblock fields.inodeNo (i / blockSize) (blocksFor last) s) := by
  induction rounds generalizing i s fields with
  | zero =>
    refine .ret ⟨⟨sound, .refl, fun _ _ => rfl⟩, ?_⟩
    rw [Nat.le_zero.mp enough]
    rfl
  | succ rounds ih =>
    rw [readLoop]
    by_cases more : i < last
    · obtain ⟨lengths, next, below, shorter⟩ := block_split i last more
      rw [if_pos more]
      refine .bind ((inodeMap_leads layout sound loaded (block_lt more fits)).mono ?_
        fun _ fails => fails.mono (Nat.le_refl _) below)
      rintro ⟨blockNo, new⟩ s₁ synced ⟨sound₁, grown₁, bytes₁, owned⟩
      have grown₁' := grown₁.mono (Nat.le_refl _) below
      obtain ⟨entry, loaded₁, -⟩ := grown₁.grows.loaded loaded
      refine .bind (acquire_leads (sound₁.held _) (.bind (release_leads (sound₁.held _) ?_)))
      have onward := ih sound₁ loaded₁ (i := (i / blockSize + 1) * blockSize) (by omega)
      rw [next] at onward
      refine .bind (onward.mono ?_ ?_)
      · rintro bytes s₂ synced₂ ⟨⟨sound₂, grown₂, bytes₂⟩, rfl⟩
        refine .ret ⟨⟨sound₂, ?_, fun other position => ?_⟩, ?_⟩
        · simpa using grown₁'.trans (grown₂.mono (Nat.le_succ _) (Nat.le_refl _))
        · exact (bytes₂ other position).trans (bytes₁ other position)
        · conv_rhs => rw [← lengths, List.range_add, List.map_append, List.map_map]
          congr 1
          · refine List.map_congr_left fun j member => ?_
            have inBlock := List.mem_range.mp member
            rw [← bytes₁, byteAt_owned owned (by omega)]
          · refine List.map_congr_left fun j member => ?_
            have rest := List.mem_range.mp member
            rw [bytes₁, Function.comp_apply, block_next more (by omega)]
      · intro synced₂ fails
        simpa using (fails.mono (Nat.le_succ _) (Nat.le_refl _)).after grown₁'
    · rw [if_neg more]
      refine .ret ⟨⟨sound, .refl, fun _ _ => rfl⟩, ?_⟩
      rw [Nat.sub_eq_zero_of_le (by omega)]
      rfl

/-- What a write of some bytes at a place of a file leaves. -/
structure Writes (sblock : SuperBlock) (ino i last : Nat) (src : List UInt8) (s s' : FsState)
    (synced : List Nat) : Prop where
  sound : Sound sblock s'
  grown : Grown sblock ino (i / blockSize) (blocksFor last) s s' synced
  byteAt : ∀ other position, s'.store.byteAt sblock other position =
    if other = ino ∧ i ≤ position ∧ position < last then src.getD (position - i) 0
    else s.store.byteAt sblock other position
  mapped : i < last → ∀ k, i / blockSize ≤ k → k < blocksFor last →
    s'.store.own sblock (ino, .ofBlock k) ≠ none

/-- The loop of `inode_write` writes the bytes and changes no others. -/
theorem writeLoop_leads (layout : sblock.Layout) (sound : Sound sblock s)
    (loaded : s.inodes inode = some fields) (enough : last - i ≤ rounds)
    (fits : last ≤ inodeMaxBytes) {src : List UInt8} :
    Leads (writeLoop sblock ctx inode last rounds i src) s
      (fun _ s' synced => Writes sblock fields.inodeNo i last src s s' synced)
      (Fails sblock fields.inodeNo (i / blockSize) (blocksFor last) s) := by
  induction rounds generalizing i s fields src with
  | zero =>
    refine .ret ⟨sound, .refl, fun other position => ?_, fun more => by omega⟩
    rw [if_neg (by omega)]
  | succ rounds ih =>
    rw [writeLoop]
    by_cases more : i < last
    · obtain ⟨lengths, next, below, shorter⟩ := block_split i last more
      rw [if_pos more]
      refine .bind ((inodeMap_leads layout sound loaded (block_lt more fits)).mono ?_
        fun _ fails => fails.mono (Nat.le_refl _) below)
      rintro ⟨blockNo, new⟩ s₁ synced ⟨sound₁, grown₁, bytes₁, owned⟩
      have grown₁' := grown₁.mono (Nat.le_refl _) below
      obtain ⟨entry, loaded₁, -⟩ := grown₁.grows.loaded loaded
      refine .bind (acquire_leads (sound₁.held _) (store_leads ctx (.bind ?_)))
      obtain ⟨sound₂, grown₂⟩ := sound₁.put_file layout owned (Nat.le_refl _) below
        ((s₁.store.blocks blockNo).blit (i % blockSize)
          (min (blockSize - i % blockSize) (last - i)) fun byte => src.getD byte 0)
      refine release_leads (sound₂.held _) ?_
      have onward := @ih _ { fields with entry } ((i / blockSize + 1) * blockSize) sound₂
        loaded₁ (by omega) (src.drop (min (blockSize - i % blockSize) (last - i)))
      rw [next] at onward
      refine onward.mono ?_ ?_
      · rintro - s₃ synced₃ ⟨sound₃, grown₃, bytes₃, mapped₃⟩
        refine ⟨sound₃, ?_, fun other position => ?_, fun _ k above within => ?_⟩
        · have later : i / blockSize ≤ (i / blockSize + 1) * blockSize / blockSize := by omega
          simpa using (grown₁'.trans grown₂).trans (grown₃.mono later (Nat.le_refl _))
        · rw [bytes₃, Store.byteAt_put_file layout sound₁.consistent owned, bytes₁]
          by_cases here : other = fields.inodeNo
          · refine write_byte more here fun block => ?_
            subst here
            rw [← bytes₁, Store.byteAt, block, owned]
          · rw [if_neg fun both => here both.1, if_neg fun both => here both.1,
              if_neg fun both => here both.1]
        · by_cases first : k = i / blockSize
          · rw [first, grown₃.grows.kept _ _ (grown₂.grows.kept _ _ owned)]
            exact Option.some_ne_none _
          · refine mapped₃ ?_ k (by omega) within
            have last' := block_last within (show i / blockSize < k by omega)
            exact last'
      · intro synced₃ fails
        simpa using ((fails.mono (Nat.le_succ _) (Nat.le_refl _)).after grown₂).after grown₁'
    · rw [if_neg more]
      refine .ret ⟨sound, .refl, fun other position => ?_, fun some => by omega⟩
      rw [if_neg (by omega)]

end Loops

/-! ## The functions -/

section Functions

variable {sblock : SuperBlock} {s : FsState} {inode : Nat} {fields : Inode} {ctx : Ctx}

/-- The bytes of a file that a read of some bytes at a place is for. -/
def readBytes (sblock : SuperBlock) (s : FsState) (ino size offset count : Nat) : List UInt8 :=
  (List.range (min count (size - offset))).map fun j => s.store.byteAt sblock ino (offset + j)

/-- How many bytes are read from a place in the file. -/
theorem readCount_eq {size offset count : Nat} (inFile : offset ≤ size) (short : size < 2 ^ 64)
    (narrow : count + offset < 2 ^ 64) :
    (if (count + offset) % 2 ^ 64 > size then (size + 2 ^ 64 - offset) % 2 ^ 64 else count) =
      min count (size - offset) := by
  rw [Nat.mod_eq_of_lt narrow]
  split <;> omega

/-- `inode_read` of a file copies the bytes up to the end of the file, or stops for want of a free
block. -/
theorem inodeRead_leads (layout : sblock.Layout) (sound : Sound sblock s)
    (loaded : s.inodes inode = some fields) (file : fields.entry.type ≠ inodeDevice)
    {offset count : Nat} (inFile : offset ≤ fields.entry.numBytes.toNat)
    (narrow : count + offset < 2 ^ 64) :
    Leads (inodeRead sblock inode offset count) s (fun result s' synced =>
        Reads sblock fields.inodeNo (offset / blockSize)
          (blocksFor (offset + min count (fields.entry.numBytes.toNat - offset))) s s' synced ∧
        result.1 = readBytes sblock s fields.inodeNo fields.entry.numBytes.toNat offset count ∧
        result.2 = min count (fields.entry.numBytes.toNat - offset))
      (Fails sblock fields.inodeNo (offset / blockSize)
        (blocksFor (offset + min count (fields.entry.numBytes.toNat - offset))) s) := by
  have most : inodeMaxBytes = 71680 := rfl
  have short : fields.entry.numBytes.toNat ≤ inodeMaxBytes := by
    have live := sound.live loaded
    rw [sound.entry loaded] at live ⊢
    exact sound.consistent.short _ (sound.inside loaded) live
  have counted := readCount_eq inFile (by omega) narrow
  have last : (offset + min count (fields.entry.numBytes.toNat - offset)) % 2 ^ 64 =
      offset + min count (fields.entry.numBytes.toNat - offset) := Nat.mod_eq_of_lt (by omega)
  refine .bind (entry_leads loaded ?_)
  rw [if_neg file]
  simp only [counted, last]
  refine .bind ?_
  rw [assert, if_pos inFile]
  refine .ret (.bind ?_)
  rw [assert, if_pos (show offset + min count (fields.entry.numBytes.toNat - offset) ≤
    fields.entry.numBytes.toNat by omega)]
  refine .ret (.bind ?_)
  rw [assert, if_pos (Nat.le_add_right ..)]
  refine .ret (.bind ((readLoop_leads layout sound loaded (Nat.le_refl _) (by omega)).mono ?_ ?_))
  · rintro bytes s' synced ⟨reads, rfl⟩
    refine .ret ⟨?_, ?_, rfl⟩
    · simpa using reads
    · rw [readBytes, Nat.add_sub_cancel_left]
  · intro synced fails
    simpa using fails

/-- The entry of an inode with another size. -/
def resize (entry : InodeEntry) (size : Nat) : InodeEntry :=
  { entry with numBytes := .ofNat (max entry.numBytes.toNat size) }

theorem resize_size {entry : InodeEntry} {size : Nat} (small : size < 2 ^ 32) :
    (resize entry size).numBytes.toNat = max entry.numBytes.toNat size := by
  have narrow := entry.numBytes.toNat_lt
  rw [resize, UInt32.toNat_ofNat']
  exact Nat.mod_eq_of_lt (by omega)

/-- What `extend` leaves: the size is another, and the blocks are as they were. -/
structure Resized (sblock : SuperBlock) (inode : Nat) (fields : Inode) (size : Nat)
    (s s' : FsState) (synced : List Nat) : Prop where
  sound : Sound sblock s'
  memory : s'.inodes = Function.update s.inodes inode
    (some { fields with entry := resize fields.entry size })
  own : ∀ place, s'.store.own sblock place = s.store.own sblock place
  free : s'.store.freeCount sblock = s.store.freeCount sblock
  byteAt : ∀ other position,
    s'.store.byteAt sblock other position = s.store.byteAt sblock other position
  entries : ∀ other, other < sblock.numInodes → other ≠ fields.inodeNo →
    s'.store.inodeEntry sblock other = s.store.inodeEntry sblock other
  list : s'.list = s.list
  next : s'.next = s.next
  console : s'.console = s.console
  synced : ∀ blockNo ∈ synced, blockNo = sblock.toBlockNo fields.inodeNo

theorem extend_leads (layout : sblock.Layout) (sound : Sound sblock s)
    (loaded : s.inodes inode = some fields) {size : Nat} (fits : size ≤ inodeMaxBytes)
    {E : List Nat → Prop} :
    Leads (extend sblock ctx inode size) s
      (fun _ s' synced => Resized sblock inode fields size s s' synced) E := by
  have most : inodeMaxBytes = 71680 := rfl
  have inside := sound.inside loaded
  have valid : fields.valid = true := sound.valid loaded
  have live := sound.live loaded
  have onDiskEntry := sound.entry loaded
  refine .bind (entry_leads loaded ?_)
  by_cases shorter : fields.entry.numBytes.toNat < size
  · rw [if_pos shorter]
    have same : { fields.entry with numBytes := .ofNat size } = resize fields.entry size := by
      rw [resize, Nat.max_eq_right (by omega)]
    have number : (resize fields.entry size).numBytes.toNat = size := by
      rw [resize_size (by omega), Nat.max_eq_right (by omega)]
    have has : ∀ slot, s.store.has (resize fields.entry size) slot =
        s.store.own sblock (fields.inodeNo, slot) := by
      intro slot
      rw [Store.own_of_lt inside, ← onDiskEntry]
      cases slot <;> exact Store.has_eq rfl rfl
    obtain ⟨consistent, own, bytes⟩ := sound.consistent.rewrite layout inside has
      fun _ => by rwa [number]
    have entry : resize fields.entry size = (s.store.writeEntry sblock fields.inodeNo
        (resize fields.entry size)).inodeEntry sblock fields.inodeNo := by
      rw [Store.inodeEntry_writeEntry, if_pos rfl]
    have entries : ∀ other, other < sblock.numInodes → other ≠ fields.inodeNo →
        (s.store.writeEntry sblock fields.inodeNo (resize fields.entry size)).inodeEntry sblock other =
          s.store.inodeEntry sblock other := by
      intro other _ away
      rw [Store.inodeEntry_writeEntry, if_neg away]
    rw [same]
    refine .bind (setEntry_leads loaded (inodeSync_leads (Function.update_self ..) valid
      (sound.held _) ?_))
    refine ⟨sound.setInode loaded rfl valid live consistent rfl rfl entry entries, rfl, own, ?_, bytes,
      entries, rfl, rfl, rfl, by simp⟩
    exact Store.freeCount_congr fun blockNo onDisk => Store.used_writeEntry layout inside _ onDisk
  · rw [if_neg shorter]
    have same : resize fields.entry size = fields.entry := by
      rw [resize, Nat.max_eq_left (by omega), UInt32.ofNat_toNat]
    refine .ret ⟨sound, ?_, fun _ => rfl, rfl, fun _ _ => rfl, fun _ _ _ => rfl, rfl, rfl, rfl, by simp⟩
    rw [same, ← loaded, Function.update_eq_self]

/-- What `inode_write` leaves. -/
structure Wrote (sblock : SuperBlock) (inode : Nat) (fields : Inode) (offset : Nat)
    (src : List UInt8) (s s' : FsState) (synced : List Nat) : Prop where
  sound : Sound sblock s'
  byteAt : ∀ other position, s'.store.byteAt sblock other position =
    if other = fields.inodeNo ∧ offset ≤ position ∧ position < offset + src.length then
      src.getD (position - offset) 0
    else s.store.byteAt sblock other position
  kept : ∀ place blockNo, s.store.own sblock place = some blockNo →
    s'.store.own sblock place = some blockNo
  mapped : src ≠ [] → ∀ k, offset / blockSize ≤ k → k < blocksFor (offset + src.length) →
    s'.store.own sblock (fields.inodeNo, .ofBlock k) ≠ none
  /-- What is lacking has become less by as much as what is free. -/
  budget : ∀ lo hi, lo ≤ offset / blockSize → blocksFor (offset + src.length) ≤ hi →
    s'.store.lacks sblock fields.inodeNo lo hi + s.store.freeCount sblock ≤
      s.store.lacks sblock fields.inodeNo lo hi + s'.store.freeCount sblock
  loaded : ∃ entry, s'.inodes inode = some { fields with entry } ∧
    entry.plain = (resize fields.entry (offset + src.length)).plain
  memory : ∀ other, other ≠ inode →
    (s'.inodes other).map Inode.plain = (s.inodes other).map Inode.plain
  plain : ∀ other, other < sblock.numInodes → other ≠ fields.inodeNo →
    (s'.store.inodeEntry sblock other).plain = (s.store.inodeEntry sblock other).plain
  list : s'.list = s.list
  next : s'.next = s.next
  console : s'.console = s.console
  synced : ∀ blockNo ∈ synced, Touched sblock s s' fields.inodeNo (offset / blockSize)
    (blocksFor (offset + src.length)) blockNo

/-- There were not enough free blocks for a write. -/
def WriteFails (sblock : SuperBlock) (ino lo hi : Nat) (s : FsState) (synced : List Nat) : Prop :=
  Exhausted sblock s ino lo hi ∧ ∃ s', ∀ blockNo ∈ synced, Touched sblock s s' ino lo hi blockNo

/-- Blocks for the resized file are blocks for the file. -/
theorem Resized.touched {s₁ s' : FsState} {size lo hi blockNo : Nat} {synced : List Nat}
    (resized : Resized sblock inode fields size s s₁ synced)
    (touched : Touched sblock s₁ s' fields.inodeNo lo hi blockNo) :
    Touched sblock s s' fields.inodeNo lo hi blockNo := by
  obtain rfl | ⟨slot, owned, within, has, which⟩ := touched
  · exact .inl rfl
  · rw [resized.own] at which
    exact .inr ⟨slot, owned, within, has, which⟩

theorem Resized.lacks {s₁ : FsState} {size : Nat} {synced : List Nat}
    (resized : Resized sblock inode fields size s s₁ synced) (lo hi : Nat) :
    s₁.store.lacks sblock fields.inodeNo lo hi = s.store.lacks sblock fields.inodeNo lo hi := by
  simp only [Store.lacks, resized.own]

/-- `inode_write` to a file writes the bytes, or stops for want of a free block. -/
theorem inodeWrite_leads (layout : sblock.Layout) (sound : Sound sblock s)
    (loaded : s.inodes inode = some fields) (file : fields.entry.type ≠ inodeDevice) {offset : Nat}
    {src : List UInt8} (inFile : offset ≤ fields.entry.numBytes.toNat)
    (fits : offset + src.length ≤ inodeMaxBytes) :
    Leads (inodeWrite sblock ctx inode src offset) s
      (fun count s' synced => count = src.length ∧ Wrote sblock inode fields offset src s s' synced)
      (WriteFails sblock fields.inodeNo (offset / blockSize) (blocksFor (offset + src.length)) s) := by
  have most : inodeMaxBytes = 71680 := rfl
  have whole : (offset + src.length) % 2 ^ 64 = offset + src.length := Nat.mod_eq_of_lt (by omega)
  refine .bind (entry_leads loaded ?_)
  simp only [whole]
  rw [if_neg file]
  refine .bind ?_
  rw [assert, if_pos inFile]
  refine .ret (.bind ?_)
  rw [assert, if_pos fits]
  refine .ret (.bind ?_)
  rw [assert, if_pos (Nat.le_add_right ..)]
  refine .ret (.bind ((extend_leads layout sound loaded fits).mono ?_ fun _ => id))
  rintro - s₁ synced₁ resized
  have loaded₁ : s₁.inodes inode =
      some { fields with entry := resize fields.entry (offset + src.length) } := by
    rw [resized.memory, Function.update_self]
  refine .bind ((writeLoop_leads layout resized.sound loaded₁ (Nat.le_refl _) fits).mono ?_ ?_)
  · rintro - s₂ synced₂ ⟨sound₂, grown₂, bytes₂, mapped₂⟩
    refine .ret ⟨rfl, sound₂, fun other position => ?_, fun place old owned => ?_, fun some => ?_,
      fun lo hi above below => ?_, ?_, fun other away => ?_, fun other inside away => ?_,
      grown₂.grows.list.trans resized.list, grown₂.grows.next.trans resized.next,
      grown₂.grows.console.trans resized.console, fun blockNo member => ?_⟩
    · rw [bytes₂, resized.byteAt]
    · exact grown₂.grows.kept place old ((resized.own place).trans owned)
    · have positive := List.length_pos_iff.mpr some
      exact mapped₂ (by omega)
    · have budget := grown₂.budget lo hi above below
      simp only [resized.free, resized.lacks] at budget
      exact budget
    · exact grown₂.grows.loaded loaded₁
    · rw [grown₂.grows.memory, resized.memory, Function.update_of_ne away]
    · rw [grown₂.grows.plain other inside, resized.entries other inside away]
    · simp only [List.nil_append, List.append_nil, List.mem_append] at member
      obtain member | member := member
      · exact .inl (resized.synced blockNo member)
      · exact resized.touched (grown₂.synced blockNo member)
  · rintro synced₂ ⟨exhausted, s₂, grown₂⟩
    refine ⟨?_, s₂, fun blockNo member => ?_⟩
    · unfold Exhausted at exhausted ⊢
      simp only [resized.free, resized.lacks] at exhausted
      exact exhausted
    · simp only [List.nil_append, List.mem_append] at member
      obtain member | member := member
      · exact .inl (resized.synced blockNo member)
      · exact resized.touched (grown₂.synced blockNo member)

/-- `inode_write` beyond the largest file fails an assertion. -/
theorem inodeWrite_beyond (loaded : s.inodes inode = some fields)
    (file : fields.entry.type ≠ inodeDevice) {offset : Nat} {src : List UInt8}
    (inFile : offset ≤ fields.entry.numBytes.toNat) (narrow : offset + src.length < 2 ^ 64)
    (beyond : inodeMaxBytes < offset + src.length) {Q : Nat → FsState → List Nat → Prop}
    {E : List Nat → Prop} (stuck : E []) : Leads (inodeWrite sblock ctx inode src offset) s Q E := by
  refine .bind (entry_leads loaded ?_)
  rw [Nat.mod_eq_of_lt narrow, if_neg file]
  refine .bind ?_
  rw [assert, if_pos inFile]
  refine .ret (.bind ?_)
  rw [assert, if_neg (Nat.not_le.mpr beyond)]
  exact .of_none rfl rfl stuck

/-! ## One write after another -/

theorem blocksFor_mono {count more : Nat} (le : count ≤ more) : blocksFor count ≤ blocksFor more := by
  have size : blockSize = 512 := rfl
  rw [blocksFor, blocksFor, size]
  omega

theorem resize_resize {entry : InodeEntry} {size more : Nat} (small : size < 2 ^ 32)
    (le : size ≤ more) : resize (resize entry size) more = resize entry more := by
  have number : (resize entry size).numBytes.toNat = _ := resize_size small
  rw [resize, number, Nat.max_assoc, Nat.max_eq_right le]
  rfl

theorem resize_plain {entry other : InodeEntry} (same : entry.plain = other.plain) (size : Nat) :
    (resize entry size).plain = (resize other size).plain := by
  have numBytes := Store.plain_numBytes same
  obtain ⟨type, major, minor, numLinks, numBytes, addrs, indirect⟩ := entry
  obtain ⟨type', major', minor', numLinks', numBytes', addrs', indirect'⟩ := other
  simp only [InodeEntry.plain, InodeEntry.mk.injEq] at same
  simp only [resize, InodeEntry.plain, same]

/-- What two writes leave, the second where the first ends. -/
theorem append_byte {other ino offset position : Nat} {src more : List UInt8} {before : UInt8}
    (here : other = ino) :
    (if other = ino ∧ offset + src.length ≤ position ∧ position < offset + (src ++ more).length then
      more.getD (position - (offset + src.length)) 0
    else if other = ino ∧ offset ≤ position ∧ position < offset + src.length then
      src.getD (position - offset) 0
    else before) =
      if other = ino ∧ offset ≤ position ∧ position < offset + (src ++ more).length then
        (src ++ more).getD (position - offset) 0
      else before := by
  rw [List.length_append]
  by_cases late : offset + src.length ≤ position ∧ position < offset + (src.length + more.length)
  · rw [if_pos ⟨here, late⟩, if_pos ⟨here, by omega, late.2⟩, List.getD_append_right _ _ _ _ (by omega)]
    congr 1
    omega
  · rw [if_neg fun both => late both.2]
    by_cases early : offset ≤ position ∧ position < offset + src.length
    · rw [if_pos ⟨here, early⟩, if_pos ⟨here, by omega, by omega⟩, List.getD_append _ _ _ _ (by omega)]
    · rw [if_neg fun both => early both.2, if_neg fun both => by omega]

/-- Where the blocks are exhausted after a write, they were before it for the whole range. -/
theorem Wrote.exhausted {s' : FsState} {offset lo hi : Nat} {src : List UInt8}
    {synced : List Nat} (wrote : Wrote sblock inode fields offset src s s' synced)
    (above : lo ≤ offset / blockSize) (below : blocksFor (offset + src.length) ≤ hi)
    (exhausted : Exhausted sblock s' fields.inodeNo lo hi) :
    Exhausted sblock s fields.inodeNo lo hi := by
  obtain ⟨missing, full⟩ := exhausted
  have budget := wrote.budget lo hi above below
  have less : s'.store.lacks sblock fields.inodeNo lo hi ≤
      s.store.lacks sblock fields.inodeNo lo hi := by
    refine Store.lacks_mono (fun slot bare => ?_) lo hi
    cases earlier : s.store.own sblock (fields.inodeNo, slot) with
    | none => rfl
    | some old =>
      rw [wrote.kept _ _ earlier] at bare
      contradiction
  exact ⟨by omega, full.imp id fun few => by omega⟩

/-- Which blocks were synced may be left out. -/
theorem Wrote.weaken {s' : FsState} {offset : Nat} {src : List UInt8} {synced : List Nat}
    (wrote : Wrote sblock inode fields offset src s s' synced) :
    Wrote sblock inode fields offset src s s' [] :=
  { wrote with synced := nofun }

/-- A write of nothing. -/
theorem Wrote.nil (sound : Sound sblock s) (loaded : s.inodes inode = some fields) {offset : Nat}
    (inFile : offset ≤ fields.entry.numBytes.toNat) : Wrote sblock inode fields offset [] s s [] := by
  have same : resize fields.entry (offset + ([] : List UInt8).length) = fields.entry := by
    rw [List.length_nil, Nat.add_zero, resize, Nat.max_eq_left inFile, UInt32.ofNat_toNat]
  refine ⟨sound, fun other position => ?_, fun _ _ => id, fun some => absurd rfl some,
    fun _ _ _ _ => Nat.le_refl _, ⟨fields.entry, loaded, by rw [same]⟩, fun _ _ => rfl,
    fun _ _ _ => rfl, rfl, rfl, rfl, nofun⟩
  rw [List.length_nil, if_neg (by omega)]

theorem content_length (ino : Nat) :
    (s.store.content sblock ino).length = (s.store.inodeEntry sblock ino).numBytes.toNat := by
  simp [Store.content]

theorem content_getElem {ino position : Nat}
    (inFile : position < (s.store.content sblock ino).length) :
    (s.store.content sblock ino)[position] = s.store.byteAt sblock ino position := by
  simp [Store.content]

/-- A file of the same size with the same bytes. -/
theorem content_congr {s' : FsState} {ino : Nat}
    (size : (s'.store.inodeEntry sblock ino).numBytes = (s.store.inodeEntry sblock ino).numBytes)
    (bytes : ∀ position, s'.store.byteAt sblock ino position = s.store.byteAt sblock ino position) :
    s'.store.content sblock ino = s.store.content sblock ino := by
  rw [Store.content, size, Store.content, funext bytes]

/-- What a write does to the files. -/
theorem Wrote.content {s' : FsState} {offset : Nat} {src : List UInt8} {synced : List Nat}
    (wrote : Wrote sblock inode fields offset src s s' synced) (sound : Sound sblock s)
    (loaded : s.inodes inode = some fields) (inFile : offset ≤ fields.entry.numBytes.toNat)
    (fits : offset + src.length ≤ inodeMaxBytes) {ino : Nat} (inside : ino < sblock.numInodes) :
    s'.store.content sblock ino =
      if ino = fields.inodeNo then patch (s.store.content sblock ino) offset src
      else s.store.content sblock ino := by
  have most : inodeMaxBytes = 71680 := rfl
  split
  · rename_i here
    subst here
    obtain ⟨entry, found, plain⟩ := wrote.loaded
    have size : (s.store.content sblock fields.inodeNo).length = fields.entry.numBytes.toNat := by
      rw [content_length, sound.entry loaded]
    have size' : (s'.store.content sblock fields.inodeNo).length =
        max fields.entry.numBytes.toNat (offset + src.length) := by
      rw [content_length, ← wrote.sound.entry found, Store.plain_numBytes plain,
        resize_size (by omega)]
    have within : offset ≤ (s.store.content sblock fields.inodeNo).length := by omega
    refine List.ext_getElem (by rw [size', patch_length within, size]) fun position below below' => ?_
    refine Option.some.inj ?_
    rw [← List.getElem?_eq_getElem below', patch_getElem? within, content_getElem, wrote.byteAt]
    simp only [true_and]
    split
    · rw [List.getElem?_eq_getElem (by omega), List.getD_eq_getElem]
    · rw [List.getElem?_eq_getElem (by omega), content_getElem]
  · rename_i away
    refine content_congr (Store.plain_numBytes (wrote.plain ino inside away)) fun position => ?_
    rw [wrote.byteAt, if_neg fun here => away here.1]

/-- Every block of a file has its place. -/
def NoHoles (sblock : SuperBlock) (s : FsState) (ino : Nat) : Prop :=
  ∀ k, k < blocksFor (s.store.inodeEntry sblock ino).numBytes.toNat →
    s.store.own sblock (ino, .ofBlock k) ≠ none

/-- A write leaves no holes where there were none. -/
theorem Wrote.noHoles {s' : FsState} {ino offset : Nat} {src : List UInt8} {synced : List Nat}
    (wrote : Wrote sblock inode fields offset src s s' synced)
    (inFile : offset ≤ fields.entry.numBytes.toNat) (sound : Sound sblock s)
    (loaded : s.inodes inode = some fields) (fits : offset + src.length ≤ inodeMaxBytes)
    (inside : ino < sblock.numInodes) (whole : NoHoles sblock s ino) : NoHoles sblock s' ino := by
  have most : inodeMaxBytes = 71680 := rfl
  intro k below bare
  have earlier : ¬ k < blocksFor (s.store.inodeEntry sblock ino).numBytes.toNat := fun below => by
    cases had : s.store.own sblock (ino, .ofBlock k) with
    | none => exact whole k below had
    | some blockNo =>
      rw [wrote.kept _ _ had] at bare
      contradiction
  by_cases here : ino = fields.inodeNo
  · subst here
    obtain ⟨entry, found, plain⟩ := wrote.loaded
    rw [← sound.entry loaded] at earlier
    rw [← wrote.sound.entry found, Store.plain_numBytes plain, resize_size (by omega)] at below
    have blocks : ∀ n, blocksFor n = (n + 511) / 512 := fun _ => rfl
    have size : blockSize = 512 := rfl
    rw [blocks] at below earlier
    refine wrote.mapped (fun nothing => ?_) k (by rw [size]; omega) (by rw [blocks]; omega) bare
    subst nothing
    simp only [List.length_nil] at below
    omega
  · rw [Store.plain_numBytes (wrote.plain ino inside here)] at below
    exact earlier below

/-- A write with the inode locked, and the lock given back. -/
theorem Wrote.unlock {s₁ : FsState} {offset : Nat} {src : List UInt8} {synced : List Nat}
    {entry : InodeEntry}
    (wrote : Wrote sblock inode { fields with locked := true } offset src
      (s.setInode inode { fields with locked := true }) s₁ synced)
    (found : s₁.inodes inode = some { fields with locked := true, entry })
    (plain : entry.plain = (resize fields.entry (offset + src.length)).plain) :
    Wrote sblock inode fields offset src s (s₁.setInode inode { fields with entry }) synced := by
  refine ⟨wrote.sound.touch found rfl rfl rfl, wrote.byteAt, wrote.kept, wrote.mapped, wrote.budget,
    ⟨entry, Function.update_self .., plain⟩, fun other away => ?_, wrote.plain, wrote.list, wrote.next,
    wrote.console, wrote.synced⟩
  have same := wrote.memory other away
  simp only [FsState.setInode, Function.update_of_ne away] at same ⊢
  exact same

/-- Two writes, the second where the first ends, are one. -/
theorem Wrote.append {s₁ s₂ : FsState} {offset : Nat} {src more : List UInt8} {entry : InodeEntry}
    {synced later : List Nat} (one : Wrote sblock inode fields offset src s s₁ synced)
    (plain : entry.plain = (resize fields.entry (offset + src.length)).plain)
    (two : Wrote sblock inode { fields with entry } (offset + src.length) more s₁ s₂ later)
    (fits : offset + (src ++ more).length ≤ inodeMaxBytes) :
    Wrote sblock inode fields offset (src ++ more) s s₂ [] := by
  have most : inodeMaxBytes = 71680 := rfl
  have whole : offset + src.length + more.length = offset + (src ++ more).length := by
    rw [List.length_append, Nat.add_assoc]
  have size : blockSize = 512 := rfl
  refine ⟨two.sound, fun other position => ?_, fun place old owned =>
    two.kept _ _ (one.kept _ _ owned), fun some k above below => ?_, fun lo hi above below => ?_, ?_,
    fun other away => (two.memory other away).trans (one.memory other away),
    fun other inside away => (two.plain other inside away).trans (one.plain other inside away),
    two.list.trans one.list, two.next.trans one.next, two.console.trans one.console, nofun⟩
  · rw [two.byteAt, one.byteAt, whole]
    by_cases here : other = fields.inodeNo
    · exact append_byte here
    · rw [if_neg fun both => here both.1, if_neg fun both => here both.1,
        if_neg fun both => here both.1]
  · by_cases late : (offset + src.length) / blockSize ≤ k ∧ more ≠ []
    · exact two.mapped late.2 k late.1 (by rwa [whole])
    · have early : src ≠ [] ∧ k < blocksFor (offset + src.length) := by
        by_cases none : more = []
        · subst none
          rw [List.append_nil] at some below
          exact ⟨some, below⟩
        · have before : k < (offset + src.length) / blockSize := by
            by_contra after
            exact late ⟨by omega, none⟩
          rw [size] at above before
          refine ⟨?_, by rw [blocksFor, size]; omega⟩
          rintro rfl
          rw [List.length_nil] at before
          omega
      obtain ⟨old, owned⟩ := Option.ne_none_iff_exists'.mp (one.mapped early.1 k above early.2)
      rw [two.kept _ _ owned]
      exact Option.some_ne_none _
  · have first := one.budget lo hi above (Nat.le_trans (blocksFor_mono (by omega)) below)
    have second := two.budget lo hi (by rw [size] at above ⊢; omega) (by rwa [whole])
    simp only at second
    omega
  · obtain ⟨last, loaded, shape⟩ := two.loaded
    refine ⟨last, loaded, shape.trans ?_⟩
    rw [resize_plain plain, whole, resize_resize (by rw [List.length_append] at fits; omega) (by omega)]

end Functions

end FsState

end OsLab.Fs
