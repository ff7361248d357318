import OsLab.Fs.FileBytes
import OsLab.Fs.InodeCalls
import OsLab.Fs.LogAdmission
import OsLab.Kernel.SysfileRun

/-!
# Writing to open files

`filewrite` cuts what it writes into chunks, each with an operation of its own. On a regular file it
stores all bytes at the position of the file and moves the position, as long as the end is not beyond
`INODE_MAX_BYTES` and there are free blocks: the write of a chunk beyond that fails an assertion.
`writev` is a write of its buffers one after the other, and adds up what they return.
-/
namespace OsLab.Kernel.Sysfile

open OsLab.Lib OsLab.Fs OsLab.Fs.FsState
open SysProg

section Requests

variable {α : Type} {s : State} {E : Prop}

/-- Code on inodes runs on the part of the state below. -/
theorem lift_run (program : InodeProg α) (s : State) :
    (lift program).run State.serve s =
      (program.run FsState.serve s.fs).map fun result => (result.1, { s with fs := result.2 }) := by
  let around : FsState → State := fun fs => { s with fs }
  have answered : ∀ op fs, (Prog.request (SysOp.inode op) : SysProg op.Out).run State.serve
      (around fs) = (FsState.serve op fs).map fun result => (result.1, around result.2) :=
    fun op fs => Prog.run_request State.serve (SysOp.inode op) (around fs)
  exact Prog.run_translate answered program s.fs

/-- Code on inodes works on the part of the state below. -/
theorem lift_outcome {program : InodeProg α} {Q : α → State → Prop}
    (inner : Leads program s.fs (fun value fs _ => Q value { s with fs }) fun _ => E) :
    (lift program).Outcome State.serve s Q E := by
  rw [Leads, Prog.Shows] at inner
  rw [Prog.Outcome, lift_run]
  cases done : program.run FsState.serve s.fs with
  | none =>
    rw [done] at inner
    exact inner
  | some result =>
    rw [done] at inner
    exact inner

theorem loadFile_outcome {f : Nat} {Q : File → State → Prop} (inside : f < nfile)
    (next : Q (s.files f) s) : (loadFile f).Outcome State.serve s Q E := by
  refine .of_some ((Prog.run_request ..).trans ?_) next
  exact if_pos inside

theorem setFile_outcome {f : Nat} {fields : File} {Q : Unit → State → Prop} (inside : f < nfile)
    (next : Q () (s.setFile f fields)) : (SysProg.setFile f fields).Outcome State.serve s Q E := by
  refine .of_some ((Prog.run_request ..).trans ?_) next
  exact if_pos inside

theorem assert_outcome {holds : Prop} [Decidable holds] {Q : Unit → State → Prop} (yes : holds)
    (next : Q () s) : (SysProg.assert holds).Outcome State.serve s Q E :=
  lift_outcome (assert_leads yes next)

end Requests

/-- A file is open on a regular inode that nobody has locked, at a position that is not beyond the
end. -/
structure OnRegular (sblock : SuperBlock) (s : State) (f : Nat) (fields : Inode) : Prop where
  inside : f < nfile
  type : (s.files f).type = .inode
  sound : Sound sblock s.fs
  loaded : s.fs.inodes (s.files f).ip = some fields
  regular : fields.entry.type = inodeRegular
  counted : 0 < fields.rc
  open_ : fields.locked = false
  position : (s.files f).off ≤ fields.entry.numBytes.toNat

/-- Bytes were stored at the position of a file, and the position was moved. -/
structure Stored (sblock : SuperBlock) (f : Nat) (fields : Inode) (bytes : List UInt8)
    (s s' : State) : Prop where
  wrote : Wrote sblock (s.files f).ip fields (s.files f).off bytes s.fs s'.fs []
  /-- The position is behind them, and nothing else has changed. -/
  moved : s' = { s.setFile f { s.files f with off := (s.files f).off + bytes.length } with
    fs := s'.fs }

section Loop

variable {sblock : SuperBlock} {s s₁ s₂ : State} {f : Nat} {fields : Inode}

/-- The file after some bytes were stored. -/
theorem OnRegular.stored (before : OnRegular sblock s f fields) {bytes : List UInt8}
    (stored : Stored sblock f fields bytes s s₁)
    (fits : (s.files f).off + bytes.length ≤ inodeMaxBytes) :
    ∃ entry, entry.plain = (resize fields.entry ((s.files f).off + bytes.length)).plain ∧
      OnRegular sblock s₁ f { fields with entry } ∧
      s₁.files f = { s.files f with off := (s.files f).off + bytes.length } := by
  have most : inodeMaxBytes = 71680 := rfl
  obtain ⟨entry, loaded, plain⟩ := stored.wrote.loaded
  have file : s₁.files f = { s.files f with off := (s.files f).off + bytes.length } := by
    rw [stored.moved]
    exact Function.update_self ..
  have size : entry.numBytes.toNat =
      max fields.entry.numBytes.toNat ((s.files f).off + bytes.length) := by
    rw [Store.plain_numBytes plain, resize_size (by omega)]
  refine ⟨entry, plain, ⟨before.inside, ?_, stored.wrote.sound, ?_, ?_, before.counted, before.open_,
    ?_⟩, file⟩
  · rw [file]
    exact before.type
  · rw [file]
    exact loaded
  · exact (Store.plain_type plain).trans before.regular
  · rw [file, size]
    exact Nat.le_max_right ..

/-- One after another. -/
theorem Stored.append {bytes more : List UInt8} {entry : InodeEntry}
    (one : Stored sblock f fields bytes s s₁)
    (plain : entry.plain = (resize fields.entry ((s.files f).off + bytes.length)).plain)
    (file : s₁.files f = { s.files f with off := (s.files f).off + bytes.length })
    (two : Stored sblock f { fields with entry } more s₁ s₂)
    (fits : (s.files f).off + (bytes ++ more).length ≤ inodeMaxBytes) :
    Stored sblock f fields (bytes ++ more) s s₂ := by
  obtain ⟨wrote, moved⟩ := two
  rw [file] at wrote moved
  refine ⟨one.wrote.append plain wrote fits, ?_⟩
  rw [moved, one.moved]
  simp only [State.setFile, Function.update_idem, List.length_append, Nat.add_assoc]

/-- A chunk is stored, if it is not beyond the largest file. -/
theorem chunk_outcome (layout : sblock.Layout) (before : OnRegular sblock s f fields)
    {bytes : List UInt8} (short : bytes.length ≤ maxbytes)
    {rest : SysProg Unit} {Q : Unit → State → Prop} {E : Prop}
    (beyond : inodeMaxBytes < (s.files f).off + bytes.length → E)
    (next : (s.files f).off + bytes.length ≤ inodeMaxBytes →
      ∀ s', Stored sblock f fields bytes s s' → rest.Outcome State.serve s' Q E)
    (full : Exhausted sblock s.fs fields.inodeNo ((s.files f).off / blockSize)
      (blocksFor ((s.files f).off + bytes.length)) → E) :
    Prog.Outcome State.serve (do
      beginOp
      let fields ← loadFile f
      lift (inodeLock fields.ip)
      let now ← loadFile f
      let reallen ← lift (inodeWrite sblock .op now.ip bytes now.off)
      SysProg.setFile f { now with off := now.off + reallen }
      lift (inodeUnlock now.ip)
      endOp
      SysProg.assert (reallen = bytes.length)
      rest) s Q E := by
  have notDevice : fields.entry.type ≠ inodeDevice := by
    rw [before.regular]
    decide
  have locked : Sound sblock (s.fs.setInode (s.files f).ip { fields with locked := true }) :=
    before.sound.touch before.loaded rfl rfl rfl
  have present : (s.fs.setInode (s.files f).ip { fields with locked := true }).inodes
      (s.files f).ip = some { fields with locked := true } := Function.update_self ..
  refine .andThen (.of_some rfl (.andThen (loadFile_outcome before.inside ?_)))
  refine .andThen (lift_outcome (inodeLock_leads before.loaded before.counted before.open_ ?_))
  refine .andThen (loadFile_outcome before.inside (.andThen (lift_outcome ?_)))
  obtain long | fits := Nat.lt_or_ge inodeMaxBytes ((s.files f).off + bytes.length)
  case inl =>
    have narrow : (s.files f).off + bytes.length < 2 ^ 64 := by
      have position := before.position
      have size := fields.entry.numBytes.toNat_lt
      have most : maxbytes = 1536 := rfl
      omega
    exact inodeWrite_beyond present notDevice before.position narrow long
      (beyond long)
  refine (inodeWrite_leads layout locked present notDevice before.position
    fits).mono ?_ fun _ fails => full fails.1
  rintro reallen fs synced ⟨rfl, wrote⟩
  obtain ⟨entry, found, plain⟩ := wrote.loaded
  refine .andThen (setFile_outcome before.inside (.andThen (lift_outcome ?_)))
  refine inodeUnlock_leads found before.counted (.andThen (.of_some rfl (.andThen ?_)))
  refine assert_outcome rfl (next fits _ ⟨?_, rfl⟩)
  have unlocked := (wrote.unlock found plain).weaken
  have same : ({ fields with entry } : Inode) = { fields with locked := false, entry } := by
    rw [← before.open_]
  rw [same] at unlocked
  exact unlocked

end Loop

/-! ## `filewrite` -/

section Filewrite

variable {sblock : SuperBlock} {s : State} {f : Nat} {fields : Inode} {bytes : List UInt8}

end Filewrite

/-- A process has a regular file without blocks open, at a position. -/
def sparseOpen (size : UInt32) (writable : Bool) (off : Nat) : State :=
  { State.blank fun _ => .zero with
    fs := oneInode 25 (sparse size)
    files := Function.update (State.blank fun _ => .zero).files 0
      ⟨.inode, 1, true, writable, 0, 0, off⟩
    openfiles := fun _ fd => if fd = 0 then some 0 else none }

theorem sparseOpen_onRegular {size : UInt32} {off : Nat} (writable : Bool)
    (short : size.toNat ≤ inodeMaxBytes) (position : off ≤ size.toNat) :
    OnRegular (tinyDisk 25) (sparseOpen size writable off) 0 ⟨false, 1, 2, true, sparse size⟩ where
  inside := by decide
  type := rfl
  sound := sparse_sound (Nat.le_refl _) short
  loaded := rfl
  regular := rfl
  counted := Int.one_pos
  open_ := rfl
  position := position

section Writev

variable {sblock : SuperBlock} {s : State} {f : Nat} {fields : Inode} {iov : List (List UInt8)}

end Writev

/-! ## One operation -/

section Operation

variable {sblock : SuperBlock} {s s' : FsState} {ino lo hi : Nat} {synced : List Nat}

/-- The blocks that are synced for a range of blocks of a file, of which those before `first` are not
new: that of the inode, those of the range, the bitmap blocks of the new ones, and the indirect block
with its bitmap block. -/
theorem touched_card (first : Nat)
    (touched : ∀ blockNo ∈ synced, Touched sblock s s' ino lo hi blockNo)
    (mapped : ∀ k, lo ≤ k → k < first → s.store.own sblock (ino, .ofBlock k) ≠ none) :
    synced.toFinset.card ≤ 3 + (hi - lo) + (hi - first) := by
  let block := fun slot => (s'.store.own sblock (ino, slot)).getD 0
  let data := (Finset.Ico lo hi).image fun k => block (.ofBlock k)
  let marks := (Finset.Ico first hi).image fun k => sblock.freeBlock (block (.ofBlock k))
  let deep : Finset Nat :=
    {sblock.toBlockNo ino, block .indirect, sblock.freeBlock (block .indirect)}
  have cover : synced.toFinset ⊆ deep ∪ data ∪ marks := by
    intro blockNo member
    obtain rfl | ⟨slot, owned, within, has, which⟩ := touched blockNo (List.mem_toFinset.mp member)
    · simp [deep]
    · have block_eq : block slot = owned := by simp only [block, has, Option.getD_some]
      obtain ⟨rfl, -⟩ | ⟨k, low, high, rfl⟩ := within
      · obtain rfl | ⟨-, rfl⟩ := which
        · simp [deep, block_eq]
        · simp [deep, block_eq]
      · obtain rfl | ⟨bare, rfl⟩ := which
        · refine Finset.mem_union_left _ (Finset.mem_union_right _ (Finset.mem_image.mpr ?_))
          exact ⟨k, Finset.mem_Ico.mpr ⟨low, high⟩, block_eq⟩
        · have new : first ≤ k := Nat.not_lt.mp fun before => mapped k low before bare
          refine Finset.mem_union_right _ (Finset.mem_image.mpr ?_)
          exact ⟨k, Finset.mem_Ico.mpr ⟨new, high⟩, by rw [block_eq]⟩
  have deepCard : deep.card ≤ 3 := Finset.card_le_three
  have dataCard : data.card ≤ hi - lo := Finset.card_image_le.trans (Nat.card_Ico lo hi).le
  have marksCard : marks.card ≤ hi - first := Finset.card_image_le.trans (Nat.card_Ico first hi).le
  calc synced.toFinset.card
    _ ≤ (deep ∪ data ∪ marks).card := Finset.card_le_card cover
    _ ≤ (deep ∪ data).card + marks.card := Finset.card_union_le ..
    _ ≤ deep.card + data.card + marks.card := Nat.add_le_add_right (Finset.card_union_le ..) _
    _ ≤ 3 + (hi - lo) + (hi - first) := by omega

/-- A chunk of a file without holes is at most four blocks, of which at most three are new; where
there are four, the first was partly written before. -/
theorem chunk_card {offset count : Nat} (whole : NoHoles sblock s ino)
    (inFile : offset ≤ (s.store.inodeEntry sblock ino).numBytes.toNat) (chunk : count ≤ maxbytes)
    (touched : ∀ blockNo ∈ synced, Touched sblock s s' ino (offset / blockSize)
      (blocksFor (offset + count)) blockNo) :
    synced.toFinset.card ≤ opMaxNumBlocks := by
  have size : blockSize = 512 := rfl
  have most : maxbytes = 1536 := rfl
  have room : opMaxNumBlocks = 10 := rfl
  have blocks : ∀ n, blocksFor n = (n + 511) / 512 := fun _ => rfl
  by_cases aligned : offset % 512 = 0
  · have card := touched_card (offset / blockSize) touched fun k low high => by omega
    rw [blocks, size] at card
    omega
  · have card := touched_card (offset / blockSize + 1) touched fun k low high => by
      refine whole k ?_
      rw [size] at low high
      rw [blocks]
      omega
    rw [blocks, size] at card
    omega

/-- The loop of `filewrite` leaves no holes where there were none. -/
theorem filewriteLoop_noHoles (layout : sblock.Layout) {rounds f : Nat} {bytes : List UInt8}
    {s : State} {fields : Inode} (before : OnRegular sblock s f fields)
    (inside : ino < sblock.numInodes) (whole : NoHoles sblock s.fs ino) :
    (filewriteLoop sblock f rounds bytes).Outcome State.serve s
      (fun _ s' => NoHoles sblock s'.fs ino) True := by
  induction rounds generalizing s fields bytes with
  | zero => exact .ret whole
  | succ rounds ih =>
    rw [filewriteLoop]
    split
    · refine chunk_outcome layout before (List.length_take_le ..) (fun _ => trivial)
        (fun fits s₁ stored => ?_) fun _ => trivial
      obtain ⟨entry, -, after, -⟩ := before.stored stored fits
      exact ih after (stored.wrote.noHoles before.position before.sound before.loaded fits inside
        whole)
    · exact .ret whole

/-- A chunk of `filewrite` fits an operation. The write to a regular file without holes syncs at most
`OP_MAX_NUM_BLOCKS` blocks; so in the log `cache_sync` panics for none of them, as long as the
operation has synced no others and the other operations are as small. And `filewrite` leaves no holes
where there were none. -/
theorem chunk_fits_operation (layout : sblock.Layout) {t : State} {f : Nat} {fields : Inode}
    (before : OnRegular sblock t f fields) (whole : NoHoles sblock t.fs fields.inodeNo) :
    (∀ bytes : List UInt8, bytes.length ≤ maxbytes →
      (t.files f).off + bytes.length ≤ inodeMaxBytes →
      let synced := (inodeWrite sblock .op (t.files f).ip bytes (t.files f).off).observed
        FsState.serve InodeOp.synced t.fs
      synced.toFinset.card ≤ opMaxNumBlocks ∧
      ∀ (log : Log.State) (proc : Nat), (Log.machine sblock).Reach Log.OpsSmall log →
        Log.opSyncs proc log.history ⊆ synced.toFinset → ∀ blockNo ∈ synced, ∀ log',
        (Log.machine sblock).step log (.sync proc blockNo) = some log' →
        log'.panic ≠ some .syncFull) ∧
    ∀ (bytes : List UInt8) result t', (filewrite sblock f bytes).run State.serve t =
      some (result, t') → ∀ ino, ino < sblock.numInodes → NoHoles sblock t.fs ino →
        NoHoles sblock t'.fs ino := by
  refine ⟨fun bytes chunk fits => ?_, fun bytes result t' returned ino inside whole => ?_⟩
  · have notDevice : fields.entry.type ≠ inodeDevice := by
      rw [before.regular]
      decide
    have inFile := before.position
    rw [before.sound.entry before.loaded] at inFile
    have card : ((inodeWrite sblock .op (t.files f).ip bytes (t.files f).off).observed
        FsState.serve InodeOp.synced t.fs).toFinset.card ≤ opMaxNumBlocks := by
      have leads := @inodeWrite_leads _ _ _ _ .op layout before.sound before.loaded notDevice _ _
        before.position fits
      rw [Leads, Prog.Shows] at leads
      split at leads
      · exact chunk_card whole inFile chunk leads.2.synced
      · obtain ⟨-, s', touched⟩ := leads
        exact chunk_card whole inFile chunk touched
    refine ⟨card, fun log proc reached synced blockNo member log' taken => ?_⟩
    have small : Log.OpsSmall log (.sync proc blockNo) :=
      (Finset.card_le_card (Finset.insert_subset (List.mem_toFinset.mpr member) synced)).trans card
    exact (Log.small_invariant (reached.step small taken)).2.1
  · have outcome : (filewrite sblock f bytes).Outcome State.serve t
        (fun _ t' => NoHoles sblock t'.fs ino) True := by
      refine .andThen (loadFile_outcome before.inside ?_)
      simp only [before.type]
      split
      · exact .ret whole
      · exact .andThen ((filewriteLoop_noHoles layout before inside whole).mono
          (fun _ _ whole => .ret whole) id)
    exact outcome.result returned

/-- A whole chunk for an empty file. -/
theorem chunk_fits_operation_empty :
    ((inodeWrite (tinyDisk 25) .op 0 (List.replicate 1536 7) 0).observed FsState.serve InodeOp.synced
      (sparseOpen 0 true 0).fs).toFinset.card ≤ opMaxNumBlocks := by
  have whole : NoHoles (tinyDisk 25) (sparseOpen 0 true 0).fs 2 := by
    have empty : (sparseOpen 0 true 0).fs.store.inodeEntry (tinyDisk 25) 2 = sparse 0 :=
      oneInode_entry ..
    intro k below
    rw [empty] at below
    exact absurd below (Nat.not_lt_zero k)
  exact ((chunk_fits_operation (tinyDisk_layout (Nat.le_refl _))
    (sparseOpen_onRegular true (by decide) (by decide)) whole).1 (List.replicate 1536 7)
    (by rw [List.length_replicate]; decide) (by rw [List.length_replicate]; decide)).1

end Operation

/-! ## Reading what was written -/

section Fileread

variable {sblock : SuperBlock} {s : State} {f g count : Nat} {fields : Inode} {bytes : List UInt8}

end Fileread

end OsLab.Kernel.Sysfile
