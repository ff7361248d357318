import OsLab.Lib.Transition
import OsLab.Fs.InodeCalls
import OsLab.Fs.FileBytes

/-!
# Files are byte arrays

The content of a file is the list of its first `num_bytes` bytes. Whole calls of `inode_write`,
`inode_read` and `inode_clear`, on any inodes in memory and in any order, are run beside the same
calls on lists of bytes, where a write is a patch and a read is a slice. As long as the calls stay in
the file and there are blocks for them, they return what those on lists return, and the contents
agree. How data is cut into writes and into reads makes no difference for lists, and so not for files.
-/
namespace OsLab.Fs.ByteArrays

open OsLab.Lib OsLab.Fs.FsState

/-- The contents of files by the numbers of their inodes. -/
abbrev Files : Type := Nat → List UInt8

/-- A call on an inode in memory. -/
inductive Call where
  | write (ctx : Ctx) (inode : Nat) (src : List UInt8) (offset : Nat)
  | read (inode offset count : Nat)
  | clear (ctx : Ctx) (inode : Nat)

namespace Call

/-- The inode. -/
def inode : Call → Nat
  | .write _ inode _ _ => inode
  | .read inode _ _ => inode
  | .clear _ inode => inode

/-- The code: what it returns, and the bytes that it copies. -/
def program (sblock : SuperBlock) : Call → InodeProg (Int × List UInt8)
  | .write ctx inode src offset => do
    let count ← inodeWrite sblock ctx inode src offset
    return (count, [])
  | .read inode offset count => do
    let (bytes, ans) ← inodeRead sblock inode offset count
    return (ans, bytes)
  | .clear ctx inode => do
    inodeClear sblock ctx inode
    return (0, [])

/-- The same on lists of bytes. -/
def abstract (ino : Nat) (files : Files) : Call → (Int × List UInt8) × Files
  | .write _ _ src offset =>
    ((src.length, []), Function.update files ino (patch (files ino) offset src))
  | .read _ offset count =>
    (((slice (files ino) offset count).length, slice (files ino) offset count), files)
  | .clear _ _ => ((0, []), Function.update files ino [])

/-- There are blocks for what a call is for. -/
def Affordable (sblock : SuperBlock) (s : FsState) (fields : Inode) : Call → Prop
  | .write _ _ src offset =>
    ¬ Exhausted sblock s fields.inodeNo (offset / blockSize) (blocksFor (offset + src.length))
  | .read _ offset count =>
    ¬ Exhausted sblock s fields.inodeNo (offset / blockSize)
      (blocksFor (offset + min count (fields.entry.numBytes.toNat - offset)))
  | .clear _ _ => True

/-- A call starts in the file or at its end; a write does not go beyond the largest file, and the end
of a read has 64 bits. -/
def InFile (size : Nat) : Call → Prop
  | .write _ _ src offset => offset ≤ size ∧ offset + src.length ≤ inodeMaxBytes
  | .read _ offset count => offset ≤ size ∧ count + offset < 2 ^ 64
  | .clear _ _ => True

end Call

/-- The calls that files are byte arrays for. -/
def Allowed (sblock : SuperBlock) (s : FsState) (call : Call) : Prop :=
  ∃ fields ∈ s.inodes call.inode, fields.entry.type ≠ inodeDevice ∧
    call.InFile fields.entry.numBytes.toNat ∧ call.Affordable sblock s fields

instance (size : Nat) (call : Call) : Decidable (call.InFile size) :=
  match call with
  | .write _ _ _ _ => inferInstanceAs (Decidable (_ ∧ _))
  | .read _ _ _ => inferInstanceAs (Decidable (_ ∧ _))
  | .clear _ _ => isTrue trivial

instance (sblock : SuperBlock) (s : FsState) (fields : Inode) (call : Call) :
    Decidable (call.Affordable sblock s fields) :=
  match call with
  | .write _ _ _ _ => inferInstanceAs (Decidable (¬ _))
  | .read _ _ _ => inferInstanceAs (Decidable (¬ _))
  | .clear _ _ => isTrue trivial

instance (sblock : SuperBlock) (s : FsState) (call : Call) : Decidable (Allowed sblock s call) :=
  inferInstanceAs (Decidable (∃ fields ∈ s.inodes call.inode, _ ∧ _ ∧ _))

/-! ## One call -/

section Step

variable {sblock : SuperBlock} {s s' : FsState}

/-- The numbers of the inodes in memory. -/
def number (s : FsState) (inode : Nat) : Option Nat := (s.inodes inode).map Inode.inodeNo

theorem number_of_loaded {inode : Nat} {fields : Inode} (loaded : s.inodes inode = some fields) :
    number s inode = some fields.inodeNo := by
  rw [number, loaded, Option.map_some]

theorem number_of_plain {inode : Nat}
    (plain : (s'.inodes inode).map Inode.plain = (s.inodes inode).map Inode.plain) :
    number s' inode = number s inode := by
  have same := congrArg (Option.map Inode.inodeNo) plain
  rw [Option.map_map, Option.map_map] at same
  exact same

/-- A call did to the files what it does to lists. -/
structure Did (sblock : SuperBlock) (s : FsState) (files' : Files) (s' : FsState) : Prop where
  sound : Sound sblock s'
  content : ∀ ino, ino < sblock.numInodes → s'.store.content sblock ino = files' ino
  numbers : ∀ inode, number s' inode = number s inode

/-- A call that is allowed returns what it returns on lists, and does the same. -/
theorem call_leads (layout : sblock.Layout) (sound : Sound sblock s) {files : Files}
    (agree : ∀ ino, ino < sblock.numInodes → s.store.content sblock ino = files ino) {call : Call}
    {fields : Inode} (loaded : s.inodes call.inode = some fields)
    (file : fields.entry.type ≠ inodeDevice) (inFile : call.InFile fields.entry.numBytes.toNat)
    (affordable : call.Affordable sblock s fields) :
    Leads (call.program sblock) s (fun result s' _ =>
        result = (call.abstract fields.inodeNo files).1 ∧
          Did sblock s (call.abstract fields.inodeNo files).2 s') fun _ => False := by
  have inside := sound.inside loaded
  cases call with
  | write ctx inode src offset =>
    obtain ⟨start, fits⟩ := inFile
    replace loaded : s.inodes inode = some fields := loaded
    refine .bind ((inodeWrite_leads layout sound loaded file start fits).mono ?_
      fun _ fails => affordable fails.1)
    rintro _ s' synced ⟨rfl, wrote⟩
    refine .ret ⟨rfl, wrote.sound, fun ino there => ?_, fun other => ?_⟩
    · rw [wrote.content sound loaded start fits there, Call.abstract]
      simp only [Function.update_apply]
      split
      · rename_i here
        rw [agree ino there, here]
      · exact agree ino there
    · by_cases here : other = inode
      · obtain ⟨entry, found, -⟩ := wrote.loaded
        rw [here, number_of_loaded found, number_of_loaded loaded]
      · exact number_of_plain (wrote.memory other here)
  | read inode offset count =>
    obtain ⟨start, narrow⟩ := inFile
    refine .bind ((inodeRead_leads layout sound loaded file start narrow).mono ?_
      fun _ fails => affordable fails.1)
    rintro ⟨bytes, ans⟩ s' synced ⟨reads, copied, returned⟩
    simp only at copied returned
    have size : (files fields.inodeNo).length = fields.entry.numBytes.toNat := by
      rw [← agree _ inside, content_length, sound.entry loaded]
    have read : slice (files fields.inodeNo) offset count = bytes := by
      rw [copied, ← agree _ inside, slice, Store.content, ← sound.entry loaded, readBytes]
      refine List.ext_getElem ?_ fun position below below' => ?_
      · simp
      · simp
    have length : bytes.length = min count (fields.entry.numBytes.toNat - offset) := by
      rw [← read, slice, List.length_take, List.length_drop, size]
    refine .ret ⟨?_, reads.sound, fun ino there => ?_, fun other =>
      number_of_plain (reads.grown.grows.memory other)⟩
    · rw [Call.abstract, read, length, returned]
    · refine Eq.trans ?_ (agree ino there)
      exact content_congr (Store.plain_numBytes (reads.grown.grows.plain ino there))
        (reads.byteAt ino)
  | clear ctx inode =>
    replace loaded : s.inodes inode = some fields := loaded
    refine .bind ((inodeClear_cleared layout sound loaded).mono ?_ fun _ => id)
    rintro _ s' synced cleared
    refine .ret ⟨rfl, cleared.sound, fun ino there => ?_, fun other => ?_⟩
    · simp only [Call.abstract, Function.update_apply]
      split
      · rename_i here
        have now : s'.inodes inode = some { fields with entry := fields.entry.cleared } := by
          rw [cleared.memory, Function.update_self]
        have entry := cleared.sound.entry now
        rw [here, Store.content, ← entry]
        rfl
      · rename_i away
        rw [← agree ino there]
        exact content_congr (by rw [cleared.entries ino there away])
          fun position => cleared.byteAt ino position away
    · by_cases here : other = inode
      · subst here
        rw [number_of_loaded loaded, number, cleared.memory, Function.update_self]
        rfl
      · rw [number, cleared.memory, Function.update_of_ne here]
        rfl

end Step

/-! ## Runs -/

/-- The file system, lists of bytes beside it, and the bytes that reads have copied. -/
structure Paired where
  fs : FsState
  files : Files
  /-- What was copied, in order. -/
  copied : List UInt8

/-- A whole call, on the file system and on the lists. -/
def Paired.step (sblock : SuperBlock) (p : Paired) (call : Call) : Option Paired :=
  (number p.fs call.inode).bind fun ino =>
    ((call.program sblock).run serve p.fs).map fun result =>
      ⟨result.2, (call.abstract ino p.files).2, p.copied ++ result.1.2⟩

/-- The state is sound, and the contents of the files are the lists. -/
structure Agrees (sblock : SuperBlock) (p : Paired) : Prop where
  sound : Sound sblock p.fs
  content : ∀ ino, ino < sblock.numInodes → p.fs.store.content sblock ino = p.files ino

/-- Calls one after another, on the file system and on lists that agree with it. -/
def machine (sblock : SuperBlock) : Machine Paired Call where
  init := Agrees sblock
  step := Paired.step sblock

/-- The calls that are allowed in a state. -/
def Guard (sblock : SuperBlock) (p : Paired) (call : Call) : Prop := Allowed sblock p.fs call

instance (sblock : SuperBlock) (p : Paired) (call : Call) : Decidable (Guard sblock p call) :=
  inferInstanceAs (Decidable (Allowed sblock p.fs call))

section Runs

variable {sblock : SuperBlock} {p p' : Paired} {call : Call} {inode ino offset : Nat} {ctx : Ctx}

/-- A call that is allowed returns what it returns on lists. -/
theorem Agrees.returns (layout : sblock.Layout) (agrees : Agrees sblock p)
    (allowed : Guard sblock p call) (named : number p.fs call.inode = some ino) :
    ∃ s', (call.program sblock).run serve p.fs = some ((call.abstract ino p.files).1, s') ∧
      Did sblock p.fs (call.abstract ino p.files).2 s' := by
  obtain ⟨fields, loaded, file, inFile, affordable⟩ := allowed
  obtain rfl : fields.inodeNo = ino :=
    Option.some.inj ((number_of_loaded loaded).symm.trans named)
  have leads := call_leads layout agrees.sound agrees.content loaded file inFile affordable
  obtain ⟨_, s', returned, rfl, did⟩ := leads.outcome.returns id
  exact ⟨s', returned, did⟩

/-- What a step that is allowed leaves. -/
theorem Agrees.step (layout : sblock.Layout) (agrees : Agrees sblock p)
    (allowed : Guard sblock p call) (named : number p.fs call.inode = some ino)
    (taken : p.step sblock call = some p') :
    Agrees sblock p' ∧ (∀ inode, number p'.fs inode = number p.fs inode) ∧
      p'.files = (call.abstract ino p.files).2 ∧
      p'.copied = p.copied ++ (call.abstract ino p.files).1.2 := by
  obtain ⟨s', returned, did⟩ := agrees.returns layout allowed named
  rw [Paired.step, named, Option.bind_some, returned, Option.map_some] at taken
  obtain rfl := Option.some.inj taken
  exact ⟨⟨did.sound, did.content⟩, did.numbers, rfl, rfl⟩

theorem Agrees.reach (layout : sblock.Layout)
    (reached : (machine sblock).Reach (Guard sblock) p) : Agrees sblock p := by
  refine reached.invariant (P := Agrees sblock) (fun _ => id) ?_
  rintro p call p' - agrees allowed taken
  have ⟨fields, loaded, _⟩ := allowed
  exact (agrees.step layout allowed (number_of_loaded loaded) taken).1

/-- Writes one behind the other. -/
def writes (ctx : Ctx) (inode : Nat) : Nat → List (List UInt8) → List Call
  | _, [] => []
  | offset, piece :: rest =>
    .write ctx inode piece offset :: writes ctx inode (offset + piece.length) rest

/-- Reads one behind the other. -/
def reads (inode : Nat) : Nat → List Nat → List Call
  | _, [] => []
  | offset, count :: rest => .read inode offset count :: reads inode (offset + count) rest

/-- The first of several calls. -/
theorem exec_cons {rest : List Call}
    (done : (machine sblock).exec (Guard sblock) p (call :: rest) = some p') :
    Guard sblock p call ∧ ∃ middle, p.step sblock call = some middle ∧
      (machine sblock).exec (Guard sblock) middle rest = some p' := by
  simp only [Machine.exec, Option.ite_none_right_eq_some, Option.bind_eq_some_iff] at done
  exact done

/-- Several calls and several more. -/
theorem exec_append {first rest : List Call}
    (done : (machine sblock).exec (Guard sblock) p (first ++ rest) = some p') :
    ∃ middle, (machine sblock).exec (Guard sblock) p first = some middle ∧
      (machine sblock).exec (Guard sblock) middle rest = some p' := by
  induction first generalizing p with
  | nil => exact ⟨p, rfl, done⟩
  | cons call first ih =>
    obtain ⟨allowed, next, taken, later⟩ := exec_cons done
    obtain ⟨middle, one, two⟩ := ih later
    refine ⟨middle, ?_, two⟩
    rw [Machine.exec, if_pos allowed]
    exact (congrArg (Option.bind · _) taken).trans one

/-- What writes one behind the other leave. -/
theorem Agrees.afterWrites (layout : sblock.Layout) (agrees : Agrees sblock p)
    (named : number p.fs inode = some ino) {pieces : List (List UInt8)}
    (done : (machine sblock).exec (Guard sblock) p (writes ctx inode offset pieces) = some p') :
    Agrees sblock p' ∧ number p'.fs inode = some ino ∧
      p'.files ino = patchAll (p.files ino) offset pieces ∧ p'.copied = p.copied := by
  induction pieces generalizing p offset with
  | nil =>
    obtain rfl := Option.some.inj done
    exact ⟨agrees, named, rfl, rfl⟩
  | cons piece rest ih =>
    obtain ⟨allowed, middle, taken, later⟩ := exec_cons done
    obtain ⟨agrees₁, numbers, files, copied⟩ := agrees.step layout allowed named taken
    obtain ⟨agrees₂, named₂, files₂, copied₂⟩ := ih agrees₁ ((numbers inode).trans named) later
    refine ⟨agrees₂, named₂, ?_, ?_⟩
    · rw [files₂, files, patchAll]
      exact congrArg (patchAll · _ _) (Function.update_self ..)
    · rw [copied₂, copied, Call.abstract, List.append_nil]

/-- What reads one behind the other copy. -/
theorem Agrees.afterReads (layout : sblock.Layout) (agrees : Agrees sblock p)
    (named : number p.fs inode = some ino) {counts : List Nat}
    (done : (machine sblock).exec (Guard sblock) p (reads inode offset counts) = some p') :
    p'.copied = p.copied ++ sliceAll (p.files ino) offset counts := by
  induction counts generalizing p offset with
  | nil =>
    obtain rfl := Option.some.inj done
    rw [sliceAll, List.append_nil]
  | cons count rest ih =>
    obtain ⟨allowed, middle, taken, later⟩ := exec_cons done
    obtain ⟨agrees₁, numbers, files, copied⟩ := agrees.step layout allowed named taken
    rw [ih agrees₁ ((numbers inode).trans named) later, copied, files, List.append_assoc]
    rfl

/-- What is written in pieces is read back in any pieces. -/
theorem Agrees.readBack (layout : sblock.Layout) (agrees : Agrees sblock p)
    (named : number p.fs inode = some ino) {pieces : List (List UInt8)} {counts : List Nat}
    (total : counts.sum = pieces.flatten.length)
    (done : (machine sblock).exec (Guard sblock) p
      (writes ctx inode offset pieces ++ reads inode offset counts) = some p') :
    p'.copied = p.copied ++ pieces.flatten := by
  obtain ⟨middle, wrote, read⟩ := exec_append done
  obtain ⟨agrees₁, named₁, files, copied⟩ := agrees.afterWrites layout named wrote
  rw [agrees₁.afterReads layout named₁ read, copied, files]
  congr 1
  cases pieces with
  | nil =>
    rw [sliceAll_eq, total]
    simp [slice]
  | cons piece rest =>
    -- the first write was in the file
    obtain ⟨⟨fields, loaded, -, ⟨start, -⟩, -⟩, -⟩ := exec_cons wrote
    obtain rfl : fields.inodeNo = ino :=
      Option.some.inj ((number_of_loaded loaded).symm.trans named)
    refine sliceAll_patchAll ?_ _ total
    rw [← agrees.content _ (agrees.sound.inside loaded), content_length,
      ← agrees.sound.entry loaded]
    exact start

end Runs

/-- Files are byte arrays. After every run of calls that are allowed the contents of the files are
the lists, and every call that is allowed returns, with the value and the bytes that it has on lists,
and leaves the contents that it leaves there. What is written in pieces is read back in any
pieces. -/
theorem files_are_byte_arrays (sblock : SuperBlock) (layout : sblock.Layout) (p : Paired)
    (reached : (machine sblock).Reach (Guard sblock) p) :
    (∀ ino, ino < sblock.numInodes → p.fs.store.content sblock ino = p.files ino) ∧
    (∀ call, Guard sblock p call → ∃ ino s', number p.fs call.inode = some ino ∧
      (call.program sblock).run serve p.fs = some ((call.abstract ino p.files).1, s') ∧
      ∀ other, other < sblock.numInodes →
        s'.store.content sblock other = (call.abstract ino p.files).2 other) ∧
    ∀ ctx inode offset pieces counts p', counts.sum = pieces.flatten.length →
      (machine sblock).exec (Guard sblock) p
        (writes ctx inode offset pieces ++ reads inode offset counts) = some p' →
      number p.fs inode ≠ none → p'.copied = p.copied ++ pieces.flatten := by
  have agrees := Agrees.reach layout reached
  refine ⟨agrees.content, fun call allowed => ?_, ?_⟩
  · have ⟨fields, loaded, _⟩ := allowed
    have named := number_of_loaded loaded
    obtain ⟨s', returned, did⟩ := agrees.returns layout allowed named
    exact ⟨fields.inodeNo, s', named, returned, did.content⟩
  · intro ctx inode offset pieces counts p' total done present
    obtain ⟨ino, named⟩ := Option.ne_none_iff_exists'.mp present
    exact agrees.readBack layout named total done

/-- An empty file, on a disk with some data blocks. -/
def emptyFile (data : Nat) : Paired where
  fs := oneInode data (sparse 0)
  files := (oneInode data (sparse 0)).store.content (tinyDisk data)
  copied := []

theorem emptyFile_agrees {data : Nat} (small : data ≤ 25) :
    Agrees (tinyDisk data) (emptyFile data) :=
  ⟨sparse_sound small (Nat.zero_le _), fun _ _ => rfl⟩

/-- Three bytes written in two pieces and read back in two others. -/
theorem files_are_byte_arrays_pieces :
    ∃ p, (machine (tinyDisk 25)).exec (Guard (tinyDisk 25)) (emptyFile 25)
      (writes .op 0 0 [[1, 2], [3]] ++ reads 0 0 [1, 2]) = some p ∧ p.copied = [1, 2, 3] := by
  have returns : ((machine (tinyDisk 25)).exec (Guard (tinyDisk 25)) (emptyFile 25)
      (writes .op 0 0 [[1, 2], [3]] ++ reads 0 0 [1, 2])).isSome := by decide +kernel
  obtain ⟨p, done⟩ := Option.isSome_iff_exists.mp returns
  have reached : (machine (tinyDisk 25)).Reach (Guard (tinyDisk 25)) (emptyFile 25) :=
    .start (emptyFile_agrees (Nat.le_refl _))
  exact ⟨p, done, (files_are_byte_arrays _ (tinyDisk_layout (Nat.le_refl _)) _ reached).2.2 _ _ _ _ _
    p rfl done (by decide)⟩

/-- A byte for an empty file on a disk without free blocks, and a read at the end of a file whose own
end does not have 64 bits: neither returns. -/
theorem file_calls_panic :
    (Agrees (tinyDisk 0) (emptyFile 0) ∧
      (inodeWrite (tinyDisk 0) .op 0 [1] 0).stop serve (emptyFile 0).fs = some (.block .panic)) ∧
    ∃ s fields, Sound (tinyDisk 25) s ∧ s.inodes 0 = some fields ∧
      fields.entry.type = inodeRegular ∧ fields.entry.numBytes = 1 ∧
      (inodeRead (tinyDisk 25) 0 1 (2 ^ 64 - 1)).stop serve s = some (.block .panic) :=
  ⟨⟨emptyFile_agrees (Nat.zero_le _), by decide +kernel⟩, oneInode 25 (sparse 1), _,
    sparse_sound (Nat.le_refl _) (by decide), rfl, rfl, rfl, by decide +kernel⟩

end OsLab.Fs.ByteArrays
