import OsLab.Lib.Transition
import OsLab.Fs.DirectorySpec

/-!
# A directory is a map

Whole calls of `inode_lookup`, `inode_insert` and `inode_remove` on one directory, run beside a map
from names to numbers: inserting a name that is not there binds it, and removing the entry of a name
unbinds it. As long as there are blocks for the calls, the directory is the map, and names are put
into the first entry that is free.
-/
namespace OsLab.Fs.DirectoryMap

open OsLab.Lib OsLab.Fs.FsState

/-- A call on the directory. -/
inductive Call where
  | lookup (name : List UInt8)
  | insert (ctx : Ctx) (name : List UInt8) (inodeNo : Nat)
  | remove (ctx : Ctx) (index : Nat)

/-- The file system, and the map beside it. -/
structure Paired where
  fs : FsState
  /-- The number that was last inserted under a name and not removed since. -/
  bound : List UInt8 → Option Nat

section Machine

variable (sblock : SuperBlock) (inode : Nat)

/-- The bytes of the directory. -/
def content (s : FsState) : List UInt8 :=
  match s.inodes inode with
  | some fields => s.store.content sblock fields.inodeNo
  | none => []

/-- What the entries of the directory say. -/
def entries (s : FsState) : Slots (List UInt8) Nat := DirEntry.slots (content sblock inode s)

/-- The entry at an index that is in use. -/
def entryAt (s : FsState) (index : Nat) : Option (List UInt8 × Nat) :=
  if index % dirEntryBytes = 0 then ((entries sblock inode s)[index / dirEntryBytes]?).join else none

/-- A whole call on the directory and on the map. -/
def Paired.step (p : Paired) (act : Call × Stack) : Option Paired :=
  match act.1 with
  | .lookup name =>
    ((inodeLookup sblock act.2 inode name).run serve p.fs).map fun result => { p with fs := result.2 }
  | .insert ctx name inodeNo =>
    ((inodeInsert sblock act.2 ctx inode name inodeNo).run serve p.fs).map fun result =>
      ⟨result.2, if result.1 = 2 ^ 64 - 1 then p.bound
        else Function.update p.bound name (some inodeNo)⟩
  | .remove ctx index =>
    ((inodeRemove sblock act.2 ctx inode index).run serve p.fs).map fun result =>
      ⟨result.2, match entryAt sblock inode p.fs index with
        | some (name, _) => Function.update p.bound name none
        | none => p.bound⟩

/-- The directory is one, no name is in it twice, and it is the map. -/
structure Holds (p : Paired) : Prop where
  dir : ∃ fields, IsDirectory sblock p.fs inode fields
  distinct : (entries sblock inode p.fs).Distinct
  bound : (entries sblock inode p.fs).toMap = p.bound

/-- Calls one at a time, from a directory and the map that it is. -/
def machine : Machine Paired (Call × Stack) where
  init := Holds sblock inode
  step := Paired.step sblock inode

/-- There are blocks for the bytes of the directory up to some place. -/
def Affordable (s : FsState) (last : Nat) : Prop :=
  ∀ fields ∈ s.inodes inode, ¬ Exhausted sblock s fields.inodeNo 0 (blocksFor last)

/-- Names that fit, numbers of 16 bits, indices of entries in use, and blocks. The buffer on the stack
has the size of an entry. -/
def Allowed (p : Paired) (act : Call × Stack) : Prop :=
  act.2.garbage.length = dirEntryBytes ∧
  match act.1 with
  | .lookup name => DirEntry.IsName name ∧
    Affordable sblock inode p.fs (content sblock inode p.fs).length
  | .insert _ name inodeNo => DirEntry.IsName name ∧ 0 < inodeNo ∧ inodeNo < 2 ^ 16 ∧
    insertEnd name (entries sblock inode p.fs) (content sblock inode p.fs).length ≤ inodeMaxBytes ∧
    Affordable sblock inode p.fs
      (insertEnd name (entries sblock inode p.fs) (content sblock inode p.fs).length)
  | .remove _ index => entryAt sblock inode p.fs index ≠ none ∧
    Affordable sblock inode p.fs (content sblock inode p.fs).length

instance (s : FsState) (last : Nat) : Decidable (Affordable sblock inode s last) :=
  inferInstanceAs (Decidable (∀ fields ∈ s.inodes inode, _))

instance (p : Paired) (act : Call × Stack) : Decidable (Allowed sblock inode p act) := by
  unfold Allowed
  cases act.1 <;> infer_instance

end Machine

section Calls

variable {sblock : SuperBlock} {inode : Nat} {p : Paired} {s s' : FsState} {fields : Inode}
  {stack : Stack} {name : List UInt8}

theorem content_eq (loaded : s.inodes inode = some fields) :
    content sblock inode s = s.store.content sblock fields.inodeNo := by
  rw [content, loaded]

theorem entries_eq (loaded : s.inodes inode = some fields) :
    entries sblock inode s = DirEntry.slots (s.store.content sblock fields.inodeNo) := by
  rw [entries, content_eq loaded]

/-- No file has another content. -/
def SameFiles (sblock : SuperBlock) (s s' : FsState) : Prop :=
  ∀ ino, ino < sblock.numInodes → s'.store.content sblock ino = s.store.content sblock ino

/-- Only the directory has another content. -/
def OtherFiles (sblock : SuperBlock) (inode : Nat) (s s' : FsState) : Prop :=
  ∀ ino, ino < sblock.numInodes → (∀ fields ∈ s.inodes inode, ino ≠ fields.inodeNo) →
    s'.store.content sblock ino = s.store.content sblock ino

/-- A directory that was only read. -/
theorem Holds.read {lo hi : Nat} {synced : List Nat} (holds : Holds sblock inode p)
    (loaded : p.fs.inodes inode = some fields)
    (reads : Reads sblock fields.inodeNo lo hi p.fs s' synced) :
    SameFiles sblock p.fs s' ∧ Holds sblock inode { p with fs := s' } := by
  obtain ⟨fields', dir⟩ := holds.dir
  obtain rfl := Option.some.inj (loaded.symm.trans dir.loaded)
  obtain ⟨entry, -, dir₁⟩ := dir.reads reads
  have same : entries sblock inode s' = entries sblock inode p.fs := by
    rw [entries_eq dir₁.loaded, entries_eq loaded, reads.content (dir.sound.inside dir.loaded)]
  refine ⟨fun ino inside => reads.content inside, ⟨_, dir₁⟩, ?_, ?_⟩
  · rw [same]
    exact holds.distinct
  · rw [same]
    exact holds.bound

/-- What `inode_lookup` returns, and that it leaves the directory. -/
theorem Holds.lookup (layout : sblock.Layout) (holds : Holds sblock inode p)
    (affordable : Affordable sblock inode p.fs (content sblock inode p.fs).length) :
    ∃ s', (inodeLookup sblock stack inode name).run serve p.fs =
        some (((entries sblock inode p.fs).find name).map
          fun found => (found.1, dirEntryBytes * found.2), s') ∧
      SameFiles sblock p.fs s' ∧ Holds sblock inode { p with fs := s' } := by
  obtain ⟨fields, dir⟩ := holds.dir
  have enough := affordable fields dir.loaded
  rw [content_eq dir.loaded, dir.size] at enough
  obtain ⟨_, s', returned, reads, rfl⟩ := (@inodeLookup_leads _ _ _ _ stack name layout dir).returns
    fun _ fails => enough fails.1
  rw [← entries_eq dir.loaded] at returned
  exact ⟨s', returned, holds.read dir.loaded reads⟩

/-- What `inode_insert` returns and does. -/
theorem Holds.insert (layout : sblock.Layout) (holds : Holds sblock inode p) {ctx : Ctx} {ino : Nat}
    (isName : DirEntry.IsName name) (some_ : 0 < ino) (narrow : ino < 2 ^ 16)
    (fits : insertEnd name (entries sblock inode p.fs) (content sblock inode p.fs).length ≤
      inodeMaxBytes)
    (affordable : Affordable sblock inode p.fs
      (insertEnd name (entries sblock inode p.fs) (content sblock inode p.fs).length)) :
    ∃ result s', (inodeInsert sblock stack ctx inode name ino).run serve p.fs = some (result, s') ∧
      if (p.bound name).isSome then result = 2 ^ 64 - 1 ∧ SameFiles sblock p.fs s' ∧
        Holds sblock inode { p with fs := s' }
      else result = dirEntryBytes * (entries sblock inode p.fs).firstFree ∧
        OtherFiles sblock inode p.fs s' ∧
        entries sblock inode s' = patch (entries sblock inode p.fs)
          (entries sblock inode p.fs).firstFree [some (name, ino)] ∧
        Holds sblock inode ⟨s', Function.update p.bound name (some ino)⟩ := by
  obtain ⟨fields, dir⟩ := holds.dir
  have enough := affordable fields dir.loaded
  have bound : (p.bound name).isSome = ((entries sblock inode p.fs).find name).isSome := by
    rw [← holds.bound, Slots.toMap, Option.isSome_map]
  rw [bound]
  have free := Slots.firstFree_le (entries sblock inode p.fs)
  have distinct := holds.distinct
  have map := holds.bound
  rw [content_eq dir.loaded, entries_eq dir.loaded, dir.size] at fits enough
  rw [entries_eq dir.loaded] at free distinct map ⊢
  obtain ⟨result, s', returned, did⟩ := (@inodeInsert_leads _ _ _ _ stack name ctx layout dir ino
    fits).returns fun _ => enough
  refine ⟨result, s', returned, ?_⟩
  split at did
  · rename_i there
    rw [if_pos there]
    obtain ⟨rfl, updated⟩ := did
    obtain ⟨entry, dir₁⟩ := dir.same updated
    have same : entries sblock inode s' = DirEntry.slots (p.fs.store.content sblock fields.inodeNo) := by
      rw [entries_eq dir₁.loaded, updated.content]
    refine ⟨rfl, fun ino inside => ?_, ⟨_, dir₁⟩, by rwa [same], by rwa [same]⟩
    by_cases here : ino = fields.inodeNo
    · rw [here, updated.content]
    · exact updated.others ino inside here
  · rename_i absent
    rw [if_neg absent]
    obtain ⟨rfl, updated⟩ := did
    have absent := Option.not_isSome_iff_eq_none.mp absent
    have slot := DirEntry.slot_pack isName some_ narrow
    obtain ⟨entry, dir₁, slots⟩ := dir.patched (by rwa [DirEntry.slots_length] at free)
      (DirEntry.pack_length ino name) (fun name' ino' same => by
        rw [slot] at same
        exact (Prod.mk.inj (Option.some.inj same)).1 ▸ isName.short) updated
    have now : entries sblock inode s' = _ := (entries_eq dir₁.loaded).trans slots
    rw [slot] at now
    refine ⟨rfl, fun other inside away => updated.others other inside (away fields dir.loaded), now,
      ⟨_, dir₁⟩, ?_, ?_⟩
    · rw [now]
      exact distinct.put free absent
    · rw [now, Slots.toMap_put distinct free Slots.firstFree_free absent, map]

/-- What `inode_remove` does. -/
theorem Holds.remove (layout : sblock.Layout) (holds : Holds sblock inode p) {ctx : Ctx}
    {index ino : Nat} (sized : stack.garbage.length = dirEntryBytes)
    (there : entryAt sblock inode p.fs index = some (name, ino))
    (affordable : Affordable sblock inode p.fs (content sblock inode p.fs).length) :
    ∃ s', (inodeRemove sblock stack ctx inode index).run serve p.fs = some ((), s') ∧
      OtherFiles sblock inode p.fs s' ∧
      entries sblock inode s' = patch (entries sblock inode p.fs) (index / dirEntryBytes) [none] ∧
      Holds sblock inode ⟨s', Function.update p.bound name none⟩ := by
  obtain ⟨fields, dir⟩ := holds.dir
  have enough := affordable fields dir.loaded
  rw [content_eq dir.loaded, dir.size] at enough
  have distinct := holds.distinct
  have map := holds.bound
  rw [entryAt, Option.ite_none_right_eq_some, Option.join_eq_some_iff] at there
  obtain ⟨whole, there⟩ := there
  rw [entries_eq dir.loaded] at there distinct map ⊢
  have below := (List.getElem?_eq_some_iff.mp there).1
  rw [DirEntry.slots_length] at below
  have place : dirEntryBytes * (index / dirEntryBytes) = index :=
    Nat.mul_div_cancel' (Nat.dvd_of_mod_eq_zero whole)
  obtain ⟨_, s', returned, updated⟩ := (@inodeRemove_leads _ _ _ _ stack ctx layout dir sized _
    below).returns fun _ => enough
  rw [place] at returned
  obtain ⟨entry, dir₁, slots⟩ := dir.patched (Nat.le_of_lt below) (DirEntry.freed_length below)
    (fun name' ino' same => by rw [DirEntry.slot_free] at same; contradiction) updated
  have now : entries sblock inode s' = _ := (entries_eq dir₁.loaded).trans slots
  rw [DirEntry.slot_free] at now
  refine ⟨s', returned, fun other inside away => updated.others other inside
    (away fields dir.loaded), now, ⟨_, dir₁⟩, ?_, ?_⟩
  · rw [now]
    exact distinct.free (by rw [DirEntry.slots_length]; omega)
  · rw [now, Slots.toMap_free distinct there, map]

/-- The index of an entry is not `-1`. -/
theorem index_ne (i : Nat) : dirEntryBytes * i ≠ 2 ^ 64 - 1 := by
  have size : dirEntryBytes = 16 := rfl
  rw [size]
  omega

/-- What a call that is allowed leaves is the map again. -/
theorem Holds.step (layout : sblock.Layout) {act : Call × Stack} {p' : Paired}
    (holds : Holds sblock inode p) (allowed : Allowed sblock inode p act)
    (taken : p.step sblock inode act = some p') : Holds sblock inode p' := by
  obtain ⟨call, stack⟩ := act
  obtain ⟨sized, allowed⟩ := allowed
  cases call with
  | lookup name =>
    obtain ⟨s', returned, -, after⟩ := @Holds.lookup _ _ _ stack name layout holds allowed.2
    simp only [Paired.step, returned, Option.map_some, Option.some.injEq] at taken
    exact taken ▸ after
  | insert ctx name ino =>
    obtain ⟨isName, some_, narrow, fits, affordable⟩ := allowed
    obtain ⟨result, s', returned, did⟩ := @Holds.insert _ _ _ stack name layout holds ctx ino isName
      some_ narrow fits affordable
    simp only [Paired.step, returned, Option.map_some, Option.some.injEq] at taken
    split at did
    · obtain ⟨rfl, -, after⟩ := did
      rw [if_pos rfl] at taken
      exact taken ▸ after
    · obtain ⟨rfl, -, -, after⟩ := did
      rw [if_neg (index_ne _)] at taken
      exact taken ▸ after
  | remove ctx index =>
    obtain ⟨there, affordable⟩ := allowed
    obtain ⟨⟨name, ino⟩, there⟩ := Option.ne_none_iff_exists'.mp there
    obtain ⟨s', returned, -, -, after⟩ := @Holds.remove _ _ _ stack name layout holds ctx _ _ sized
      there affordable
    simp only [Paired.step, returned, there, Option.map_some, Option.some.injEq] at taken
    exact taken ▸ after

theorem Holds.reach (layout : sblock.Layout)
    (reached : (machine sblock inode).Reach (Allowed sblock inode) p) : Holds sblock inode p :=
  reached.invariant (P := Holds sblock inode) (fun _ => id)
    fun _ _ _ _ holds allowed taken => holds.step layout allowed taken

end Calls

/-- A directory is a finite map. After every run of calls that are allowed no two entries in use have
the same name. Looking up a name gives the number that it is bound to, with the index of its entry, or
nothing. Inserting a name gives `-1`, as an unsigned number, exactly where it is bound, and then
changes no file; otherwise it puts an entry into the lowest free one, or behind the last, and returns
its index. Removing makes the entry free. -/
theorem directory_is_map (sblock : SuperBlock) (layout : sblock.Layout) (inode : Nat) (p : Paired)
    (reached : (machine sblock inode).Reach (Allowed sblock inode) p) :
    (entries sblock inode p.fs).Distinct ∧
    (∀ name stack, Allowed sblock inode p (.lookup name, stack) → ∃ found s',
      (inodeLookup sblock stack inode name).run serve p.fs = some (found, s') ∧
      SameFiles sblock p.fs s' ∧ found.map Prod.fst = p.bound name ∧
      ∀ ino index, found = some (ino, index) → entryAt sblock inode p.fs index = some (name, ino)) ∧
    (∀ ctx name ino stack, Allowed sblock inode p (.insert ctx name ino, stack) → ∃ result s',
      (inodeInsert sblock stack ctx inode name ino).run serve p.fs = some (result, s') ∧
      (result = 2 ^ 64 - 1 ↔ p.bound name ≠ none) ∧
      (p.bound name ≠ none → SameFiles sblock p.fs s') ∧
      (p.bound name = none → ∃ i, (entries sblock inode p.fs).LowestFree i ∧
        result = dirEntryBytes * i ∧ OtherFiles sblock inode p.fs s' ∧
        entries sblock inode s' = patch (entries sblock inode p.fs) i [some (name, ino)])) ∧
    ∀ ctx index stack, Allowed sblock inode p (.remove ctx index, stack) → ∃ s',
      (inodeRemove sblock stack ctx inode index).run serve p.fs = some ((), s') ∧
      OtherFiles sblock inode p.fs s' ∧
      entries sblock inode s' = patch (entries sblock inode p.fs) (index / dirEntryBytes) [none] := by
  have holds := Holds.reach layout reached
  refine ⟨holds.distinct, fun name stack allowed => ?_, fun ctx name ino stack allowed => ?_,
    fun ctx index stack allowed => ?_⟩
  · obtain ⟨s', returned, same, -⟩ := @Holds.lookup _ _ _ stack name layout holds allowed.2.2
    refine ⟨_, s', returned, same, ?_, fun ino index found => ?_⟩
    · rw [← holds.bound, Slots.toMap, Option.map_map]
      rfl
    · obtain ⟨⟨value, i⟩, there, same⟩ := Option.map_eq_some_iff.mp found
      obtain ⟨rfl, rfl⟩ := Prod.mk.inj same
      have size : 0 < dirEntryBytes := by decide
      simp only [entryAt, Nat.mul_mod_right, if_true, Nat.mul_div_cancel_left _ size,
        Slots.getElem?_of_find there, Option.join_some]
  · obtain ⟨-, isName, some_, narrow, fits, affordable⟩ := allowed
    obtain ⟨result, s', returned, did⟩ := @Holds.insert _ _ _ stack name layout holds ctx ino isName
      some_ narrow fits affordable
    refine ⟨result, s', returned, ?_⟩
    rw [← Option.isSome_iff_ne_none]
    split at did
    · rename_i bound
      obtain ⟨rfl, same, -⟩ := did
      exact ⟨⟨fun _ => bound, fun _ => rfl⟩, fun _ => same,
        fun none => by rw [none] at bound; contradiction⟩
    · rename_i absent
      obtain ⟨rfl, others, now, -⟩ := did
      exact ⟨⟨fun same => absurd same (index_ne _), fun bound => absurd bound absent⟩,
        fun bound => absurd bound absent,
        fun _ => ⟨_, Slots.firstFree_lowest _, rfl, others, now⟩⟩
  · obtain ⟨sized, there, affordable⟩ := allowed
    obtain ⟨⟨name, ino⟩, there⟩ := Option.ne_none_iff_exists'.mp there
    obtain ⟨s', returned, others, now, -⟩ := @Holds.remove _ _ _ stack name layout holds ctx _ _ sized
      there affordable
    exact ⟨s', returned, others, now⟩

/-- An empty directory, on a disk with some data blocks. -/
def emptyDir (data : Nat) : Paired where
  fs := oneInode data { InodeEntry.zero with type := inodeDirectory, numLinks := 1 }
  bound _ := none

theorem emptyDir_holds {data : Nat} (small : data ≤ 25) :
    Holds (tinyDisk data) 0 (emptyDir data) := by
  let entry : InodeEntry := { InodeEntry.zero with type := inodeDirectory, numLinks := 1 }
  have sound : Sound (tinyDisk data) (emptyDir data).fs :=
    oneInode_sound small (show inodeDirectory ≠ inodeInvalid by decide)
      (fun i => by simp [InodeEntry.zero, InodeEntry.addr]) rfl (Nat.zero_le _)
  have loaded : (emptyDir data).fs.inodes 0 = some ⟨false, 1, 2, true, entry⟩ := rfl
  have empty : (emptyDir data).fs.store.content (tinyDisk data) 2 = [] := by
    rw [Store.content, ← sound.entry loaded]
    rfl
  have none : entries (tinyDisk data) 0 (emptyDir data).fs = [] := by
    rw [entries_eq loaded, empty]
    rfl
  refine ⟨⟨_, sound, loaded, rfl, rfl, fun name ino member => ?_⟩, ?_, ?_⟩
  · rw [empty] at member
    contradiction
  · rw [none]
    intro i j name value value' here
    simp at here
  · rw [none]
    rfl

/-- A stack of zeros. -/
def zeros : Stack := ⟨[], [], List.replicate dirEntryBytes 0⟩

/-- A name is put into an empty directory and looked up. -/
theorem directory_is_map_insert : ∃ p found s',
    (machine (tinyDisk 25) 0).Reach (Allowed (tinyDisk 25) 0) p ∧
    (inodeLookup (tinyDisk 25) zeros 0 [97]).run serve p.fs = some (found, s') ∧
    found.map Prod.fst = some 5 := by
  have shown : ((machine (tinyDisk 25) 0).exec (Allowed (tinyDisk 25) 0) (emptyDir 25)
      [(.insert .op [97] 5, zeros)]).map (fun p => (decide (Allowed (tinyDisk 25) 0 p
        (.lookup [97], zeros)), p.bound [97])) = some (true, some 5) := by decide +kernel
  obtain ⟨p, reached, same⟩ := Machine.Reach.exec_map (emptyDir_holds (Nat.le_refl _)) shown
  obtain ⟨allowed, bound⟩ := Prod.mk.inj same
  obtain ⟨found, s', returned, -, number, -⟩ := (directory_is_map _
    (tinyDisk_layout (Nat.le_refl _)) 0 p reached).2.1 [97] zeros (of_decide_eq_true allowed)
  exact ⟨p, found, s', reached, returned, number.trans bound⟩

/-- A name for an empty directory on a disk without free blocks: `inode_insert` does not return. -/
theorem insert_full_disk : Holds (tinyDisk 0) 0 (emptyDir 0) ∧ DirEntry.IsName [97] ∧
    (content (tinyDisk 0) 0 (emptyDir 0).fs).length < inodeMaxBytes ∧
    (inodeInsert (tinyDisk 0) zeros .op 0 [97] 5).stop serve (emptyDir 0).fs =
      some (.block .panic) :=
  ⟨emptyDir_holds (Nat.zero_le _), by decide +kernel, by decide +kernel, by decide +kernel⟩

end OsLab.Fs.DirectoryMap
