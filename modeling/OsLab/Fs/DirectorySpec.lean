import OsLab.Lib.SlotTable
import OsLab.Fs.FileBytes
import OsLab.Fs.InodeCalls

/-!
# What the directory functions do

The content of a directory is a row of entries, each free or with the number of an inode under a
name. Over it `inode_lookup` finds a name, `inode_insert` puts one into the first free entry or behind
the last, and `inode_remove` makes an entry free. The names of the entries in use end in them, so
that what the stack holds does not matter.
-/
namespace OsLab.Fs

open OsLab.Lib

namespace DirEntry

/-- The name of an entry, as far as it is in the entry. -/
def text (now : List UInt8) : List UInt8 :=
  ((now.drop 2).take fileNameMaxLength).takeWhile (· ≠ 0)

/-- What an entry says: nothing where it is free. -/
def slot (now : List UInt8) : Option (List UInt8 × Nat) :=
  if inodeNo now = 0 then none else some (text now, inodeNo now)

/-- What the entries of a directory say. -/
def slots (content : List UInt8) : Slots (List UInt8) Nat :=
  (List.range (content.length / dirEntryBytes)).map fun i =>
    slot (slice content (dirEntryBytes * i) dirEntryBytes)

/-- A name that fits an entry with a zero behind it. -/
structure IsName (name : List UInt8) : Prop where
  some : name ≠ []
  short : name.length < fileNameMaxLength
  nonzero : ∀ byte ∈ name, byte ≠ 0

instance (name : List UInt8) : Decidable (IsName name) :=
  haveI : Decidable (∀ byte ∈ name, byte ≠ 0) := List.decidableBAll _ name
  decidable_of_iff (name ≠ [] ∧ name.length < fileNameMaxLength ∧ ∀ byte ∈ name, byte ≠ 0)
    ⟨fun ⟨nonempty, short, nonzero⟩ => ⟨nonempty, short, nonzero⟩,
      fun isName => ⟨isName.some, isName.short, isName.nonzero⟩⟩

section Slots

variable {content now : List UInt8} {i : Nat}

@[simp] theorem slots_length (content : List UInt8) :
    (slots content).length = content.length / dirEntryBytes := by simp [slots]

theorem slots_getElem? (inside : i < content.length / dirEntryBytes) :
    (slots content)[i]? = some (slot (slice content (dirEntryBytes * i) dirEntryBytes)) := by
  simp [slots, inside]

theorem entry_length (inside : i < content.length / dirEntryBytes) :
    (slice content (dirEntryBytes * i) dirEntryBytes).length = dirEntryBytes := by
  have size : dirEntryBytes = 16 := rfl
  rw [slice, List.length_take, List.length_drop]
  rw [size] at inside ⊢
  omega

/-- An entry with the number zero has the size of an entry. -/
theorem freed_length (inside : i < content.length / dirEntryBytes) :
    (pack 0 ((slice content (dirEntryBytes * i) dirEntryBytes).drop 2)).length = dirEntryBytes := by
  rw [pack, List.length_append, List.length_drop, entry_length inside]
  rfl

/-- The entries from an index on. -/
theorem slots_drop (inside : i < content.length / dirEntryBytes) :
    (slots content).drop i = slot (slice content (dirEntryBytes * i) dirEntryBytes) ::
      (slots content).drop (i + 1) := by
  have below : i < (slots content).length := by rwa [slots_length]
  rw [List.drop_eq_getElem_cons below]
  congr 1
  exact Option.some.inj ((List.getElem?_eq_getElem below).symm.trans (slots_getElem? inside))

/-- Another entry, or one behind the last. -/
theorem slots_patch {record : List UInt8} (whole : content.length % dirEntryBytes = 0)
    (inside : i ≤ content.length / dirEntryBytes) (width : record.length = dirEntryBytes) :
    slots (patch content (dirEntryBytes * i) record) = patch (slots content) i [slot record] := by
  have size : dirEntryBytes = 16 := rfl
  have within : dirEntryBytes * i ≤ content.length := by
    rw [size] at inside ⊢
    omega
  have length : (patch content (dirEntryBytes * i) record).length = _ := patch_length within
  have inside' : i ≤ (slots content).length := by rwa [slots_length]
  refine List.ext_getElem? fun j => ?_
  rw [Slots.getElem?_patch_one _ inside']
  by_cases there : j < (patch content (dirEntryBytes * i) record).length / dirEntryBytes
  · rw [slots_getElem? there]
    split
    · rename_i here
      rw [here, ← width, slice_patch (by rw [width]; exact within)]
    · rename_i away
      rw [length, width, size] at there
      rw [size] at whole inside
      rw [slots_getElem? (by rw [size]; omega), slice_patch_apart within]
      rw [width, size]
      omega
  · have none : (slots (patch content (dirEntryBytes * i) record))[j]? = none :=
      List.getElem?_eq_none (by rw [slots_length]; omega)
    rw [length, width, size] at there
    rw [size] at whole inside
    rw [none, if_neg (by omega), List.getElem?_eq_none]
    rw [slots_length, size]
    omega

end Slots

/-- The number of an entry that was packed. -/
theorem inodeNo_pack (ino : Nat) (name : List UInt8) : inodeNo (pack ino name) = ino % 2 ^ 16 := by
  have digits : inodeNo (pack ino name) = word 2 (digit ino) := by
    refine word_congr fun index below => ?_
    obtain rfl | rfl : index = 0 ∨ index = 1 := by omega
    · rfl
    · rfl
  rw [digits, word_digit]
  rfl

/-- A name that fits is copied with a zero behind it. -/
theorem text_pack (ino : Nat) {name : List UInt8} (isName : IsName name) :
    text (pack ino (strncpy name)) = name := by
  obtain ⟨-, short, nonzero⟩ := isName
  have copied : strncpy name =
      name ++ 0 :: List.replicate (fileNameMaxLength - name.length - 1) 0 := by
    rw [strncpy, List.take_of_length_le (Nat.le_of_lt short), List.rightpad,
      ← List.replicate_succ]
    congr 2
    omega
  have bytes : (pack ino (strncpy name)).drop 2 = strncpy name := rfl
  have whole : (strncpy name).take fileNameMaxLength = strncpy name := by
    refine List.take_of_length_le ?_
    rw [copied, List.length_append, List.length_cons, List.length_replicate]
    omega
  rw [text, bytes, whole, copied]
  refine List.takeWhile_append_of_pos (fun byte member => ?_) |>.trans ?_
  · simpa using nonzero byte member
  · simp

/-- An entry that was packed. -/
theorem slot_pack {ino : Nat} {name : List UInt8} (isName : IsName name) (some_ : 0 < ino)
    (narrow : ino < 2 ^ 16) : slot (pack ino (strncpy name)) = some (name, ino) := by
  rw [slot, inodeNo_pack, Nat.mod_eq_of_lt narrow, if_neg (by omega), text_pack ino isName]

theorem slot_free (name : List UInt8) : slot (pack 0 name) = none := by
  rw [slot, inodeNo_pack, if_pos (Nat.zero_mod _)]

/-- An entry in use has a number. -/
theorem slots_used {content : List UInt8} {i ino : Nat} {name : List UInt8}
    (there : (slots content)[i]? = some (some (name, ino))) : ino ≠ 0 := by
  obtain ⟨below, same⟩ := List.getElem?_eq_some_iff.mp there
  rw [slots_length] at below
  rw [slots_getElem? below, Option.some.injEq, slot, Option.ite_none_left_eq_some] at there
  exact (Prod.mk.inj (Option.some.inj there.2)).2 ▸ there.1

theorem pack_length (ino : Nat) (name : List UInt8) :
    (pack ino (strncpy name)).length = dirEntryBytes := by
  have size : fileNameMaxLength = 14 := rfl
  simp only [pack, strncpy, List.length_append, List.length_rightpad, List.length_take,
    List.length_cons, List.length_nil, dirEntryBytes, size]
  omega

/-- An entry that is free or has another name. -/
theorem slot_differ {now name : List UInt8} (away : ¬(inodeNo now ≠ 0 ∧ name = text now))
    (ino : Nat) : slot now ≠ some (name, ino) := by
  intro same
  rw [slot, Option.ite_none_left_eq_some] at same
  exact away ⟨same.1, (Prod.mk.inj (Option.some.inj same.2)).1.symm⟩

/-- A buffer after an entry was read into it. -/
theorem slot_overlay {bytes : List UInt8} (width : bytes.length = dirEntryBytes)
    (buffer : List UInt8) : inodeNo (overlay bytes buffer) = inodeNo bytes ∧
      text (overlay bytes buffer) = text bytes := by
  have size : dirEntryBytes = 16 := rfl
  constructor
  · refine word_congr fun index below => ?_
    rw [overlay, List.getD_append _ _ _ _ (by omega)]
  · rw [text, overlay, List.drop_append_of_le_length (by omega), List.take_append_of_le_length, text]
    rw [List.length_drop, width]
    exact Nat.le_refl _

/-- The name of an entry in which it ends. -/
theorem name_eq_text {now : List UInt8} (stack : Stack) (short : (text now).length < fileNameMaxLength) :
    name stack now = text now := if_neg (Nat.ne_of_lt short)

end DirEntry

namespace FsState

/-- An inode in memory is a directory: a row of entries, and the names of those in use end in
them. -/
structure IsDirectory (sblock : SuperBlock) (s : FsState) (inode : Nat) (fields : Inode) : Prop where
  sound : Sound sblock s
  loaded : s.inodes inode = some fields
  type : fields.entry.type = inodeDirectory
  whole : fields.entry.numBytes.toNat % dirEntryBytes = 0
  terminated : ∀ name ino, some (name, ino) ∈
    DirEntry.slots (s.store.content sblock fields.inodeNo) → name.length < fileNameMaxLength

section Lookup

variable {sblock : SuperBlock} {s s' : FsState} {inode : Nat} {fields : Inode} {stack : Stack}
  {name : List UInt8} {synced : List Nat} {lo hi : Nat}

theorem IsDirectory.size (dir : IsDirectory sblock s inode fields) :
    (s.store.content sblock fields.inodeNo).length = fields.entry.numBytes.toNat := by
  rw [content_length, dir.sound.entry dir.loaded]

theorem IsDirectory.short (dir : IsDirectory sblock s inode fields) :
    fields.entry.numBytes.toNat ≤ inodeMaxBytes := by
  have live := dir.sound.live dir.loaded
  rw [dir.sound.entry dir.loaded] at live ⊢
  exact dir.sound.consistent.short _ (dir.sound.inside dir.loaded) live

/-- The files after a read. -/
theorem Reads.content {dir ino : Nat} (reads : Reads sblock dir lo hi s s' synced)
    (inside : ino < sblock.numInodes) :
    s'.store.content sblock ino = s.store.content sblock ino :=
  content_congr (Store.plain_numBytes (reads.grown.grows.plain ino inside)) (reads.byteAt ino)

/-- A directory after a read of it. -/
theorem IsDirectory.reads (dir : IsDirectory sblock s inode fields)
    (reads : Reads sblock fields.inodeNo lo hi s s' synced) :
    ∃ entry, entry.plain = fields.entry.plain ∧
      IsDirectory sblock s' inode { fields with entry } := by
  obtain ⟨entry, loaded, plain⟩ := reads.grown.grows.loaded dir.loaded
  have inside := dir.sound.inside dir.loaded
  refine ⟨entry, plain, reads.sound, loaded, (Store.plain_type plain).trans dir.type, ?_, ?_⟩
  · rw [Store.plain_numBytes plain]
    exact dir.whole
  · rw [reads.content inside]
    exact dir.terminated

/-- One read after another. -/
theorem Reads.trans {ino : Nat} {s'' : FsState} {more : List Nat}
    (one : Reads sblock ino lo hi s s' synced) (two : Reads sblock ino lo hi s' s'' more) :
    Reads sblock ino lo hi s s'' (synced ++ more) :=
  ⟨two.sound, one.grown.trans two.grown, fun other position =>
    (two.byteAt other position).trans (one.byteAt other position)⟩

/-- `inode_read` of an entry. -/
theorem readEntry_leads (layout : sblock.Layout) (dir : IsDirectory sblock s inode fields) {i : Nat}
    (inside : i < (s.store.content sblock fields.inodeNo).length / dirEntryBytes) :
    Leads (inodeRead sblock inode (dirEntryBytes * i) dirEntryBytes) s (fun result s' synced =>
        Reads sblock fields.inodeNo 0 (blocksFor fields.entry.numBytes.toNat) s s' synced ∧
        result.1 = slice (s.store.content sblock fields.inodeNo) (dirEntryBytes * i) dirEntryBytes)
      (Fails sblock fields.inodeNo 0 (blocksFor fields.entry.numBytes.toNat) s) := by
  have size : dirEntryBytes = 16 := rfl
  have most : inodeMaxBytes = 71680 := rfl
  have short := dir.short
  have length := dir.size
  have within : dirEntryBytes * i + dirEntryBytes ≤ fields.entry.numBytes.toNat := by
    rw [length, size] at inside
    rw [size]
    omega
  have file : fields.entry.type ≠ inodeDevice := by
    rw [dir.type]
    decide
  refine (inodeRead_leads layout dir.sound dir.loaded file (by omega) (by omega)).mono ?_
    fun _ fails => fails.mono (Nat.zero_le _) (blocksFor_mono (by omega))
  rintro result s' synced ⟨reads, copied, -⟩
  refine ⟨⟨reads.sound, reads.grown.mono (Nat.zero_le _) (blocksFor_mono (by omega)), reads.byteAt⟩,
    ?_⟩
  rw [copied, readBytes, slice, Store.content, ← dir.sound.entry dir.loaded]
  refine List.ext_getElem (by simp) fun position below below' => ?_
  simp

/-- What the code sees of an entry. -/
theorem IsDirectory.sees (dir : IsDirectory sblock s inode fields) {i : Nat}
    (inside : i < (s.store.content sblock fields.inodeNo).length / dirEntryBytes)
    (buffer : List UInt8) :
    let bytes := slice (s.store.content sblock fields.inodeNo) (dirEntryBytes * i) dirEntryBytes
    DirEntry.inodeNo (overlay bytes buffer) = DirEntry.inodeNo bytes ∧
      (DirEntry.inodeNo bytes ≠ 0 →
        DirEntry.name stack (overlay bytes buffer) = DirEntry.text bytes) := by
  intro bytes
  have width : bytes.length = dirEntryBytes := DirEntry.entry_length inside
  obtain ⟨number, text⟩ := DirEntry.slot_overlay width buffer
  refine ⟨number, fun used => ?_⟩
  have member : some (DirEntry.text bytes, DirEntry.inodeNo bytes) ∈
      DirEntry.slots (s.store.content sblock fields.inodeNo) := by
    refine List.mem_of_getElem? ((DirEntry.slots_getElem? inside).trans ?_)
    rw [DirEntry.slot, if_neg used]
  rw [DirEntry.name_eq_text stack (by rw [text]; exact dir.terminated _ _ member), text]

/-- A read of a directory, after which the values returned have a property. -/
abbrev Scans {α : Type} (sblock : SuperBlock) (fields : Inode) (program : InodeProg α) (s : FsState)
    (P : α → Prop) : Prop :=
  Leads program s (fun value s' synced =>
      Reads sblock fields.inodeNo 0 (blocksFor fields.entry.numBytes.toNat) s s' synced ∧ P value)
    (Fails sblock fields.inodeNo 0 (blocksFor fields.entry.numBytes.toNat) s)

theorem IsDirectory.scans_ret {α : Type} (dir : IsDirectory sblock s inode fields) {value : α}
    {P : α → Prop} (holds : P value) : Scans sblock fields (pure value) s P :=
  .ret ⟨⟨dir.sound, .refl, fun _ _ => rfl⟩, holds⟩

/-- A loop over the entries at an entry: it reads the entry and goes on with what it sees. -/
theorem IsDirectory.scans {α : Type} {i : Nat} {P : α → Prop}
    {rest : List UInt8 × Int → InodeProg α} (layout : sblock.Layout)
    (dir : IsDirectory sblock s inode fields)
    (more : i < (s.store.content sblock fields.inodeNo).length / dirEntryBytes)
    (next : ∀ s₁ entry count, entry.plain = fields.entry.plain →
      IsDirectory sblock s₁ inode { fields with entry } →
      s₁.store.content sblock fields.inodeNo = s.store.content sblock fields.inodeNo →
      Scans sblock { fields with entry } (rest (slice (s.store.content sblock fields.inodeNo)
        (dirEntryBytes * i) dirEntryBytes, count)) s₁ P) :
    Scans sblock fields (inodeRead sblock inode (dirEntryBytes * i) dirEntryBytes >>= rest) s P := by
  refine .bind ((readEntry_leads layout dir more).mono ?_ fun _ => id)
  rintro ⟨bytes, count⟩ s₁ synced ⟨reads, rfl⟩
  obtain ⟨entry, plain, dir₁⟩ := dir.reads reads
  have rest := next s₁ entry count plain dir₁ (reads.content (dir.sound.inside dir.loaded))
  rw [Scans, Store.plain_numBytes plain] at rest
  refine rest.mono ?_ fun _ fails => fails.after reads.grown
  rintro value s₂ seen ⟨reads₂, holds⟩
  exact ⟨reads.trans reads₂, holds⟩

/-- An index is behind the last entry where the loops say so. -/
theorem IsDirectory.below (dir : IsDirectory sblock s inode fields) (i : Nat) :
    dirEntryBytes * i < fields.entry.numBytes.toNat ↔
      i < (s.store.content sblock fields.inodeNo).length / dirEntryBytes := by
  have size : dirEntryBytes = 16 := rfl
  have whole := dir.whole
  rw [dir.size]
  rw [size] at whole ⊢
  omega

/-- The loops do not wrap round. -/
theorem IsDirectory.next (dir : IsDirectory sblock s inode fields) {i : Nat}
    (more : i < (s.store.content sblock fields.inodeNo).length / dirEntryBytes) :
    (dirEntryBytes * i + dirEntryBytes) % 2 ^ 32 = dirEntryBytes * (i + 1) := by
  have size : dirEntryBytes = 16 := rfl
  have most : inodeMaxBytes = 71680 := rfl
  have short := dir.short
  have below := (dir.below i).mpr more
  rw [size] at below ⊢
  omega

/-- The loop of `inode_lookup` finds the name among the entries that are left. -/
theorem lookupLoop_leads (layout : sblock.Layout) (dir : IsDirectory sblock s inode fields)
    {rounds i : Nat} {now : List UInt8}
    (enough : (s.store.content sblock fields.inodeNo).length / dirEntryBytes < i + rounds)
    (inside : i ≤ (s.store.content sblock fields.inodeNo).length / dirEntryBytes) :
    Scans sblock fields (lookupLoop sblock stack inode name rounds (dirEntryBytes * i) now) s
      fun result => result = (Slots.find name ((DirEntry.slots
        (s.store.content sblock fields.inodeNo)).drop i)).map
          fun found => (found.1, dirEntryBytes * (i + found.2)) := by
  induction rounds generalizing s fields i now with
  | zero => omega
  | succ rounds ih =>
    refine .bind (entry_leads dir.loaded ?_)
    simp only [List.nil_append, dir.below]
    split
    · rename_i more
      refine dir.scans layout more fun s₁ entry count plain dir₁ content => ?_
      obtain ⟨number, name_⟩ := @IsDirectory.sees _ _ _ _ stack dir _ more now
      rw [number, DirEntry.slots_drop more, dir.next more]
      generalize slice (s.store.content sblock fields.inodeNo) (dirEntryBytes * i)
        dirEntryBytes = bytes at number name_ ⊢
      by_cases here : DirEntry.inodeNo bytes ≠ 0 ∧ name = DirEntry.text bytes
      · obtain ⟨used, rfl⟩ := here
        rw [if_pos ⟨used, (name_ used).symm⟩, DirEntry.slot, if_neg used, Slots.find_cons_self]
        exact dir₁.scans_ret rfl
      · rw [if_neg fun both => here ⟨both.1, both.2.trans (name_ both.1)⟩,
          Slots.find_cons_ne (DirEntry.slot_differ here)]
        refine (ih dir₁ (by rw [content]; omega) (by rw [content]; omega)).mono ?_ fun _ => id
        rintro result s₂ seen ⟨reads, rfl⟩
        refine ⟨reads, ?_⟩
        simp only [content, Option.map_map]
        congr 1
        funext found
        simp only [Function.comp_apply, Nat.add_assoc, Nat.add_comm 1]
    · rw [List.drop_eq_nil_of_le (by rw [DirEntry.slots_length]; omega)]
      exact dir.scans_ret rfl

/-- `inode_lookup` finds the name, and the index of its entry. -/
theorem inodeLookup_leads (layout : sblock.Layout) (dir : IsDirectory sblock s inode fields) :
    Scans sblock fields (inodeLookup sblock stack inode name) s fun result =>
      result = (Slots.find name (DirEntry.slots (s.store.content sblock fields.inodeNo))).map
        fun found => (found.1, dirEntryBytes * found.2) := by
  refine .bind (entry_leads dir.loaded (.bind (assert_leads dir.type ?_)))
  have found := @lookupLoop_leads _ _ _ _ stack name layout dir
    (fields.entry.numBytes.toNat / dirEntryBytes + 2) 0 stack.garbage (by rw [dir.size]; omega)
    (Nat.zero_le _)
  simpa using found

/-- What `inode_lookup2` returns: the number and the index of a name that is there, and otherwise zero
and the index `index`, or of the first free entry if there is none yet. -/
def lookup2 (name : List UInt8) (slots : Slots (List UInt8) Nat) (i index : Nat) : Nat × Nat :=
  match Slots.find name slots with
  | some found => (found.1, dirEntryBytes * (i + found.2))
  | none => (0, if index = inodeMaxBytes then dirEntryBytes * (i + slots.firstFree) else index)

/-- An entry that is passed, and was noted if it was the first that is free. -/
theorem lookup2_cons {bytes : List UInt8} (rest : Slots (List UInt8) Nat) {i index : Nat}
    (away : ¬(DirEntry.inodeNo bytes ≠ 0 ∧ name = DirEntry.text bytes))
    (below : dirEntryBytes * i < inodeMaxBytes) :
    lookup2 name (DirEntry.slot bytes :: rest) i index = lookup2 name rest (i + 1)
      (if DirEntry.inodeNo bytes = 0 ∧ index = inodeMaxBytes then dirEntryBytes * i else index) := by
  rw [lookup2, lookup2, Slots.find_cons_ne (DirEntry.slot_differ away)]
  cases Slots.find name rest with
  | some found => simp only [Option.map_some, Nat.add_assoc, Nat.add_comm 1]
  | none =>
    simp only [Option.map_none, Prod.mk.injEq, true_and]
    by_cases free : DirEntry.inodeNo bytes = 0
    · rw [DirEntry.slot, if_pos free]
      simp only [free, true_and]
      by_cases first : index = inodeMaxBytes
      · rw [if_pos first, if_pos first, if_neg (Nat.ne_of_lt below)]
        rfl
      · rw [if_neg first, if_neg first, if_neg first]
    · simp only [DirEntry.slot, free, false_and, if_false, Slots.firstFree, Nat.add_assoc,
        Nat.add_comm 1]

/-- The loop of `inode_lookup2`. -/
theorem lookup2Loop_leads (layout : sblock.Layout) (dir : IsDirectory sblock s inode fields)
    {rounds i index : Nat} {now : List UInt8}
    (enough : (s.store.content sblock fields.inodeNo).length / dirEntryBytes < i + rounds)
    (inside : i ≤ (s.store.content sblock fields.inodeNo).length / dirEntryBytes) :
    Scans sblock fields (lookup2Loop sblock stack inode name rounds (dirEntryBytes * i) index now) s
      fun result => result = lookup2 name ((DirEntry.slots
        (s.store.content sblock fields.inodeNo)).drop i) i index := by
  induction rounds generalizing s fields i index now with
  | zero => omega
  | succ rounds ih =>
    refine .bind (entry_leads dir.loaded ?_)
    simp only [List.nil_append, dir.below]
    split
    · rename_i more
      refine dir.scans layout more fun s₁ entry count plain dir₁ content => ?_
      obtain ⟨number, name_⟩ := @IsDirectory.sees _ _ _ _ stack dir _ more now
      have below := Nat.lt_of_lt_of_le ((dir.below i).mpr more) dir.short
      rw [number, DirEntry.slots_drop more, dir.next more]
      generalize slice (s.store.content sblock fields.inodeNo) (dirEntryBytes * i)
        dirEntryBytes = bytes at number name_ ⊢
      by_cases here : DirEntry.inodeNo bytes ≠ 0 ∧ name = DirEntry.text bytes
      · obtain ⟨used, rfl⟩ := here
        rw [if_pos ⟨used, (name_ used).symm⟩, DirEntry.slot, if_neg used, lookup2,
          Slots.find_cons_self]
        exact dir₁.scans_ret rfl
      · rw [if_neg fun both => here ⟨both.1, both.2.trans (name_ both.1)⟩,
          lookup2_cons _ here below]
        refine (ih dir₁ (by rw [content]; omega) (by rw [content]; omega)).mono ?_ fun _ => id
        rintro result s₂ seen ⟨reads, rfl⟩
        exact ⟨reads, by rw [content]⟩
    · rename_i done
      have last : fields.entry.numBytes.toNat = dirEntryBytes * i := by
        have size : dirEntryBytes = 16 := rfl
        have whole := dir.whole
        rw [dir.size] at done inside
        rw [size] at whole done inside ⊢
        omega
      rw [List.drop_eq_nil_of_le (by rw [DirEntry.slots_length]; omega)]
      refine dir.scans_ret ?_
      rw [last]
      rfl

theorem inodeLookup2_leads (layout : sblock.Layout) (dir : IsDirectory sblock s inode fields) :
    Scans sblock fields (inodeLookup2 sblock stack inode name) s fun result =>
      result = lookup2 name (DirEntry.slots (s.store.content sblock fields.inodeNo)) 0
        inodeMaxBytes := by
  refine .bind (entry_leads dir.loaded (.bind (assert_leads dir.type ?_)))
  have found := @lookup2Loop_leads _ _ _ _ stack name layout dir
    (fields.entry.numBytes.toNat / dirEntryBytes + 2) 0 inodeMaxBytes stack.garbage
    (by rw [dir.size]; omega) (Nat.zero_le _)
  simpa using found

end Lookup

/-! ## Changing a directory -/

/-- A directory has another content, and no other file has. -/
structure Updated (sblock : SuperBlock) (inode : Nat) (fields : Inode) (content : List UInt8)
    (s s' : FsState) : Prop where
  sound : Sound sblock s'
  loaded : ∃ entry, s'.inodes inode = some { fields with entry } ∧
    entry.type = fields.entry.type ∧ entry.numLinks = fields.entry.numLinks
  memory : ∀ other, other ≠ inode →
    (s'.inodes other).map Inode.plain = (s.inodes other).map Inode.plain
  plain : ∀ other, other < sblock.numInodes → other ≠ fields.inodeNo →
    (s'.store.inodeEntry sblock other).plain = (s.store.inodeEntry sblock other).plain
  content : s'.store.content sblock fields.inodeNo = content
  others : ∀ ino, ino < sblock.numInodes → ino ≠ fields.inodeNo →
    s'.store.content sblock ino = s.store.content sblock ino

section Update

variable {sblock : SuperBlock} {s s₁ s₂ : FsState} {inode : Nat} {fields : Inode} {stack : Stack}
  {name : List UInt8} {synced more : List Nat} {lo hi : Nat} {ctx : Ctx}

/-- A directory that was only read. -/
theorem IsDirectory.updated (dir : IsDirectory sblock s inode fields)
    (reads : Reads sblock fields.inodeNo lo hi s s₁ synced) :
    Updated sblock inode fields (s.store.content sblock fields.inodeNo) s s₁ := by
  obtain ⟨entry, plain, dir₁⟩ := dir.reads reads
  exact ⟨reads.sound,
    ⟨entry, dir₁.loaded, Store.plain_type plain, Store.plain_numLinks plain⟩,
    fun other _ => reads.grown.grows.memory other,
    fun other inside _ => reads.grown.grows.plain other inside,
    reads.content (dir.sound.inside dir.loaded), fun ino inside _ => reads.content inside⟩

/-- A directory that was read and written. -/
theorem IsDirectory.wrote (dir : IsDirectory sblock s inode fields)
    (reads : Reads sblock fields.inodeNo lo hi s s₁ synced) {entry : InodeEntry}
    (plain : entry.plain = fields.entry.plain) (dir₁ : IsDirectory sblock s₁ inode { fields with entry })
    {offset : Nat} {src : List UInt8} (start : offset ≤ fields.entry.numBytes.toNat)
    (fits : offset + src.length ≤ inodeMaxBytes)
    (wrote : Wrote sblock inode { fields with entry } offset src s₁ s₂ more) :
    Updated sblock inode fields (patch (s.store.content sblock fields.inodeNo) offset src) s s₂ := by
  have inside := dir.sound.inside dir.loaded
  have start₁ : offset ≤ entry.numBytes.toNat := by rwa [Store.plain_numBytes plain]
  have content := fun {ino} inside =>
    @Wrote.content _ _ _ _ _ _ _ _ wrote dir₁.sound dir₁.loaded start₁ fits ino inside
  obtain ⟨entry₂, loaded, plain₂⟩ := wrote.loaded
  refine ⟨wrote.sound, ⟨entry₂, loaded, ?_, ?_⟩, fun other away => ?_, fun other inside away => ?_, ?_,
    fun ino inside away => ?_⟩
  · have same : entry.type = fields.entry.type := Store.plain_type plain
    exact (Store.plain_type plain₂).trans same
  · have same : entry.numLinks = fields.entry.numLinks := Store.plain_numLinks plain
    exact (Store.plain_numLinks plain₂).trans same
  · exact (wrote.memory other away).trans (reads.grown.grows.memory other)
  · exact (wrote.plain other inside away).trans (reads.grown.grows.plain other inside)
  · rw [content inside, if_pos rfl, reads.content inside]
  · rw [content inside, if_neg away, reads.content inside]

/-- A write after a read fails for want of blocks that were not there before. -/
theorem Reads.writeFails (reads : Reads sblock fields.inodeNo 0 lo s s₁ synced) {offset count : Nat}
    (fails : WriteFails sblock fields.inodeNo (offset / blockSize) (blocksFor (offset + count)) s₁
      more) (below : lo ≤ hi) (behind : blocksFor (offset + count) ≤ hi) :
    Exhausted sblock s fields.inodeNo 0 hi :=
  (reads.grown.mono (Nat.le_refl _) below).exhausted (fails.1.mono (Nat.zero_le _) behind)

/-- The end of a directory after a name was put into it. -/
def insertEnd (name : List UInt8) (slots : Slots (List UInt8) Nat) (size : Nat) : Nat :=
  if (Slots.find name slots).isSome then size else max size (dirEntryBytes * (slots.firstFree + 1))

/-- `inode_insert` puts a name that is not there into the first free entry, or behind the last. -/
theorem inodeInsert_leads (layout : sblock.Layout) (dir : IsDirectory sblock s inode fields)
    {ino : Nat} (fits : insertEnd name (DirEntry.slots (s.store.content sblock fields.inodeNo))
      fields.entry.numBytes.toNat ≤ inodeMaxBytes) :
    let content := s.store.content sblock fields.inodeNo
    let free := (DirEntry.slots content).firstFree
    Leads (inodeInsert sblock stack ctx inode name ino) s (fun result s' _ =>
        if (Slots.find name (DirEntry.slots content)).isSome then
          result = 2 ^ 64 - 1 ∧ Updated sblock inode fields content s s'
        else result = dirEntryBytes * free ∧ Updated sblock inode fields (patch content
          (dirEntryBytes * free) (DirEntry.pack ino (DirEntry.strncpy name))) s s')
      (fun _ => Exhausted sblock s fields.inodeNo 0
        (blocksFor (insertEnd name (DirEntry.slots content) fields.entry.numBytes.toNat))) := by
  intro content free
  have size : dirEntryBytes = 16 := rfl
  have above : fields.entry.numBytes.toNat ≤ insertEnd name (DirEntry.slots content)
      fields.entry.numBytes.toNat := by
    rw [insertEnd]
    split
    · exact Nat.le_refl _
    · exact Nat.le_max_left ..
  refine .bind (entry_leads dir.loaded (.bind (assert_leads dir.type (.bind ?_))))
  refine (inodeLookup2_leads layout dir).mono ?_ fun _ fails =>
    fails.1.mono (Nat.le_refl _) (blocksFor_mono above)
  rintro _ s₁ synced ⟨reads, rfl⟩
  simp only [lookup2]
  cases found : Slots.find name (DirEntry.slots content) with
  | some result =>
    have used : result.1 ≠ 0 := DirEntry.slots_used (Slots.getElem?_of_find found)
    simp only [Option.isSome_some, if_true, used, ne_eq, not_false_eq_true]
    exact .ret ⟨rfl, dir.updated reads⟩
  | none =>
    have behind : insertEnd name (DirEntry.slots content) fields.entry.numBytes.toNat =
        max fields.entry.numBytes.toNat (dirEntryBytes * (free + 1)) := by
      rw [insertEnd, found]
      rfl
    have start : dirEntryBytes * free ≤ fields.entry.numBytes.toNat := by
      have inside := Slots.firstFree_le (DirEntry.slots content)
      rw [DirEntry.slots_length, dir.size] at inside
      rw [size] at inside ⊢
      omega
    have width := DirEntry.pack_length ino name
    rw [behind] at fits above ⊢
    obtain ⟨entry, plain, dir₁⟩ := dir.reads reads
    have file : entry.type ≠ inodeDevice := by
      rw [dir₁.type]
      decide
    have start₁ : dirEntryBytes * free ≤ entry.numBytes.toNat := by
      rwa [Store.plain_numBytes plain]
    have fits₁ : dirEntryBytes * free +
        (DirEntry.pack ino (DirEntry.strncpy name)).length ≤ inodeMaxBytes := by
      rw [width]
      rw [Nat.mul_add] at fits
      omega
    simp only [Option.isSome_none, if_true, ne_eq, not_true_eq_false, Nat.zero_add]
    refine .bind ((inodeWrite_leads layout dir₁.sound dir₁.loaded file start₁ fits₁).mono ?_ ?_)
    · rintro _ s₂ seen ⟨-, wrote⟩
      exact .ret ⟨rfl, dir.wrote reads plain dir₁ start fits₁ wrote⟩
    · intro seen fails
      refine reads.writeFails fails (blocksFor_mono above) (blocksFor_mono ?_)
      rw [width, Nat.mul_add]
      omega

/-- `inode_remove` makes an entry free. -/
theorem inodeRemove_leads (layout : sblock.Layout) (dir : IsDirectory sblock s inode fields)
    (sized : stack.garbage.length = dirEntryBytes) {i : Nat}
    (inside : i < (s.store.content sblock fields.inodeNo).length / dirEntryBytes) :
    let content := s.store.content sblock fields.inodeNo
    let record := DirEntry.pack 0 ((slice content (dirEntryBytes * i) dirEntryBytes).drop 2)
    Leads (inodeRemove sblock stack ctx inode (dirEntryBytes * i)) s
      (fun _ s' _ =>
        Updated sblock inode fields (patch content (dirEntryBytes * i) record) s s')
      (fun _ => Exhausted sblock s fields.inodeNo 0 (blocksFor fields.entry.numBytes.toNat)) := by
  intro content record
  have size : dirEntryBytes = 16 := rfl
  have most : inodeMaxBytes = 71680 := rfl
  have short := dir.short
  have within : dirEntryBytes * i + dirEntryBytes ≤ fields.entry.numBytes.toNat := by
    have below := (dir.below i).mpr inside
    have whole := dir.whole
    rw [size] at below whole ⊢
    omega
  have bytes : (slice content (dirEntryBytes * i) dirEntryBytes).length = dirEntryBytes :=
    DirEntry.entry_length inside
  have width : record.length = dirEntryBytes := DirEntry.freed_length inside
  refine .bind ((readEntry_leads layout dir inside).mono ?_ fun _ fails => fails.1)
  rintro ⟨now, count⟩ s₁ synced ⟨reads, rfl⟩
  have buffer : overlay (slice content (dirEntryBytes * i) dirEntryBytes) stack.garbage =
      slice content (dirEntryBytes * i) dirEntryBytes := by
    rw [overlay, List.drop_eq_nil_of_le (by rw [bytes, sized]), List.append_nil]
  obtain ⟨entry, plain, dir₁⟩ := dir.reads reads
  have file : entry.type ≠ inodeDevice := by
    rw [dir₁.type]
    decide
  have start₁ : dirEntryBytes * i ≤ entry.numBytes.toNat := by
    rw [Store.plain_numBytes plain]
    omega
  have fits : dirEntryBytes * i + record.length ≤ inodeMaxBytes := by omega
  simp only [content] at buffer
  simp only [buffer]
  refine .bind ((inodeWrite_leads layout dir₁.sound dir₁.loaded file start₁ fits).mono ?_ ?_)
  · rintro _ s₂ seen ⟨-, wrote⟩
    exact .ret (dir.wrote reads plain dir₁ (by omega) fits wrote)
  · intro seen fails
    refine reads.writeFails fails (Nat.le_refl _) (blocksFor_mono ?_)
    omega

/-- A directory with the content that it had. -/
theorem IsDirectory.same {s' : FsState} (dir : IsDirectory sblock s inode fields)
    (updated : Updated sblock inode fields (s.store.content sblock fields.inodeNo) s s') :
    ∃ entry, IsDirectory sblock s' inode { fields with entry } := by
  obtain ⟨entry, loaded, type, -⟩ := updated.loaded
  have onDisk : entry = s'.store.inodeEntry sblock fields.inodeNo := updated.sound.entry loaded
  refine ⟨entry, updated.sound, loaded, type.trans dir.type, ?_, ?_⟩
  · simp only
    rw [onDisk, ← content_length, updated.content, dir.size]
    exact dir.whole
  · rw [updated.content]
    exact dir.terminated

/-- A directory with one entry changed, or one behind the last, is a directory. -/
theorem IsDirectory.patched {s' : FsState} (dir : IsDirectory sblock s inode fields) {i : Nat}
    {record : List UInt8}
    (inside : i ≤ (s.store.content sblock fields.inodeNo).length / dirEntryBytes)
    (width : record.length = dirEntryBytes)
    (terminated : ∀ name ino, DirEntry.slot record = some (name, ino) →
      name.length < fileNameMaxLength)
    (updated : Updated sblock inode fields
      (patch (s.store.content sblock fields.inodeNo) (dirEntryBytes * i) record) s s') :
    ∃ entry, IsDirectory sblock s' inode { fields with entry } ∧
      DirEntry.slots (s'.store.content sblock fields.inodeNo) =
        patch (DirEntry.slots (s.store.content sblock fields.inodeNo)) i [DirEntry.slot record] := by
  have size : dirEntryBytes = 16 := rfl
  have whole := dir.whole
  rw [← dir.size] at whole
  have slots := DirEntry.slots_patch whole inside width
  obtain ⟨entry, loaded, type, -⟩ := updated.loaded
  have content := updated.content
  have inside' : i ≤ (DirEntry.slots (s.store.content sblock fields.inodeNo)).length := by
    rwa [DirEntry.slots_length]
  refine ⟨entry, ⟨updated.sound, loaded, type.trans dir.type, ?_, fun name ino member => ?_⟩,
    by rw [content, slots]⟩
  · have start : dirEntryBytes * i ≤ (s.store.content sblock fields.inodeNo).length := by
      rw [size] at inside ⊢
      omega
    have onDisk : entry = s'.store.inodeEntry sblock fields.inodeNo := updated.sound.entry loaded
    simp only
    rw [onDisk, ← content_length, content, patch_length start, width]
    rw [size] at whole inside ⊢
    omega
  · simp only [content, slots] at member
    obtain ⟨j, there⟩ := List.getElem?_of_mem member
    rw [Slots.getElem?_patch_one _ inside'] at there
    split at there
    · exact terminated name ino (Option.some.inj there)
    · exact dir.terminated name ino (List.mem_of_getElem? there)

end Update

end FsState

end OsLab.Fs
