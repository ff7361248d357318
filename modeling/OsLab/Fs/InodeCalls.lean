import OsLab.Fs.InodeClear

/-!
# Taking inodes and giving them back

`inode_lock`, `inode_unlock`, `inode_share`, `inode_get`, `inode_put`, `inode_clear` and `inode_alloc`
on sound states. Each leaves a sound state. `inode_get` must be called for an inode that is in use:
otherwise there would be an inode in memory whose entry is not the one `inode_alloc` writes later.
-/
namespace OsLab.Fs

open OsLab.Lib
open InodeProg

namespace FsState

section Locks

variable {s : FsState} {inode : Nat} {fields : Inode} {E : List Nat → Prop}

theorem assert_leads {holds : Prop} [Decidable holds] {Q : Unit → FsState → List Nat → Prop}
    (yes : holds) (next : Q () s []) : Leads (assert holds) s Q E := by
  rw [assert, if_pos yes]
  exact .ret next

/-- `inode_lock` of an inode that is not locked. -/
theorem inodeLock_leads {Q : Unit → FsState → List Nat → Prop}
    (loaded : s.inodes inode = some fields) (counted : 0 < fields.rc)
    (free : fields.locked = false) (next : Q () (s.setInode inode { fields with locked := true }) []) :
    Leads (inodeLock inode) s Q E := by
  refine .bind (load_leads loaded (.bind (assert_leads counted (Prog.Shows.answered ?_ next))))
  simp only [serve, loaded, Option.bind_some, free, Bool.false_eq_true, if_false]

/-- `inode_unlock`. -/
theorem inodeUnlock_leads {Q : Unit → FsState → List Nat → Prop}
    (loaded : s.inodes inode = some fields) (counted : 0 < fields.rc)
    (next : Q () (s.setInode inode { fields with locked := false }) []) :
    Leads (inodeUnlock inode) s Q E := by
  refine .bind (load_leads loaded (.bind (assert_leads counted (Prog.Shows.answered ?_ next))))
  simp only [serve, amend, loaded, Option.map_some]
  rfl

/-- `_increment_rc(&inode->rc)`. -/
theorem incrementRc_leads {Q : Unit → FsState → List Nat → Prop}
    (loaded : s.inodes inode = some fields)
    (next : Q () (s.setInode inode { fields with rc := fields.rc + 1 }) []) :
    Leads (incrementRc inode) s Q E := by
  refine Prog.Shows.answered ?_ next
  simp only [serve, amend, loaded, Option.map_some]
  rfl

end Locks

section Memory

variable {sblock : SuperBlock} {s : FsState} {inode : Nat} {fields new : Inode}

/-- An inode that is read from disk is put into the list. -/
theorem Sound.insert (sound : Sound sblock s) {locked : Bool} {rc : Int} {ino : Nat}
    (inside : ino < sblock.numInodes) (live : (s.store.inodeEntry sblock ino).type ≠ inodeInvalid)
    (absent : ∀ {inode fields}, s.inodes inode = some fields → fields.inodeNo ≠ ino) :
    Sound sblock { s.setInode s.next ⟨locked, rc, ino, true, s.store.inodeEntry sblock ino⟩ with
      next := s.next + 1, list := s.next :: s.list } := by
  have new : ∀ {inode fields}, s.inodes inode = some fields → inode ≠ s.next := fun before same =>
    Nat.lt_irrefl _ (same ▸ sound.fresh before)
  have unlisted : s.next ∉ s.list := fun member => by
    obtain ⟨fields, before⟩ := sound.present _ member
    exact new before rfl
  constructor
  case held => exact sound.held
  case unlocked => exact sound.unlocked
  case listUnlocked => exact sound.listUnlocked
  case consistent => exact sound.consistent
  case valid =>
    intro inode fields found
    obtain ⟨rfl, rfl⟩ | ⟨-, before⟩ := setInode_cases found
    · rfl
    · exact sound.valid before
  case inside =>
    intro inode fields found
    obtain ⟨rfl, rfl⟩ | ⟨-, before⟩ := setInode_cases found
    · exact inside
    · exact sound.inside before
  case entry =>
    intro inode fields found
    obtain ⟨rfl, rfl⟩ | ⟨-, before⟩ := setInode_cases found
    · rfl
    · exact sound.entry before
  case live =>
    intro inode fields found
    obtain ⟨rfl, rfl⟩ | ⟨-, before⟩ := setInode_cases found
    · exact live
    · exact sound.live before
  case alone =>
    intro inode other fields fields' found found' same
    obtain ⟨rfl, rfl⟩ | ⟨-, before⟩ := setInode_cases found <;>
      obtain ⟨rfl, rfl⟩ | ⟨-, before'⟩ := setInode_cases found'
    · rfl
    · exact absurd same.symm (absent before')
    · exact absurd same (absent before)
    · exact sound.alone before before' same
  case listed =>
    intro inode fields found
    obtain ⟨rfl, rfl⟩ | ⟨-, before⟩ := setInode_cases found
    · exact List.mem_cons_self
    · exact List.mem_cons_of_mem _ (sound.listed before)
  case present =>
    intro inode member
    obtain rfl | member := List.mem_cons.mp member
    · exact ⟨_, Function.update_self ..⟩
    · obtain ⟨fields, before⟩ := sound.present inode member
      exact ⟨fields, (Function.update_of_ne (new before) ..).trans before⟩
  case distinct => exact List.nodup_cons.mpr ⟨unlisted, sound.distinct⟩
  case fresh =>
    intro inode fields found
    obtain ⟨rfl, rfl⟩ | ⟨-, before⟩ := setInode_cases found
    · exact Nat.lt_succ_self _
    · exact Nat.lt_succ_of_lt (sound.fresh before)

/-- An inode leaves memory, and its entry on disk is free. -/
theorem Sound.remove (sound : Sound sblock s) (loaded : s.inodes inode = some fields) {store : Store}
    (consistent : store.Consistent sblock) (held : store.held = s.store.held)
    (locked : store.bitmapLock = s.store.bitmapLock)
    (entries : ∀ other, other < sblock.numInodes → other ≠ fields.inodeNo →
      store.inodeEntry sblock other = s.store.inodeEntry sblock other) :
    Sound sblock { s with
      store, inodes := Function.update s.inodes inode none, list := s.list.erase inode } := by
  have before : ∀ {other found}, Function.update s.inodes inode none other = some found →
      other ≠ inode ∧ s.inodes other = some found := by
    intro other found there
    by_cases here : other = inode
    · rw [here, Function.update_self] at there
      contradiction
    · exact ⟨here, (Function.update_of_ne here ..).symm.trans there⟩
  constructor
  case held => simp [held, sound.held]
  case unlocked => simp [locked, sound.unlocked]
  case listUnlocked => exact sound.listUnlocked
  case consistent => exact consistent
  case valid => exact fun found => sound.valid (before found).2
  case inside => exact fun found => sound.inside (before found).2
  case entry =>
    intro other found there
    obtain ⟨away, there⟩ := before there
    rw [sound.entry there]
    exact (entries _ (sound.inside there) fun same => away (sound.alone there loaded same)).symm
  case live => exact fun found => sound.live (before found).2
  case alone => exact fun found found' => sound.alone (before found).2 (before found').2
  case listed =>
    intro other found there
    obtain ⟨away, there⟩ := before there
    exact (sound.distinct.mem_erase_iff).mpr ⟨away, sound.listed there⟩
  case present =>
    intro other member
    obtain ⟨away, member⟩ := sound.distinct.mem_erase_iff.mp member
    obtain ⟨found, there⟩ := sound.present other member
    exact ⟨found, (Function.update_of_ne away ..).trans there⟩
  case distinct => exact sound.distinct.erase inode
  case fresh => exact fun found => sound.fresh (before found).2

end Memory

/-! ## Getting an inode -/

section Get

variable {sblock : SuperBlock} {s : FsState} {ino : Nat} {E : List Nat → Prop}

/-- The loop of `inode_get` finds an inode with the number, if there is one. -/
theorem inodeFind_leads {list : List Nat} {Q : Option Nat → FsState → List Nat → Prop}
    (present : ∀ inode ∈ list, ∃ fields, s.inodes inode = some fields)
    (next : ∀ found, (∀ inode, found = some inode → inode ∈ list ∧
        ∃ fields, s.inodes inode = some fields ∧ fields.inodeNo = ino) →
      (found = none → ∀ inode ∈ list, ∀ fields, s.inodes inode = some fields →
        fields.inodeNo ≠ ino) → Q found s []) :
    Leads (inodeFind ino list) s Q E := by
  induction list with
  | nil => exact .ret (next none nofun nofun)
  | cons first rest ih =>
    obtain ⟨fields, loaded⟩ := present first List.mem_cons_self
    refine .bind (load_leads loaded ?_)
    by_cases same : fields.inodeNo = ino
    · rw [if_pos same]
      refine .ret (next (some first) (fun inode found => ?_) nofun)
      obtain rfl := Option.some.inj found
      exact ⟨List.mem_cons_self, fields, loaded, same⟩
    · rw [if_neg same]
      refine ih (fun inode member => present inode (List.mem_cons_of_mem _ member))
        fun found which missing => next found (fun inode is => ?_) fun none inode member => ?_
      · obtain ⟨member, there⟩ := which inode is
        exact ⟨List.mem_cons_of_mem _ member, there⟩
      · obtain rfl | member := List.mem_cons.mp member
        · intro fields' loaded'
          obtain rfl := Option.some.inj (loaded.symm.trans loaded')
          exact same
        · exact missing none inode member

/-- `inode_sync` of an entry that is not loaded reads it. -/
theorem inodeSync_load {inode : Nat} {fields : Inode} {ctx : Ctx} {doWrite : Bool}
    {Q : Unit → FsState → List Nat → Prop} (loaded : s.inodes inode = some fields)
    (invalid : fields.valid = false)
    (free : s.store.held (sblock.toBlockNo fields.inodeNo) = false)
    (next : Q () (s.setInode inode { fields with
      entry := s.store.inodeEntry sblock fields.inodeNo, valid := true }) []) :
    Leads (inodeSync sblock ctx inode doWrite) s Q E := by
  refine .bind (load_leads loaded ?_)
  simp only [invalid, Bool.false_and, Bool.false_eq_true, if_false, Bool.not_false, if_true]
  refine .bind (acquire_leads free (.bind (setEntry_leads loaded ?_)))
  rw [← Store.inodeEntry]
  let read := s.store.inodeEntry sblock fields.inodeNo
  have valid : serve (.setValid inode) { s.setInode inode { fields with entry := read } with
        store := s.store.hold (sblock.toBlockNo fields.inodeNo) } =
      some ((), { s.setInode inode { fields with entry := read, valid := true } with
        store := s.store.hold (sblock.toBlockNo fields.inodeNo) }) := by
    simp only [serve, amend, FsState.setInode, Function.update_self, Option.map_some,
      Function.update_idem]
    rfl
  exact .bind (.answered valid (release_leads free next))

/-- What `inode_get` leaves: an inode with the number is in memory, with one reference more. -/
structure Got (sblock : SuperBlock) (ino : Nat) (s : FsState) (inode : Nat) (s' : FsState) :
    Prop where
  sound : Sound sblock s'
  store : s'.store = s.store
  /-- The inode was in memory, and has one reference more, or is new there. -/
  loaded : ∃ fields, s'.inodes inode = some fields ∧ fields.inodeNo = ino ∧
    (s.inodes inode = some { fields with rc := fields.rc - 1 } ∨
      s.inodes inode = none ∧ fields.rc = 1 ∧ fields.locked = false)
  others : ∀ other, other ≠ inode → s'.inodes other = s.inodes other
  console : s'.console = s.console

/-- `inode_get` of the number zero. -/
theorem inodeGet_zero {Q : Option Nat → FsState → List Nat → Prop} (next : Q none s []) :
    Leads (inodeGet sblock 0) s Q E := by
  rw [inodeGet, if_pos rfl]
  exact .ret next

/-- `inode_get` of an inode in use. -/
theorem inodeGet_leads {Q : Option Nat → FsState → List Nat → Prop} (sound : Sound sblock s)
    (some_ : ino ≠ 0) (inside : ino < sblock.numInodes)
    (live : (s.store.inodeEntry sblock ino).type ≠ inodeInvalid)
    (next : ∀ inode s', Got sblock ino s inode s' → Q (some inode) s' []) :
    Leads (inodeGet sblock ino) s Q E := by
  have lock : serve .lockList s = some ((), { s with listLock := true }) := by
    simp only [serve, sound.listUnlocked]
    rfl
  rw [inodeGet, if_neg some_]
  refine .bind (assert_leads inside (.bind (.answered lock (.bind (.answered rfl (.bind ?_))))))
  refine inodeFind_leads sound.present fun found which missing => ?_
  have unlocked : ∀ t : FsState, ({ t with listLock := s.listLock } : FsState) =
      { t with listLock := false } := fun t => by rw [sound.listUnlocked]
  cases found with
  | some inode =>
    obtain ⟨-, fields, loaded, number⟩ := which inode rfl
    refine .bind (incrementRc_leads loaded (.bind (.answered rfl (.ret (next inode _ ?_)))))
    have same := unlocked (s.setInode inode { fields with rc := fields.rc + 1 })
    refine same ▸ ⟨sound.touch loaded rfl rfl rfl, rfl, ⟨_, Function.update_self .., number, .inl ?_⟩,
      fun other away => Function.update_of_ne away .., rfl⟩
    rw [loaded]
    simp
  | none =>
    have absent : ∀ {inode fields}, s.inodes inode = some fields → fields.inodeNo ≠ ino :=
      fun loaded => missing rfl _ (sound.listed loaded) _ loaded
    have new : s.inodes s.next = none := by
      by_contra there
      obtain ⟨fields, loaded⟩ := Option.ne_none_iff_exists'.mp there
      exact Nat.lt_irrefl _ (sound.fresh loaded)
    refine .bind (.answered rfl (.bind (incrementRc_leads (Function.update_self ..) (.bind ?_))))
    refine inodeLock_leads (Function.update_self ..) (by simp [Inode.init]) rfl (.bind ?_)
    refine inodeSync_load (Function.update_self ..) rfl (sound.held _) (.bind ?_)
    refine inodeUnlock_leads (Function.update_self ..) (by simp [Inode.init]) ?_
    refine .bind (.answered rfl (.bind (.answered rfl (.ret (next s.next _ ?_)))))
    let entry := s.store.inodeEntry sblock ino
    have whole : Sound sblock { s.setInode s.next ⟨false, 1, ino, true, entry⟩ with
      next := s.next + 1, list := s.next :: s.list } := sound.insert inside live absent
    have same := unlocked { s.setInode s.next ⟨false, 1, ino, true, entry⟩ with
      next := s.next + 1, list := s.next :: s.list }
    simp only [FsState.setInode, Function.update_idem] at whole same ⊢
    refine same ▸ ⟨whole, rfl, ⟨_, Function.update_self .., rfl, .inr ⟨new, rfl, rfl⟩⟩,
      fun other away => Function.update_of_ne away .., rfl⟩

end Get

/-! ## Clearing an inode and giving it back -/

section Put

variable {sblock : SuperBlock} {s : FsState} {inode : Nat} {fields : Inode} {ctx : Ctx}
  {E : List Nat → Prop}

/-- The marks of the blocks that an indirect block names are in other blocks. -/
theorem Sound.indirect_apart (layout : sblock.Layout) (sound : Sound sblock s)
    (loaded : s.inodes inode = some fields) (deep : fields.entry.indirect ≠ 0) (j : Nat)
    (named : addrAt (s.store.blocks fields.entry.indirect.toNat) j ≠ 0) :
    sblock.freeBlock (addrAt (s.store.blocks fields.entry.indirect.toNat) j) ≠
      fields.entry.indirect.toNat := by
  have inside := sound.inside loaded
  have live := sound.live loaded
  have number : fields.entry.indirect.toNat ≠ 0 := fun zero =>
    deep (UInt32.toNat_inj.mp (by simpa using zero))
  have indirect : s.store.own sblock (fields.inodeNo, .indirect) =
      some fields.entry.indirect.toNat := by
    rw [Store.own_of_lt inside, ← sound.entry loaded]
    exact Store.has_eq_some.mpr ⟨live, rfl, number⟩
  have entry : s.store.own sblock (fields.inodeNo, .entry j) =
      some (addrAt (s.store.blocks fields.entry.indirect.toNat) j) := by
    rw [Store.own_of_lt inside, ← sound.entry loaded]
    exact Store.has_eq_some.mpr ⟨live, if_neg deep, named⟩
  have before := layout.freeBlock_lt (sound.consistent.taken entry).2.1
  have data := (sound.consistent.taken indirect).1
  omega

/-- The blocks of an inode in memory are freed, and another entry is written that names none. -/
theorem Sound.clear (layout : sblock.Layout) (sound : Sound sblock s)
    (loaded : s.inodes inode = some fields) {entry : InodeEntry} (addrs : ∀ i, entry.addr i = 0)
    (indirect : entry.indirect = 0)
    (short : entry.type ≠ inodeInvalid → entry.numBytes.toNat ≤ inodeMaxBytes) :
    let store := (s.store.unmarkAll sblock (s.store.clearList fields.entry)).writeEntry sblock
      fields.inodeNo entry
    store.Consistent sblock ∧
      (∀ place, store.own sblock place =
        if place.1 = fields.inodeNo then none else s.store.own sblock place) ∧
      (∀ other position, other ≠ fields.inodeNo →
        store.byteAt sblock other position = s.store.byteAt sblock other position) ∧
      ∀ other, other < sblock.numInodes → store.inodeEntry sblock other =
        if other = fields.inodeNo then entry else s.store.inodeEntry sblock other := by
  have inside := sound.inside loaded
  have onDisk := sound.entry loaded
  have live := sound.live loaded
  rw [onDisk] at live ⊢
  obtain ⟨distinct, members⟩ := sound.consistent.clearList inside live
  obtain ⟨consistent, own, bytes⟩ := sound.consistent.clear layout inside distinct members addrs
    indirect short
  refine ⟨consistent, own, bytes, fun other inside' => ?_⟩
  rw [Store.inodeEntry_writeEntry]
  by_cases same : other = fields.inodeNo
  · rw [if_pos same, if_pos same]
  · rw [if_neg same, if_neg same]
    refine (Store.unmarkAll_spec layout distinct fun blockNo member => ?_).2.2 other inside'
    obtain ⟨slot, owned⟩ := (members blockNo).mp member
    exact (sound.consistent.taken owned).2

/-- What `inode_clear` leaves. -/
structure Cleared (sblock : SuperBlock) (inode : Nat) (fields : Inode) (s s' : FsState) : Prop where
  sound : Sound sblock s'
  /-- The inode in memory is empty, and the others stay. -/
  memory : s'.inodes = Function.update s.inodes inode
    (some { fields with entry := fields.entry.cleared })
  own : ∀ place, s'.store.own sblock place =
    if place.1 = fields.inodeNo then none else s.store.own sblock place
  byteAt : ∀ other position, other ≠ fields.inodeNo →
    s'.store.byteAt sblock other position = s.store.byteAt sblock other position
  entries : ∀ other, other < sblock.numInodes → other ≠ fields.inodeNo →
    s'.store.inodeEntry sblock other = s.store.inodeEntry sblock other
  list : s'.list = s.list
  next : s'.next = s.next
  console : s'.console = s.console

theorem cleared_addr (entry : InodeEntry) (i : Nat) : entry.cleared.addr i = 0 := by
  simp [InodeEntry.cleared, InodeEntry.plain, InodeEntry.addr]

/-- `inode_clear` makes a file empty. -/
theorem inodeClear_cleared (layout : sblock.Layout) (sound : Sound sblock s)
    (loaded : s.inodes inode = some fields) :
    Leads (inodeClear sblock ctx inode) s (fun _ s' _ => Cleared sblock inode fields s s') E := by
  have valid : fields.valid = true := sound.valid loaded
  have live : fields.entry.cleared.type ≠ inodeInvalid := sound.live loaded
  obtain ⟨consistent, own, bytes, entries⟩ := sound.clear layout loaded (cleared_addr fields.entry)
    rfl fun _ => Nat.zero_le _
  refine inodeClear_leads loaded valid sound.unlocked sound.held
    (sound.indirect_apart layout loaded) fun _ => ?_
  have others : ∀ other, other < sblock.numInodes → other ≠ fields.inodeNo → _ :=
    fun other inside away => (entries other inside).trans (if_neg away)
  refine ⟨sound.setInode loaded rfl valid live consistent (unmarkAll_held ..)
    (unmarkAll_bitmapLock ..) ?_ others, rfl, own, bytes, others, rfl, rfl, rfl⟩
  rw [entries _ (sound.inside loaded), if_pos rfl]

/-- What `inode_put` leaves where it gives back the last reference to an inode without links. -/
structure Freed (sblock : SuperBlock) (inode : Nat) (fields : Inode) (s s' : FsState) : Prop where
  sound : Sound sblock s'
  memory : s'.inodes = Function.update s.inodes inode none
  own : ∀ place, s'.store.own sblock place =
    if place.1 = fields.inodeNo then none else s.store.own sblock place
  byteAt : ∀ other position, other ≠ fields.inodeNo →
    s'.store.byteAt sblock other position = s.store.byteAt sblock other position
  free : (s'.store.inodeEntry sblock fields.inodeNo).type = inodeInvalid
  entries : ∀ other, other < sblock.numInodes → other ≠ fields.inodeNo →
    s'.store.inodeEntry sblock other = s.store.inodeEntry sblock other
  list : s'.list = s.list.erase inode
  next : s'.next = s.next
  console : s'.console = s.console

/-- The end of `inode_put` for an inode that is freed. -/
theorem forget_leads {Q : Unit → FsState → List Nat → Prop} (loaded : s.inodes inode = some fields)
    (unlocked : s.listLock = false)
    (next : Q () { s with
      inodes := Function.update s.inodes inode none, list := s.list.erase inode } []) :
    Leads (do
      lockList
      detach inode
      unlockList
      post inode
      kfree inode) s Q E := by
  have lock : serve .lockList s = some ((), { s with listLock := true }) := by
    simp only [serve, unlocked]
    rfl
  have post : serve (.post inode) { s with listLock := false, list := s.list.erase inode } =
      some ((), { s.setInode inode { fields with locked := false } with
        listLock := false, list := s.list.erase inode }) := by
    simp only [serve, amend, loaded, Option.map_some]
    rfl
  refine .bind (.answered lock (.bind (.answered rfl (.bind (.answered rfl (.bind
    (.answered post (.answered rfl ?_))))))))
  simp only [FsState.setInode, Function.update_idem, ← unlocked]
  exact next

/-- The part of `inode_put` that frees an inode. -/
theorem freeInode_leads (layout : sblock.Layout) (sound : Sound sblock s)
    (loaded : s.inodes inode = some fields) {new : Inode} (number : new.inodeNo = fields.inodeNo)
    (valid : new.valid = true) (entry : new.entry = fields.entry)
    {Q : Unit → FsState → List Nat → Prop}
    (next : ∀ s' synced, Freed sblock inode fields s s' → Q () s' synced) :
    Leads (do
      setEntry inode { new.entry with type := inodeInvalid }
      inodeClear sblock ctx inode
      inodeSync sblock ctx inode true
      lockList
      detach inode
      unlockList
      post inode
      kfree inode) (s.setInode inode new) Q E := by
  have inside := sound.inside loaded
  let freed : InodeEntry := { fields.entry with type := inodeInvalid }
  let cleared := s.store.unmarkAll sblock (s.store.clearList fields.entry)
  obtain ⟨consistent, own, bytes, entries⟩ := sound.clear layout loaded (cleared_addr freed) rfl
    fun used => absurd rfl used
  have none : ∀ slot, (cleared.writeEntry sblock fields.inodeNo freed.cleared).has freed.cleared slot =
      (cleared.writeEntry sblock fields.inodeNo freed.cleared).own sblock (fields.inodeNo, slot) := by
    intro slot
    rw [own, if_pos rfl]
    exact if_neg fun used => used.1 rfl
  -- the entry is written a second time
  obtain ⟨consistent', own', bytes'⟩ := consistent.rewrite layout inside none fun used =>
    absurd rfl used
  have apart := sound.indirect_apart layout loaded
  have idle : (cleared.writeEntry sblock fields.inodeNo freed.cleared).held = s.store.held :=
    unmarkAll_held ..
  have unlocked : (cleared.writeEntry sblock fields.inodeNo freed.cleared).bitmapLock =
      s.store.bitmapLock := unmarkAll_bitmapLock ..
  have removed := sound.remove loaded consistent' idle unlocked fun other _ away => by
    rw [Store.inodeEntry_writeEntry, if_neg away, entries other ‹_›, if_neg away]
  rw [entry]
  refine .bind (setEntry_leads (Function.update_self ..) (.bind ?_))
  refine inodeClear_leads (Function.update_self ..) valid sound.unlocked sound.held apart
    fun synced => .bind ?_
  refine inodeSync_leads (Function.update_self ..) valid ?_ ?_
  · exact congrFun (unmarkAll_held ..) _ |>.trans (sound.held _)
  · refine forget_leads (Function.update_self ..) sound.listUnlocked (next _ _ ?_)
    simp only [FsState.setInode, Function.update_idem, number]
    refine ⟨removed, rfl, fun place => (own' place).trans (own place), fun other position away =>
      (bytes' other position).trans (bytes other position away), ?_, fun other inside away => ?_, rfl, rfl,
      rfl⟩
    · rw [Store.inodeEntry_writeEntry, if_pos rfl]
      rfl
    · rw [Store.inodeEntry_writeEntry, if_neg away]
      exact (entries other inside).trans (if_neg away)

/-- `inode_put` gives back a reference, and frees the inode where it was the last one and the inode
has no links. -/
theorem inodePut_leads (layout : sblock.Layout) (sound : Sound sblock s)
    (loaded : s.inodes inode = some fields) (open_ : fields.locked = false)
    {Q : Unit → FsState → List Nat → Prop}
    (kept : ¬(fields.rc = 1 ∧ fields.entry.numLinks = 0) →
      ∀ synced, Q () (s.setInode inode { fields with rc := fields.rc - 1 }) synced)
    (freed : fields.rc = 1 ∧ fields.entry.numLinks = 0 →
      ∀ s' synced, Freed sblock inode fields s s' → Q () s' synced) :
    Leads (inodePut sblock ctx inode) s Q E := by
  have wait : serve (.wait inode) s = some ((), s.setInode inode { fields with locked := true }) := by
    simp only [serve, loaded, Option.bind_some, open_, Bool.false_eq_true, if_false]
    rfl
  have decrement : serve (.decrementRc inode) (s.setInode inode { fields with locked := true }) =
      some ((), s.setInode inode { fields with locked := true, rc := fields.rc - 1 }) := by
    simp only [serve, amend, FsState.setInode, Function.update_self, Option.map_some,
      Function.update_idem]
    rfl
  refine .bind (.answered wait (.bind (.answered decrement (.bind
    (load_leads (Function.update_self ..) ?_)))))
  by_cases last : fields.rc - 1 = 0 ∧ fields.entry.numLinks = 0
  · rw [if_pos last]
    have valid : fields.valid = true := sound.valid loaded
    exact @freeInode_leads sblock s inode fields ctx _ layout sound loaded
      { fields with locked := true, rc := fields.rc - 1 } rfl valid rfl _ fun s' synced =>
        freed ⟨by omega, last.2⟩ s' _
  · rw [if_neg last]
    refine .answered ?_ (kept (fun both => last ⟨by omega, both.2⟩) _)
    simp only [serve, amend, FsState.setInode, Function.update_self, Option.map_some,
      Function.update_idem, open_]
    rfl

end Put

/-! ## Allocating an inode -/

section Alloc

variable {sblock : SuperBlock} {s : FsState} {ctx : Ctx} {type : UInt16}

/-- An entry without blocks for an inode that was free. -/
theorem Sound.allocInode (layout : sblock.Layout) (sound : Sound sblock s) {ino : Nat}
    (inside : ino < sblock.numInodes)
    (free : (s.store.inodeEntry sblock ino).type = inodeInvalid) {entry : InodeEntry}
    (addrs : ∀ i, entry.addr i = 0) (indirect : entry.indirect = 0)
    (short : entry.numBytes.toNat ≤ inodeMaxBytes) :
    Sound sblock { s with store := s.store.writeEntry sblock ino entry } ∧
      (∀ place, (s.store.writeEntry sblock ino entry).own sblock place =
        s.store.own sblock place) ∧
      ∀ other position, (s.store.writeEntry sblock ino entry).byteAt sblock other position =
        s.store.byteAt sblock other position := by
  have none : ∀ slot, s.store.has entry slot = s.store.own sblock (ino, slot) := by
    intro slot
    have nothing : s.store.own sblock (ino, slot) = none := by
      rw [Store.own_of_lt inside]
      exact if_neg fun used => used.1 free
    rw [nothing]
    refine if_neg fun used => used.2 ?_
    cases slot <;> simp [Store.address, addrs, indirect]
  obtain ⟨consistent, own, bytes⟩ := sound.consistent.rewrite layout inside none fun _ => short
  refine ⟨?_, own, bytes⟩
  -- an inode in memory is in use, so it is another one
  have others : ∀ {inode fields}, s.inodes inode = some fields → fields.inodeNo ≠ ino := by
    intro inode fields loaded same
    have live := sound.live loaded
    rw [sound.entry loaded, same] at live
    exact live free
  exact { sound with
    held := sound.held
    unlocked := sound.unlocked
    consistent
    entry := fun loaded => by
      rw [Store.inodeEntry_writeEntry, if_neg (others loaded)]
      exact sound.entry loaded }

/-- The loop of `inode_alloc` takes the first inode that is free. -/
theorem inodeAllocLoop_leads (held : ∀ blockNo, s.store.held blockNo = false) {rounds ino : Nat}
    {Q : Nat → FsState → List Nat → Prop} {E : List Nat → Prop}
    (next : ∀ found, ino ≤ found → found < ino + rounds →
      (s.store.inodeEntry sblock found).type = inodeInvalid →
      Q found { s with store := s.store.writeEntry sblock found { InodeEntry.zero with type } }
        [sblock.toBlockNo found])
    (full : (∀ found, ino ≤ found → found < ino + rounds →
      (s.store.inodeEntry sblock found).type ≠ inodeInvalid) → E []) :
    Leads (inodeAllocLoop sblock ctx type rounds ino) s Q E := by
  induction rounds generalizing ino with
  | zero => exact .of_none rfl rfl (full fun found above below => by omega)
  | succ rounds ih =>
    have read : s.store.inodeEntry sblock ino =
        entryAt (s.store.blocks (sblock.toBlockNo ino)) (ino % inodePerBlock) := by
      rw [Store.inodeEntry]
    refine .bind (acquire_leads (held _) ?_)
    by_cases free : (s.store.inodeEntry sblock ino).type = inodeInvalid
    · rw [← read, if_pos free]
      refine store_leads ctx (.bind (@release_leads { s with
        store := s.store.writeEntry sblock ino { InodeEntry.zero with type } } _ _ _ (held _)
          (.ret ?_)))
      exact next ino (Nat.le_refl _) (by omega) free
    · rw [← read, if_neg free]
      refine .bind (release_leads (held _) (ih (fun found above below =>
        next found (by omega) (by omega)) fun none => full fun found above below => ?_))
      by_cases first : found = ino
      · rwa [first]
      · exact none found (by omega) (by omega)

/-- `inode_alloc` takes the first inode after number zero that is free, and panics if there is
none. -/
theorem inodeAlloc_leads (held : ∀ blockNo, s.store.held blockNo = false) (valid : type ≠ inodeInvalid)
    {Q : Nat → FsState → List Nat → Prop} {E : List Nat → Prop}
    (next : ∀ ino, ino ≠ 0 → ino < sblock.numInodes →
      (s.store.inodeEntry sblock ino).type = inodeInvalid →
      Q ino { s with store := s.store.writeEntry sblock ino { InodeEntry.zero with type } }
        [sblock.toBlockNo ino])
    (full : (∀ ino, ino ≠ 0 → ino < sblock.numInodes →
      (s.store.inodeEntry sblock ino).type ≠ inodeInvalid) → E []) :
    Leads (inodeAlloc sblock ctx type) s Q E := by
  refine .bind (assert_leads valid ?_)
  refine inodeAllocLoop_leads held (fun ino above below => next ino (by omega) (by omega)) fun none =>
    full fun ino some inside => none ino (by omega) (by omega)

end Alloc

/-! ## A small image -/

/-- A small disk with some data blocks. -/
def tinyDisk (data : Nat) : SuperBlock where
  numBlocks := 7 + data
  numDataBlocks := data
  numInodes := 16
  numLogBlocks := 2
  logStart := 2
  inodeStart := 4
  bitmapStart := 6

theorem tinyDisk_dataStart (data : Nat) : (tinyDisk data).dataStart = 7 := Nat.add_sub_cancel ..

theorem tinyDisk_layout {data : Nat} (small : data ≤ 25) : (tinyDisk data).Layout where
  narrow := by
    simp only [tinyDisk]
    omega
  nonempty := by
    simp only [tinyDisk]
    omega
  bitmap blockNo inBitmap := by
    obtain ⟨-, high⟩ := inBitmap
    have size : bitPerBlock = 4096 := rfl
    simp only [tinyDisk, size] at high
    rw [tinyDisk_dataStart]
    omega
  inodes ino inside := by
    have all : ∀ ino < 16, (tinyDisk 0).toBlockNo ino < 7 := by decide
    rw [tinyDisk_dataStart]
    exact all ino inside
  apart ino inside := by
    have all : ∀ ino < 16, (tinyDisk 0).toBlockNo ino < 6 := by decide
    exact fun inBitmap => Nat.not_le.mpr (all ino inside) inBitmap.1

/-- No inode is in use, and what is before the data blocks is marked. -/
def tinyStore : Store where
  blocks blockNo := if blockNo = 6 then Bytes.set .zero 0 127 else .zero
  held _ := false
  bitmapLock := false

/-- All inodes of the small image are free. -/
theorem tinyStore_entry {data ino : Nat} (inside : ino < 16) :
    tinyStore.inodeEntry (tinyDisk data) ino = .zero := by
  have all : ∀ ino < 16, (tinyDisk 0).toBlockNo ino < 6 := by decide
  have blank : tinyStore.blocks ((tinyDisk data).toBlockNo ino) = .zero :=
    if_neg (Nat.ne_of_lt (all ino inside))
  rw [Store.inodeEntry, blank, entryAt]
  simp only [Bytes.get_zero]
  rfl

/-- No inode of the small image has a block. -/
theorem tinyStore_own (data : Nat) (place : Nat × Slot) :
    tinyStore.own (tinyDisk data) place = none := by
  rw [Store.own]
  split
  · rename_i inside
    rw [tinyStore_entry inside]
    exact if_neg fun used => used.1 rfl
  · rfl

theorem tinyStore_sound {data : Nat} (small : data ≤ 25) :
    Sound (tinyDisk data) ⟨tinyStore, fun _ => none, [], false, 0, []⟩ := by
  have nothing := tinyStore_own data
  have marks : ∀ blockNo, blockNo < 7 + data →
      tinyStore.used (tinyDisk data) blockNo = decide (blockNo < 7) := by
    have all : ∀ blockNo < 32, tinyStore.used (tinyDisk 0) blockNo = decide (blockNo < 7) := by
      decide +kernel
    exact fun blockNo onDisk => all blockNo (by omega)
  refine ⟨fun _ => rfl, rfl, rfl, ⟨⟨fun owned => ?_, fun blockNo => ?_⟩, fun blockNo below => ?_,
    fun ino inside live => ?_⟩, nofun, nofun, nofun, nofun, nofun, nofun, nofun, .nil, nofun⟩
  · rw [nothing] at owned
    contradiction
  · constructor
    · rintro ⟨low, high, marked⟩
      rw [marks blockNo high] at marked
      rw [tinyDisk_dataStart] at low
      exact absurd (of_decide_eq_true marked) (Nat.not_lt.mpr low)
    · rintro ⟨place, owned⟩
      rw [nothing] at owned
      contradiction
  · rw [tinyDisk_dataStart] at below
    exact (marks blockNo (by omega)).trans (decide_eq_true below)
  · rw [tinyStore_entry inside] at live
    contradiction

/-- One inode is in use, and in memory. -/
def oneInode (data : Nat) (entry : InodeEntry) : FsState where
  store := tinyStore.writeEntry (tinyDisk data) 2 entry
  inodes := Function.update (fun _ => none) 0 (some ⟨false, 1, 2, true, entry⟩)
  list := [0]
  listLock := false
  next := 1
  console := []

theorem oneInode_entry (data : Nat) (entry : InodeEntry) :
    (oneInode data entry).store.inodeEntry (tinyDisk data) 2 = entry := by
  rw [oneInode, Store.inodeEntry_writeEntry, if_pos rfl]

/-- An inode without blocks is sound. -/
theorem oneInode_sound {data : Nat} (small : data ≤ 25) {entry : InodeEntry}
    (live : entry.type ≠ inodeInvalid) (addrs : ∀ i, entry.addr i = 0)
    (indirect : entry.indirect = 0) (short : entry.numBytes.toNat ≤ inodeMaxBytes) :
    Sound (tinyDisk data) (oneInode data entry) := by
  have inside : 2 < (tinyDisk data).numInodes := show 2 < 16 by decide
  have free : (tinyStore.inodeEntry (tinyDisk data) 2).type = inodeInvalid := by
    rw [tinyStore_entry inside]
    rfl
  have written := ((tinyStore_sound small).allocInode (tinyDisk_layout small) inside free addrs
    indirect short).1
  have here := oneInode_entry data entry
  have loaded := @Sound.insert _ _ written false 1 2 inside (by rw [← here] at live; exact live)
    nofun
  rw [oneInode] at here
  simp only [here] at loaded
  exact loaded

/-- A regular file without blocks. -/
def sparse (size : UInt32) : InodeEntry :=
  { InodeEntry.zero with type := inodeRegular, numLinks := 1, numBytes := size }

theorem sparse_sound {data : Nat} (small : data ≤ 25) {size : UInt32}
    (short : size.toNat ≤ inodeMaxBytes) : Sound (tinyDisk data) (oneInode data (sparse size)) :=
  oneInode_sound small (show inodeRegular ≠ inodeInvalid by decide)
    (fun i => by simp [sparse, InodeEntry.zero, InodeEntry.addr]) rfl short

end FsState

end OsLab.Fs
