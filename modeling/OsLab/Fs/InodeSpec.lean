import OsLab.Fs.Image
import OsLab.Fs.InodeRun

/-!
# What the functions on inodes do

The functions of `src/fs/inode.c` over the plain store, one at a time: what each does to the image
and to the inodes in memory, and which blocks it hands to `cache->sync`. `inode_map` finds or
allocates the block for a place of a file, and changes no byte of any file.
-/
namespace OsLab.Fs

open OsLab.Lib
open InodeProg

/-- The block that a request hands to `cache->sync`. -/
def InodeOp.synced : InodeOp → Option Nat
  | .block op => op.synced
  | _ => none

/-- The fields of an inode, but for addresses. -/
def Inode.plain (fields : Inode) : Inode := { fields with entry := fields.entry.plain }

namespace FsState

/-- A run leads to `Q` where it returns and to `E` where it never does, with the blocks synced. -/
abbrev Leads {α : Type} (program : InodeProg α) (s : FsState) (Q : α → FsState → List Nat → Prop)
    (E : List Nat → Prop) : Prop :=
  Prog.Shows serve InodeOp.synced program s Q E

/-! ## Requests -/

section Requests

variable {α : Type} {s : FsState} {inode blockNo : Nat} {fields : Inode} {E : List Nat → Prop}

/-- Code that works on blocks only. -/
theorem lift_leads {program : BlockProg α} {Q : α → FsState → List Nat → Prop}
    (inner : Prog.Shows Store.serve BlockOp.synced program s.store
      (fun value store synced => Q value { s with store } synced) E) :
    Leads (lift program) s Q E := by
  refine Prog.Shows.translate (fun store => { s with store }) ?_ ?_ inner
  · intro op store
    exact Prog.run_request ..
  · intro op store
    exact Prog.observed_request ..

theorem acquire_leads {Q : BlockData → FsState → List Nat → Prop}
    (free : s.store.held blockNo = false)
    (next : Q (s.store.blocks blockNo) { s with store := s.store.hold blockNo } []) :
    Leads (acquire blockNo) s Q E := by
  refine Prog.Shows.answered ?_ next
  simp only [serve, Store.serve_acquire free]
  rfl

theorem release_leads {Q : Unit → FsState → List Nat → Prop} (free : s.store.held blockNo = false)
    (next : Q () s []) :
    Leads (release blockNo) { s with store := s.store.hold blockNo } Q E := by
  have released : Store.serve (.release blockNo) (s.store.hold blockNo) = some ((), s.store) :=
    Store.serve_release free s.store.blocks
  refine Prog.Shows.answered ?_ next
  simp only [serve, released]
  rfl

/-- A block that was acquired is changed and synced. -/
theorem store_leads {rest : InodeProg α} {Q : α → FsState → List Nat → Prop} (ctx : Ctx)
    {data : BlockData}
    (next : Leads rest { s with store := (s.store.put blockNo data).hold blockNo }
      (fun value s' more => Q value s' (blockNo :: more)) fun more => E (blockNo :: more)) :
    Leads (do
      InodeProg.store blockNo data
      sync ctx blockNo
      rest) { s with store := s.store.hold blockNo } Q E := by
  have held : (s.store.hold blockNo).held blockNo = true := by simp
  have stored : ((s.store.hold blockNo).put blockNo data).held blockNo = true := held
  have put : serve (.block (.store blockNo data)) { s with store := s.store.hold blockNo } =
      some ((), { s with store := (s.store.hold blockNo).put blockNo data }) := by
    simp only [serve, Store.serve_store held]
    rfl
  have synced : serve (.block (.sync ctx blockNo))
      { s with store := (s.store.hold blockNo).put blockNo data } =
        some ((), { s with store := (s.store.hold blockNo).put blockNo data }) := by
    simp only [serve, Store.serve_sync stored]
    rfl
  exact .bind (.answered put (.bind (.answered synced next)))

theorem load_leads {Q : Inode → FsState → List Nat → Prop} (loaded : s.inodes inode = some fields)
    (next : Q fields s []) : Leads (load inode) s Q E := by
  refine Prog.Shows.answered ?_ next
  simp only [serve, loaded]
  rfl

theorem entry_leads {Q : InodeEntry → FsState → List Nat → Prop}
    (loaded : s.inodes inode = some fields) (next : Q fields.entry s []) :
    Leads (entry inode) s Q E :=
  .bind (load_leads loaded (.ret next))

theorem setEntry_leads {Q : Unit → FsState → List Nat → Prop} {entry : InodeEntry}
    (loaded : s.inodes inode = some fields)
    (next : Q () (s.setInode inode { fields with entry }) []) :
    Leads (setEntry inode entry) s Q E := by
  refine Prog.Shows.answered ?_ next
  simp only [serve, amend, loaded]
  rfl

/-- `inode_sync` of an entry that is loaded writes it. -/
theorem inodeSync_leads {sblock : SuperBlock} {ctx : Ctx} {Q : Unit → FsState → List Nat → Prop}
    (loaded : s.inodes inode = some fields) (valid : fields.valid = true)
    (free : s.store.held (sblock.toBlockNo fields.inodeNo) = false)
    (next : Q () { s with store := s.store.writeEntry sblock fields.inodeNo fields.entry }
      [sblock.toBlockNo fields.inodeNo]) :
    Leads (inodeSync sblock ctx inode true) s Q E := by
  refine .bind (load_leads loaded ?_)
  simp only [valid, Bool.and_self, if_true]
  exact .bind (acquire_leads free (store_leads ctx (@release_leads
    { s with store := s.store.writeEntry sblock fields.inodeNo fields.entry } _ _ _ free next)))

end Requests

/-! ## Sound states -/

/-- Nothing is acquired or locked, the image is consistent, and the inodes in memory are in the list,
each once, with the entries on disk. -/
structure Sound (sblock : SuperBlock) (s : FsState) : Prop where
  held : ∀ blockNo, s.store.held blockNo = false
  unlocked : s.store.bitmapLock = false
  listUnlocked : s.listLock = false
  consistent : s.store.Consistent sblock
  valid : ∀ {inode : Nat} {fields : Inode}, s.inodes inode = some fields → fields.valid = true
  inside : ∀ {inode : Nat} {fields : Inode}, s.inodes inode = some fields →
    fields.inodeNo < sblock.numInodes
  entry : ∀ {inode : Nat} {fields : Inode}, s.inodes inode = some fields →
    fields.entry = s.store.inodeEntry sblock fields.inodeNo
  live : ∀ {inode : Nat} {fields : Inode}, s.inodes inode = some fields →
    fields.entry.type ≠ inodeInvalid
  alone : ∀ {inode other : Nat} {fields fields' : Inode}, s.inodes inode = some fields →
    s.inodes other = some fields' → fields.inodeNo = fields'.inodeNo → inode = other
  listed : ∀ {inode : Nat} {fields : Inode}, s.inodes inode = some fields → inode ∈ s.list
  present : ∀ inode, inode ∈ s.list → ∃ fields, s.inodes inode = some fields
  distinct : s.list.Nodup
  fresh : ∀ {inode : Nat} {fields : Inode}, s.inodes inode = some fields → inode < s.next

/-- Blocks were allocated for places of an inode, and nothing else has changed but bytes of
files. -/
structure Extends (sblock : SuperBlock) (ino : Nat) (s s' : FsState) : Prop where
  kept : ∀ place blockNo, s.store.own sblock place = some blockNo →
    s'.store.own sblock place = some blockNo
  others : ∀ place : Nat × Slot, place.1 ≠ ino →
    s'.store.own sblock place = s.store.own sblock place
  plain : ∀ other, other < sblock.numInodes →
    (s'.store.inodeEntry sblock other).plain = (s.store.inodeEntry sblock other).plain
  memory : ∀ inode, (s'.inodes inode).map Inode.plain = (s.inodes inode).map Inode.plain
  list : s'.list = s.list
  next : s'.next = s.next
  console : s'.console = s.console

namespace Extends

variable {sblock : SuperBlock} {ino : Nat} {s s' s'' : FsState}

theorem refl : Extends sblock ino s s :=
  ⟨fun _ _ => id, fun _ _ => rfl, fun _ _ => rfl, fun _ => rfl, rfl, rfl, rfl⟩

theorem trans (one : Extends sblock ino s s') (two : Extends sblock ino s' s'') :
    Extends sblock ino s s'' where
  kept place blockNo owned := two.kept place blockNo (one.kept place blockNo owned)
  others place away := (two.others place away).trans (one.others place away)
  plain other inside := (two.plain other inside).trans (one.plain other inside)
  memory inode := (two.memory inode).trans (one.memory inode)
  list := two.list.trans one.list
  next := two.next.trans one.next
  console := two.console.trans one.console

/-- A place without a block had none. -/
theorem bare (extends_ : Extends sblock ino s s') {place : Nat × Slot}
    (bare : s'.store.own sblock place = none) : s.store.own sblock place = none := by
  cases earlier : s.store.own sblock place with
  | none => rfl
  | some old =>
    rw [extends_.kept _ _ earlier] at bare
    contradiction

/-- An inode that was in memory still is. -/
theorem loaded (extends_ : Extends sblock ino s s') {inode : Nat} {fields : Inode}
    (loaded : s.inodes inode = some fields) :
    ∃ entry, s'.inodes inode = some { fields with entry } ∧ entry.plain = fields.entry.plain := by
  have memory := extends_.memory inode
  rw [loaded, Option.map_some, Option.map_eq_some_iff] at memory
  obtain ⟨fields', loaded', same⟩ := memory
  obtain ⟨locked, rc, inodeNo, valid, entry⟩ := fields
  obtain ⟨locked', rc', inodeNo', valid', entry'⟩ := fields'
  simp only [Inode.plain, Inode.mk.injEq] at same
  obtain ⟨rfl, rfl, rfl, rfl, plain⟩ := same
  exact ⟨entry', loaded', plain⟩

end Extends

section Changes

variable {sblock : SuperBlock} {s : FsState} {store : Store} {inode blockNo : Nat}
  {fields new : Inode} {slot : Slot}

/-- An inode in memory after one has changed is that one, or one that has not changed. -/
theorem setInode_cases {other : Nat} {found : Inode}
    (loaded : (s.setInode inode new).inodes other = some found) :
    (other = inode ∧ found = new) ∨ (other ≠ inode ∧ s.inodes other = some found) := by
  simp only [setInode, Function.update_apply] at loaded
  split at loaded
  · exact .inl ⟨‹_›, (Option.some.inj loaded).symm⟩
  · exact .inr ⟨‹_›, loaded⟩

/-- Another entry of one inode, in memory and on disk. -/
theorem Sound.setInode (sound : Sound sblock s) (loaded : s.inodes inode = some fields)
    (number : new.inodeNo = fields.inodeNo) (valid : new.valid = true)
    (live : new.entry.type ≠ inodeInvalid) (consistent : store.Consistent sblock)
    (held : store.held = s.store.held) (locked : store.bitmapLock = s.store.bitmapLock)
    (entry : new.entry = store.inodeEntry sblock fields.inodeNo)
    (entries : ∀ other, other < sblock.numInodes → other ≠ fields.inodeNo →
      store.inodeEntry sblock other = s.store.inodeEntry sblock other) :
    Sound sblock { s.setInode inode new with store } where
  held := by simp [held, sound.held]
  unlocked := by simp [locked, sound.unlocked]
  listUnlocked := sound.listUnlocked
  consistent := consistent
  valid found := by
    obtain ⟨rfl, rfl⟩ | ⟨-, before⟩ := setInode_cases found
    · exact valid
    · exact sound.valid before
  inside found := by
    obtain ⟨rfl, rfl⟩ | ⟨-, before⟩ := setInode_cases found
    · exact number ▸ sound.inside loaded
    · exact sound.inside before
  entry found := by
    obtain ⟨rfl, rfl⟩ | ⟨differ, before⟩ := setInode_cases found
    · rw [entry, number]
    · rw [sound.entry before]
      refine (entries _ (sound.inside before) fun same => differ ?_).symm
      exact sound.alone before loaded same
  live found := by
    obtain ⟨rfl, rfl⟩ | ⟨-, before⟩ := setInode_cases found
    · exact live
    · exact sound.live before
  alone found found' same := by
    obtain ⟨rfl, rfl⟩ | ⟨-, before⟩ := setInode_cases found
    · obtain ⟨rfl, rfl⟩ | ⟨-, before'⟩ := setInode_cases found'
      · rfl
      · exact sound.alone loaded before' (number.symm.trans same)
    · obtain ⟨rfl, rfl⟩ | ⟨-, before'⟩ := setInode_cases found'
      · exact sound.alone before loaded (same.trans number)
      · exact sound.alone before before' same
  listed found := by
    obtain ⟨rfl, rfl⟩ | ⟨-, before⟩ := setInode_cases found
    · exact sound.listed loaded
    · exact sound.listed before
  present other member := by
    by_cases here : other = inode
    · exact ⟨new, by simp only [FsState.setInode, here, Function.update_self]⟩
    · obtain ⟨fields', before⟩ := sound.present other member
      exact ⟨fields', by simp only [FsState.setInode, Function.update_of_ne here, before]⟩
  distinct := sound.distinct
  fresh found := by
    obtain ⟨rfl, rfl⟩ | ⟨-, before⟩ := setInode_cases found
    · exact sound.fresh loaded
    · exact sound.fresh before

/-- The lock and the count of an inode do not matter. -/
theorem Sound.touch (sound : Sound sblock s) (loaded : s.inodes inode = some fields)
    (number : new.inodeNo = fields.inodeNo) (valid : new.valid = fields.valid)
    (entry : new.entry = fields.entry) : Sound sblock (s.setInode inode new) :=
  sound.setInode loaded number (valid.trans (sound.valid loaded)) (entry ▸ sound.live loaded)
    sound.consistent rfl rfl (entry.trans (sound.entry loaded)) fun _ _ _ => rfl

/-- Other blocks, with the entries of the inodes as they were. -/
theorem Sound.setStore (sound : Sound sblock s) (consistent : store.Consistent sblock)
    (held : store.held = s.store.held) (locked : store.bitmapLock = s.store.bitmapLock)
    (entries : ∀ other, other < sblock.numInodes →
      store.inodeEntry sblock other = s.store.inodeEntry sblock other) :
    Sound sblock { s with store } where
  held := by simp [held, sound.held]
  unlocked := by simp [locked, sound.unlocked]
  listUnlocked := sound.listUnlocked
  consistent := consistent
  valid := sound.valid
  inside := sound.inside
  entry found := (sound.entry found).trans (entries _ (sound.inside found)).symm
  live := sound.live
  alone := sound.alone
  listed := sound.listed
  present := sound.present
  distinct := sound.distinct
  fresh := sound.fresh

/-- A block for a place of an inode in memory. -/
theorem Sound.attach (sound : Sound sblock s) (loaded : s.inodes inode = some fields)
    (attach : Store.Attach sblock s.store store fields.inodeNo slot blockNo)
    (held : store.held = s.store.held) (locked : store.bitmapLock = s.store.bitmapLock)
    {entry : InodeEntry} (same : entry = store.inodeEntry sblock fields.inodeNo) :
    Sound sblock { s.setInode inode { fields with entry } with store } ∧
      Extends sblock fields.inodeNo s { s.setInode inode { fields with entry } with store } := by
  have plain := attach.plain fields.inodeNo (sound.inside loaded)
  rw [← same, ← sound.entry loaded] at plain
  have live : entry.type ≠ inodeInvalid := Store.plain_type plain ▸ sound.live loaded
  have valid : fields.valid = true := sound.valid loaded
  refine ⟨sound.setInode loaded rfl valid live (attach.consistent sound.consistent)
    held locked same attach.entries, fun place old owned => ?_, fun place away => ?_,
    attach.plain, fun other => ?_, rfl, rfl, rfl⟩
  · rw [attach.own, if_neg, owned]
    rintro rfl
    rw [attach.bare] at owned
    contradiction
  · rw [attach.own, if_neg fun here => away (by rw [here])]
  · by_cases here : other = inode
    · subst here
      simp only [FsState.setInode, Function.update_self, loaded, Option.map_some, Inode.plain, plain]
    · simp only [FsState.setInode, Function.update_of_ne here]

end Changes

/-! ## Blocks for files -/

/-- A block that is synced where blocks are found or allocated for a range of a file: that of the
inode, a block of the range, or the bitmap block for a new one. -/
def Touched (sblock : SuperBlock) (s s' : FsState) (ino lo hi blockNo : Nat) : Prop :=
  blockNo = sblock.toBlockNo ino ∨ ∃ slot owned, Store.InRange lo hi slot ∧
    s'.store.own sblock (ino, slot) = some owned ∧
    (blockNo = owned ∨ (s.store.own sblock (ino, slot) = none ∧ blockNo = sblock.freeBlock owned))

/-- A range of a file lacks a block, and there are not enough free blocks for it, or so many blocks
that `cache_alloc` finds none. -/
def Exhausted (sblock : SuperBlock) (s : FsState) (ino lo hi : Nat) : Prop :=
  0 < s.store.lacks sblock ino lo hi ∧
    (2 ^ 31 ≤ sblock.numBlocks ∨ s.store.freeCount sblock < s.store.lacks sblock ino lo hi)

instance (sblock : SuperBlock) (s : FsState) (ino lo hi : Nat) :
    Decidable (Exhausted sblock s ino lo hi) := inferInstanceAs (Decidable (_ ∧ (_ ∨ _)))

/-- Blocks were found or allocated for a part of a range of a file. -/
structure Grown (sblock : SuperBlock) (ino lo hi : Nat) (s s' : FsState) (synced : List Nat) :
    Prop where
  grows : Extends sblock ino s s'
  /-- What is lacking has become less by as much as what is free. -/
  budget : ∀ lo' hi', lo' ≤ lo → hi ≤ hi' → s'.store.lacks sblock ino lo' hi' +
    s.store.freeCount sblock ≤ s.store.lacks sblock ino lo' hi' + s'.store.freeCount sblock
  synced : ∀ blockNo ∈ synced, Touched sblock s s' ino lo hi blockNo

section Map

variable {sblock : SuperBlock} {s s' s'' : FsState} {ino lo hi : Nat} {synced more : List Nat}

theorem InRange_mono {lo' hi' : Nat} {slot : Slot} (within : Store.InRange lo hi slot)
    (above : lo' ≤ lo) (below : hi ≤ hi') : Store.InRange lo' hi' slot := by
  obtain ⟨rfl, deep, nonempty⟩ | ⟨k, low, high, rfl⟩ := within
  · exact .inl ⟨rfl, by omega, by omega⟩
  · exact .inr ⟨k, by omega, by omega, rfl⟩

theorem Touched.mono {t t' : FsState} {lo' hi' blockNo : Nat}
    (touched : Touched sblock s s' ino lo hi blockNo) (above : lo' ≤ lo) (below : hi ≤ hi')
    (before : Extends sblock ino t s) (after : Extends sblock ino s' t') :
    Touched sblock t t' ino lo' hi' blockNo := by
  obtain rfl | ⟨slot, owned, within, has, which⟩ := touched
  · exact .inl rfl
  · refine .inr ⟨slot, owned, InRange_mono within above below, after.kept _ _ has, ?_⟩
    obtain same | ⟨bare, same⟩ := which
    · exact .inl same
    · exact .inr ⟨before.bare bare, same⟩

theorem Grown.refl : Grown sblock ino lo hi s s [] :=
  ⟨.refl, fun _ _ _ _ => Nat.le_refl _, nofun⟩

theorem Grown.trans (one : Grown sblock ino lo hi s s' synced)
    (two : Grown sblock ino lo hi s' s'' more) : Grown sblock ino lo hi s s'' (synced ++ more) := by
  refine ⟨one.grows.trans two.grows, fun lo' hi' above below => ?_, fun blockNo member => ?_⟩
  · have first := one.budget lo' hi' above below
    have second := two.budget lo' hi' above below
    omega
  · obtain member | member := List.mem_append.mp member
    · exact (one.synced blockNo member).mono (Nat.le_refl _) (Nat.le_refl _) .refl two.grows
    · exact (two.synced blockNo member).mono (Nat.le_refl _) (Nat.le_refl _) one.grows .refl

/-- Blocks for a part of a range are blocks for the range. -/
theorem Grown.mono {lo' hi' : Nat} (grown : Grown sblock ino lo hi s s' synced) (above : lo' ≤ lo)
    (below : hi ≤ hi') : Grown sblock ino lo' hi' s s' synced :=
  ⟨grown.grows, fun _ _ above' below' => grown.budget _ _ (by omega) (by omega),
    fun blockNo member => (grown.synced blockNo member).mono above below .refl .refl⟩

/-- Where a run stops for want of blocks after some were allocated, there were not enough before. -/
theorem Grown.exhausted (grown : Grown sblock ino lo hi s s' synced)
    (exhausted : Exhausted sblock s' ino lo hi) : Exhausted sblock s ino lo hi := by
  have budget := grown.budget lo hi (Nat.le_refl _) (Nat.le_refl _)
  have less : s'.store.lacks sblock ino lo hi ≤ s.store.lacks sblock ino lo hi :=
    Store.lacks_mono (fun slot bare => grown.grows.bare bare) lo hi
  obtain ⟨missing, full⟩ := exhausted
  exact ⟨by omega, full.imp id fun few => by omega⟩

variable {inode blockNo : Nat} {fields : Inode} {slot : Slot} {store : Store}

/-- A block for a place of the range. -/
theorem Sound.grow (sound : Sound sblock s) (loaded : s.inodes inode = some fields)
    (attach : Store.Attach sblock s.store store fields.inodeNo slot blockNo)
    (within : Store.InRange lo hi slot)
    (held : store.held = s.store.held) (locked : store.bitmapLock = s.store.bitmapLock)
    {entry : InodeEntry} (same : entry = store.inodeEntry sblock fields.inodeNo)
    (all : ∀ other ∈ synced, other = sblock.toBlockNo fields.inodeNo ∨ other = blockNo ∨
      other = sblock.freeBlock blockNo ∨
      ∃ slot', Store.InRange lo hi slot' ∧ s.store.own sblock (fields.inodeNo, slot') = some other) :
    Sound sblock { s.setInode inode { fields with entry } with store } ∧
      Grown sblock fields.inodeNo lo hi s { s.setInode inode { fields with entry } with store }
        synced := by
  obtain ⟨sound', grows⟩ := sound.attach loaded attach held locked same
  have gained : store.own sblock (fields.inodeNo, slot) = some blockNo := by
    rw [attach.own, if_pos rfl]
  refine ⟨sound', grows, fun lo' hi' above below => ?_, fun other member => ?_⟩
  · have less := attach.lacks (InRange_mono within above below)
    have free := attach.freeCount
    simp only
    omega
  · obtain rfl | rfl | rfl | ⟨slot', within', owned⟩ := all other member
    · exact .inl rfl
    · exact .inr ⟨slot, _, within, gained, .inl rfl⟩
    · exact .inr ⟨slot, blockNo, within, gained, .inr ⟨attach.bare, rfl⟩⟩
    · exact .inr ⟨slot', other, within', grows.kept _ _ owned, .inl rfl⟩

/-- `cache_alloc` returns a data block that was free. -/
theorem cacheAlloc_leads (layout : sblock.Layout)
    (before : ∀ blockNo, blockNo < sblock.dataStart → s.store.used sblock blockNo = true)
    (unlocked : s.store.bitmapLock = false)
    (held : ∀ blockNo, s.store.held blockNo = true → s.store.Taken sblock blockNo) (ctx : Ctx) :
    Leads (lift (cacheAlloc sblock ctx)) s (fun blockNo s' synced =>
        sblock.dataStart ≤ blockNo ∧ blockNo < sblock.numBlocks ∧
        s.store.used sblock blockNo = false ∧
        s' = { s with store := s.store.allocate sblock blockNo } ∧
        synced = [sblock.freeBlock blockNo, blockNo])
      fun synced => synced = [] ∧
        (2 ^ 31 ≤ sblock.numBlocks ∨ s.store.freeCount sblock = 0) := by
  refine lift_leads ?_
  by_cases small : sblock.numBlocks < 2 ^ 31
  · have fits : sblock.BitmapFits := ⟨small, layout.bitmap_fits⟩
    have free : ∀ blockNo, ¬ s.store.Taken sblock blockNo → s.store.held blockNo = false := by
      intro blockNo untaken
      by_contra acquired
      exact untaken (held blockNo (by simpa using acquired))
    have ready : s.store.Allocatable sblock := by
      refine ⟨unlocked, fun blockNo onDisk => free _ ?_, fun blockNo onDisk clear => free _ ?_⟩
      · have before := layout.freeBlock_lt onDisk
        rw [SuperBlock.freeBlock_eq fits.bitmap onDisk] at before
        exact fun taken => absurd taken.1 (by omega)
      · rintro ⟨-, -, used⟩
        exact Bool.noConfusion (clear.symm.trans used)
    refine (cacheAlloc_shows fits ready ctx).mono (fun blockNo store synced allocates => ?_) ?_
    · refine ⟨?_, allocates.onDisk, allocates.clear, by rw [allocates.state], allocates.synced⟩
      by_contra early
      have used := before blockNo (by omega)
      exact Bool.noConfusion (allocates.clear.symm.trans used)
    · rintro synced ⟨rfl, full⟩
      refine ⟨rfl, .inr (Nat.eq_zero_of_not_pos fun some => ?_)⟩
      obtain ⟨blockNo, onDisk, clear⟩ := Store.freeCount_pos.mp some
      exact Bool.noConfusion (clear.symm.trans (full blockNo onDisk))
  · have rounds : (sblock.allocLimit + bitPerBlock - 1) / bitPerBlock = 0 := by
      rw [SuperBlock.allocLimit, if_neg small]
      rfl
    have locked : Store.serve .lockBitmap s.store = some ((), { s.store with bitmapLock := true }) := by
      simp [Store.serve, unlocked]
      rfl
    rw [cacheAlloc, rounds]
    exact .bind (.answered locked (.of_none rfl rfl ⟨rfl, .inl (by omega)⟩))

/-- A block was found or allocated for a place of a file. -/
structure Maps (sblock : SuperBlock) (ino k : Nat) (slot : Slot) (s : FsState) (blockNo : Nat)
    (s' : FsState) (synced : List Nat) : Prop where
  sound : Sound sblock s'
  grown : Grown sblock ino k (k + 1) s s' synced
  byteAt : ∀ other position,
    s'.store.byteAt sblock other position = s.store.byteAt sblock other position
  owned : s'.store.own sblock (ino, slot) = some blockNo

/-- There were not enough free blocks for a block of a file. -/
def Fails (sblock : SuperBlock) (ino lo hi : Nat) (s : FsState) (synced : List Nat) : Prop :=
  Exhausted sblock s ino lo hi ∧ ∃ s', Grown sblock ino lo hi s s' synced

variable {k : Nat} {ctx : Ctx}

theorem Exhausted.of_bare {slot : Slot} (within : Store.InRange lo hi slot)
    (bare : s.store.own sblock (ino, slot) = none)
    (full : 2 ^ 31 ≤ sblock.numBlocks ∨ s.store.freeCount sblock = 0) :
    Exhausted sblock s ino lo hi := by
  have missing := Store.lacks_pos within bare
  exact ⟨missing, full.imp id fun none => by omega⟩

/-- `inode_map` for a direct address. -/
theorem mapDirect_leads (layout : sblock.Layout) (sound : Sound sblock s)
    (loaded : s.inodes inode = some fields) (small : k < inodeNumDirect) :
    Leads (mapDirect sblock ctx inode k) s
      (fun result s' synced => Maps sblock fields.inodeNo k (.ofBlock k) s result.1 s' synced)
      (Fails sblock fields.inodeNo k (k + 1) s) := by
  have inside := sound.inside loaded
  have valid : fields.valid = true := sound.valid loaded
  have live := sound.live loaded
  have onDiskEntry := sound.entry loaded
  have slot : Slot.ofBlock k = .direct k := if_pos small
  have within : Store.InRange k (k + 1) (.direct k) := .inr ⟨k, by omega, by omega, slot.symm⟩
  rw [onDiskEntry] at live
  rw [slot]
  refine .bind (entry_leads loaded ?_)
  by_cases bare : fields.entry.addr k = 0
  · rw [if_pos bare]
    rw [onDiskEntry] at bare
    have none : s.store.own sblock (fields.inodeNo, .direct k) = none := by
      rw [Store.own_of_lt inside, Store.has_eq_none live]
      exact bare
    refine .bind ((cacheAlloc_leads layout sound.consistent.before sound.unlocked
      (fun blockNo acquired => by simp [sound.held] at acquired) ctx).mono ?_ ?_)
    · rintro blockNo s₁ synced ⟨data, onDisk, free, rfl, rfl⟩
      have narrow : blockNo < 2 ^ 32 := Nat.lt_trans onDisk layout.narrow
      have attach := Store.attach_direct layout sound.consistent inside live data onDisk free small
        bare
      have same : (s.store.inodeEntry sblock fields.inodeNo).setAddr k blockNo =
          ((s.store.allocate sblock blockNo).writeEntry sblock fields.inodeNo
            ((s.store.inodeEntry sblock fields.inodeNo).setAddr k blockNo)).inodeEntry sblock
              fields.inodeNo := by
        rw [Store.inodeEntry_writeEntry, if_pos rfl]
      rw [onDiskEntry]
      refine .bind (setEntry_leads loaded (.bind (inodeSync_leads (Function.update_self ..)
        valid (sound.held _) (.bind (entry_leads (Function.update_self ..)
          (.ret ?_))))))
      obtain ⟨sound', grown⟩ := @Sound.grow sblock s k (k + 1)
        [sblock.freeBlock blockNo, blockNo, sblock.toBlockNo fields.inodeNo] inode blockNo fields
        _ _ sound loaded attach within rfl rfl _ same (by simp)
      refine ⟨sound', grown, attach.byteAt, ?_⟩
      rw [InodeEntry.addr_setAddr _ small narrow, if_pos rfl]
      exact (attach.own _).trans (if_pos rfl)
    · rintro synced ⟨rfl, full⟩
      exact ⟨.of_bare within none full, s, .refl⟩
  · rw [if_neg bare]
    refine .ret ⟨sound, .refl, fun _ _ => rfl, ?_⟩
    rw [onDiskEntry] at bare ⊢
    rw [Store.own_of_lt inside]
    exact Store.has_eq_some.mpr ⟨live, rfl, bare⟩

/-- The indirect block is found or allocated. -/
theorem indirectBlock_leads (layout : sblock.Layout) (sound : Sound sblock s)
    (loaded : s.inodes inode = some fields) (large : inodeNumDirect ≤ k) :
    Leads (indirectBlock sblock ctx inode) s
      (fun blockNo s' synced => Maps sblock fields.inodeNo k .indirect s blockNo s' synced)
      (Fails sblock fields.inodeNo k (k + 1) s) := by
  have inside := sound.inside loaded
  have valid : fields.valid = true := sound.valid loaded
  have live := sound.live loaded
  have onDiskEntry := sound.entry loaded
  have within : Store.InRange k (k + 1) .indirect := .inl ⟨rfl, by omega, by omega⟩
  rw [onDiskEntry] at live
  refine .bind (entry_leads loaded ?_)
  by_cases bare : fields.entry.indirect = 0
  · rw [if_pos bare]
    rw [onDiskEntry] at bare
    have none : s.store.own sblock (fields.inodeNo, .indirect) = none := by
      rw [Store.own_of_lt inside, Store.has_eq_none live, Store.address, bare]
      rfl
    refine .bind ((cacheAlloc_leads layout sound.consistent.before sound.unlocked
      (fun blockNo acquired => by simp [sound.held] at acquired) ctx).mono ?_ ?_)
    · rintro blockNo s₁ synced ⟨data, onDisk, free, rfl, rfl⟩
      have narrow : blockNo < 2 ^ 32 := Nat.lt_trans onDisk layout.narrow
      have number : (UInt32.ofNat blockNo).toNat = blockNo := by
        rw [UInt32.toNat_ofNat']
        exact Nat.mod_eq_of_lt narrow
      have attach := Store.attach_indirect layout sound.consistent inside live data onDisk free bare
      have same : { s.store.inodeEntry sblock fields.inodeNo with indirect := .ofNat blockNo } =
          ((s.store.allocate sblock blockNo).writeEntry sblock fields.inodeNo
            { s.store.inodeEntry sblock fields.inodeNo with indirect := .ofNat blockNo }).inodeEntry
              sblock fields.inodeNo := by
        rw [Store.inodeEntry_writeEntry, if_pos rfl]
      rw [onDiskEntry]
      refine .bind (setEntry_leads loaded (.bind (inodeSync_leads (Function.update_self ..)
        valid (sound.held _) (.bind (entry_leads (Function.update_self ..) (.ret ?_))))))
      obtain ⟨sound', grown⟩ := @Sound.grow sblock s k (k + 1)
        [sblock.freeBlock blockNo, blockNo, sblock.toBlockNo fields.inodeNo] inode blockNo fields
        _ _ sound loaded attach within rfl rfl _ same (by simp)
      refine ⟨sound', grown, attach.byteAt, ?_⟩
      rw [number]
      exact (attach.own _).trans (if_pos rfl)
    · rintro synced ⟨rfl, full⟩
      exact ⟨.of_bare within none full, s, .refl⟩
  · rw [if_neg bare]
    refine .ret ⟨sound, .refl, fun _ _ => rfl, ?_⟩
    rw [onDiskEntry] at bare ⊢
    rw [Store.own_of_lt inside]
    refine Store.has_eq_some.mpr ⟨live, rfl, fun zero => bare ?_⟩
    exact UInt32.toNat_inj.mp (by simpa using zero)

/-- `inode_map` for an address of the indirect block. -/
theorem mapIndirect_leads (layout : sblock.Layout) (sound : Sound sblock s)
    (loaded : s.inodes inode = some fields) (large : inodeNumDirect ≤ k)
    (small : k < inodeMaxBlocks) :
    Leads (mapIndirect sblock ctx inode (k - inodeNumDirect)) s
      (fun result s' synced => Maps sblock fields.inodeNo k (.ofBlock k) s result.1 s' synced)
      (Fails sblock fields.inodeNo k (k + 1) s) := by
  have slot : Slot.ofBlock k = .entry (k - inodeNumDirect) := if_neg (by omega)
  have within : Store.InRange k (k + 1) (.entry (k - inodeNumDirect)) :=
    .inr ⟨k, by omega, by omega, slot.symm⟩
  have isIndirect : Store.InRange k (k + 1) .indirect := .inl ⟨rfl, by omega, by omega⟩
  have below : k - inodeNumDirect < inodeNumIndirect := by
    unfold inodeMaxBlocks at small
    omega
  rw [slot]
  refine .bind ((indirectBlock_leads layout sound loaded large).mono ?_ fun _ => id)
  rintro inblock s₁ synced ⟨sound₁, grown₁, bytes₁, owned⟩
  obtain ⟨entry, loaded₁, -⟩ := grown₁.grows.loaded loaded
  have inside := sound.inside loaded
  have live := sound₁.live loaded₁
  have onDiskEntry := sound₁.entry loaded₁
  simp only at live onDiskEntry
  rw [onDiskEntry] at live
  obtain ⟨dataIn, onDiskIn, usedIn⟩ := sound₁.consistent.taken owned
  have number := (Store.has_eq_some.mp (Store.own_eq_some.mp owned).2).2.1
  have entries : s₁.store.address (s₁.store.inodeEntry sblock fields.inodeNo)
      (.entry (k - inodeNumDirect)) =
        addrAt (s₁.store.blocks inblock) (k - inodeNumDirect) := by
    change (s₁.store.inodeEntry sblock fields.inodeNo).indirect.toNat = inblock at number
    rw [Store.address, if_neg, number]
    intro zero
    rw [zero] at number
    have positive := layout.dataStart_pos
    change 0 = inblock at number
    omega
  refine .bind (acquire_leads (sound₁.held _) ?_)
  by_cases bare : addrAt (s₁.store.blocks inblock) (k - inodeNumDirect) = 0
  · rw [if_pos bare]
    have none : s₁.store.own sblock (fields.inodeNo, .entry (k - inodeNumDirect)) = none := by
      rw [Store.own_of_lt inside, Store.has_eq_none live, entries, bare]
    have holds : ∀ blockNo, (s₁.store.hold inblock).held blockNo = true →
        (s₁.store.hold inblock).Taken sblock blockNo := by
      intro blockNo acquired
      by_cases same : blockNo = inblock
      · subst same
        exact ⟨dataIn, onDiskIn, usedIn⟩
      · simp [Function.update_of_ne same, sound₁.held] at acquired
    refine .bind ((@cacheAlloc_leads sblock { s₁ with store := s₁.store.hold inblock } layout
      sound₁.consistent.before sound₁.unlocked holds ctx).mono ?_ ?_)
    · rintro blockNo s₂ synced₂ ⟨data, onDisk, free, rfl, rfl⟩
      have attach := Store.attach_indirect_entry layout sound₁.consistent inside live data onDisk free
        below owned bare
      have same : entry = ((s₁.store.allocate sblock blockNo).put inblock
          (setAddrAt (s₁.store.blocks inblock) (k - inodeNumDirect) blockNo)).inodeEntry sblock
            fields.inodeNo := by
        rw [onDiskEntry, Store.inodeEntry_put layout dataIn _ inside,
          Store.inodeEntry_allocate layout data onDisk inside]
      obtain ⟨sound₃, grown₃⟩ := @Sound.grow sblock s₁ k (k + 1)
        [sblock.freeBlock blockNo, blockNo, inblock] inode blockNo { fields with entry } _ _ sound₁
        loaded₁ attach within rfl rfl _ same fun other member => by
          simp only [List.mem_cons, List.not_mem_nil, or_false] at member
          obtain rfl | rfl | rfl := member
          · exact .inr (.inr (.inl rfl))
          · exact .inr (.inl rfl)
          · exact .inr (.inr (.inr ⟨.indirect, isIndirect, owned⟩))
      have unchanged : s₁.setInode inode { fields with entry } = s₁ := by
        simp only [FsState.setInode, ← loaded₁, Function.update_eq_self]
      rw [unchanged] at sound₃ grown₃
      refine @store_leads _ { s₁ with store := s₁.store.allocate sblock blockNo } _ _ _ _ ctx _
        (.bind (release_leads (sound₃.held _) (.ret ?_)))
      refine ⟨sound₃, ?_, fun other position => ?_, ?_⟩
      · simpa using grown₁.trans grown₃
      · exact (attach.byteAt other position).trans (bytes₁ other position)
      · rw [Nat.mod_eq_of_lt (Nat.lt_trans onDisk layout.narrow)]
        exact (attach.own _).trans (if_pos rfl)
    · rintro synced₂ ⟨rfl, full⟩
      refine ⟨grown₁.exhausted (.of_bare within none full), s₁, ?_⟩
      simpa using grown₁
  · rw [if_neg bare]
    refine .bind (release_leads (sound₁.held _) (.ret ⟨sound₁, ?_, bytes₁, ?_⟩))
    · simpa using grown₁
    · rw [Store.own_of_lt inside]
      exact Store.has_eq_some.mpr ⟨live, entries, bare⟩

/-- `inode_map` finds or allocates the block for a place of a file. -/
theorem inodeMap_leads (layout : sblock.Layout) (sound : Sound sblock s)
    (loaded : s.inodes inode = some fields) (small : k < inodeMaxBlocks) :
    Leads (inodeMap sblock ctx inode k) s
      (fun result s' synced => Maps sblock fields.inodeNo k (.ofBlock k) s result.1 s' synced)
      (Fails sblock fields.inodeNo k (k + 1) s) := by
  by_cases direct : k < inodeNumDirect
  · rw [inodeMap, if_pos direct]
    exact mapDirect_leads layout sound loaded direct
  · rw [inodeMap, if_neg direct]
    exact mapIndirect_leads layout sound loaded (by omega) small

/-- What is exhausted for a part of a range is for the whole. -/
theorem Exhausted.mono {lo' hi' : Nat} (exhausted : Exhausted sblock s ino lo hi) (above : lo' ≤ lo)
    (below : hi ≤ hi') : Exhausted sblock s ino lo' hi' := by
  obtain ⟨missing, full⟩ := exhausted
  have more : s.store.lacks sblock ino lo hi ≤ s.store.lacks sblock ino lo' hi' :=
    Store.lacks_part above below
  exact ⟨by omega, full.imp id fun few => by omega⟩

theorem Fails.mono {lo' hi' : Nat} (fails : Fails sblock ino lo hi s synced) (above : lo' ≤ lo)
    (below : hi ≤ hi') : Fails sblock ino lo' hi' s synced := by
  obtain ⟨exhausted, s', grown⟩ := fails
  exact ⟨exhausted.mono above below, s', grown.mono above below⟩

/-- A run that fails after blocks were found for a part of the range. -/
theorem Fails.after (fails : Fails sblock ino lo hi s' more)
    (grown : Grown sblock ino lo hi s s' synced) : Fails sblock ino lo hi s (synced ++ more) := by
  obtain ⟨exhausted, s'', grown'⟩ := fails
  exact ⟨grown.exhausted exhausted, s'', grown.trans grown'⟩

/-- Other bytes in a block of a file. -/
theorem Sound.put_file (layout : sblock.Layout) (sound : Sound sblock s)
    (owned : s.store.own sblock (ino, .ofBlock k) = some blockNo) (above : lo ≤ k) (below : k < hi)
    (new : BlockData) : Sound sblock { s with store := s.store.put blockNo new } ∧
      Grown sblock ino lo hi s { s with store := s.store.put blockNo new } [blockNo] := by
  have data := (sound.consistent.taken owned).1
  have entries : ∀ other, other < sblock.numInodes →
      (s.store.put blockNo new).inodeEntry sblock other = s.store.inodeEntry sblock other :=
    fun other inside => Store.inodeEntry_put layout data new inside
  have own := Store.own_put_file layout sound.consistent owned new
  refine ⟨sound.setStore (sound.consistent.put_file layout owned new) rfl rfl entries,
    ⟨fun place old has => (own place).trans has, fun place _ => own place, fun other inside => by
      rw [entries other inside], fun _ => rfl, rfl, rfl, rfl⟩, fun lo' hi' _ _ => ?_, ?_⟩
  · have free : (s.store.put blockNo new).freeCount sblock = s.store.freeCount sblock :=
      Store.freeCount_congr fun other onDisk => Store.used_put layout data new onDisk
    have same : (s.store.put blockNo new).lacks sblock ino lo' hi' ≤
        s.store.lacks sblock ino lo' hi' :=
      Store.lacks_mono (fun slot bare => (own _).symm.trans bare) lo' hi'
    exact Nat.add_le_add same (Nat.le_of_eq free.symm)
  · intro other member
    obtain rfl := List.mem_singleton.mp member
    exact .inr ⟨.ofBlock k, _, .inr ⟨k, above, below, rfl⟩, (own _).trans owned, .inl rfl⟩

end Map

end FsState

end OsLab.Fs
