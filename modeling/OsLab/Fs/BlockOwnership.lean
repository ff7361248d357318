import OsLab.Lib.Transition
import OsLab.Fs.FileBytes
import OsLab.Fs.InodeCalls

/-!
# Who owns which block

Whole calls of the functions of `src/fs/inode.c`, one at a time and in any order. Whatever they are
called with, they keep the image consistent and the entries in memory those on disk, as long as
`inode_get` is called for inodes in use: the marked data blocks are those that inodes have, each of
them once. Calls that fail an assertion or wait for ever are no steps.
-/
namespace OsLab.Fs.BlockOwnership

open OsLab.Lib OsLab.Fs.FsState
open InodeProg

/-- Code that leaves a sound state where it finds one. -/
abbrev KeepsSound {α : Type} (sblock : SuperBlock) (program : InodeProg α) : Prop :=
  program.Keeps serve (Sound sblock)

section Parts

variable {sblock : SuperBlock} {inode : Nat}

/-- Code of which it is known what it leads to. -/
theorem keeps_of_leads {α : Type} {program : InodeProg α} {s : FsState}
    {Q : α → FsState → List Nat → Prop} {E : List Nat → Prop} (leads : Leads program s Q E)
    (sound : ∀ value s' synced, Q value s' synced → Sound sblock s') :
    program.Outcome serve s (fun _ s' => Sound sblock s') True :=
  (leads.mono sound fun _ _ => trivial).outcome

/-- What follows an assertion may use it. -/
theorem assert_outcome {holds : Prop} [Decidable holds] {s : FsState} {Q : Unit → FsState → Prop}
    (next : holds → Q () s) : (assert holds).Outcome serve s Q True := by
  rw [assert]
  split
  · exact .ret (next ‹_›)
  · exact .of_none rfl trivial

theorem keeps_assert {holds : Prop} [Decidable holds] : KeepsSound sblock (assert holds) :=
  fun _ sound => assert_outcome fun _ => sound

theorem keeps_panic {α : Type} : KeepsSound sblock (panic : InodeProg α) :=
  fun _ _ => .of_none rfl trivial

/-- Looking at an inode. Nothing goes on where it is not in memory. -/
theorem load_outcome {s : FsState} {Q : Inode → FsState → Prop}
    (next : ∀ fields, s.inodes inode = some fields → Q fields s) :
    (load inode).Outcome serve s Q True := by
  refine .request (fun fields s' served => ?_) fun _ => trivial
  obtain ⟨loaded, there, same⟩ := Option.map_eq_some_iff.mp served
  obtain ⟨rfl, rfl⟩ := Prod.mk.inj same
  exact next _ there

theorem entry_outcome {s : FsState} {Q : InodeEntry → FsState → Prop}
    (next : ∀ fields, s.inodes inode = some fields → Q fields.entry s) :
    (entry inode).Outcome serve s Q True :=
  .andThen (load_outcome fun fields loaded => .ret (next fields loaded))

theorem keeps_load : KeepsSound sblock (load inode) :=
  fun _ sound => load_outcome fun _ _ => sound

theorem keeps_entry : KeepsSound sblock (entry inode) :=
  fun _ sound => entry_outcome fun _ _ => sound

/-- The lock and the count of an inode do not matter. -/
theorem keeps_touch (inode : Nat) {op : InodeOp} (serves : ∀ s answer s', serve op s = some (answer, s') →
    ∃ fields locked rc, s.inodes inode = some fields ∧
      s' = s.setInode inode { fields with locked, rc }) :
    KeepsSound sblock (Prog.request op) := by
  refine .request fun s answer s' sound served => ?_
  obtain ⟨fields, locked, rc, loaded, rfl⟩ := serves s answer s' served
  exact sound.touch loaded rfl rfl rfl

theorem keeps_post : KeepsSound sblock (post inode) := by
  refine keeps_touch inode fun s answer s' served => ?_
  obtain ⟨fields, loaded, same⟩ := Option.map_eq_some_iff.mp served
  exact ⟨fields, false, fields.rc, loaded, (Prod.mk.inj same).2.symm⟩

theorem keeps_wait : KeepsSound sblock (wait inode) := by
  refine keeps_touch inode fun s answer s' served => ?_
  obtain ⟨fields, loaded, free⟩ := Option.bind_eq_some_iff.mp served
  rw [Option.ite_none_left_eq_some] at free
  exact ⟨fields, true, fields.rc, loaded, (Prod.mk.inj (Option.some.inj free.2)).2.symm⟩

theorem keeps_share : KeepsSound sblock (inodeShare inode) := by
  refine .bind (keeps_touch inode fun s answer s' served => ?_) fun _ => .pure _
  obtain ⟨fields, loaded, same⟩ := Option.map_eq_some_iff.mp served
  exact ⟨fields, fields.locked, fields.rc + 1, loaded, (Prod.mk.inj same).2.symm⟩

theorem keeps_lock : KeepsSound sblock (inodeLock inode) :=
  .bind keeps_load fun _ => .bind keeps_assert fun _ => keeps_wait

theorem keeps_unlock : KeepsSound sblock (inodeUnlock inode) :=
  .bind keeps_load fun _ => .bind keeps_assert fun _ => keeps_post

/-- The console is not part of what is sound. -/
theorem sound_console {s : FsState} (sound : Sound sblock s) (console : List (List UInt8 × Int)) :
    Sound sblock { s with console } := { sound with }

theorem keeps_consoleWrite (bytes : List UInt8) : KeepsSound sblock (consoleWrite inode bytes) := by
  refine .bind keeps_unlock fun _ => .bind (.request fun s answer s' sound served => ?_) fun _ =>
    .bind keeps_lock fun _ => .pure _
  obtain ⟨-, rfl⟩ := Prod.mk.inj (Option.some.inj served)
  exact sound

theorem keeps_consoleRead (count : Nat) : KeepsSound sblock (consoleRead inode count) := by
  refine .bind keeps_unlock fun _ => .bind (.request fun s answer s' sound served => ?_) fun _ =>
    .bind keeps_lock fun _ => .pure _
  simp only [serve] at served
  split at served
  · contradiction
  · obtain ⟨-, rfl⟩ := Prod.mk.inj (Option.some.inj served)
    exact sound_console sound _

end Parts

/-! ## The calls -/

section Calls

variable {sblock : SuperBlock} {inode : Nat} {ctx : Ctx}

/-- An inode that is loaded is short. -/
theorem sound_short {s : FsState} {fields : Inode} (sound : Sound sblock s)
    (loaded : s.inodes inode = some fields) : fields.entry.numBytes.toNat ≤ inodeMaxBytes := by
  have live := sound.live loaded
  rw [sound.entry loaded] at live ⊢
  exact sound.consistent.short _ (sound.inside loaded) live

theorem keeps_read (layout : sblock.Layout) (offset count : Nat) :
    KeepsSound sblock (inodeRead sblock inode offset count) := by
  intro s sound
  refine .andThen (entry_outcome fun fields loaded => ?_)
  split
  · exact (keeps_assert.bind fun _ => keeps_consoleRead count) s sound
  · simp only
    generalize (if (count + offset) % 2 ^ 64 > fields.entry.numBytes.toNat then
      (fields.entry.numBytes.toNat + 2 ^ 64 - offset) % 2 ^ 64 else count) = count'
    refine .andThen (assert_outcome fun _ => .andThen (assert_outcome fun inFile => .andThen
      (assert_outcome fun _ => .andThen ?_)))
    have short := sound_short sound loaded
    refine (keeps_of_leads (readLoop_leads layout sound loaded (Nat.le_refl _) (by omega))
      fun _ _ _ reads => reads.1.sound).mono (fun _ _ sound => .ret sound) id

theorem keeps_write (layout : sblock.Layout) (src : List UInt8) (offset : Nat) :
    KeepsSound sblock (inodeWrite sblock ctx inode src offset) := by
  intro s sound
  refine .andThen (entry_outcome fun fields loaded => ?_)
  split
  · exact (keeps_assert.bind fun _ => keeps_consoleWrite src) s sound
  · refine .andThen (assert_outcome fun _ => .andThen (assert_outcome fun fits => .andThen
      (assert_outcome fun _ => .andThen ?_)))
    have extended := @extend_leads _ _ _ _ ctx layout sound loaded _ fits fun _ => True
    refine Prog.Shows.outcome (extended.mono ?_ fun _ => id)
    rintro _ s₁ _ resized
    have loaded₁ := congrFun resized.memory inode
    rw [Function.update_self] at loaded₁
    refine .andThen ((keeps_of_leads (writeLoop_leads layout resized.sound loaded₁ (Nat.le_refl _)
      fits) fun _ _ _ writes => writes.sound).mono (fun _ _ sound => .ret sound) id)

theorem keeps_clear (layout : sblock.Layout) : KeepsSound sblock (inodeClear sblock ctx inode) := by
  intro s sound
  cases loaded : s.inodes inode with
  | none =>
    refine .andThen (.andThen (entry_outcome fun fields there => ?_))
    rw [loaded] at there
    contradiction
  | some fields =>
    exact Prog.Shows.outcome ((inodeClear_cleared layout sound loaded).mono
      (fun _ _ _ cleared => cleared.sound) fun _ => id)

theorem keeps_lookup2Loop (layout : sblock.Layout) (stack : Stack) (name : List UInt8)
    (rounds i index : Nat) (now : List UInt8) :
    KeepsSound sblock (lookup2Loop sblock stack inode name rounds i index now) := by
  induction rounds generalizing i index now with
  | zero => exact keeps_panic
  | succ rounds ih =>
    refine .bind keeps_entry fun _ => .ite (fun _ => ?_) fun _ => .pure _
    exact .bind (keeps_read layout i dirEntryBytes) fun _ => .ite (fun _ => .pure _) fun _ => ih _ _ _

theorem keeps_insert (layout : sblock.Layout) (stack : Stack) (name : List UInt8) (inodeNo : Nat) :
    KeepsSound sblock (inodeInsert sblock stack ctx inode name inodeNo) := by
  refine .bind keeps_entry fun _ => .bind keeps_assert fun _ => .bind ?_ fun _ =>
    .ite (fun _ => .pure _) fun _ => .bind (keeps_write layout _ _) fun _ => .pure _
  exact .bind keeps_entry fun _ => .bind keeps_assert fun _ => keeps_lookup2Loop layout _ _ _ _ _ _

theorem keeps_remove (layout : sblock.Layout) (stack : Stack) (index : Nat) :
    KeepsSound sblock (inodeRemove sblock stack ctx inode index) :=
  .bind (keeps_read layout _ _) fun _ => .bind (keeps_write layout _ _) fun _ => .pure _

theorem keeps_alloc (layout : sblock.Layout) (type : UInt16) :
    KeepsSound sblock (inodeAlloc sblock ctx type) := by
  intro s sound
  by_cases valid : type = inodeInvalid
  · exact .andThen (assert_outcome fun some => absurd valid some)
  · refine Prog.Shows.outcome (inodeAlloc_leads sound.held valid (fun ino _ inside free => ?_)
      fun _ => trivial)
    exact (sound.allocInode layout inside free (fun i => by simp [InodeEntry.zero, InodeEntry.addr])
      rfl (Nat.zero_le _)).1

theorem keeps_put (layout : sblock.Layout) : KeepsSound sblock (inodePut sblock ctx inode) := by
  intro s sound
  cases loaded : s.inodes inode with
  | none =>
    refine .andThen (.request (fun _ s' served => ?_) fun _ => trivial)
    simp only [serve, loaded, Option.bind_none] at served
    contradiction
  | some fields =>
    cases locked : fields.locked with
    | true =>
      refine .andThen (.request (fun _ s' served => ?_) fun _ => trivial)
      simp only [serve, loaded, Option.bind_some, locked, if_true] at served
      contradiction
    | false =>
      refine Prog.Shows.outcome (inodePut_leads layout sound loaded locked (fun _ _ => ?_)
        fun _ s' _ freed => freed.sound)
      exact sound.touch loaded rfl rfl rfl

/-- `inode_get` of an inode in use. -/
theorem get_outcome {s : FsState} {ino : Nat} (sound : Sound sblock s)
    (live : ino ≠ 0 → ino < sblock.numInodes →
      (s.store.inodeEntry sblock ino).type ≠ inodeInvalid) :
    (inodeGet sblock ino).Outcome serve s (fun _ s' => Sound sblock s') True := by
  by_cases zero : ino = 0
  · subst zero
    exact (inodeGet_zero sound).outcome
  · by_cases inside : ino < sblock.numInodes
    · exact Prog.Shows.outcome (inodeGet_leads sound zero inside (live zero inside)
        fun _ _ got => got.sound)
    · rw [inodeGet, if_neg zero]
      exact .andThen (assert_outcome fun yes => absurd yes inside)

end Calls

/-! ## Runs -/

/-- A call. -/
inductive Call where
  | alloc (ctx : Ctx) (type : UInt16)
  | get (inodeNo : Nat)
  | share (inode : Nat)
  | read (inode offset count : Nat)
  | write (ctx : Ctx) (inode : Nat) (src : List UInt8) (offset : Nat)
  | clear (ctx : Ctx) (inode : Nat)
  | insert (ctx : Ctx) (inode : Nat) (name : List UInt8) (inodeNo : Nat) (stack : Stack)
  | remove (ctx : Ctx) (inode index : Nat) (stack : Stack)
  | put (ctx : Ctx) (inode : Nat)

/-- The code of a call. -/
def Call.program (sblock : SuperBlock) : Call → InodeProg Unit
  | .alloc ctx type => do let _ ← inodeAlloc sblock ctx type
  | .get inodeNo => do let _ ← inodeGet sblock inodeNo
  | .share inode => do let _ ← inodeShare inode
  | .read inode offset count => do let _ ← inodeRead sblock inode offset count
  | .write ctx inode src offset => do let _ ← inodeWrite sblock ctx inode src offset
  | .clear ctx inode => inodeClear sblock ctx inode
  | .insert ctx inode name inodeNo stack => do
    let _ ← inodeInsert sblock stack ctx inode name inodeNo
  | .remove ctx inode index stack => inodeRemove sblock stack ctx inode index
  | .put ctx inode => inodePut sblock ctx inode

/-- A whole call. What the console has is chosen with it. -/
def step (sblock : SuperBlock) (s : FsState) (act : Call × List (List UInt8 × Int)) :
    Option FsState :=
  ((act.1.program sblock).run serve { s with console := act.2 }).map Prod.snd

/-- No inode is in memory and nothing is acquired or locked, with a consistent image on disk. -/
structure Fresh (sblock : SuperBlock) (s : FsState) : Prop where
  consistent : s.store.Consistent sblock
  held : ∀ blockNo, s.store.held blockNo = false
  unlocked : s.store.bitmapLock = false
  inodes : ∀ inode, s.inodes inode = none
  list : s.list = []
  listUnlocked : s.listLock = false

theorem Fresh.sound {sblock : SuperBlock} {s : FsState} (fresh : Fresh sblock s) :
    Sound sblock s := by
  have nothing : ∀ {inode fields}, s.inodes inode ≠ some fields := by simp [fresh.inodes]
  refine ⟨fresh.held, fresh.unlocked, fresh.listUnlocked, fresh.consistent, fun found => ?_,
    fun found => ?_, fun found => ?_, fun found => ?_, fun found => ?_, fun found => ?_,
    fun _ member => ?_, ?_, fun found => ?_⟩
  case refine_7 =>
    rw [fresh.list] at member
    contradiction
  case refine_8 =>
    rw [fresh.list]
    exact .nil
  all_goals exact absurd found nothing

/-- Calls one at a time, from any consistent image. -/
def machine (sblock : SuperBlock) : Machine FsState (Call × List (List UInt8 × Int)) where
  init := Fresh sblock
  step := step sblock

/-- `inode_get` is called for inodes in use. -/
def GetsLive (sblock : SuperBlock) (s : FsState) (act : Call × List (List UInt8 × Int)) : Prop :=
  match act.1 with
  | .get inodeNo => inodeNo ≠ 0 → inodeNo < sblock.numInodes →
    (s.store.inodeEntry sblock inodeNo).type ≠ inodeInvalid
  | _ => True

instance (sblock : SuperBlock) (s : FsState) (act : Call × List (List UInt8 × Int)) :
    Decidable (GetsLive sblock s act) := by
  unfold GetsLive
  split <;> infer_instance

/-- A call that is made for inodes in use leaves a sound state. -/
theorem call_outcome {sblock : SuperBlock} (layout : sblock.Layout) {s : FsState}
    (sound : Sound sblock s) {call : Call} {console : List (List UInt8 × Int)}
    (live : GetsLive sblock s (call, console)) :
    (call.program sblock).Outcome serve s (fun _ s' => Sound sblock s') True := by
  have ends : ∀ {α} {program : InodeProg α}, KeepsSound sblock program →
      KeepsSound sblock (do let _ ← program) := fun keeps => keeps.bind fun _ => .pure _
  cases call with
  | alloc ctx type => exact ends (keeps_alloc layout type) s sound
  | get inodeNo =>
    exact .andThen ((get_outcome sound live).mono (fun _ _ sound => .ret sound) id)
  | share inode => exact ends keeps_share s sound
  | read inode offset count => exact ends (keeps_read layout offset count) s sound
  | write ctx inode src offset => exact ends (keeps_write layout src offset) s sound
  | clear ctx inode => exact keeps_clear layout s sound
  | insert ctx inode name inodeNo stack => exact ends (keeps_insert layout stack name inodeNo) s sound
  | remove ctx inode index stack => exact keeps_remove layout stack index s sound
  | put ctx inode => exact keeps_put layout s sound

/-- Exact block ownership. After every run of calls from a consistent image, in which `inode_get` is
called for inodes in use, no block is owned twice, the marked data blocks are exactly those that are
owned, and the valid inodes in memory have the entries on disk. -/
theorem block_ownership_exact (sblock : SuperBlock) (layout : sblock.Layout) (s : FsState)
    (reached : (machine sblock).Reach (GetsLive sblock) s) :
    (∀ place place' blockNo, s.store.own sblock place = some blockNo →
      s.store.own sblock place' = some blockNo → place = place') ∧
    (∀ blockNo, s.store.Taken sblock blockNo ↔ ∃ place, s.store.own sblock place = some blockNo) ∧
    ∀ inode fields, s.inodes inode = some fields → fields.valid = true →
      fields.entry = s.store.inodeEntry sblock fields.inodeNo := by
  have sound : Sound sblock s := by
    refine reached.invariant (P := Sound sblock) (fun _ fresh => fresh.sound) ?_
    rintro s ⟨call, console⟩ s' - sound live taken
    obtain ⟨⟨⟩, s', returned, rfl⟩ : ∃ result s'', (call.program sblock).run serve
        { s with console } = some (result, s'') ∧ s'' = s' := by
      obtain ⟨⟨result, s''⟩, returned, same⟩ := Option.map_eq_some_iff.mp taken
      exact ⟨result, s'', returned, same⟩
    have live' : GetsLive sblock { s with console } (call, console) := live
    exact (call_outcome layout (sound_console sound console) live').result returned
  exact ⟨fun _ _ _ one two => sound.consistent.exact.alone one two, sound.consistent.exact.taken_iff,
    fun _ _ loaded _ => sound.entry loaded⟩

/-- The small image with nothing in memory. -/
def blank : FsState := ⟨tinyStore, fun _ => none, [], false, 0, []⟩

theorem blank_fresh : Fresh (tinyDisk 25) blank where
  consistent := (tinyStore_sound (Nat.le_refl _)).consistent
  held _ := rfl
  unlocked := rfl
  inodes _ := rfl
  list := rfl
  listUnlocked := rfl

/-- A file is made, and three bytes are written to it. -/
def newFile : List (Call × List (List UInt8 × Int)) :=
  [(.alloc .op inodeRegular, []), (.get 1, []), (.write .op 0 [1, 2, 3] 0, [])]

/-- The first data block is the only one of that file, and marked. -/
theorem block_ownership_exact_newFile :
    ∃ s, (machine (tinyDisk 25)).Reach (GetsLive (tinyDisk 25)) s ∧
      s.store.own (tinyDisk 25) (1, .direct 0) = some 7 ∧ s.store.Taken (tinyDisk 25) 7 := by
  have shown : ((machine (tinyDisk 25)).exec (GetsLive (tinyDisk 25)) blank newFile).map
      (fun s => s.store.own (tinyDisk 25) (1, .direct 0)) = some (some 7) := by decide +kernel
  obtain ⟨s, reached, owned⟩ := Machine.Reach.exec_map blank_fresh shown
  exact ⟨s, reached, owned, ((block_ownership_exact _ (tinyDisk_layout (Nat.le_refl _)) s
    reached).2.1 7).mpr ⟨_, owned⟩⟩

/-- `inode_get` of an inode that is free loads its entry, which is stale once `inode_alloc` has taken
that inode. -/
theorem get_before_alloc :
    ∃ s, (machine (tinyDisk 25)).Reach Machine.Any s ∧ ∃ fields, s.inodes 0 = some fields ∧
      fields.valid = true ∧ fields.entry ≠ s.store.inodeEntry (tinyDisk 25) fields.inodeNo := by
  have shown : ((machine (tinyDisk 25)).exec Machine.Any blank
      [(.get 1, []), (.alloc .op inodeRegular, [])]).map (fun s => (s.inodes 0).map fun fields =>
        (fields.valid, decide (fields.entry = s.store.inodeEntry (tinyDisk 25) fields.inodeNo))) =
      some (some (true, false)) := by decide +kernel
  obtain ⟨s, reached, found⟩ := Machine.Reach.exec_map blank_fresh shown
  obtain ⟨fields, loaded, same⟩ := Option.map_eq_some_iff.mp found
  obtain ⟨valid, stale⟩ := Prod.mk.inj same
  exact ⟨s, reached, fields, loaded, valid, of_decide_eq_false stale⟩

end OsLab.Fs.BlockOwnership
