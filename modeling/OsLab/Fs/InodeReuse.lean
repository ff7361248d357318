import OsLab.Lib.Transition
import OsLab.Fs.Inode

/-!
# Inodes that are freed while others allocate

`inode_put` of the last reference to an inode without links, `inode_alloc` and `inode_get` of
`src/fs/inode.c` with their sections interleaved: what runs while a block is acquired, and what runs
under the spin lock of the list, is one step. The state holds the inodes on disk and in memory. The
bitmap is left out: freeing the blocks of the inode takes steps of `inode_clear`, but neither
`inode_alloc` nor `inode_get` looks at the bitmap.
-/
namespace OsLab.Fs.InodeReuse

open OsLab.Lib

/-- Where a process is in `inode_put`. -/
inductive PutStage where
  /-- `unalertable_wait_sem(&inode->lock)`. -/
  | wait
  /-- `_decrement_rc(&inode->rc)`. -/
  | decrement
  /-- `if (inode->rc.count==0&&inode->entry.num_links==0)`. -/
  | check
  /-- `inode->entry.type=INODE_INVALID`. -/
  | invalidate
  /-- `inode_clear`: the blocks that the indirect block names. -/
  | clearIndirect
  /-- `inode_clear`: the indirect block. -/
  | clearIndirectBlock
  /-- `inode_clear`: a direct address. -/
  | clearDirect (index : Nat)
  /-- `inode_clear`: `inode_sync(ctx,inode,1)`. -/
  | clearSync
  /-- `inode_sync(ctx,inode,1)`. -/
  | sync
  /-- The section that detaches the inode from the list. -/
  | detach
  /-- `post_sem(&inode->lock)` of an inode that is freed. -/
  | unlock
  /-- `kfree(inode)`. -/
  | kfree
  /-- `post_sem(&inode->lock)` of an inode that stays. -/
  | post
  deriving DecidableEq

/-- Where a process is. -/
inductive Pc where
  /-- In none of the three functions. -/
  | idle
  /-- It has failed an `ASSERT` or reached `PANIC()`. -/
  | panicked
  /-- In the loop of `inode_alloc`, at inode `ino`. -/
  | alloc (type : UInt16) (ino : Nat)
  /-- In `inode_get`. -/
  | get (inodeNo : Nat)
  /-- In `inode_put`. -/
  | put (inode : Nat) (stage : PutStage)
  deriving DecidableEq

/-- What has happened. -/
inductive Event where
  /-- `inode_alloc` has returned a number. -/
  | allocated (inodeNo : Nat)
  /-- `inode_get` has returned a pointer. -/
  | got (inode : Nat)
  /-- `inode_put` has written an entry with this type. -/
  | synced (inodeNo : Nat) (type : UInt16)
  /-- `inode_put` has freed the inode at a pointer. -/
  | freed (inode : Nat)
  deriving DecidableEq

/-- The state between two steps. -/
structure State where
  /-- The entries in the blocks of inodes. -/
  entries : Nat → InodeEntry
  /-- The inodes in memory, by their pointers. -/
  inodes : Nat → Inode
  /-- The inodes in the list of `head`. -/
  list : List Nat
  /-- The pointer that `kalloc` returns next. -/
  next : Nat
  procs : Nat → Pc
  /-- What has happened, the latest first. -/
  history : List Event

namespace State

/-- A process goes on. -/
def goto (s : State) (proc : Nat) (pc : Pc) : State :=
  { s with procs := Function.update s.procs proc pc }

/-- Something happens. -/
def record (s : State) (event : Event) : State := { s with history := event :: s.history }

/-- An inode in memory changes. -/
def change (s : State) (inode : Nat) (f : Inode → Inode) : State :=
  { s with inodes := Function.update s.inodes inode (f (s.inodes inode)) }

/-- The entry of an inode in memory changes. -/
def amend (s : State) (inode : Nat) (f : InodeEntry → InodeEntry) : State :=
  s.change inode fun now => { now with entry := f now.entry }

/-- `inode_sync(ctx,inode,1)` of `inode_put`. -/
def sync (s : State) (inode : Nat) : State :=
  let now := s.inodes inode
  if now.valid then
    { s with entries := Function.update s.entries now.inodeNo now.entry }.record
      (.synced now.inodeNo now.entry.type)
  else s.change inode fun now => { now with entry := s.entries now.inodeNo, valid := true }

/-- A step of `inode_put` and the stage after it, or `none` for the stage once it has returned. -/
def put (s : State) (inode : Nat) : PutStage → Option (State × Option PutStage)
  | .wait =>
    if (s.inodes inode).locked then none
    else some (s.change inode ({ · with locked := true }), some .decrement)
  | .decrement => some (s.change inode fun now => { now with rc := now.rc - 1 }, some .check)
  | .check =>
    if (s.inodes inode).rc = 0 ∧ (s.inodes inode).entry.numLinks = 0 then
      some (s, some .invalidate)
    else some (s, some .post)
  | .invalidate => some (s.amend inode ({ · with type := inodeInvalid }), some .clearIndirect)
  | .clearIndirect =>
    if (s.inodes inode).entry.indirect = 0 then some (s, some (.clearDirect 0))
    else some (s, some .clearIndirectBlock)
  | .clearIndirectBlock => some (s.amend inode ({ · with indirect := 0 }), some (.clearDirect 0))
  | .clearDirect index =>
    if index < inodeNumDirect then
      if (s.inodes inode).entry.addr index = 0 then some (s, some (.clearDirect (index + 1)))
      else some (s.amend inode (·.setAddr index 0), some (.clearDirect (index + 1)))
    else some (s.amend inode ({ · with numBytes := 0 }), some .clearSync)
  | .clearSync => some (s.sync inode, some .sync)
  | .sync => some (s.sync inode, some .detach)
  | .detach => some ({ s with list := s.list.erase inode }, some .unlock)
  | .unlock => some (s.change inode ({ · with locked := false }), some .kfree)
  | .kfree => some (s.record (.freed inode), none)
  | .post => some (s.change inode ({ · with locked := false }), none)

/-- The inode that the loop of `inode_get` finds in the list. -/
def find (s : State) (inodeNo : Nat) : Option Nat :=
  s.list.find? fun inode => (s.inodes inode).inodeNo = inodeNo

/-- `inode_get` finds the inode in the list. -/
def share (s : State) (inode : Nat) : State :=
  (s.change inode fun now => { now with rc := now.rc + 1 }).record (.got inode)

/-- `inode_get` loads the inode. -/
def load (s : State) (inodeNo : Nat) : State :=
  { s with
    inodes := Function.update s.inodes s.next
      { Inode.init inodeNo with rc := 1, entry := s.entries inodeNo, valid := true }
    list := s.next :: s.list
    next := s.next + 1 }.record (.got s.next)

/-- `inode_alloc` takes a number. -/
def take (s : State) (type : UInt16) (ino : Nat) : State :=
  { s with
    entries := Function.update s.entries ino { InodeEntry.zero with type } }.record
      (.allocated ino)

end State

/-- The choices of the processes and of the scheduler. -/
inductive Act where
  | alloc (proc : Nat) (type : UInt16)
  | get (proc inodeNo : Nat)
  /-- A process runs up to its next step. -/
  | run (proc : Nat)
  deriving DecidableEq

section Machine

variable (numInodes : Nat)

/-- A step of a process inside one of the functions. -/
def State.advance (s : State) (proc : Nat) : Option State :=
  match s.procs proc with
  | .idle | .panicked => none
  | .alloc type ino =>
    if ino < numInodes then
      if (s.entries ino).type = inodeInvalid then some ((s.take type ino).goto proc .idle)
      else some (s.goto proc (.alloc type (ino + 1)))
    else some (s.goto proc .panicked)
  | .get inodeNo =>
    if inodeNo = 0 then some (s.goto proc .idle)
    else if inodeNo < numInodes then
      match s.find inodeNo with
      | some inode => some ((s.share inode).goto proc .idle)
      | none => some ((s.load inodeNo).goto proc .idle)
    else some (s.goto proc .panicked)
  | .put inode stage =>
    (s.put inode stage).map fun result =>
      result.1.goto proc ((result.2.map (Pc.put inode)).getD .idle)

/-- A step. -/
def State.step (s : State) : Act → Option State
  | .alloc proc type =>
    if s.procs proc = .idle then
      some (s.goto proc (if type = inodeInvalid then .panicked else .alloc type 1))
    else none
  | .get proc inodeNo => if s.procs proc = .idle then some (s.goto proc (.get inodeNo)) else none
  | .run proc => s.advance numInodes proc

/-- One process, of number 0, calls `inode_put` with the last reference to an inode without
links. -/
structure Start (victim : Nat) (s : State) : Prop where
  caller : s.procs 0 = .put victim .wait
  others : ∀ proc, proc ≠ 0 → s.procs proc = .idle
  last : (s.inodes victim).rc = 1
  unlinked : (s.inodes victim).entry.numLinks = 0
  valid : (s.inodes victim).valid = true
  stored : s.entries (s.inodes victim).inodeNo = (s.inodes victim).entry
  used : (s.inodes victim).entry.type ≠ inodeInvalid
  listed : victim ∈ s.list
  nodup : s.list.Nodup
  unique : ∀ one ∈ s.list, ∀ two ∈ s.list,
    (s.inodes one).inodeNo = (s.inodes two).inodeNo → one = two
  /-- `kalloc` has returned the inodes of the list before. -/
  fresh : ∀ inode ∈ s.list, inode < s.next
  history : s.history = []

/-- `inode_put` of `victim` among `inode_alloc` and `inode_get`. -/
def machine (victim : Nat) : Machine State Act where
  init := Start victim
  step := State.step numInodes

end Machine

/-- `inode_put` has not written `INODE_INVALID` over an entry that `inode_alloc` had handed
out. -/
def Kept (history : List Event) : Prop :=
  history.Pairwise fun later earlier =>
    ∀ inodeNo, earlier = .allocated inodeNo → later ≠ .synced inodeNo inodeInvalid

/-- `inode_put` has not freed an inode that `inode_get` had returned. -/
def Alive (history : List Event) : Prop :=
  history.Pairwise fun later earlier => ∀ inode, earlier = .got inode → later ≠ .freed inode

/-- `inode_alloc` takes no number whose inode is in the list, and `inode_get` finds no inode
without references and links. -/
def Careful (s : State) : Act → Prop
  | .run proc =>
    match s.procs proc with
    | .alloc _ ino =>
      (s.entries ino).type = inodeInvalid → ∀ inode ∈ s.list, (s.inodes inode).inodeNo ≠ ino
    | .get inodeNo =>
      ∀ inode ∈ s.list, (s.inodes inode).inodeNo = inodeNo →
        ¬((s.inodes inode).rc = 0 ∧ (s.inodes inode).entry.numLinks = 0)
    | _ => True
  | _ => True

instance (s : State) (act : Act) : Decidable (Careful s act) := by
  cases act with
  | run proc =>
    unfold Careful
    dsimp only
    split <;> infer_instance
  | alloc | get => exact isTrue trivial

/-! ## The invariant -/

namespace PutStage

/-- The reference that `inode_put` drops is still counted. -/
def owed : PutStage → Int
  | .wait | .decrement => 1
  | _ => 0

/-- The inode will be freed. -/
def freeing : PutStage → Bool
  | .wait | .decrement | .check | .post => false
  | _ => true

/-- The inode has not been written as invalid. -/
def unwritten : PutStage → Bool
  | .sync | .detach | .unlock | .kfree | .post => false
  | _ => true

/-- The inode is detached from the list. -/
def detached : PutStage → Bool
  | .unlock | .kfree => true
  | _ => false

end PutStage

/-- What holds of the inode while `inode_put` is at a stage. -/
structure Progress (victim : Nat) (s : State) (stage : PutStage) : Prop where
  unlinked : (s.inodes victim).entry.numLinks = 0
  valid : (s.inodes victim).valid = true
  /-- References are those of the caller and those that `inode_get` has returned. -/
  counted : (s.inodes victim).rc = stage.owed + s.history.count (.got victim)
  unreferenced : stage.freeing = true → (s.inodes victim).rc = 0
  listed : victim ∈ s.list ↔ stage.detached = false
  unique : stage.detached = false →
    ∀ inode ∈ s.list, (s.inodes inode).inodeNo = (s.inodes victim).inodeNo → inode = victim
  /-- The entry on disk is in use until it is written. -/
  used : stage.unwritten = true →
    (s.entries (s.inodes victim).inodeNo).type ≠ inodeInvalid
  /-- The number is not handed out before the inode is detached. -/
  unallocated : stage.detached = false →
    .allocated (s.inodes victim).inodeNo ∉ s.history

/-- What holds in every state. -/
structure Inv (victim : Nat) (s : State) : Prop where
  kept : Kept s.history
  alive : Alive s.history
  nodup : s.list.Nodup
  fresh : ∀ inode ∈ s.list, inode < s.next
  old : victim < s.next
  putting : ∀ proc inode stage, s.procs proc = .put inode stage →
    proc = 0 ∧ inode = victim ∧ Progress victim s stage
  typed : ∀ proc type ino, s.procs proc = .alloc type ino → type ≠ inodeInvalid

variable {numInodes victim : Nat} {s s' : State} {proc : Nat}

theorem Start.inv (start : Start victim s) : Inv victim s where
  kept := by simp [start.history, Kept]
  alive := by simp [start.history, Alive]
  nodup := start.nodup
  fresh := start.fresh
  old := start.fresh _ start.listed
  putting := by
    intro proc inode stage running
    by_cases zero : proc = 0
    · subst zero
      rw [start.caller] at running
      obtain ⟨rfl, rfl⟩ := Pc.put.inj running
      refine ⟨rfl, rfl, start.unlinked, start.valid, ?_, ?_, ?_, ?_, ?_, ?_⟩
      · simp [start.last, start.history, PutStage.owed]
      · simp [PutStage.freeing]
      · simp [PutStage.detached, start.listed]
      · exact fun _ inode inside same => start.unique inode inside _ start.listed same
      · rw [start.stored]
        exact fun _ => start.used
      · simp [start.history]
    · rw [start.others proc zero] at running
      cases running
  typed := by
    intro proc type ino running
    by_cases zero : proc = 0
    · rw [zero, start.caller] at running
      cases running
    · rw [start.others proc zero] at running
      cases running

namespace State

variable (pc : Pc) (event : Event) (inode : Nat)

@[simp] theorem goto_procs : (s.goto proc pc).procs = Function.update s.procs proc pc := rfl

@[simp] theorem goto_history : (s.goto proc pc).history = s.history := rfl

end State

/-- What the stage of `inode_put` says stays where the inode, its number and the list do. -/
theorem Progress.mono {stage : PutStage} (progress : Progress victim s stage)
    (inodes : s'.inodes victim = s.inodes victim)
    (numbers : ∀ inode ∈ s'.list, inode ∈ s.list ∧
        (s'.inodes inode).inodeNo = (s.inodes inode).inodeNo ∨
      inode ≠ victim ∧ (stage.detached = false →
        (s'.inodes inode).inodeNo ≠ (s.inodes victim).inodeNo))
    (stays : victim ∈ s.list → victim ∈ s'.list)
    (counts : s'.history.count (.got victim) = s.history.count (.got victim))
    (used : stage.unwritten = true →
      (s.entries (s.inodes victim).inodeNo).type ≠ inodeInvalid →
      (s'.entries (s.inodes victim).inodeNo).type ≠ inodeInvalid)
    (unallocated : stage.detached = false →
      .allocated (s.inodes victim).inodeNo ∉ s.history →
      .allocated (s.inodes victim).inodeNo ∉ s'.history) :
    Progress victim s' stage where
  unlinked := inodes ▸ progress.unlinked
  valid := inodes ▸ progress.valid
  counted := by rw [inodes, counts, progress.counted]
  unreferenced := inodes ▸ progress.unreferenced
  listed := by
    rw [← progress.listed]
    refine ⟨fun inside => ?_, stays⟩
    obtain ⟨inside, -⟩ | ⟨other, -⟩ := numbers victim inside
    · exact inside
    · exact absurd rfl other
  unique := by
    intro here inode inside same
    rw [inodes] at same
    obtain ⟨inside, number⟩ | ⟨-, other⟩ := numbers inode inside
    · exact progress.unique here inode inside (number ▸ same)
    · exact absurd same (other here)
  used := by
    rw [inodes]
    exact fun early => used early (progress.used early)
  unallocated := by
    rw [inodes]
    exact fun here => unallocated here (progress.unallocated here)

namespace Inv

/-- A process outside `inode_put` goes on. -/
theorem goto (inv : Inv victim s) {pc : Pc} (outside : ∀ inode stage, pc ≠ .put inode stage)
    (valid : ∀ type ino, pc = .alloc type ino → type ≠ inodeInvalid) :
    Inv victim (s.goto proc pc) where
  kept := inv.kept
  alive := inv.alive
  nodup := inv.nodup
  fresh := inv.fresh
  old := inv.old
  putting := by
    intro other inode stage running
    simp only [State.goto_procs, Function.update_apply] at running
    split at running
    · exact absurd running (outside inode stage)
    · obtain ⟨rfl, rfl, progress⟩ := inv.putting other inode stage running
      exact ⟨rfl, rfl, progress.mono rfl (fun inode inside => .inl ⟨inside, rfl⟩) id rfl
        (fun _ => id) (fun _ => id)⟩
  typed := by
    intro other type ino running
    simp only [State.goto_procs, Function.update_apply] at running
    split at running
    · exact valid type ino running
    · exact inv.typed other type ino running

/-- `inode_alloc` takes a number. -/
theorem take (inv : Inv victim s) {type : UInt16} {ino : Nat} (valid : type ≠ inodeInvalid)
    (careful : ∀ inode ∈ s.list, (s.inodes inode).inodeNo ≠ ino) :
    Inv victim (s.take type ino) where
  kept := List.pairwise_cons.mpr ⟨fun _ _ _ _ => nofun, inv.kept⟩
  alive := List.pairwise_cons.mpr ⟨fun _ _ _ _ => nofun, inv.alive⟩
  nodup := inv.nodup
  fresh := inv.fresh
  old := inv.old
  typed := inv.typed
  putting := by
    intro other inode stage running
    obtain ⟨rfl, rfl, progress⟩ := inv.putting other inode stage running
    refine ⟨rfl, rfl, progress.mono rfl (fun inode inside => .inl ⟨inside, rfl⟩) id ?_ ?_ ?_⟩
    · simp [State.take, State.record]
    · intro _ used
      simp only [State.take, State.record, Function.update_apply]
      split
      · exact valid
      · exact used
    · intro here unallocated
      have other : (s.inodes inode).inodeNo ≠ ino := careful _ (progress.listed.mpr here)
      simp only [State.take, State.record, List.mem_cons, Event.allocated.injEq, other, false_or]
      exact unallocated

/-- `inode_get` finds an inode in the list that has references or links. -/
theorem share (inv : Inv victim s) {inode : Nat}
    (careful : ¬((s.inodes inode).rc = 0 ∧ (s.inodes inode).entry.numLinks = 0)) :
    Inv victim (s.share inode) where
  kept := List.pairwise_cons.mpr ⟨fun _ _ _ _ => nofun, inv.kept⟩
  alive := List.pairwise_cons.mpr ⟨fun _ _ _ _ => nofun, inv.alive⟩
  nodup := inv.nodup
  fresh := inv.fresh
  old := inv.old
  typed := inv.typed
  putting := by
    intro proc putting stage running
    obtain ⟨rfl, rfl, progress⟩ := inv.putting proc putting stage running
    refine ⟨rfl, rfl, ?_⟩
    by_cases same : inode = putting
    · subst same
      have staying : stage.freeing = false := by
        by_contra freeing
        rw [Bool.not_eq_false] at freeing
        exact careful ⟨progress.unreferenced freeing, progress.unlinked⟩
      refine ⟨?_, ?_, ?_, ?_, progress.listed, ?_, ?_, ?_⟩
      · simpa [State.share, State.change, State.record] using progress.unlinked
      · simpa [State.share, State.change, State.record] using progress.valid
      · simp only [State.share, State.change, State.record, Function.update_self,
          List.count_cons_self, progress.counted]
        push_cast
        ring
      · simp [staying]
      · intro here other inside' number
        refine progress.unique here other inside' ?_
        by_cases equal : other = inode
        · rw [equal]
        · simpa [State.share, State.change, State.record, Function.update_apply, equal]
            using number
      · simpa [State.share, State.change, State.record] using progress.used
      · simpa [State.share, State.change, State.record] using progress.unallocated
    · have stays : (s.share inode).inodes putting = s.inodes putting := by
        simp [State.share, State.change, State.record, Ne.symm same]
      refine progress.mono stays (fun other inside' => .inl ⟨inside', ?_⟩) id ?_ (fun _ => id) ?_
      · by_cases equal : other = inode
        · simp [State.share, State.change, State.record, equal]
        · simp [State.share, State.change, State.record, equal]
      · exact List.count_cons_of_ne (fun equal => same (Event.got.inj equal))
      · simp [State.share, State.change, State.record]

/-- `inode_get` loads an inode whose number the list has not. -/
theorem load (inv : Inv victim s) {inodeNo : Nat}
    (absent : ∀ inode ∈ s.list, (s.inodes inode).inodeNo ≠ inodeNo) :
    Inv victim (s.load inodeNo) where
  kept := List.pairwise_cons.mpr ⟨fun _ _ _ _ => nofun, inv.kept⟩
  alive := List.pairwise_cons.mpr ⟨fun _ _ _ _ => nofun, inv.alive⟩
  nodup := List.nodup_cons.mpr
    ⟨fun inside => Nat.lt_irrefl _ (inv.fresh _ inside), inv.nodup⟩
  fresh := by
    intro inode inside
    obtain rfl | inside := List.mem_cons.mp inside
    · exact Nat.lt_succ_self _
    · exact Nat.lt_succ_of_lt (inv.fresh inode inside)
  old := Nat.lt_succ_of_lt inv.old
  typed := inv.typed
  putting := by
    intro proc putting stage running
    obtain ⟨rfl, rfl, progress⟩ := inv.putting proc putting stage running
    have older : putting ≠ s.next := Nat.ne_of_lt inv.old
    have stays : (s.load inodeNo).inodes putting = s.inodes putting := by
      simp [State.load, State.record, older]
    refine ⟨rfl, rfl, progress.mono stays ?_ (List.mem_cons_of_mem _) ?_ (fun _ => id) ?_⟩
    · intro inode inside
      obtain rfl | inside := List.mem_cons.mp inside
      · refine .inr ⟨older.symm, fun here => ?_⟩
        have other := absent putting (progress.listed.mpr here)
        simpa [State.load, State.record, Inode.init] using other.symm
      · have earlier : inode ≠ s.next := Nat.ne_of_lt (inv.fresh inode inside)
        refine .inl ⟨inside, ?_⟩
        simp [State.load, State.record, earlier]
    · exact List.count_cons_of_ne (fun equal => older (Event.got.inj equal).symm)
    · simp [State.load, State.record]

end Inv

/-- `inode_put` goes on to a stage with the same inodes in the list. -/
theorem Progress.next {stage stage' : PutStage} (progress : Progress victim s stage)
    (number : (s'.inodes victim).inodeNo = (s.inodes victim).inodeNo)
    (links : (s'.inodes victim).entry.numLinks = (s.inodes victim).entry.numLinks)
    (valid : (s'.inodes victim).valid = (s.inodes victim).valid)
    (others : ∀ inode, inode ≠ victim → s'.inodes inode = s.inodes inode)
    (list : s'.list = s.list) (place : stage'.detached = stage.detached)
    (counted : (s'.inodes victim).rc = stage'.owed + s'.history.count (.got victim))
    (unreferenced : stage'.freeing = true → (s'.inodes victim).rc = 0)
    (used : stage'.unwritten = true →
      (s'.entries (s.inodes victim).inodeNo).type ≠ inodeInvalid)
    (unallocated : stage.detached = false →
      .allocated (s.inodes victim).inodeNo ∉ s'.history) :
    Progress victim s' stage' where
  unlinked := links.trans progress.unlinked
  valid := valid.trans progress.valid
  counted := counted
  unreferenced := unreferenced
  listed := by rw [list, place, progress.listed]
  unique := by
    intro here inode inside same
    by_contra other
    rw [others inode other, number] at same
    exact other (progress.unique (place ▸ here) inode (list ▸ inside) same)
  used := number ▸ used
  unallocated := by
    rw [number, place]
    exact unallocated

/-- A stage that changes the inode in memory only, and not what is said of it. -/
theorem Progress.change {stage stage' : PutStage} (progress : Progress victim s stage)
    {f : Inode → Inode} (number : ∀ now, (f now).inodeNo = now.inodeNo)
    (links : ∀ now, (f now).entry.numLinks = now.entry.numLinks)
    (valid : ∀ now, (f now).valid = now.valid) (rc : ∀ now, (f now).rc = now.rc)
    (owed : stage'.owed = stage.owed) (place : stage'.detached = stage.detached)
    (freeing : stage'.freeing = true → stage.freeing = true)
    (unwritten : stage'.unwritten = true → stage.unwritten = true) :
    Progress victim (s.change victim f) stage' := by
  refine progress.next ?_ ?_ ?_ ?_ rfl place ?_ ?_ ?_ progress.unallocated
  · simp [State.change, number]
  · simp [State.change, links]
  · simp [State.change, valid]
  · intro inode other
    simp [State.change, other]
  · simpa [State.change, rc, owed] using progress.counted
  · intro later
    simpa [State.change, rc] using progress.unreferenced (freeing later)
  · exact fun later => progress.used (unwritten later)

/-- A stage that changes nothing. -/
theorem Progress.stay {stage stage' : PutStage} (progress : Progress victim s stage)
    (owed : stage'.owed = stage.owed) (place : stage'.detached = stage.detached)
    (freeing : stage'.freeing = true → (s.inodes victim).rc = 0)
    (unwritten : stage'.unwritten = true → stage.unwritten = true) :
    Progress victim s stage' :=
  progress.next rfl rfl rfl (fun _ _ => rfl) rfl place (owed ▸ progress.counted) freeing
    (fun later => progress.used (unwritten later)) progress.unallocated

/-- `inode_sync` of an inode that is loaded. -/
theorem Progress.sync {stage stage' : PutStage} (progress : Progress victim s stage)
    (owed : stage'.owed = stage.owed) (place : stage'.detached = false)
    (here : stage.detached = false) (freeing : stage.freeing = true)
    (written : stage'.unwritten = false) :
    Progress victim (s.sync victim) stage' := by
  rw [State.sync, if_pos progress.valid]
  refine progress.next rfl rfl rfl (fun _ _ => rfl) rfl (place.trans here.symm) ?_
    (fun _ => progress.unreferenced freeing) ?_ fun _ => ?_
  · simpa [State.record, owed] using progress.counted
  · simp [written]
  · simp only [State.record, List.mem_cons, reduceCtorEq, false_or]
    exact progress.unallocated here

/-- The event of a stage of `inode_put` that syncs. -/
theorem Inv.sync_history (inv : Inv victim s) {stage : PutStage}
    (progress : Progress victim s stage) (here : stage.detached = false) :
    Kept (s.sync victim).history ∧ Alive (s.sync victim).history := by
  rw [State.sync, if_pos progress.valid]
  refine ⟨List.pairwise_cons.mpr ⟨?_, inv.kept⟩,
    List.pairwise_cons.mpr ⟨fun _ _ _ _ => nofun, inv.alive⟩⟩
  rintro _ inside inodeNo rfl synced
  obtain ⟨rfl, -⟩ := Event.synced.inj synced
  exact progress.unallocated here inside

/-- An inode that will be freed has not been returned by `inode_get`. -/
theorem Progress.unseen {stage : PutStage} (progress : Progress victim s stage)
    (freeing : stage.freeing = true) : .got victim ∉ s.history := by
  have zero := progress.counted
  rw [progress.unreferenced freeing] at zero
  have none : s.history.count (.got victim) = 0 := by
    cases stage <;> simp_all [PutStage.owed, PutStage.freeing] <;> omega
  exact List.count_eq_zero.mp none

/-- The state after a step of `inode_put`. -/
structure PutStep (victim : Nat) (s s' : State) (stage : Option PutStage) : Prop where
  kept : Kept s'.history
  alive : Alive s'.history
  list : s'.list.Sublist s.list
  next : s'.next = s.next
  procs : s'.procs = s.procs
  progress : ∀ later, stage = some later → Progress victim s' later

/-- Each stage of `inode_put` establishes what holds at the next. -/
theorem Inv.put (inv : Inv victim s) {stage : PutStage} (progress : Progress victim s stage)
    {next : Option PutStage} (taken : s.put victim stage = some (s', next)) :
    PutStep victim s s' next := by
  have quiet : ∀ {s' : State} {later : PutStage}, s'.history = s.history → s'.list = s.list →
      s'.next = s.next → s'.procs = s.procs → Progress victim s' later →
      PutStep victim s s' (some later) := by
    intro s' later history list next procs progress
    refine ⟨history ▸ inv.kept, history ▸ inv.alive, list ▸ .refl _, next, procs, ?_⟩
    rintro _ ⟨⟩
    exact progress
  have changed : ∀ (later : PutStage) (f : Inode → Inode), (∀ now, (f now).inodeNo = now.inodeNo ∧
      (f now).entry.numLinks = now.entry.numLinks ∧ (f now).valid = now.valid ∧
      (f now).rc = now.rc) → later.owed = stage.owed → later.detached = stage.detached →
      (later.freeing = true → stage.freeing = true) →
      (later.unwritten = true → stage.unwritten = true) →
      PutStep victim s (s.change victim f) (some later) := by
    intro later f same owed place freeing unwritten
    exact quiet rfl rfl rfl rfl (progress.change (fun now => (same now).1)
      (fun now => (same now).2.1) (fun now => (same now).2.2.1) (fun now => (same now).2.2.2)
      owed place freeing unwritten)
  have synced : ∀ later : PutStage, later.owed = stage.owed → later.detached = false →
      stage.detached = false → stage.freeing = true → later.unwritten = false →
      PutStep victim s (s.sync victim) (some later) := by
    intro later owed place here freeing written
    obtain ⟨kept, alive⟩ := inv.sync_history progress here
    have after := progress.sync owed place here freeing written
    refine ⟨kept, alive, ?_, ?_, ?_, ?_⟩
    · rw [State.sync, if_pos progress.valid]
      exact .refl _
    · rw [State.sync, if_pos progress.valid]
      rfl
    · rw [State.sync, if_pos progress.valid]
      rfl
    · rintro _ ⟨⟩
      exact after
  cases stage with
  | wait =>
    simp only [State.put, Option.ite_none_left_eq_some, Option.some.injEq, Prod.mk.injEq] at taken
    obtain ⟨-, rfl, rfl⟩ := taken
    refine changed .decrement _ ?_ rfl rfl id id
    exact fun _ => ⟨rfl, rfl, rfl, rfl⟩
  | decrement =>
    obtain ⟨rfl, rfl⟩ := Prod.mk.inj (Option.some.inj taken)
    refine quiet rfl rfl rfl rfl (progress.next ?_ ?_ ?_ ?_ rfl rfl ?_ nofun progress.used
      progress.unallocated)
    · simp [State.change]
    · simp [State.change]
    · simp [State.change]
    · intro inode other
      simp [State.change, other]
    · simp only [State.change, Function.update_self, progress.counted, PutStage.owed]
      ring
  | check =>
    simp only [State.put] at taken
    split at taken
    · rename_i unused
      obtain ⟨rfl, rfl⟩ := Prod.mk.inj (Option.some.inj taken)
      exact quiet rfl rfl rfl rfl (progress.stay rfl rfl (fun _ => unused.1) id)
    · obtain ⟨rfl, rfl⟩ := Prod.mk.inj (Option.some.inj taken)
      exact quiet rfl rfl rfl rfl (progress.stay rfl rfl nofun nofun)
  | invalidate =>
    obtain ⟨rfl, rfl⟩ := Prod.mk.inj (Option.some.inj taken)
    refine changed .clearIndirect _ ?_ rfl rfl id id
    exact fun _ => ⟨rfl, rfl, rfl, rfl⟩
  | clearIndirect =>
    simp only [State.put] at taken
    split at taken <;> obtain ⟨rfl, rfl⟩ := Prod.mk.inj (Option.some.inj taken) <;>
      exact quiet rfl rfl rfl rfl (progress.stay rfl rfl progress.unreferenced id)
  | clearIndirectBlock =>
    obtain ⟨rfl, rfl⟩ := Prod.mk.inj (Option.some.inj taken)
    refine changed (.clearDirect 0) _ ?_ rfl rfl id id
    exact fun _ => ⟨rfl, rfl, rfl, rfl⟩
  | clearDirect index =>
    simp only [State.put] at taken
    split at taken
    · split at taken <;> obtain ⟨rfl, rfl⟩ := Prod.mk.inj (Option.some.inj taken)
      · exact quiet rfl rfl rfl rfl (progress.stay rfl rfl progress.unreferenced id)
      · refine changed (.clearDirect (index + 1)) _ ?_ rfl rfl id id
        exact fun _ => ⟨rfl, rfl, rfl, rfl⟩
    · obtain ⟨rfl, rfl⟩ := Prod.mk.inj (Option.some.inj taken)
      refine changed .clearSync _ ?_ rfl rfl id id
      exact fun _ => ⟨rfl, rfl, rfl, rfl⟩
  | clearSync =>
    obtain ⟨rfl, rfl⟩ := Prod.mk.inj (Option.some.inj taken)
    exact synced .sync rfl rfl rfl rfl rfl
  | sync =>
    obtain ⟨rfl, rfl⟩ := Prod.mk.inj (Option.some.inj taken)
    exact synced .detach rfl rfl rfl rfl rfl
  | detach =>
    obtain ⟨rfl, rfl⟩ := Prod.mk.inj (Option.some.inj taken)
    refine ⟨inv.kept, inv.alive, List.erase_sublist, rfl, rfl, ?_⟩
    rintro _ ⟨⟩
    refine ⟨progress.unlinked, progress.valid, progress.counted, progress.unreferenced, ?_, nofun,
      nofun, nofun⟩
    simp [PutStage.detached, inv.nodup.mem_erase_iff]
  | unlock =>
    obtain ⟨rfl, rfl⟩ := Prod.mk.inj (Option.some.inj taken)
    refine changed .kfree _ ?_ rfl rfl id id
    exact fun _ => ⟨rfl, rfl, rfl, rfl⟩
  | kfree =>
    obtain ⟨rfl, rfl⟩ := Prod.mk.inj (Option.some.inj taken)
    refine ⟨List.pairwise_cons.mpr ⟨fun _ _ _ _ => nofun, inv.kept⟩,
      List.pairwise_cons.mpr ⟨?_, inv.alive⟩, .refl _, rfl, rfl, nofun⟩
    rintro _ inside inode rfl freed
    obtain rfl := Event.freed.inj freed
    exact progress.unseen rfl inside
  | post =>
    obtain ⟨rfl, rfl⟩ := Prod.mk.inj (Option.some.inj taken)
    exact ⟨inv.kept, inv.alive, .refl _, rfl, rfl, nofun⟩

/-- A step of `inode_put` keeps what holds in every state. -/
theorem Inv.advance_put (inv : Inv victim s) {inode : Nat} {stage : PutStage}
    (running : s.procs proc = .put inode stage) {result : State × Option PutStage}
    (taken : s.put inode stage = some result) :
    Inv victim (result.1.goto proc ((result.2.map (Pc.put inode)).getD .idle)) := by
  obtain ⟨rfl, rfl, progress⟩ := inv.putting proc inode stage running
  have after := inv.put progress taken
  refine ⟨after.kept, after.alive, inv.nodup.sublist after.list, ?_, ?_, ?_, ?_⟩
  · intro other inside
    exact (inv.fresh other (after.list.subset inside)).trans_eq after.next.symm
  · exact inv.old.trans_eq after.next.symm
  · intro other inode' later runs
    simp only [State.goto_procs, Function.update_apply, after.procs] at runs
    split at runs
    · rename_i same
      cases stage' : result.2 with
      | none => simp [stage'] at runs
      | some next =>
        simp only [stage', Option.map_some, Option.getD_some, Pc.put.injEq] at runs
        obtain ⟨rfl, rfl⟩ := runs
        have holds := after.progress _ stage'
        exact ⟨same, rfl, holds.mono rfl (fun inode inside => .inl ⟨inside, rfl⟩) id rfl
          (fun _ => id) (fun _ => id)⟩
    · rename_i apart
      exact absurd (inv.putting other inode' later runs).1 apart
  · intro other type ino runs
    simp only [State.goto_procs, Function.update_apply, after.procs] at runs
    split at runs
    · cases stage' : result.2 <;> simp [stage'] at runs
    · exact inv.typed other type ino runs

/-- A careful step of any process keeps what holds in every state. -/
theorem Inv.step (inv : Inv victim s) {act : Act} (careful : Careful s act)
    (taken : s.step numInodes act = some s') : Inv victim s' := by
  cases act with
  | alloc proc type =>
    simp only [State.step, Option.ite_none_right_eq_some, Option.some.injEq] at taken
    obtain ⟨-, rfl⟩ := taken
    refine inv.goto ?_ ?_
    · intro inode stage
      split <;> nofun
    · intro type' ino same
      split at same
      · cases same
      · obtain ⟨rfl, -⟩ := Pc.alloc.inj same
        assumption
  | get proc inodeNo =>
    simp only [State.step, Option.ite_none_right_eq_some, Option.some.injEq] at taken
    obtain ⟨-, rfl⟩ := taken
    exact inv.goto nofun nofun
  | run proc =>
    simp only [State.step, State.advance] at taken
    simp only [Careful] at careful
    split at taken
    · cases taken
    · cases taken
    · rename_i type ino running
      rw [running] at careful
      have valid := inv.typed proc type ino running
      split at taken
      · split at taken <;> obtain rfl := Option.some.inj taken
        · rename_i free
          exact (inv.take valid (careful free)).goto nofun nofun
        · refine inv.goto nofun fun type' ino' same => ?_
          obtain ⟨rfl, -⟩ := Pc.alloc.inj same
          exact valid
      · obtain rfl := Option.some.inj taken
        exact inv.goto nofun nofun
    · rename_i inodeNo running
      rw [running] at careful
      split at taken
      · obtain rfl := Option.some.inj taken
        exact inv.goto nofun nofun
      · split at taken
        · split at taken <;> obtain rfl := Option.some.inj taken
          · rename_i inode found
            have inside := List.mem_of_find?_eq_some found
            have number := List.find?_some found
            exact (inv.share (careful inode inside (of_decide_eq_true number))).goto nofun nofun
          · rename_i missing
            have absent := List.find?_eq_none.mp missing
            refine (inv.load fun inode inside same => ?_).goto nofun nofun
            exact absent inode inside (decide_eq_true same)
        · obtain rfl := Option.some.inj taken
          exact inv.goto nofun nofun
    · rename_i inode stage running
      obtain ⟨result, put, rfl⟩ := Option.map_eq_some_iff.mp taken
      exact inv.advance_put running put

/-- Where `inode_alloc` takes no number whose inode is still in the list, and `inode_get` finds no
inode without references and links, `inode_put` overwrites no entry that was handed out and frees no
inode that was returned. -/
theorem freed_inode_not_reused (numInodes victim : Nat) (s : State)
    (reached : (machine numInodes victim).Reach Careful s) : Kept s.history ∧ Alive s.history := by
  have inv : Inv victim s :=
    reached.invariant (P := Inv victim) (fun _ start => start.inv)
      (fun _ _ _ _ inv careful taken => inv.step careful taken)
  exact ⟨inv.kept, inv.alive⟩

/-! ## Runs -/

/-- A disk with the root directory, and a file that has lost its name and is open once. -/
def opened : State where
  entries inodeNo :=
    if inodeNo = 1 then { InodeEntry.zero with type := inodeDirectory, numLinks := 1 }
    else if inodeNo = 2 then { InodeEntry.zero with type := inodeRegular }
    else .zero
  inodes _ := ⟨false, 1, 2, true, { InodeEntry.zero with type := inodeRegular }⟩
  list := [0]
  next := 1
  procs proc := if proc = 0 then .put 0 .wait else .idle
  history := []

theorem opened_start : Start 0 opened where
  caller := rfl
  others proc other := if_neg other
  last := rfl
  unlinked := rfl
  valid := rfl
  stored := rfl
  used := by decide
  listed := by decide
  nodup := by decide
  unique := by decide
  fresh := by decide
  history := rfl

/-- `inode_put` frees the file; then `inode_alloc` takes its number and `inode_get` loads it. -/
theorem freed_inode_not_reused_afterwards :
    ∃ s, (machine 4 0).Reach Careful s ∧ (Kept s.history ∧ Alive s.history) ∧
      s.history = [.got 1, .allocated 2, .freed 0, .synced 2 0, .synced 2 0] := by
  have shown : ((machine 4 0).exec Careful opened (List.flatten [List.replicate 23 (.run 0),
      [.alloc 1 inodeRegular, .run 1, .run 1, .get 2 2, .run 2]])).map State.history =
      some [.got 1, .allocated 2, .freed 0, .synced 2 0, .synced 2 0] := by decide +kernel
  obtain ⟨s, reached, observed⟩ := Machine.Reach.exec_map opened_start shown
  exact ⟨s, reached, freed_inode_not_reused 4 0 s reached, observed⟩

/-- `inode_alloc` takes the number between the two times that `inode_put` writes the entry; and
`inode_get` finds the inode after `inode_put` has seen that nobody refers to it. -/
theorem freed_inode_reused :
    (∃ s, (machine 4 0).Reach Machine.Any s ∧ ¬Kept s.history) ∧
      ∃ s, (machine 4 0).Reach Machine.Any s ∧ ¬Alive s.history := by
  have overwritten : ((machine 4 0).exec Machine.Any opened (List.flatten
      [List.replicate 19 (.run 0), [.alloc 1 inodeRegular, .run 1, .run 1, .run 0]])).map
        State.history =
      some [.synced 2 0, .allocated 2, .synced 2 0] := by decide +kernel
  have dangling : ((machine 4 0).exec Machine.Any opened (List.flatten [List.replicate 3 (.run 0),
      [.get 1 2, .run 1], List.replicate 20 (.run 0)])).map State.history =
      some [.freed 0, .synced 2 0, .synced 2 0, .got 0] := by decide +kernel
  obtain ⟨s, reached, observed⟩ := Machine.Reach.exec_map opened_start overwritten
  obtain ⟨s', reached', observed'⟩ := Machine.Reach.exec_map opened_start dangling
  refine ⟨⟨s, reached, ?_⟩, s', reached', ?_⟩
  · rw [observed]
    simp [Kept, inodeInvalid]
  · rw [observed']
    simp [Alive]

end OsLab.Fs.InodeReuse
