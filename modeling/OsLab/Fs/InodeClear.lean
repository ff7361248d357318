import OsLab.Fs.InodeSpec

/-!
# Clearing an inode

`inode_clear` frees the blocks that the entry in memory names, which are all blocks of the inode,
and writes an entry that names none.
-/
namespace OsLab.Fs

open OsLab.Lib
open InodeProg

/-- The indirect block and the blocks it names, in the order in which `inode_clear` frees them. -/
def Store.indirectList (s : Store) (entry : InodeEntry) : List Nat :=
  if entry.indirect = 0 then []
  else ((List.range inodeNumIndirect).map (addrAt (s.blocks entry.indirect.toNat))).filter (· ≠ 0) ++
    [entry.indirect.toNat]

/-- The blocks that `inode_clear` frees, in order. -/
def Store.clearList (s : Store) (entry : InodeEntry) : List Nat :=
  s.indirectList entry ++ ((List.range inodeNumDirect).map entry.addr).filter (· ≠ 0)

/-- The entry that it leaves. -/
def InodeEntry.cleared (entry : InodeEntry) : InodeEntry := { entry.plain with numBytes := 0 }

/-- The places for blocks, in that order. -/
def Slot.all : List Slot :=
  (List.range inodeNumIndirect).map .entry ++ [.indirect] ++ (List.range inodeNumDirect).map .direct

theorem Slot.all_nodup : Slot.all.Nodup := by decide +kernel

section List

variable {sblock : SuperBlock} {s : Store} {entry : InodeEntry}

/-- Numbers that are not zero. -/
theorem filterMap_nonzero (f : Nat → Nat) (indices : List Nat) :
    (indices.map f).filter (· ≠ 0) =
      indices.filterMap fun index => if f index ≠ 0 then some (f index) else none := by
  induction indices with
  | nil => rfl
  | cons index rest ih =>
    by_cases zero : f index = 0 <;> simpa [zero] using ih

/-- They are the blocks at the places. -/
theorem Store.clearList_eq (live : entry.type ≠ inodeInvalid) :
    s.clearList entry = Slot.all.filterMap (s.has entry) := by
  have direct : ((List.range inodeNumDirect).map entry.addr).filter (· ≠ 0) =
      (List.range inodeNumDirect).filterMap (s.has entry ∘ .direct) := by
    rw [filterMap_nonzero]
    refine List.filterMap_congr fun i _ => ?_
    simp [Store.has, Store.address, live]
  rw [Store.clearList, Store.indirectList, Slot.all, List.filterMap_append, List.filterMap_append, List.filterMap_map,
    List.filterMap_map, direct]
  congr 1
  by_cases none : entry.indirect = 0
  · have empty : (List.range inodeNumIndirect).filterMap (s.has entry ∘ .entry) = [] := by
      rw [List.filterMap_eq_nil_iff]
      intro j _
      simp [Store.has, Store.address, none]
    rw [if_pos none, empty]
    simp [Store.has, Store.address, none]
  · have some : entry.indirect.toNat ≠ 0 :=
      fun zero => none (UInt32.toNat_inj.mp (by simpa using zero))
    have indirect : ((List.range inodeNumIndirect).map
        (addrAt (s.blocks entry.indirect.toNat))).filter (· ≠ 0) =
          (List.range inodeNumIndirect).filterMap (s.has entry ∘ .entry) := by
      rw [filterMap_nonzero]
      refine List.filterMap_congr fun j _ => ?_
      simp [Store.has, Store.address, live, none]
    rw [if_neg none, indirect]
    simp [Store.has, Store.address, live, some]

/-- An inode has nothing at other places. -/
theorem Store.mem_all {slot : Slot} {blockNo : Nat} (owned : s.has entry slot = some blockNo) :
    slot ∈ Slot.all := by
  obtain ⟨-, number, some⟩ := Store.has_eq_some.mp owned
  cases slot with
  | indirect => simp [Slot.all]
  | direct i =>
    have inside : i < inodeNumDirect := by
      by_contra outside
      rw [Store.address, InodeEntry.addr, dif_neg outside] at number
      exact some number.symm
    simp [Slot.all, inside]
  | entry j =>
    have inside : j < inodeNumIndirect := by
      by_contra outside
      rw [Store.address, addrAt_outside _ (by omega)] at number
      split at number <;> exact some number.symm
    simp [Slot.all, inside]

/-- `inode_clear` frees the blocks of the inode, each once. -/
theorem Store.Consistent.clearList (consistent : s.Consistent sblock) {ino : Nat}
    (inside : ino < sblock.numInodes) (live : (s.inodeEntry sblock ino).type ≠ inodeInvalid) :
    (s.clearList (s.inodeEntry sblock ino)).Nodup ∧
      ∀ blockNo, blockNo ∈ s.clearList (s.inodeEntry sblock ino) ↔
        ∃ slot, s.own sblock (ino, slot) = some blockNo := by
  rw [Store.clearList_eq live]
  constructor
  · refine Slot.all_nodup.filterMap fun slot slot' blockNo one two => ?_
    rw [Option.mem_def, ← Store.own_of_lt inside] at one two
    exact (Prod.mk.inj (consistent.exact.alone one two)).2
  · intro blockNo
    rw [List.mem_filterMap]
    constructor
    · rintro ⟨slot, -, owned⟩
      exact ⟨slot, by rwa [Store.own_of_lt inside]⟩
    · rintro ⟨slot, owned⟩
      rw [Store.own_of_lt inside] at owned
      exact ⟨slot, Store.mem_all owned, owned⟩

end List

namespace FsState

section Clear

variable {sblock : SuperBlock} {s : FsState} {inode blockNo : Nat} {fields : Inode} {ctx : Ctx}
  {E : List Nat → Prop}

/-- `cache_free` takes away the mark. -/
theorem cacheFree_leads {Q : Unit → FsState → List Nat → Prop} (unlocked : s.store.bitmapLock = false)
    (free : s.store.held (sblock.freeBlock blockNo) = false)
    (next : ∀ synced, Q () { s with store := s.store.unmark sblock blockNo } synced) :
    Leads (lift (cacheFree sblock ctx blockNo)) s Q E :=
  lift_leads (.of_some (cacheFree_run unlocked free ctx) rfl (next _))

theorem unmarkAll_append (store : Store) (blocks more : List Nat) :
    store.unmarkAll sblock (blocks ++ more) = (store.unmarkAll sblock blocks).unmarkAll sblock more :=
  List.foldl_append

@[simp] theorem unmarkAll_held (store : Store) (blocks : List Nat) :
    (store.unmarkAll sblock blocks).held = store.held := by
  induction blocks generalizing store with
  | nil => rfl
  | cons blockNo rest ih => exact ih (store.unmark sblock blockNo)

@[simp] theorem unmarkAll_bitmapLock (store : Store) (blocks : List Nat) :
    (store.unmarkAll sblock blocks).bitmapLock = store.bitmapLock := by
  induction blocks generalizing store with
  | nil => rfl
  | cons blockNo rest ih => exact ih (store.unmark sblock blockNo)

/-- The marks do not depend on what is acquired. -/
theorem unmarkAll_hold (store : Store) (blocks : List Nat) (inblock : Nat) :
    (store.hold inblock).unmarkAll sblock blocks = (store.unmarkAll sblock blocks).hold inblock := by
  induction blocks generalizing store with
  | nil => rfl
  | cons blockNo rest ih => exact ih (store.unmark sblock blockNo)

/-- The loop over the addresses of the indirect block. -/
theorem clearIndirectLoop_leads {data : BlockData} {rounds index : Nat}
    {Q : Unit → FsState → List Nat → Prop} (unlocked : s.store.bitmapLock = false)
    (free : ∀ j, addrAt data j ≠ 0 → s.store.held (sblock.freeBlock (addrAt data j)) = false)
    (next : ∀ synced, Q () { s with
      store := s.store.unmarkAll sblock
        (((List.range' index rounds).map (addrAt data)).filter (· ≠ 0)) } synced) :
    Leads (clearIndirectLoop sblock ctx data rounds index) s Q E := by
  induction rounds generalizing index s Q E with
  | zero => exact .ret (next [])
  | succ rounds ih =>
    refine .bind ?_
    rw [List.range'_succ, List.map_cons] at next
    by_cases zero : addrAt data index = 0
    · rw [freeIf, if_pos zero]
      rw [List.filter_cons_of_neg (by simp [zero])] at next
      exact .ret (ih unlocked free next)
    · rw [freeIf, if_neg zero]
      rw [List.filter_cons_of_pos (by simp [zero])] at next
      exact cacheFree_leads unlocked (free index zero) fun synced =>
        @ih { s with store := s.store.unmark sblock (addrAt data index) } _ _ _ unlocked free
          fun more => next (synced ++ more)

/-- An entry without the direct addresses in a range. -/
def clearAddrs (entry : InodeEntry) (index rounds : Nat) : InodeEntry :=
  { entry with addrs := fun i => if index ≤ i.val ∧ i.val < index + rounds then 0 else entry.addrs i }

theorem clearAddrs_zero (entry : InodeEntry) (index : Nat) : clearAddrs entry index 0 = entry := by
  obtain ⟨type, major, minor, numLinks, numBytes, addrs, indirect⟩ := entry
  simp only [clearAddrs, InodeEntry.mk.injEq, true_and, and_true]
  funext i
  rw [if_neg (by omega)]

theorem clearAddrs_succ (entry : InodeEntry) (index rounds : Nat) :
    clearAddrs (entry.setAddr index 0) (index + 1) rounds = clearAddrs entry index (rounds + 1) := by
  simp only [clearAddrs, InodeEntry.setAddr, InodeEntry.mk.injEq, true_and, and_true]
  funext i
  by_cases first : i.val = index
  · simp [first]
  · have same : (index + 1 ≤ i.val ∧ i.val < index + 1 + rounds) ↔
        (index ≤ i.val ∧ i.val < index + (rounds + 1)) := by omega
    simp only [same, first, if_false]

/-- An address that is zero is as good as cleared. -/
theorem setAddr_zero {entry : InodeEntry} {index : Nat} (zero : entry.addr index = 0) :
    entry.setAddr index 0 = entry := by
  obtain ⟨type, major, minor, numLinks, numBytes, addrs, indirect⟩ := entry
  simp only [InodeEntry.setAddr, InodeEntry.mk.injEq, true_and, and_true]
  funext i
  by_cases first : i.val = index
  · subst first
    simp only [InodeEntry.addr, i.isLt, dif_pos] at zero
    rw [if_pos rfl]
    exact (UInt32.toNat_inj.mp (by simpa using zero)).symm
  · rw [if_neg first]

/-- The loop over the direct addresses. -/
theorem clearDirectLoop_leads {rounds index : Nat} {Q : Unit → FsState → List Nat → Prop}
    (loaded : s.inodes inode = some fields) (unlocked : s.store.bitmapLock = false)
    (free : ∀ blockNo, s.store.held blockNo = false)
    (inRange : index + rounds ≤ inodeNumDirect)
    (next : ∀ synced, Q () { s.setInode inode
          { fields with entry := clearAddrs fields.entry index rounds } with
        store := s.store.unmarkAll sblock
          (((List.range' index rounds).map fields.entry.addr).filter (· ≠ 0)) } synced) :
    Leads (clearDirectLoop sblock ctx inode rounds index) s Q E := by
  induction rounds generalizing index s fields Q E with
  | zero =>
    have same : s.setInode inode { fields with entry := clearAddrs fields.entry index 0 } = s := by
      rw [clearAddrs_zero]
      simp only [FsState.setInode, ← loaded, Function.update_eq_self]
    rw [same] at next
    exact .ret (next [])
  | succ rounds ih =>
    have rest : ∀ i ∈ List.range' (index + 1) rounds, (fields.entry.setAddr index 0).addr i =
        fields.entry.addr i := by
      intro i member
      have above := (List.mem_range'_1.mp member).1
      rw [InodeEntry.addr_setAddr _ (by omega) (by decide), if_neg (by omega)]
    rw [List.range'_succ, List.map_cons, ← clearAddrs_succ] at next
    refine .bind (.bind (entry_leads loaded ?_))
    by_cases zero : fields.entry.addr index = 0
    · rw [if_neg (not_not.mpr zero)]
      rw [List.filter_cons_of_neg (by simp [zero]), setAddr_zero zero] at next
      exact .ret (ih loaded unlocked free (by omega) next)
    · rw [if_pos zero]
      rw [List.filter_cons_of_pos (by simp [zero]), ← List.map_congr_left rest] at next
      refine .bind (cacheFree_leads unlocked (free _) fun synced => setEntry_leads loaded ?_)
      refine ih (Function.update_self ..) unlocked free
        (show index + 1 + rounds ≤ inodeNumDirect by omega) fun more => ?_
      have ended := next (synced ++ more)
      simp only [FsState.setInode, Function.update_idem, List.nil_append, List.append_nil]
        at ended ⊢
      exact ended

/-- The part for the indirect block. The marks of the blocks it names are in other blocks. -/
theorem clearIndirect_leads {Q : Unit → FsState → List Nat → Prop}
    (loaded : s.inodes inode = some fields) (unlocked : s.store.bitmapLock = false)
    (free : ∀ blockNo, s.store.held blockNo = false)
    (apart : fields.entry.indirect ≠ 0 →
      ∀ j, addrAt (s.store.blocks fields.entry.indirect.toNat) j ≠ 0 →
        sblock.freeBlock (addrAt (s.store.blocks fields.entry.indirect.toNat) j) ≠
          fields.entry.indirect.toNat)
    (next : ∀ synced, Q () { s.setInode inode
          { fields with entry := { fields.entry with indirect := 0 } } with
        store := s.store.unmarkAll sblock (s.store.indirectList fields.entry) } synced) :
    Leads (clearIndirect sblock ctx inode) s Q E := by
  refine .bind (entry_leads loaded ?_)
  by_cases none : fields.entry.indirect = 0
  · rw [if_neg (not_not.mpr none)]
    have same : s.setInode inode { fields with entry := { fields.entry with indirect := 0 } } = s := by
      simp only [FsState.setInode, ← none, ← loaded, Function.update_eq_self]
    have ended := next []
    rw [Store.indirectList, if_pos none, same] at ended
    exact .ret ended
  · rw [if_pos none]
    rw [Store.indirectList, if_neg none, List.range_eq_range', unmarkAll_append] at next
    refine .bind (acquire_leads (free _) (.bind ?_))
    refine clearIndirectLoop_leads unlocked (fun j some => ?_) fun synced => ?_
    · rw [Store.hold_held, Function.update_of_ne (apart none j some)]
      exact free _
    · rw [unmarkAll_hold]
      refine .bind (@release_leads { s with store := s.store.unmarkAll sblock _ } _ _ _
        (by simp [free]) (.bind ?_))
      refine cacheFree_leads (by simp [unlocked]) (by simp [free]) fun more => ?_
      exact setEntry_leads loaded (next _)

theorem clearAddrs_all (entry : InodeEntry) :
    { clearAddrs { entry with indirect := 0 } 0 inodeNumDirect with numBytes := 0 } =
      entry.cleared := by
  obtain ⟨type, major, minor, numLinks, numBytes, addrs, indirect⟩ := entry
  simp only [clearAddrs, InodeEntry.cleared, InodeEntry.plain, InodeEntry.mk.injEq, true_and,
    and_true]
  funext i
  rw [if_pos ⟨Nat.zero_le _, by omega⟩]

/-- `inode_clear` frees the blocks that the entry names. -/
theorem inodeClear_leads {Q : Unit → FsState → List Nat → Prop}
    (loaded : s.inodes inode = some fields) (valid : fields.valid = true)
    (unlocked : s.store.bitmapLock = false) (free : ∀ blockNo, s.store.held blockNo = false)
    (apart : fields.entry.indirect ≠ 0 →
      ∀ j, addrAt (s.store.blocks fields.entry.indirect.toNat) j ≠ 0 →
        sblock.freeBlock (addrAt (s.store.blocks fields.entry.indirect.toNat) j) ≠
          fields.entry.indirect.toNat)
    (next : ∀ synced, Q () { s.setInode inode { fields with entry := fields.entry.cleared } with
        store := (s.store.unmarkAll sblock (s.store.clearList fields.entry)).writeEntry sblock
          fields.inodeNo fields.entry.cleared } synced) :
    Leads (inodeClear sblock ctx inode) s Q E := by
  have idle : ∀ blocks more blockNo, ((s.store.unmarkAll sblock blocks).unmarkAll sblock more).held
      blockNo = false := by simp [free]
  refine .bind (clearIndirect_leads loaded unlocked free apart fun synced => .bind ?_)
  refine clearDirectLoop_leads (Function.update_self ..) (by simp [unlocked]) (by simp [free])
    (Nat.le_of_eq (Nat.zero_add _)) fun more => .bind (entry_leads (Function.update_self ..) ?_)
  refine .bind (setEntry_leads (Function.update_self ..) ?_)
  refine inodeSync_leads (Function.update_self ..) valid (idle _ _ _) ?_
  have ended := next (synced ++ (more ++ ([] ++ ([] ++ [sblock.toBlockNo fields.inodeNo]))))
  simp only [FsState.setInode, Function.update_idem, clearAddrs_all, ← unmarkAll_append,
    ← List.range_eq_range'] at ended ⊢
  exact ended

end Clear

end FsState

end OsLab.Fs
