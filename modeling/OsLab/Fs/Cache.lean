import OsLab.Common.Sem
import OsLab.Fs.Defines
import Mathlib.Data.List.Nodup

/-!
# The cached blocks

`Block`, the list of cached blocks and the parts of `cache_acquire` and `cache_release` of
`src/fs/cache.c`. A block is an address of the heap, because the code hands out pointers and
two blocks may carry the same number. Each function here is what the code does between taking
and dropping the spinlock of the cache. The list is in the order of the `next` pointers from
`head`.
-/
namespace OsLab.Fs

open OsLab.Common OsLab.Lib

/-- `Block`. -/
structure Block where
  /-- The number of the block on the disk. -/
  blockNo : Nat
  /-- Somebody has acquired the block, or so the cache thinks. -/
  acquired : Bool
  /-- The log holds a change of the block that is not yet installed. -/
  pinned : Bool
  /-- The sleep lock around `valid` and `data`. -/
  lock : Semaphore
  /-- The contents have been read. -/
  valid : Bool
  data : BlockData

/-- `init_block`. -/
def Block.initBlock : Block := ⟨0, false, false, .initSem 1, false, .zero⟩

/-- The blocks in memory. -/
structure Cache where
  /-- What each address holds. -/
  heap : Nat → Block
  /-- The address `kalloc` returns next; addresses are not used again. -/
  next : Nat
  /-- The cached blocks, from `head.next` on. -/
  list : List Nat
  /-- The number of allocated blocks. -/
  blocknum : Nat

namespace Cache

/-- The cache `init_bcache` sets up. -/
def empty : Cache := ⟨fun _ => .initBlock, 0, [], 0⟩

/-- Change the block at an address. -/
def update (cache : Cache) (addr : Nat) (change : Block → Block) : Cache :=
  { cache with heap := fun other =>
      if other = addr then change (cache.heap addr) else cache.heap other }

/-- The search of `cache_acquire`. -/
def find (cache : Cache) (blockNo : Nat) : Option Nat :=
  cache.list.find? fun addr => (cache.heap addr).blockNo = blockNo

/-- `movetohead`. -/
def movetohead (cache : Cache) (addr : Nat) : Cache :=
  { cache with list := addr :: cache.list.erase addr }

/-- Whether the eviction loop may take a block. -/
def evictable (heap : Nat → Block) (addr : Nat) : Bool :=
  !(heap addr).acquired && !(heap addr).pinned

/-- The eviction loop, along the `prev` pointers from `head.prev`. -/
def evictLoop (heap : Nat → Block) : List Nat → Nat → List Nat × Nat
  | [], blocknum => ([], blocknum)
  | addr :: rest, blocknum =>
    if blocknum < evictionThreshold then (addr :: rest, blocknum)
    else if evictable heap addr then evictLoop heap rest (blocknum - 1)
    else
      let (kept, left) := evictLoop heap rest blocknum
      (addr :: kept, left)

/-- The eviction of `cache_acquire`. -/
def evict (cache : Cache) : Cache :=
  if evictionThreshold ≤ cache.blocknum then
    let (kept, left) := evictLoop cache.heap cache.list.reverse cache.blocknum
    { cache with list := kept.reverse, blocknum := left }
  else cache

/-- The first section of `cache_acquire` where the search finds the block at `addr`. -/
def hit (cache : Cache) (addr : Nat) : Cache :=
  cache.update addr fun block => { block with acquired := true }

/-- The first section of `cache_acquire` where the search finds nothing: evict, allocate a
block and take its lock, which is free. The block is at the address returned. -/
def miss (cache : Cache) (blockNo : Nat) : Nat × Cache :=
  let room := cache.evict
  let fresh := { Block.initBlock with
    blockNo, acquired := true, valid := true, lock := ((Semaphore.initSem 1).waitSem 0).2 }
  (room.next, { room.update room.next (fun _ => fresh) with
    next := room.next + 1, blocknum := room.blocknum + 1 })

/-- `device_read` into a block. -/
def fill (cache : Cache) (addr : Nat) (data : BlockData) : Cache :=
  cache.update addr fun block => { block with data }

/-- The last section of `cache_acquire` after a search that found nothing. -/
def insert (cache : Cache) (addr : Nat) : Cache :=
  { cache with list := addr :: cache.list }

/-- `cache_release`; `none` is the PANIC of `post_sem`. -/
def release (cache : Cache) (addr : Nat) : Option Cache := do
  let lock ← (cache.heap addr).lock.postSem
  return cache.update addr fun block => { block with acquired := false, lock }

/-- Set or clear the mark of a block that the log has not installed. -/
def setPinned (cache : Cache) (addr : Nat) (pinned : Bool) : Cache :=
  cache.update addr fun block => { block with pinned }

section Updates

variable (cache : Cache) (addr : Nat) (change : Block → Block)

@[simp] theorem update_heap (other : Nat) : (cache.update addr change).heap other =
    if other = addr then change (cache.heap addr) else cache.heap other := rfl
/-- A change that leaves a field of the block leaves it everywhere. -/
theorem update_field {β : Type} (field : Block → β) {cache : Cache} {addr : Nat}
    {change : Block → Block} (same : field (change (cache.heap addr)) = field (cache.heap addr))
    (other : Nat) : field ((cache.update addr change).heap other) = field (cache.heap other) := by
  rw [update_heap]
  split
  · rename_i at_
    rw [same, at_]
  · rfl

end Updates

section Fields

variable (cache : Cache) (addr other : Nat) (data : BlockData)

@[simp] theorem hit_blockNo :
    ((cache.hit addr).heap other).blockNo = (cache.heap other).blockNo :=
  update_field Block.blockNo rfl other
@[simp] theorem hit_lock : ((cache.hit addr).heap other).lock = (cache.heap other).lock :=
  update_field Block.lock rfl other
@[simp] theorem fill_lock : ((cache.fill addr data).heap other).lock = (cache.heap other).lock :=
  update_field Block.lock rfl other

end Fields

/-- What a release that does not panic does. -/
theorem release_some {cache cache' : Cache} {addr : Nat}
    (done : cache.release addr = some cache') :
    ∃ lock, (cache.heap addr).lock.postSem = some lock ∧
      cache' = cache.update addr ({ · with acquired := false, lock }) := by
  simp only [release, Option.bind_eq_bind, Option.bind_eq_some_iff, Option.pure_def,
    Option.some.injEq] at done
  obtain ⟨lock, posted, rfl⟩ := done
  exact ⟨lock, posted, rfl⟩

/-- A release renumbers nothing. -/
theorem release_blockNo {cache cache' : Cache} {addr : Nat}
    (done : cache.release addr = some cache') (other : Nat) :
    (cache'.heap other).blockNo = (cache.heap other).blockNo := by
  obtain ⟨lock, -, rfl⟩ := release_some done
  exact update_field Block.blockNo rfl other

/-- A release leaves the list. -/
theorem release_list {cache cache' : Cache} {addr : Nat}
    (done : cache.release addr = some cache') : cache'.list = cache.list := by
  obtain ⟨lock, -, rfl⟩ := release_some done
  rfl

/-- The eviction loop keeps the order of what it keeps. -/
theorem evictLoop_sublist (heap : Nat → Block) (list : List Nat) (blocknum : Nat) :
    (evictLoop heap list blocknum).1.Sublist list := by
  induction list generalizing blocknum with
  | nil => exact .slnil
  | cons addr rest ih =>
    unfold evictLoop
    split
    · exact .refl _
    · split
      · exact (ih _).cons addr
      · exact (ih _).cons_cons addr

/-- The eviction loop takes only blocks that are neither acquired nor pinned. -/
theorem mem_evictLoop (heap : Nat → Block) (list : List Nat) (blocknum : Nat) {addr : Nat}
    (member : addr ∈ list) (kept : evictable heap addr = false) :
    addr ∈ (evictLoop heap list blocknum).1 := by
  induction list generalizing blocknum with
  | nil => contradiction
  | cons first rest ih =>
    unfold evictLoop
    split
    · exact member
    · obtain rfl | later := List.mem_cons.mp member
      · simp [kept]
      · split
        · exact ih _ later
        · exact List.mem_cons_of_mem _ (ih _ later)

@[simp] theorem evict_heap (cache : Cache) : cache.evict.heap = cache.heap := by
  unfold evict
  split <;> rfl

@[simp] theorem evict_next (cache : Cache) : cache.evict.next = cache.next := by
  unfold evict
  split <;> rfl

/-- The eviction keeps the order of what it keeps. -/
theorem evict_sublist (cache : Cache) : cache.evict.list.Sublist cache.list := by
  unfold evict
  split
  · have kept := evictLoop_sublist cache.heap cache.list.reverse cache.blocknum
    simpa using kept.reverse
  · exact .refl _

/-- What the eviction takes is neither acquired nor pinned. -/
theorem mem_evict (cache : Cache) {addr : Nat} (member : addr ∈ cache.list)
    (kept : evictable cache.heap addr = false) : addr ∈ cache.evict.list := by
  unfold evict
  split
  · simpa using mem_evictLoop cache.heap cache.list.reverse cache.blocknum
      (List.mem_reverse.mpr member) kept
  · exact member

/-- The search finds a cached block with the number it looks for. -/
theorem find_some {cache : Cache} {blockNo addr : Nat} (found : cache.find blockNo = some addr) :
    addr ∈ cache.list ∧ (cache.heap addr).blockNo = blockNo := by
  refine ⟨List.mem_of_find?_eq_some found, ?_⟩
  simpa using List.find?_some found

/-- A search that finds nothing leaves no cached block with the number. -/
theorem find_none {cache : Cache} {blockNo addr : Nat} (missing : cache.find blockNo = none)
    (member : addr ∈ cache.list) : (cache.heap addr).blockNo ≠ blockNo := by
  simpa using List.find?_eq_none.mp missing addr member

end Cache

end OsLab.Fs
