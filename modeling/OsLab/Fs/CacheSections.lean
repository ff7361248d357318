import OsLab.Lib.Transition
import OsLab.Fs.Cache

/-!
# The cache under concurrent processes

`cache_acquire`, `cache_release` and `cache_sync` as any number of processes run them. A
section between taking and dropping the spinlock of the cache is one step, and so is every
wait for the lock of a block and every device access. The cache protects a block against
eviction by the flag `acquired` alone, and looks for a block before it reads one but not
after. Two disciplines make up for that, and each is shown to be needed.
-/
namespace OsLab.Fs.Sections

open OsLab.Lib OsLab.Common

/-- Where a process is in `cache_acquire`. -/
inductive Pc where
  | idle
  /-- The search found the block; `wait_sem(&ans->lock)` is next. -/
  | waitLock (addr : Nat)
  /-- In `wait_sem(&ans->lock)`, asleep or woken. -/
  | asleep (addr : Nat)
  /-- The lock is taken; `movetohead` is next. -/
  | moveToHead (addr : Nat)
  /-- The search found nothing and the block is allocated; `device_read` is next. -/
  | read (addr : Nat)
  /-- The block is read; it is put into the list next. -/
  | insert (addr : Nat)
  deriving Repr, DecidableEq

/-- A process: its place and the blocks it has acquired. -/
structure Proc where
  pc : Pc
  /-- The blocks `cache_acquire` returned and that are not released. -/
  holds : List Nat
  deriving Repr, DecidableEq

/-- The cache, the disk and the processes. -/
structure State where
  /-- The cached blocks. -/
  cache : Cache
  disk : Disk
  procs : Nat → Proc
  panic : Bool

/-- What the scheduler and the clients choose. -/
inductive Act where
  /-- `proc` calls `cache_acquire`; its first section. -/
  | acquire (proc blockNo : Nat)
  /-- `proc`, inside `cache_acquire`, does its next step. -/
  | run (proc : Nat)
  | release (proc addr : Nat)
  /-- `proc` gives a block it holds new contents. -/
  | store (proc addr : Nat) (data : BlockData)
  /-- `proc` calls `cache_sync` with a context. -/
  | sync (proc addr : Nat)
  /-- `proc` calls `cache_sync` with a null context. -/
  | syncNull (proc addr : Nat)
  /-- `proc`, in the commit of `cache_end_op`, unpins a block it holds. -/
  | unpin (proc addr : Nat)
  /-- `proc`, asleep, is woken by another source. -/
  | alert (proc : Nat)

/-- The process that takes an action. -/
def Act.proc : Act → Nat
  | .acquire proc _ | .run proc | .release proc _ | .store proc _ _ | .sync proc _
  | .syncNull proc _ | .unpin proc _ | .alert proc => proc

/-- The block a process inside `cache_acquire` is concerned with. -/
def Pc.addr? : Pc → Option Nat
  | .idle => none
  | .waitLock addr | .asleep addr | .moveToHead addr | .read addr | .insert addr => some addr

/-- The block a process reads on behalf of the cache. -/
def Pc.reading? : Pc → Option Nat
  | .read addr | .insert addr => some addr
  | _ => none

/-- The block a process found in the cache and has not yet got. -/
def Pc.waiting? : Pc → Option Nat
  | .waitLock addr | .asleep addr | .moveToHead addr => some addr
  | _ => none

namespace State

/-- Where a process is. -/
def pc (s : State) (proc : Nat) : Pc := (s.procs proc).pc

/-- The blocks a process has acquired. -/
def holds (s : State) (proc : Nat) : List Nat := (s.procs proc).holds

/-- Replace one process. -/
def setProc (s : State) (proc : Nat) (new : Proc) : State :=
  { s with procs := fun other => if other = proc then new else s.procs other }

/-- Replace the cache and move one process. -/
def goto (s : State) (cache : Cache) (proc : Nat) (pc : Pc) : State :=
  { s with cache }.setProc proc ⟨pc, s.holds proc⟩

/-- The end of `cache_acquire`. -/
def return_ (s : State) (cache : Cache) (proc addr : Nat) : State :=
  { s with cache }.setProc proc ⟨.idle, addr :: s.holds proc⟩

/-- The next step of a process inside `cache_acquire`. -/
def advance (s : State) (proc : Nat) : Option State :=
  match s.pc proc with
  | .idle => none
  | .waitLock addr =>
    match (s.cache.heap addr).lock.waitSem proc with
    | (true, lock) => some (s.goto (s.cache.update addr ({ · with lock })) proc (.moveToHead addr))
    | (false, lock) => some (s.goto (s.cache.update addr ({ · with lock })) proc (.asleep addr))
  | .asleep addr =>
    if proc ∈ (s.cache.heap addr).lock.sleeplist then none
    else some (s.goto s.cache proc (.moveToHead addr))
  | .moveToHead addr => some (s.return_ (s.cache.movetohead addr) proc addr)
  | .read addr =>
    some (s.goto (s.cache.fill addr (s.disk (s.cache.heap addr).blockNo)) proc (.insert addr))
  | .insert addr => some (s.return_ (s.cache.insert addr) proc addr)

/-- A process between calls may use the blocks it holds. -/
def Client (s : State) (proc addr : Nat) : Prop := s.pc proc = .idle ∧ addr ∈ s.holds proc

instance (s : State) (proc addr : Nat) : Decidable (s.Client proc addr) :=
  inferInstanceAs (Decidable (_ ∧ _))

/-- One action. -/
def step (s : State) (act : Act) : Option State :=
  if s.panic then none
  else match act with
    | .acquire proc blockNo =>
      if s.pc proc = .idle then
        match s.cache.find blockNo with
        | some addr => some (s.goto (s.cache.hit addr) proc (.waitLock addr))
        | none =>
          let (addr, cache) := s.cache.miss blockNo
          some (s.goto cache proc (.read addr))
      else none
    | .run proc => s.advance proc
    | .release proc addr =>
      if s.Client proc addr then
        match s.cache.release addr with
        | none => some { s with panic := true }
        | some cache =>
          some ({ s with cache }.setProc proc ⟨.idle, (s.holds proc).erase addr⟩)
      else none
    | .store proc addr data =>
      if s.Client proc addr then some { s with cache := s.cache.fill addr data } else none
    | .sync proc addr =>
      if s.Client proc addr then
        some { s with cache := s.cache.setPinned addr true }
      else none
    | .syncNull proc addr =>
      if s.Client proc addr then
        let block := s.cache.heap addr
        some { s with disk := fun n => if n = block.blockNo then block.data else s.disk n }
      else none
    | .unpin proc addr =>
      if s.Client proc addr then
        some { s with cache := s.cache.setPinned addr false }
      else none
    | .alert proc =>
      match s.pc proc with
      | .asleep addr =>
        let lock := (s.cache.heap addr).lock
        if proc ∈ lock.sleeplist then
          some { s with
            cache := s.cache.update addr ({ · with lock := lock.unwait proc }), panic := true }
        else none
      | _ => none

/-- The cache after `init_bcache` on a disk with an empty log. -/
def boot (disk : Disk) : State := ⟨.empty, disk, fun _ => ⟨.idle, []⟩, false⟩

/-- A process holds a block, waits for it or is about to be given it. -/
def Uses (s : State) (proc addr : Nat) : Prop :=
  addr ∈ s.holds proc ∨ (s.pc proc).addr? = some addr

/-- A block in the list, or on its way to a caller. -/
def Live (s : State) (addr : Nat) : Prop := addr ∈ s.cache.list ∨ ∃ proc, s.Uses proc addr

end State

/-- The cache as a machine. -/
def machine : Machine State Act where
  init s := ∃ disk, s = .boot disk
  step := State.step

theorem init_boot (disk : Disk) : machine.init (.boot disk) := ⟨disk, rfl⟩

namespace State

@[simp] theorem procs_pc (s : State) (proc : Nat) : (s.procs proc).pc = s.pc proc := rfl

@[simp] theorem procs_holds (s : State) (proc : Nat) : (s.procs proc).holds = s.holds proc := rfl

section Updates

variable (s : State) (cache : Cache) (disk : Disk) (panic : Bool) (proc addr other : Nat)
  (new : Proc) (target : Pc)

@[simp] theorem pc_mk (procs : Nat → Proc) :
    (State.mk cache disk procs panic).pc proc = (procs proc).pc := rfl
@[simp] theorem holds_mk (procs : Nat → Proc) :
    (State.mk cache disk procs panic).holds proc = (procs proc).holds := rfl

@[simp] theorem setProc_cache : (s.setProc proc new).cache = s.cache := rfl
@[simp] theorem setProc_pc :
    (s.setProc proc new).pc other = if other = proc then new.pc else s.pc other := by
  simp only [setProc, pc_mk]
  split <;> rfl
@[simp] theorem setProc_holds :
    (s.setProc proc new).holds other = if other = proc then new.holds else s.holds other := by
  simp only [setProc, holds_mk]
  split <;> rfl

@[simp] theorem goto_cache : (s.goto cache proc target).cache = cache := rfl
@[simp] theorem goto_pc :
    (s.goto cache proc target).pc other = if other = proc then target else s.pc other := by
  simp [goto]
@[simp] theorem goto_holds : (s.goto cache proc target).holds other = s.holds other := by
  simp only [goto, setProc_holds, holds_mk, procs_holds, ite_eq_right_iff]
  rintro rfl
  rfl

@[simp] theorem return_pc :
    (s.return_ cache proc addr).pc other = if other = proc then .idle else s.pc other := by
  simp [return_]
@[simp] theorem return_holds : (s.return_ cache proc addr).holds other =
    if other = proc then addr :: s.holds proc else s.holds other := by
  simp [return_]

end Updates

end State

namespace State

/-- The blocks whose lock a process has: those it holds and the one it is about to be given. -/
def owned (s : State) (proc : Nat) : List Nat :=
  match s.pc proc with
  | .idle | .waitLock _ => s.holds proc
  | .asleep addr =>
    if proc ∈ (s.cache.heap addr).lock.sleeplist then s.holds proc else addr :: s.holds proc
  | .moveToHead addr | .read addr | .insert addr => addr :: s.holds proc

end State

/-- Blocks in use are kept: they are allocated, carry the flag and are cached or being read. -/
structure Kept (s : State) : Prop where
  listed : ∀ addr, addr ∈ s.cache.list → addr < s.cache.next
  used : ∀ proc addr, s.Uses proc addr → addr < s.cache.next
  /-- Blocks in use carry the flag that keeps them in the cache. -/
  flagged : ∀ proc addr, s.Uses proc addr → (s.cache.heap addr).acquired = true
  /-- Blocks in use are in the cache, except while they are read. -/
  cached : ∀ proc addr, s.Uses proc addr →
    addr ∈ s.cache.list ∨ (s.pc proc).reading? = some addr

/-- The locks of the blocks are sound and exclude each other's owners. -/
structure Locked (s : State) : Prop where
  distinct : ∀ proc, (s.owned proc).Nodup
  exclusive : ∀ proc other addr, addr ∈ s.owned proc → addr ∈ s.owned other → proc = other
  taken : ∀ proc addr, addr ∈ s.owned proc → (s.cache.heap addr).lock.val ≤ 0
  binary : ∀ addr, (s.cache.heap addr).lock.val ≤ 1
  balanced : ∀ addr, (s.cache.heap addr).lock.Balanced
  sleepers : ∀ proc addr, proc ∈ (s.cache.heap addr).lock.sleeplist → s.pc proc = .asleep addr

namespace State

variable {s s' : State} {proc addr : Nat}

/-- What a process owns it uses. -/
theorem Uses.of_owned (owned : addr ∈ s.owned proc) : s.Uses proc addr := by
  unfold State.owned at owned
  split at owned <;> rename_i place
  · exact .inl owned
  · exact .inl owned
  · split at owned
    · exact .inl owned
    · exact (List.mem_cons.mp owned).elim (fun same => .inr (by rw [place, same]; rfl)) .inl
  all_goals
    exact (List.mem_cons.mp owned).elim (fun same => .inr (by rw [place, same]; rfl)) .inl

/-- What a process holds it owns. -/
theorem owned_of_holds (held : addr ∈ s.holds proc) : addr ∈ s.owned proc := by
  unfold State.owned
  split <;> (try split) <;> simp [held]

/-- What a process reads it owns. -/
theorem owned_of_reading (reading : (s.pc proc).reading? = some addr) : addr ∈ s.owned proc := by
  unfold State.owned
  split <;> rename_i place <;> simp [place, Pc.reading?] at reading <;> simp [reading]

/-- What a process uses it owns or has found and not yet got. -/
theorem Uses.owned_or_waiting (uses : s.Uses proc addr) :
    addr ∈ s.owned proc ∨ (s.pc proc).waiting? = some addr := by
  obtain held | named := uses
  · exact .inl (owned_of_holds held)
  · cases place : s.pc proc with
    | idle => simp [place, Pc.addr?] at named
    | waitLock | asleep | moveToHead =>
      rw [place] at named
      exact .inr named
    | read | insert =>
      rw [place] at named
      exact .inl (owned_of_reading (by rw [place]; exact named))

/-- A process no step touched uses what it used. -/
theorem uses_congr (procs : s'.procs proc = s.procs proc) :
    s'.Uses proc addr ↔ s.Uses proc addr := by
  simp only [Uses, holds, pc, procs]

/-- A process no step touched, and whose sleep is as before, owns what it owned. -/
theorem owned_congr (procs : s'.procs proc = s.procs proc)
    (asleep : ∀ addr, proc ∈ (s'.cache.heap addr).lock.sleeplist ↔
      proc ∈ (s.cache.heap addr).lock.sleeplist) : s'.owned proc = s.owned proc := by
  simp only [owned, holds, pc, procs, asleep]

end State

/-- The cache after `init_bcache`. -/
theorem Kept.boot (disk : Disk) : Kept (.boot disk) where
  listed := by simp [State.boot, Cache.empty]
  used := by simp [State.boot, State.Uses, Pc.addr?]
  flagged := by simp [State.boot, State.Uses, Pc.addr?]
  cached := by simp [State.boot, State.Uses, Pc.addr?]

/-- The locks after `init_bcache`. -/
theorem Locked.boot (disk : Disk) : Locked (.boot disk) where
  distinct := by simp [State.boot, State.owned]
  exclusive := by simp [State.boot, State.owned]
  taken := by simp [State.boot, State.owned]
  binary := fun _ => le_rfl
  balanced := fun _ => Semaphore.initSem_balanced (by decide)
  sleepers := by simp [State.boot, Cache.empty, Block.initBlock, Semaphore.initSem]

variable {s s' : State} {proc addr : Nat}

/-- What a step of one process has to keep for the others and to bring for itself. -/
theorem Kept.moved (kept : Kept s) (proc : Nat)
    (others : ∀ other, other ≠ proc → s'.procs other = s.procs other)
    (grows : s.cache.next ≤ s'.cache.next)
    (listed : ∀ addr, addr ∈ s'.cache.list → addr < s'.cache.next)
    (stays : ∀ other addr, other ≠ proc → s.Uses other addr → addr ∈ s.cache.list →
      addr ∈ s'.cache.list)
    (flags : ∀ other addr, other ≠ proc → s.Uses other addr →
      (s'.cache.heap addr).acquired = true)
    (mine : ∀ addr, s'.Uses proc addr → addr < s'.cache.next ∧
      (s'.cache.heap addr).acquired = true ∧
      (addr ∈ s'.cache.list ∨ (s'.pc proc).reading? = some addr)) : Kept s' := by
  refine ⟨listed, ?_, ?_, ?_⟩ <;> intro other addr uses <;> by_cases same : other = proc
  · exact (mine addr (same ▸ uses)).1
  · rw [State.uses_congr (others other same)] at uses
    exact lt_of_lt_of_le (kept.used other addr uses) grows
  · exact (mine addr (same ▸ uses)).2.1
  · rw [State.uses_congr (others other same)] at uses
    exact flags other addr same uses
  · rw [same]
    exact (mine addr (same ▸ uses)).2.2
  · rw [State.uses_congr (others other same)] at uses
    rw [State.pc, others other same]
    exact (kept.cached other addr uses).imp_left (stays other addr same uses)

/-- What a step of one process has to keep of the locks. -/
theorem Locked.moved (locked : Locked s) (proc : Nat)
    (others : ∀ other, other ≠ proc → s'.procs other = s.procs other)
    (asleep : ∀ other addr, other ≠ proc → (other ∈ (s'.cache.heap addr).lock.sleeplist ↔
      other ∈ (s.cache.heap addr).lock.sleeplist))
    (binary : ∀ addr, (s'.cache.heap addr).lock.val ≤ 1)
    (balanced : ∀ addr, (s'.cache.heap addr).lock.Balanced)
    (sleeps : ∀ addr, proc ∈ (s'.cache.heap addr).lock.sleeplist → s'.pc proc = .asleep addr)
    (distinct : (s'.owned proc).Nodup)
    (mine : ∀ addr, addr ∈ s'.owned proc → (s'.cache.heap addr).lock.val ≤ 0 ∧
      ∀ other, other ≠ proc → addr ∉ s.owned other)
    (taken : ∀ other addr, other ≠ proc → addr ∈ s.owned other →
      (s'.cache.heap addr).lock.val ≤ 0) : Locked s' := by
  have unmoved : ∀ other, other ≠ proc → s'.owned other = s.owned other := fun other different =>
    State.owned_congr (others other different) fun addr => asleep other addr different
  refine ⟨?_, ?_, ?_, binary, balanced, ?_⟩
  · intro other
    by_cases same : other = proc
    · rw [same]
      exact distinct
    · rw [unmoved other same]
      exact locked.distinct other
  · intro first second addr atFirst atSecond
    by_cases same : first = proc <;> by_cases same' : second = proc
    · rw [same, same']
    · rw [unmoved second same'] at atSecond
      exact absurd atSecond ((mine addr (same ▸ atFirst)).2 second same')
    · rw [unmoved first same] at atFirst
      exact absurd atFirst ((mine addr (same' ▸ atSecond)).2 first same)
    · rw [unmoved first same] at atFirst
      rw [unmoved second same'] at atSecond
      exact locked.exclusive first second addr atFirst atSecond
  · intro other addr owned
    by_cases same : other = proc
    · exact (mine addr (same ▸ owned)).1
    · rw [unmoved other same] at owned
      exact taken other addr same owned
  · intro other addr sleeping
    by_cases same : other = proc
    · exact same ▸ sleeps addr (same ▸ sleeping)
    · rw [asleep other addr same] at sleeping
      rw [State.pc, others other same]
      exact locked.sleepers other addr sleeping

/-- A step that leaves the list and the flags keeps the blocks in use. -/
theorem Kept.same (kept : Kept s) (procs : s'.procs = s.procs)
    (list : s'.cache.list = s.cache.list) (next : s'.cache.next = s.cache.next)
    (flags : ∀ addr, (s'.cache.heap addr).acquired = (s.cache.heap addr).acquired) : Kept s' := by
  refine kept.moved 0 (fun _ _ => by rw [procs]) (le_of_eq next.symm) ?_ ?_ ?_ ?_
  · rw [list, next]
    exact kept.listed
  · rw [list]
    exact fun _ _ _ _ member => member
  · intro other addr _ uses
    rw [flags]
    exact kept.flagged other addr uses
  · intro addr uses
    replace uses : s.Uses 0 addr := (State.uses_congr (by rw [procs])).mp uses
    rw [flags, list, next, State.pc, procs]
    exact ⟨kept.used 0 addr uses, kept.flagged 0 addr uses, kept.cached 0 addr uses⟩

/-- A step that leaves the locks, and what its process owns, keeps them sound. -/
theorem Locked.same (locked : Locked s) (proc : Nat)
    (others : ∀ other, other ≠ proc → s'.procs other = s.procs other)
    (locks : ∀ addr, (s'.cache.heap addr).lock = (s.cache.heap addr).lock)
    (owned : s'.owned proc = s.owned proc)
    (awake : s'.pc proc = s.pc proc ∨ ∀ addr, s.pc proc = .asleep addr →
      proc ∉ (s.cache.heap addr).lock.sleeplist) : Locked s' := by
  refine locked.moved proc others (fun _ _ _ => by rw [locks])
    (fun addr => by rw [locks]; exact locked.binary addr)
    (fun addr => by rw [locks]; exact locked.balanced addr) ?_
    (by rw [owned]; exact locked.distinct proc) ?_ ?_
  · intro addr sleeping
    rw [locks] at sleeping
    have place := locked.sleepers proc addr sleeping
    obtain stays | awake := awake
    · rw [stays, place]
    · exact absurd sleeping (awake addr place)
  · intro addr mine
    rw [owned] at mine
    rw [locks]
    exact ⟨locked.taken proc addr mine, fun other different theirs =>
      different (locked.exclusive other proc addr theirs mine)⟩
  · intro other addr _ theirs
    rw [locks]
    exact locked.taken other addr theirs

/-- Nobody is inside `cache_acquire` for a block, having found it, when another process
releases it. -/
def NoWaiterAtRelease (s : State) : Act → Prop
  | .release proc addr => ∀ other, other ≠ proc → (s.pc other).waiting? ≠ some addr
  | _ => True

/-- Nobody reads a block into the cache when another process looks for that block. -/
def NoReaderAtSearch (s : State) : Act → Prop
  | .acquire _ blockNo => ∀ other addr, (s.pc other).reading? = some addr →
      (s.cache.heap addr).blockNo ≠ blockNo
  | _ => True

/-- The first section of `cache_acquire` keeps the blocks in use: it marks the block it finds,
or evicts only unmarked blocks and brings a new one. -/
theorem Kept.acquire {blockNo : Nat} (kept : Kept s)
    (taken : s.step (.acquire proc blockNo) = some s') : Kept s' := by
  simp only [State.step, Option.ite_none_left_eq_some, Option.ite_none_right_eq_some] at taken
  obtain ⟨-, place, taken⟩ := taken
  split at taken <;> obtain rfl := Option.some.inj taken
  · rename_i addr found
    obtain ⟨member, -⟩ := Cache.find_some found
    refine kept.moved proc (fun other different => by simp [State.goto, State.setProc, different])
      le_rfl kept.listed (fun _ _ _ _ inside => inside) ?_ ?_
    · intro other used _ uses
      simp only [State.goto_cache, Cache.hit, Cache.update_heap]
      split
      · rfl
      · exact kept.flagged other used uses
    · rintro used (held | named)
      · have uses : s.Uses proc used := .inl (by simpa using held)
        refine ⟨kept.used proc used uses, ?_, ?_⟩
        · simp only [State.goto_cache, Cache.hit, Cache.update_heap]
          split
          · rfl
          · exact kept.flagged proc used uses
        · exact .inl ((kept.cached proc used uses).resolve_right (by simp [place, Pc.reading?]))
      · obtain rfl : addr = used := by simpa [Pc.addr?] using named
        exact ⟨kept.listed addr member, by simp [Cache.hit], .inl member⟩
  · have fresh : ∀ other used, s.Uses other used → used ≠ s.cache.next := fun other used uses =>
      Nat.ne_of_lt (kept.used other used uses)
    have flag : ∀ other used, s.Uses other used →
        ((s.cache.miss blockNo).2.heap used).acquired = true := by
      intro other used uses
      simp only [Cache.miss, Cache.evict_next, Cache.update_heap, fresh other used uses, if_false,
        Cache.evict_heap]
      exact kept.flagged other used uses
    have stay : ∀ other used, s.Uses other used → used ∈ s.cache.list →
        used ∈ (s.cache.miss blockNo).2.list := fun other used uses member =>
      s.cache.mem_evict member (by simp [Cache.evictable, kept.flagged other used uses])
    refine kept.moved proc (fun other different => by simp [State.goto, State.setProc, different])
      ?_ ?_ (fun other used _ => stay other used) (fun other used _ => flag other used) ?_
    · simp [Cache.miss]
    · intro used member
      have before := kept.listed used (s.cache.evict_sublist.subset member)
      simp only [State.goto_cache, Cache.miss, Cache.evict_next]
      omega
    · rintro used (held | named)
      · have uses : s.Uses proc used := .inl (by simpa using held)
        have before := kept.used proc used uses
        refine ⟨?_, flag proc used uses, .inl (stay proc used uses ?_)⟩
        · simp only [State.goto_cache, Cache.miss, Cache.evict_next]
          omega
        · exact (kept.cached proc used uses).resolve_right (by simp [place, Pc.reading?])
      · obtain rfl : s.cache.next = used := by simpa [Pc.addr?, Cache.miss] using named
        simp [Cache.miss, Pc.reading?]

/-- A step inside `cache_acquire` keeps the blocks in use. -/
theorem Kept.advance (kept : Kept s) (taken : s.advance proc = some s') : Kept s' := by
  -- every such step leaves the flags, shortens no list and concerns the block at hand only
  have within : ∀ {place target : Pc} {cache : Cache} (holds : List Nat), s.pc proc = place →
      s' = { s with cache }.setProc proc ⟨target, holds⟩ → cache.next = s.cache.next →
      (∀ used, (cache.heap used).acquired = (s.cache.heap used).acquired) →
      (∀ used, used ∈ cache.list → used ∈ s.cache.list ∨ place.addr? = some used) →
      (∀ used, used ∈ s.cache.list → used ∈ cache.list) →
      (∀ used, used ∈ holds ∨ target.addr? = some used →
        (used ∈ s.holds proc ∨ place.addr? = some used) ∧
        (place.reading? = some used → used ∈ cache.list ∨ target.reading? = some used)) →
      Kept s' := by
    rintro place target cache holds rfl rfl next flags list more mine
    refine kept.moved proc (fun other different => by simp [State.setProc, different])
      (le_of_eq next.symm) ?_ (fun _ used _ _ => more used) ?_ ?_
    · intro used member
      simp only [State.setProc_cache] at member ⊢
      rw [next]
      exact (list used member).elim (kept.listed used) fun named => kept.used proc used (.inr named)
    · intro other used _ uses
      simp only [State.setProc_cache, flags]
      exact kept.flagged other used uses
    · intro used uses
      obtain ⟨before, reading⟩ := mine used (by simpa [State.Uses] using uses)
      refine ⟨?_, ?_, ?_⟩
      · simp only [State.setProc_cache, next]
        exact kept.used proc used before
      · simp only [State.setProc_cache, flags]
        exact kept.flagged proc used before
      · simp only [State.setProc_cache, State.setProc_pc, if_true]
        exact (kept.cached proc used before).elim (fun member => .inl (more used member)) reading
  unfold State.advance at taken
  cases place : s.pc proc with
  | idle => simp [place] at taken
  | waitLock addr =>
    simp only [place] at taken
    split at taken <;> obtain rfl := Option.some.inj taken <;>
      exact within (s.holds proc) place rfl rfl (Cache.update_field Block.acquired rfl)
        (fun _ => .inl) (fun _ => id) (by simp [Pc.addr?, Pc.reading?])
  | asleep addr =>
    simp only [place, Option.ite_none_left_eq_some, Option.some.injEq] at taken
    obtain ⟨-, rfl⟩ := taken
    exact within (s.holds proc) place rfl rfl (fun _ => rfl) (fun _ => .inl) (fun _ => id)
      (by simp [Pc.addr?, Pc.reading?])
  | moveToHead addr =>
    simp only [place, Option.some.injEq] at taken
    subst taken
    refine within (addr :: s.holds proc) place rfl rfl (fun _ => rfl) ?_ ?_
      (by simp [Pc.addr?, Pc.reading?, or_comm, eq_comm])
    · intro used member
      obtain rfl | later := List.mem_cons.mp member
      · exact .inr rfl
      · exact .inl (List.mem_of_mem_erase later)
    · intro used member
      by_cases same : used = addr
      · exact same ▸ List.mem_cons_self
      · exact List.mem_cons_of_mem _ ((List.mem_erase_of_ne same).mpr member)
  | read addr =>
    simp only [place, Option.some.injEq] at taken
    subst taken
    exact within (s.holds proc) place rfl rfl (Cache.update_field Block.acquired rfl)
      (fun _ => .inl) (fun _ => id) fun used member => ⟨member, .inr⟩
  | insert addr =>
    simp only [place, Option.some.injEq] at taken
    subst taken
    refine within (addr :: s.holds proc) place rfl rfl (fun _ => rfl) ?_ ?_ ?_
    · intro used member
      obtain rfl | later := List.mem_cons.mp member
      · exact .inr rfl
      · exact .inl later
    · exact fun used member => List.mem_cons_of_mem _ member
    · intro used member
      simp only [Pc.addr?, reduceCtorEq, or_false, List.mem_cons] at member
      refine ⟨?_, fun reading => .inl ?_⟩
      · simpa [Pc.addr?, or_comm, eq_comm] using member
      · obtain rfl := Option.some.inj reading
        exact List.mem_cons_self

/-- A release that leaves nobody waiting leaves nobody using the block. -/
theorem Locked.unused_after_release (locked : Locked s) (client : s.Client proc addr)
    (met : NoWaiterAtRelease s (.release proc addr)) (other : Nat) (different : other ≠ proc) :
    ¬ s.Uses other addr := by
  intro uses
  obtain theirs | waiting := uses.owned_or_waiting
  · exact different (locked.exclusive other proc addr theirs (State.owned_of_holds client.2))
  · exact met other different waiting

/-- A release that leaves nobody waiting finds nobody asleep. -/
theorem Locked.none_asleep_at_release (locked : Locked s) (client : s.Client proc addr)
    (met : NoWaiterAtRelease s (.release proc addr)) :
    (s.cache.heap addr).lock.sleeplist = [] := by
  refine List.eq_nil_iff_forall_not_mem.mpr fun other sleeping => ?_
  have place := locked.sleepers other addr sleeping
  by_cases same : other = proc
  · rw [same, client.1] at place
    contradiction
  · exact met other same (by rw [place]; rfl)

/-- Such a release gives the lock back free. -/
theorem Locked.release_eq (locked : Locked s) (client : s.Client proc addr)
    (met : NoWaiterAtRelease s (.release proc addr)) :
    s.cache.release addr = some (s.cache.update addr
      ({ · with acquired := false, lock := ⟨1, []⟩ })) := by
  have empty := locked.none_asleep_at_release client met
  have held := locked.taken proc addr (State.owned_of_holds client.2)
  have balanced := locked.balanced addr
  have zero : (s.cache.heap addr).lock = ⟨0, []⟩ := by
    generalize (s.cache.heap addr).lock = lock at empty held balanced
    obtain ⟨val, sleeplist⟩ := lock
    simp only [Semaphore.Balanced] at empty held balanced
    subst empty
    simp only [List.length_nil, Semaphore.mk.injEq, and_true] at balanced ⊢
    omega
  simp only [Cache.release, zero]
  rfl

/-- A process that holds a block holds it once. -/
theorem Locked.holds_nodup (locked : Locked s) (place : s.pc proc = .idle) :
    (s.holds proc).Nodup := by
  have distinct := locked.distinct proc
  simpa only [State.owned, place] using distinct

/-- The parts of a step that a client takes. -/
theorem client_step {act : Act} (taken : s.step act = some s') :
    (∃ proc blockNo, act = .acquire proc blockNo) ∨ (∃ proc, act = .run proc) ∨
    (∃ proc addr, act = .release proc addr ∧ s.Client proc addr ∧
      (s.cache.release addr = none ∧ s' = { s with panic := true } ∨
        ∃ cache, s.cache.release addr = some cache ∧
          s' = { s with cache }.setProc proc ⟨.idle, (s.holds proc).erase addr⟩)) ∨
    (s'.procs = s.procs ∧ s'.cache.list = s.cache.list ∧ s'.cache.next = s.cache.next ∧
      (∀ addr, (s'.cache.heap addr).acquired = (s.cache.heap addr).acquired) ∧
      (∀ addr, (s'.cache.heap addr).blockNo = (s.cache.heap addr).blockNo) ∧
      (s'.panic = false → ∀ addr, (s'.cache.heap addr).lock = (s.cache.heap addr).lock)) := by
  cases act with
  | acquire proc blockNo => exact .inl ⟨proc, blockNo, rfl⟩
  | run proc => exact .inr (.inl ⟨proc, rfl⟩)
  | release proc addr =>
    simp only [State.step, Option.ite_none_left_eq_some, Option.ite_none_right_eq_some] at taken
    obtain ⟨-, client, taken⟩ := taken
    refine .inr (.inr (.inl ⟨proc, addr, rfl, client, ?_⟩))
    split at taken <;> rename_i released <;> obtain rfl := Option.some.inj taken
    · exact .inl ⟨released, rfl⟩
    · exact .inr ⟨_, released, rfl⟩
  | store proc addr data | sync proc addr | unpin proc addr =>
    simp only [State.step, Option.ite_none_left_eq_some, Option.ite_none_right_eq_some,
      Option.some.injEq] at taken
    obtain ⟨-, -, rfl⟩ := taken
    refine .inr (.inr (.inr ⟨rfl, rfl, rfl, fun used => ?_, fun used => ?_, fun _ used => ?_⟩)) <;>
      simp only [Cache.fill, Cache.setPinned, Cache.update_heap] <;> split <;> simp_all only
  | syncNull proc addr =>
    simp only [State.step, Option.ite_none_left_eq_some, Option.ite_none_right_eq_some,
      Option.some.injEq] at taken
    obtain ⟨-, -, rfl⟩ := taken
    exact .inr (.inr (.inr ⟨rfl, rfl, rfl, fun _ => rfl, fun _ => rfl, fun _ _ => rfl⟩))
  | alert proc =>
    simp only [State.step, Option.ite_none_left_eq_some] at taken
    obtain ⟨-, taken⟩ := taken
    split at taken
    · simp only [Option.ite_none_right_eq_some, Option.some.injEq] at taken
      obtain ⟨-, rfl⟩ := taken
      refine .inr (.inr (.inr ⟨rfl, rfl, rfl, fun used => ?_, fun used => ?_, by simp⟩)) <;>
        simp only [Cache.update_heap] <;> split <;> simp_all only
    · contradiction

/-- A step that releases a block only with nobody waiting keeps the blocks in use. -/
theorem Kept.step {act : Act} (kept : Kept s) (locked : Locked s) (met : NoWaiterAtRelease s act)
    (taken : s.step act = some s') : Kept s' := by
  obtain ⟨proc, blockNo, rfl⟩ | ⟨proc, rfl⟩ | ⟨proc, addr, rfl, client, released⟩ |
    ⟨procs, list, next, flags, -, -⟩ := client_step taken
  · exact kept.acquire taken
  · simp only [State.step, Option.ite_none_left_eq_some] at taken
    exact kept.advance taken.2
  · obtain ⟨-, rfl⟩ | ⟨cache, done, rfl⟩ := released
    · exact kept.same rfl rfl rfl fun _ => rfl
    · rw [locked.release_eq client met] at done
      obtain rfl := Option.some.inj done
      have unused := locked.unused_after_release client met
      have flag : ∀ other used, s.Uses other used → used ≠ addr →
          ((s.cache.update addr ({ · with acquired := false, lock := ⟨1, []⟩ })).heap
            used).acquired = true := fun other used uses different => by
        simp only [Cache.update_heap, different, if_false]
        exact kept.flagged other used uses
      refine kept.moved proc (fun other different => by simp [State.setProc, different]) le_rfl
        kept.listed (fun _ _ _ _ member => member) ?_ ?_
      · intro other used different uses
        exact flag other used uses fun same => unused other different (same ▸ uses)
      · intro used uses
        have inside : used ∈ (s.holds proc).erase addr := by simpa [State.Uses, Pc.addr?] using uses
        obtain ⟨different, held⟩ := (locked.holds_nodup client.1).mem_erase_iff.mp inside
        refine ⟨kept.used proc used (.inl held), flag proc used (.inl held) different, .inl ?_⟩
        exact (kept.cached proc used (.inl held)).resolve_right (by simp [client.1, Pc.reading?])
  · exact kept.same procs list next flags

/-- The first section of `cache_acquire` keeps the locks: a block it brings comes locked. -/
theorem Locked.acquire {blockNo : Nat} (locked : Locked s) (kept : Kept s)
    (taken : s.step (.acquire proc blockNo) = some s') : Locked s' := by
  simp only [State.step, Option.ite_none_left_eq_some, Option.ite_none_right_eq_some] at taken
  obtain ⟨-, place, taken⟩ := taken
  have awake : ∀ addr, proc ∉ (s.cache.heap addr).lock.sleeplist := by
    intro addr sleeping
    rw [locked.sleepers proc addr sleeping] at place
    contradiction
  split at taken <;> obtain rfl := Option.some.inj taken
  · rename_i addr found
    exact locked.same proc (fun other different => by simp [State.goto, State.setProc, different])
      (by simp) (by simp [State.owned, place]) (.inr fun addr _ => awake addr)
  · have unused : ∀ other, s.cache.next ∉ s.owned other := fun other owned =>
      Nat.lt_irrefl _ (kept.used other _ (.of_owned owned))
    have lock : ∀ used, ((s.cache.miss blockNo).2.heap used).lock =
        if used = s.cache.next then ⟨0, []⟩ else (s.cache.heap used).lock := by
      intro used
      simp only [Cache.miss, Cache.evict_next, Cache.update_heap, Cache.evict_heap]
      split <;> rfl
    have none_asleep : ∀ other, other ∉ (s.cache.heap s.cache.next).lock.sleeplist := by
      intro other sleeping
      have uses : s.Uses other s.cache.next :=
        .inr (by rw [locked.sleepers other _ sleeping]; rfl)
      exact Nat.lt_irrefl _ (kept.used other _ uses)
    have mine : s.owned proc = s.holds proc := by simp [State.owned, place]
    have owned : (s.goto (s.cache.miss blockNo).2 proc (.read (s.cache.miss blockNo).1)).owned
        proc = s.cache.next :: s.owned proc := by
      rw [mine]
      simp [State.owned, Cache.miss]
    refine locked.moved proc
      (fun other different => by simp [State.goto, State.setProc, different]) ?_ ?_ ?_ ?_ ?_ ?_ ?_
    · intro other used _
      simp only [State.goto_cache, lock]
      split
      · rename_i same
        rw [same]
        simp [none_asleep other]
      · rfl
    · intro used
      simp only [State.goto_cache, lock]
      split
      · decide
      · exact locked.binary used
    · intro used
      simp only [State.goto_cache, lock]
      split
      · exact Semaphore.initSem_balanced le_rfl
      · exact locked.balanced used
    · intro used sleeping
      simp only [State.goto_cache, lock] at sleeping
      split at sleeping
      · contradiction
      · exact absurd sleeping (awake used)
    · rw [owned]
      exact List.nodup_cons.mpr ⟨unused proc, locked.distinct proc⟩
    · intro used member
      rw [owned] at member
      simp only [State.goto_cache, lock]
      obtain rfl | before := List.mem_cons.mp member
      · exact ⟨by simp, fun other _ => unused other⟩
      · refine ⟨?_, fun other different theirs =>
          different (locked.exclusive other proc used theirs before)⟩
        rw [if_neg fun same : used = s.cache.next => unused proc (same ▸ before)]
        exact locked.taken proc used before
    · intro other used _ theirs
      simp only [State.goto_cache, lock]
      rw [if_neg fun same : used = s.cache.next => unused other (same ▸ theirs)]
      exact locked.taken other used theirs

/-- `wait_sem` on the lock of a block keeps the locks. -/
theorem Locked.waitLock {passed : Bool} {lock : Semaphore} (locked : Locked s)
    (place : s.pc proc = .waitLock addr)
    (waited : (s.cache.heap addr).lock.waitSem proc = (passed, lock)) :
    Locked (s.goto (s.cache.update addr ({ · with lock })) proc
      (if passed then .moveToHead addr else .asleep addr)) := by
  have awake : ∀ used, proc ∉ (s.cache.heap used).lock.sleeplist := by
    intro used sleeping
    rw [locked.sleepers proc used sleeping] at place
    contradiction
  have balanced := Semaphore.waitSem_balanced (locked.balanced addr) proc
  have binary := locked.binary addr
  rw [waited] at balanced
  have before : s.owned proc = s.holds proc := by simp only [State.owned, place]
  simp only [Semaphore.waitSem] at waited
  -- one less than before in either case
  have value : lock.val = (s.cache.heap addr).lock.val - 1 := by
    split at waited <;> obtain ⟨-, rfl⟩ := Prod.mk.inj waited <;> rfl
  have heap : ∀ used, ((s.cache.update addr ({ · with lock })).heap used).lock =
      if used = addr then lock else (s.cache.heap used).lock := by
    intro used
    simp only [Cache.update_heap]
    split <;> rfl
  have owned : (s.goto (s.cache.update addr ({ · with lock })) proc
      (if passed then .moveToHead addr else .asleep addr)).owned proc =
      if passed then addr :: s.owned proc else s.owned proc := by
    rw [before]
    split at waited <;> obtain ⟨rfl, rfl⟩ := Prod.mk.inj waited <;> simp [State.owned]
  refine locked.moved proc (fun other different => by simp [State.goto, State.setProc, different])
    ?_ ?_ ?_ ?_ ?_ ?_ ?_
  · intro other used different
    simp only [State.goto_cache, heap]
    split
    · rename_i same
      rw [same]
      split at waited <;> obtain ⟨-, rfl⟩ := Prod.mk.inj waited <;> simp [different]
    · rfl
  · intro used
    simp only [State.goto_cache, heap]
    split
    · omega
    · exact locked.binary used
  · intro used
    simp only [State.goto_cache, heap]
    split
    · exact balanced
    · exact locked.balanced used
  · intro used sleeping
    simp only [State.goto_cache, heap] at sleeping
    split at sleeping
    · rename_i same
      rw [same]
      split at waited <;> obtain ⟨rfl, rfl⟩ := Prod.mk.inj waited
      · exact absurd sleeping (awake addr)
      · simp
    · exact absurd sleeping (awake used)
  · rw [owned]
    split at waited <;> obtain ⟨rfl, rfl⟩ := Prod.mk.inj waited
    · refine List.nodup_cons.mpr ⟨fun mine => ?_, locked.distinct proc⟩
      have := locked.taken proc addr mine
      omega
    · exact locked.distinct proc
  · intro used mine
    rw [owned] at mine
    -- what it owned before stays taken, and a lock that was free has no other owner
    have held_before : used ∈ s.owned proc → (if used = addr then lock
        else (s.cache.heap used).lock).val ≤ 0 ∧
        ∀ other, other ≠ proc → used ∉ s.owned other := by
      intro held
      have := locked.taken proc used held
      refine ⟨?_, fun other different theirs =>
        different (locked.exclusive other proc used theirs held)⟩
      split
      · rename_i same
        rw [same] at this
        omega
      · exact this
    simp only [State.goto_cache, heap]
    split at waited <;> obtain ⟨rfl, rfl⟩ := Prod.mk.inj waited
    · obtain rfl | held := List.mem_cons.mp mine
      · refine ⟨by simp only [if_true]; omega, fun other _ theirs => ?_⟩
        have := locked.taken other used theirs
        omega
      · exact held_before held
    · exact held_before mine
  · intro other used _ theirs
    have := locked.taken other used theirs
    simp only [State.goto_cache, heap]
    split
    · rename_i same
      rw [same] at this
      omega
    · exact this

/-- A step inside `cache_acquire` keeps the locks. -/
theorem Locked.advance (locked : Locked s) (taken : s.advance proc = some s') : Locked s' := by
  unfold State.advance at taken
  cases place : s.pc proc with
  | idle => simp [place] at taken
  | waitLock addr =>
    simp only [place] at taken
    split at taken <;> rename_i waited <;> obtain rfl := Option.some.inj taken <;>
      exact locked.waitLock place waited
  | asleep addr =>
    simp only [place, Option.ite_none_left_eq_some, Option.some.injEq] at taken
    obtain ⟨awake, rfl⟩ := taken
    refine locked.same proc (fun other different => by simp [State.goto, State.setProc, different])
      (fun _ => rfl) (by simp [State.owned, place, awake]) (.inr ?_)
    intro used there
    obtain rfl := Pc.asleep.inj (place.symm.trans there)
    exact awake
  | moveToHead addr | insert addr =>
    simp only [place, Option.some.injEq] at taken
    subst taken
    exact locked.same proc
      (fun other different => by simp [State.return_, State.setProc, different])
      (fun _ => rfl) (by simp [State.owned, place]) (.inr (by simp [place]))
  | read addr =>
    simp only [place, Option.some.injEq] at taken
    subst taken
    exact locked.same proc (fun other different => by simp [State.goto, State.setProc, different])
      (by simp) (by simp [State.owned, place]) (.inr (by simp [place]))

/-- A step that does not end in a panic, and releases a block only with nobody waiting, keeps
the locks. -/
theorem Locked.step {act : Act} (locked : Locked s) (kept : Kept s)
    (met : NoWaiterAtRelease s act) (taken : s.step act = some s') (calm : s'.panic = false) :
    Locked s' := by
  obtain ⟨proc, blockNo, rfl⟩ | ⟨proc, rfl⟩ | ⟨proc, addr, rfl, client, released⟩ |
    ⟨procs, list, next, -, -, locks⟩ := client_step taken
  · exact locked.acquire kept taken
  · simp only [State.step, Option.ite_none_left_eq_some] at taken
    exact locked.advance taken.2
  · obtain ⟨-, rfl⟩ | ⟨cache, done, rfl⟩ := released
    · simp at calm
    · have empty := locked.none_asleep_at_release client met
      have mine := State.owned_of_holds client.2
      rw [locked.release_eq client met] at done
      obtain rfl := Option.some.inj done
      have before : s.owned proc = s.holds proc := by simp only [State.owned, client.1]
      have heap : ∀ used, ((s.cache.update addr
          ({ · with acquired := false, lock := ⟨1, []⟩ })).heap used).lock =
          if used = addr then ⟨1, []⟩ else (s.cache.heap used).lock := by
        intro used
        simp only [Cache.update_heap]
        split <;> rfl
      refine locked.moved proc (fun other different => by simp [State.setProc, different])
        ?_ ?_ ?_ ?_ ?_ ?_ ?_
      · intro other used _
        simp only [State.setProc_cache, heap]
        split
        · rename_i same
          rw [same, empty]
        · rfl
      · intro used
        simp only [State.setProc_cache, heap]
        split
        · decide
        · exact locked.binary used
      · intro used
        simp only [State.setProc_cache, heap]
        split
        · exact Semaphore.initSem_balanced (by decide)
        · exact locked.balanced used
      · intro used sleeping
        simp only [State.setProc_cache, heap] at sleeping
        split at sleeping
        · contradiction
        · have there := locked.sleepers proc used sleeping
          rw [client.1] at there
          contradiction
      · simpa [State.owned] using (locked.holds_nodup client.1).erase addr
      · intro used owned
        have inside : used ∈ (s.holds proc).erase addr := by simpa [State.owned] using owned
        obtain ⟨different, held⟩ := (locked.holds_nodup client.1).mem_erase_iff.mp inside
        have held : used ∈ s.owned proc := State.owned_of_holds held
        simp only [State.setProc_cache, heap, different, if_false]
        exact ⟨locked.taken proc used held, fun other apart theirs =>
          apart (locked.exclusive other proc used theirs held)⟩
      · intro other used apart theirs
        have different : used ≠ addr := by
          rintro rfl
          exact apart (locked.exclusive other proc used theirs mine)
        simp only [State.setProc_cache, heap, different, if_false]
        exact locked.taken other used theirs
  · refine locked.same 0 (fun _ _ => by rw [procs]) (locks calm) ?_ (.inl ?_)
    · simp only [State.owned, State.pc, State.holds, procs, locks calm]
    · rw [State.pc, procs]
      rfl

/-- Until the kernel panics, the blocks in use are kept and the locks are sound, in every run
in which blocks are released only with nobody waiting for them. -/
theorem kept_locked (reached : machine.Reach NoWaiterAtRelease s) :
    Kept s ∧ (s.panic = false → Locked s) := by
  refine reached.invariant (P := fun s => Kept s ∧ (s.panic = false → Locked s)) ?_ ?_
  · rintro s ⟨disk, rfl⟩
    exact ⟨.boot disk, fun _ => .boot disk⟩
  · rintro s act s' - ⟨kept, locked⟩ met taken
    have calm : s.panic = false := by
      cases flag : s.panic with
      | false => rfl
      | true => simp [machine, State.step, flag] at taken
    exact ⟨kept.step (locked calm) met taken, (locked calm).step kept met taken⟩

/-- Only the first section of `cache_acquire` takes blocks out of the list, and it takes only
evictable ones. -/
theorem evictable_of_removed {act : Act} (taken : s.step act = some s')
    (member : addr ∈ s.cache.list) (removed : addr ∉ s'.cache.list) :
    Cache.evictable s.cache.heap addr = true := by
  obtain ⟨proc, blockNo, rfl⟩ | ⟨proc, rfl⟩ | ⟨proc, released, rfl, -, done⟩ | ⟨-, list, -⟩ :=
    client_step taken
  · simp only [State.step, Option.ite_none_left_eq_some, Option.ite_none_right_eq_some] at taken
    obtain ⟨-, -, taken⟩ := taken
    split at taken <;> obtain rfl := Option.some.inj taken
    · exact absurd member removed
    · by_contra kept
      exact removed (s.cache.mem_evict member (by simpa using kept))
  · simp only [State.step, Option.ite_none_left_eq_some] at taken
    obtain ⟨-, taken⟩ := taken
    unfold State.advance at taken
    split at taken <;> (try split at taken) <;>
      first
      | contradiction
      | obtain rfl := Option.some.inj taken
        first
        | exact absurd member removed
        | exact absurd (List.mem_cons_of_mem _ member) removed
        | refine absurd ?_ removed
          rename_i moved _
          by_cases same : addr = moved
          · exact same ▸ List.mem_cons_self
          · exact List.mem_cons_of_mem _ ((List.mem_erase_of_ne same).mpr member)
  · obtain ⟨-, rfl⟩ | ⟨cache, done, rfl⟩ := done
    · exact absurd member removed
    · rw [State.setProc_cache, Cache.release_list done] at removed
      exact absurd member removed
  · rw [list] at removed
    exact absurd member removed

/-- A block that a process holds or waits for is never evicted, in every run in which
`cache_release` is called only on blocks that no other process has found in the cache and is
still waiting for. -/
theorem used_not_evicted (s s' : State) (act : Act) (addr : Nat)
    (reached : machine.Reach NoWaiterAtRelease s)
    (taken : machine.step s act = some s') (member : addr ∈ s.cache.list)
    (removed : addr ∉ s'.cache.list) (proc : Nat) : ¬ s.Uses proc addr := by
  intro uses
  have free := evictable_of_removed taken member removed
  have flag := (kept_locked reached).1.flagged proc addr uses
  simp [Cache.evictable, flag] at free

/-! ## One copy per block -/

/-- No two blocks that are cached or on their way to a caller carry the same number. -/
def Unique (s : State) : Prop := ∀ first second, s.Live first → s.Live second →
  (s.cache.heap first).blockNo = (s.cache.heap second).blockNo → first = second

/-- A process inside `cache_acquire` brings no block into use but its own, and renumbers none. -/
theorem advance_live (taken : s.advance proc = some s') (live : s'.Live addr) :
    s.Live addr ∧ (s'.cache.heap addr).blockNo = (s.cache.heap addr).blockNo := by
  have within : ∀ {target : Pc} {cache : Cache} (holds : List Nat),
      s' = { s with cache }.setProc proc ⟨target, holds⟩ →
      (∀ used, (cache.heap used).blockNo = (s.cache.heap used).blockNo) →
      (∀ used, used ∈ cache.list → used ∈ s.cache.list ∨ (s.pc proc).addr? = some used) →
      (∀ used, used ∈ holds ∨ target.addr? = some used → s.Uses proc used) →
      s.Live addr ∧ (s'.cache.heap addr).blockNo = (s.cache.heap addr).blockNo := by
    rintro target cache holds rfl numbers list mine
    refine ⟨?_, numbers addr⟩
    obtain member | ⟨other, uses⟩ := live
    · exact (list addr member).imp_right fun named => ⟨proc, .inr named⟩
    · by_cases same : other = proc
      · exact .inr ⟨proc, mine addr (by simpa [State.Uses, same] using uses)⟩
      · exact .inr ⟨other, by simpa [State.Uses, same] using uses⟩
  unfold State.advance at taken
  cases place : s.pc proc with
  | idle => simp [place] at taken
  | waitLock found =>
    simp only [place] at taken
    split at taken <;> obtain rfl := Option.some.inj taken <;>
      exact within (s.holds proc) rfl (Cache.update_field Block.blockNo rfl) (fun _ => .inl)
        (by simp [State.Uses, place, Pc.addr?])
  | asleep found =>
    simp only [place, Option.ite_none_left_eq_some, Option.some.injEq] at taken
    obtain ⟨-, rfl⟩ := taken
    exact within (s.holds proc) rfl (fun _ => rfl) (fun _ => .inl)
      (by simp [State.Uses, place, Pc.addr?])
  | moveToHead found =>
    simp only [place, Option.some.injEq] at taken
    subst taken
    refine within (found :: s.holds proc) rfl (fun _ => rfl) ?_
      fun used member => by simpa [State.Uses, place, Pc.addr?, eq_comm, or_comm] using member
    intro used member
    rw [place]
    exact (List.mem_cons.mp member).symm.imp List.mem_of_mem_erase fun same => by
      simp [same, Pc.addr?]
  | read found =>
    simp only [place, Option.some.injEq] at taken
    subst taken
    exact within (s.holds proc) rfl (Cache.update_field Block.blockNo rfl) (fun _ => .inl)
      (by simp [State.Uses, place, Pc.addr?])
  | insert found =>
    simp only [place, Option.some.injEq] at taken
    subst taken
    refine within (found :: s.holds proc) rfl (fun _ => rfl) ?_
      fun used member => by simpa [State.Uses, place, Pc.addr?, eq_comm, or_comm] using member
    intro used member
    rw [place]
    exact (List.mem_cons.mp member).symm.imp id fun same => by simp [same, Pc.addr?]

/-- A block in use after a step was in use before under the same number, or a search for its
number has found nothing and brought it. -/
theorem live_origin {act : Act} (taken : s.step act = some s')
    (live : s'.Live addr) :
    s.Live addr ∧ (s'.cache.heap addr).blockNo = (s.cache.heap addr).blockNo ∨
    ∃ proc blockNo, act = .acquire proc blockNo ∧ s.cache.find blockNo = none ∧
      addr = s.cache.next ∧ (s'.cache.heap addr).blockNo = blockNo := by
  obtain ⟨proc, blockNo, rfl⟩ | ⟨proc, rfl⟩ | ⟨proc, released, rfl, client, done⟩ |
    ⟨procs, list, next, -, numbers, -⟩ := client_step taken
  · simp only [State.step, Option.ite_none_left_eq_some, Option.ite_none_right_eq_some] at taken
    obtain ⟨-, place, taken⟩ := taken
    split at taken <;> obtain rfl := Option.some.inj taken
    · rename_i found hit
      refine .inl ⟨?_, by simp⟩
      obtain member | ⟨other, held | named⟩ := live
      · exact .inl member
      · exact .inr ⟨other, .inl (by simpa using held)⟩
      · by_cases same : other = proc
        · obtain rfl : found = addr := by simpa [same, Pc.addr?] using named
          exact .inl (Cache.find_some hit).1
        · exact .inr ⟨other, .inr (by simpa [same] using named)⟩
    · rename_i missing
      by_cases new : addr = s.cache.next
      · exact .inr ⟨proc, blockNo, rfl, missing, new, by simp [Cache.miss, new]⟩
      · refine .inl ⟨?_, by simp [Cache.miss, new]⟩
        obtain member | ⟨other, held | named⟩ := live
        · exact .inl (s.cache.evict_sublist.subset member)
        · exact .inr ⟨other, .inl (by simpa using held)⟩
        · by_cases same : other = proc
          · exact absurd (by simpa [same, Pc.addr?, Cache.miss] using named.symm) new
          · exact .inr ⟨other, .inr (by simpa [same] using named)⟩
  · simp only [State.step, Option.ite_none_left_eq_some] at taken
    exact .inl (advance_live taken.2 live)
  · obtain ⟨-, rfl⟩ | ⟨cache, done, rfl⟩ := done
    · exact .inl ⟨live, rfl⟩
    · refine .inl ⟨?_, Cache.release_blockNo done addr⟩
      obtain member | ⟨other, held | named⟩ := live
      · exact .inl (by rwa [State.setProc_cache, Cache.release_list done] at member)
      · by_cases same : other = proc
        · rw [State.setProc_holds, if_pos same] at held
          exact .inr ⟨proc, .inl (List.mem_of_mem_erase held)⟩
        · exact .inr ⟨other, .inl (by simpa [same] using held)⟩
      · by_cases same : other = proc
        · simp [same, Pc.addr?] at named
        · exact .inr ⟨other, .inr (by simpa [same] using named)⟩
  · refine .inl ⟨?_, numbers addr⟩
    simpa only [State.Live, State.Uses, State.holds, State.pc, procs, list] using live

/-- A step that looks for a block only while nobody reads it keeps the copies unique. -/
theorem Unique.step {act : Act} (unique : Unique s) (kept : Kept s) (met : NoReaderAtSearch s act)
    (taken : s.step act = some s') : Unique s' := by
  -- a block brought by a failed search differs in number from everything in use
  have apart : ∀ proc blockNo used, act = .acquire proc blockNo → s.cache.find blockNo = none →
      s.Live used → (s.cache.heap used).blockNo ≠ blockNo := by
    rintro proc blockNo used rfl missing (member | ⟨other, uses⟩)
    · exact Cache.find_none missing member
    · obtain member | reading := kept.cached other used uses
      · exact Cache.find_none missing member
      · exact met other used reading
  intro first second firstLive secondLive same
  obtain ⟨firstBefore, firstNo⟩ | ⟨proc, blockNo, act_eq, missing, rfl, firstNo⟩ :=
    live_origin taken firstLive <;>
  obtain ⟨secondBefore, secondNo⟩ | ⟨proc', blockNo', act_eq', missing', rfl, secondNo⟩ :=
    live_origin taken secondLive
  · exact unique first second firstBefore secondBefore (by rw [← firstNo, ← secondNo, same])
  · exact absurd (by rw [← firstNo, same, secondNo])
      (apart proc' blockNo' first act_eq' missing' firstBefore)
  · exact absurd (by rw [← secondNo, ← same, firstNo])
      (apart proc blockNo second act_eq missing secondBefore)
  · rfl

/-- There is at most one copy of a block, in every run in which no process looks for a block
while another reads that block into the cache, and no process releases a block that another
has found in the cache and is still waiting for. -/
theorem one_copy (s : State)
    (reached : machine.Reach (fun s act => NoReaderAtSearch s act ∧ NoWaiterAtRelease s act) s) :
    (∀ first second, s.Live first → s.Live second →
      (s.cache.heap first).blockNo = (s.cache.heap second).blockNo → first = second) ∧
    (∀ proc other held held', held ∈ s.holds proc → held' ∈ s.holds other →
      (s.cache.heap held).blockNo = (s.cache.heap held').blockNo → held = held') := by
  have unique : Unique s := by
    refine reached.invariant ?_ ?_
    · rintro s ⟨disk, rfl⟩ first second (member | ⟨proc, uses⟩)
      · simp [State.boot, Cache.empty] at member
      · simp [State.boot, State.Uses, Pc.addr?] at uses
    · intro s act s' earlier unique met taken
      have kept := (kept_locked (earlier.mono fun _ _ _ met => met.2)).1
      exact unique.step kept met.1 taken
  exact ⟨unique, fun proc other held held' mine theirs => unique held held'
    (.inr ⟨proc, .inl mine⟩) (.inr ⟨other, .inl theirs⟩)⟩

/-! ## Runs with and without the disciplines -/

/-- A step moves nobody but the process that takes it. -/
theorem step_others {act : Act} {other : Nat} (taken : s.step act = some s')
    (different : other ≠ act.proc) : s'.procs other = s.procs other := by
  obtain ⟨proc, blockNo, rfl⟩ | ⟨proc, rfl⟩ | ⟨proc, released, rfl, -, done⟩ | ⟨procs, -⟩ :=
    client_step taken
  · simp only [State.step, Option.ite_none_left_eq_some, Option.ite_none_right_eq_some] at taken
    obtain ⟨-, -, taken⟩ := taken
    simp only [Act.proc] at different
    split at taken <;> obtain rfl := Option.some.inj taken <;>
      simp [State.goto, State.setProc, different]
  · simp only [State.step, Option.ite_none_left_eq_some] at taken
    obtain ⟨-, taken⟩ := taken
    simp only [Act.proc] at different
    unfold State.advance at taken
    split at taken <;> (try split at taken) <;>
      first
      | contradiction
      | obtain rfl := Option.some.inj taken
        simp [State.goto, State.return_, State.setProc, different]
  · simp only [Act.proc] at different
    obtain ⟨-, rfl⟩ | ⟨cache, -, rfl⟩ := done
    · rfl
    · simp [State.setProc, different]
  · rw [procs]

/-- Both disciplines, as far as the first processes are concerned. -/
def CalmAmong (count : Nat) (s : State) : Act → Prop
  | .acquire _ blockNo => ∀ other, other < count → ∀ addr ∈ (s.pc other).reading?,
      (s.cache.heap addr).blockNo ≠ blockNo
  | .release proc addr => ∀ other, other < count → other ≠ proc →
      (s.pc other).waiting? ≠ some addr
  | _ => True

instance (count : Nat) (s : State) (act : Act) : Decidable (CalmAmong count s act) :=
  match act with
  | .acquire _ _ => Nat.decidableBallLT _ _
  | .release _ _ => Nat.decidableBallLT _ _
  | .run _ | .store _ _ _ | .sync _ _ | .syncNull _ _ | .unpin _ _ | .alert _ => isTrue trivial

/-- Two processes that keep the disciplines among themselves. -/
def TwoCalm (s : State) (act : Act) : Prop := act.proc < 2 ∧ CalmAmong 2 s act

instance (s : State) (act : Act) : Decidable (TwoCalm s act) := inferInstanceAs (Decidable (_ ∧ _))

/-- Among two processes the disciplines for two are the disciplines for all. -/
theorem calm_of_twoCalm {act : Act} (reached : machine.Reach TwoCalm s) (met : TwoCalm s act) :
    NoReaderAtSearch s act ∧ NoWaiterAtRelease s act := by
  have outside : ∀ other, 2 ≤ other → s.procs other = ⟨.idle, []⟩ := by
    intro other high
    refine reached.untouched Act.proc State.procs (· < 2) ?_
      (fun _ _ _ taken _ => step_others taken) (fun _ _ met => met.1) other (Nat.not_lt.mpr high)
    rintro s ⟨disk, rfl⟩ proc
    rfl
  cases act with
  | acquire proc blockNo =>
    refine ⟨fun other addr reading => ?_, trivial⟩
    obtain low | high := Nat.lt_or_ge other 2
    · exact met.2 other low addr reading
    · simp [State.pc, outside other high, Pc.reading?] at reading
  | release proc addr =>
    refine ⟨trivial, fun other different => ?_⟩
    obtain low | high := Nat.lt_or_ge other 2
    · exact met.2 other low different
    · simp [State.pc, outside other high, Pc.waiting?]
  | _ => exact ⟨trivial, trivial⟩

/-- `proc` reads blocks into the cache at the given addresses and releases each. -/
def readBlocks (proc firstBlock : Nat) (addrs : List Nat) : List Act :=
  addrs.flatMap fun addr =>
    [.acquire proc (firstBlock + addr), .run proc, .run proc, .release proc addr]

/-- Two processes use a block one after the other, with another one held in between. -/
def takeTurnsRun : List Act :=
  [.acquire 0 5, .acquire 1 7, .run 0, .run 1, .run 0, .run 1, .release 0 0, .acquire 1 5,
    .run 1, .run 1]

/-- The two blocks held at the end of that run are the only copies of theirs. -/
theorem one_copy_take_turns :
    ∃ s, machine.Reach (fun s act => NoReaderAtSearch s act ∧ NoWaiterAtRelease s act) s ∧
      s.holds 1 = [0, 1] ∧ (s.cache.heap 0).blockNo = 5 ∧
      ∀ addr, s.Live addr → (s.cache.heap addr).blockNo = 5 → addr = 0 := by
  have shown : (machine.exec TwoCalm (.boot fun _ => .zero) takeTurnsRun).map
      (fun s => (s.holds 1, (s.cache.heap 0).blockNo)) = some ([0, 1], 5) := by decide +kernel
  obtain ⟨s, reached, observed⟩ := Machine.Reach.exec_map (init_boot _) shown
  obtain ⟨held, number⟩ := Prod.mk.inj observed
  have reached := reached.mono fun _ _ => calm_of_twoCalm
  have first : s.Live 0 := .inr ⟨1, .inl (by simp [held])⟩
  exact ⟨s, reached, held, number, fun addr live same =>
    (one_copy s reached).1 addr 0 live first (by rw [same, number])⟩

/-- Two processes look for the same block before either has read it. -/
def twoMissesRun : List Act :=
  [.acquire 0 5, .acquire 1 5, .run 0, .run 0, .run 1, .run 1]

/-- They end up holding two copies of the block. -/
theorem two_misses_two_copies :
    ∃ s, machine.Reach Machine.Any s ∧ ∃ held held', held ∈ s.holds 0 ∧ held' ∈ s.holds 1 ∧
      held ≠ held' ∧ (s.cache.heap held).blockNo = (s.cache.heap held').blockNo := by
  have shown : (machine.exec Machine.Any (.boot fun _ => .zero) twoMissesRun).map
      (fun s => (s.holds 0, s.holds 1, (s.cache.heap 0).blockNo, (s.cache.heap 1).blockNo)) =
        some ([0], [1], 5, 5) := by decide +kernel
  obtain ⟨s, reached, observed⟩ := Machine.Reach.exec_map (init_boot _) shown
  obtain ⟨first, second, number, number'⟩ := by simpa only [Prod.mk.injEq] using observed
  exact ⟨s, reached, 0, 1, by simp [first], by simp [second], by decide, by rw [number, number']⟩

/-- The second process holds a block while the first reads nineteen others. -/
def heldWhileReadingRun : List Act :=
  [.acquire 1 5, .run 1, .run 1] ++ readBlocks 0 100 (List.range' 1 19)

/-- The next search evicts one of the nineteen, which nobody uses. -/
theorem used_not_evicted_while_reading :
    ∃ s s', machine.Reach NoWaiterAtRelease s ∧ machine.step s (.acquire 0 200) = some s' ∧
      s.holds 1 = [0] ∧ 1 ∈ s.cache.list ∧ 1 ∉ s'.cache.list ∧ ¬ s.Uses 0 1 := by
  have shown : (machine.exec TwoCalm (.boot fun _ => .zero) heldWhileReadingRun).map
      (fun s => (s.holds 1, decide (1 ∈ s.cache.list),
        (machine.step s (.acquire 0 200)).map fun s' => decide (1 ∈ s'.cache.list))) =
        some ([0], true, some false) := by decide +kernel
  obtain ⟨s, reached, observed⟩ := Machine.Reach.exec_map (init_boot _) shown
  obtain ⟨held, member, after⟩ := by simpa only [Prod.mk.injEq] using observed
  obtain ⟨s', taken, removed⟩ := Option.map_eq_some_iff.mp after
  have reached := reached.mono fun _ _ reached met => (calm_of_twoCalm reached met).2
  have member : 1 ∈ s.cache.list := of_decide_eq_true member
  have removed : 1 ∉ s'.cache.list := of_decide_eq_false removed
  exact ⟨s, s', reached, taken, held, member, removed,
    used_not_evicted s s' _ 1 reached taken member removed 0⟩

/-- The second process waits for a block that the first releases, and gets it; then the first
reads nineteen others. -/
def handedOverRun : List Act :=
  [.acquire 0 5, .run 0, .run 0, .acquire 1 5, .run 1, .release 0 0, .run 1, .run 1] ++
    readBlocks 0 100 (List.range' 1 19)

/-- The next search evicts the block that the second process holds. -/
theorem handed_over_evicted :
    ∃ s s', machine.Reach Machine.Any s ∧ machine.step s (.acquire 0 200) = some s' ∧
      0 ∈ s.holds 1 ∧ 0 ∈ s.cache.list ∧ 0 ∉ s'.cache.list := by
  have shown : (machine.exec Machine.Any (.boot fun _ => .zero) handedOverRun).map
      (fun s => (s.holds 1, decide (0 ∈ s.cache.list),
        (machine.step s (.acquire 0 200)).map fun s' => decide (0 ∈ s'.cache.list))) =
        some ([0], true, some false) := by decide +kernel
  obtain ⟨s, reached, observed⟩ := Machine.Reach.exec_map (init_boot _) shown
  obtain ⟨held, member, after⟩ := by simpa only [Prod.mk.injEq] using observed
  obtain ⟨s', taken, removed⟩ := Option.map_eq_some_iff.mp after
  exact ⟨s, s', reached, taken, by simp [held], of_decide_eq_true member,
    of_decide_eq_false removed⟩

end OsLab.Fs.Sections
