import OsLab.Lib.Transition
import OsLab.Fs.Store

/-!
# The allocator of blocks

`cache_alloc` and `cache_free` one after the other over the plain store. As long as no block of the
bitmap is given away, `cache_alloc` returns the first block that is not marked, and a block is not
returned again before it is freed. Where all blocks are marked it panics, unless the last bitmap
block is the one for the largest numbers of an `int`: then `blockstart` overflows.
-/
namespace OsLab.Fs

open OsLab.Lib
open BlockProg

/-! ## Full disks -/

section Full

variable {sblock : SuperBlock} {s : Store}

/-- Where all blocks are marked, the loop of `cache_alloc` panics, or `blockstart` overflows. -/
theorem allocLoop_stop (fits : sblock.BitmapFits) (ready : s.Allocatable sblock) (ctx : Ctx)
    {rounds chunk : Nat} (full : ∀ blockNo, blockNo < sblock.numBlocks → s.used sblock blockNo = true)
    (total : (sblock.numBlocks + bitPerBlock - 1) / bitPerBlock = chunk + rounds)
    (narrow : chunk * bitPerBlock < 2 ^ 31) :
    (allocLoop sblock ctx rounds (chunk * bitPerBlock)).stop Store.serve
        { s with bitmapLock := true } =
      some (if sblock.numBlocks ≤ 2 ^ 31 - bitPerBlock then .panic else .overflow) := by
  have size : bitPerBlock = 4096 := rfl
  have limit : sblock.allocLimit = sblock.numBlocks := if_pos fits.blocks
  induction rounds generalizing chunk with
  | zero =>
    rw [if_pos (by rw [size] at total narrow ⊢; omega)]
    rfl
  | succ rounds ih =>
    have start : chunk * bitPerBlock + 0 < sblock.numBlocks := by
      rw [size] at total ⊢
      omega
    have free : ({ s with bitmapLock := true } : Store).held
        (sblock.allocBlock (chunk * bitPerBlock)) = false := by
      rw [fits.allocBlock_eq (by decide) start, SuperBlock.freeBlock_eq fits.bitmap start]
      exact ready.bitmap _ start
    have none : findClear sblock.allocLimit (chunk * bitPerBlock)
        (s.blocks (sblock.allocBlock (chunk * bitPerBlock))) = none := by
      cases found : findClear sblock.allocLimit (chunk * bitPerBlock)
          (s.blocks (sblock.allocBlock (chunk * bitPerBlock))) with
      | none => rfl
      | some place =>
        obtain ⟨byte, bit, below, clear, -⟩ := findClear_some found
        have small : place.1 * 8 + place.2 < bitPerBlock := by
          rw [size]
          unfold blockSize at byte
          omega
        rw [limit, Nat.add_assoc] at below
        have set := full _ below
        rw [Store.used, ← fits.allocBlock_eq small below, Nat.mul_add_mod_self_right,
          Nat.mod_eq_of_lt small, clear] at set
        contradiction
    have acquired : Store.serve (.acquire (sblock.allocBlock (chunk * bitPerBlock)))
        { s with bitmapLock := true } = some (s.blocks (sblock.allocBlock (chunk * bitPerBlock)),
          Store.hold { s with bitmapLock := true } (sblock.allocBlock (chunk * bitPerBlock))) :=
      Store.serve_acquire free
    have released : Store.serve (.release (sblock.allocBlock (chunk * bitPerBlock)))
        (Store.hold { s with bitmapLock := true } (sblock.allocBlock (chunk * bitPerBlock))) =
          some ((), { s with bitmapLock := true }) :=
      Store.serve_release free s.blocks
    have next : chunk * bitPerBlock + bitPerBlock = (chunk + 1) * bitPerBlock := by ring
    rw [allocLoop, Prog.stop_bind, run_acquire, acquired]
    simp only [none, Prog.stop_bind, run_release, released]
    by_cases small : chunk * bitPerBlock + bitPerBlock < 2 ^ 31
    · rw [if_pos small, next]
      exact ih (by omega) (by omega)
    · rw [if_neg small, if_neg (by rw [size] at *; omega)]
      rfl

/-- Where all blocks are marked, `cache_alloc` panics, or `blockstart` overflows. -/
theorem cacheAlloc_stop (fits : sblock.BitmapFits) (ready : s.Allocatable sblock) (ctx : Ctx)
    (full : ∀ blockNo, blockNo < sblock.numBlocks → s.used sblock blockNo = true) :
    (cacheAlloc sblock ctx).stop Store.serve s =
      some (if sblock.numBlocks ≤ 2 ^ 31 - bitPerBlock then .panic else .overflow) := by
  have locked : Store.serve .lockBitmap s = some ((), { s with bitmapLock := true }) := by
    simp [Store.serve, ready.unlocked]
    rfl
  have limit : sblock.allocLimit = sblock.numBlocks := if_pos fits.blocks
  have loop := allocLoop_stop fits ready ctx full (Nat.zero_add _).symm (by decide)
  rw [cacheAlloc, Prog.stop_bind, run_lockBitmap, locked, limit]
  rwa [Nat.zero_mul] at loop

end Full

/-! ## Sequences of calls -/

/-- A block of the bitmap. -/
def SuperBlock.InBitmap (sblock : SuperBlock) (blockNo : Nat) : Prop :=
  sblock.bitmapStart ≤ blockNo ∧
    blockNo < sblock.bitmapStart + (sblock.numBlocks + bitPerBlock - 1) / bitPerBlock

instance (sblock : SuperBlock) (blockNo : Nat) : Decidable (sblock.InBitmap blockNo) :=
  inferInstanceAs (Decidable (_ ∧ _))

/-- The bitmap is on the disk it describes. -/
def SuperBlock.BitmapInside (sblock : SuperBlock) : Prop :=
  sblock.bitmapStart + (sblock.numBlocks + bitPerBlock - 1) / bitPerBlock ≤ sblock.numBlocks

instance (sblock : SuperBlock) : Decidable sblock.BitmapInside :=
  inferInstanceAs (Decidable (_ ≤ _))

namespace Allocator

/-- The blocks, and those allocated and not yet freed. -/
structure State where
  store : Store
  /-- The blocks allocated and not yet freed. -/
  live : List Nat

/-- The calls. -/
inductive Act where
  | alloc (ctx : Ctx)
  | free (ctx : Ctx) (blockNo : Nat)

/-- The effect of a call. Blocks are freed that are on the disk and marked. -/
def State.step (sblock : SuperBlock) (s : State) : Act → Option State
  | .alloc ctx => ((cacheAlloc sblock ctx).run Store.serve s.store).map fun result =>
    ⟨result.2, result.1 :: s.live⟩
  | .free ctx blockNo =>
    if blockNo < sblock.numBlocks ∧ s.store.used sblock blockNo = true then
      ((cacheFree sblock ctx blockNo).run Store.serve s.store).map fun result =>
        ⟨result.2, s.live.filter (· ≠ blockNo)⟩
    else none

/-- Nobody has acquired anything, the blocks of the bitmap are marked, and nothing is allocated. -/
structure State.Initial (sblock : SuperBlock) (s : State) : Prop where
  held : ∀ blockNo, s.store.held blockNo = false
  unlocked : s.store.bitmapLock = false
  bitmap : ∀ blockNo, sblock.InBitmap blockNo → s.store.used sblock blockNo = true
  live : s.live = []

/-- Calls one after the other. -/
def machine (sblock : SuperBlock) : Machine State Act where
  init := State.Initial sblock
  step := State.step sblock

/-- No block of the bitmap is freed. -/
def KeepsBitmap (sblock : SuperBlock) (_ : State) : Act → Prop
  | .alloc _ => True
  | .free _ blockNo => ¬ sblock.InBitmap blockNo

instance (sblock : SuperBlock) (s : State) (act : Act) : Decidable (KeepsBitmap sblock s act) :=
  match act with
  | .alloc _ => isTrue trivial
  | .free _ _ => inferInstanceAs (Decidable (¬ _))

section Runs

variable {sblock : SuperBlock} {s : State}

/-- What the calls keep. -/
structure Sound (sblock : SuperBlock) (s : State) : Prop where
  held : ∀ blockNo, s.store.held blockNo = false
  unlocked : s.store.bitmapLock = false
  bitmap : ∀ blockNo, sblock.InBitmap blockNo → s.store.used sblock blockNo = true
  used : ∀ blockNo ∈ s.live, blockNo < sblock.numBlocks ∧ s.store.used sblock blockNo = true
  distinct : s.live.Nodup

theorem bitmapFits (inside : sblock.BitmapInside) (below : sblock.numBlocks < 2 ^ 31) :
    sblock.BitmapFits := by
  have size : bitPerBlock = 4096 := rfl
  unfold SuperBlock.BitmapInside at inside
  refine ⟨below, ?_⟩
  rw [size] at inside ⊢
  omega

theorem Sound.allocatable (sound : Sound sblock s) : s.store.Allocatable sblock :=
  ⟨sound.unlocked, fun _ _ => sound.held _, fun _ _ _ => sound.held _⟩

/-- The mark of a block on the disk is in a block of the bitmap. -/
theorem inBitmap_freeBlock
    (narrow : sblock.bitmapStart + sblock.numBlocks / bitPerBlock < 2 ^ 32) {blockNo : Nat}
    (onDisk : blockNo < sblock.numBlocks) : sblock.InBitmap (sblock.freeBlock blockNo) := by
  have size : bitPerBlock = 4096 := rfl
  rw [SuperBlock.freeBlock_eq narrow onDisk, SuperBlock.InBitmap, size]
  omega

/-- What `cache_alloc` does where not all blocks are marked. -/
structure Allocates (sblock : SuperBlock) (s s' : Store) (blockNo : Nat) : Prop where
  onDisk : blockNo < sblock.numBlocks
  clear : s.used sblock blockNo = false
  first : ∀ earlier, earlier < blockNo → s.used sblock earlier = true
  marks : ∀ other, other < sblock.numBlocks →
    s'.used sblock other = (decide (blockNo = other) || s.used sblock other)
  zero : s'.blocks blockNo = .zero

theorem Sound.alloc_cases (sound : Sound sblock s) (fits : sblock.BitmapFits) (ctx : Ctx) :
    (∃ blockNo, (cacheAlloc sblock ctx).run Store.serve s.store =
        some (blockNo, s.store.allocate sblock blockNo) ∧
      Allocates sblock s.store (s.store.allocate sblock blockNo) blockNo) ∨
    ((∀ blockNo, blockNo < sblock.numBlocks → s.store.used sblock blockNo = true) ∧
      (cacheAlloc sblock ctx).run Store.serve s.store = none) := by
  obtain ⟨blockNo, onDisk, clear, first, done⟩ | full := cacheAlloc_run fits sound.allocatable ctx
  · refine .inl ⟨blockNo, done, onDisk, clear, first, fun other onDisk' => ?_, ?_⟩
    · refine Store.used_allocate fits.bitmap onDisk onDisk' fun same => ?_
      have set := sound.bitmap _ (inBitmap_freeBlock fits.bitmap onDisk')
      rw [same, clear] at set
      contradiction
    · exact Function.update_self ..
  · exact .inr full

theorem Sound.step (fits : sblock.BitmapFits) (inside : sblock.BitmapInside)
    (sound : Sound sblock s) {act : Act} {s' : State}
    (met : KeepsBitmap sblock s act) (taken : s.step sblock act = some s') : Sound sblock s' := by
  have onDisk : ∀ blockNo, sblock.InBitmap blockNo → blockNo < sblock.numBlocks := fun _ within =>
    Nat.lt_of_lt_of_le within.2 inside
  cases act with
  | alloc ctx =>
    obtain ⟨⟨blockNo, store⟩, done, rfl⟩ := Option.map_eq_some_iff.mp taken
    obtain ⟨blockNo', done', fresh⟩ | ⟨-, stuck⟩ := sound.alloc_cases fits ctx
    · obtain ⟨rfl, rfl⟩ := Prod.mk.inj (Option.some.inj (done.symm.trans done'))
      refine ⟨sound.held, sound.unlocked, fun other within => ?_, fun other member => ?_, ?_⟩
      · rw [fresh.marks other (onDisk other within), sound.bitmap other within, Bool.or_true]
      · obtain rfl | member := List.mem_cons.mp member
        · exact ⟨fresh.onDisk, by rw [fresh.marks _ fresh.onDisk]; simp⟩
        · obtain ⟨valid, set⟩ := sound.used other member
          exact ⟨valid, by rw [fresh.marks other valid, set, Bool.or_true]⟩
      · refine List.nodup_cons.mpr ⟨fun member => ?_, sound.distinct⟩
        have set := (sound.used _ member).2
        rw [fresh.clear] at set
        contradiction
    · rw [stuck] at done
      contradiction
  | free ctx blockNo =>
    obtain ⟨⟨valid, set⟩, freed⟩ := Option.ite_none_right_eq_some.mp taken
    obtain ⟨⟨⟨⟩, store⟩, done, rfl⟩ := Option.map_eq_some_iff.mp freed
    rw [cacheFree_run sound.unlocked (sound.held _) ctx] at done
    obtain ⟨-, rfl⟩ := Prod.mk.inj (Option.some.inj done)
    have keeps : ∀ other, other < sblock.numBlocks → other ≠ blockNo →
        s.store.used sblock other = true →
        (s.store.unmark sblock blockNo).used sblock other = true := by
      intro other valid' differ set'
      rw [Store.used_unmark fits.bitmap valid valid' set, set', decide_eq_true differ.symm]
      rfl
    refine ⟨sound.held, sound.unlocked, fun other within => ?_, fun other member => ?_,
      sound.distinct.filter _⟩
    · exact keeps other (onDisk other within) (fun same => met (same ▸ within))
        (sound.bitmap other within)
    · obtain ⟨member, differ⟩ := List.mem_filter.mp member
      obtain ⟨valid', set'⟩ := sound.used other member
      exact ⟨valid', keeps other valid' (by simpa using differ) set'⟩

theorem sound_of_reach (fits : sblock.BitmapFits) (inside : sblock.BitmapInside)
    (reached : (machine sblock).Reach (KeepsBitmap sblock) s) : Sound sblock s := by
  refine reached.invariant (P := Sound sblock) ?_ ?_
  · intro s initial
    exact ⟨initial.held, initial.unlocked, initial.bitmap, by simp [initial.live],
      by simp [initial.live]⟩
  · exact fun s act s' _ sound met taken => sound.step fits inside met taken

/-- `cache_alloc` returns the first block that is not marked, marks it and no other and clears it;
it panics where all blocks are marked and nowhere else; `cache_free` takes away one mark; and the
blocks allocated and not yet freed are distinct. -/
theorem block_allocator (inside : sblock.BitmapInside)
    (below : sblock.numBlocks ≤ 2 ^ 31 - bitPerBlock)
    (reached : (machine sblock).Reach (KeepsBitmap sblock) s) :
    (∀ ctx, ((∃ blockNo, blockNo < sblock.numBlocks ∧ s.store.used sblock blockNo = false) →
        ∃ blockNo store, (cacheAlloc sblock ctx).run Store.serve s.store = some (blockNo, store) ∧
          Allocates sblock s.store store blockNo) ∧
      ((cacheAlloc sblock ctx).stop Store.serve s.store = some .panic ↔
        ∀ blockNo, blockNo < sblock.numBlocks → s.store.used sblock blockNo = true)) ∧
    (∀ ctx blockNo, blockNo < sblock.numBlocks → s.store.used sblock blockNo = true →
      ∃ store, (cacheFree sblock ctx blockNo).run Store.serve s.store = some ((), store) ∧
        ∀ other, other < sblock.numBlocks →
          store.used sblock other = (decide (blockNo ≠ other) && s.store.used sblock other)) ∧
    s.live.Nodup := by
  have size : bitPerBlock = 4096 := rfl
  have fits := bitmapFits inside (by rw [size] at below; omega)
  have sound := sound_of_reach fits inside reached
  refine ⟨fun ctx => ⟨?_, ?_, fun full => ?_⟩, fun ctx blockNo valid set => ?_, sound.distinct⟩
  · rintro ⟨blockNo, valid, clear⟩
    obtain ⟨found, done, fresh⟩ | ⟨full, -⟩ := sound.alloc_cases fits ctx
    · exact ⟨found, _, done, fresh⟩
    · rw [full blockNo valid] at clear
      contradiction
  · intro panics
    obtain ⟨found, done, -⟩ | ⟨full, -⟩ := sound.alloc_cases fits ctx
    · rw [Prog.stop_of_run done] at panics
      contradiction
    · exact full
  · rw [cacheAlloc_stop fits sound.allocatable ctx full, if_pos below]
  · exact ⟨_, cacheFree_run sound.unlocked (sound.held _) ctx, fun other valid' =>
      Store.used_unmark fits.bitmap valid valid' set⟩

end Runs

/-- A disk of 40 blocks with its bitmap in block 2. -/
def smallDisk : SuperBlock :=
  { numBlocks := 40, numDataBlocks := 37, numInodes := 0, numLogBlocks := 0, logStart := 2
    inodeStart := 2, bitmapStart := 2 }

/-- Its first three blocks are marked. -/
def smallStart : State :=
  { store :=
      { blocks := fun blockNo => if blockNo = 2 then .ofFn fun i => if i = 0 then 7 else 0 else .zero
        held := fun _ => false
        bitmapLock := false }
    live := [] }

theorem smallStart_initial : (machine smallDisk).init smallStart := by
  refine ⟨fun _ => rfl, rfl, ?_, rfl⟩
  rintro blockNo ⟨low, high⟩
  obtain rfl : blockNo = 2 := Nat.le_antisymm (Nat.le_of_lt_succ high) low
  decide +kernel

/-- A block that was freed is allocated again. -/
theorem block_allocator_reuse :
    ∃ s, (machine smallDisk).Reach (KeepsBitmap smallDisk) s ∧ s.live = [3, 4] ∧ s.live.Nodup := by
  have shown : ((machine smallDisk).exec (KeepsBitmap smallDisk) smallStart
      [.alloc .op, .alloc .op, .free .op 3, .alloc .null]).map State.live = some [3, 4] := by
    decide +kernel
  obtain ⟨s, reached, live⟩ := Machine.Reach.exec_map smallStart_initial shown
  exact ⟨s, reached, live, (block_allocator (by decide) (by decide) reached).2.2⟩

/-- The largest disk for which the number of blocks is an `int`. -/
def largestDisk : SuperBlock :=
  { numBlocks := 2 ^ 31 - 1, numDataBlocks := 2 ^ 31 - 1 - 2 - 2 ^ 19, numInodes := 0
    numLogBlocks := 0, logStart := 2, inodeStart := 2, bitmapStart := 2 }

/-- All its blocks are marked. -/
def fullStart : State :=
  { store :=
      { blocks := fun _ => .ofFn fun _ => 255
        held := fun _ => false
        bitmapLock := false }
    live := [] }

theorem fullStart_used (blockNo : Nat) : fullStart.store.used largestDisk blockNo = true := by
  have small : blockNo % bitPerBlock / 8 < blockSize := by
    have below : blockNo % bitPerBlock < bitPerBlock := Nat.mod_lt _ (by decide)
    exact Nat.div_lt_of_lt_mul (Nat.mul_comm _ _ ▸ below)
  have bits : ∀ i, i < 8 → bitSet 255 i = true := by decide
  rw [Store.used, marked, fullStart, Bytes.get_ofFn small]
  exact bits _ (Nat.mod_lt _ (by decide))

/-- On the largest disk, where all blocks are marked, `cache_alloc` does not panic: `blockstart`
overflows. -/
theorem full_disk_overflows :
    largestDisk.numBlocks < 2 ^ 31 ∧ largestDisk.BitmapInside ∧
      (machine largestDisk).Reach (KeepsBitmap largestDisk) fullStart ∧
      (∀ blockNo, blockNo < largestDisk.numBlocks →
        fullStart.store.used largestDisk blockNo = true) ∧
      (cacheAlloc largestDisk .op).stop Store.serve fullStart.store = some .overflow := by
  have inside : largestDisk.BitmapInside := by decide
  have fits := bitmapFits inside (by decide)
  have initial : (machine largestDisk).init fullStart :=
    ⟨fun _ => rfl, rfl, fun blockNo _ => fullStart_used blockNo, rfl⟩
  have sound := sound_of_reach fits inside (.start initial)
  have stops := cacheAlloc_stop fits sound.allocatable .op fun blockNo _ => fullStart_used blockNo
  exact ⟨by decide, inside, .start initial, fun blockNo _ => fullStart_used blockNo, stops⟩

end Allocator

end OsLab.Fs
