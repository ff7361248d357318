import OsLab.Aarch64.Mmu
import OsLab.Fs.Store
import OsLab.Lib.Transition
import Mathlib.Data.Finset.Card

/-!
# Swap slots

`find_and_set_8_blocks` and `release_8_blocks` of `src/fs/cache.c`, and the transfers of pages
of `src/kernel/mem.c` that use them. A slot is eight blocks of the device from `SWAP_START` on,
which `inuse` keeps track of. The file system knows nothing of them: the image that `mkfs` writes
reaches to `FSSIZE`, which is `SWAP_END`, and `cache_alloc` gives out any block below. The two
allocators stay apart only as long as the file system is small.
-/
namespace OsLab.Fs.Swap

open OsLab.Lib OsLab.Aarch64

/-- `SWAP_START`. -/
def swapStart : Nat := 800

/-- `SWAP_END`. -/
def swapEnd : Nat := 1000

/-- The eight entries of `inuse` from `i` on are clear. -/
def windowFree (inuse : Nat → Bool) (i : Nat) : Bool := (List.range 8).all fun j => !inuse (i + j)

/-- `find_and_set_8_blocks`: the first block of the slot and the table after; `none` is its
PANIC. -/
def findAndSet8Blocks (inuse : Nat → Bool) : Option (Nat × (Nat → Bool)) :=
  ((List.range (swapEnd - swapStart - 8)).find? (windowFree inuse)).map fun i =>
    (swapStart + i, fun k => if i ≤ k ∧ k < i + 8 then true else inuse k)

/-- `release_8_blocks`, which computes in 32 bits. -/
def release8Blocks (inuse : Nat → Bool) (bno : Nat) : Nat → Bool :=
  let bno := (bno + 2 ^ 32 - swapStart) % 2 ^ 32
  fun k => if bno ≤ k ∧ k < bno + 8 then false else inuse k

/-- The bytes `ka + i * 512` on of a page, as much as a block holds. -/
def pagePart (page : Page) (i : Nat) : BlockData :=
  Bytes.ofFn fun byte => page.get (i * 512 + byte)

/-- The first `count` turns of the loop of `write_page_to_disk`. -/
def writeBlocks (disk : Disk) (bno : Nat) (page : Page) : Nat → Disk
  | 0 => disk
  | i + 1 => Function.update (writeBlocks disk bno page i) (bno + i) (pagePart page i)

/-- `write_page_to_disk`: the slot, and the table and the device after. -/
def writePageToDisk (inuse : Nat → Bool) (disk : Disk) (page : Page) :
    Option (Nat × (Nat → Bool) × Disk) :=
  (findAndSet8Blocks inuse).map fun (bno, inuse) => (bno, inuse, writeBlocks disk bno page 8)

/-- `read_page_from_disk`: each part of the page is the next block, counted in 32 bits. -/
def readPageFromDisk (disk : Disk) (bno : Nat) : Page :=
  Bytes.ofFn fun index => (disk ((bno + index / 512) % 2 ^ 32)).get (index % 512)

/-- A slot found was free and lies in the swap area. -/
theorem findAndSet8Blocks_some {inuse inuse' : Nat → Bool} {bno : Nat}
    (found : findAndSet8Blocks inuse = some (bno, inuse')) :
    ∃ i, bno = swapStart + i ∧ i + 8 < swapEnd - swapStart ∧
      (∀ j, j < 8 → inuse (i + j) = false) ∧
      inuse' = fun k => if i ≤ k ∧ k < i + 8 then true else inuse k := by
  simp only [findAndSet8Blocks, Option.map_eq_some_iff, Prod.mk.injEq] at found
  obtain ⟨i, first, rfl, rfl⟩ := found
  have inside := List.mem_range.mp (List.mem_of_find?_eq_some first)
  have free := List.find?_some first
  simp only [windowFree, List.all_eq_true, List.mem_range, Bool.not_eq_eq_eq_not,
    Bool.not_true] at free
  refine ⟨i, rfl, ?_, free, rfl⟩
  simp only [swapEnd, swapStart] at inside ⊢
  omega

/-- What the loop of `write_page_to_disk` has written. -/
theorem writeBlocks_apply (disk : Disk) (bno : Nat) (page : Page) (count blockNo : Nat) :
    writeBlocks disk bno page count blockNo =
      if bno ≤ blockNo ∧ blockNo < bno + count then pagePart page (blockNo - bno)
      else disk blockNo := by
  induction count with
  | zero => rw [writeBlocks, if_neg (by omega)]
  | succ i ih =>
    rw [writeBlocks]
    by_cases same : blockNo = bno + i
    · rw [same, Function.update_self, if_pos (by omega), Nat.add_sub_cancel_left]
    · rw [Function.update_of_ne same, ih]
      by_cases inside : bno ≤ blockNo ∧ blockNo < bno + i
      · rw [if_pos inside, if_pos (by omega)]
      · rw [if_neg inside, if_neg (by omega)]

/-! ## Whole slots -/

/-- The slots are taken and given back as a whole: blocks are in use by eight. -/
def Aligned (inuse : Nat → Bool) : Prop := ∀ i, inuse i = inuse (8 * (i / 8))

/-- The number of slots in use, of the 24 that `find_and_set_8_blocks` gives out. -/
def usedSlots (inuse : Nat → Bool) : Nat :=
  ((Finset.range 24).filter fun slot => inuse (8 * slot) = true).card

/-- The table with a slot in use. -/
def setSlot (inuse : Nat → Bool) (slot : Nat) (value : Bool) : Nat → Bool := fun k =>
  if 8 * slot ≤ k ∧ k < 8 * slot + 8 then value else inuse k

/-- The slots of a table in which one was changed. -/
theorem setSlot_slot (inuse : Nat → Bool) (slot other : Nat) (value : Bool) :
    setSlot inuse slot value (8 * other) = if other = slot then value else inuse (8 * other) := by
  simp only [setSlot]
  by_cases same : other = slot
  · rw [if_pos (by omega), if_pos same]
  · rw [if_neg (by omega), if_neg same]

/-- Changing a slot changes a whole one. -/
theorem Aligned.setSlot {inuse : Nat → Bool} (aligned : Aligned inuse) (slot : Nat)
    (value : Bool) : Aligned (Swap.setSlot inuse slot value) := by
  intro i
  rw [setSlot_slot]
  simp only [Swap.setSlot]
  by_cases inside : i / 8 = slot
  · rw [if_pos inside, if_pos (by omega)]
  · rw [if_neg inside, if_neg (by omega)]
    exact aligned i

/-- Taking a slot uses one more. -/
theorem usedSlots_take {inuse : Nat → Bool} {slot : Nat} (inside : slot < 24)
    (free : inuse (8 * slot) = false) :
    usedSlots (setSlot inuse slot true) = usedSlots inuse + 1 := by
  have filtered : (Finset.range 24).filter (fun k => setSlot inuse slot true (8 * k) = true) =
      insert slot ((Finset.range 24).filter fun k => inuse (8 * k) = true) := by
    ext k
    simp only [Finset.mem_filter, Finset.mem_range, Finset.mem_insert, setSlot_slot]
    by_cases same : k = slot
    · simp [same, inside]
    · simp [same]
  rw [usedSlots, filtered, Finset.card_insert_of_notMem (by simp [free]), usedSlots]

/-- As long as slots are whole and one is free, a free one is found. -/
theorem findAndSet8Blocks_aligned {inuse : Nat → Bool} (aligned : Aligned inuse)
    (room : usedSlots inuse < 24) :
    ∃ slot, slot < 24 ∧ inuse (8 * slot) = false ∧
      findAndSet8Blocks inuse = some (swapStart + 8 * slot, setSlot inuse slot true) := by
  have window : ∀ i, i % 8 = 0 → (windowFree inuse i = true ↔ inuse i = false) := by
    intro i whole
    simp only [windowFree, List.all_eq_true, List.mem_range, Bool.not_eq_eq_eq_not, Bool.not_true]
    refine ⟨fun free => free 0 (by decide), fun free j small => ?_⟩
    rw [aligned, show 8 * ((i + j) / 8) = i by omega]
    exact free
  obtain ⟨free, inside, unused⟩ : ∃ slot, slot < 24 ∧ inuse (8 * slot) = false := by
    by_contra none
    push Not at none
    have all : (Finset.range 24).filter (fun k => inuse (8 * k) = true) = Finset.range 24 :=
      Finset.filter_true_of_mem fun k member => by
        simpa using none k (Finset.mem_range.mp member)
    rw [usedSlots, all, Finset.card_range] at room
    omega
  have size : swapEnd - swapStart - 8 = 192 := rfl
  cases first : (List.range (swapEnd - swapStart - 8)).find? (windowFree inuse) with
  | none =>
    have absent := List.find?_eq_none.mp first (8 * free) (List.mem_range.mpr (by omega))
    exact absurd ((window (8 * free) (by omega)).mpr unused) absent
  | some i =>
    obtain ⟨fits, small, earlier⟩ := List.find?_range_eq_some.mp first
    rw [size, List.mem_range] at small
    -- The first window starts at a slot, since the slot that it starts in is free as a whole.
    have whole : i % 8 = 0 := by
      by_contra odd
      have start := (List.all_eq_true.mp fits) 0 (by decide)
      simp only [Nat.add_zero, Bool.not_eq_eq_eq_not, Bool.not_true] at start
      have before := earlier (8 * (i / 8)) (by omega)
      rw [aligned] at start
      rw [(window _ (by omega)).mpr start] at before
      simp at before
    have slot : 8 * (i / 8) = i := by omega
    refine ⟨i / 8, by omega, ?_, ?_⟩
    · rw [slot]
      exact (window i whole).mp fits
    · have table : setSlot inuse (i / 8) true =
          fun k => if i ≤ k ∧ k < i + 8 then true else inuse k := by
        funext k
        simp only [setSlot, slot]
      simp only [findAndSet8Blocks, first, Option.map_some, slot, table]

/-- `release_8_blocks` of a slot. -/
theorem release8Blocks_slot {inuse : Nat → Bool} {slot : Nat} (inside : slot < 24) :
    release8Blocks inuse (swapStart + 8 * slot) = setSlot inuse slot false := by
  have index : (swapStart + 8 * slot + 2 ^ 32 - swapStart) % 2 ^ 32 = 8 * slot := by
    simp only [swapStart]
    omega
  simp only [release8Blocks, index]
  rfl

/-! ## Runs of the allocator of slots -/

/-- The table of blocks in use, with the slots that were returned and not released since. -/
structure Slots where
  inuse : Nat → Bool
  /-- The first blocks of the slots, last one first. -/
  slots : List Nat

namespace Slots

/-- The calls. -/
inductive Call where
  /-- `find_and_set_8_blocks`. -/
  | find
  /-- `release_8_blocks` of a slot that was returned. -/
  | release (bno : Nat)

/-- One call; `none` is the PANIC of `find_and_set_8_blocks`. -/
def step (s : Slots) : Call → Option Slots
  | .find =>
    (findAndSet8Blocks s.inuse).map fun (bno, inuse) => ⟨inuse, bno :: s.slots⟩
  | .release bno =>
    if bno ∈ s.slots then some ⟨release8Blocks s.inuse bno, s.slots.erase bno⟩ else none

/-- The allocator of slots from the start of the kernel on. -/
def machine : Machine Slots Call where
  init s := (∀ k, s.inuse k = false) ∧ s.slots = []
  step := step

/-- The slots given out are those in use, which are whole. -/
structure Whole (s : Slots) : Prop where
  aligned : Aligned s.inuse
  tail : ∀ slot, 24 ≤ slot → s.inuse (8 * slot) = false
  nodup : s.slots.Nodup
  mem_slots : ∀ bno, bno ∈ s.slots ↔ ∃ slot, bno = swapStart + 8 * slot ∧ s.inuse (8 * slot) = true

namespace Whole

variable {s s' : Slots}

/-- A slot in use is one of the 24. -/
theorem slot_lt (whole : Whole s) {slot : Nat} (used : s.inuse (8 * slot) = true) : slot < 24 := by
  by_contra far
  rw [whole.tail slot (by omega)] at used
  exact absurd used (by decide)

/-- As many slots are in use as were given out. -/
theorem length_slots (whole : Whole s) : s.slots.length = usedSlots s.inuse := by
  have same : s.slots.toFinset = ((Finset.range 24).filter fun slot =>
      s.inuse (8 * slot) = true).image (swapStart + 8 * ·) := by
    ext bno
    simp only [List.mem_toFinset, whole.mem_slots, Finset.mem_image, Finset.mem_filter,
      Finset.mem_range]
    constructor
    · rintro ⟨slot, rfl, used⟩
      exact ⟨slot, ⟨whole.slot_lt used, used⟩, rfl⟩
    · rintro ⟨slot, ⟨-, used⟩, rfl⟩
      exact ⟨slot, rfl, used⟩
  rw [← List.toFinset_card_of_nodup whole.nodup, same, usedSlots]
  exact Finset.card_image_of_injective _ fun one other equal => by
    simpa using equal

/-- Changing a slot keeps the others as they are. -/
theorem change (whole : Whole s) {slot : Nat} (inside : slot < 24) (value : Bool)
    {slots : List Nat} (nodup : slots.Nodup)
    (others : ∀ bno, bno ∈ slots ↔
      (bno = swapStart + 8 * slot ∧ value = true) ∨ (bno ≠ swapStart + 8 * slot ∧ bno ∈ s.slots)) :
    Whole ⟨setSlot s.inuse slot value, slots⟩ := by
  refine ⟨whole.aligned.setSlot slot value, fun other far => ?_, nodup, fun bno => ?_⟩
  · change Swap.setSlot s.inuse slot value (8 * other) = false
    rw [setSlot_slot, if_neg (by omega)]
    exact whole.tail other far
  · simp only [others, whole.mem_slots, setSlot_slot]
    constructor
    · rintro (⟨rfl, rfl⟩ | ⟨different, other, rfl, used⟩)
      · exact ⟨slot, rfl, if_pos rfl⟩
      · exact ⟨other, rfl, by rwa [if_neg (by rintro rfl; exact different rfl)]⟩
    · rintro ⟨other, rfl, used⟩
      by_cases same : other = slot
      · subst same
        exact .inl ⟨rfl, by rwa [if_pos rfl] at used⟩
      · rw [if_neg same] at used
        exact .inr ⟨by omega, other, rfl, used⟩

/-- As long as one of the 24 slots is free, `find_and_set_8_blocks` returns one. -/
theorem find (whole : Whole s) (room : s.slots.length < 24) :
    ∃ slot, slot < 24 ∧ s.inuse (8 * slot) = false ∧
      findAndSet8Blocks s.inuse = some (swapStart + 8 * slot, setSlot s.inuse slot true) :=
  findAndSet8Blocks_aligned whole.aligned (whole.length_slots ▸ room)

/-- Once the 24 slots are in use, every window that `find_and_set_8_blocks` looks at has a block
in use. -/
theorem full (whole : Whole s) (all : ¬ s.slots.length < 24) : findAndSet8Blocks s.inuse = none := by
  have used : ∀ slot, slot < 24 → s.inuse (8 * slot) = true := by
    intro slot inside
    by_contra free
    have fewer : usedSlots s.inuse < 24 := by
      have grown := usedSlots_take inside (by simpa using free)
      have most : usedSlots (setSlot s.inuse slot true) ≤ 24 :=
        (Finset.card_filter_le _ _).trans_eq (Finset.card_range 24)
      omega
    exact all (whole.length_slots ▸ fewer)
  rw [findAndSet8Blocks, Option.map_eq_none_iff, List.find?_eq_none]
  intro i inside free
  have small : i < 192 := List.mem_range.mp inside
  have start := (List.all_eq_true.mp free) 0 (by decide)
  rw [Nat.add_zero, whole.aligned, used (i / 8) (by omega)] at start
  exact absurd start (by decide)

/-- Every call keeps the slots whole. -/
theorem step (whole : Whole s) {call : Call} (taken : s.step call = some s') : Whole s' := by
  cases call with
  | find =>
    simp only [Slots.step, Option.map_eq_some_iff, Prod.exists] at taken
    obtain ⟨bno, inuse, found, rfl⟩ := taken
    have room : s.slots.length < 24 := by
      by_contra all
      rw [whole.full all] at found
      exact absurd found (by simp)
    obtain ⟨slot, inside, free, found'⟩ := whole.find room
    obtain ⟨rfl, rfl⟩ := Prod.mk.inj (Option.some.inj (found.symm.trans found'))
    have new : swapStart + 8 * slot ∉ s.slots := by
      rw [whole.mem_slots]
      rintro ⟨other, same, used⟩
      obtain rfl : other = slot := by omega
      rw [free] at used
      exact absurd used (by decide)
    refine whole.change inside true (List.nodup_cons.mpr ⟨new, whole.nodup⟩) fun bno => ?_
    rw [List.mem_cons, and_iff_left rfl]
    by_cases here : bno = swapStart + 8 * slot <;> simp [here, new]
  | release bno =>
    simp only [Slots.step, Option.ite_none_right_eq_some, Option.some.injEq] at taken
    obtain ⟨member, rfl⟩ := taken
    obtain ⟨slot, rfl, used⟩ := (whole.mem_slots bno).mp member
    have inside := whole.slot_lt used
    rw [release8Blocks_slot inside]
    refine whole.change inside false (whole.nodup.erase _) fun bno => ?_
    rw [whole.nodup.mem_erase_iff]
    simp

/-- Every state of a run. -/
theorem of_reach (reached : machine.Reach Machine.Any s) : Whole s := by
  refine reached.invariant (P := Whole) ?_ fun s call s' _ whole _ taken => whole.step taken
  rintro s ⟨clear, none⟩
  exact ⟨fun i => by rw [clear, clear], fun slot _ => clear _, by simp [none], by simp [none, clear]⟩

end Whole

/-- The allocator of slots in every run of its calls: slots returned and not released lie in the
swap area, are apart from each other, and are what is marked in `inuse`; and as long as fewer than
24 are in use, `find_and_set_8_blocks` finds eight free blocks. -/
theorem slots_apart_and_found {s : Slots} (reached : machine.Reach Machine.Any s) :
    (∀ bno ∈ s.slots, swapStart ≤ bno ∧ bno + 8 ≤ swapEnd) ∧
    s.slots.Pairwise (fun bno other => bno + 8 ≤ other ∨ other + 8 ≤ bno) ∧
    (∀ blockNo, swapStart ≤ blockNo → (s.inuse (blockNo - swapStart) = true ↔
      ∃ bno ∈ s.slots, bno ≤ blockNo ∧ blockNo < bno + 8)) ∧
    (s.slots.length < 24 → ∃ bno inuse, findAndSet8Blocks s.inuse = some (bno, inuse) ∧
      swapStart ≤ bno ∧ bno + 8 ≤ swapEnd ∧
      ∀ blockNo, bno ≤ blockNo → blockNo < bno + 8 → s.inuse (blockNo - swapStart) = false) := by
  have whole := Whole.of_reach reached
  refine ⟨fun bno member => ?_, ?_, fun blockNo far => ?_, fun room => ?_⟩
  · obtain ⟨slot, rfl, used⟩ := (whole.mem_slots bno).mp member
    have inside := whole.slot_lt used
    simp only [swapStart, swapEnd]
    omega
  · refine whole.nodup.imp_of_mem fun member member' different => ?_
    obtain ⟨slot, rfl, -⟩ := (whole.mem_slots _).mp member
    obtain ⟨other, rfl, -⟩ := (whole.mem_slots _).mp member'
    omega
  · rw [whole.aligned]
    constructor
    · intro used
      exact ⟨_, (whole.mem_slots _).mpr ⟨_, rfl, used⟩, by omega, by omega⟩
    · rintro ⟨bno, member, first, last⟩
      obtain ⟨slot, rfl, used⟩ := (whole.mem_slots bno).mp member
      rwa [show (blockNo - swapStart) / 8 = slot by omega]
  · obtain ⟨slot, inside, free, found⟩ := whole.find room
    refine ⟨_, _, found, by omega, by simp only [swapStart, swapEnd]; omega, ?_⟩
    intro blockNo first last
    rw [whole.aligned, show (blockNo - swapStart) / 8 = slot by omega]
    exact free

/-- At the start no slot is in use. -/
theorem start : machine.init ⟨fun _ => false, []⟩ := ⟨fun _ => rfl, rfl⟩

/-- A slot that was released is given out again, beside one that was not. -/
theorem slots_reused : ∃ s, machine.Reach Machine.Any s ∧ s.slots = [800, 808] ∧
    s.slots.Pairwise (fun bno other => bno + 8 ≤ other ∨ other + 8 ≤ bno) := by
  have shown : (machine.exec Machine.Any ⟨fun _ => false, []⟩
      [.find, .find, .release 800, .find]).map Slots.slots = some [800, 808] := by
    decide +kernel
  obtain ⟨s, reached, slots⟩ := Machine.Reach.exec_map start shown
  exact ⟨s, reached, slots, (slots_apart_and_found reached).2.1⟩

/-- With 24 slots in use the search stops before the last eight blocks of the swap area, which are
free. -/
theorem last_slot_not_found : ∃ s, machine.Reach Machine.Any s ∧ findAndSet8Blocks s.inuse = none ∧
    ∀ blockNo, 992 ≤ blockNo → blockNo < swapEnd → s.inuse (blockNo - swapStart) = false := by
  have shown : (machine.exec Machine.Any ⟨fun _ => false, []⟩ (List.replicate 24 .find)).map
      (fun s => (findAndSet8Blocks s.inuse).isNone && windowFree s.inuse 192) = some true := by
    decide +kernel
  obtain ⟨s, reached, observed⟩ := Machine.Reach.exec_map start shown
  rw [Bool.and_eq_true, Option.isNone_iff_eq_none] at observed
  refine ⟨s, reached, observed.1, fun blockNo first last => ?_⟩
  have free := (List.all_eq_true.mp observed.2) (blockNo - 992)
    (List.mem_range.mpr (by simp only [swapEnd] at last; omega))
  rw [show 192 + (blockNo - 992) = blockNo - swapStart by simp only [swapStart]; omega] at free
  simpa using free

end Slots

/-! ## The file system beside the swap area -/

/-- The bitmap that `balloc` of `mkfs` writes. -/
def balloc (used : Nat) : BlockData :=
  (List.range used).foldl (fun buf i => changeByte buf (i / 8) (markBit · (i % 8))) .zero

/-- `balloc` marks the blocks before `used`. -/
theorem marked_balloc {used index : Nat} (inside : index < bitPerBlock) :
    marked (balloc used) index = decide (index < used) := by
  induction used with
  | zero => simp [balloc, marked, bitSet]
  | succ used ih =>
    have grown : balloc (used + 1) =
        changeByte (balloc used) (used / 8) (markBit · (used % 8)) := by
      simp [balloc, List.range_succ]
    rw [grown, marked_markBit inside, ih, ← Bool.decide_or]
    congr 1
    exact propext (by omega)

/-- The first block that `mkfs` gives to a file: `nmeta`. -/
def nmeta : Nat := mkfsSuperBlock.bitmapStart + fsSize / (blockSize * 8) + 1

/-- The file system and the swap area on one device. -/
structure State where
  store : Store
  /-- The blocks given to files by `mkfs` or by `cache_alloc` and not freed since. -/
  owned : Nat → Bool
  inuse : Nat → Bool
  slots : List Nat

/-- What happens next. -/
inductive Act where
  /-- A file system operation calls `cache_alloc`. -/
  | alloc (ctx : Ctx)
  /-- A file system operation calls `cache_free` for a block of a file. -/
  | free (ctx : Ctx) (blockNo : Nat)
  /-- A file system operation writes a block that is not part of the bitmap. -/
  | write (blockNo : Nat) (data : BlockData)
  /-- `swapout` writes a page. -/
  | swapOut (page : Page)
  /-- `swapin` gives back a slot. -/
  | swapIn (bno : Nat)

/-- One step. -/
def State.step (s : State) : Act → Option State
  | .alloc ctx =>
    ((cacheAlloc mkfsSuperBlock ctx).run Store.serve s.store).map fun (blockNo, store) =>
      { s with store, owned := Function.update s.owned blockNo true }
  | .free ctx blockNo =>
    if s.owned blockNo then
      ((cacheFree mkfsSuperBlock ctx blockNo).run Store.serve s.store).map fun (_, store) =>
        { s with store, owned := Function.update s.owned blockNo false }
    else none
  | .write blockNo data =>
    if blockNo = mkfsSuperBlock.bitmapStart then none
    else some { s with store := s.store.put blockNo data }
  | .swapOut page =>
    (writePageToDisk s.inuse s.store.blocks page).map fun (bno, inuse, blocks) =>
      { s with store := { s.store with blocks }, inuse, slots := bno :: s.slots }
  | .swapIn bno =>
    if bno ∈ s.slots then
      some { s with inuse := release8Blocks s.inuse bno, slots := s.slots.erase bno }
    else none

/-- The image that `mkfs` writes with `used` blocks allocated, and an empty swap area. -/
structure Mkfs (used : Nat) (s : State) : Prop where
  files : nmeta ≤ used
  fits : used < bitPerBlock
  bitmap : s.store.blocks mkfsSuperBlock.bitmapStart = balloc used
  held : ∀ blockNo, s.store.held blockNo = false
  unlocked : s.store.bitmapLock = false
  owned : ∀ blockNo, s.owned blockNo = true ↔ nmeta ≤ blockNo ∧ blockNo < used
  inuse : ∀ k, s.inuse k = false
  slots : s.slots = []

/-- The two allocators on one device, as a machine. -/
def machine (used : Nat) : Machine State Act where
  init := Mkfs used
  step := State.step

/-- No block is marked in the bitmap or part of a file and at the same time part of a swap slot
in use. -/
def Apart (s : State) : Prop :=
  ∀ blockNo, s.store.used mkfsSuperBlock blockNo = true ∨ s.owned blockNo = true →
    ¬ (swapStart ≤ blockNo ∧ blockNo < swapEnd ∧ s.inuse (blockNo - swapStart) = true)

/-- `cache_alloc` finds a block below the swap area. -/
def BelowSwap (s : State) : Act → Prop
  | .alloc _ => ∃ blockNo, blockNo < swapStart ∧ s.store.used mkfsSuperBlock blockNo = false
  | _ => True

/-- What keeps the allocators apart: the file system has nothing in the swap area. -/
structure Separate (s : State) : Prop where
  held : ∀ blockNo, s.store.held blockNo = false
  unlocked : s.store.bitmapLock = false
  metaUsed : ∀ blockNo, blockNo < nmeta → s.store.used mkfsSuperBlock blockNo = true
  below : ∀ blockNo, swapStart ≤ blockNo → blockNo < swapEnd →
    s.store.used mkfsSuperBlock blockNo = false
  /-- The blocks of files are marked, and are neither meta blocks nor in the swap area. -/
  owned : ∀ blockNo, s.owned blockNo = true →
    nmeta ≤ blockNo ∧ blockNo < swapStart ∧ s.store.used mkfsSuperBlock blockNo = true

/-- The layout of `mkfs`. -/
theorem mkfs_fits : mkfsSuperBlock.BitmapFits := ⟨by decide, by decide⟩

/-- The bitmap of the layout of `mkfs` is one block. -/
theorem mkfs_freeBlock {blockNo : Nat} (inside : blockNo < swapEnd) :
    mkfsSuperBlock.freeBlock blockNo = mkfsSuperBlock.bitmapStart := by
  have zero : blockNo / bitPerBlock = 0 := Nat.div_eq_of_lt (inside.trans (by decide))
  rw [SuperBlock.freeBlock_eq mkfs_fits.bitmap inside, zero, Nat.add_zero]

namespace Separate

variable {s s' : State}

/-- The file system can allocate. -/
theorem allocatable (separate : Separate s) : s.store.Allocatable mkfsSuperBlock :=
  ⟨separate.unlocked, fun _ _ => separate.held _, fun _ _ _ => separate.held _⟩

/-- A block below the swap area is allocated. -/
theorem allocate (separate : Separate s) {blockNo : Nat} (below : blockNo < swapStart)
    (unused : s.store.used mkfsSuperBlock blockNo = false) :
    Separate { s with
      store := s.store.allocate mkfsSuperBlock blockNo
      owned := Function.update s.owned blockNo true } := by
  have late : nmeta ≤ blockNo := by
    by_contra early
    rw [separate.metaUsed blockNo (by omega)] at unused
    simp at unused
  have swap : swapStart < swapEnd := by decide
  have bitmap : mkfsSuperBlock.bitmapStart < nmeta := by decide
  have marks : ∀ other, other < swapEnd →
      (s.store.allocate mkfsSuperBlock blockNo).used mkfsSuperBlock other =
        (decide (blockNo = other) || s.store.used mkfsSuperBlock other) := by
    intro other inside
    refine Store.used_allocate mkfs_fits.bitmap (below.trans swap) inside ?_
    rw [mkfs_freeBlock inside]
    omega
  refine ⟨separate.held, separate.unlocked, ?_, ?_, ?_⟩
  · intro other early
    have earlier : nmeta < swapEnd := by decide
    rw [marks other (by omega), separate.metaUsed other early, Bool.or_true]
  · intro other late inside
    rw [marks other inside, separate.below other late inside]
    simp
    omega
  · intro other owned
    by_cases same : other = blockNo
    · subst same
      exact ⟨late, below, by rw [marks other (by omega)]; simp⟩
    · replace owned : s.owned other = true := by
        rwa [← Function.update_of_ne same true s.owned]
      obtain ⟨first, last, used⟩ := separate.owned other owned
      exact ⟨first, last, by rw [marks other (by omega), used, Bool.or_true]⟩

/-- A block of a file is freed. -/
theorem free (separate : Separate s) {blockNo : Nat} (owned : s.owned blockNo = true) :
    Separate { s with
      store := s.store.unmark mkfsSuperBlock blockNo
      owned := Function.update s.owned blockNo false } := by
  obtain ⟨late, below, used⟩ := separate.owned blockNo owned
  have swap : swapStart < swapEnd := by decide
  have marks : ∀ other, other < swapEnd →
      (s.store.unmark mkfsSuperBlock blockNo).used mkfsSuperBlock other =
        (decide (blockNo ≠ other) && s.store.used mkfsSuperBlock other) :=
    fun other inside => Store.used_unmark mkfs_fits.bitmap (below.trans swap) inside used
  refine ⟨separate.held, separate.unlocked, ?_, ?_, ?_⟩
  · intro other early
    rw [marks other (by omega), separate.metaUsed other early]
    simp
    omega
  · intro other late inside
    rw [marks other inside, separate.below other late inside, Bool.and_false]
  · intro other owned
    by_cases same : other = blockNo
    · subst same
      simp at owned
    · replace owned : s.owned other = true := by
        rwa [← Function.update_of_ne same false s.owned]
      obtain ⟨first, last, used⟩ := separate.owned other owned
      refine ⟨first, last, ?_⟩
      rw [marks other (by omega), used]
      simp [Ne.symm same]

/-- Nothing changes for the allocators as long as the bitmap stays as it is. -/
theorem frame (separate : Separate s) {blocks : Disk} {inuse : Nat → Bool} {slots : List Nat}
    (bitmap : blocks mkfsSuperBlock.bitmapStart = s.store.blocks mkfsSuperBlock.bitmapStart) :
    Separate { s with store := { s.store with blocks }, inuse, slots } := by
  have marks : ∀ other, other < swapEnd → Store.used mkfsSuperBlock { s.store with blocks } other =
      s.store.used mkfsSuperBlock other := by
    intro other inside
    rw [Store.used, Store.used, mkfs_freeBlock inside]
    exact congrArg (marked · _) bitmap
  have swap : nmeta < swapEnd ∧ swapStart < swapEnd := by decide
  refine ⟨separate.held, separate.unlocked, fun other early => ?_, fun other late inside => ?_,
    fun other owned => ?_⟩
  · rw [marks other (by omega)]
    exact separate.metaUsed other early
  · rw [marks other inside]
    exact separate.below other late inside
  · obtain ⟨first, last, used⟩ := separate.owned other owned
    exact ⟨first, last, by rw [marks other (by omega)]; exact used⟩

/-- A page is written to a slot, which is not where the bitmap is. -/
theorem swapOut (separate : Separate s) {page : Page} {bno : Nat} {inuse : Nat → Bool}
    {blocks : Disk}
    (wrote : writePageToDisk s.inuse s.store.blocks page = some (bno, inuse, blocks)) :
    Separate { s with store := { s.store with blocks }, inuse, slots := bno :: s.slots } := by
  simp only [writePageToDisk, Option.map_eq_some_iff, Prod.exists, Prod.mk.injEq] at wrote
  obtain ⟨slot, table, found, rfl, rfl, rfl⟩ := wrote
  obtain ⟨i, rfl, -⟩ := findAndSet8Blocks_some found
  refine separate.frame ?_
  have early : mkfsSuperBlock.bitmapStart < swapStart := by decide
  rw [writeBlocks_apply, if_neg (by omega)]

/-- Every step in which `cache_alloc` finds a block below the swap area. -/
theorem step (separate : Separate s) {act : Act} (met : BelowSwap s act)
    (taken : s.step act = some s') : Separate s' := by
  cases act with
  | alloc ctx =>
    simp only [State.step, Option.map_eq_some_iff] at taken
    obtain ⟨⟨blockNo, store⟩, ran, rfl⟩ := taken
    obtain ⟨free, freeBelow, freeUnused⟩ := met
    rcases cacheAlloc_run mkfs_fits separate.allocatable ctx with
      ⟨first, inside, unused, least, run⟩ | ⟨full, -⟩
    · rw [run] at ran
      obtain ⟨rfl, rfl⟩ := Prod.mk.inj (Option.some.inj ran)
      refine separate.allocate ?_ unused
      -- The first block that is not marked comes no later than the one the condition gives.
      by_contra above
      rw [least free (by omega)] at freeUnused
      simp at freeUnused
    · have swap : swapStart < mkfsSuperBlock.numBlocks := by decide
      rw [full free (by omega)] at freeUnused
      simp at freeUnused
  | free ctx blockNo =>
    simp only [State.step, Option.ite_none_right_eq_some, Option.map_eq_some_iff] at taken
    obtain ⟨owned, ⟨_, store⟩, ran, rfl⟩ := taken
    rw [cacheFree_run separate.unlocked (separate.held _)] at ran
    obtain ⟨rfl, rfl⟩ := Prod.mk.inj (Option.some.inj ran)
    exact separate.free owned
  | write blockNo data =>
    simp only [State.step, Option.ite_none_left_eq_some] at taken
    obtain ⟨plain, same⟩ := taken
    obtain rfl := Option.some.inj same
    exact separate.frame (Function.update_of_ne (Ne.symm plain) _ _)
  | swapOut page =>
    simp only [State.step, Option.map_eq_some_iff] at taken
    obtain ⟨⟨bno, inuse, blocks⟩, wrote, rfl⟩ := taken
    exact separate.swapOut wrote
  | swapIn bno =>
    simp only [State.step, Option.ite_none_right_eq_some] at taken
    obtain ⟨-, same⟩ := taken
    obtain rfl := Option.some.inj same
    exact ⟨separate.held, separate.unlocked, separate.metaUsed, separate.below, separate.owned⟩

end Separate

namespace Mkfs

variable {used : Nat} {s : State}

/-- The marks of a fresh image. -/
theorem marks (fresh : Mkfs used s) {blockNo : Nat} (inside : blockNo < swapEnd) :
    s.store.used mkfsSuperBlock blockNo = decide (blockNo < used) := by
  have small : blockNo < bitPerBlock := inside.trans (by decide)
  rw [Store.used, mkfs_freeBlock inside, fresh.bitmap, Nat.mod_eq_of_lt small, marked_balloc small]

/-- An image that ends before the swap area starts the two allocators apart. -/
theorem separate (fresh : Mkfs used s) (small : used ≤ swapStart) : Separate s := by
  have swap : nmeta < swapEnd ∧ swapStart < swapEnd := by decide
  have files := fresh.files
  refine ⟨fresh.held, fresh.unlocked, fun blockNo early => ?_, fun blockNo late inside => ?_,
    fun blockNo owned => ?_⟩
  · rw [fresh.marks (by omega), decide_eq_true_eq]
    omega
  · rw [fresh.marks inside, decide_eq_false_iff_not]
    omega
  · obtain ⟨first, last⟩ := (fresh.owned blockNo).mp owned
    refine ⟨first, by omega, ?_⟩
    rw [fresh.marks (by omega), decide_eq_true_eq]
    exact last

end Mkfs

/-- The image of `mkfs` with `used` blocks allocated and nothing in them. -/
def image (used : Nat) : State where
  store :=
    { blocks := Function.update (fun _ => .zero) mkfsSuperBlock.bitmapStart (balloc used)
      held := fun _ => false
      bitmapLock := false }
  owned blockNo := decide (nmeta ≤ blockNo ∧ blockNo < used)
  inuse _ := false
  slots := []

/-- `image` is an image of `mkfs`. -/
theorem image_mkfs {used : Nat} (files : nmeta ≤ used) (fits : used < bitPerBlock) :
    Mkfs used (image used) where
  files := files
  fits := fits
  bitmap := by simp [image]
  held _ := rfl
  unlocked := rfl
  owned _ := decide_eq_true_iff
  inuse _ := rfl
  slots := rfl

/-- The image after a file got one more block. -/
def grownImage (used : Nat) : State :=
  { image used with
    store := (image used).store.allocate mkfsSuperBlock used
    owned := Function.update (image used).owned used true }

/-- On a fresh image `cache_alloc` gives out the first block after those of `mkfs`. -/
theorem image_alloc {used : Nat} (files : nmeta ≤ used) (room : used < swapEnd) (ctx : Ctx) :
    (image used).step (.alloc ctx) = some (grownImage used) := by
  have fresh : Mkfs used (image used) := image_mkfs files (room.trans (by decide))
  have allocatable : (image used).store.Allocatable mkfsSuperBlock :=
    ⟨rfl, fun _ _ => rfl, fun _ _ _ => rfl⟩
  have unmarked : (image used).store.used mkfsSuperBlock used = false := by
    rw [fresh.marks room, decide_eq_false_iff_not]
    omega
  rcases cacheAlloc_run mkfs_fits allocatable ctx with
    ⟨first, inside, unused, least, run⟩ | ⟨full, -⟩
  · have exactly : first = used := by
      rw [fresh.marks inside, decide_eq_false_iff_not] at unused
      by_contra different
      rw [least used (by omega)] at unmarked
      simp at unmarked
    rw [State.step, run, exactly]
    rfl
  · rw [full used room] at unmarked
    simp at unmarked

/-- On a fresh image a file grows by one block and a page is swapped out, in this order. -/
theorem image_run (used : Nat) (guard : State → Act → Prop) (files : nmeta ≤ used)
    (room : used < swapEnd) (grows : guard (image used) (.alloc .op))
    (swaps : guard (grownImage used) (.swapOut .zero)) :
    ∃ s, (machine used).Reach guard s ∧ s.owned used = true ∧ s.inuse 0 = true := by
  have start : (machine used).Reach guard (image used) :=
    .start (image_mkfs files (room.trans (by decide)))
  have grown : (machine used).Reach guard (grownImage used) :=
    start.step grows (image_alloc files room .op)
  exact ⟨_, grown.step swaps rfl, Function.update_self .., rfl⟩

/-- As long as the image ends before the swap area and `cache_alloc` finds blocks below it, no
block is at the same time allocated and part of a swap slot in use. -/
theorem swap_apart_of_below {used : Nat} (small : used ≤ swapStart) {s : State}
    (reached : (machine used).Reach BelowSwap s) : Apart s := by
  have separate : Separate s := reached.invariant (P := Separate)
    (fun s fresh => Mkfs.separate fresh small)
    (fun s act s' _ separate met taken => separate.step met taken)
  rintro blockNo (marked | owned) ⟨late, inside, -⟩
  · rw [separate.below blockNo late inside] at marked
    simp at marked
  · obtain ⟨-, below, -⟩ := separate.owned blockNo owned
    omega

/-- A file grows and a page is swapped out, in blocks 92 and 800. -/
theorem swap_apart_small_image : ∃ s, (machine nmeta).Reach BelowSwap s ∧
    s.owned nmeta = true ∧ s.inuse 0 = true ∧ Apart s := by
  have fresh : Mkfs nmeta (image nmeta) := image_mkfs (by decide) (by decide)
  have free : BelowSwap (image nmeta) (.alloc .op) :=
    ⟨nmeta, by decide, by rw [fresh.marks (by decide)]; decide⟩
  obtain ⟨s, reached, owned, inuse⟩ := image_run nmeta BelowSwap le_rfl (by decide) free trivial
  exact ⟨s, reached, owned, inuse, swap_apart_of_below (by decide) reached⟩

/-- With 800 blocks in use the next block of a file is block 800, which the first swapout takes
too. -/
theorem swap_shares_block : ∃ s, (machine swapStart).Reach Machine.Any s ∧ ¬ Apart s := by
  obtain ⟨s, reached, owned, inuse⟩ :=
    image_run swapStart Machine.Any (by decide) (by decide) trivial trivial
  exact ⟨s, reached, fun apart => apart swapStart (.inr owned) ⟨le_rfl, by decide, inuse⟩⟩

/-! ## Pages in the swap area -/

/-- A page read from a slot is in the eight blocks of the slot. -/
theorem readPage_congr {disk disk' : Disk} {bno : Nat} (small : bno + 8 ≤ swapEnd)
    (same : ∀ blockNo, bno ≤ blockNo → blockNo < bno + 8 → disk' blockNo = disk blockNo) :
    readPageFromDisk disk' bno = readPageFromDisk disk bno := by
  have bounds : pageSize = 4096 ∧ swapEnd = 1000 := ⟨rfl, rfl⟩
  refine Bytes.ext fun index inside => ?_
  simp only [readPageFromDisk, Bytes.get_ofFn inside]
  rw [Nat.mod_eq_of_lt (by omega), same _ (by omega) (by omega)]

/-- A page that was written to a slot is read from it. -/
theorem readPage_writeBlocks (disk : Disk) {bno : Nat} (small : bno + 8 ≤ swapEnd) (page : Page) :
    readPageFromDisk (writeBlocks disk bno page 8) bno = page := by
  have bounds : pageSize = 4096 ∧ swapEnd = 1000 ∧ blockSize = 512 := ⟨rfl, rfl, rfl⟩
  refine Bytes.ext fun index inside => ?_
  simp only [readPageFromDisk, Bytes.get_ofFn inside, writeBlocks_apply]
  rw [Nat.mod_eq_of_lt (by omega), if_pos (by omega), pagePart, Bytes.get_ofFn (by omega),
    Nat.add_sub_cancel_left, Nat.mul_comm, Nat.div_add_mod]

/-- The swap area, with the pages that were written to its slots. -/
structure Area extends Slots where
  disk : Disk
  /-- The page that was last written to a slot. -/
  pages : Nat → Page

namespace Area

/-- What happens next. -/
inductive Act where
  /-- `write_page_to_disk`. -/
  | swapOut (page : Page)
  /-- `release_8_blocks` of a slot whose page was read. -/
  | swapIn (bno : Nat)
  /-- A block outside the swap area is written. -/
  | write (blockNo : Nat) (data : BlockData)

/-- One step. -/
def step (s : Area) : Act → Option Area
  | .swapOut page => (writePageToDisk s.inuse s.disk page).map fun (bno, inuse, disk) =>
      ⟨⟨inuse, bno :: s.slots⟩, disk, Function.update s.pages bno page⟩
  | .swapIn bno => (s.toSlots.step (.release bno)).map fun slots => { s with toSlots := slots }
  | .write blockNo data =>
    if swapStart ≤ blockNo ∧ blockNo < swapEnd then none
    else some { s with disk := Function.update s.disk blockNo data }

/-- The swap area from the start of the kernel on. -/
def machine : Machine Area Act where
  init s := Slots.machine.init s.toSlots
  step := step

/-- The slots are whole, and every slot given out holds its page. -/
structure Filled (s : Area) : Prop where
  whole : s.Whole
  read : ∀ bno ∈ s.slots, readPageFromDisk s.disk bno = s.pages bno

variable {s s' : Area}

/-- A page stays in its slot as long as no block of the slot is written. -/
theorem Filled.keep (filled : Filled s) {bno : Nat} (member : bno ∈ s.slots) {disk : Disk}
    (same : ∀ blockNo slot, bno = swapStart + 8 * slot → slot < 24 → bno ≤ blockNo →
      blockNo < bno + 8 → disk blockNo = s.disk blockNo) :
    readPageFromDisk disk bno = s.pages bno := by
  obtain ⟨slot, rfl, used⟩ := (filled.whole.mem_slots bno).mp member
  have inside := filled.whole.slot_lt used
  rw [← filled.read _ member]
  refine readPage_congr ?_ fun blockNo => same blockNo slot rfl inside
  simp only [swapStart, swapEnd]
  omega

/-- Every step keeps the pages in their slots. -/
theorem Filled.step (filled : Filled s) {act : Act} (taken : s.step act = some s') : Filled s' := by
  have bounds : swapStart = 800 ∧ swapEnd = 1000 := ⟨rfl, rfl⟩
  cases act with
  | swapOut page =>
    simp only [Area.step, writePageToDisk, Option.map_map, Option.map_eq_some_iff] at taken
    obtain ⟨⟨new, inuse⟩, found, rfl⟩ := taken
    have given : s.toSlots.step .find = some ⟨inuse, new :: s.slots⟩ := by
      simp [Slots.step, found]
    have whole := filled.whole.step given
    have unlisted := (List.nodup_cons.mp whole.nodup).1
    obtain ⟨slot, rfl, used⟩ := (whole.mem_slots new).mp (List.mem_cons_self ..)
    have inside := whole.slot_lt used
    refine ⟨whole, fun bno member => ?_⟩
    dsimp only [Function.comp_apply]
    obtain rfl | member := List.mem_cons.mp member
    · rw [Function.update_self]
      exact readPage_writeBlocks _ (by omega) page
    · have apart : bno ≠ swapStart + 8 * slot := fun same => unlisted (same ▸ member)
      rw [Function.update_of_ne apart]
      -- Two slots have no block in common: both start at a multiple of eight blocks.
      refine filled.keep member fun blockNo other here _ first last => ?_
      rw [writeBlocks_apply, if_neg (by omega)]
  | swapIn bno =>
    obtain ⟨slots, released, rfl⟩ := Option.map_eq_some_iff.mp taken
    refine ⟨filled.whole.step released, fun other member => filled.read other ?_⟩
    simp only [Slots.step, Option.ite_none_right_eq_some, Option.some.injEq] at released
    rw [← released.2] at member
    exact List.mem_of_mem_erase member
  | write blockNo data =>
    simp only [Area.step, Option.ite_none_left_eq_some, Option.some.injEq] at taken
    obtain ⟨outside, rfl⟩ := taken
    refine ⟨filled.whole, fun bno member => filled.keep member fun other slot here _ _ _ => ?_⟩
    exact Function.update_of_ne (by omega) ..

/-- The swap area is a store of 24 pages: in every run, whatever is written outside it, each slot
given out holds the page that was written to it; and with fewer than 24 pages in it
`write_page_to_disk` finds another slot, from which the page is read again. -/
theorem swap_area_stores (reached : machine.Reach Machine.Any s) :
    (∀ bno ∈ s.slots, readPageFromDisk s.disk bno = s.pages bno) ∧
    (s.slots.length < 24 → ∀ page, ∃ bno s', s.step (.swapOut page) = some s' ∧
      s'.slots = bno :: s.slots ∧ bno ∉ s.slots ∧ readPageFromDisk s'.disk bno = page) := by
  have filled : Filled s := reached.invariant
    (fun s initial => ⟨.of_reach (.start initial), by simp [initial.2]⟩)
    fun s act s' _ filled _ taken => filled.step taken
  refine ⟨filled.read, fun room page => ?_⟩
  obtain ⟨slot, inside, free, found⟩ := filled.whole.find room
  let bno := swapStart + 8 * slot
  have out : s.step (.swapOut page) = some ⟨⟨setSlot s.inuse slot true, bno :: s.slots⟩,
      writeBlocks s.disk bno page 8, Function.update s.pages bno page⟩ := by
    rw [Area.step, writePageToDisk, found]
    rfl
  have after := filled.step out
  refine ⟨_, _, out, rfl, (List.nodup_cons.mp after.whole.nodup).1, ?_⟩
  exact (after.read _ (List.mem_cons_self ..)).trans (Function.update_self ..)

/-- Pages of ones and of twos are swapped out, the first is swapped in, and a block of a file is
written: the second is still read. -/
theorem swap_area_stores_two : ∃ s, machine.Reach Machine.Any s ∧ s.slots = [808] ∧
    readPageFromDisk s.disk 808 = s.pages 808 ∧ s.pages 808 = .ofFn fun _ => 2 := by
  let start : Area := ⟨⟨fun _ => false, []⟩, fun _ => .zero, fun _ => .zero⟩
  have initial : machine.init start := ⟨fun _ => rfl, rfl⟩
  have shown : (machine.exec Machine.Any start [.swapOut (.ofFn fun _ => 1),
      .swapOut (.ofFn fun _ => 2), .write 92 .zero, .swapIn 800]).map
        (fun s => (s.slots, s.pages 808)) = some ([808], .ofFn fun _ => 2) := by
    rfl
  obtain ⟨s, reached, observed⟩ := Machine.Reach.exec_map initial shown
  obtain ⟨slots, page⟩ := Prod.mk.inj observed
  exact ⟨s, reached, slots, (swap_area_stores reached).1 808 (by simp [slots]), page⟩

end Area

end OsLab.Fs.Swap
