import OsLab.Fs.Alloc
import Mathlib.Logic.Function.Basic
import Mathlib.Data.List.Range

/-!
# The plain store of blocks

What the cache is to its clients: blocks that are acquired, changed and released. An acquired
block is acquired by nobody else, so a client that acquires it again waits for itself. The bitmap
marks the blocks in use; over the plain store `cache_alloc` takes the first block that is not
marked, and `cache_free` takes away a mark.
-/
namespace OsLab.Fs

open OsLab.Lib
open BlockProg

/-- The contents of all blocks, those that are acquired, and `bitmaplock`. -/
structure Store where
  /-- The contents of the blocks. -/
  blocks : Nat → BlockData
  /-- The blocks that are acquired. -/
  held : Nat → Bool
  /-- `bitmaplock` is taken. -/
  bitmapLock : Bool

namespace Store

/-- The calls of the cache over the plain store. -/
def serve : Prog.Handler BlockOp BlockOp.Out Store
  | .acquire blockNo, s =>
    if s.held blockNo then none
    else some (s.blocks blockNo, { s with held := Function.update s.held blockNo true })
  | .store blockNo data, s =>
    if s.held blockNo then
      some ((), { s with blocks := Function.update s.blocks blockNo data })
    else none
  | .sync _ blockNo, s => if s.held blockNo then some ((), s) else none
  | .release blockNo, s =>
    if s.held blockNo then
      some ((), { s with held := Function.update s.held blockNo false })
    else none
  | .lockBitmap, s => if s.bitmapLock then none else some ((), { s with bitmapLock := true })
  | .unlockBitmap, s => some ((), { s with bitmapLock := false })
  | .panic, _ | .overflow, _ => none

/-- Other contents of a block. -/
def put (s : Store) (blockNo : Nat) (data : BlockData) : Store :=
  { s with blocks := Function.update s.blocks blockNo data }

/-- A block is acquired. -/
def hold (s : Store) (blockNo : Nat) : Store :=
  { s with held := Function.update s.held blockNo true }

variable {s : Store} {blockNo : Nat}

@[simp] theorem put_blocks (data : BlockData) :
    (s.put blockNo data).blocks = Function.update s.blocks blockNo data := rfl

@[simp] theorem hold_held : (s.hold blockNo).held = Function.update s.held blockNo true := rfl

theorem serve_acquire (free : s.held blockNo = false) :
    serve (.acquire blockNo) s = some (s.blocks blockNo, s.hold blockNo) := by
  simp [serve, free]
  rfl

theorem serve_store (held : s.held blockNo = true) (data : BlockData) :
    serve (.store blockNo data) s = some ((), s.put blockNo data) := by
  simp [serve, held]
  rfl

theorem serve_sync (held : s.held blockNo = true) (ctx : Ctx) :
    serve (.sync ctx blockNo) s = some ((), s) := by
  simp [serve, held]
  rfl

/-- A block acquired and released is as free as before. -/
theorem serve_release (free : s.held blockNo = false) (blocks : Nat → BlockData) :
    serve (.release blockNo) { s.hold blockNo with blocks } = some ((), { s with blocks }) := by
  simp [serve, hold, ← free]
  rfl

/-- A block that was acquired is changed and released. -/
theorem run_change {α : Type} (free : s.held blockNo = false) (ctx : Ctx) (data : BlockData)
    (rest : BlockProg α) :
    (do
      store blockNo data
      sync ctx blockNo
      release blockNo
      rest).run serve (s.hold blockNo) = rest.run serve (s.put blockNo data) := by
  have held : (s.hold blockNo).held blockNo = true := by simp
  have stored : ((s.hold blockNo).put blockNo data).held blockNo = true := held
  simp only [Prog.run_bind, run_store, run_sync, run_release, Option.bind_some, serve_store held,
    serve_sync stored]
  have released := serve_release free (Function.update s.blocks blockNo data)
  exact congrArg (Option.bind · _) released

/-- A block is acquired, changed and released. -/
theorem run_amend {α : Type} (free : s.held blockNo = false) (ctx : Ctx)
    (change : BlockData → BlockData) (rest : BlockProg α) :
    (do
      let data ← acquire blockNo
      store blockNo (change data)
      sync ctx blockNo
      release blockNo
      rest).run serve s = rest.run serve (s.put blockNo (change (s.blocks blockNo))) := by
  rw [Prog.run_bind, run_acquire, serve_acquire free]
  exact run_change free ctx (change (s.blocks blockNo)) rest

/-- A block that was acquired is changed and released. -/
theorem change_shows {α : Type} (free : s.held blockNo = false) (ctx : Ctx) {data : BlockData}
    {rest : BlockProg α} {Q : α → Store → List Nat → Prop} {E : List Nat → Prop}
    (next : Prog.Shows serve BlockOp.synced rest (s.put blockNo data)
      (fun value s' more => Q value s' (blockNo :: more)) fun more => E (blockNo :: more)) :
    Prog.Shows serve BlockOp.synced (do
      store blockNo data
      sync ctx blockNo
      release blockNo
      rest) (s.hold blockNo) Q E := by
  have held : (s.hold blockNo).held blockNo = true := by simp
  have stored : ((s.hold blockNo).put blockNo data).held blockNo = true := held
  have released := serve_release free (Function.update s.blocks blockNo data)
  exact .bind (.answered (serve_store held data) (.bind (.answered (serve_sync stored ctx)
    (.bind (.answered released next)))))

end Store

/-! ## The bitmap -/

/-- A layout whose block numbers the code handles without overflow. -/
structure SuperBlock.BitmapFits (sblock : SuperBlock) : Prop where
  blocks : sblock.numBlocks < 2 ^ 31
  bitmap : sblock.bitmapStart + sblock.numBlocks / bitPerBlock < 2 ^ 32

/-- The block is marked in the bitmap. -/
def Store.used (sblock : SuperBlock) (s : Store) (blockNo : Nat) : Bool :=
  marked (s.blocks (sblock.freeBlock blockNo)) (blockNo % bitPerBlock)

/-- A search over a range of numbers stops at the first that answers. -/
theorem findSome?_range {α : Type} {f : Nat → Option α} {bound : Nat} {answer : α}
    (found : (List.range bound).findSome? f = some answer) :
    ∃ number, number < bound ∧ f number = some answer ∧ ∀ earlier < number, f earlier = none := by
  induction bound with
  | zero => simp at found
  | succ bound ih =>
    rw [List.range_succ, List.findSome?_append] at found
    cases before : (List.range bound).findSome? f with
    | some other =>
      rw [before] at found ih
      obtain ⟨number, below, answers, first⟩ := ih found
      exact ⟨number, by omega, answers, first⟩
    | none =>
      rw [before] at found
      rw [List.findSome?_eq_none_iff] at before
      refine ⟨bound, by omega, by simpa using found, fun earlier below => ?_⟩
      exact before earlier (List.mem_range.mpr below)

/-- The inner loops of `cache_alloc` find the first clear bit. -/
theorem findClear_some {limit blockstart add i : Nat} {data : BlockData}
    (found : findClear limit blockstart data = some (add, i)) :
    add < blockSize ∧ i < 8 ∧ blockstart + add * 8 + i < limit ∧
      marked data (add * 8 + i) = false ∧
      ∀ earlier, earlier < add * 8 + i → marked data earlier = true := by
  unfold findClear at found
  obtain ⟨add', addInside, inner, addFirst⟩ := findSome?_range found
  obtain ⟨i', iInside, taken, iFirst⟩ := findSome?_range inner
  rw [Option.ite_none_right_eq_some] at taken
  obtain ⟨⟨below, clear⟩, same⟩ := taken
  obtain ⟨rfl, rfl⟩ := Prod.mk.inj (Option.some.inj same)
  refine ⟨addInside, iInside, below, ?_, fun earlier before => ?_⟩
  · rw [marked, show (add' * 8 + i') / 8 = add' by omega, show (add' * 8 + i') % 8 = i' by omega]
    exact clear
  · have skipped : ¬ (blockstart + earlier / 8 * 8 + earlier % 8 < limit ∧
        bitSet (data.get (earlier / 8)) (earlier % 8) = false) := by
      by_cases byte : earlier / 8 = add'
      · have passed := iFirst (earlier % 8) (by omega)
        rw [byte]
        simpa using passed
      · have passed := addFirst (earlier / 8) (by omega)
        rw [List.findSome?_eq_none_iff] at passed
        have bit := passed (earlier % 8) (List.mem_range.mpr (Nat.mod_lt _ (by decide)))
        simpa using bit
    rw [marked]
    by_contra clear
    exact skipped ⟨by omega, by simpa using clear⟩

/-- The inner loops of `cache_alloc` find a clear bit if there is one. -/
theorem findClear_none {limit blockstart index : Nat} {data : BlockData}
    (found : findClear limit blockstart data = none) (inside : index < bitPerBlock)
    (below : blockstart + index < limit) : marked data index = true := by
  unfold findClear at found
  have byte : index / 8 < blockSize := Nat.div_lt_of_lt_mul (Nat.mul_comm _ _ ▸ inside)
  rw [List.findSome?_eq_none_iff] at found
  have inner := found (index / 8) (List.mem_range.mpr byte)
  rw [List.findSome?_eq_none_iff] at inner
  have bit := inner (index % 8) (List.mem_range.mpr (Nat.mod_lt _ (by decide)))
  rw [ite_eq_right_iff] at bit
  by_contra clear
  refine Option.some_ne_none _ (bit ⟨by omega, ?_⟩)
  rw [marked] at clear
  simpa using clear

section Bitmap

variable {sblock : SuperBlock} {s : Store}

/-- The bitmap block of a block. -/
theorem SuperBlock.freeBlock_eq
    (narrow : sblock.bitmapStart + sblock.numBlocks / bitPerBlock < 2 ^ 32) {blockNo : Nat}
    (inside : blockNo < sblock.numBlocks) :
    sblock.freeBlock blockNo = sblock.bitmapStart + blockNo / bitPerBlock := by
  have below : blockNo / bitPerBlock ≤ sblock.numBlocks / bitPerBlock :=
    Nat.div_le_div_right (Nat.le_of_lt inside)
  exact Nat.mod_eq_of_lt (by omega)

/-- `cache_alloc` and `cache_free` look for a block in the same bitmap block. -/
theorem SuperBlock.BitmapFits.allocBlock_eq (fits : sblock.BitmapFits) {chunk index : Nat}
    (small : index < bitPerBlock) (inside : chunk * bitPerBlock + index < sblock.numBlocks) :
    sblock.allocBlock (chunk * bitPerBlock) = sblock.freeBlock (chunk * bitPerBlock + index) := by
  have narrow := fits.bitmap
  have positive : 0 < bitPerBlock := by decide
  have divided : (chunk * bitPerBlock + index) / bitPerBlock = chunk := by
    rw [Nat.mul_comm, Nat.mul_add_div positive, Nat.div_eq_of_lt small, Nat.add_zero]
  have below : chunk ≤ sblock.numBlocks / bitPerBlock := by
    rw [← divided]
    exact Nat.div_le_div_right (Nat.le_of_lt inside)
  rw [SuperBlock.freeBlock_eq fits.bitmap inside, divided, SuperBlock.allocBlock, Nat.mul_div_cancel _ positive]
  exact Nat.mod_eq_of_lt (by omega)

/-- The store once a block has been marked and cleared. -/
def Store.allocate (sblock : SuperBlock) (s : Store) (blockNo : Nat) : Store :=
  (s.put (sblock.freeBlock blockNo) (changeByte (s.blocks (sblock.freeBlock blockNo))
    (blockNo % bitPerBlock / 8) (markBit · (blockNo % bitPerBlock % 8)))).put blockNo .zero

/-- The store once the mark of a block has been taken away. -/
def Store.unmark (sblock : SuperBlock) (s : Store) (blockNo : Nat) : Store :=
  s.put (sblock.freeBlock blockNo) (changeByte (s.blocks (sblock.freeBlock blockNo))
    (blockNo % bitPerBlock / 8) (clearBit · (blockNo % bitPerBlock % 8)))

/-- Blocks described by one bitmap block are told apart by their bits. -/
theorem SuperBlock.same_block
    (narrow : sblock.bitmapStart + sblock.numBlocks / bitPerBlock < 2 ^ 32) {blockNo other : Nat}
    (inside : blockNo < sblock.numBlocks) (inside' : other < sblock.numBlocks)
    (same : sblock.freeBlock other = sblock.freeBlock blockNo) :
    blockNo % bitPerBlock = other % bitPerBlock ↔ blockNo = other := by
  rw [freeBlock_eq narrow inside, freeBlock_eq narrow inside'] at same
  refine ⟨fun bits => ?_, fun equal => by rw [equal]⟩
  rw [← Nat.div_add_mod blockNo bitPerBlock, ← Nat.div_add_mod other bitPerBlock, bits,
    show blockNo / bitPerBlock = other / bitPerBlock by omega]

/-- Marking a block marks no other. -/
theorem Store.used_allocate
    (narrow : sblock.bitmapStart + sblock.numBlocks / bitPerBlock < 2 ^ 32) {blockNo other : Nat}
    (inside : blockNo < sblock.numBlocks) (inside' : other < sblock.numBlocks)
    (plain : sblock.freeBlock other ≠ blockNo) :
    (s.allocate sblock blockNo).used sblock other =
      (decide (blockNo = other) || s.used sblock other) := by
  have small : other % bitPerBlock < bitPerBlock := Nat.mod_lt _ (by decide)
  simp only [Store.used, Store.allocate, Store.put_blocks, Function.update_of_ne plain]
  by_cases same : sblock.freeBlock other = sblock.freeBlock blockNo
  · rw [same, Function.update_self, marked_markBit small]
    simp only [SuperBlock.same_block narrow inside inside' same]
  · have different : blockNo ≠ other := fun equal => same (by rw [equal])
    rw [Function.update_of_ne same]
    simp [different]

/-- Taking away a mark takes away no other. -/
theorem Store.used_unmark
    (narrow : sblock.bitmapStart + sblock.numBlocks / bitPerBlock < 2 ^ 32) {blockNo other : Nat}
    (inside : blockNo < sblock.numBlocks) (inside' : other < sblock.numBlocks)
    (set : s.used sblock blockNo = true) :
    (s.unmark sblock blockNo).used sblock other =
      (decide (blockNo ≠ other) && s.used sblock other) := by
  have small : other % bitPerBlock < bitPerBlock := Nat.mod_lt _ (by decide)
  simp only [Store.used, Store.unmark, Store.put_blocks]
  by_cases same : sblock.freeBlock other = sblock.freeBlock blockNo
  · rw [same, Function.update_self, marked_clearBit small set]
    simp only [ne_eq, SuperBlock.same_block narrow inside inside' same]
  · have different : blockNo ≠ other := fun equal => same (by rw [equal])
    rw [Function.update_of_ne same]
    simp [different]

/-- `cache_free` takes away the mark. -/
theorem cacheFree_run {blockNo : Nat} (unlocked : s.bitmapLock = false)
    (free : s.held (sblock.freeBlock blockNo) = false) (ctx : Ctx) :
    (cacheFree sblock ctx blockNo).run Store.serve s = some ((), s.unmark sblock blockNo) := by
  have locked : Store.serve .lockBitmap s = some ((), { s with bitmapLock := true }) := by
    simp [Store.serve, unlocked]
    rfl
  have free' : ({ s with bitmapLock := true } : Store).held (sblock.freeBlock blockNo) = false :=
    free
  have amended := Store.run_amend free' ctx (fun data => changeByte data
    (blockNo % bitPerBlock / 8) (clearBit · (blockNo % bitPerBlock % 8))) unlockBitmap
  rw [cacheFree, Prog.run_bind, run_lockBitmap, locked]
  refine amended.trans ?_
  rw [run_unlockBitmap]
  simp only [Store.serve, Store.unmark, Store.put, ← unlocked]
  rfl

/-- Nobody holds a bitmap block, and blocks that are not marked are held by nobody and are not
bitmap blocks. -/
structure Store.Allocatable (sblock : SuperBlock) (s : Store) : Prop where
  unlocked : s.bitmapLock = false
  bitmap : ∀ blockNo, blockNo < sblock.numBlocks →
    s.held (sblock.bitmapStart + blockNo / bitPerBlock) = false
  free : ∀ blockNo, blockNo < sblock.numBlocks → s.used sblock blockNo = false →
    s.held blockNo = false

/-- What `cache_alloc` does where a block is not marked: it takes the first such block. -/
structure Store.Allocates (sblock : SuperBlock) (s : Store) (blockNo : Nat) (s' : Store)
    (synced : List Nat) : Prop where
  onDisk : blockNo < sblock.numBlocks
  clear : s.used sblock blockNo = false
  first : ∀ earlier, earlier < blockNo → s.used sblock earlier = true
  state : s' = s.allocate sblock blockNo
  synced : synced = [sblock.freeBlock blockNo, blockNo]

/-- The loop of `cache_alloc` from a bitmap block on, if all blocks before are marked. -/
theorem allocLoop_shows (fits : sblock.BitmapFits) (ready : s.Allocatable sblock) (ctx : Ctx)
    {rounds chunk : Nat} (before : ∀ blockNo, blockNo < chunk * bitPerBlock →
      blockNo < sblock.numBlocks → s.used sblock blockNo = true)
    (total : (sblock.numBlocks + bitPerBlock - 1) / bitPerBlock = chunk + rounds) :
    Prog.Shows Store.serve BlockOp.synced (allocLoop sblock ctx rounds (chunk * bitPerBlock))
      { s with bitmapLock := true } (s.Allocates sblock)
      fun synced => synced = [] ∧
        ∀ blockNo, blockNo < sblock.numBlocks → s.used sblock blockNo = true := by
  have size : bitPerBlock = 4096 := rfl
  have limit : sblock.allocLimit = sblock.numBlocks := if_pos fits.blocks
  induction rounds generalizing chunk with
  | zero =>
    refine .of_none rfl rfl ⟨rfl, fun blockNo inside => before blockNo ?_ inside⟩
    rw [size] at total ⊢
    omega
  | succ rounds ih =>
    have start : chunk * bitPerBlock + 0 < sblock.numBlocks := by
      rw [size] at total ⊢
      omega
    have block := fits.allocBlock_eq (by decide) start
    have free : ({ s with bitmapLock := true } : Store).held
        (sblock.allocBlock (chunk * bitPerBlock)) = false := by
      rw [block, SuperBlock.freeBlock_eq fits.bitmap start]
      exact ready.bitmap _ start
    rw [allocLoop]
    refine .bind (.answered (Store.serve_acquire free) ?_)
    dsimp only
    split
    · rename_i add i found
      rw [limit] at found
      obtain ⟨byte, bit, below, clear, first⟩ := findClear_some found
      have small : add * 8 + i < bitPerBlock := by
        rw [size]
        unfold blockSize at byte
        omega
      rw [Nat.add_assoc] at below
      have bits : (chunk * bitPerBlock + (add * 8 + i)) % bitPerBlock = add * 8 + i := by
        rw [Nat.mul_add_mod_self_right, Nat.mod_eq_of_lt small]
      have block := fits.allocBlock_eq small below
      have unused : s.used sblock (chunk * bitPerBlock + (add * 8 + i)) = false := by
        rw [Store.used, ← block, bits]
        exact clear
      have free₂ : ∀ blocks, ({ s with blocks, bitmapLock := true } : Store).held
          (chunk * bitPerBlock + (add * 8 + i)) = false := fun _ => ready.free _ below unused
      rw [Nat.add_assoc]
      refine Store.change_shows free ctx (.bind (.answered (Store.serve_acquire (free₂ _))
        (Store.change_shows (free₂ _) ctx (.bind (.answered rfl (.ret ?_))))))
      refine ⟨below, unused, fun earlier less => ?_, ?_, ?_⟩
      · by_cases previous : earlier < chunk * bitPerBlock
        · exact before earlier previous (by omega)
        · obtain ⟨index, rfl⟩ := Nat.exists_eq_add_of_le (Nat.le_of_not_lt previous)
          have inside : index < bitPerBlock := by omega
          rw [Store.used, ← fits.allocBlock_eq inside (by omega), Nat.mul_add_mod_self_right,
            Nat.mod_eq_of_lt inside]
          exact first index (by omega)
      · simp only [Store.allocate, Store.put, ← ready.unlocked, ← block, bits,
          show (add * 8 + i) / 8 = add by omega, show (add * 8 + i) % 8 = i by omega]
      · rw [← block]
        rfl
    · rename_i found
      rw [limit] at found
      have next : chunk * bitPerBlock + bitPerBlock = (chunk + 1) * bitPerBlock := by ring
      have before' : ∀ blockNo, blockNo < (chunk + 1) * bitPerBlock →
          blockNo < sblock.numBlocks → s.used sblock blockNo = true := by
        intro blockNo inside valid
        by_cases early : blockNo < chunk * bitPerBlock
        · exact before blockNo early valid
        · obtain ⟨index, rfl⟩ := Nat.exists_eq_add_of_le (Nat.le_of_not_lt early)
          have small : index < bitPerBlock := by omega
          have set := findClear_none found small valid
          rw [Store.used, ← fits.allocBlock_eq small valid, Nat.mul_add_mod_self_right,
            Nat.mod_eq_of_lt small]
          exact set
      have released : Store.serve (.release (sblock.allocBlock (chunk * bitPerBlock)))
          (Store.hold { s with bitmapLock := true } (sblock.allocBlock (chunk * bitPerBlock))) =
            some ((), { s with bitmapLock := true }) :=
        Store.serve_release free s.blocks
      by_cases narrow : chunk * bitPerBlock + bitPerBlock < 2 ^ 31
      · rw [if_pos narrow, next]
        exact .bind (.answered released (ih before' (by omega)))
      · have blocks := fits.blocks
        rw [if_neg narrow]
        exact .bind (.answered released (.of_none rfl rfl
          ⟨rfl, fun blockNo inside => before' blockNo (by omega) inside⟩))

/-- `cache_alloc` takes the first block that is not marked, and returns from nowhere else. -/
theorem cacheAlloc_shows (fits : sblock.BitmapFits) (ready : s.Allocatable sblock) (ctx : Ctx) :
    Prog.Shows Store.serve BlockOp.synced (cacheAlloc sblock ctx) s (s.Allocates sblock)
      fun synced => synced = [] ∧
        ∀ blockNo, blockNo < sblock.numBlocks → s.used sblock blockNo = true := by
  have locked : Store.serve .lockBitmap s = some ((), { s with bitmapLock := true }) := by
    simp [Store.serve, ready.unlocked]
    rfl
  have limit : sblock.allocLimit = sblock.numBlocks := if_pos fits.blocks
  have loop := allocLoop_shows fits ready ctx (by simp) (Nat.zero_add _).symm
  rw [Nat.zero_mul] at loop
  rw [cacheAlloc, limit]
  exact .bind (.answered locked loop)

/-- `cache_alloc` takes the first block that is not marked, and panics where all are. -/
theorem cacheAlloc_run (fits : sblock.BitmapFits) (ready : s.Allocatable sblock) (ctx : Ctx) :
    (∃ blockNo, blockNo < sblock.numBlocks ∧ s.used sblock blockNo = false ∧
      (∀ earlier, earlier < blockNo → s.used sblock earlier = true) ∧
      (cacheAlloc sblock ctx).run Store.serve s = some (blockNo, s.allocate sblock blockNo)) ∨
    ((∀ blockNo, blockNo < sblock.numBlocks → s.used sblock blockNo = true) ∧
      (cacheAlloc sblock ctx).run Store.serve s = none) := by
  have shown := cacheAlloc_shows fits ready ctx
  rw [Prog.Shows] at shown
  cases done : (cacheAlloc sblock ctx).run Store.serve s with
  | none =>
    rw [done] at shown
    exact .inr ⟨shown.2, rfl⟩
  | some result =>
    rw [done] at shown
    refine .inl ⟨result.1, shown.onDisk, shown.clear, shown.first, ?_⟩
    rw [← shown.state]

end Bitmap

end OsLab.Fs
