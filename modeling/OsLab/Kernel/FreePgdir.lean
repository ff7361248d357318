import OsLab.Kernel.Pt

/-!
# Giving a page table back

`free_pgdir` of `src/kernel/pt.c`. It goes through the tables of a page table and gives each of them
back after those below it. The pages that the last tables map are not looked at.
-/
namespace OsLab.Kernel.Pt

open OsLab.Lib OsLab.Aarch64

/-- The indices of a table. -/
def entryIndices : List UInt64 := (List.range 512).map UInt64.ofNat

/-- The turn of the loop in `freePTEntry`, where `free` is the call one level deeper. -/
def freeEntry (free : UInt64 → Mem → Mem) (p : UInt64) (m : Mem) (i : UInt64) : Mem :=
  if m.word (p + 8 * i) ≠ 0 then
    let m := free (p2k (pteAddress (m.word (p + 8 * i)))) m
    { m with word := Function.update m.word (p + 8 * i) 0 }
  else m

/-- `freePTEntry`, with `levels` for `3 - deep`. -/
def freePTEntry : Nat → UInt64 → Mem → Mem
  | 0, p, m => m.kfreePage p
  | levels + 1, p, m =>
    if p = 0 then m.kfreePage p
    else (entryIndices.foldl (freeEntry (freePTEntry levels) p) m).kfreePage p

/-- `free_pgdir`. -/
def freePgdir (s : State) : State :=
  if s.pt = 0 then s else { mem := freePTEntry 3 s.pt s.mem, pt := 0, tables := [] }

/-- The table that `freePTEntry` goes on to. -/
def named (word : UInt64 → UInt64) (table index : UInt64) : Option UInt64 :=
  if index < 512 ∧ word (table + 8 * index) ≠ 0 then
    some (p2k (pteAddress (word (table + 8 * index))))
  else none

/-- The address in an entry is that of a page of the kernel. -/
theorem kernelPage_address (value : UInt64) : KernelPage (p2k (pteAddress value)) := by
  rw [KernelPage, k2p, p2k, UInt64.add_sub_cancel, pteFlags, pteAddress, UInt64.and_assoc]
  have none : ~~~(0xFFFF000000000FFF : UInt64) &&& 0xFFFF000000000FFF = 0 := by decide
  rw [none, UInt64.and_zero]

/-- The indices are those below 512. -/
theorem mem_entryIndices {index : UInt64} : index ∈ entryIndices ↔ index < 512 := by
  unfold entryIndices
  simp only [List.mem_map, List.mem_range, UInt64.lt_iff_toNat_lt]
  constructor
  · rintro ⟨number, small, rfl⟩
    have narrow : number < 2 ^ 64 := by omega
    rw [UInt64.toNat_ofNat_of_lt' narrow]
    exact small
  · exact fun small => ⟨index.toNat, small, UInt64.ofNat_toNat⟩

/-- No index comes twice. -/
theorem nodup_entryIndices : entryIndices.Nodup := by
  unfold entryIndices
  refine List.nodup_range.map_on fun one member other member' same => ?_
  rw [List.mem_range] at member member'
  have narrow : one < 2 ^ 64 := by omega
  have narrow' : other < 2 ^ 64 := by omega
  rw [← UInt64.toNat_ofNat_of_lt' narrow, ← UInt64.toNat_ofNat_of_lt' narrow', same]

/-- Tables are named at indices. -/
theorem named_complete {word : UInt64 → UInt64} (table index next : UInt64)
    (entry : named word table index = some next) : index ∈ entryIndices := by
  simp only [named, Option.ite_none_right_eq_some] at entry
  exact mem_entryIndices.mpr entry.1.1

/-- `kfree_page` was called with these pages, in this order; only they and the pages `changed` were
written. -/
structure Called (calls changed : List UInt64) (m m' : Mem) : Prop where
  ref : ∀ page, KernelPage page →
    m'.ref (Mem.refIndex page) = m.ref (Mem.refIndex page) - calls.count page
  words : ∀ page, KernelPage page → page ∉ calls → page ∉ changed → ∀ index, index < 512 →
    m'.word (page + 8 * index) = m.word (page + 8 * index)
  pagenum : m'.pagenum = m.pagenum
  /-- Pages whose last references these were are on the queue, and no longer counted. -/
  queued : calls.Nodup → (∀ page ∈ calls, m.ref (Mem.refIndex page) = 1) →
    m'.pages = calls.reverse ++ m.pages ∧ m'.allocPageCnt = m.allocPageCnt - calls.length

namespace Called

variable {calls later changed : List UInt64} {m m' m'' : Mem} {page : UInt64}

/-- There was no call. -/
theorem refl (changed : List UInt64) (m : Mem) : Called [] changed m m where
  ref := by simp
  words _ _ _ _ _ _ := rfl
  pagenum := rfl
  queued := by simp

/-- Calls follow each other. -/
theorem trans (first : Called calls changed m m') (second : Called later changed m' m'')
    (kernel : ∀ page ∈ later, KernelPage page) : Called (calls ++ later) changed m m'' where
  ref page kernel' := by
    rw [second.ref page kernel', first.ref page kernel', List.count_append]
    push_cast
    ring
  words page kernel' outside other index small := by
    rw [List.mem_append, not_or] at outside
    rw [second.words page kernel' outside.2 other index small,
      first.words page kernel' outside.1 other index small]
  pagenum := second.pagenum.trans first.pagenum
  queued nodup once := by
    obtain ⟨nodupFirst, nodupLater, apart⟩ := List.nodup_append.mp nodup
    obtain ⟨pages, count⟩ := first.queued nodupFirst fun page member =>
      once page (List.mem_append_left _ member)
    have unused : ∀ page ∈ later, m'.ref (Mem.refIndex page) = 1 := by
      intro page member
      have absent : page ∉ calls := fun earlier => apart page earlier page member rfl
      rw [first.ref page (kernel page member), List.count_eq_zero_of_not_mem absent,
        once page (List.mem_append_right _ member)]
      rfl
    obtain ⟨pages', count'⟩ := second.queued nodupLater unused
    refine ⟨by rw [pages', pages, List.reverse_append, List.append_assoc], ?_⟩
    rw [count', count, List.length_append]
    push_cast
    ring

/-- More pages may have been written. -/
theorem mono (called : Called calls changed m m') (more : List UInt64)
    (wider : ∀ page, KernelPage page → page ∈ changed → page ∈ calls ∨ page ∈ more) :
    Called calls more m m' where
  __ := called
  words page kernel outside other :=
    called.words page kernel outside fun member => (wider page kernel member).elim outside other

/-- One call. -/
theorem kfreePage (kernel : KernelPage page) : Called [page] [] m (m.kfreePage page) := by
  have slot : page + 8 * 0 = page := by rw [UInt64.mul_zero, UInt64.add_zero]
  refine ⟨fun other kernel' => ?_, fun other kernel' outside _ index small => ?_, ?_, fun _ once => ?_⟩
  · have refs : (m.kfreePage page).ref =
        Function.update m.ref (Mem.refIndex page) (m.ref (Mem.refIndex page) - 1) := by
      dsimp only [Mem.kfreePage]
      split <;> rfl
    rw [refs]
    by_cases same : other = page
    · rw [same, Function.update_self, List.count_singleton_self]
      rfl
    · have elsewhere : Mem.refIndex other ≠ Mem.refIndex page := fun equal =>
        same (Mem.refIndex_inj kernel' kernel equal)
      rw [Function.update_of_ne elsewhere, List.count_eq_zero_of_not_mem (by simpa using same)]
      simp
  · rw [List.mem_singleton] at outside
    dsimp only [Mem.kfreePage]
    split
    · refine Function.update_of_ne (fun same => outside ?_) _ _
      exact (kernel'.slot_inj kernel small (by decide) (same.trans slot.symm)).1
    · rfl
  · dsimp only [Mem.kfreePage]
    split <;> rfl
  · rw [Mem.kfreePage_last (once page (by simp))]
    exact ⟨rfl, by simp⟩

/-- A word of a page is written. -/
theorem store (called : Called calls changed m m') {index : UInt64} (kernel : KernelPage page)
    (small : index < 512) (member : page ∈ changed) (value : UInt64) :
    Called calls changed m
      { m' with word := Function.update m'.word (page + 8 * index) value } where
  __ := called
  words other kernel' outside unchanged index' small' := by
    rw [← called.words other kernel' outside unchanged index' small']
    refine Function.update_of_ne (fun same => unchanged ?_) _ _
    rw [(kernel'.slot_inj kernel small' small same).1]
    exact member

end Called

/-- Pages were given back, in this order, and only they and the pages `changed` were written. -/
structure Freed (freed changed : List UInt64) (m m' : Mem) : Prop where
  pages : m'.pages = freed.reverse ++ m.pages
  count : m'.allocPageCnt = m.allocPageCnt - freed.length
  pagenum : m'.pagenum = m.pagenum
  unreferenced : ∀ page ∈ freed, m'.ref (Mem.refIndex page) = 0
  ref : ∀ page, KernelPage page → page ∉ freed →
    m'.ref (Mem.refIndex page) = m.ref (Mem.refIndex page)
  words : ∀ page, KernelPage page → page ∉ freed → page ∉ changed → ∀ index, index < 512 →
    m'.word (page + 8 * index) = m.word (page + 8 * index)

/-- Tables that can be given back: pages of the kernel, referred to once, none of them twice. -/
structure Givable (m : Mem) (tables : List UInt64) : Prop where
  kernel : ∀ table ∈ tables, KernelPage table
  once : ∀ table ∈ tables, m.ref (Mem.refIndex table) = 1
  nodup : tables.Nodup

/-- Calls with pages that are referred to once give them back. -/
theorem Called.freed {calls changed : List UInt64} {m m' : Mem} (called : Called calls changed m m')
    (givable : Givable m calls) : Freed calls changed m m' := by
  obtain ⟨pages, count⟩ := called.queued givable.nodup givable.once
  refine ⟨pages, count, called.pagenum, fun page member => ?_, fun page kernel outside => ?_,
    called.words⟩
  · rw [called.ref page (givable.kernel page member), givable.once page member,
      List.count_eq_one_of_mem givable.nodup member]
    rfl
  · rw [called.ref page kernel, List.count_eq_zero_of_not_mem outside]
    simp

/-- A page that is referred to once is given back. -/
theorem Freed.kfreePage {m : Mem} {page : UInt64} (kernel : KernelPage page)
    (last : m.ref (Mem.refIndex page) = 1) : Freed [page] [] m (m.kfreePage page) :=
  (Called.kfreePage kernel).freed ⟨by simpa using kernel, by simpa using last, by simp⟩

/-- The tables that `freePTEntry` gives back. -/
abbrev below (word : UInt64 → UInt64) (levels : Nat) (p : UInt64) : List UInt64 :=
  Radix.postorder (named word) entryIndices levels p

/-- The tables that the turns of the loop for these indices give back. -/
def belowEntries (word : UInt64 → UInt64) (levels : Nat) (p : UInt64) (todo : List UInt64) :
    List UInt64 :=
  todo.flatMap fun i => (named word p i).elim [] (below word levels)

section Loop

variable {levels : Nat} {p : UInt64} {m m' : Mem}

/-- Entries of a table are as before where its words are. -/
theorem named_congr {word word' : UInt64 → UInt64} {table index : UInt64}
    (same : index < 512 → word' (table + 8 * index) = word (table + 8 * index)) :
    named word' table index = named word table index := by
  unfold named
  by_cases small : index < 512
  · rw [same small]
  · rw [if_neg (by tauto), if_neg (by tauto)]

/-- What is below a table that is still in use does not change while other tables are given
back. -/
theorem below_congr {word word' : UInt64 → UInt64}
    (same : ∀ table ∈ below word levels p, ∀ index, index < 512 →
      word' (table + 8 * index) = word (table + 8 * index)) :
    below word' levels p = below word levels p := by
  refine Radix.postorder_congr fun path last short reached index _ => named_congr fun small => ?_
  exact same last ((Radix.mem_postorder named_complete).mpr ⟨path, by omega, reached⟩) index small

/-- The loop calls `kfree_page` with what is below its entries. -/
theorem freeLoop_called
    (ih : ∀ p m, (∀ table ∈ below m.word levels p, KernelPage table) →
      (below m.word levels p).Nodup →
      Called (below m.word levels p) [] m (freePTEntry levels p m))
    (kernel : KernelPage p) (todo : List UInt64) (small : ∀ i ∈ todo, i < 512)
    (distinct : todo.Nodup)
    (kernels : ∀ table ∈ belowEntries m.word levels p todo, KernelPage table)
    (nodup : (belowEntries m.word levels p todo).Nodup)
    (apart : p ∉ belowEntries m.word levels p todo) :
    Called (belowEntries m.word levels p todo) [p] m
      (todo.foldl (freeEntry (freePTEntry levels) p) m) := by
  induction todo generalizing m with
  | nil => exact .refl [p] m
  | cons i rest ihRest =>
    have here := small i (by simp)
    rw [List.nodup_cons] at distinct
    rw [List.foldl_cons]
    cases entry : named m.word p i with
    | none =>
      have zero : m.word (p + 8 * i) = 0 := by
        by_contra nonzero
        simp [named, here, nonzero] at entry
      have skip : belowEntries m.word levels p (i :: rest) = belowEntries m.word levels p rest := by
        simp [belowEntries, entry]
      rw [skip] at kernels nodup apart ⊢
      rw [freeEntry, if_neg (by simp [zero])]
      exact ihRest (fun j member => small j (by simp [member])) distinct.2 kernels nodup apart
    | some c =>
      obtain ⟨nonzero, address⟩ :
          m.word (p + 8 * i) ≠ 0 ∧ p2k (pteAddress (m.word (p + 8 * i))) = c := by
        simpa [named, here] using entry
      have split : belowEntries m.word levels p (i :: rest) =
          below m.word levels c ++ belowEntries m.word levels p rest := by
        simp [belowEntries, entry]
      rw [split] at kernels nodup apart ⊢
      obtain ⟨nodupHere, nodupRest, disjoint⟩ := List.nodup_append.mp nodup
      rw [List.mem_append, not_or] at apart
      have given := ih c m (fun t member => kernels t (by simp [member])) nodupHere
      have turn : freeEntry (freePTEntry levels) p m i =
          { freePTEntry levels c m with
            word := Function.update (freePTEntry levels c m).word (p + 8 * i) 0 } := by
        rw [freeEntry, if_pos nonzero, address]
      have first := (given.mono [p] (by simp)).store kernel here (by simp) 0
      rw [← turn] at first
      -- The tables of the other entries were not given back, so that they are still found.
      have same : belowEntries (freeEntry (freePTEntry levels) p m i).word levels p rest =
          belowEntries m.word levels p rest := by
        refine List.flatMap_congr fun j member => ?_
        have other : j ≠ i := fun equal => distinct.1 (equal ▸ member)
        have smallJ := small j (by simp [member])
        have entryJ : named (freeEntry (freePTEntry levels) p m i).word p j = named m.word p j := by
          refine named_congr fun _ => ?_
          rw [turn, ← given.words p kernel apart.1 (by simp) j smallJ]
          refine Function.update_of_ne (fun equal => other ?_) _ _
          exact (kernel.slot_inj kernel smallJ here equal).2
        rw [entryJ]
        cases entryHere : named m.word p j with
        | none => rw [Option.elim_none, Option.elim_none]
        | some d =>
          refine below_congr fun table found index smallIndex => ?_
          have listed : table ∈ belowEntries m.word levels p rest :=
            List.mem_flatMap.mpr ⟨j, member, by rwa [entryHere]⟩
          refine first.words table (kernels table (by simp [listed]))
            (fun gone => disjoint table gone table listed rfl) ?_ index smallIndex
          rw [List.mem_singleton]
          rintro rfl
          exact apart.2 listed
      have second := ihRest (m := freeEntry (freePTEntry levels) p m i)
        (fun j member => small j (by simp [member])) distinct.2
      rw [same] at second
      have kernelsRest : ∀ table ∈ belowEntries m.word levels p rest, KernelPage table :=
        fun t member => kernels t (by simp [member])
      exact first.trans (second kernelsRest nodupRest apart.2) kernelsRest

/-- `freePTEntry` calls `kfree_page` with the tables below, and with the table itself. -/
theorem freePTEntry_called (kernels : ∀ table ∈ below m.word levels p, KernelPage table)
    (nodup : (below m.word levels p).Nodup) :
    Called (below m.word levels p) [] m (freePTEntry levels p m) := by
  induction levels generalizing p m with
  | zero => exact .kfreePage (kernels p (List.mem_singleton_self p))
  | succ levels ih =>
    have split : below m.word (levels + 1) p = belowEntries m.word levels p entryIndices ++ [p] :=
      rfl
    rw [split] at kernels nodup ⊢
    obtain ⟨nodupBelow, -, disjoint⟩ := List.nodup_append.mp nodup
    have kernel := kernels p (by simp)
    have apart : p ∉ belowEntries m.word levels p entryIndices := fun member =>
      disjoint p member p (by simp) rfl
    rw [freePTEntry, if_neg kernel.ne_zero]
    have given := freeLoop_called (fun p m => ih) kernel entryIndices
      (fun i member => mem_entryIndices.mp member) nodup_entryIndices
      (fun t member => kernels t (by simp [member])) nodupBelow apart
    have both := given.trans ((Called.kfreePage kernel).mono [p] (by simp)) (by simpa using kernel)
    exact both.mono [] fun t _ member => .inl (List.mem_append_right _ member)

/-- `freePTEntry` gives back the tables below, and the table itself. -/
theorem freePTEntry_freed (givable : Givable m (below m.word levels p)) :
    Freed (below m.word levels p) [] m (freePTEntry levels p m) :=
  (freePTEntry_called givable.kernel givable.nodup).freed givable

end Loop

/-! ## Page tables that `get_pte` made -/

/-- The tables are those of the tree, and above the last ones there is nothing in them but tables
that are valid. -/
structure Whole (s : State) : Prop where
  tables : Tables s
  reached : ∀ table ∈ s.tables, ∃ path : List UInt64, path.length ≤ 3 ∧ s.walk path = some table
  nodup : s.tables.Nodup
  upper : ∀ path : List UInt64, ∀ table, path.length < 3 → s.walk path = some table →
    ∀ index, index < 512 → s.mem.word (table + 8 * index) &&& pteValid = 0 →
      s.mem.word (table + 8 * index) = 0

namespace Whole

variable {s s' : State}

/-- `freePTEntry` finds the tables, each once. -/
theorem below_perm (whole : Whole s) : (below s.mem.word 3 s.pt).Perm s.tables := by
  have complete : ∀ table index next, child s.mem.word table index = some next →
      index ∈ entryIndices := by
    intro table index next entry
    simp only [child, Option.ite_none_right_eq_some] at entry
    exact mem_entryIndices.mpr entry.1.1
  have same : below s.mem.word 3 s.pt =
      Radix.postorder (child s.mem.word) entryIndices 3 s.pt := by
    refine Radix.postorder_congr fun path last short reached index member => ?_
    have small := mem_entryIndices.mp member
    have zero := whole.upper path last short reached index small
    unfold named child
    by_cases valid : s.mem.word (last + 8 * index) &&& pteValid = 0
    · simp [zero valid]
    · have nonzero : s.mem.word (last + 8 * index) ≠ 0 := fun zero => valid (by simp [zero])
      simp [small, valid, nonzero]
  rw [same]
  refine (List.perm_ext_iff_of_nodup ?_ whole.nodup).mpr fun table => ?_
  · exact Radix.nodup_postorder nodup_entryIndices complete whole.tables.tree.apart
  · rw [Radix.mem_postorder complete]
    constructor
    · rintro ⟨path, short, found⟩
      exact whole.tables.inUse short found
    · exact whole.reached table

/-- A change of memory that leaves the tables alone. -/
theorem congr (whole : Whole s) (s' : State) (root : s'.pt = s.pt) (same : s'.tables = s.tables)
    (agree : ∀ table ∈ s.tables, ∀ index, index < 512 →
      s'.mem.word (table + 8 * index) = s.mem.word (table + 8 * index)) : Whole s' := by
  obtain ⟨tables, walks⟩ := whole.tables.congr s' root same agree
  refine ⟨tables, fun table member => ?_, same ▸ whole.nodup, fun path table short found index small
    => ?_⟩
  · obtain ⟨path, short, found⟩ := whole.reached table (same ▸ member)
    exact ⟨path, short, (walks path short).trans found⟩
  · rw [walks path (by omega)] at found
    rw [agree table (whole.tables.inUse (by omega) found) index small]
    exact whole.upper path table short found index small

/-- A store to an entry. -/
theorem store (whole : Whole s) {va pointer : UInt64} (located : s.location va = some pointer)
    (value : UInt64) : Whole (s.store pointer value) := by
  refine ⟨(whole.tables.store located value).1, fun table member => ?_, whole.nodup,
    fun path table short found index small => ?_⟩
  · obtain ⟨path, short, found⟩ := whole.reached table member
    exact ⟨path, short, (whole.tables.store_walk located value short).trans found⟩
  · rw [whole.tables.store_walk located value (by omega)] at found
    rw [whole.tables.store_above located value short found small]
    exact whole.upper path table short found index small

/-- A table is made. -/
theorem grow (whole : Whole s) (fresh : Fresh s) {page part table : UInt64}
    {rest path : List UInt64} (more : s.mem.pages = page :: rest) (short : path.length < 3)
    (found : s.walk path = some table) (small : part < 512)
    (absent : child s.mem.word table part = none) : Whole (s.grow table part page rest) := by
  have kernel := fresh.kernel page (by simp [more])
  have unused := fresh.unused page (by simp [more])
  have kernelTable := whole.tables.kernel table (whole.tables.inUse (by omega) found)
  have walks := fun (other : List UInt64) (short' : other.length ≤ 3) =>
    whole.tables.walk_grow rest short found small absent kernel unused short'
  refine ⟨whole.tables.grow rest short found small absent kernel unused, fun last member => ?_,
    List.nodup_cons.mpr ⟨unused, whole.nodup⟩, fun other last short' reached index small' => ?_⟩
  · rcases List.mem_cons.mp member with rfl | member
    · exact ⟨path ++ [part], by simp; omega, by rw [walks _ (by simp; omega), if_pos rfl]⟩
    · obtain ⟨other, short', reached⟩ := whole.reached last member
      refine ⟨other, short', ?_⟩
      rw [walks other short', if_neg, reached]
      rintro rfl
      rw [State.walk, Radix.walk_concat] at reached
      rw [State.walk] at found
      rw [found, Option.bind_some, absent] at reached
      exact absurd reached (by simp)
  · rw [walks other (by omega)] at reached
    have member := whole.tables.inUse (by omega) found
    split at reached
    · obtain rfl := Option.some.inj reached
      have different : page ≠ table := fun same => unused (same ▸ member)
      rw [grow_word kernelTable small kernel kernel small', if_neg (by tauto), if_pos rfl]
      exact fun _ => rfl
    · have old := whole.tables.inUse (by omega) reached
      have different : last ≠ page := fun same => unused (same ▸ old)
      rw [grow_word kernelTable small kernel (whole.tables.kernel last old) small',
        if_neg different]
      split
      · have valid : (k2p page ||| pteTable) &&& pteValid ≠ 0 := by
          rw [kernel.entry_and pteTable (by decide)]
          decide
        exact fun invalid => absurd invalid valid
      · exact whole.upper other last short' reached index small'

/-- One level of `get_pte`. -/
theorem nextTable (whole : Whole s) (fresh : Fresh s) {part table below : UInt64}
    (path : List UInt64) (short : path.length < 3) (found : s.walk path = some table)
    (small : part < 512) (ran : Pt.nextTable part true table s = some (some below, s')) :
    Whole s' := by
  cases entry : child s.mem.word table part with
  | some next =>
    rw [nextTable_present entry] at ran
    obtain ⟨-, rfl⟩ := Prod.mk.inj (Option.some.inj ran)
    exact whole
  | none =>
    cases more : s.mem.pages with
    | nil =>
      rw [nextTable_stuck small entry more] at ran
      exact absurd ran (by simp)
    | cons page rest =>
      rw [nextTable_made small entry more (fresh.kernel page (by simp [more]))] at ran
      obtain ⟨-, rfl⟩ := Prod.mk.inj (Option.some.inj ran)
      exact whole.grow fresh more short found small entry

/-- `get_pte`. -/
theorem getPte (whole : Whole s) (fresh : Fresh s) {va : UInt64} {result : Option UInt64}
    (ran : Pt.getPte s va true = some (result, s')) : Whole s' := by
  obtain ⟨small0, small1, small2, -⟩ := vaParts_lt va
  rw [Pt.getPte, whole.tables.root, Result.andThen_table] at ran
  obtain ⟨p1, -, s1, first, tables1, fresh1, -, -, found1, ran⟩ :=
    whole.tables.descend fresh [] (by simp) rfl small0 ran
  have whole1 := whole.nextTable fresh [] (by simp) rfl small0 first
  obtain ⟨p2, -, s2, second, tables2, fresh2, -, -, found2, ran⟩ :=
    tables1.descend fresh1 [vaPart0 va] (by simp) found1 small1 ran
  have whole2 := whole1.nextTable fresh1 [vaPart0 va] (by simp) found1 small1 second
  obtain ⟨p3, -, s3, third, -, -, -, -, -, ran⟩ :=
    tables2.descend fresh2 [vaPart0 va, vaPart1 va] (by simp) found2 small2 ran
  have whole3 := whole2.nextTable fresh2 [vaPart0 va, vaPart1 va] (by simp) found2 small2 third
  obtain ⟨-, rfl⟩ := Prod.mk.inj (Option.some.inj ran)
  exact whole3

/-- `init_pgdir`. -/
theorem initPgdir {mem : Mem} {page : UInt64} {rest : List UInt64}
    (more : mem.pages = page :: rest) (kernel : KernelPage page)
    (made : Pt.initPgdir mem = some s) : Whole s := by
  obtain ⟨s', made', tables, -⟩ := initPgdir_some more kernel
  obtain rfl := Option.some.inj (made.symm.trans made')
  obtain rfl := Option.some.inj ((initPgdir_eq more kernel).symm.trans made)
  have zero : ∀ index, index < 512 → clearPage mem.word page (page + 8 * index) = 0 :=
    fun index small => overwrite_inside small
  refine ⟨tables, fun table member => ⟨[], by simp, ?_⟩, by simp, fun path table short found index
    small _ => ?_⟩
  · rw [List.mem_singleton.mp member]
    rfl
  · have root := tables.inUse (by omega) found
    rw [List.mem_singleton.mp root]
    exact zero index small

/-- `free_pgdir` calls `kfree_page` with the tables. -/
theorem freePgdir_called (whole : Whole s) :
    ∃ calls, calls.Perm s.tables ∧ Called calls [] s.mem (Pt.freePgdir s).mem ∧
      (Pt.freePgdir s).pt = 0 ∧ (Pt.freePgdir s).tables = [] := by
  have perm := whole.below_perm
  have root := whole.tables.tree.inUse [] s.pt (by simp) rfl
  have called : Called (below s.mem.word 3 s.pt) [] s.mem (freePTEntry 3 s.pt s.mem) :=
    freePTEntry_called (fun table member => whole.tables.kernel table (perm.mem_iff.mp member))
      (perm.nodup_iff.mpr whole.nodup)
  rw [Pt.freePgdir, if_neg (whole.tables.kernel s.pt root).ne_zero]
  exact ⟨_, perm, called, rfl, rfl⟩

/-- `free_pgdir` gives the tables back. -/
theorem freePgdir (whole : Whole s) (once : ∀ table ∈ s.tables, s.mem.ref (Mem.refIndex table) = 1) :
    ∃ freed, freed.Perm s.tables ∧ Freed freed [] s.mem (Pt.freePgdir s).mem ∧
      (Pt.freePgdir s).pt = 0 ∧ (Pt.freePgdir s).tables = [] := by
  obtain ⟨calls, perm, called, root, empty⟩ := whole.freePgdir_called
  refine ⟨calls, perm, called.freed ⟨fun table member => ?_, fun table member => ?_, ?_⟩, root, empty⟩
  · exact whole.tables.kernel table (perm.mem_iff.mp member)
  · exact once table (perm.mem_iff.mp member)
  · exact perm.nodup_iff.mpr whole.nodup

/-- Every step of the users of a page table. -/
theorem step {run run' : Run} (whole : Whole run.pgdir) (located : Located run) {act : Act}
    (met : NotInUse run act) (taken : run.step act = some run') : Whole run'.pgdir := by
  cases act with
  | get va alloc pages =>
    simp only [Run.step, Option.map_eq_some_iff, Prod.exists] at taken
    obtain ⟨result, pgdir, ran, rfl⟩ := taken
    have supplied : Whole (run.pgdir.supplied pages) :=
      whole.congr (run.pgdir.supplied pages) rfl rfl fun _ _ _ _ => rfl
    cases alloc with
    | false =>
      rw [supplied.tables.getPte_false] at ran
      obtain ⟨-, rfl⟩ := Prod.mk.inj (Option.some.inj ran)
      exact supplied
    | true => exact supplied.getPte met ran
  | store pointer value =>
    simp only [Run.step, Option.ite_none_right_eq_some, Option.some.injEq, List.mem_map,
      Prod.exists, exists_eq_right] at taken
    obtain ⟨⟨va, member⟩, rfl⟩ := taken
    exact whole.store (located.returned va pointer member) value

/-- In every run of the users of a page table. -/
theorem of_reach {run : Run} (reached : machine.Reach NotInUse run) : Whole run.pgdir := by
  have both : Located run ∧ Whole run.pgdir := by
    refine reached.invariant (P := fun run => Located run ∧ Whole run.pgdir) ?_ ?_
    · intro run initial
      refine ⟨Located.init initial, ?_⟩
      obtain ⟨mem, page, rest, more, kernel, made, -, -⟩ := initial
      exact Whole.initPgdir more kernel made
    · rintro run act run' - ⟨located, whole⟩ met taken
      exact ⟨located.step met taken, whole.step located met taken⟩
  exact both.2

end Whole

/-- `free_pgdir` releases the table pages and nothing else. After any run of `get_pte` and of stores
to entries, it calls `kfree_page` once with each page that was allocated for a table, and with no
other page: a call takes one reference from its page, and nothing else does. In particular the pages
that entries point to keep their references and their words, unless they are tables themselves.
The page table is empty then, and releasing it again does nothing. -/
theorem free_pgdir_releases_tables {run : Run} (reached : machine.Reach NotInUse run) :
    run.pgdir.tables.Nodup ∧
    (∀ page, KernelPage page → (freePgdir run.pgdir).mem.ref (Mem.refIndex page) =
      run.pgdir.mem.ref (Mem.refIndex page) - if page ∈ run.pgdir.tables then 1 else 0) ∧
    (∀ va value page, run.pgdir.entry va = some value → page = p2k (pteAddress value) →
      page ∉ run.pgdir.tables →
        (freePgdir run.pgdir).mem.ref (Mem.refIndex page) =
          run.pgdir.mem.ref (Mem.refIndex page) ∧
        ∀ index, index < 512 → (freePgdir run.pgdir).mem.word (page + 8 * index) =
          run.pgdir.mem.word (page + 8 * index)) ∧
    (freePgdir run.pgdir).pt = 0 ∧
    freePgdir (freePgdir run.pgdir) = freePgdir run.pgdir := by
  have whole := Whole.of_reach reached
  obtain ⟨calls, perm, called, root, -⟩ := whole.freePgdir_called
  have refs : ∀ page, KernelPage page → (freePgdir run.pgdir).mem.ref (Mem.refIndex page) =
      run.pgdir.mem.ref (Mem.refIndex page) - if page ∈ run.pgdir.tables then 1 else 0 := by
    intro page kernel
    rw [called.ref page kernel, perm.count_eq, whole.nodup.count]
    split <;> rfl
  refine ⟨whole.nodup, refs, fun va value page _ address outside => ?_, root, ?_⟩
  · have kernel : KernelPage page := address ▸ kernelPage_address value
    refine ⟨by rw [refs page kernel, if_neg outside, sub_zero], fun index small => ?_⟩
    exact called.words page kernel (fun member => outside (perm.mem_iff.mp member)) (by simp) index
      small
  · rw [freePgdir.eq_def (freePgdir run.pgdir), if_pos root]

/-- A page table with one entry, which names a page of the process: its four tables are released,
and the page is not. -/
theorem free_pgdir_releases_tables_entry : ∃ run, machine.Reach NotInUse run ∧
    run.pgdir.tables = [0xffff000000204000, 0xffff000000203000, 0xffff000000202000,
      0xffff000000201000] ∧
    run.pgdir.entry 0x1234 = some 0x205647 ∧ (freePgdir run.pgdir).pt = 0 ∧
    (freePgdir run.pgdir).mem.ref 0x204 = run.pgdir.mem.ref 0x204 - 1 ∧
    (freePgdir run.pgdir).mem.ref 0x205 = run.pgdir.mem.ref 0x205 := by
  obtain ⟨pgdir, made⟩ : ∃ pgdir, initPgdir oneFreePage = some pgdir := ⟨_, rfl⟩
  have initial : machine.init ⟨pgdir, [], []⟩ :=
    ⟨oneFreePage, _, _, rfl, by decide, made, rfl, rfl⟩
  have shown : (machine.exec NotInUse ⟨pgdir, [], []⟩
      [.get 0x1234 true [0xffff000000202000, 0xffff000000203000, 0xffff000000204000],
        .store 0xffff000000204008 0x205647]).map
      (fun run => (run.pgdir.tables, run.pgdir.entry 0x1234)) =
      some ([0xffff000000204000, 0xffff000000203000, 0xffff000000202000, 0xffff000000201000],
        some 0x205647) := by
    obtain rfl := Option.some.inj made
    decide +kernel
  obtain ⟨run, reached, observed⟩ := Machine.Reach.exec_map initial shown
  obtain ⟨tables, entry⟩ := Prod.mk.inj observed
  obtain ⟨-, refs, kept, root, -⟩ := free_pgdir_releases_tables reached
  refine ⟨run, reached, tables, entry, root, ?_, ?_⟩
  · have table := refs 0xffff000000204000 (by decide)
    rwa [tables, if_pos (by decide)] at table
  · exact (kept 0x1234 0x205647 0xffff000000205000 entry (by decide) (by rw [tables]; decide)).1

end OsLab.Kernel.Pt
