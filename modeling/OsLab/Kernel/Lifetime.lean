import OsLab.Kernel.Vm
import OsLab.Kernel.HeapPages

/-!
# The pages of a process

What a process takes from the page allocator between its creation and the `wait` of its parent, and
what of it goes back. `init_proc` takes a root table and a kernel stack; page faults, `fork` and
`execve` take tables and pages; `sbrk` gives pages back, `exit` and `execve` give tables back, and
`wait` the kernel stack. Nothing gives the pages back that a page table maps when it is given up,
and the root table that `init_proc` made for a forked process is forgotten.
-/
namespace OsLab.Kernel.Lifetime

open OsLab.Lib OsLab.Aarch64 OsLab.Kernel.Paging
open OsLab.Kernel.HeapPages (memory memory_pages emptyHeap)

/-! ## Accounts -/

/-- Where the pages `all` are: on the queue, or taken and in `out`. -/
structure Books (all : List UInt64) (m : Mem) (out : List UInt64) : Prop where
  kernel : ∀ page ∈ all, KernelPage page
  nodup : all.Nodup
  perm : (m.pages ++ out).Perm all
  free : ∀ page ∈ m.pages, m.ref (Mem.refIndex page) = 0
  taken : ∀ page ∈ out, m.ref (Mem.refIndex page) = 1
  counted : m.pagenum - m.allocPageCnt = m.pages.length

namespace Books

variable {all out out' : List UInt64} {m m' : Mem} {page : UInt64}

/-- The order of the pages that were taken is no part of this. -/
theorem congr (books : Books all m out) (same : out.Perm out') : Books all m out' where
  kernel := books.kernel
  nodup := books.nodup
  perm := (same.symm.append_left m.pages).trans books.perm
  free := books.free
  taken page member := books.taken page (same.mem_iff.mpr member)
  counted := books.counted

/-- The words of memory are no part of this. -/
theorem words (books : Books all m out) (word : UInt64 → UInt64) :
    Books all { m with word } out :=
  ⟨books.kernel, books.nodup, books.perm, books.free, books.taken, books.counted⟩

/-- Every page is known. -/
theorem mem_iff (books : Books all m out) : page ∈ all ↔ page ∈ m.pages ∨ page ∈ out := by
  rw [← books.perm.mem_iff, List.mem_append]

/-- No page is in two places. -/
theorem apart (books : Books all m out) : (m.pages ++ out).Nodup :=
  books.perm.nodup_iff.mpr books.nodup

/-- Pages are taken. -/
theorem take (books : Books all m out) (taken : List UInt64) (pages : m.pages = taken ++ m'.pages)
    (count : m'.allocPageCnt = m.allocPageCnt + taken.length) (pagenum : m'.pagenum = m.pagenum)
    (ref : ∀ page, KernelPage page →
      m'.ref (Mem.refIndex page) = m.ref (Mem.refIndex page) + taken.count page) :
    Books all m' (taken ++ out) := by
  have apart := books.apart
  rw [pages, List.append_assoc] at apart
  obtain ⟨nodup, -, others⟩ := List.nodup_append.mp apart
  have kernel : ∀ page, page ∈ m.pages ∨ page ∈ out → KernelPage page := fun page member =>
    books.kernel page (books.mem_iff.mpr member)
  refine ⟨books.kernel, books.nodup, ?_, fun page member => ?_, fun page member => ?_, ?_⟩
  · refine List.Perm.trans ?_ books.perm
    rw [pages, ← List.append_assoc]
    exact List.perm_append_comm.append_right out
  · have outside : page ∉ taken := fun found => others page found page (by simp [member]) rfl
    have before : page ∈ m.pages := by rw [pages]; exact List.mem_append_right _ member
    rw [ref page (kernel page (.inl before)), List.count_eq_zero_of_not_mem outside,
      books.free page before]
    rfl
  · rcases List.mem_append.mp member with found | found
    · have before : page ∈ m.pages := by rw [pages]; exact List.mem_append_left _ found
      rw [ref page (kernel page (.inl before)), List.count_eq_one_of_mem nodup found,
        books.free page before]
      rfl
    · have outside : page ∉ taken := fun found' => others page found' page (by simp [found]) rfl
      rw [ref page (kernel page (.inr found)), List.count_eq_zero_of_not_mem outside,
        books.taken page found]
      rfl
  · have counted := books.counted
    rw [pages, List.length_append] at counted
    push_cast at counted
    omega

/-- A page is taken by `kalloc_page`. -/
theorem kallocPage (books : Books all m out) {rest : List UInt64} (more : m.pages = page :: rest) :
    Books all m.kallocPage.2 (page :: out) := by
  have kernel := books.kernel page (books.mem_iff.mpr (.inl (by simp [more])))
  refine books.take [page] (by simp [Mem.kallocPage, more]) (by simp [Mem.kallocPage])
    rfl fun other kernel' => ?_
  by_cases same : other = page
  · subst same
    simp [Mem.kallocPage, more]
  · have elsewhere : Mem.refIndex other ≠ Mem.refIndex page := fun equal =>
      same (Mem.refIndex_inj kernel' kernel equal)
    simp [Mem.kallocPage, more, Function.update_of_ne elsewhere, Ne.symm same]

/-- Pages are given back. -/
theorem give (books : Books all m out) {freed changed : List UInt64}
    (given : Pt.Freed freed changed m m') (split : out.Perm (freed ++ out')) :
    Books all m' out' := by
  have kernel : ∀ page, page ∈ m.pages ∨ page ∈ out → KernelPage page := fun page member =>
    books.kernel page (books.mem_iff.mpr member)
  have apart := books.apart
  obtain ⟨-, nodup, others⟩ := List.nodup_append.mp apart
  obtain ⟨-, -, others'⟩ := List.nodup_append.mp (split.nodup_iff.mp nodup)
  have inside : ∀ page, page ∈ freed ∨ page ∈ out' → page ∈ out := fun page member =>
    split.mem_iff.mpr (List.mem_append.mpr member)
  refine ⟨books.kernel, books.nodup, ?_, fun page member => ?_, fun page member => ?_, ?_⟩
  · refine List.Perm.trans ?_ books.perm
    refine List.Perm.trans ?_ (split.symm.append_left m.pages)
    rw [given.pages, ← List.append_assoc]
    refine List.Perm.append_right out' ?_
    exact List.perm_append_comm.trans ((List.reverse_perm freed).append_left m.pages)
  · rw [given.pages, List.mem_append, List.mem_reverse] at member
    rcases member with found | found
    · exact given.unreferenced page found
    · have outside : page ∉ freed := fun found' =>
        others page found page (inside page (.inl found')) rfl
      rw [given.ref page (kernel page (.inl found)) outside]
      exact books.free page found
  · have before := inside page (.inr member)
    have outside : page ∉ freed := fun found => others' page found page member rfl
    rw [given.ref page (kernel page (.inr before)) outside]
    exact books.taken page before
  · have counted := books.counted
    rw [given.pagenum, given.count, given.pages]
    simp only [List.length_append, List.length_reverse]
    push_cast
    omega

/-- A page is given back by `kfree_page`. -/
theorem kfreePage (books : Books all m out) (split : out.Perm (page :: out')) :
    Books all (m.kfreePage page) out' := by
  have member : page ∈ out := split.mem_iff.mpr (List.mem_cons_self ..)
  exact books.give (.kfreePage (books.kernel page (books.mem_iff.mpr (.inr member)))
    (books.taken page member)) split

/-- There are as many pages as `left_page_cnt` says. -/
theorem leftPageCnt_le (books : Books all m out) : m.leftPageCnt ≤ m.pages.length := by
  have counted := books.counted
  rw [Mem.leftPageCnt, counted]
  omega

end Books

/-! ## A process -/

/-- The pages that a page table maps, each with an address. -/
structure Maps (pgdir : Pt.State) (frames : List (UInt64 × UInt64)) : Prop where
  mapped : ∀ va value, pgdir.entry va = some value → value ≠ 0 →
    ∃ pair ∈ frames, SamePage pair.1 va ∧ value = k2p pair.2 ||| pteUserData
  listed : ∀ pair ∈ frames, pgdir.entry pair.1 = some (k2p pair.2 ||| pteUserData)

/-- The tables name nothing but tables. -/
def Unmapped (pgdir : Pt.State) : Prop :=
  ∀ table ∈ pgdir.tables, ∀ index ∈ Pt.entryIndices, pgdir.mem.word (table + 8 * index) = 0 ∨
    p2k (pteAddress (pgdir.mem.word (table + 8 * index))) ∈ pgdir.tables

instance (pgdir : Pt.State) : Decidable (Unmapped pgdir) := by
  unfold Unmapped
  infer_instance

/-- A process with its tables, the pages it maps and its kernel stack, beside the pages of others. -/
structure Owns (all others : List UInt64) (kstack : UInt64) (frames : List (UInt64 × UInt64))
    (s : State) : Prop where
  whole : Pt.Whole s.pgdir
  maps : Maps s.pgdir frames
  books : Books all s.pgdir.mem (s.pgdir.tables ++ (frames.map Prod.snd ++ kstack :: others))
  /-- `ST_SWAP` is set only while nothing is mapped. -/
  plain : s.sec.flags &&& stSwap = 0 ∨ frames = []

namespace Owns

variable {all others : List UInt64} {kstack va : UInt64} {frames : List (UInt64 × UInt64)}
  {s s' : State}

/-- Free pages are not tables. -/
theorem fresh (owns : Owns all others kstack frames s) : Pt.Fresh s.pgdir := by
  obtain ⟨nodup, -, apart⟩ := List.nodup_append.mp owns.books.apart
  refine ⟨fun page member => owns.books.kernel page (owns.books.mem_iff.mpr (.inl member)), nodup,
    fun page member table => ?_⟩
  exact apart page member page (List.mem_append_left _ table) rfl

/-- Pages that are mapped are pages, and not tables. -/
theorem frame (owns : Owns all others kstack frames s) {pair : UInt64 × UInt64}
    (member : pair ∈ frames) : KernelPage pair.2 ∧ pair.2 ∉ s.pgdir.tables := by
  have found : pair.2 ∈ frames.map Prod.snd := List.mem_map_of_mem member
  obtain ⟨-, nodup, -⟩ := List.nodup_append.mp owns.books.apart
  obtain ⟨-, -, apart⟩ := List.nodup_append.mp nodup
  refine ⟨owns.books.kernel pair.2 (owns.books.mem_iff.mpr (.inr ?_)), fun table => ?_⟩
  · exact List.mem_append_right _ (List.mem_append_left _ found)
  · exact apart pair.2 table pair.2 (List.mem_append_left _ found) rfl

/-- Nothing is mapped. -/
theorem unmapped (owns : Owns all others kstack [] s) {value : UInt64}
    (entry : s.pgdir.entry va = some value) : value = 0 := by
  by_contra nonzero
  obtain ⟨pair, member, -⟩ := owns.maps.mapped va value entry nonzero
  exact absurd member List.not_mem_nil

/-- `get_pte` makes the tables that are missing. -/
theorem grow (owns : Owns all others kstack frames s) {pte : UInt64} {pgdir : Pt.State}
    (got : Pt.getPte s.pgdir va true = some (some pte, pgdir)) :
    Owns all others kstack frames { s with pgdir } ∧
      s.pgdir.mem.leftPageCnt ≤ pgdir.mem.leftPageCnt + 3 ∧
      pgdir.entry va = some (pgdir.mem.word pte) := by
  obtain ⟨pte', taken, same, located, -, -, grown, few⟩ :=
    owns.whole.tables.getPte_true owns.fresh got
  obtain rfl := Option.some.inj same
  have books := owns.books.take taken grown.pages grown.count grown.pagenum grown.ref
  refine ⟨⟨owns.whole.getPte owns.fresh got, ⟨fun other value entry nonzero => ?_,
    fun pair member => grown.entry_kept (owns.maps.listed pair member)⟩, ?_, owns.plain⟩, ?_,
    by rw [Pt.State.entry, located]; rfl⟩
  · exact owns.maps.mapped other value ((grown.entry entry).resolve_left nonzero) nonzero
  · refine books.congr ?_
    rw [← List.append_assoc]
    exact grown.tables.symm.append_right _
  · have before := owns.books.counted
    have after := books.counted
    have pages := congrArg List.length grown.pages
    rw [List.length_append] at pages
    simp only [Mem.leftPageCnt, before, after]
    omega

/-- The first access to a page, while there is memory. -/
theorem first (owns : Owns all others kstack frames s) (plain : s.sec.flags &&& stSwap = 0)
    (unused : (s.pgdir.entry va).getD 0 = 0)
    (left : reversedPages + 3 < s.pgdir.mem.leftPageCnt) (ran : pgfault s va = some s') :
    ∃ page, Owns all others kstack ((va, page) :: frames) s' := by
  obtain ⟨pgdir, pte, -, got, tables, -, -, -, located, zero, shape⟩ :=
    pgfault_first owns.whole.tables owns.fresh unused plain ran
  obtain ⟨owned, few, now⟩ := owns.grow got
  obtain ⟨-, here, elsewhere⟩ := tables_first tables located shape
  have whole : Pt.Whole s'.pgdir := by
    have agree : ∀ table ∈ pgdir.tables, ∀ index, index < 512 →
        (allocPageForUser pgdir.mem).2.word (table + 8 * index) =
          pgdir.mem.word (table + 8 * index) := by
      intro table _ index _
      rw [allocPageForUser_word]
    have moved := tables.entry_of_agree { pgdir with mem := (allocPageForUser pgdir.mem).2 } rfl rfl
      agree va
    rw [shape]
    exact (owned.whole.congr { pgdir with mem := (allocPageForUser pgdir.mem).2 } rfl rfl
      agree).store (moved.1.trans located) _
  have left' : reversedPages < pgdir.mem.leftPageCnt := by omega
  have some : pgdir.mem.leftPageCnt ≤ pgdir.mem.pages.length := owned.books.leftPageCnt_le
  cases more : pgdir.mem.pages with
  | nil =>
    rw [more, List.length_nil] at some
    omega
  | cons page rest =>
    have allocated : allocPageForUser pgdir.mem = (page, pgdir.mem.kallocPage.2) := by
      rw [allocPageForUser, if_neg (by omega), Mem.kallocPage, more]
      rfl
    rw [allocated] at shape here
    refine ⟨page, whole, ⟨fun other value entry nonzero => ?_, fun pair member => ?_⟩, ?_, ?_⟩
    · by_cases same : SamePage va other
      · rw [← Pt.entry_congr same, here] at entry
        exact ⟨(va, page), by simp, same, (Option.some.inj entry).symm⟩
      · rw [elsewhere other same] at entry
        obtain ⟨pair, member, found⟩ := owned.maps.mapped other value entry nonzero
        exact ⟨pair, List.mem_cons_of_mem _ member, found⟩
    · rcases List.mem_cons.mp member with rfl | member
      · exact here
      · have listed := owned.maps.listed pair member
        have different : ¬ SamePage va pair.1 := by
          intro same
          rw [← Pt.entry_congr same, now, zero] at listed
          exact userEntry_ne_zero (owns.frame member).1 (Option.some.inj listed).symm
        rw [elsewhere pair.1 different]
        exact listed
    · rw [shape]
      exact ((owned.books.kallocPage more).words _).congr List.perm_middle.symm
    · rw [shape]
      exact .inl plain

/-- `swapin` where nothing is mapped only clears the flag. -/
theorem swapin (owns : Owns all others kstack [] s) (ran : Paging.swapin s = some s') :
    Owns all others kstack [] s' ∧ s'.inuse = s.inuse := by
  have turn : ∀ va, swapinPage va s = some s := by
    intro va
    cases entry : s.pgdir.entry va with
    | none => exact State.withPte_absent owns.whole.tables entry _
    | some value =>
      obtain ⟨pte, -, -, reads⟩ := State.withPte_present owns.whole.tables entry _
      rw [swapinPage, reads, if_pos (owns.unmapped entry)]
  rw [Paging.swapin, forPages_same fun _ _ => turn _, Option.map_some] at ran
  obtain rfl := Option.some.inj (Option.ite_none_left_eq_some.mp ran).2
  exact ⟨⟨owns.whole, owns.maps, owns.books, .inr rfl⟩, rfl⟩

/-- A page fault where nothing is mapped and the flag is set. -/
theorem pgfault_swapped (owns : Owns all others kstack [] s)
    (swapped : s.sec.flags &&& stSwap ≠ 0) (ran : Paging.pgfault s va = some s') :
    Owns all others kstack [] s' ∧ s'.inuse = s.inuse := by
  simp only [Paging.pgfault, Option.bind_eq_some_iff, Prod.exists] at ran
  obtain ⟨_, pgdir, got, pte, rfl, ran⟩ := ran
  obtain ⟨owned, -, now⟩ := owns.grow got
  rw [if_pos (owned.unmapped now), if_pos swapped] at ran
  exact owned.swapin ran

/-- A page fault, while there is memory. -/
theorem pgfault (owns : Owns all others kstack frames s)
    (left : reversedPages + 3 < s.pgdir.mem.leftPageCnt) (ran : Paging.pgfault s va = some s') :
    ∃ frames', Owns all others kstack frames' s' ∧
      ∀ pair ∈ frames', pair ∈ frames ∨ pair.1 = va := by
  by_cases swapped : s.sec.flags &&& stSwap ≠ 0
  · obtain rfl := owns.plain.resolve_left swapped
    exact ⟨[], (owns.pgfault_swapped swapped ran).1, by simp⟩
  by_cases unused : (s.pgdir.entry va).getD 0 = 0
  · obtain ⟨page, owns'⟩ := owns.first (not_not.mp swapped) unused left ran
    refine ⟨_, owns', fun pair member => ?_⟩
    rcases List.mem_cons.mp member with rfl | member
    · exact .inr rfl
    · exact .inl member
  · -- A page that is mapped may be read and written, so that there is nothing to do.
    cases entry : s.pgdir.entry va with
    | none => exact absurd (by rw [entry]; rfl) unused
    | some value =>
      rw [entry] at unused
      obtain ⟨pair, member, -, rfl⟩ := owns.maps.mapped va value entry unused
      obtain ⟨kernel, -⟩ := owns.frame member
      rw [Pt.State.entry, Option.map_eq_some_iff] at entry
      obtain ⟨pte, located, word⟩ := entry
      have valid : (k2p pair.2 ||| pteUserData) &&& pteValid ≠ 0 := by
        rw [kernel.entry_and pteUserData (by decide)]
        decide
      have writable : (k2p pair.2 ||| pteUserData) &&& pteRo = 0 := by
        rw [kernel.entry_and pteUserData (by decide)]
        decide
      simp only [Paging.pgfault, owns.whole.tables.getPte_located located, Option.bind_some, word,
        userEntry_ne_zero kernel, if_false, writable, ne_eq, not_true_eq_false, valid, false_and,
        Option.some.injEq] at ran
      exact ⟨frames, ran ▸ owns, fun pair member => .inl member⟩

/-- Pages without an entry are not among those that are mapped. -/
theorem unlisted (owns : Owns all others kstack frames s)
    (unused : (s.pgdir.entry va).getD 0 = 0) : ∀ pair ∈ frames, ¬ SamePage va pair.1 := by
  intro pair member same
  rw [Pt.entry_congr same, owns.maps.listed pair member, Option.getD_some] at unused
  exact userEntry_ne_zero (owns.frame member).1 unused

/-- The entry of a page is cleared and the page given back. -/
theorem unmap (owns : Owns all others kstack frames s) {pair : UInt64 × UInt64}
    (member : pair ∈ frames) (same : SamePage pair.1 va) {pte : UInt64} {mem : Mem}
    (located : s.pgdir.location va = some pte) (freed : s.pgdir.mem.kfreePage pair.2 = mem) :
    Owns all others kstack (frames.erase pair) ((s.setMem mem).store pte 0) ∧
      ((s.setMem mem).store pte 0).pgdir.entry va = some 0 := by
  obtain ⟨kernel, outside⟩ := owns.frame member
  have split := List.perm_cons_erase member
  have accounts : (s.pgdir.tables ++ (frames.map Prod.snd ++ kstack :: others)).Perm
      (pair.2 :: (s.pgdir.tables ++ ((frames.erase pair).map Prod.snd ++ kstack :: others))) :=
    (((split.map Prod.snd).append_right _).append_left _).trans List.perm_middle
  have once : pair.2 ∉ (frames.erase pair).map Prod.snd := by
    obtain ⟨-, nodup, -⟩ := List.nodup_append.mp owns.books.apart
    have found := (List.nodup_cons.mp (accounts.nodup_iff.mp nodup)).1
    simp only [List.mem_append, not_or] at found
    exact found.2.1
  have books := owns.books.kfreePage accounts
  have given : Pt.Freed [pair.2] [] s.pgdir.mem mem := by
    rw [← freed]
    exact .kfreePage kernel (owns.books.taken pair.2 (accounts.mem_iff.mpr (by simp)))
  rw [freed] at books
  have agree : ∀ table ∈ s.pgdir.tables, ∀ index, index < 512 →
      mem.word (table + 8 * index) = s.pgdir.mem.word (table + 8 * index) := by
    intro table found index small
    refine given.words table (owns.whole.tables.kernel table found) ?_ (by simp) index small
    rw [List.mem_singleton]
    rintro rfl
    exact outside found
  have whole := owns.whole.congr { s.pgdir with mem } rfl rfl agree
  have kept := owns.whole.tables.entry_of_agree { s.pgdir with mem } rfl rfl agree
  have located' := (kept va).1.trans located
  have here := whole.tables.entry_store_same located' 0
  have elsewhere : ∀ other, ¬ SamePage va other →
      ((s.setMem mem).store pte 0).pgdir.entry other = s.pgdir.entry other := fun other different =>
    (whole.tables.entry_store_other located' 0 different).trans (kept other).2
  refine ⟨⟨whole.store located' 0, ⟨fun other value entry nonzero => ?_,
    fun pair' member' => ?_⟩, books.words _, owns.plain.imp_right fun none => by simp [none]⟩, here⟩
  · by_cases this : SamePage va other
    · rw [← Pt.entry_congr this] at entry
      exact absurd (Option.some.inj (here.symm.trans entry)).symm nonzero
    · rw [elsewhere other this] at entry
      obtain ⟨pair', member', same', value'⟩ := owns.maps.mapped other value entry nonzero
      have different : pair' ≠ pair := by
        rintro rfl
        exact this (same.symm.trans same')
      exact ⟨pair', (List.mem_erase_of_ne different).mpr member', same', value'⟩
  · have before := owns.maps.listed pair' (List.mem_of_mem_erase member')
    have different : ¬ SamePage va pair'.1 := by
      intro this
      have equal := owns.maps.listed pair member
      rw [Pt.entry_congr (same.trans this), before] at equal
      have pages := congrArg (fun value => p2k (pteAddress value)) (Option.some.inj equal)
      simp only [kernel.userEntry, (owns.frame (List.mem_of_mem_erase member')).1.userEntry]
        at pages
      exact once (pages ▸ List.mem_map_of_mem member')
    exact (elsewhere pair'.1 different).trans before

/-- The turn of the loop in `sbrk`. -/
theorem sbrkPage (owns : Owns all others kstack frames s) (va : UInt64) :
    ∃ frames' s', Paging.sbrkPage va s = some s' ∧ Owns all others kstack frames' s' ∧
      frames' ⊆ frames ∧ ∀ pair ∈ frames', ¬ SamePage va pair.1 := by
  cases entry : s.pgdir.entry va with
  | none =>
    exact ⟨frames, s, State.withPte_absent owns.whole.tables entry _, owns, fun _ member => member,
      owns.unlisted (by rw [entry]; rfl)⟩
  | some value =>
    obtain ⟨pte, located, -, ran⟩ := State.withPte_present owns.whole.tables entry
      fun pte value s =>
        if value = 0 then some s
        else some ((s.setMem (s.pgdir.mem.kfreePage (p2k (clean value)))).store pte 0)
    by_cases zero : value = 0
    · rw [if_pos zero] at ran
      exact ⟨frames, s, ran, owns, fun _ member => member,
        owns.unlisted (by rw [entry, zero]; rfl)⟩
    · rw [if_neg zero] at ran
      obtain ⟨pair, member, same, rfl⟩ := owns.maps.mapped va value entry zero
      obtain ⟨kernel, outside⟩ := owns.frame member
      rw [clean_userEntry kernel] at ran
      obtain ⟨mem, freed⟩ : ∃ mem, s.pgdir.mem.kfreePage pair.2 = mem := ⟨_, rfl⟩
      rw [freed] at ran
      obtain ⟨owns', cleared⟩ := owns.unmap member same located freed
      exact ⟨frames.erase pair, _, ran, owns', List.erase_subset,
        owns'.unlisted (by rw [cleared]; rfl)⟩

/-- `sbrk`. The pages that it takes off the heap are not mapped afterwards. -/
theorem sbrk (owns : Owns all others kstack frames s) {size : Int} {last : UInt64}
    (ran : Paging.sbrk s size = some (last, s')) : ∃ frames', Owns all others kstack frames' s' ∧
      frames' ⊆ frames ∧ ∀ i, i < (-size).toNat → ∀ pair ∈ frames',
        ¬ SamePage (s.sec.limit + UInt64.ofInt (size * 4096) + 4096 * UInt64.ofNat i) pair.1 := by
  simp only [Paging.sbrk, Option.map_eq_some_iff, Prod.mk.injEq] at ran
  obtain ⟨_, ran, -, rfl⟩ := ran
  have moved : Owns all others kstack frames
      { s with sec := { s.sec with limit := s.sec.limit + UInt64.ofInt (size * 4096) } } :=
    ⟨owns.whole, owns.maps, owns.books, owns.plain⟩
  obtain ⟨s'', ran', frames', owns', fewer, gone⟩ := forPages_rule
    (fun done s' => ∃ frames', Owns all others kstack frames' s' ∧ frames' ⊆ frames ∧
      ∀ i, i < done → ∀ pair ∈ frames',
        ¬ SamePage (s.sec.limit + UInt64.ofInt (size * 4096) + 4096 * UInt64.ofNat i) pair.1)
    ⟨frames, moved, fun _ member => member, by simp⟩
    fun done s' _ kept => by
      obtain ⟨frames', owns', fewer, gone⟩ := kept
      obtain ⟨frames'', s'', ran, owns'', fewer', gone'⟩ := owns'.sbrkPage _
      refine ⟨s'', ran, frames'', owns'', List.Subset.trans fewer' fewer,
        fun i below pair member => ?_⟩
      rcases Nat.lt_succ_iff_lt_or_eq.mp below with earlier | rfl
      · exact gone i earlier pair (fewer' member)
      · exact gone' pair member
  obtain rfl := Option.some.inj (ran'.symm.trans ran)
  exact ⟨frames', owns', fewer, gone⟩

/-- Memory changes elsewhere. -/
theorem setMem (owns : Owns all others kstack frames s) (mem : Mem) {others' : List UInt64}
    (books : Books all mem (s.pgdir.tables ++ (frames.map Prod.snd ++ kstack :: others')))
    (agree : ∀ table ∈ s.pgdir.tables, ∀ index, index < 512 →
      mem.word (table + 8 * index) = s.pgdir.mem.word (table + 8 * index)) :
    Owns all others' kstack frames (s.setMem mem) := by
  have kept := owns.whole.tables.entry_of_agree { s.pgdir with mem } rfl rfl agree
  refine ⟨owns.whole.congr { s.pgdir with mem } rfl rfl agree,
    ⟨fun va value entry => ?_, fun pair member => ?_⟩, books, owns.plain⟩
  · exact owns.maps.mapped va value ((kept va).2.symm.trans entry)
  · exact (kept pair.1).2.trans (owns.maps.listed pair member)

/-- `execve` of a file that is refused gives its root table back. -/
theorem refused (owns : Owns all others kstack frames s) {new : Pt.State}
    (made : Pt.initPgdir s.pgdir.mem = some new) :
    Owns all others kstack frames (s.setMem (Pt.freePgdir new).mem) := by
  cases more : s.pgdir.mem.pages with
  | nil =>
    rw [Pt.initPgdir, Pt.kkalloc, Mem.kallocPage, more] at made
    exact absurd made (by simp)
  | cons page rest =>
    have kernel := owns.fresh.kernel page (by simp [more])
    have unused := owns.fresh.unused page (by simp [more])
    have whole := Pt.Whole.initPgdir more kernel made
    obtain rfl := Option.some.inj ((Pt.initPgdir_eq more kernel).symm.trans made)
    have books := (owns.books.kallocPage more).words (clearPage s.pgdir.mem.word page)
    obtain ⟨freed, perm, given, -⟩ := whole.freePgdir fun table member => by
      rw [List.mem_singleton.mp member]
      exact books.taken page (by simp)
    have only : ∀ table, table ∈ freed → table = page := fun table member =>
      List.mem_singleton.mp (perm.mem_iff.mp member)
    refine owns.setMem _ (books.give given ((perm.append_right _).symm)) fun table member index small
      => ?_
    have kernel' := owns.whole.tables.kernel table member
    have different : table ≠ page := fun same => unused (same ▸ member)
    rw [given.words table kernel' (fun found => different (only table found)) (by simp) index small]
    change clearPage s.pgdir.mem.word page (table + 8 * index) = _
    exact overwrite_outside kernel kernel' small different

/-- Nothing is mapped if the tables name nothing but tables. -/
theorem frames_nil (owns : Owns all others kstack frames s) (unmapped : Unmapped s.pgdir) :
    frames = [] := by
  refine List.eq_nil_iff_forall_not_mem.mpr fun pair member => ?_
  obtain ⟨kernel, outside⟩ := owns.frame member
  have entry := owns.maps.listed pair member
  rw [Pt.State.entry, Option.map_eq_some_iff] at entry
  obtain ⟨pte, located, word⟩ := entry
  obtain ⟨table, found, rfl⟩ := Pt.location_some located
  have inUse := owns.whole.tables.inUse (by simp [Pt.tablePath]) found
  have small := Pt.mem_entryIndices.mpr (Pt.vaParts_lt pair.1).2.2.2
  rcases unmapped table inUse _ small with zero | names
  · exact userEntry_ne_zero kernel (word.symm.trans zero)
  · rw [word, kernel.userEntry] at names
    exact outside names

/-- `free_pgdir` of a page table that maps nothing. -/
theorem exit (owns : Owns all others kstack frames s) (unmapped : Unmapped s.pgdir) :
    Books all (Pt.freePgdir s.pgdir).mem (kstack :: others) ∧
      (Pt.freePgdir s.pgdir).tables = [] := by
  obtain rfl := owns.frames_nil unmapped
  obtain ⟨freed, perm, given, -, tables⟩ := owns.whole.freePgdir fun table member =>
    owns.books.taken table (by simp [member])
  exact ⟨owns.books.give given ((perm.append_right _).symm), tables⟩

end Owns

/-- `init_proc`, as far as pages go: the page table and the kernel stack. `none` is the store through
`NULL` where there is no page for the one or the other. -/
def initProc (mem : Mem) : Option (Pt.State × UInt64) :=
  (Pt.initPgdir mem).bind fun pgdir =>
    let (kstack, mem) := pgdir.mem.kallocPage
    if kstack = 0 then none else some ({ pgdir with mem }, kstack)

/-- A new process. -/
theorem Owns.initProc {all others : List UInt64} {s : State} {pgdir : Pt.State} {kstack : UInt64}
    (books : Books all s.pgdir.mem others)
    (ran : Lifetime.initProc s.pgdir.mem = some (pgdir, kstack)) (sec : Section)
    (plain : sec.flags &&& stSwap = 0) : Owns all others kstack [] { s with pgdir, sec } := by
  rw [Lifetime.initProc, Option.bind_eq_some_iff] at ran
  obtain ⟨root, made, ran⟩ := ran
  cases more : s.pgdir.mem.pages with
  | nil =>
    rw [Pt.initPgdir, Pt.kkalloc, Mem.kallocPage, more] at made
    exact absurd made (by simp)
  | cons page rest =>
    have kernel := books.kernel page (books.mem_iff.mpr (.inl (by simp [more])))
    have whole := Pt.Whole.initPgdir more kernel made
    obtain ⟨root', made', -, absent, pages, own⟩ := Pt.initPgdir_some more kernel
    obtain rfl := Option.some.inj (made.symm.trans made')
    have books' : Books all root.mem (page :: others) := by
      obtain rfl := Option.some.inj ((Pt.initPgdir_eq more kernel).symm.trans made)
      exact (books.kallocPage more).words _
    simp only [Option.ite_none_left_eq_some, Option.some.injEq, Prod.mk.injEq] at ran
    obtain ⟨nonzero, rfl, rfl⟩ := ran
    cases more' : root.mem.pages with
    | nil => exact absurd (by rw [Mem.kallocPage, more']; rfl) nonzero
    | cons kstack rest' =>
      have named : root.mem.kallocPage.1 = kstack := by rw [Mem.kallocPage, more']; rfl
      rw [named]
      refine ⟨whole.congr { root with mem := root.mem.kallocPage.2 } rfl rfl fun _ _ _ _ => rfl,
        ⟨fun va value entry => ?_, by simp⟩, (books'.kallocPage more').congr ?_, .inl plain⟩
      · have none : root.entry va = some value := entry
        rw [Pt.State.entry, absent] at none
        exact absurd none (by simp)
      · simp only [own, List.map_nil, List.nil_append, List.singleton_append]
        exact .swap page kstack others

/-! ## Runs -/

/-- How far a process has come. -/
inductive Phase where
  /-- It does not exist yet. -/
  | absent
  | live
  | zombie
  /-- Its parent has waited for it. -/
  | reaped
deriving DecidableEq

/-- A process, with the memory that it shares with others. -/
structure Life where
  phase : Phase
  os : State
  kstack : UInt64
  /-- The pages that others have taken. -/
  others : List UInt64
  /-- Memory before the process existed. -/
  start : Mem
  /-- The pages that others had taken then. -/
  startOthers : List UInt64

/-- What happens to a process, and to the memory around it. -/
inductive Act where
  | create
  /-- `fork` by a process whose page table is at `pt`. -/
  | fork (pt : UInt64)
  /-- `pgfault` for an access to an address. -/
  | fault (va : UInt64)
  | sbrk (size : Int)
  /-- `execve` of a program, or of a file that is refused. -/
  | execve (program : Option Vm.Program)
  | exit
  | wait
  | take
  | give (page : UInt64)
  /-- Somebody writes a word of a page that is neither free nor a table of the process. -/
  | poke (page index value : UInt64)

/-- The heap of a new process, as `init_sections` makes it. -/
def heap : Section := ⟨stHeap, 0, 0⟩

/-- One step. -/
def Life.step (s : Life) : Act → Option Life
  | .create =>
    if s.phase = .absent then
      (initProc s.os.pgdir.mem).map fun (pgdir, kstack) =>
        { s with phase := .live, os := { s.os with pgdir, sec := heap }, kstack }
    else none
  | .fork pt =>
    if s.phase = .absent then
      (initProc s.os.pgdir.mem).bind fun (pgdir, kstack) =>
        (Vm.vmCopy pgdir.mem pt).map fun pgdir =>
          { s with phase := .live, os := { s.os with pgdir, sec := heap }, kstack }
    else none
  | .fault va =>
    if s.phase = .live then (pgfault s.os va).map fun os => { s with os } else none
  | .sbrk size =>
    if s.phase = .live then (sbrk s.os size).map fun (_, os) => { s with os } else none
  | .execve program =>
    if s.phase = .live then
      (Vm.execve s.os.pgdir program).map fun pgdir =>
        { s with os := { s.os with pgdir, sec := if program.isSome then heap else s.os.sec } }
    else none
  | .exit =>
    if s.phase = .live then
      some { s with phase := .zombie, os := { s.os with pgdir := Pt.freePgdir s.os.pgdir } }
    else none
  | .wait =>
    if s.phase = .zombie then
      some { s with
        phase := .reaped
        os := s.os.setMem (s.os.pgdir.mem.kfreePage s.kstack) }
    else none
  | .take =>
    match s.os.pgdir.mem.pages with
    | [] => none
    | page :: _ =>
      some { s with
        os := s.os.setMem s.os.pgdir.mem.kallocPage.2
        others := page :: s.others }
  | .give page =>
    if page ∈ s.others then
      some { s with
        os := s.os.setMem (s.os.pgdir.mem.kfreePage page)
        others := s.others.erase page }
    else none
  | .poke page index value =>
    if KernelPage page ∧ index < 512 ∧ page ∉ s.os.pgdir.mem.pages ∧
        page ∉ s.os.pgdir.tables then
      some { s with os := s.os.store (page + 8 * index) value }
    else none

/-- A process that is made, lives and is waited for. -/
def machine : Machine Life Act where
  init s := s.phase = .absent ∧ s.os.pgdir.tables = [] ∧ s.start = s.os.pgdir.mem ∧
    s.startOthers = s.others ∧ Books (s.start.pages ++ s.others) s.os.pgdir.mem s.others
  step := Life.step

/-- The process is not forked and does not get another program, faults while there is memory, and
maps nothing any more when it exits. -/
def Frugal (s : Life) : Act → Prop
  | .fork _ => False
  | .fault _ => reversedPages + 3 < s.os.pgdir.mem.leftPageCnt
  | .execve program => program.isNone
  | .exit => Unmapped s.os.pgdir
  | _ => True

instance (s : Life) (act : Act) : Decidable (Frugal s act) := by
  cases act <;> unfold Frugal <;> infer_instance

/-- Where the pages are in each phase. -/
def Accounted (s : Life) : Prop :=
  match s.phase with
  | .absent | .reaped =>
    Books (s.start.pages ++ s.startOthers) s.os.pgdir.mem s.others ∧ s.os.pgdir.tables = []
  | .live =>
    ∃ frames, Owns (s.start.pages ++ s.startOthers) s.others s.kstack frames s.os
  | .zombie =>
    Books (s.start.pages ++ s.startOthers) s.os.pgdir.mem (s.kstack :: s.others) ∧
      s.os.pgdir.tables = []

namespace Accounted

variable {s s' : Life}

/-- Others change memory, beside the tables of the process. -/
theorem setMem (accounted : Accounted s) (mem : Mem) (others : List UInt64)
    (books : ∀ out, Books (s.start.pages ++ s.startOthers) s.os.pgdir.mem (out ++ s.others) →
      Books (s.start.pages ++ s.startOthers) mem (out ++ others))
    (agree : ∀ table ∈ s.os.pgdir.tables, ∀ index, index < 512 →
      mem.word (table + 8 * index) = s.os.pgdir.mem.word (table + 8 * index)) :
    Accounted { s with os := s.os.setMem mem, others } := by
  obtain ⟨phase, os, kstack, others', start, startOthers⟩ := s
  cases phase with
  | absent => exact ⟨books [] accounted.1, accounted.2⟩
  | reaped => exact ⟨books [] accounted.1, accounted.2⟩
  | zombie => exact ⟨books [kstack] accounted.1, accounted.2⟩
  | live =>
    obtain ⟨frames, owns⟩ := accounted
    have split : ∀ others, os.pgdir.tables ++ (frames.map Prod.snd ++ kstack :: others) =
        os.pgdir.tables ++ (frames.map Prod.snd ++ [kstack]) ++ others := by simp
    have before := owns.books
    rw [split] at before
    have after := books _ before
    rw [← split] at after
    exact ⟨frames, owns.setMem mem after agree⟩

/-- In each phase there are accounts, with the tables of the process among the pages taken. -/
theorem books (accounted : Accounted s) : ∃ held, Books (s.start.pages ++ s.startOthers)
    s.os.pgdir.mem (s.os.pgdir.tables ++ (held ++ s.others)) := by
  cases phase : s.phase <;> simp only [Accounted, phase] at accounted
  case absent => exact ⟨[], by simpa [accounted.2] using accounted.1⟩
  case reaped => exact ⟨[], by simpa [accounted.2] using accounted.1⟩
  case zombie => exact ⟨[s.kstack], by simpa [accounted.2] using accounted.1⟩
  case live =>
    obtain ⟨frames, owns⟩ := accounted
    exact ⟨frames.map Prod.snd ++ [s.kstack], by simpa using owns.books⟩

/-- Pages that others have taken are not tables. -/
theorem apart (accounted : Accounted s) {page : UInt64} (member : page ∈ s.others) :
    KernelPage page ∧ s.os.pgdir.mem.ref (Mem.refIndex page) = 1 ∧ page ∉ s.os.pgdir.tables := by
  obtain ⟨held, books⟩ := accounted.books
  have beside : page ∈ held ++ s.others := List.mem_append_right _ member
  have out : page ∈ s.os.pgdir.tables ++ (held ++ s.others) := List.mem_append_right _ beside
  obtain ⟨-, nodup, -⟩ := List.nodup_append.mp books.apart
  obtain ⟨-, -, apart⟩ := List.nodup_append.mp nodup
  exact ⟨books.kernel page (books.mem_iff.mpr (.inr out)), books.taken page out,
    fun table => apart page table page beside rfl⟩

/-- Others take a page. -/
theorem take (accounted : Accounted s) {page : UInt64} {rest : List UInt64}
    (more : s.os.pgdir.mem.pages = page :: rest) :
    Accounted { s with
      os := s.os.setMem s.os.pgdir.mem.kallocPage.2
      others := page :: s.others } :=
  accounted.setMem _ _ (fun _ books => (books.kallocPage more).congr List.perm_middle.symm)
    fun _ _ _ _ => rfl

/-- Others give a page back. -/
theorem give (accounted : Accounted s) {page : UInt64} (member : page ∈ s.others) :
    Accounted { s with
      os := s.os.setMem (s.os.pgdir.mem.kfreePage page)
      others := s.others.erase page } := by
  obtain ⟨kernel, once, outside⟩ := accounted.apart member
  obtain ⟨held, books⟩ := accounted.books
  refine accounted.setMem _ _ (fun out books => books.kfreePage ?_) fun table found index small => ?_
  · exact ((List.perm_cons_erase member).append_left out).trans List.perm_middle
  · refine (Pt.Freed.kfreePage kernel once).words table ?_ ?_ (by simp) index small
    · exact books.kernel table (books.mem_iff.mpr (.inr (List.mem_append_left _ found)))
    · rw [List.mem_singleton]
      rintro rfl
      exact outside found

/-- Somebody writes a word that is no part of the tables. -/
theorem poke (accounted : Accounted s) {page index value : UInt64} (kernel : KernelPage page)
    (small : index < 512) (outside : page ∉ s.os.pgdir.tables) :
    Accounted { s with os := s.os.store (page + 8 * index) value } := by
  obtain ⟨held, books⟩ := accounted.books
  refine accounted.setMem { s.os.pgdir.mem with
    word := Function.update s.os.pgdir.mem.word (page + 8 * index) value } s.others
    (fun _ books => books.words _) fun table found index' small' => ?_
  refine Function.update_of_ne (fun same => ?_) _ _
  have kernel' := books.kernel table (books.mem_iff.mpr (.inr (List.mem_append_left _ found)))
  obtain ⟨rfl, -⟩ := kernel'.slot_inj kernel small' small same
  exact outside found

/-- Each step that meets the guard keeps the accounts. -/
theorem step (accounted : Accounted s) {act : Act} (frugal : Frugal s act)
    (taken : s.step act = some s') : Accounted s' := by
  cases act with
  | create =>
    simp only [Life.step, Option.ite_none_right_eq_some, Option.map_eq_some_iff, Prod.exists]
      at taken
    obtain ⟨absent, pgdir, kstack, ran, rfl⟩ := taken
    simp only [Accounted, absent] at accounted
    exact ⟨[], .initProc accounted.1 ran heap (by decide)⟩
  | fork pt => exact frugal.elim
  | fault va =>
    simp only [Life.step, Option.ite_none_right_eq_some, Option.map_eq_some_iff] at taken
    obtain ⟨live, os, ran, rfl⟩ := taken
    simp only [Accounted, live] at accounted ⊢
    obtain ⟨frames, owns⟩ := accounted
    obtain ⟨frames', owns', -⟩ := owns.pgfault frugal ran
    exact ⟨frames', owns'⟩
  | sbrk size =>
    simp only [Life.step, Option.ite_none_right_eq_some, Option.map_eq_some_iff, Prod.exists]
      at taken
    obtain ⟨live, last, os, ran, rfl⟩ := taken
    simp only [Accounted, live] at accounted ⊢
    obtain ⟨frames, owns⟩ := accounted
    obtain ⟨frames', owns', -⟩ := owns.sbrk ran
    exact ⟨frames', owns'⟩
  | execve program =>
    obtain rfl : program = none := Option.isNone_iff_eq_none.mp frugal
    simp only [Life.step, Vm.execve, Option.ite_none_right_eq_some, Option.map_eq_some_iff,
      Option.bind_eq_some_iff, Option.some.injEq] at taken
    obtain ⟨live, pgdir, ⟨new, made, rfl⟩, rfl⟩ := taken
    simp only [Accounted, live] at accounted ⊢
    obtain ⟨frames, owns⟩ := accounted
    exact ⟨frames, owns.refused made⟩
  | exit =>
    simp only [Life.step, Option.ite_none_right_eq_some, Option.some.injEq] at taken
    obtain ⟨live, rfl⟩ := taken
    simp only [Accounted, live] at accounted ⊢
    obtain ⟨frames, owns⟩ := accounted
    exact owns.exit frugal
  | wait =>
    simp only [Life.step, Option.ite_none_right_eq_some, Option.some.injEq] at taken
    obtain ⟨zombie, rfl⟩ := taken
    simp only [Accounted, zombie] at accounted ⊢
    exact ⟨accounted.1.kfreePage (.refl _), accounted.2⟩
  | take =>
    rw [Life.step] at taken
    split at taken
    case h_1 => exact absurd taken (by simp)
    case h_2 page rest more =>
      obtain rfl := Option.some.inj taken
      exact accounted.take more
  | give page =>
    simp only [Life.step, Option.ite_none_right_eq_some, Option.some.injEq] at taken
    obtain ⟨member, rfl⟩ := taken
    exact accounted.give member
  | poke page index value =>
    simp only [Life.step, Option.ite_none_right_eq_some, Option.some.injEq] at taken
    obtain ⟨⟨kernel, small, -, outside⟩, rfl⟩ := taken
    exact accounted.poke kernel small outside

/-- What the queue was at the start was counted. -/
theorem start_counted (reached : machine.Reach Frugal s) :
    s.start.pagenum - s.start.allocPageCnt = s.start.pages.length := by
  refine reached.invariant
    (P := fun s => s.start.pagenum - s.start.allocPageCnt = (s.start.pages.length : Int)) ?_ ?_
  · rintro s ⟨-, -, start, -, books⟩
    rw [start]
    exact books.counted
  · intro s act s' _ counted _ taken
    have same : s'.start = s.start := by
      cases act <;>
        simp only [machine, Life.step, Option.ite_none_right_eq_some, Option.map_eq_some_iff,
          Option.bind_eq_some_iff, Prod.exists, Option.some.injEq] at taken <;>
        grind
    rw [same]
    exact counted

/-- Every state of a frugal run. -/
theorem of_reach (reached : machine.Reach Frugal s) : Accounted s := by
  refine reached.invariant (P := Accounted) ?_ fun s act s' _ accounted frugal taken =>
    accounted.step frugal taken
  rintro s ⟨absent, tables, start, others, books⟩
  simp only [Accounted, absent]
  exact ⟨others ▸ books, tables⟩

end Accounted

/-- A process gives all its pages back in frugal runs: once its parent has waited for it, every page
that was free before it existed is free, or one that others have taken since. -/
theorem process_returns_pages {s : Life} (reached : machine.Reach Frugal s)
    (reaped : s.phase = .reaped) :
    (∀ page ∈ s.start.pages, page ∈ s.os.pgdir.mem.pages ∨ page ∈ s.others) ∧
      (s.others.length = s.startOthers.length →
        s.os.pgdir.mem.leftPageCnt = s.start.leftPageCnt) := by
  have accounted := Accounted.of_reach reached
  simp only [Accounted, reaped] at accounted
  obtain ⟨books, -⟩ := accounted
  refine ⟨fun page member => books.mem_iff.mp (List.mem_append_left _ member), fun same => ?_⟩
  have lengths := books.perm.length_eq
  rw [List.length_append, List.length_append] at lengths
  have equal : s.os.pgdir.mem.pages.length = s.start.pages.length := by omega
  rw [Mem.leftPageCnt, books.counted, Mem.leftPageCnt, Accounted.start_counted reached, equal]

/-- A process that does not exist yet, in memory of which nothing was taken. -/
def unborn : Life := ⟨.absent, emptyHeap ⟨memory, 0, []⟩, 0, [], memory, []⟩

/-- Runs start there. -/
theorem unborn_init : machine.init unborn := by
  obtain ⟨kernel, nodup⟩ := memory_pages
  refine ⟨rfl, rfl, rfl, rfl, ⟨?_, ?_, .refl _, fun page _ => rfl, by simp [unborn], ?_⟩⟩
  · simpa [unborn] using kernel
  · simpa [unborn] using nodup
  · simp [unborn, emptyHeap, memory]

/-- The state after `exit` and `wait`. -/
def Life.ended (s : Life) : Life :=
  { s with
    phase := .reaped
    os := { s.os with pgdir := Pt.freePgdir s.os.pgdir }.setMem
      ((Pt.freePgdir s.os.pgdir).mem.kfreePage s.kstack) }

/-- `exit` and `wait` happen to every process. -/
theorem Life.ended_reach {guard : Life → Act → Prop} {s : Life} (reached : machine.Reach guard s)
    (live : s.phase = .live) (exits : guard s .exit) (waits : ∀ s, guard s .wait) :
    machine.Reach guard s.ended := by
  have exited : machine.step s .exit = some { s with
      phase := .zombie
      os := { s.os with pgdir := Pt.freePgdir s.os.pgdir } } := if_pos live
  exact (reached.step exits exited).step (waits _) rfl

/-- A process that uses a page, gives it back and exits. -/
theorem process_returns_pages_shrunk : ∃ s, machine.Reach Frugal s ∧ s.phase = .reaped ∧
    (∀ page ∈ s.start.pages, page ∈ s.os.pgdir.mem.pages ∨ page ∈ s.others) := by
  have shown : (machine.exec Frugal unborn [.create, .sbrk 1, .fault 0, .sbrk (-1)]).map
      (fun s => (s.phase, decide (Unmapped s.os.pgdir))) = some (.live, true) := by
    decide +kernel
  obtain ⟨s, reached, observed⟩ := Machine.Reach.exec_map unborn_init shown
  obtain ⟨live, unmapped⟩ := Prod.mk.inj observed
  have reaped := Life.ended_reach reached live (of_decide_eq_true unmapped) fun _ => trivial
  exact ⟨_, reaped, rfl, (process_returns_pages reaped rfl).1⟩

/-- The tables and the page of a parent. -/
def parentPages : List UInt64 :=
  [0xffff000000201000, 0xffff000000202000, 0xffff000000203000, 0xffff000000204000,
    0xffff000000205000]

/-- Memory in which the parent maps one page, at address 0. -/
def parentMemory : Mem where
  word addr :=
    if addr = 0xffff000000201000 then k2p 0xffff000000202000 ||| pteTable
    else if addr = 0xffff000000202000 then k2p 0xffff000000203000 ||| pteTable
    else if addr = 0xffff000000203000 then k2p 0xffff000000204000 ||| pteTable
    else if addr = 0xffff000000204000 then k2p 0xffff000000205000 ||| pteUserData
    else 0
  pages := memory.pages.drop 5
  ref index := if 0x201 ≤ index ∧ index ≤ 0x205 then 1 else 0
  allocPageCnt := 5
  pagenum := 1105

/-- A child of this parent that does not exist yet. -/
def unbornChild : Life :=
  ⟨.absent, emptyHeap ⟨parentMemory, 0, []⟩, 0, parentPages, parentMemory, parentPages⟩

/-- Runs start there. -/
theorem unbornChild_init : machine.init unbornChild := by
  obtain ⟨kernel, nodup⟩ := memory_pages
  have split : parentPages ++ memory.pages.drop 5 = memory.pages := by decide +kernel
  have perm : (parentMemory.pages ++ parentPages).Perm memory.pages := by
    simpa only [parentMemory, split] using
      (List.perm_append_comm : (memory.pages.drop 5 ++ parentPages).Perm _)
  have books : Books (parentMemory.pages ++ parentPages) parentMemory parentPages := by
    refine ⟨?_, perm.nodup_iff.mpr nodup, .refl _, by decide +kernel, by decide, ?_⟩
    · intro page member
      exact kernel page (perm.mem_iff.mp member)
    · simp [parentMemory, memory]
  exact ⟨rfl, rfl, rfl, rfl, books⟩

/-- A child with the tables and the kernel stack that a `fork` of the parent makes. -/
def Forked (s : Life) : Prop :=
  s.phase = .live ∧ s.kstack = 0xffff000000207000 ∧ s.others = parentPages ∧
    s.os.pgdir.mem.pages = memory.pages.drop 12 ∧
    Pt.below s.os.pgdir.mem.word 3 s.os.pgdir.pt =
      [0xffff00000020c000, 0xffff00000020b000, 0xffff00000020a000, 0xffff000000208000] ∧
    ∀ page ∈ [0xffff000000207000, 0xffff00000020c000, 0xffff00000020b000, 0xffff00000020a000,
      0xffff000000208000], s.os.pgdir.mem.ref (Mem.refIndex page) = 1

instance (s : Life) : Decidable (Forked s) := by
  unfold Forked
  infer_instance

/-- The root table that `init_proc` made, and the copy of the page of the parent, are lost when a
child exits. -/
theorem process_returns_pages_forked : ∃ s, machine.Reach Machine.Any s ∧ s.phase = .reaped ∧
    0xffff000000206000 ∈ s.start.pages ∧ 0xffff000000206000 ∉ s.os.pgdir.mem.pages ∧
    0xffff000000206000 ∉ s.others := by
  have shown : (machine.exec Machine.Any unbornChild [.fork 0xffff000000201000]).map (fun s =>
      (decide (Forked s), decide (0xffff000000206000 ∈ s.start.pages))) = some (true, true) := by
    decide +kernel
  obtain ⟨s, reached, observed⟩ := Machine.Reach.exec_map unbornChild_init shown
  simp only [Prod.mk.injEq, decide_eq_true_eq] at observed
  obtain ⟨⟨live, kstack, others, pages, below, once⟩, before⟩ := observed
  have root : s.os.pgdir.pt ≠ 0 := by
    have last : s.os.pgdir.pt ∈ Pt.below s.os.pgdir.mem.word 3 s.os.pgdir.pt :=
      List.mem_append_right _ (List.mem_singleton_self _)
    rw [below] at last
    rintro zero
    rw [zero] at last
    exact absurd last (by decide)
  have given : Pt.Freed _ [] s.os.pgdir.mem (Pt.freePTEntry 3 s.os.pgdir.pt s.os.pgdir.mem) :=
    Pt.freePTEntry_freed (by
      rw [below]
      exact ⟨by decide, fun table member => once table (List.mem_cons_of_mem _ member), by decide⟩)
  rw [below] at given
  have last := given.ref 0xffff000000207000 (by decide) (by decide)
  rw [once _ (by simp)] at last
  have freed : s.ended.os.pgdir.mem.pages = 0xffff000000207000 :: 0xffff000000208000 ::
      0xffff00000020a000 :: 0xffff00000020b000 :: 0xffff00000020c000 :: memory.pages.drop 12 := by
    simp only [Life.ended, State.setMem, Pt.freePgdir, root, if_false, kstack]
    rw [Mem.kfreePage_last last]
    simp only [given.pages, pages, List.reverse_cons, List.reverse_nil, List.nil_append,
      List.cons_append]
  refine ⟨s.ended, Life.ended_reach reached live trivial fun _ => trivial, rfl, before, ?_, ?_⟩
  · rw [freed]
    decide +kernel
  · change _ ∉ s.others
    rw [others]
    decide

end OsLab.Kernel.Lifetime
