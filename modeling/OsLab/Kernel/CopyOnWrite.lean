import OsLab.Kernel.AddressSpace
import OsLab.Kernel.HeapPages

/-!
# Copy on write

The branch of `pgfault` in `src/kernel/paging.c` for pages that are mapped read-only, beside other
address spaces in the same memory, and `vmmap` of `src/kernel/pt.c`, which makes such pages. The
handler takes a free page, gives the old page back, and copies after that. As long as somebody else
refers to the old page this makes no difference. The last reference puts the page on the queue of
free pages, and what is copied then starts with the link of the queue, which is right only where the
page happens to start with the same word.
-/
namespace OsLab.Kernel.CopyOnWrite

open OsLab.Lib OsLab.Aarch64 OsLab.Kernel.Paging

/-- `vmmap`. -/
def vmmap (s : State) (va ka flags : UInt64) : Option State :=
  (Pt.getPte s.pgdir va true).bind fun (pte, pgdir) => pte.map fun pte =>
    let mem := pgdir.mem
    let ref := Function.update mem.ref (Mem.refIndex ka) (mem.ref (Mem.refIndex ka) + 1)
    { s with pgdir := { pgdir with mem := { mem with ref } }.store pte (k2p ka ||| flags) }

/-- A process beside other address spaces in the same memory, where no page is free and in use at
the same time, or in use as a table of the process and as something else. -/
structure Shared (s : State) (others : List Pt.State) : Prop where
  tables : Pt.Tables s.pgdir
  fresh : Pt.Fresh s.pgdir
  spaces : ∀ space ∈ others, Pt.Tables (space.inMem s.pgdir.mem) ∧
    ∀ table ∈ space.tables, table ∉ s.pgdir.mem.pages ∧ table ∉ s.pgdir.tables
  frames : ∀ space ∈ s.pgdir :: others, ∀ va page,
    (space.inMem s.pgdir.mem).frame va = some page →
      page ∉ s.pgdir.mem.pages ∧ page ∉ s.pgdir.tables
  zeroPage : KernelPage s.zeroPage ∧ s.zeroPage ∉ s.pgdir.mem.pages ∧
    s.zeroPage ∉ s.pgdir.tables ∧ checkZeroPage s.pgdir.mem.word s.zeroPage = true

/-- The page `page` has become the copy of the page `old` that `va` was mapped to, for this process
alone. -/
structure Copied (s : State) (others : List Pt.State) (va old : UInt64) (s' : State)
    (page : UInt64) : Prop where
  writable : s'.translate va true = some (page + (va &&& 0xFF8))
  alone : ∀ va', s'.pgdir.frame va' = some page ↔ SamePage va va'
  unshared : ∀ space ∈ others, ∀ va', (space.inMem s'.pgdir.mem).frame va' ≠ some page
  bytes : pageBytes s'.pgdir.mem.word page = pageBytes s.pgdir.mem.word old
  entries : ∀ va', ¬ SamePage va va' → s'.pgdir.entry va' = s.pgdir.entry va'
  entriesOthers : ∀ space ∈ others, ∀ va',
    (space.inMem s'.pgdir.mem).entry va' = (space.inMem s.pgdir.mem).entry va'
  contents : ∀ space ∈ s.pgdir :: others, ∀ va' held,
    (space.inMem s.pgdir.mem).frame va' = some held →
      pageBytes s'.pgdir.mem.word held = pageBytes s.pgdir.mem.word held
  ref : s'.pgdir.mem.ref (Mem.refIndex old) = s.pgdir.mem.ref (Mem.refIndex old) - 1

/-- What `check_zero_page` tests. -/
theorem checkZeroPage_iff {word : UInt64 → UInt64} {zeroPage : UInt64} :
    checkZeroPage word zeroPage = true ↔
      ∀ index, index < 512 → word (zeroPage + 8 * index) = 0 := by
  simp only [checkZeroPage, List.all_eq_true, List.mem_range, beq_iff_eq]
  constructor
  · intro zero index small
    simpa using zero index.toNat (UInt64.lt_iff_toNat_lt.mp small)
  · intro zero i small
    refine zero _ (UInt64.lt_iff_toNat_lt.mpr ?_)
    rw [UInt64.toNat_ofNat_of_lt' (show i < 2 ^ 64 by omega)]
    exact small

section Fault

variable {s : State} {others : List Pt.State} {va value pte page : UInt64} {rest : List UInt64}

/-- The handler takes `page` from the queue, and gives back `old`, which is another page and
referred to. -/
structure Taking (m : Mem) (page old : UInt64) : Prop where
  more : m.pages.head? = some page
  kernel : KernelPage page
  kernelOld : KernelPage old
  different : old ≠ page
  referred : 1 ≤ m.ref (Mem.refIndex old)

/-- The memory after that. -/
def givenBack (m : Mem) (old : UInt64) : Mem := m.kallocPage.2.kfreePage old

/-- The memory after the handler copied to the page it took. -/
def copiedMem (m : Mem) (page old : UInt64) : Mem :=
  { givenBack m old with word := copyPage (givenBack m old).word page old }

namespace Taking

variable {m : Mem} {old held index : UInt64}

/-- Taking a page leaves the reference counts of others alone. -/
theorem kallocPage_ref (taking : Taking m page old) :
    m.kallocPage.2.ref (Mem.refIndex old) = m.ref (Mem.refIndex old) := by
  have elsewhere : Mem.refIndex old ≠ Mem.refIndex page := fun same =>
    taking.different (Mem.refIndex_inj taking.kernelOld taking.kernel same)
  rw [Mem.kallocPage, List.headD_eq_head?_getD, taking.more]
  exact Function.update_of_ne elsewhere _ _

/-- The old page loses a reference, and with the last one its first word to the link of the
queue. -/
theorem givenBack (taking : Taking m page old) :
    (CopyOnWrite.givenBack m old).word = (if m.ref (Mem.refIndex old) = 1 then
        Function.update m.word old (m.pages.tail.headD 0) else m.word) ∧
      (CopyOnWrite.givenBack m old).ref (Mem.refIndex old) = m.ref (Mem.refIndex old) - 1 := by
  have count := taking.kallocPage_ref
  have referred := taking.referred
  by_cases last : m.ref (Mem.refIndex old) = 1
  · rw [CopyOnWrite.givenBack, Mem.kfreePage_last (count.trans last), if_pos last, last]
    exact ⟨rfl, Function.update_self ..⟩
  · rw [CopyOnWrite.givenBack, Mem.kfreePage, Function.update_self, if_neg (by omega), if_neg last,
      ← count]
    exact ⟨rfl, Function.update_self ..⟩

/-- The words of pages after the copy. -/
theorem copiedMem_word (taking : Taking m page old) (kernel' : KernelPage held)
    (elsewhere : held ≠ old) (small : index < 512) :
    (copiedMem m page old).word (held + 8 * index) =
      if held = page then (CopyOnWrite.givenBack m old).word (old + 8 * index)
      else m.word (held + 8 * index) := by
  refine (copyPage_word taking.kernel kernel' small).trans ?_
  have start : old = old + 8 * 0 := by simp
  have apart : held + 8 * index ≠ old := fun same =>
    elsewhere (kernel'.slot_inj taking.kernelOld small (by decide) (same.trans start)).1
  congr 1
  rw [taking.givenBack.1]
  split
  · exact Function.update_of_ne apart _ _
  · rfl

/-- The copy leaves the tables alone. -/
theorem tables (taking : Taking s.pgdir.mem page old) (tables : Pt.Tables s.pgdir)
    (unused : page ∉ s.pgdir.tables) (unusedOld : old ∉ s.pgdir.tables) :
    Pt.Tables (s.setMem (copiedMem s.pgdir.mem page old)).pgdir ∧
      ∀ va, (s.setMem (copiedMem s.pgdir.mem page old)).pgdir.location va = s.pgdir.location va ∧
        (s.setMem (copiedMem s.pgdir.mem page old)).pgdir.entry va = s.pgdir.entry va := by
  have agree : ∀ table ∈ s.pgdir.tables, ∀ index, index < 512 →
      (copiedMem s.pgdir.mem page old).word (table + 8 * index) =
        s.pgdir.mem.word (table + 8 * index) := by
    intro table member index small
    have different : table ≠ page := fun same => unused (same ▸ member)
    rw [taking.copiedMem_word (tables.kernel table member) (fun same => unusedOld (same ▸ member))
      small, if_neg different]
  exact ⟨(tables.congr (s.setMem (copiedMem s.pgdir.mem page old)).pgdir rfl rfl agree).1,
    tables.entry_of_agree (s.setMem (copiedMem s.pgdir.mem page old)).pgdir rfl rfl agree⟩

end Taking

/-- The handler, with a page for it. -/
theorem copyOnWrite_eq {old : UInt64} (isOld : p2k (pteAddress value) = old)
    (taking : Taking s.pgdir.mem page old) (left : reversedPages < s.pgdir.mem.leftPageCnt) :
    copyOnWrite s pte value =
      if checkZeroPage (copiedMem s.pgdir.mem page old).word s.zeroPage then
        some ((s.setMem (copiedMem s.pgdir.mem page old)).store pte (k2p page ||| pteUserData))
      else none := by
  have taken : allocPageForUser s.pgdir.mem = (page, s.pgdir.mem.kallocPage.2) := by
    rw [allocPageForUser, if_neg (by omega), Mem.kallocPage, List.headD_eq_head?_getD, taking.more]
    rfl
  simp only [copyOnWrite, taken, taking.kernel.ne_zero, if_false, isOld]
  rfl

/-- What the handler leaves, once it has copied what was there before. -/
theorem copied (shared : Shared s others) (located : s.pgdir.location va = some pte)
    {old : UInt64} (taking : Taking s.pgdir.mem page old) (held : s.pgdir.frame va = some old)
    (kept : (givenBack s.pgdir.mem old).word = s.pgdir.mem.word) {s' : State}
    (shape : s' = (s.setMem (copiedMem s.pgdir.mem page old)).store pte
      (k2p page ||| pteUserData)) : Copied s others va old s' page := by
  obtain ⟨tables, fresh, spaces, frames, -⟩ := shared
  have free := List.mem_of_mem_head? taking.more
  have kernel := taking.kernel
  have unused := fresh.unused page free
  obtain ⟨tables', same⟩ := taking.tables tables unused
    (frames s.pgdir (List.mem_cons_self ..) va old held).2
  have located' := (same va).1.trans located
  have word : ∀ other index, KernelPage other → other ∉ s.pgdir.tables → index < 512 →
      s'.pgdir.mem.word (other + 8 * index) = if other = page then s.pgdir.mem.word (old + 8 * index)
        else s.pgdir.mem.word (other + 8 * index) := by
    intro other index kernel' outside small
    rw [shape]
    refine (tables'.store_frame located' _ kernel' outside small).trans ?_
    change copyPage (givenBack s.pgdir.mem old).word page old _ = _
    rw [kept, copyPage_word kernel kernel' small]
  have busy : ∀ space ∈ s.pgdir :: others, ∀ va other,
      (space.inMem s.pgdir.mem).frame va = some other → other ≠ page := by
    rintro space member va _ found rfl
    exact (frames space member va _ found).1 free
  have elsewhere : ∀ space ∈ others, ∀ va',
      (space.inMem s'.pgdir.mem).entry va' = (space.inMem s.pgdir.mem).entry va' := by
    intro space member va'
    obtain ⟨tables'', apart⟩ := spaces space member
    have agree : ∀ table ∈ space.tables, ∀ index, index < 512 →
        s'.pgdir.mem.word (table + 8 * index) = s.pgdir.mem.word (table + 8 * index) := by
      intro table inUse index small
      have different : table ≠ page := fun same => (apart table inUse).1 (same ▸ free)
      rw [word table index (tables''.kernel table inUse) (apart table inUse).2 small,
        if_neg different]
    exact (tables''.entry_of_agree (space.inMem s'.pgdir.mem) rfl rfl agree va').2
  have entry : s'.pgdir.entry va = some (k2p page ||| pteUserData) := by
    rw [shape]
    exact tables'.entry_store_same located' _
  have others' : ∀ va', ¬ SamePage va va' → s'.pgdir.entry va' = s.pgdir.entry va' := by
    rw [shape]
    exact fun va' apart => (tables'.entry_store_other located' _ apart).trans (same va').2
  refine
    { writable := ?_, alone := fun va' => ⟨fun found => ?_, fun near => ?_⟩
      unshared := fun space member va' found => ?_, bytes := ?_, entries := others'
      entriesOthers := elsewhere, contents := fun space member va' other found => ?_, ref := ?_ }
  · have valid : (k2p page ||| pteUserData) &&& pteValid ≠ 0 := by
      rw [kernel.entry_and pteUserData (by decide)]
      decide
    have writable : (k2p page ||| pteUserData) &&& pteRo = 0 := by
      rw [kernel.entry_and pteUserData (by decide)]
      decide
    rw [State.translate, entry, Option.bind_some, if_neg (by simp [valid, writable]),
      kernel.userEntry]
  · by_contra apart
    rw [Pt.State.frame, others' va' apart] at found
    exact busy s.pgdir (List.mem_cons_self ..) va' page found rfl
  · rw [← Pt.frame_congr near, Pt.frame_of_entry entry, Pt.mappedPage_userData kernel]
  · rw [Pt.State.frame, elsewhere space member] at found
    exact busy space (List.mem_cons_of_mem _ member) va' page found rfl
  · refine Pt.pageBytes_congr fun index small => ?_
    rw [word page index kernel unused small, if_pos rfl]
  · refine Pt.pageBytes_congr fun index small => ?_
    rw [word other index (Pt.frame_kernel found) (frames space member va' other found).2 small,
      if_neg (busy space member va' other found)]
  · rw [shape]
    exact taking.givenBack.2

/-- What the handler leaves in any case: the address is mapped to the page, which starts with what the
old page started with when it was copied. -/
theorem copied_first (tables : Pt.Tables s.pgdir) (located : s.pgdir.location va = some pte)
    {old : UInt64} (taking : Taking s.pgdir.mem page old) (unused : page ∉ s.pgdir.tables)
    (unusedOld : old ∉ s.pgdir.tables) {s' : State}
    (shape : s' = (s.setMem (copiedMem s.pgdir.mem page old)).store pte
      (k2p page ||| pteUserData)) :
    s'.pgdir.frame va = some page ∧
      s'.pgdir.mem.word (page + 8 * 0) = (givenBack s.pgdir.mem old).word (old + 8 * 0) := by
  obtain ⟨tables', same⟩ := taking.tables tables unused unusedOld
  have located' := (same va).1.trans located
  rw [shape]
  refine ⟨?_, ?_⟩
  · exact (Pt.frame_of_entry (tables'.entry_store_same located' _)).trans
      (Pt.mappedPage_userData taking.kernel)
  · refine (tables'.store_frame located' _ taking.kernel unused (by decide)).trans ?_
    exact (taking.copiedMem_word taking.kernel (Ne.symm taking.different) (by decide)).trans
      (if_pos rfl)

/-- The page of zeros is not the page that is copied to. -/
theorem checkZeroPage_copied (shared : Shared s others) (taking : Taking s.pgdir.mem page old)
    (free : page ∈ s.pgdir.mem.pages)
    (kept : (givenBack s.pgdir.mem old).word = s.pgdir.mem.word) :
    checkZeroPage (copiedMem s.pgdir.mem page old).word s.zeroPage = true := by
  obtain ⟨kernelZero, usedZero, -, zero⟩ := shared.zeroPage
  rw [checkZeroPage_iff] at zero ⊢
  intro index small
  have different : s.zeroPage ≠ page := fun same => usedZero (same ▸ free)
  change copyPage (givenBack s.pgdir.mem old).word page old _ = _
  rw [kept, copyPage_word taking.kernel kernelZero small, if_neg different, zero index small]

/-- The handler of a write to a page that is mapped read-only maps the address to a copy of its own
and changes nothing else exactly if there are more pages left than are kept back, and somebody else
refers to the page or the page starts with the link that is written to it. -/
theorem copy_on_write_preserves (shared : Shared s others)
    (mapped : s.pgdir.entry va = some value) (valid : value &&& pteValid ≠ 0)
    (readOnly : value &&& pteRo ≠ 0) (more : s.pgdir.mem.pages ≠ [])
    (referred : 1 ≤ s.pgdir.mem.ref (Mem.refIndex (p2k (pteAddress value)))) :
    (reversedPages < s.pgdir.mem.leftPageCnt ∧
        (2 ≤ s.pgdir.mem.ref (Mem.refIndex (p2k (pteAddress value))) ∨
          s.pgdir.mem.word (p2k (pteAddress value)) = s.pgdir.mem.pages.tail.headD 0)) ↔
      ∃ s' page, pgfault s va = some s' ∧
        Copied s others va (p2k (pteAddress value)) s' page := by
  obtain ⟨page, rest, pages⟩ := List.exists_cons_of_ne_nil more
  have free : page ∈ s.pgdir.mem.pages := by simp [pages]
  obtain ⟨pte, located, word⟩ := Option.map_eq_some_iff.mp mapped
  have held : s.pgdir.frame va = some (p2k (pteAddress value)) := by
    rw [Pt.frame_of_entry mapped, Pt.mappedPage, if_neg valid]
  obtain ⟨used, unusedOld⟩ := shared.frames s.pgdir (List.mem_cons_self ..) va _ held
  have taking : Taking s.pgdir.mem page (p2k (pteAddress value)) :=
    ⟨by simp [pages], shared.fresh.kernel page free, Pt.frame_kernel held,
      fun same => used (same ▸ free), referred⟩
  have nonzero : value ≠ 0 := by
    rintro rfl
    exact valid (by decide)
  have runs : pgfault s va = copyOnWrite s pte value := by
    simp only [pgfault, shared.tables.getPte_located located, Option.bind_some, word, nonzero,
      if_false, readOnly, ne_eq, not_false_eq_true, if_true]
  generalize isOld : p2k (pteAddress value) = old at *
  rw [runs]
  constructor
  · rintro ⟨left, either⟩
    have kept : (givenBack s.pgdir.mem old).word = s.pgdir.mem.word := by
      rw [taking.givenBack.1]
      split
      · rw [← either.resolve_left (by omega), Function.update_eq_self]
      · rfl
    refine ⟨_, page, ?_, copied shared located taking held kept rfl⟩
    rw [copyOnWrite_eq isOld taking left, if_pos (checkZeroPage_copied shared taking free kept)]
  · rintro ⟨s', page', ran, copied⟩
    have left : reversedPages < s.pgdir.mem.leftPageCnt := by
      by_contra few
      rw [copyOnWrite, allocPageForUser, if_pos (by omega)] at ran
      simp at ran
    refine ⟨left, or_iff_not_imp_left.mpr fun last => ?_⟩
    rw [copyOnWrite_eq isOld taking left] at ran
    split at ran
    · -- the copy of the last reference starts with the link
      have shape := (Option.some.inj ran).symm
      obtain ⟨frame, first⟩ := copied_first shared.tables located taking
        (shared.fresh.unused page free) unusedOld shape
      obtain rfl : page = page' := by
        simpa [frame] using (copied.alone va).mpr (.refl va)
      have bytes := congrArg (bytesWord · (8 * 0)) copied.bytes
      simp only [bytesWord_pageBytes (show (0 : UInt64) < 512 by decide)] at bytes
      rw [first, taking.givenBack.1, if_pos (by omega)] at bytes
      simpa using bytes.symm
    · cases ran

end Fault

/-! ## A page that is mapped read-only -/

section Example

variable {s s' : State} {va ka flags : UInt64}

/-- `vmmap` of a page into an address space without any. -/
theorem Shared.vmmap (tables : Pt.Tables s.pgdir) (fresh : Pt.Fresh s.pgdir)
    (empty : ∀ va, s.pgdir.frame va = none) (kernel : KernelPage ka)
    (used : ka ∉ s.pgdir.mem.pages ∧ ka ∉ s.pgdir.tables)
    (low : flags &&& 0xFFFF000000000FFF = flags)
    (kernelZero : KernelPage s.zeroPage)
    (usedZero : s.zeroPage ∉ s.pgdir.mem.pages ∧ s.zeroPage ∉ s.pgdir.tables)
    (zero : checkZeroPage s.pgdir.mem.word s.zeroPage = true)
    (ran : CopyOnWrite.vmmap s va ka flags = some s') : Shared s' [] := by
  obtain ⟨⟨result, pgdir⟩, got, ran⟩ := Option.bind_eq_some_iff.mp ran
  obtain ⟨pte, taken, rfl, located, tables', fresh', grown, -⟩ := tables.getPte_true fresh got
  obtain rfl := Option.some.inj ran
  have outside : ∀ page, page ∉ s.pgdir.mem.pages ∧ page ∉ s.pgdir.tables →
      page ∉ pgdir.mem.pages ∧ page ∉ pgdir.tables := by
    rintro page ⟨free, table⟩
    rw [grown.pages, List.mem_append, not_or] at free
    rw [grown.tables.mem_iff, List.mem_append]
    exact ⟨free.2, fun member => member.elim free.1 table⟩
  have counted := fun ref : UInt64 → Int =>
    (⟨tables'.kernel, tables'.tree⟩ : Pt.Tables { pgdir with mem := { pgdir.mem with ref } })
  have own := counted
    (Function.update pgdir.mem.ref (Mem.refIndex ka) (pgdir.mem.ref (Mem.refIndex ka) + 1))
  refine ⟨(own.store located _).1, ⟨fresh'.kernel, fresh'.nodup, fresh'.unused⟩, by simp,
    fun space member va' page found => ?_, kernelZero, (outside _ usedZero).1,
    (outside _ usedZero).2, ?_⟩
  · obtain rfl := List.mem_singleton.mp member
    by_cases near : SamePage va va'
    · have mapped := (own.frame_store_same located (k2p ka ||| flags) near).symm.trans found
      have address : pteAddress (k2p ka ||| flags) = k2p ka := and_not_or kernel low
      rw [(Pt.mappedPage_some mapped).2, address, p2k, k2p, UInt64.sub_add_cancel]
      exact outside ka used
    · have mapped := (own.frame_store_other located (k2p ka ||| flags) near).symm.trans found
      have before : pgdir.frame va' = none := (grown.frame va').trans (empty va')
      exact absurd (before.symm.trans mapped) (by simp)
  · rw [checkZeroPage_iff] at zero ⊢
    intro index small
    have table := (outside _ usedZero).2
    rw [← zero index small, ← grown.frames s.zeroPage index kernelZero small table]
    exact own.store_frame located _ kernelZero table small

/-- Reference counts play no part in where pages are. -/
theorem Shared.setRef (shared : Shared s []) (ref : UInt64 → Int) :
    Shared (s.setMem { s.pgdir.mem with ref }) [] := by
  refine ⟨⟨shared.tables.kernel, shared.tables.tree⟩,
    ⟨shared.fresh.kernel, shared.fresh.nodup, shared.fresh.unused⟩, by simp,
    fun space member va page found => ?_, shared.zeroPage⟩
  obtain rfl := List.mem_singleton.mp member
  exact shared.frames s.pgdir (List.mem_cons_self ..) va page found

/-- Memory in which each word is its own address, apart from the page of zeros. -/
def memory : Mem :=
  { HeapPages.memory with
    word := fun addr => if addr - 0xffff000000200000 < 4096 then 0 else addr }

/-- A process for which a page was allocated and mapped read-only. -/
def readOnlyPage : Option State :=
  (Pt.initPgdir memory).bind fun pgdir =>
    let (page, mem) := pgdir.mem.kallocPage
    vmmap (HeapPages.emptyHeap { pgdir with mem }) 0x1000 page (pteUserData ||| pteRo)

/-- What it looks like. -/
theorem readOnlyPage_shown : readOnlyPage.map (fun s => (s.pgdir.entry 0x1000,
      s.pgdir.mem.pages.isEmpty, s.pgdir.mem.leftPageCnt,
      s.pgdir.mem.ref (Mem.refIndex 0xffff000000202000))) =
    some (some (k2p 0xffff000000202000 ||| (pteUserData ||| pteRo)), false, 1100, 2) := by
  decide +kernel

/-- Its pages are apart. -/
theorem readOnlyPage_shared : ∃ s, readOnlyPage = some s ∧ Shared s [] := by
  obtain ⟨s, made, -⟩ := Option.map_eq_some_iff.mp readOnlyPage_shown
  obtain ⟨kernel, nodup⟩ := HeapPages.memory_pages
  have more : memory.pages = 0xffff000000201000 :: memory.pages.tail := rfl
  obtain ⟨pgdir, init, tables, absent, pages, own⟩ := Pt.initPgdir_some more
    (kernel _ (List.mem_cons_self ..))
  have fresh := Pt.initPgdir_fresh more kernel nodup init
  have next : pgdir.mem.pages = 0xffff000000202000 :: memory.pages.tail.tail := pages
  have taken : pgdir.mem.kallocPage.1 = 0xffff000000202000 := by simp [Mem.kallocPage, next]
  have left : pgdir.mem.kallocPage.2.pages = memory.pages.tail.tail := by
    simp [Mem.kallocPage, next]
  have zero : (Pt.initPgdir memory).map (fun pgdir =>
      checkZeroPage pgdir.mem.word 0xffff000000200000) = some true := by
    decide +kernel
  rw [init, Option.map_some, Option.some.injEq] at zero
  obtain ⟨start, shape⟩ : ∃ start,
      start = HeapPages.emptyHeap { pgdir with mem := pgdir.mem.kallocPage.2 } := ⟨_, rfl⟩
  have made' : CopyOnWrite.vmmap start 0x1000 0xffff000000202000 (pteUserData ||| pteRo) =
      some s := by
    rw [shape, ← taken, ← made, readOnlyPage, init]
    rfl
  have tables' : Pt.Tables start.pgdir := by
    rw [shape]
    exact ⟨tables.kernel, tables.tree⟩
  have fresh' : Pt.Fresh start.pgdir := by
    rw [shape]
    exact ⟨fun page member => fresh.kernel page (List.mem_of_mem_tail member),
      fresh.nodup.sublist (List.tail_sublist _),
      fun page member => fresh.unused page (List.mem_of_mem_tail member)⟩
  have empty : ∀ va, start.pgdir.frame va = none := fun va => by
    have none : pgdir.entry va = none := by rw [Pt.State.entry, absent, Option.map_none]
    rw [shape]
    exact congrArg (Option.bind · _) none
  have pages' : start.pgdir.mem.pages = memory.pages.tail.tail := by rw [shape, ← left]; rfl
  have own' : start.pgdir.tables = [0xffff000000201000] := by rw [shape, ← own]; rfl
  have zeroPage : start.zeroPage = 0xffff000000200000 := by rw [shape]; rfl
  have word : start.pgdir.mem.word = pgdir.mem.word := by rw [shape]; rfl
  refine ⟨s, made, Shared.vmmap tables' fresh' empty (by decide) ⟨?_, ?_⟩ (by decide) ?_ ⟨?_, ?_⟩ ?_
    made'⟩
  · have apart := fresh.nodup
    rw [next, List.nodup_cons] at apart
    rw [pages']
    exact apart.1
  · rw [own']
    decide
  · rw [zeroPage]
    decide
  · rw [zeroPage, pages']
    decide +kernel
  · rw [zeroPage, own']
    decide
  · rw [zeroPage, word, zero]

/-- The write to a page that the allocator's owner still refers to. -/
theorem copy_on_write_preserves_allocated : ∃ s s' page, readOnlyPage = some s ∧
    pgfault s 0x1000 = some s' ∧ Copied s [] 0x1000 0xffff000000202000 s' page := by
  obtain ⟨s, made, shared⟩ := readOnlyPage_shared
  have shown := readOnlyPage_shown
  rw [made, Option.map_some, Option.some.injEq] at shown
  simp only [Prod.mk.injEq, List.isEmpty_eq_false_iff] at shown
  obtain ⟨entry, more, left, ref⟩ := shown
  have twice : 2 ≤ s.pgdir.mem.ref (Mem.refIndex 0xffff000000202000) := by rw [ref]
  obtain ⟨s', page, ran, copied⟩ := (copy_on_write_preserves shared entry (by decide) (by decide)
    more (show 1 ≤ s.pgdir.mem.ref (Mem.refIndex 0xffff000000202000) by omega)).mp
    ⟨by rw [left]; decide, .inl twice⟩
  exact ⟨s, s', page, made, ran, copied⟩

/-- The same page once its owner has given it up. -/
def lastReference : Option State :=
  readOnlyPage.map fun s => s.setMem (s.pgdir.mem.kfreePage 0xffff000000202000)

/-- The write to a page that nobody else refers to: the copy starts with the link that the queue of
free pages wrote to the old page. -/
theorem last_reference_copied_late : ∃ s s' value page, Shared s [] ∧
    s.pgdir.entry 0x1000 = some value ∧ value &&& pteValid ≠ 0 ∧ value &&& pteRo ≠ 0 ∧
    s.pgdir.mem.pages ≠ [] ∧ reversedPages < s.pgdir.mem.leftPageCnt ∧
    s.pgdir.mem.ref (Mem.refIndex (p2k (pteAddress value))) = 1 ∧
    pgfault s 0x1000 = some s' ∧ s'.pgdir.frame 0x1000 = some page ∧
    pageBytes s'.pgdir.mem.word page ≠ pageBytes s.pgdir.mem.word (p2k (pteAddress value)) := by
  obtain ⟨s, made, shared⟩ := readOnlyPage_shared
  have shown := readOnlyPage_shown
  rw [made, Option.map_some, Option.some.injEq] at shown
  simp only [Prod.mk.injEq, List.isEmpty_eq_false_iff] at shown
  obtain ⟨entry, more, left, ref⟩ := shown
  have dropped : s.pgdir.mem.kfreePage 0xffff000000202000 = { s.pgdir.mem with
      ref := Function.update s.pgdir.mem.ref (Mem.refIndex 0xffff000000202000) 1 } := by
    rw [Mem.kfreePage, Function.update_self, ref]
    rfl
  have faulted : lastReference.bind (fun s => (pgfault s 0x1000).map fun s' =>
      (s'.pgdir.frame 0x1000, (pageBytes s'.pgdir.mem.word 0xffff000000206000).get 1,
        (pageBytes s.pgdir.mem.word 0xffff000000202000).get 1)) =
      some (some 0xffff000000206000, 0x70, 0x20) := by
    decide +kernel
  rw [lastReference, made, Option.map_some, Option.bind_some, Option.map_eq_some_iff] at faulted
  obtain ⟨s', ran, observed⟩ := faulted
  simp only [Prod.mk.injEq] at observed
  obtain ⟨frame, after, before⟩ := observed
  have shared' := shared.setRef
    (Function.update s.pgdir.mem.ref (Mem.refIndex 0xffff000000202000) 1)
  rw [dropped] at ran before
  refine ⟨_, s', _, _, shared', entry, by decide, by decide, more,
    (by rw [left]; decide : reversedPages < s.pgdir.mem.leftPageCnt), ?_, ran, frame, fun same => ?_⟩
  · exact Function.update_self (Mem.refIndex 0xffff000000202000) 1 s.pgdir.mem.ref
  · have equal := after.symm.trans ((congrArg (·.get 1) same).trans before)
    exact absurd equal (by decide)

end Example

end OsLab.Kernel.CopyOnWrite
