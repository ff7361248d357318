import OsLab.Kernel.HeapPages

/-!
# Fresh heap pages

Two runs of a process whose memories differ in free pages only. The tables that `get_pte` makes are
filled with zeros, but the page that `pgfault` installs for a first access is not: what was left in
it can be read. The two runs read the same as long as the pages installed hold nothing but the
link of the queue.
-/
namespace OsLab.Kernel.FreshPages

open OsLab.Lib OsLab.Aarch64 OsLab.Kernel.Paging OsLab.Kernel.HeapPages

/-! ## Memories that differ in free pages -/

/-- Memories that differ in the words of pages on the queue only, other than the links. -/
structure Alike (m m' : Mem) : Prop where
  rest : m' = { m with word := m'.word }
  words : ∀ page, KernelPage page → page ∉ m.pages → ∀ index, index < 512 →
    m'.word (page + 8 * index) = m.word (page + 8 * index)
  links : ∀ page ∈ m.pages, m'.word page = m.word page

namespace Alike

variable {m m' : Mem}

/-- The queues are the same. -/
theorem pages (alike : Alike m m') : m'.pages = m.pages := by rw [alike.rest]

/-- The numbers of pages left are the same. -/
theorem leftPageCnt (alike : Alike m m') : m'.leftPageCnt = m.leftPageCnt := by
  rw [alike.rest]
  rfl

/-- The relation goes both ways. -/
theorem symm (alike : Alike m m') : Alike m' m where
  rest := by rw [alike.rest]
  words page kernel free index small :=
    (alike.words page kernel (alike.pages ▸ free) index small).symm
  links page member := (alike.links page (alike.pages ▸ member)).symm

/-- The same store in both. -/
theorem store (alike : Alike m m') (addr value : UInt64) :
    Alike { m with word := Function.update m.word addr value }
      { m' with word := Function.update m'.word addr value } where
  rest := by rw [alike.rest]
  words page kernel free index small := by
    simp only [Function.update_apply]
    rw [alike.words page kernel free index small]
  links page member := by
    simp only [Function.update_apply]
    rw [alike.links page member]

/-- Both take a page, which has the same words afterwards. -/
theorem take (alike : Alike m m') {page : UInt64} {rest : List UInt64}
    (more : m.pages = page :: rest) {word word' : UInt64 → UInt64}
    (outside : ∀ other, KernelPage other → other ≠ page → ∀ index, index < 512 →
      word (other + 8 * index) = m.word (other + 8 * index) ∧
      word' (other + 8 * index) = m'.word (other + 8 * index))
    (kernel : ∀ page ∈ m.pages, KernelPage page) (nodup : m.pages.Nodup)
    (inside : ∀ index, index < 512 → word' (page + 8 * index) = word (page + 8 * index)) :
    Alike { m.kallocPage.2 with word } { m'.kallocPage.2 with word := word' } where
  rest := by
    rw [alike.rest]
    rfl
  words other kernel' free index small := by
    by_cases here : other = page
    · subst here
      exact inside index small
    · obtain ⟨same, same'⟩ := outside other kernel' here index small
      refine same'.trans ((alike.words other kernel' ?_ index small).trans same.symm)
      simp only [Mem.kallocPage, more, List.tail_cons] at free
      simp [more, here, free]
  links other member := by
    simp only [Mem.kallocPage, more, List.tail_cons] at member
    rw [more] at kernel nodup
    have different : other ≠ page := by
      rintro rfl
      exact (List.nodup_cons.mp nodup).1 member
    have kernel' := kernel other (List.mem_cons_of_mem _ member)
    have first := outside other kernel' different 0 (by decide)
    simp only [UInt64.mul_zero, UInt64.add_zero] at first
    exact first.2.trans ((alike.links other (by simp [more, member])).trans first.1.symm)

/-- Both take a page and fill it with zeros. -/
theorem clear (alike : Alike m m') {page : UInt64} {rest : List UInt64}
    (more : m.pages = page :: rest) (kernel : ∀ page ∈ m.pages, KernelPage page)
    (nodup : m.pages.Nodup) :
    Alike { m.kallocPage.2 with word := clearPage m.word page }
      { m'.kallocPage.2 with word := clearPage m'.word page } := by
  have kernel' := kernel page (by simp [more])
  refine alike.take more (fun other kernel'' different index small => ?_) kernel nodup
    fun index small => ?_
  · exact ⟨overwrite_outside kernel' kernel'' small different,
      overwrite_outside kernel' kernel'' small different⟩
  · rw [clearPage, clearPage, overwrite_inside small, overwrite_inside small]

/-- Both take a page for the process, which holds zeros in both other than its link. -/
theorem allocPageForUser (alike : Alike m m') (kernel : ∀ page ∈ m.pages, KernelPage page)
    (nodup : m.pages.Nodup)
    (zero : ∀ page ∈ m.pages.head?, ∀ index, index < 512 → index ≠ 0 →
      m.word (page + 8 * index) = 0 ∧ m'.word (page + 8 * index) = 0) :
    (Paging.allocPageForUser m').1 = (Paging.allocPageForUser m).1 ∧
      Alike (Paging.allocPageForUser m).2 (Paging.allocPageForUser m').2 := by
  rw [Paging.allocPageForUser, Paging.allocPageForUser, alike.leftPageCnt]
  split
  · exact ⟨rfl, alike⟩
  · refine ⟨congrArg (·.headD 0) alike.pages, ?_⟩
    cases more : m.pages with
    | nil =>
      refine ⟨by rw [alike.rest]; rfl, fun page kernel' _ => ?_, fun page member => ?_⟩
      · exact alike.words page kernel' (by simp [more])
      · simp [Mem.kallocPage, more] at member
    | cons page rest =>
      refine alike.take more (fun _ _ _ _ _ => ⟨rfl, rfl⟩) kernel nodup fun index small => ?_
      by_cases first : index = 0
      · rw [first, UInt64.mul_zero, UInt64.add_zero]
        exact alike.links page (by simp [more])
      · obtain ⟨left, right⟩ := zero page (by simp [more]) index small first
        exact right.trans left.symm

end Alike

/-! ## Page tables -/

section PageTables

variable {s s' t : Pt.State} {va : UInt64}

/-- Page tables over such memories. -/
structure AlikePt (s t : Pt.State) : Prop where
  rest : t = { s with mem := t.mem }
  mem : Alike s.mem t.mem

/-- The relation goes both ways. -/
theorem AlikePt.symm (alike : AlikePt s t) : AlikePt t s where
  rest := by rw [alike.rest]
  mem := alike.mem.symm

/-- Tables hold the same words. -/
theorem AlikePt.agree (alike : AlikePt s t) (tables : Pt.Tables s) (fresh : Pt.Fresh s) :
    ∀ table ∈ s.tables, ∀ index, index < 512 →
      t.mem.word (table + 8 * index) = s.mem.word (table + 8 * index) := fun table member =>
  alike.mem.words table (tables.kernel table member) fun free => fresh.unused table free member

/-- Tables are tables in both. -/
theorem AlikePt.tables (alike : AlikePt s t) (tables : Pt.Tables s) (fresh : Pt.Fresh s) :
    Pt.Tables t := by
  have root : t.pt = s.pt := by rw [alike.rest]
  have same : t.tables = s.tables := by rw [alike.rest]
  exact (tables.congr t root same (alike.agree tables fresh)).1

/-- Entries are the same. -/
theorem AlikePt.entry (alike : AlikePt s t) (tables : Pt.Tables s) (fresh : Pt.Fresh s)
    (va : UInt64) : t.entry va = s.entry va := by
  have root : t.pt = s.pt := by rw [alike.rest]
  have same : t.tables = s.tables := by rw [alike.rest]
  exact (tables.entry_of_agree t root same (alike.agree tables fresh) va).2

/-- Pages on the queue are unused in both. -/
theorem AlikePt.fresh (alike : AlikePt s t) (fresh : Pt.Fresh s) : Pt.Fresh t := by
  have same : t.tables = s.tables := by rw [alike.rest]
  refine ⟨?_, ?_, ?_⟩ <;> rw [alike.mem.pages]
  · exact fresh.kernel
  · exact fresh.nodup
  · rw [same]
    exact fresh.unused

/-- One level of `get_pte` in both. -/
theorem AlikePt.nextTable (alike : AlikePt s t) (tables : Pt.Tables s) (fresh : Pt.Fresh s)
    {table part below : UInt64} (member : table ∈ s.tables) (small : part < 512)
    (ran : Pt.nextTable part true table s = some (some below, s')) :
    ∃ t', Pt.nextTable part true table t = some (some below, t') ∧ AlikePt s' t' := by
  have same : Pt.child t.mem.word table part = Pt.child s.mem.word table part :=
    Pt.child_congr fun small => alike.agree tables fresh table member part small
  cases entry : Pt.child s.mem.word table part with
  | some next =>
    rw [Pt.nextTable_present entry] at ran
    obtain ⟨⟨⟩, rfl⟩ := Prod.mk.inj (Option.some.inj ran)
    exact ⟨t, Pt.nextTable_present (same.trans entry) true, alike⟩
  | none =>
    cases more : s.mem.pages with
    | nil =>
      rw [Pt.nextTable_stuck small entry more] at ran
      exact absurd ran (by simp)
    | cons page rest =>
      have kernel := fresh.kernel page (by simp [more])
      rw [Pt.nextTable_made small entry more kernel] at ran
      obtain ⟨named, rfl⟩ := Prod.mk.inj (Option.some.inj ran)
      obtain rfl : page = below := Option.some.inj named
      refine ⟨_, Pt.nextTable_made small (same.trans entry) (alike.mem.pages.trans more) kernel,
        ?_, ?_⟩
      · rw [alike.rest]
        rfl
      · have stored := (alike.mem.clear more fresh.kernel fresh.nodup).store (table + 8 * part)
          (k2p page ||| pteTable)
        simp only [Mem.kallocPage, more, alike.mem.pages, List.headD_cons, List.tail_cons] at stored
        exact stored

/-- `init_pgdir` in both. -/
theorem Alike.initPgdir {m m' : Mem} (alike : Alike m m') {page : UInt64} {rest : List UInt64}
    (more : m.pages = page :: rest) (kernel : ∀ page ∈ m.pages, KernelPage page)
    (nodup : m.pages.Nodup) :
    ∃ s t, Pt.initPgdir m = some s ∧ Pt.initPgdir m' = some t ∧ AlikePt s t := by
  have root := kernel page (by simp [more])
  exact ⟨_, _, Pt.initPgdir_eq more root, Pt.initPgdir_eq (alike.pages.trans more) root, rfl,
    alike.clear more kernel nodup⟩

/-- `get_pte` with `alloc` in both. -/
theorem AlikePt.getPte (alike : AlikePt s t) (tables : Pt.Tables s) (fresh : Pt.Fresh s)
    {pointer : Option UInt64} (ran : Pt.getPte s va true = some (pointer, s')) :
    ∃ t', Pt.getPte t va true = some (pointer, t') ∧ AlikePt s' t' := by
  obtain ⟨small0, small1, small2, -⟩ := Pt.vaParts_lt va
  have root : t.pt = s.pt := by rw [alike.rest]
  rw [Pt.getPte, tables.root, Pt.Result.andThen_table] at ran
  obtain ⟨p1, -, s1, first, tables1, fresh1, -, -, found1, ran⟩ :=
    tables.descend fresh [] (by simp) rfl small0 ran
  obtain ⟨p2, -, s2, second, tables2, fresh2, -, -, found2, ran⟩ :=
    tables1.descend fresh1 [vaPart0 va] (by simp) found1 small1 ran
  obtain ⟨p3, -, s3, third, -, -, -, -, -, ran⟩ :=
    tables2.descend fresh2 [vaPart0 va, vaPart1 va] (by simp) found2 small2 ran
  obtain ⟨t1, first', alike1⟩ :=
    alike.nextTable tables fresh (tables.tree.inUse [] s.pt (by simp) rfl) small0 first
  obtain ⟨t2, second', alike2⟩ :=
    alike1.nextTable tables1 fresh1 (tables1.inUse (by simp) found1) small1 second
  obtain ⟨t3, third', alike3⟩ :=
    alike2.nextTable tables2 fresh2 (tables2.inUse (by simp) found2) small2 third
  obtain ⟨rfl, rfl⟩ := Prod.mk.inj (Option.some.inj ran)
  refine ⟨t3, ?_, alike3⟩
  rw [Pt.getPte, (alike.tables tables fresh).root, root, Pt.Result.andThen_table, first',
    Pt.Result.andThen_table, second', Pt.Result.andThen_table, third', Pt.Result.andThen_table]

end PageTables

/-! ## Heaps -/

/-- The page of memory that an entry maps is in use, and may be read and written. -/
structure Backed (pgdir : Pt.State) (value : UInt64) : Prop where
  valid : value &&& pteValid ≠ 0
  writable : value &&& pteRo = 0
  kernel : KernelPage (p2k (pteAddress value))
  table : p2k (pteAddress value) ∉ pgdir.tables
  used : p2k (pteAddress value) ∉ pgdir.mem.pages

/-- A process whose heap has no more than `n` pages, which are in memory. -/
structure Owned (n : Nat) (s : State) : Prop where
  tables : Pt.Tables s.pgdir
  fresh : Pt.Fresh s.pgdir
  aligned : s.sec.begin.toNat % 4096 = 0
  within : s.sec.begin.toNat + 4096 * n ≤ 2 ^ 48
  plain : s.sec.flags &&& stSwap = 0
  /-- Page 0, which an entry maps where there is no page left, belongs to the kernel. -/
  low : p2k 0 ∉ s.pgdir.tables ∧ p2k 0 ∉ s.pgdir.mem.pages
  entries : ∀ page, page < n → ∀ value, s.pgdir.entry (pageAddr s.sec.begin page) = some value →
    value = 0 ∨ Backed s.pgdir value

/-- The states of a process that differ in free pages only. -/
structure AlikeState (s t : State) : Prop where
  rest : t = { s with pgdir := t.pgdir }
  pgdir : AlikePt s.pgdir t.pgdir

/-- The page that `pgfault` takes from the queue for a first access to `va`, once `get_pte` has made
its tables, holds zeros other than its link. -/
def Clean (s : State) (va : UInt64) : Prop :=
  ∀ result ∈ Pt.getPte s.pgdir va true, ∀ page ∈ result.2.mem.pages.head?, ∀ i ∈ List.range 512,
    i ≠ 0 → result.2.mem.word (page + 8 * UInt64.ofNat i) = 0

instance (s : State) (va : UInt64) : Decidable (Clean s va) := by
  unfold Clean
  infer_instance

/-- The words of a clean page. -/
theorem Clean.zero {s : State} {va : UInt64} (clean : Clean s va) {pointer : Option UInt64}
    {pgdir : Pt.State} (got : Pt.getPte s.pgdir va true = some (pointer, pgdir)) {page : UInt64}
    (next : page ∈ pgdir.mem.pages.head?) {index : UInt64} (small : index < 512)
    (later : index ≠ 0) : pgdir.mem.word (page + 8 * index) = 0 := by
  have member : index.toNat ∈ List.range 512 :=
    List.mem_range.mpr (UInt64.lt_iff_toNat_lt.mp small)
  have nonzero : index.toNat ≠ 0 := fun same => later (UInt64.toNat_inj.mp same)
  have word := clean _ got page next index.toNat member nonzero
  rwa [UInt64.ofNat_toNat] at word

/-- An entry for the page that `alloc_page_for_user` returned, or for page 0 if it returned
`NULL`. -/
theorem Backed.userEntry {pgdir : Pt.State} {m : Mem} (fresh : Pt.Fresh pgdir)
    (low : p2k 0 ∉ pgdir.tables ∧ p2k 0 ∉ pgdir.mem.pages)
    (same : m = (allocPageForUser pgdir.mem).2) (word : UInt64 → UInt64) :
    Backed { pgdir with mem := { m with word } }
      (k2p (allocPageForUser pgdir.mem).1 ||| pteUserData) := by
  subst same
  rcases allocPageForUser_pages pgdir.mem with ⟨null, pages⟩ | pages
  · rw [null]
    have address : p2k (pteAddress (k2p 0 ||| pteUserData)) = p2k 0 := by decide
    refine ⟨by decide, by decide, by decide, ?_, ?_⟩
    · rw [address]
      exact low.1
    · rw [address]
      change p2k 0 ∉ (allocPageForUser pgdir.mem).2.pages
      rw [pages]
      exact low.2
  · have kernel := fresh.kernel (allocPageForUser pgdir.mem).1 (by rw [pages]; simp)
    have nodup := fresh.nodup
    rw [pages, List.nodup_cons] at nodup
    have address := kernel.userEntry
    refine ⟨?_, ?_, ?_, ?_, ?_⟩
    · rw [kernel.entry_and pteUserData (by decide)]
      decide
    · rw [kernel.entry_and pteUserData (by decide)]
      decide
    · rw [address]
      exact kernel
    · rw [address]
      exact fresh.unused _ (by rw [pages]; simp)
    · rw [address]
      exact nodup.1

section Faults

variable {n page : Nat} {index : UInt64} {s s' t : State}

/-- The relation goes both ways. -/
theorem AlikeState.symm (alike : AlikeState s t) : AlikeState t s where
  rest := by rw [alike.rest]
  pgdir := alike.pgdir.symm

/-- Entries that were there are as before after the tables of a page were made and the page was
installed. -/
theorem Owned.first (owned : Owned n s) (inside : page < n) (small : index < 512)
    (unused : (s.pgdir.entry (pageAddr s.sec.begin page)).getD 0 = 0)
    (ran : pgfault s (wordAddr s.sec.begin page index) = some s') :
    Owned n s' ∧ s'.sec = s.sec ∧ ∃ value,
      s'.pgdir.entry (pageAddr s.sec.begin page) = some value ∧ Backed s'.pgdir value := by
  have samePage := samePage_wordAddr owned.aligned owned.within inside small
  rw [← Pt.entry_congr samePage] at unused
  obtain ⟨pgdir, pte, taken, -, tables, fresh, grown, -, located, -, shape⟩ :=
    pgfault_first owned.tables owned.fresh unused owned.plain ran
  obtain ⟨tables', here, others⟩ := tables_first tables located shape
  rw [Pt.entry_congr samePage] at here
  -- Pages that are no longer on the queue are tables or the page installed.
  have left : ∀ page, page ∈ pgdir.mem.pages → page ∈ s.pgdir.mem.pages := by
    intro page member
    rw [grown.pages]
    exact List.mem_append_right _ member
  have left' : ∀ page, page ∈ s'.pgdir.mem.pages → page ∈ pgdir.mem.pages := by
    intro page member
    rw [shape] at member
    rcases allocPageForUser_pages pgdir.mem with ⟨-, pages⟩ | pages
    · exact pages ▸ member
    · rw [pages]
      exact List.mem_cons_of_mem _ member
  have same : s'.pgdir.tables = pgdir.tables := by rw [shape]; rfl
  have kept : ∀ frame, frame ∉ s.pgdir.tables → frame ∉ s.pgdir.mem.pages →
      frame ∉ pgdir.tables ∧ frame ∉ s'.pgdir.mem.pages := by
    intro frame table free
    refine ⟨fun member => ?_, fun member => free (left frame (left' frame member))⟩
    rcases List.mem_append.mp (grown.tables.mem_iff.mp member) with new | old
    · exact free (by rw [grown.pages]; exact List.mem_append_left _ new)
    · exact table old
  have sec : s'.sec = s.sec := by rw [shape]; rfl
  have low := kept (p2k 0) owned.low.1 owned.low.2
  have backed : Backed s'.pgdir (k2p (allocPageForUser pgdir.mem).1 ||| pteUserData) := by
    have low' : p2k 0 ∉ pgdir.mem.pages := fun member => owned.low.2 (left _ member)
    rw [shape]
    exact .userEntry fresh ⟨low.1, low'⟩ rfl _
  refine ⟨{ tables := tables', fresh := ?_, aligned := sec ▸ owned.aligned,
            within := sec ▸ owned.within, plain := sec ▸ owned.plain, low := same ▸ low
            entries := fun other inside' value shown => ?_ }, sec, _, here, backed⟩
  · refine ⟨fun page member => fresh.kernel page (left' page member), ?_, fun page member => ?_⟩
    · rw [shape]
      rcases allocPageForUser_pages pgdir.mem with ⟨-, pages⟩ | pages
      · exact pages ▸ fresh.nodup
      · have nodup := fresh.nodup
        rw [pages] at nodup
        exact (List.nodup_cons.mp nodup).2
    · rw [same]
      exact fresh.unused page (left' page member)
  · rw [sec] at shown
    by_cases this : other = page
    · rw [this, here] at shown
      exact .inr (Option.some.inj shown ▸ backed)
    · rw [others _ fun equal => this ?_] at shown
      · rcases grown.entry shown with zero | before
        · exact .inl zero
        · rcases owned.entries other inside' value before with zero | old
          · exact .inl zero
          · obtain ⟨table, free⟩ := kept _ old.table old.used
            exact .inr ⟨old.valid, old.writable, old.kernel, same ▸ table, free⟩
      · refine samePage_pageAddr owned.aligned owned.within inside' inside ?_
        rw [samePage_iff] at equal samePage ⊢
        omega

/-- The first access to a page in both, when the page installed is clean. -/
theorem AlikeState.first (alike : AlikeState s t) (owned : Owned n s) {va : UInt64}
    (unused : (s.pgdir.entry va).getD 0 = 0) (ran : pgfault s va = some s')
    (clean : Clean s va) (clean' : Clean t va) :
    ∃ t', pgfault t va = some t' ∧ AlikeState s' t' := by
  obtain ⟨pgdir, pte, -, got, tables, fresh, -, -, located, zero, rfl⟩ :=
    pgfault_first owned.tables owned.fresh unused owned.plain ran
  obtain ⟨pgdir', got', alike'⟩ := alike.pgdir.getPte owned.tables owned.fresh got
  have zero' : pgdir'.mem.word pte = 0 := by
    obtain ⟨table, found, rfl⟩ := Pt.location_some located
    rw [alike'.agree tables fresh table (tables.inUse (by simp [Pt.tablePath]) found) _
      (Pt.vaParts_lt va).2.2.2]
    exact zero
  have plain : t.sec.flags &&& stSwap = 0 := by
    rw [alike.rest]
    exact owned.plain
  obtain ⟨page, mem⟩ := alike'.mem.allocPageForUser fresh.kernel fresh.nodup
    fun page next index small later => ⟨clean.zero got next small later,
      clean'.zero got' (alike'.mem.pages ▸ next) small later⟩
  refine ⟨_, pgfault_lazy got' zero' plain, ?_, ?_, ?_⟩
  · rw [alike.rest]
    rfl
  · rw [alike'.rest]
    rfl
  · rw [page]
    exact mem.store pte _

/-- Both are processes of this kind. -/
theorem Owned.alike (owned : Owned n s) (alike : AlikeState s t) : Owned n t := by
  have sec : t.sec = s.sec := by rw [alike.rest]
  have same : t.pgdir.tables = s.pgdir.tables := by rw [alike.pgdir.rest]
  have pages := alike.pgdir.mem.pages
  refine
    { tables := alike.pgdir.tables owned.tables owned.fresh, fresh := alike.pgdir.fresh owned.fresh
      aligned := sec ▸ owned.aligned, within := sec ▸ owned.within, plain := sec ▸ owned.plain
      low := by rw [same, pages]; exact owned.low
      entries := fun page inside value shown => ?_ }
  rw [sec, alike.pgdir.entry owned.tables owned.fresh] at shown
  refine (owned.entries page inside value shown).imp_right fun backed => ?_
  exact ⟨backed.valid, backed.writable, backed.kernel, same ▸ backed.table, pages ▸ backed.used⟩

/-- Accesses reach the same word in both. -/
theorem AlikeState.translate (alike : AlikeState s t) (owned : Owned n s) (va : UInt64)
    (write : Bool) : t.translate va write = s.translate va write := by
  rw [State.translate, alike.pgdir.entry owned.tables owned.fresh, State.translate]

/-- An access to a page that is mapped. -/
theorem Owned.translate (owned : Owned n s) (inside : page < n) (small : index < 512)
    {value : UInt64} (entry : s.pgdir.entry (pageAddr s.sec.begin page) = some value)
    (backed : Backed s.pgdir value) (write : Bool) :
    s.translate (wordAddr s.sec.begin page index) write =
      some (p2k (pteAddress value) + 8 * index) := by
  rw [← Pt.entry_congr (samePage_wordAddr owned.aligned owned.within inside small)] at entry
  rw [State.translate, entry, Option.bind_some,
    if_neg (by simp [backed.valid, backed.writable]),
    wordAddr_and owned.aligned owned.within inside small]

/-- An access to a page that is not mapped. -/
theorem Owned.translate_unused (owned : Owned n s) (inside : page < n) (small : index < 512)
    (unused : (s.pgdir.entry (pageAddr s.sec.begin page)).getD 0 = 0) (write : Bool) :
    s.translate (wordAddr s.sec.begin page index) write = none := by
  rw [← Pt.entry_congr (samePage_wordAddr owned.aligned owned.within inside small)] at unused
  rw [State.translate]
  cases entry : s.pgdir.entry (wordAddr s.sec.begin page index) with
  | none => rfl
  | some value =>
    rw [entry] at unused
    obtain rfl : value = 0 := unused
    rw [Option.bind_some, if_pos (.inl (by decide))]

/-- The word of a page that is in use, and not as a table. -/
def UserWord (pgdir : Pt.State) (addr : UInt64) : Prop :=
  ∃ page index, addr = page + 8 * index ∧ index < 512 ∧ KernelPage page ∧ page ∉ pgdir.tables ∧
    page ∉ pgdir.mem.pages

/-- An access to a page that is mapped reaches the same word in both. -/
theorem AlikeState.access_mapped (alike : AlikeState s t) (owned : Owned n s) (inside : page < n)
    (small : index < 512) {value : UInt64}
    (entry : s.pgdir.entry (pageAddr s.sec.begin page) = some value)
    (backed : Backed s.pgdir value) (write : Bool) (faults : Nat) :
    ∃ addr, s.access (wordAddr s.sec.begin page index) write faults = some (addr, s) ∧
      t.access (wordAddr s.sec.begin page index) write faults = some (addr, t) ∧
      UserWord s.pgdir addr := by
  have reached := owned.translate inside small entry backed write
  have reached' := (alike.translate owned _ write).trans reached
  exact ⟨_, State.access_translate reached faults, State.access_translate reached' faults,
    _, index, rfl, small, backed.kernel, backed.table, backed.used⟩

/-- An access that ends in one run ends in the other, at the same word. -/
theorem AlikeState.access (alike : AlikeState s t) (owned : Owned n s) (inside : page < n)
    (small : index < 512)
    (clean : (s.pgdir.entry (pageAddr s.sec.begin page)).getD 0 = 0 →
      Clean s (wordAddr s.sec.begin page index) ∧ Clean t (wordAddr s.sec.begin page index))
    {write : Bool} {addr : UInt64}
    (ran : s.access (wordAddr s.sec.begin page index) write 2 = some (addr, s')) :
    ∃ t', t.access (wordAddr s.sec.begin page index) write 2 = some (addr, t') ∧
      AlikeState s' t' ∧ Owned n s' ∧ UserWord s'.pgdir addr := by
  by_cases unused : (s.pgdir.entry (pageAddr s.sec.begin page)).getD 0 = 0
  · obtain ⟨cleanLeft, cleanRight⟩ := clean unused
    have faulted := owned.translate_unused inside small unused write
    rw [State.access_fault faulted, Option.bind_eq_some_iff] at ran
    obtain ⟨s₁, handled, ran⟩ := ran
    obtain ⟨owned₁, sec, value, entry, backed⟩ := owned.first inside small unused handled
    rw [← Pt.entry_congr (samePage_wordAddr owned.aligned owned.within inside small)] at unused
    obtain ⟨t₁, handled', alike₁⟩ := alike.first owned unused handled cleanLeft cleanRight
    rw [State.access_fault ((alike.translate owned _ write).trans faulted), handled',
      Option.bind_some]
    rw [← sec] at entry ran ⊢
    obtain ⟨addr', ran', reached, user⟩ :=
      alike₁.access_mapped owned₁ inside small entry backed write 1
    obtain ⟨rfl, rfl⟩ := Prod.mk.inj (Option.some.inj (ran'.symm.trans ran))
    exact ⟨t₁, reached, alike₁, owned₁, user⟩
  · cases entry : s.pgdir.entry (pageAddr s.sec.begin page) with
    | none => exact absurd (by rw [entry]; rfl) unused
    | some value =>
      rw [entry] at unused
      have backed := (owned.entries page inside value entry).resolve_left unused
      obtain ⟨addr', ran', reached, user⟩ :=
        alike.access_mapped owned inside small entry backed write 2
      obtain ⟨rfl, rfl⟩ := Prod.mk.inj (Option.some.inj (ran'.symm.trans ran))
      exact ⟨t, reached, alike, owned, user⟩

/-- The process writes a word. -/
theorem Owned.store (owned : Owned n s) {addr : UInt64} (user : UserWord s.pgdir addr)
    (value : UInt64) : Owned n (s.store addr value) := by
  obtain ⟨page, index, rfl, small, kernel, table, -⟩ := user
  obtain ⟨tables, same⟩ := owned.tables.store_outside kernel table small value
  refine { owned with
    tables := tables
    fresh := ⟨owned.fresh.kernel, owned.fresh.nodup, owned.fresh.unused⟩
    entries := fun other inside value' shown => ?_ }
  refine (owned.entries other inside value' ((same _).symm.trans shown)).imp_right fun backed => ?_
  exact ⟨backed.valid, backed.writable, backed.kernel, backed.table, backed.used⟩

end Faults

/-! ## Runs -/

/-- What the process does. -/
inductive Act where
  /-- `sbrk` with a number of pages that is not negative. -/
  | grow (pages : Nat)
  /-- A read of a word of a page of the heap. -/
  | read (page : Nat) (index : UInt64)
  /-- A write of a word of a page of the heap. -/
  | write (page : Nat) (index value : UInt64)

/-- What the process does from one state: the values it reads, and the state after. -/
def Act.run (s : State) : Act → Option (List UInt64 × State)
  | .grow pages => (sbrk s pages).map fun (_, s) => ([], s)
  | .read page index =>
    (s.read (wordAddr s.sec.begin page index)).map fun (value, s) => ([value], s)
  | .write page index value =>
    (s.write (wordAddr s.sec.begin page index) value).map fun s => ([], s)

/-- Growing the heap moves its end only. -/
theorem Act.run_grow (s : State) (pages : Nat) : Act.run s (.grow pages) = some ([],
    { s with sec := { s.sec with limit := s.sec.limit + UInt64.ofInt (pages * 4096) } }) := by
  rw [Act.run, sbrk_of_nonneg (Int.natCast_nonneg _)]
  rfl

/-- Two runs side by side. -/
structure Run where
  /-- The process in the first run. -/
  left : State
  /-- The process in the second run. -/
  right : State
  /-- The values read in the first run, last one first. -/
  leftReads : List UInt64
  /-- The values read in the second run. -/
  rightReads : List UInt64

section Runs

variable (n : Nat)

/-- Accesses are to words of the heap. -/
def Act.Valid : Act → Prop
  | .grow _ => True
  | .read page index | .write page index _ => page < n ∧ index < 512

instance (act : Act) : Decidable (act.Valid n) := by
  cases act <;> unfold Act.Valid <;> infer_instance

/-- Both runs take the step. -/
def Run.step (s : Run) (act : Act) : Option Run :=
  if act.Valid n then
    (act.run s.left).bind fun (seen, left) =>
      (act.run s.right).map fun (seen', right) =>
        ⟨left, right, seen ++ s.leftReads, seen' ++ s.rightReads⟩
  else none

/-- Two runs of a process from states that differ in free pages only. -/
def machine : Machine Run Act where
  init s := Owned n s.left ∧ AlikeState s.left s.right ∧ s.leftReads = [] ∧ s.rightReads = []
  step := Run.step n

end Runs

/-- A first access to a page finds a clean page on the queue, from both states. -/
def Zeroed (s t : State) : Act → Prop
  | .grow _ => True
  | .read page index | .write page index _ =>
    (s.pgdir.entry (pageAddr s.sec.begin page)).getD 0 = 0 →
      Clean s (wordAddr s.sec.begin page index) ∧ Clean t (wordAddr s.sec.begin page index)

instance (s t : State) (act : Act) : Decidable (Zeroed s t act) := by
  cases act <;> unfold Zeroed <;> infer_instance

section Steps

variable {n : Nat} {s s' t : State} {act : Act}

/-- The condition is about both states. -/
theorem Zeroed.symm (zeroed : Zeroed s t act) (owned : Owned n s) (alike : AlikeState s t) :
    Zeroed t s act := by
  have sec : t.sec = s.sec := by rw [alike.rest]
  cases act with
  | grow pages => trivial
  | read page index =>
    rw [Zeroed, sec, alike.pgdir.entry owned.tables owned.fresh]
    exact fun unused => (zeroed unused).symm
  | write page index value =>
    rw [Zeroed, sec, alike.pgdir.entry owned.tables owned.fresh]
    exact fun unused => (zeroed unused).symm

/-- What happens in one run happens in the other, and the values read are the same. -/
theorem AlikeState.run (alike : AlikeState s t) (owned : Owned n s) (valid : act.Valid n)
    (zeroed : Zeroed s t act) {seen : List UInt64} (ran : act.run s = some (seen, s')) :
    ∃ t', act.run t = some (seen, t') ∧ AlikeState s' t' ∧ Owned n s' := by
  have sec : t.sec = s.sec := by rw [alike.rest]
  cases act with
  | grow pages =>
    rw [Act.run_grow] at ran
    obtain ⟨rfl, rfl⟩ := Prod.mk.inj (Option.some.inj ran)
    refine ⟨_, Act.run_grow t pages, ⟨?_, alike.pgdir⟩, { owned with }⟩
    rw [alike.rest]
  | read page index =>
    obtain ⟨inside, small⟩ := valid
    simp only [Act.run, State.read, Option.map_eq_some_iff, Prod.exists, Prod.mk.injEq] at ran
    obtain ⟨_, _, ⟨addr, _, reached, rfl, rfl⟩, rfl, rfl⟩ := ran
    obtain ⟨t', reached', alike', owned', user⟩ :=
      alike.access owned inside small zeroed reached
    refine ⟨t', ?_, alike', owned'⟩
    obtain ⟨page, index, rfl, small, kernel, -, used⟩ := user
    rw [Act.run, State.read, sec, reached']
    exact congrArg (fun word => some ([word], t'))
      (alike'.pgdir.mem.words page kernel used index small)
  | write page index value =>
    obtain ⟨inside, small⟩ := valid
    simp only [Act.run, State.write, Option.map_eq_some_iff, Prod.exists, Prod.mk.injEq] at ran
    obtain ⟨_, ⟨addr, s₁, reached, rfl⟩, rfl, rfl⟩ := ran
    obtain ⟨t', reached', alike', owned', user⟩ :=
      alike.access owned inside small zeroed reached
    refine ⟨t'.store addr value, ?_, ⟨?_, ?_, ?_⟩, owned'.store user value⟩
    · rw [Act.run, State.write, sec, reached', Option.map_some, Option.map_some]
    · rw [alike'.rest]
      rfl
    · rw [State.store, alike'.pgdir.rest]
      rfl
    · exact alike'.pgdir.mem.store addr value

end Steps

/-- Fresh pages reveal nothing in runs in which the pages installed are clean: the process reads the
same whatever else the free pages hold, and goes on in one run where it goes on in the other. -/
theorem fresh_pages_reveal_nothing {n : Nat} {s : Run}
    (reached : (machine n).Reach (fun s => Zeroed s.left s.right) s) :
    s.leftReads = s.rightReads ∧
      ∀ act : Act, act.Valid n → Zeroed s.left s.right act →
        (act.run s.left).isSome = (act.run s.right).isSome := by
  have kept : Owned n s.left ∧ AlikeState s.left s.right ∧ s.leftReads = s.rightReads := by
    refine reached.invariant
      (P := fun s => Owned n s.left ∧ AlikeState s.left s.right ∧ s.leftReads = s.rightReads) ?_ ?_
    · rintro s ⟨owned, alike, left, right⟩
      exact ⟨owned, alike, left.trans right.symm⟩
    · rintro s act s' - ⟨owned, alike, reads⟩ zeroed taken
      simp only [machine, Run.step, Option.ite_none_right_eq_some, Option.bind_eq_some_iff,
        Option.map_eq_some_iff, Prod.exists] at taken
      obtain ⟨valid, seen, left, ran, seen', right, ran', rfl⟩ := taken
      obtain ⟨right', same, alike', owned'⟩ := alike.run owned valid zeroed ran
      obtain ⟨rfl, rfl⟩ := Prod.mk.inj (Option.some.inj (same.symm.trans ran'))
      exact ⟨owned', alike', congrArg (seen ++ ·) reads⟩
  obtain ⟨owned, alike, reads⟩ := kept
  refine ⟨reads, fun act valid zeroed => ?_⟩
  rw [Bool.eq_iff_iff, Option.isSome_iff_exists, Option.isSome_iff_exists]
  constructor
  · rintro ⟨⟨seen, left⟩, ran⟩
    obtain ⟨right, ran', -⟩ := alike.run owned valid zeroed ran
    exact ⟨_, ran'⟩
  · rintro ⟨⟨seen, right⟩, ran⟩
    obtain ⟨left, ran', -⟩ := alike.symm.run (owned.alike alike) valid (zeroed.symm owned alike) ran
    exact ⟨_, ran'⟩

/-- Memory full of zeros, other than one word of one page. -/
def secretMemory (page index value : UInt64) : Mem :=
  { memory with word := Function.update (fun _ => 0) (page + 8 * index) value }

/-- A process that starts in this memory, with a heap of one page that was not used yet. -/
def secretHeap (page index value : UInt64) : Option State :=
  (Pt.initPgdir (secretMemory page index value)).map emptyHeap

section Secret

variable {page index : UInt64} (free : page ∈ memory.pages) (small : index < 512)
  (later : index ≠ 0) (value value' : UInt64)
include free small later

/-- Memories that differ in a word of a free page. -/
theorem secretMemory_alike :
    Alike (secretMemory page index value) (secretMemory page index value') where
  rest := rfl
  words other kernel used index' small' := by
    have elsewhere : other + 8 * index' ≠ page + 8 * index := fun same =>
      used ((kernel.slot_inj (memory_pages.1 page free) small' small same).1 ▸ free)
    simp only [secretMemory, Function.update_of_ne elsewhere]
  links other member := by
    have elsewhere : other ≠ page + 8 * index := by
      intro same
      have first : other + 8 * 0 = page + 8 * index := by
        rwa [UInt64.mul_zero, UInt64.add_zero]
      exact later ((memory_pages.1 other member).slot_inj (memory_pages.1 page free) (by decide)
        small first).2.symm
    simp only [secretMemory, Function.update_of_ne elsewhere]

/-- Two runs start there. -/
theorem secretHeap_init :
    ∃ left right, secretHeap page index value = some left ∧
      secretHeap page index value' = some right ∧ (machine 2).init ⟨left, right, [], []⟩ := by
  obtain ⟨kernel, nodup⟩ := memory_pages
  have more : (secretMemory page index value).pages =
    0xffff000000201000 :: memory.pages.tail := rfl
  obtain ⟨s, t, made, made', alike⟩ :=
    (secretMemory_alike free small later value value').initPgdir more kernel nodup
  obtain ⟨s', made'', tables, absent, pages, root⟩ :=
    Pt.initPgdir_some more (kernel _ (List.mem_cons_self ..))
  obtain rfl := Option.some.inj (made.symm.trans made'')
  refine ⟨emptyHeap s, emptyHeap t, by rw [secretHeap, made]; rfl, by rw [secretHeap, made']; rfl,
    ?_, ⟨rfl, alike⟩, rfl, rfl⟩
  exact
    { tables := tables, fresh := Pt.initPgdir_fresh more kernel nodup made, aligned := rfl
      within := (by decide : (0 : UInt64).toNat + 4096 * 2 ≤ 2 ^ 48)
      plain := (by decide : stHeap &&& stSwap = 0)
      low := by
        simp only [emptyHeap, pages, root]
        decide +kernel
      entries := fun other _ value shown => by
        rw [emptyHeap, Pt.State.entry, absent] at shown
        exact absurd shown (by simp) }

end Secret

/-- A page that was left clean reads the same in both runs, whatever another free page holds. -/
theorem fresh_pages_reveal_nothing_clean : ∃ s,
    (machine 2).Reach (fun s => Zeroed s.left s.right) s ∧
    s.left.pgdir.mem.word 0xffff000000206008 = 5 ∧ s.right.pgdir.mem.word 0xffff000000206008 = 7 ∧
    s.leftReads = [3, 0] ∧ s.leftReads = s.rightReads := by
  obtain ⟨left, right, made, made', initial⟩ := secretHeap_init
    (by decide +kernel : 0xffff000000206000 ∈ memory.pages) (by decide : (1 : UInt64) < 512)
    (by decide) 5 7
  have shown : (secretHeap 0xffff000000206000 1 5).bind (fun left =>
      (secretHeap 0xffff000000206000 1 7).bind fun right =>
        ((machine 2).exec (fun s => Zeroed s.left s.right) ⟨left, right, [], []⟩
          [.grow 1, .read 1 1, .write 1 1 3, .read 1 1]).map fun s =>
            (s.left.pgdir.mem.word 0xffff000000206008, s.right.pgdir.mem.word 0xffff000000206008,
              s.leftReads)) = some (5, 7, [3, 0]) := by
    decide +kernel
  rw [made, made', Option.bind_some, Option.bind_some] at shown
  obtain ⟨s, reached, observed⟩ := Machine.Reach.exec_map initial shown
  simp only [Prod.mk.injEq] at observed
  exact ⟨s, reached, observed.1, observed.2.1, observed.2.2,
    (fresh_pages_reveal_nothing reached).1⟩

/-- What was left in a free page can be read: the heap grows, and the first access to the new page
reads it. -/
theorem fresh_pages_reveal_secret : ∃ s, (machine 2).Reach Machine.Any s ∧
    s.leftReads = [5] ∧ s.rightReads = [7] := by
  obtain ⟨left, right, made, made', initial⟩ := secretHeap_init
    (by decide +kernel : 0xffff000000205000 ∈ memory.pages) (by decide : (1 : UInt64) < 512)
    (by decide) 5 7
  have shown : (secretHeap 0xffff000000205000 1 5).bind (fun left =>
      (secretHeap 0xffff000000205000 1 7).bind fun right =>
        ((machine 2).exec Machine.Any ⟨left, right, [], []⟩ [.grow 1, .read 1 1]).map fun s =>
            (s.leftReads, s.rightReads)) = some ([5], [7]) := by
    decide +kernel
  rw [made, made', Option.bind_some, Option.bind_some] at shown
  obtain ⟨s, reached, observed⟩ := Machine.Reach.exec_map initial shown
  obtain ⟨left, right⟩ := Prod.mk.inj observed
  exact ⟨s, reached, left, right⟩

end OsLab.Kernel.FreshPages
