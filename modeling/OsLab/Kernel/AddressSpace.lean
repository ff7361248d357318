import OsLab.Kernel.Vm

/-!
# Address spaces

What a page table means to the process that runs with it: a page of its addresses is in a page of
memory where the entry is valid, and not there otherwise. Address spaces whose pages are apart from
each other, from their tables and from the free pages change only where they are written, and get
new pages out of the free ones.
-/
namespace OsLab.Kernel.Pt

open OsLab.Lib OsLab.Aarch64 OsLab.Kernel.Paging

/-- The page of memory that an entry maps, if it is valid. -/
def mappedPage (value : UInt64) : Option UInt64 :=
  if value &&& pteValid = 0 then none else some (p2k (pteAddress value))

/-- The page of memory that an address is in. -/
def State.frame (s : State) (va : UInt64) : Option UInt64 := (s.entry va).bind mappedPage

/-! ## Entries -/

/-- An entry that maps a page is valid. -/
theorem mappedPage_some {value page : UInt64} (mapped : mappedPage value = some page) :
    value &&& pteValid ≠ 0 ∧ page = p2k (pteAddress value) := by
  simp only [mappedPage, Option.ite_none_left_eq_some, Option.some.injEq] at mapped
  exact ⟨mapped.1, mapped.2.symm⟩

/-- The page that an entry for a page of a process maps. -/
theorem mappedPage_userData {page : UInt64} (kernel : KernelPage page) :
    mappedPage (k2p page ||| pteUserData) = some page := by
  have valid : (k2p page ||| pteUserData) &&& pteValid ≠ 0 := by
    rw [kernel.entry_and pteUserData (by decide)]
    decide
  rw [mappedPage, if_neg valid, kernel.userEntry]

/-- Pages with the same words have the same bytes. -/
theorem pageBytes_congr {word word' : UInt64 → UInt64} {page page' : UInt64}
    (same : ∀ index, index < 512 → word' (page' + 8 * index) = word (page + 8 * index)) :
    pageBytes word' page' = pageBytes word page := by
  refine Bytes.ext fun index inside => ?_
  have size : index < 4096 := inside
  have narrow : index / 8 < 2 ^ 64 := by omega
  have small : UInt64.ofNat (index / 8) < 512 := by
    rw [UInt64.lt_iff_toNat_lt, UInt64.toNat_ofNat_of_lt' narrow]
    change index / 8 < 512
    omega
  rw [pageBytes, pageBytes, Bytes.get_ofFn inside, Bytes.get_ofFn inside, same _ small]

section Frames

variable {s s' : State} {va va' pte page value : UInt64}

/-- Addresses of one page are in one page of memory. -/
theorem frame_congr (same : SamePage va va') : s.frame va = s.frame va' := by
  rw [State.frame, State.frame, entry_congr same]

/-- Addresses are in pages of the kernel. -/
theorem frame_kernel (mapped : s.frame va = some page) : KernelPage page := by
  obtain ⟨value, -, mapped⟩ := Option.bind_eq_some_iff.mp mapped
  rw [(mappedPage_some mapped).2]
  exact kernelPage_address value

/-- The page of an address whose entry is known. -/
theorem frame_of_entry (shown : s.entry va = some value) : s.frame va = mappedPage value := by
  rw [State.frame, shown, Option.bind_some]

/-- New tables map nothing. -/
theorem Grown.frame {taken : List UInt64} (grown : Grown taken s s') (va : UInt64) :
    s'.frame va = s.frame va := by
  cases before : s.entry va with
  | some value => rw [frame_of_entry before, frame_of_entry (grown.entry_kept before)]
  | none =>
    rw [State.frame, State.frame, before, Option.bind_none]
    cases after : s'.entry va with
    | none => rfl
    | some value =>
      rcases grown.entry after with rfl | shown
      · rfl
      · rw [before] at shown
        exact absurd shown (by simp)

/-- A store to the entry of a page. -/
theorem Tables.frame_store_same (tables : Tables s) (located : s.location va = some pte)
    (value : UInt64) (same : SamePage va va') :
    (s.store pte value).frame va' = mappedPage value := by
  rw [← frame_congr same, frame_of_entry (tables.entry_store_same located value)]

/-- A store to the entry of another page. -/
theorem Tables.frame_store_other (tables : Tables s) (located : s.location va = some pte)
    (value : UInt64) (different : ¬ SamePage va va') :
    (s.store pte value).frame va' = s.frame va' := by
  rw [State.frame, State.frame, tables.entry_store_other located value different]

/-- A change of memory that leaves the tables alone. -/
theorem Tables.frame_of_agree (tables : Tables s) (s' : State) (root : s'.pt = s.pt)
    (same : s'.tables = s.tables)
    (agree : ∀ table ∈ s.tables, ∀ index, index < 512 →
      s'.mem.word (table + 8 * index) = s.mem.word (table + 8 * index)) (va : UInt64) :
    s'.frame va = s.frame va := by
  rw [State.frame, State.frame, (tables.entry_of_agree s' root same agree va).2]

end Frames

/-! ## Pages in use -/

/-- A page table seen in other memory. -/
def State.inMem (s : State) (mem : Mem) : State := { s with mem }

/-- The pages that an address space is made of. -/
def State.Uses (s : State) (page : UInt64) : Prop :=
  (∃ path : List UInt64, path.length ≤ 3 ∧ s.walk path = some page) ∨
    ∃ va, s.frame va = some page

/-- The tables that a walk leads to are pages of the kernel. -/
theorem walk_kernel {s : State} (root : KernelPage s.pt) {path : List UInt64} {table : UInt64}
    (found : s.walk path = some table) : KernelPage table := by
  induction path using List.reverseRecOn with
  | nil =>
    obtain rfl := Option.some.inj found
    exact root
  | append_singleton path index _ =>
    obtain ⟨upper, -, entry⟩ := Radix.walk_of_concat found
    simp only [child, Option.ite_none_right_eq_some, Option.some.injEq] at entry
    rw [← entry.2]
    exact kernelPage_address _

section Outside

variable {s : State} {mem : Mem}

/-- Memory that agrees on the tables of an address space has the same walks. -/
theorem walk_of_agree (agree : ∀ page, s.Uses page → ∀ index, index < 512 →
      mem.word (page + 8 * index) = s.mem.word (page + 8 * index)) {path : List UInt64}
    (short : path.length ≤ 3) : (s.inMem mem).walk path = s.walk path := by
  refine Radix.walk_congr (fun above upper higher reached => ?_) short
  funext index
  exact child_congr fun small => agree upper (.inl ⟨above, by omega, reached⟩) index small

/-- Memory that agrees on the tables of an address space has the same entries. -/
theorem entry_of_uses (agree : ∀ page, s.Uses page → ∀ index, index < 512 →
      mem.word (page + 8 * index) = s.mem.word (page + 8 * index)) (va : UInt64) :
    (s.inMem mem).entry va = s.entry va := by
  have walk := walk_of_agree agree (show (tablePath va).length ≤ 3 by simp [tablePath])
  cases found : s.walk (tablePath va) with
  | none =>
    rw [State.entry, State.entry, State.location, State.location, walk, found]
    rfl
  | some table =>
    rw [State.entry, State.entry, State.location, State.location, walk, found]
    exact congrArg some (agree table (.inl ⟨_, by simp [tablePath], found⟩) _ (vaParts_lt va).2.2.2)

/-- Memory that agrees on the tables of an address space maps the same pages. -/
theorem frame_of_uses (agree : ∀ page, s.Uses page → ∀ index, index < 512 →
      mem.word (page + 8 * index) = s.mem.word (page + 8 * index)) (va : UInt64) :
    (s.inMem mem).frame va = s.frame va := by
  rw [State.frame, State.frame, entry_of_uses agree]

/-- The bytes at the page of an address, if it is mapped. -/
def State.readPage (s : State) (va : UInt64) : Option Page :=
  (s.frame va).map (pageBytes s.mem.word)

/-- Memory that agrees on an address space reads the same through it. -/
theorem readPage_of_uses (agree : ∀ page, s.Uses page → ∀ index, index < 512 →
      mem.word (page + 8 * index) = s.mem.word (page + 8 * index)) (va : UInt64) :
    (s.inMem mem).readPage va = s.readPage va := by
  rw [State.readPage, State.readPage, frame_of_uses agree]
  cases found : s.frame va with
  | none => rfl
  | some page => exact congrArg some (pageBytes_congr (agree page (.inr ⟨va, found⟩)))

/-- The pages of an address space are pages of the kernel. -/
theorem State.Uses.kernel {page : UInt64} (uses : s.Uses page) (root : KernelPage s.pt) :
    KernelPage page := by
  rcases uses with ⟨path, -, found⟩ | ⟨va, found⟩
  · exact walk_kernel root found
  · exact frame_kernel found

/-- A store to a page that an address space does not use is not seen through it. -/
theorem readPage_overwrite (root : KernelPage s.pt) {page : UInt64} (kernel : KernelPage page)
    (unused : ¬ s.Uses page) (content : UInt64 → UInt64) (va : UInt64) :
    (s.inMem { s.mem with word := overwrite s.mem.word page content }).readPage va =
      s.readPage va := by
  refine readPage_of_uses (fun other uses index small => ?_) va
  refine overwrite_outside kernel (uses.kernel root) small ?_
  rintro rfl
  exact unused uses

end Outside

/-! ## Address spaces of their own -/

/-- An address space made out of the pages of `pool`, each of which is free, a table, or mapped. Those
mapped at the addresses `lone` are mapped nowhere else. -/
structure Mapped (lone : UInt64 → Prop) (pool : List UInt64) (s : State) : Prop where
  tables : Tables s
  fresh : Fresh s
  queue : ∀ page ∈ s.mem.pages, page ∈ pool
  own : ∀ table ∈ s.tables, table ∈ pool
  /-- Pages that are mapped are of the pool, and neither tables nor free. -/
  frames : ∀ va page, s.frame va = some page → page ∈ pool ∧ page ∉ s.tables ∧ page ∉ s.mem.pages
  apart : ∀ va va' page, lone va → s.frame va = some page → s.frame va' = some page →
    SamePage va va'

/-- A page of the pool that is not in use. -/
structure Spare (pool : List UInt64) (s : State) (page : UInt64) : Prop where
  kernel : KernelPage page
  pool : page ∈ pool
  table : page ∉ s.tables
  free : page ∉ s.mem.pages
  unmapped : ∀ va, s.frame va ≠ some page

namespace Mapped

variable {lone : UInt64 → Prop} {pool : List UInt64} {s s' : State} {va pte page : UInt64}
  {rest : List UInt64}

/-- After `init_pgdir` nothing is mapped. -/
theorem initPgdir {mem : Mem} (lone : UInt64 → Prop) (more : mem.pages = page :: rest)
    (kernel : ∀ page ∈ mem.pages, KernelPage page) (nodup : mem.pages.Nodup) :
    ∃ s, Pt.initPgdir mem = some s ∧ Mapped lone mem.pages s ∧ (∀ va, s.frame va = none) ∧
      s.mem.pages = rest ∧
      ∀ other, KernelPage other → other ∉ mem.pages → ∀ index, index < 512 →
        s.mem.word (other + 8 * index) = mem.word (other + 8 * index) := by
  have root := kernel page (by simp [more])
  obtain ⟨s, made, tables, absent, pages, own⟩ := initPgdir_some more root
  have none : ∀ va, s.frame va = none := fun va => by
    rw [State.frame, State.entry, absent, Option.map_none, Option.bind_none]
  refine ⟨s, made, ⟨tables, initPgdir_fresh more kernel nodup made, ?_, ?_, ?_, ?_⟩, none, pages,
    fun other kernel' outside index small => ?_⟩
  · intro other member
    rw [pages] at member
    simp [more, member]
  · intro table member
    rw [own, List.mem_singleton] at member
    simp [more, member]
  · intro va other found
    rw [none] at found
    exact absurd found (by simp)
  · intro va va' other _ found
    rw [none] at found
    exact absurd found (by simp)
  · obtain rfl := Option.some.inj ((initPgdir_eq more root).symm.trans made)
    change clearPage mem.word page (other + 8 * index) = _
    refine overwrite_outside root kernel' small ?_
    rintro rfl
    exact outside (by simp [more])

/-- Memory changes, other than in tables. -/
theorem words (mapped : Mapped lone pool s) {word : UInt64 → UInt64}
    (agree : ∀ table ∈ s.tables, ∀ index, index < 512 →
      word (table + 8 * index) = s.mem.word (table + 8 * index)) :
    Mapped lone pool { s with mem := { s.mem with word } } ∧
      ∀ va, ({ s with mem := { s.mem with word } } : State).frame va = s.frame va := by
  have same := mapped.tables.frame_of_agree { s with mem := { s.mem with word } } rfl rfl agree
  refine ⟨⟨(mapped.tables.congr { s with mem := { s.mem with word } } rfl rfl agree).1,
    ⟨mapped.fresh.kernel, mapped.fresh.nodup, mapped.fresh.unused⟩, mapped.queue, mapped.own,
    fun va page found => ?_, fun va va' page alone found found' => ?_⟩, same⟩
  · rw [same] at found
    exact mapped.frames va page found
  · rw [same] at found found'
    exact mapped.apart va va' page alone found found'

/-- A page is taken by `kalloc_page`. -/
theorem take (mapped : Mapped lone pool s) (more : s.mem.pages = page :: rest) :
    Mapped lone pool { s with mem := s.mem.kallocPage.2 } ∧
      Spare pool { s with mem := s.mem.kallocPage.2 } page := by
  have pages : s.mem.kallocPage.2.pages = rest := by simp [Mem.kallocPage, more]
  have fresh := mapped.fresh
  have nodup := fresh.nodup
  rw [more, List.nodup_cons] at nodup
  have later : ∀ other ∈ s.mem.kallocPage.2.pages, other ∈ s.mem.pages := fun other member =>
    List.mem_of_mem_tail member
  refine ⟨⟨⟨mapped.tables.kernel, mapped.tables.tree⟩,
    ⟨fun other member => fresh.kernel other (later other member),
      fresh.nodup.sublist (List.tail_sublist _),
      fun other member => fresh.unused other (later other member)⟩,
    fun other member => mapped.queue other (later other member), mapped.own,
    fun va other found => ?_, mapped.apart⟩,
    ⟨fresh.kernel page (by simp [more]), mapped.queue page (by simp [more]),
      fresh.unused page (by simp [more]), ?_, fun va found => ?_⟩⟩
  · obtain ⟨member, table, free⟩ := mapped.frames va other found
    exact ⟨member, table, fun queued => free (later other queued)⟩
  · change page ∉ s.mem.kallocPage.2.pages
    rw [pages]
    exact nodup.1
  · exact (mapped.frames va page found).2.2 (by simp [more])

/-- `get_pte` makes the tables that it needs, and maps nothing. -/
theorem getPte (mapped : Mapped lone pool s) {result : Option UInt64}
    (ran : Pt.getPte s va true = some (result, s')) :
    ∃ pte, result = some pte ∧ s'.location va = some pte ∧ Mapped lone pool s' ∧
      (∀ va, s'.frame va = s.frame va) ∧
      (∀ page, page ∉ s.mem.pages → page ∉ s.tables → page ∉ s'.mem.pages ∧ page ∉ s'.tables) ∧
      (∀ page index, KernelPage page → index < 512 → page ∉ s'.tables →
        s'.mem.word (page + 8 * index) = s.mem.word (page + 8 * index)) ∧
      s.mem.pages.length ≤ s'.mem.pages.length + 3 := by
  obtain ⟨pte, taken, rfl, located, tables, fresh, grown, few⟩ :=
    mapped.tables.getPte_true mapped.fresh ran
  have outside : ∀ page, page ∉ s.mem.pages → page ∉ s.tables →
      page ∉ s'.mem.pages ∧ page ∉ s'.tables := by
    intro page free table
    rw [grown.pages, List.mem_append, not_or] at free
    rw [grown.tables.mem_iff, List.mem_append]
    exact ⟨free.2, fun member => member.elim free.1 table⟩
  refine ⟨pte, rfl, located, ⟨tables, fresh, fun page member => ?_, fun table member => ?_,
    fun va page found => ?_, fun va va' page alone found found' => ?_⟩, grown.frame, outside,
    grown.frames, ?_⟩
  · exact mapped.queue page (grown.pages ▸ List.mem_append_right _ member)
  · rcases List.mem_append.mp (grown.tables.mem_iff.mp member) with member | member
    · exact mapped.queue table (grown.pages ▸ List.mem_append_left _ member)
    · exact mapped.own table member
  · rw [grown.frame] at found
    obtain ⟨member, table, free⟩ := mapped.frames va page found
    obtain ⟨free', table'⟩ := outside page free table
    exact ⟨member, table', free'⟩
  · rw [grown.frame] at found found'
    exact mapped.apart va va' page alone found found'
  · rw [grown.pages, List.length_append]
    omega

/-- The entry of an address gets a page. -/
theorem install (mapped : Mapped lone pool s) (located : s.location va = some pte)
    (spare : Spare pool s page) :
    Mapped lone pool (s.store pte (k2p page ||| pteUserData)) ∧
      (∀ va', SamePage va va' → (s.store pte (k2p page ||| pteUserData)).frame va' = some page) ∧
      ∀ va', ¬ SamePage va va' →
        (s.store pte (k2p page ||| pteUserData)).frame va' = s.frame va' := by
  have tables := (mapped.tables.store located (k2p page ||| pteUserData)).1
  have here : ∀ va', SamePage va va' →
      (s.store pte (k2p page ||| pteUserData)).frame va' = some page := fun va' same => by
    rw [mapped.tables.frame_store_same located _ same, mappedPage_userData spare.kernel]
  have elsewhere : ∀ va', ¬ SamePage va va' →
      (s.store pte (k2p page ||| pteUserData)).frame va' = s.frame va' := fun va' different =>
    mapped.tables.frame_store_other located _ different
  refine ⟨⟨tables, ⟨mapped.fresh.kernel, mapped.fresh.nodup, mapped.fresh.unused⟩, mapped.queue,
    mapped.own, fun va' other found => ?_, fun one other held alone found found' => ?_⟩, here,
    elsewhere⟩
  · by_cases same : SamePage va va'
    · obtain rfl := Option.some.inj ((here va' same).symm.trans found)
      exact ⟨spare.pool, spare.table, spare.free⟩
    · rw [elsewhere va' same] at found
      exact mapped.frames va' other found
  · by_cases same : SamePage va one <;> by_cases same' : SamePage va other
    · exact same.symm.trans same'
    · obtain rfl := Option.some.inj ((here one same).symm.trans found)
      exact absurd ((elsewhere other same').symm.trans found') (spare.unmapped other)
    · obtain rfl := Option.some.inj ((here other same').symm.trans found')
      exact absurd ((elsewhere one same).symm.trans found) (spare.unmapped one)
    · rw [elsewhere one same] at found
      rw [elsewhere other same'] at found'
      exact mapped.apart one other held alone found found'

/-- A page that is not in use is mapped. -/
theorem mapPage (mapped : Mapped lone pool s) (spare : Spare pool s page)
    (ran : Vm.mapPage s va page = some s') :
    Mapped lone pool s' ∧ (∀ va', SamePage va va' → s'.frame va' = some page) ∧
      (∀ va', ¬ SamePage va va' → s'.frame va' = s.frame va') ∧
      (∀ other index, KernelPage other → index < 512 → other ∉ s'.tables →
        s'.mem.word (other + 8 * index) = s.mem.word (other + 8 * index)) ∧
      s.mem.pages.length ≤ s'.mem.pages.length + 3 := by
  obtain ⟨⟨result, middle⟩, got, ran⟩ := Option.bind_eq_some_iff.mp ran
  obtain ⟨pte, rfl, located, mapped', same, outside, words, length⟩ := mapped.getPte got
  obtain rfl := Option.some.inj ran
  obtain ⟨free, table⟩ := outside page spare.free spare.table
  have spare' : Spare pool middle page :=
    ⟨spare.kernel, spare.pool, table, free, fun va found =>
      spare.unmapped va ((same va).symm.trans found)⟩
  obtain ⟨mapped'', here, elsewhere⟩ := mapped'.install located spare'
  refine ⟨mapped'', here, fun va' different => (elsewhere va' different).trans (same va'),
    fun other index kernel small outside => ?_, length⟩
  exact (mapped'.tables.store_frame located _ kernel outside small).trans
    (words other index kernel small outside)

/-- There are tables as long as there are pages. -/
theorem mapPage_total (mapped : Mapped lone pool s) (enough : 3 ≤ s.mem.pages.length)
    (va page : UInt64) : ∃ s', Vm.mapPage s va page = some s' := by
  obtain ⟨pte, s', got⟩ := mapped.tables.getPte_total va
    (fun page member => (mapped.fresh.kernel page member).ne_zero) enough
  exact ⟨_, by rw [Vm.mapPage, got]; rfl⟩

end Mapped

end OsLab.Kernel.Pt
