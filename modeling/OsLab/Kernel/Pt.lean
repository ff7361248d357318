import OsLab.Kernel.Mem
import OsLab.Lib.Radix
import OsLab.Lib.Transition

/-!
# Page tables

`get_pte` and `init_pgdir` of `src/kernel/pt.c`. A page table is a tree of three levels of tables
below `pgdir->pt`, made as far as somebody asked for, out of whatever pages `kalloc_page` returns.
For its users it is a map from pages to entries: the location of an entry never changes once it
exists, different pages have different locations, and an entry holds what was stored there last.
-/
namespace OsLab.Kernel.Pt

open OsLab.Lib OsLab.Aarch64

/-- What `get_pte` works on. -/
structure State where
  /-- Memory and the page allocator. -/
  mem : Mem
  /-- `pgdir->pt`, with 0 for `NULL`. -/
  pt : UInt64
  /-- The pages that are tables. -/
  tables : List UInt64

/-- `kkalloc`: a page for a table, filled with zeros; `none` is the store through `NULL` where
`kalloc_page` has no page to return. -/
def kkalloc (s : State) : Option (UInt64 × State) :=
  let (page, mem) := s.mem.kallocPage
  if page = 0 then none
  else
    some (page,
      { s with mem := { mem with word := clearPage mem.word page }, tables := page :: s.tables })

/-- The location of an entry, or `NULL`. -/
abbrev Result : Type := Option (Option UInt64 × State)

/-- Go on from a table, or return `NULL`. -/
def Result.andThen (result : Result) (next : UInt64 → State → Result) : Result :=
  result.bind fun (table, s) =>
    match table with
    | none => some (none, s)
    | some table => next table s

/-- A table is gone on from. -/
theorem Result.andThen_table (table : UInt64) (s : State) (next : UInt64 → State → Result) :
    Result.andThen (some (some table, s)) next = next table s := rfl

/-- `NULL` is returned. -/
theorem Result.andThen_null (s : State) (next : UInt64 → State → Result) :
    Result.andThen (some (none, s)) next = some (none, s) := rfl

/-- The table `pgdir->pt`, which is made if there is none. -/
def rootTable (s : State) (alloc : Bool) : Result :=
  if s.pt = 0 then
    if alloc then (kkalloc s).map fun (page, s) => (some page, { s with pt := page })
    else some (none, s)
  else some (some s.pt, s)

/-- A store through a pointer. -/
def State.store (s : State) (pointer value : UInt64) : State :=
  { s with mem := { s.mem with word := Function.update s.mem.word pointer value } }

/-- The table at index `part` of the table `p`, which is made if there is none. -/
def nextTable (part : UInt64) (alloc : Bool) (p : UInt64) (s : State) : Result :=
  if s.mem.word (p + 8 * part) &&& pteValid = 0 then
    if alloc then
      (kkalloc s).map fun (page, s) =>
        let s := s.store (p + 8 * part) (k2p page ||| pteTable)
        (some (p2k (pteAddress (s.mem.word (p + 8 * part)))), s)
    else some (none, s)
  else some (some (p2k (pteAddress (s.mem.word (p + 8 * part)))), s)

/-- `get_pte`. -/
def getPte (s : State) (va : UInt64) (alloc : Bool) : Result :=
  (rootTable s alloc).andThen fun p0 s =>
    (nextTable (vaPart0 va) alloc p0 s).andThen fun p1 s =>
      (nextTable (vaPart1 va) alloc p1 s).andThen fun p2 s =>
        (nextTable (vaPart2 va) alloc p2 s).andThen fun p3 s =>
          some (some (p3 + 8 * vaPart3 va), s)

/-- `init_pgdir`, as far as the tables go. -/
def initPgdir (mem : Mem) : Option State :=
  (kkalloc ⟨mem, 0, []⟩).map fun (page, s) => { s with pt := page }

/-! ## The tables as a tree -/

/-- The table that an entry of a table names. -/
def child (word : UInt64 → UInt64) (table index : UInt64) : Option UInt64 :=
  if index < 512 ∧ word (table + 8 * index) &&& pteValid ≠ 0 then
    some (p2k (pteAddress (word (table + 8 * index))))
  else none

/-- The table that a path of indices leads to. -/
abbrev State.walk (s : State) (path : List UInt64) : Option UInt64 :=
  Radix.walk (child s.mem.word) s.pt path

/-- The indices on the way to the last table. -/
def tablePath (va : UInt64) : List UInt64 := [vaPart0 va, vaPart1 va, vaPart2 va]

/-- Where the entry for an address is, if there is one. -/
def State.location (s : State) (va : UInt64) : Option UInt64 :=
  (s.walk (tablePath va)).map (· + 8 * vaPart3 va)

/-- The tables of a page table form a tree of pages of the kernel. -/
structure Tables (s : State) : Prop where
  kernel : ∀ table ∈ s.tables, KernelPage table
  tree : Radix.Tree (child s.mem.word) s.pt 3 (· ∈ s.tables)

/-- The pages that `kalloc_page` returns are pages of the kernel and not in use as tables. -/
structure Fresh (s : State) : Prop where
  kernel : ∀ page ∈ s.mem.pages, KernelPage page
  nodup : s.mem.pages.Nodup
  unused : ∀ page ∈ s.mem.pages, page ∉ s.tables

instance (s : State) : Decidable (Fresh s) :=
  decidable_of_iff ((∀ page ∈ s.mem.pages, KernelPage page) ∧ s.mem.pages.Nodup ∧
      ∀ page ∈ s.mem.pages, page ∉ s.tables)
    ⟨fun ⟨kernel, nodup, unused⟩ => ⟨kernel, nodup, unused⟩,
      fun ⟨kernel, nodup, unused⟩ => ⟨kernel, nodup, unused⟩⟩

section Words

variable {word word' : UInt64 → UInt64} {table index part : UInt64} {number : Nat}

/-- Nine bits are an index of a table. -/
theorem vaPart_lt (value : part.toNat = number % 512) : part < 512 := by
  rw [UInt64.lt_iff_toNat_lt, value]
  exact Nat.mod_lt _ (by decide)

/-- The indices fit in a table. -/
theorem vaParts_lt (va : UInt64) :
    vaPart0 va < 512 ∧ vaPart1 va < 512 ∧ vaPart2 va < 512 ∧ vaPart3 va < 512 :=
  ⟨vaPart_lt (toNat_vaPart0 va), vaPart_lt (toNat_vaPart1 va), vaPart_lt (toNat_vaPart2 va),
    vaPart_lt (toNat_vaPart3 va)⟩

/-- Tables that agree on an entry name the same table there. -/
theorem child_congr
    (same : index < 512 → word' (table + 8 * index) = word (table + 8 * index)) :
    child word' table index = child word table index := by
  by_cases small : index < 512
  · rw [child, child, same small]
  · simp [child, small]

/-- An entry that is zero names no table. -/
theorem child_zero (zero : index < 512 → word (table + 8 * index) = 0) :
    child word table index = none := by
  by_cases small : index < 512
  · simp [child, zero small]
  · simp [child, small]

/-- An entry that names no table is not valid. -/
theorem invalid_of_child_none (small : index < 512) (absent : child word table index = none) :
    word (table + 8 * index) &&& pteValid = 0 := by
  by_contra valid
  simp [child, small, valid] at absent

end Words

/-! ## One level -/

/-- The state after a table was made at index `part` of `table`, out of the page `page` that was
before `rest` on the queue. -/
def State.grow (s : State) (table part page : UInt64) (rest : List UInt64) : State where
  mem :=
    { s.mem with
      word :=
        Function.update (clearPage s.mem.word page) (table + 8 * part) (k2p page ||| pteTable)
      pages := rest
      ref := Function.update s.mem.ref (Mem.refIndex page) (s.mem.ref (Mem.refIndex page) + 1)
      allocPageCnt := s.mem.allocPageCnt + 1 }
  pt := s.pt
  tables := page :: s.tables

section Steps

variable {s s' : State} {table part page : UInt64} {rest : List UInt64}

/-- A walk goes on at the entry of the table it has reached. -/
theorem walk_concat {path : List UInt64} (found : s.walk path = some table) :
    s.walk (path ++ [part]) = child s.mem.word table part := by
  rw [State.walk, Radix.walk_concat]
  exact congrArg (Option.bind · _) found

/-- An entry that names a table is followed. -/
theorem nextTable_present {next : UInt64} (present : child s.mem.word table part = some next)
    (alloc : Bool) : nextTable part alloc table s = some (some next, s) := by
  simp only [child, Option.ite_none_right_eq_some, Option.some.injEq] at present
  obtain ⟨⟨-, valid⟩, rfl⟩ := present
  rw [nextTable, if_neg valid]

/-- Without an entry nothing is returned and nothing made, unless asked for. -/
theorem nextTable_absent (small : part < 512) (absent : child s.mem.word table part = none) :
    nextTable part false table s = some (none, s) := by
  rw [nextTable, if_pos (invalid_of_child_none small absent)]
  rfl

/-- Without an entry a table is made if asked for. -/
theorem nextTable_made (small : part < 512) (absent : child s.mem.word table part = none)
    (next : s.mem.pages = page :: rest) (kernel : KernelPage page) :
    nextTable part true table s = some (some page, s.grow table part page rest) := by
  simp only [nextTable, invalid_of_child_none small absent, if_pos, kkalloc, Mem.kallocPage, next,
    List.headD_cons, List.tail_cons, kernel.ne_zero, if_neg, not_false_eq_true, Option.map_some,
    State.store, Function.update_self, kernel.tableEntry, State.grow]

/-- Without a page no table is made. -/
theorem nextTable_stuck (small : part < 512) (absent : child s.mem.word table part = none)
    (empty : s.mem.pages = []) : nextTable part true table s = none := by
  simp [nextTable, invalid_of_child_none small absent, kkalloc, Mem.kallocPage, empty]

/-- The words of pages after a table was made. -/
theorem grow_word {other index : UInt64} (kernelTable : KernelPage table) (small : part < 512)
    (kernel : KernelPage page) (kernel' : KernelPage other) (small' : index < 512) :
    (s.grow table part page rest).mem.word (other + 8 * index) =
      if other = table ∧ index = part then k2p page ||| pteTable
      else if other = page then 0 else s.mem.word (other + 8 * index) := by
  simp only [State.grow]
  by_cases here : other = table ∧ index = part
  · rw [if_pos here, here.1, here.2, Function.update_self]
  · have elsewhere : other + 8 * index ≠ table + 8 * part := fun same =>
      here (kernel'.slot_inj kernelTable small' small same)
    rw [if_neg here, Function.update_of_ne elsewhere, clearPage]
    by_cases inside : other = page
    · rw [if_pos inside, inside, overwrite_inside small']
    · rw [if_neg inside, overwrite_outside kernel kernel' small' inside]

/-- The pages that remain once a table was made. -/
theorem Fresh.grow (fresh : Fresh s) (more : s.mem.pages = page :: rest) :
    Fresh (s.grow table part page rest) := by
  obtain ⟨kernel, nodup, unused⟩ := fresh
  rw [more] at kernel nodup unused
  refine ⟨fun other member => kernel other (List.mem_cons_of_mem _ member),
    (List.nodup_cons.mp nodup).2, fun other member => ?_⟩
  refine List.not_mem_cons_of_ne_of_not_mem ?_ (unused other (List.mem_cons_of_mem _ member))
  rintro rfl
  exact (List.nodup_cons.mp nodup).1 member

end Steps

/-- What making tables out of the pages `taken` does, and what it leaves alone. -/
structure Grown (taken : List UInt64) (s s' : State) : Prop where
  pages : s.mem.pages = taken ++ s'.mem.pages
  tables : s'.tables.Perm (taken ++ s.tables)
  count : s'.mem.allocPageCnt = s.mem.allocPageCnt + taken.length
  pagenum : s'.mem.pagenum = s.mem.pagenum
  ref : ∀ page, KernelPage page →
    s'.mem.ref (Mem.refIndex page) = s.mem.ref (Mem.refIndex page) + taken.count page
  kept : ∀ path table, path.length ≤ 3 → s.walk path = some table → s'.walk path = some table
  frames : ∀ page index, KernelPage page → index < 512 → page ∉ s'.tables →
    s'.mem.word (page + 8 * index) = s.mem.word (page + 8 * index)
  entries : ∀ path table index, path.length = 3 → s.walk path = some table → index < 512 →
    s'.mem.word (table + 8 * index) = s.mem.word (table + 8 * index)
  zero : ∀ path table index, path.length = 3 → s.walk path = none → s'.walk path = some table →
    index < 512 → s'.mem.word (table + 8 * index) = 0

namespace Grown

variable {taken taken' : List UInt64} {s s' s'' : State}

/-- Nothing was made. -/
theorem refl (s : State) : Grown [] s s := by
  refine ⟨rfl, by simp, by simp, rfl, by simp, fun _ _ _ found => found,
    fun _ _ _ _ _ => rfl, fun _ _ _ _ _ _ => rfl, fun _ _ _ _ absent found => ?_⟩
  rw [absent] at found
  exact absurd found (by simp)

/-- Tables are made one after the other. -/
theorem trans (first : Grown taken s s') (second : Grown taken' s' s'') :
    Grown (taken ++ taken') s s'' where
  pages := by rw [first.pages, second.pages, List.append_assoc]
  tables := by
    rw [List.append_assoc]
    refine second.tables.trans ((first.tables.append_left taken').trans ?_)
    rw [← List.append_assoc, ← List.append_assoc]
    exact List.perm_append_comm.append_right s.tables
  count := by
    rw [second.count, first.count, List.length_append]
    push_cast
    ring
  pagenum := second.pagenum.trans first.pagenum
  ref page kernel := by
    rw [second.ref page kernel, first.ref page kernel, List.count_append]
    push_cast
    ring
  kept path table short found := second.kept path table short (first.kept path table short found)
  frames page index kernel small outside := by
    have outside' : page ∉ s'.tables := fun member =>
      outside (second.tables.mem_iff.mpr (List.mem_append_right _ member))
    rw [second.frames page index kernel small outside, first.frames page index kernel small outside']
  entries path table index three found small := by
    rw [second.entries path table index three (first.kept path table (by omega) found) small,
      first.entries path table index three found small]
  zero path table index three absent found small := by
    cases middle : s'.walk path with
    | none => exact second.zero path table index three middle found small
    | some table' =>
      have same := second.kept path table' (by omega) middle
      rw [found] at same
      obtain rfl := Option.some.inj same
      rw [second.entries path table index three middle small,
        first.zero path table index three absent middle small]

end Grown

namespace Tables

variable {s s' : State} {path : List UInt64} {table part page : UInt64} {rest : List UInt64}

/-- A table that a walk leads to is in use. -/
theorem inUse (tables : Tables s) (short : path.length ≤ 3) (found : s.walk path = some table) :
    table ∈ s.tables :=
  tables.tree.inUse path table short found

/-- The new table is empty, and no other entry of a table changed. -/
theorem grow_graft (tables : Tables s) (rest : List UInt64) (inUse : table ∈ s.tables)
    (small : part < 512) (kernel : KernelPage page) (unused : page ∉ s.tables) :
    Radix.Graft (child s.mem.word) (child (s.grow table part page rest).mem.word) (· ∈ s.tables)
      table part page where
  here := by
    have kernelTable := tables.kernel table inUse
    have valid : (k2p page ||| pteTable) &&& pteValid ≠ 0 := by
      rw [kernel.entry_and pteTable (by decide)]
      decide
    rw [child, grow_word kernelTable small kernel kernelTable small, if_pos (And.intro rfl rfl),
      if_pos ⟨small, valid⟩, kernel.tableEntry]
  empty index := by
    refine child_zero fun small' => ?_
    have different : page ≠ table := fun same => unused (same ▸ inUse)
    rw [grow_word (tables.kernel table inUse) small kernel kernel small', if_neg (by tauto),
      if_pos rfl]
  other other index inUse' elsewhere := by
    refine child_congr fun small' => ?_
    have different : other ≠ page := fun same => unused (same ▸ inUse')
    rw [grow_word (tables.kernel table inUse) small kernel (tables.kernel other inUse') small',
      if_neg elsewhere, if_neg different]

/-- Where walks lead once a table was made. -/
theorem walk_grow (tables : Tables s) (rest : List UInt64) (short : path.length < 3)
    (found : s.walk path = some table) (small : part < 512)
    (absent : child s.mem.word table part = none) (kernel : KernelPage page)
    (unused : page ∉ s.tables) {other : List UInt64} (short' : other.length ≤ 3) :
    (s.grow table part page rest).walk other =
      if other = path ++ [part] then some page else s.walk other :=
  tables.tree.walk_graft found short absent
    (tables.grow_graft rest (tables.inUse (by omega) found) small kernel unused) short'

/-- A table is made. -/
theorem grow (tables : Tables s) (rest : List UInt64) (short : path.length < 3)
    (found : s.walk path = some table) (small : part < 512)
    (absent : child s.mem.word table part = none) (kernel : KernelPage page)
    (unused : page ∉ s.tables) : Tables (s.grow table part page rest) := by
  have tree := tables.tree.graft found short absent unused
    (tables.grow_graft rest (tables.inUse (by omega) found) small kernel unused)
  refine ⟨fun table member => ?_, fun path table short found => ?_, tree.apart⟩
  · rcases List.mem_cons.mp member with rfl | member
    · exact kernel
    · exact tables.kernel table member
  · exact List.mem_cons.mpr (tree.inUse path table short found)

/-- What making one table does. -/
theorem grown (tables : Tables s) (more : s.mem.pages = page :: rest) (short : path.length < 3)
    (found : s.walk path = some table) (small : part < 512)
    (absent : child s.mem.word table part = none) (kernel : KernelPage page)
    (unused : page ∉ s.tables) : Grown [page] s (s.grow table part page rest) := by
  have inUse := tables.inUse (by omega) found
  have kernelTable := tables.kernel table inUse
  have different : page ≠ table := fun same => unused (same ▸ inUse)
  have walks := fun (other : List UInt64) (short' : other.length ≤ 3) =>
    tables.walk_grow rest short found small absent kernel unused short'
  refine ⟨more, by simp [State.grow], by simp [State.grow], rfl, ?_, ?_, ?_, ?_, ?_⟩
  · intro other kernel'
    by_cases same : other = page
    · subst same
      simp [State.grow]
    · have elsewhere : Mem.refIndex other ≠ Mem.refIndex page := fun equal =>
        same (Mem.refIndex_inj kernel' kernel equal)
      simp [State.grow, Function.update_of_ne elsewhere, Ne.symm same]
  · intro other last short' reached
    rw [walks other short', if_neg, reached]
    rintro rfl
    rw [walk_concat found, absent] at reached
    exact absurd reached (by simp)
  · intro other index kernel' small' outside
    have apart : other ≠ page ∧ other ∉ s.tables := by simpa [State.grow] using outside
    have apart' : other ≠ table := fun same => apart.2 (same ▸ inUse)
    rw [grow_word kernelTable small kernel kernel' small', if_neg (by tauto), if_neg apart.1]
  · -- The last tables are neither the new one nor the one that got the entry.
    intro other last index three reached small'
    have inUse' := tables.inUse (by omega) reached
    have new : last ≠ page := fun same => unused (same ▸ inUse')
    have upper : last ≠ table := by
      rintro rfl
      have same := tables.tree.apart other path last (by omega) (by omega) reached found
      rw [same] at three
      omega
    rw [grow_word kernelTable small kernel (tables.kernel last inUse') small', if_neg (by tauto),
      if_neg new]
  · intro other last index three absent' reached small'
    rw [walks other (by omega), absent', Option.ite_none_right_eq_some] at reached
    obtain rfl := Option.some.inj reached.2
    rw [grow_word kernelTable small kernel kernel small', if_neg (by tauto), if_pos rfl]

/-- A change of memory that leaves the tables alone. -/
theorem congr (tables : Tables s) (s' : State) (root : s'.pt = s.pt)
    (same : s'.tables = s.tables)
    (agree : ∀ table ∈ s.tables, ∀ index, index < 512 →
      s'.mem.word (table + 8 * index) = s.mem.word (table + 8 * index)) :
    Tables s' ∧ ∀ path, path.length ≤ 3 → s'.walk path = s.walk path := by
  have walks : ∀ path, path.length ≤ 3 → s'.walk path = s.walk path := by
    intro path short
    rw [State.walk, root]
    refine Radix.walk_congr (fun above upper higher reached => ?_) short
    funext index
    exact child_congr fun small => agree upper (tables.inUse (by omega) reached) index small
  refine ⟨⟨?_, ⟨?_, ?_⟩⟩, walks⟩
  · rw [same]
    exact tables.kernel
  · intro path table short found
    rw [same]
    exact tables.inUse short ((walks path short).symm.trans found)
  · intro path other table short short' found found'
    exact tables.tree.apart path other table short short' ((walks path short).symm.trans found)
      ((walks other short').symm.trans found')

end Tables

/-! ## `get_pte` -/

section GetPte

variable {s s' : State} {va va' pointer pointer' : UInt64}

/-- What `init_pgdir` leaves. -/
theorem initPgdir_eq {mem : Mem} {page : UInt64} {rest : List UInt64}
    (more : mem.pages = page :: rest) (kernel : KernelPage page) :
    initPgdir mem =
      some ⟨{ mem.kallocPage.2 with word := clearPage mem.word page }, page, [page]⟩ := by
  simp only [initPgdir, kkalloc, Mem.kallocPage, more, List.headD_cons, kernel.ne_zero, if_false,
    Option.map_some]

/-- `init_pgdir` leaves a root alone. -/
theorem initPgdir_some {mem : Mem} {page : UInt64} {rest : List UInt64}
    (more : mem.pages = page :: rest) (kernel : KernelPage page) :
    ∃ s, initPgdir mem = some s ∧ Tables s ∧ (∀ va, s.location va = none) ∧
      s.mem.pages = rest ∧ s.tables = [page] := by
  have empty : ∀ index, child (clearPage mem.word page) page index = none := fun index =>
    child_zero fun small => overwrite_inside small
  refine ⟨_, initPgdir_eq more kernel, ⟨?_, .alone empty (by simp)⟩, fun va => ?_, ?_, rfl⟩
  · simpa using kernel
  · simp [State.location, tablePath, Radix.walk, empty]
  · simp [Mem.kallocPage, more]

/-- The pages that remain after `init_pgdir`. -/
theorem initPgdir_fresh {mem : Mem} {page : UInt64} {rest : List UInt64}
    (more : mem.pages = page :: rest) (kernel : ∀ page ∈ mem.pages, KernelPage page)
    (nodup : mem.pages.Nodup) (made : initPgdir mem = some s) : Fresh s := by
  obtain ⟨s', made', -, -, pages, own⟩ := initPgdir_some more (kernel page (by simp [more]))
  obtain rfl := Option.some.inj (made.symm.trans made')
  rw [more] at kernel nodup
  refine ⟨fun other member => ?_, ?_, fun other member => ?_⟩
  · rw [pages] at member
    exact kernel other (List.mem_cons_of_mem _ member)
  · rw [pages]
    exact (List.nodup_cons.mp nodup).2
  · rw [pages] at member
    rw [own, List.mem_singleton]
    rintro rfl
    exact (List.nodup_cons.mp nodup).1 member

/-- One level of `get_pte` with `alloc`, which goes on from the table it finds or makes. -/
theorem Tables.descend (tables : Tables s) (fresh : Fresh s) (path : List UInt64)
    {table part : UInt64} {next : UInt64 → State → Result} {result : Option UInt64}
    (short : path.length < 3) (found : s.walk path = some table) (small : part < 512)
    (ran : (nextTable part true table s).andThen next = some (result, s')) :
    ∃ below taken s₁, nextTable part true table s = some (some below, s₁) ∧ Tables s₁ ∧
      Fresh s₁ ∧ Grown taken s s₁ ∧ taken.length ≤ 1 ∧
      s₁.walk (path ++ [part]) = some below ∧ next below s₁ = some (result, s') := by
  cases entry : child s.mem.word table part with
  | some below =>
    have present := nextTable_present entry true
    rw [present, Result.andThen_table] at ran
    exact ⟨below, [], s, present, tables, fresh, .refl s, by simp,
      (walk_concat found).trans entry, ran⟩
  | none =>
    cases more : s.mem.pages with
    | nil =>
      rw [nextTable_stuck small entry more] at ran
      exact absurd ran (by simp [Result.andThen])
    | cons page rest =>
      have kernel := fresh.kernel page (by simp [more])
      have unused := fresh.unused page (by simp [more])
      have made := nextTable_made small entry more kernel
      rw [made, Result.andThen_table] at ran
      refine ⟨page, [page], _, made, tables.grow rest short found small entry kernel unused,
        fresh.grow more, tables.grown more short found small entry kernel unused, by simp, ?_, ran⟩
      rw [tables.walk_grow rest short found small entry kernel unused (by simp; omega), if_pos rfl]

/-- The root table is there from `init_pgdir` on. -/
theorem Tables.root (tables : Tables s) (alloc : Bool) :
    rootTable s alloc = some (some s.pt, s) := by
  have inUse : s.pt ∈ s.tables := tables.tree.inUse [] s.pt (by simp) rfl
  rw [rootTable, if_neg (tables.kernel s.pt inUse).ne_zero]

/-- An entry that exists is returned, and nothing changes. -/
theorem Tables.getPte_located (tables : Tables s) (located : s.location va = some pointer)
    (alloc : Bool) : getPte s va alloc = some (some pointer, s) := by
  simp only [State.location, tablePath, Radix.walk, Option.map_eq_some_iff,
    Option.bind_eq_some_iff, Option.some.injEq] at located
  obtain ⟨p3, ⟨p1, first, p2, second, _, third, rfl⟩, rfl⟩ := located
  rw [getPte, tables.root, Result.andThen_table, nextTable_present first, Result.andThen_table,
    nextTable_present second, Result.andThen_table, nextTable_present third, Result.andThen_table]

/-- An entry that does not exist is not made unless asked for. -/
theorem Tables.getPte_absent (tables : Tables s) (absent : s.location va = none) :
    getPte s va false = some (none, s) := by
  obtain ⟨small0, small1, small2, -⟩ := vaParts_lt va
  simp only [State.location, tablePath, Radix.walk, Option.map_eq_none_iff] at absent
  cases first : child s.mem.word s.pt (vaPart0 va) with
  | none =>
    rw [getPte, tables.root, Result.andThen_table, nextTable_absent small0 first,
      Result.andThen_null]
  | some p1 =>
    cases second : child s.mem.word p1 (vaPart1 va) with
    | none =>
      rw [getPte, tables.root, Result.andThen_table, nextTable_present first,
        Result.andThen_table, nextTable_absent small1 second, Result.andThen_null]
    | some p2 =>
      cases third : child s.mem.word p2 (vaPart2 va) with
      | none =>
        rw [getPte, tables.root, Result.andThen_table, nextTable_present first,
          Result.andThen_table, nextTable_present second, Result.andThen_table,
          nextTable_absent small2 third, Result.andThen_null]
      | some p3 => simp [first, second, third] at absent

/-- Without `alloc` the location of the entry is returned, and nothing changes. -/
theorem Tables.getPte_false (tables : Tables s) (va : UInt64) :
    getPte s va false = some (s.location va, s) := by
  cases located : s.location va with
  | none => exact tables.getPte_absent located
  | some pointer => exact tables.getPte_located located false

/-- With `alloc` the entry exists afterwards, and tables were made where there was none. -/
theorem Tables.getPte_true (tables : Tables s) (fresh : Fresh s) {result : Option UInt64}
    (ran : getPte s va true = some (result, s')) :
    ∃ pointer taken, result = some pointer ∧ s'.location va = some pointer ∧ Tables s' ∧
      Fresh s' ∧ Grown taken s s' ∧ taken.length ≤ 3 := by
  obtain ⟨small0, small1, small2, -⟩ := vaParts_lt va
  rw [getPte, tables.root, Result.andThen_table] at ran
  obtain ⟨p1, taken1, s1, -, tables1, fresh1, grown1, few1, found1, ran⟩ :=
    tables.descend fresh [] (by simp) rfl small0 ran
  obtain ⟨p2, taken2, s2, -, tables2, fresh2, grown2, few2, found2, ran⟩ :=
    tables1.descend fresh1 [vaPart0 va] (by simp) found1 small1 ran
  obtain ⟨p3, taken3, s3, -, tables3, fresh3, grown3, few3, found3, ran⟩ :=
    tables2.descend fresh2 [vaPart0 va, vaPart1 va] (by simp) found2 small2 ran
  obtain ⟨rfl, rfl⟩ := Prod.mk.inj (Option.some.inj ran)
  refine ⟨_, _, rfl, congrArg (Option.map _) found3, tables3, fresh3,
    (grown1.trans grown2).trans grown3, ?_⟩
  simp only [List.length_append]
  omega

/-- A table is followed or made as long as there are pages. -/
theorem nextTable_total (count : Nat) (fresh : ∀ page ∈ s.mem.pages, page ≠ 0)
    (enough : count + 1 ≤ s.mem.pages.length) (part table : UInt64) :
    ∃ next s', nextTable part true table s = some (some next, s') ∧
      (∀ page ∈ s'.mem.pages, page ≠ 0) ∧ count ≤ s'.mem.pages.length := by
  by_cases valid : s.mem.word (table + 8 * part) &&& pteValid = 0
  · cases more : s.mem.pages with
    | nil => simp [more] at enough
    | cons page rest =>
      rw [more] at enough fresh
      have nonzero : page ≠ 0 := fresh page (by simp)
      simp only [nextTable, valid, if_pos, kkalloc, Mem.kallocPage, more, List.headD_cons,
        List.tail_cons, nonzero, if_neg, not_false_eq_true, Option.map_some, State.store]
      exact ⟨_, _, rfl, fun other member => fresh other (List.mem_cons_of_mem _ member),
        Nat.le_of_succ_le_succ enough⟩
  · exact ⟨_, s, by rw [nextTable, if_neg valid], fresh, by omega⟩

/-- With `alloc` and a page for each level an entry is returned. -/
theorem Tables.getPte_total (tables : Tables s) (va : UInt64)
    (fresh : ∀ page ∈ s.mem.pages, page ≠ 0) (enough : 3 ≤ s.mem.pages.length) :
    ∃ pointer s', getPte s va true = some (some pointer, s') := by
  obtain ⟨p1, s1, first, fresh1, two⟩ := nextTable_total 2 fresh enough (vaPart0 va) s.pt
  obtain ⟨p2, s2, second, fresh2, one⟩ := nextTable_total 1 fresh1 two (vaPart1 va) p1
  obtain ⟨p3, s3, third, -⟩ := nextTable_total 0 fresh2 one (vaPart2 va) p2
  refine ⟨p3 + 8 * vaPart3 va, s3, ?_⟩
  rw [getPte, tables.root, Result.andThen_table, first, Result.andThen_table, second,
    Result.andThen_table, third, Result.andThen_table]

end GetPte

/-! ## Entries -/

section Entries

variable {s s' : State} {va va' pointer pointer' : UInt64}

/-- The entry for an address, if there is one. -/
def State.entry (s : State) (va : UInt64) : Option UInt64 := (s.location va).map s.mem.word

/-- An entry is a word of one of the last tables. -/
theorem location_some (located : s.location va = some pointer) :
    ∃ table, s.walk (tablePath va) = some table ∧ pointer = table + 8 * vaPart3 va := by
  simp only [State.location, Option.map_eq_some_iff] at located
  obtain ⟨table, found, rfl⟩ := located
  exact ⟨table, found, rfl⟩

/-- Addresses of one page have one location for their entry. -/
theorem location_congr (same : SamePage va va') : s.location va = s.location va' := by
  obtain ⟨first, second, third, last⟩ := samePage_iff_parts.mp same
  simp only [State.location, tablePath, first, second, third, last]

/-- Entries of different pages are at different locations. -/
theorem Tables.location_inj (tables : Tables s) (located : s.location va = some pointer)
    (located' : s.location va' = some pointer') : pointer = pointer' ↔ SamePage va va' := by
  rw [samePage_iff_parts]
  constructor
  · rintro rfl
    obtain ⟨table, found, rfl⟩ := location_some located
    obtain ⟨table', found', same⟩ := location_some located'
    have inUse := tables.inUse (by simp [tablePath]) found
    have inUse' := tables.inUse (by simp [tablePath]) found'
    obtain ⟨rfl, last⟩ := (tables.kernel table inUse).slot_inj (tables.kernel table' inUse')
      (vaParts_lt va).2.2.2 (vaParts_lt va').2.2.2 same
    have paths := tables.tree.apart _ _ table (by simp [tablePath]) (by simp [tablePath]) found found'
    simp only [tablePath, List.cons.injEq, and_true] at paths
    exact ⟨paths.1, paths.2.1, paths.2.2, last⟩
  · intro parts
    have same := location_congr (s := s) (samePage_iff_parts.mpr parts)
    rw [located, located'] at same
    exact Option.some.inj same

/-- What exists stays where it is and as it is. -/
theorem Grown.location {taken : List UInt64} (grown : Grown taken s s')
    (located : s.location va = some pointer) :
    s'.location va = some pointer ∧ s'.mem.word pointer = s.mem.word pointer := by
  obtain ⟨table, found, rfl⟩ := location_some located
  refine ⟨?_, grown.entries _ table _ (by simp [tablePath]) found (vaParts_lt va).2.2.2⟩
  rw [State.location, grown.kept _ table (by simp [tablePath]) found]
  rfl

/-- What did not exist is zero. -/
theorem Grown.location_new {taken : List UInt64} (grown : Grown taken s s')
    (absent : s.location va = none) (located : s'.location va = some pointer) :
    s'.mem.word pointer = 0 := by
  obtain ⟨table, found, rfl⟩ := location_some located
  rw [State.location, Option.map_eq_none_iff] at absent
  exact grown.zero _ table _ (by simp [tablePath]) absent found (vaParts_lt va).2.2.2

/-- An entry that exists stays as it is. -/
theorem Grown.entry_kept {taken : List UInt64} (grown : Grown taken s s') {value : UInt64}
    (shown : s.entry va = some value) : s'.entry va = some value := by
  rw [State.entry, Option.map_eq_some_iff] at shown
  obtain ⟨pointer, located, rfl⟩ := shown
  obtain ⟨located', same⟩ := grown.location located
  rw [State.entry, located', Option.map_some, same]

/-- An entry is as it was, or new and zero. -/
theorem Grown.entry {taken : List UInt64} (grown : Grown taken s s') {value : UInt64}
    (shown : s'.entry va = some value) : value = 0 ∨ s.entry va = some value := by
  rw [State.entry, Option.map_eq_some_iff] at shown
  obtain ⟨pointer, located, rfl⟩ := shown
  cases before : s.location va with
  | none => exact .inl (grown.location_new before located)
  | some pointer' =>
    obtain ⟨located', same⟩ := grown.location before
    obtain rfl := Option.some.inj (located'.symm.trans located)
    exact .inr (by rw [State.entry, before, Option.map_some, same])

/-- Stores through the location of an entry leave the tables above the last ones alone. -/
theorem Tables.store_above (tables : Tables s) (located : s.location va = some pointer)
    (value : UInt64) {path : List UInt64} {upper index : UInt64} (short : path.length < 3)
    (reached : s.walk path = some upper) (small : index < 512) :
    (s.store pointer value).mem.word (upper + 8 * index) = s.mem.word (upper + 8 * index) := by
  obtain ⟨table, found, rfl⟩ := location_some located
  refine Function.update_of_ne (fun same => ?_) _ _
  obtain ⟨rfl, -⟩ := (tables.kernel upper (tables.inUse (by omega) reached)).slot_inj
    (tables.kernel table (tables.inUse (by simp [tablePath]) found)) small (vaParts_lt va).2.2.2 same
  have equal := tables.tree.apart path (tablePath va) upper (by omega) (by simp [tablePath])
    reached found
  rw [equal] at short
  exact absurd short (by simp [tablePath])

/-- Stores through the location of an entry leave the walks as they are. -/
theorem Tables.store_walk (tables : Tables s) (located : s.location va = some pointer)
    (value : UInt64) {path : List UInt64} (short : path.length ≤ 3) :
    (s.store pointer value).walk path = s.walk path := by
  refine Radix.walk_congr (fun above upper higher reached => ?_) short
  funext index
  exact child_congr fun small => tables.store_above located value higher reached small

/-- Stores through the location of an entry leave the tables as they are. -/
theorem Tables.store (tables : Tables s) (located : s.location va = some pointer)
    (value : UInt64) : Tables (s.store pointer value) ∧
      ∀ va, (s.store pointer value).location va = s.location va := by
  have walks : ∀ path : List UInt64, path.length ≤ 3 →
      (s.store pointer value).walk path = s.walk path := fun path short =>
    tables.store_walk located value short
  refine ⟨⟨tables.kernel, fun path last short reached => ?_, fun one other last short short'
    reached reached' => ?_⟩, fun va' => ?_⟩
  · exact tables.inUse short ((walks path short).symm.trans reached)
  · exact tables.tree.apart one other last short short' ((walks one short).symm.trans reached)
      ((walks other short').symm.trans reached')
  · rw [State.location, walks _ (by simp [tablePath]), State.location]

/-- Addresses of one page have one entry. -/
theorem entry_congr (same : SamePage va va') : s.entry va = s.entry va' := by
  rw [State.entry, location_congr same, State.entry]

/-- A change of memory that leaves the tables alone leaves the entries alone. -/
theorem Tables.entry_of_agree (tables : Tables s) (s' : State) (root : s'.pt = s.pt)
    (same : s'.tables = s.tables)
    (agree : ∀ table ∈ s.tables, ∀ index, index < 512 →
      s'.mem.word (table + 8 * index) = s.mem.word (table + 8 * index)) (va : UInt64) :
    s'.location va = s.location va ∧ s'.entry va = s.entry va := by
  obtain ⟨-, walks⟩ := tables.congr s' root same agree
  have located : s'.location va = s.location va := by
    rw [State.location, walks _ (by simp [tablePath]), State.location]
  refine ⟨located, ?_⟩
  rw [State.entry, located, State.entry]
  cases there : s.location va with
  | none => rfl
  | some pointer =>
    obtain ⟨table, found, rfl⟩ := location_some there
    exact congrArg some
      (agree table (tables.inUse (by simp [tablePath]) found) _ (vaParts_lt va).2.2.2)

/-- A store to an entry. -/
theorem Tables.entry_store_same (tables : Tables s) (located : s.location va = some pointer)
    (value : UInt64) : (s.store pointer value).entry va = some value := by
  rw [State.entry, (tables.store located value).2, located, Option.map_some]
  exact congrArg some (Function.update_self ..)

/-- A store to the entry of another page. -/
theorem Tables.entry_store_other (tables : Tables s) (located : s.location va = some pointer)
    (value : UInt64) (different : ¬ SamePage va va') :
    (s.store pointer value).entry va' = s.entry va' := by
  rw [State.entry, (tables.store located value).2, State.entry]
  cases there : s.location va' with
  | none => rfl
  | some pointer' =>
    have apart : pointer' ≠ pointer := fun same =>
      different ((tables.location_inj located there).mp same.symm)
    exact congrArg some (Function.update_of_ne apart _ _)

/-- A store to a page that is not a table leaves the tables and the entries alone. -/
theorem Tables.store_outside (tables : Tables s) {page index : UInt64} (kernel : KernelPage page)
    (outside : page ∉ s.tables) (small : index < 512) (value : UInt64) :
    Tables (s.store (page + 8 * index) value) ∧
      ∀ va, (s.store (page + 8 * index) value).entry va = s.entry va := by
  have agree : ∀ table ∈ s.tables, ∀ index', index' < 512 →
      (s.store (page + 8 * index) value).mem.word (table + 8 * index') =
        s.mem.word (table + 8 * index') := by
    intro table member index' small'
    refine Function.update_of_ne (fun same => ?_) _ _
    obtain ⟨rfl, -⟩ := (tables.kernel table member).slot_inj kernel small' small same
    exact outside member
  exact ⟨(tables.congr (s.store (page + 8 * index) value) rfl rfl agree).1,
    fun va => (tables.entry_of_agree (s.store (page + 8 * index) value) rfl rfl agree va).2⟩

/-- A store to an entry changes no page but the tables. -/
theorem Tables.store_frame (tables : Tables s) (located : s.location va = some pointer)
    (value : UInt64) {page index : UInt64} (kernel : KernelPage page) (outside : page ∉ s.tables)
    (small : index < 512) :
    (s.store pointer value).mem.word (page + 8 * index) = s.mem.word (page + 8 * index) := by
  obtain ⟨table, found, rfl⟩ := location_some located
  have inUse := tables.inUse (by simp [tablePath]) found
  refine Function.update_of_ne (fun same => ?_) _ _
  obtain ⟨rfl, -⟩ := kernel.slot_inj (tables.kernel table inUse) small (vaParts_lt va).2.2.2 same
  exact outside inUse

end Entries

/-! ## Runs -/

/-- A page table with what its users did. -/
structure Run where
  pgdir : State
  /-- The calls of `get_pte` that returned a location: the address and the location. -/
  returned : List (UInt64 × UInt64)
  /-- The stores, with the last one first: the location and the value. -/
  stored : List (UInt64 × UInt64)

/-- What a user does. -/
inductive Act where
  /-- `get_pte(pgdir, va, alloc)` while `kalloc_page` returns these pages in turn. -/
  | get (va : UInt64) (alloc : Bool) (pages : List UInt64)
  /-- `*pointer = value`. -/
  | store (pointer value : UInt64)

/-- The page table when `kalloc_page` is about to return these pages. -/
def State.supplied (s : State) (pages : List UInt64) : State :=
  { s with mem := { s.mem with pages } }

/-- One step; stores go through locations that `get_pte` returned. -/
def Run.step (s : Run) : Act → Option Run
  | .get va alloc pages =>
    (getPte (s.pgdir.supplied pages) va alloc).map fun (result, pgdir) =>
      { s with pgdir, returned := (result.map (va, ·)).toList ++ s.returned }
  | .store pointer value =>
    if pointer ∈ s.returned.map Prod.snd then
      some { s with
        pgdir := s.pgdir.store pointer value
        stored := (pointer, value) :: s.stored }
    else none

/-- A page table and its users, from `init_pgdir` on. -/
def machine : Machine Run Act where
  init s := ∃ mem page rest, mem.pages = page :: rest ∧ KernelPage page ∧
    initPgdir mem = some s.pgdir ∧ s.returned = [] ∧ s.stored = []
  step := Run.step

/-- `kalloc_page` returns pages that are not in use. -/
def NotInUse (s : Run) : Act → Prop
  | .get _ _ pages => Fresh (s.pgdir.supplied pages)
  | .store _ _ => True

instance (s : Run) (act : Act) : Decidable (NotInUse s act) :=
  match act with
  | .get _ _ pages => inferInstanceAs (Decidable (Fresh (s.pgdir.supplied pages)))
  | .store _ _ => isTrue trivial

/-- The last value stored at a location, and zero if there was none. -/
def lastStored (stored : List (UInt64 × UInt64)) (pointer : UInt64) : UInt64 :=
  (stored.lookup pointer).getD 0

/-- Somebody stored to the entry of the page of an address. -/
def StoredTo (s : Run) (va : UInt64) : Prop :=
  ∃ va' pointer value, (va', pointer) ∈ s.returned ∧ (pointer, value) ∈ s.stored ∧
    SamePage va va'

/-- What was never stored to counts as zero. -/
theorem lastStored_of_notMem {stored : List (UInt64 × UInt64)} {pointer : UInt64}
    (never : ∀ value, (pointer, value) ∉ stored) : lastStored stored pointer = 0 := by
  have missing : stored.lookup pointer = none := by
    rw [List.lookup_eq_none_iff]
    rintro ⟨other, value⟩ member
    have different : pointer ≠ other := fun same => never value (same ▸ member)
    simpa using different
  rw [lastStored, missing]
  rfl

/-- A store is the last one at its location, and leaves the others as they were. -/
theorem lastStored_cons (stored : List (UInt64 × UInt64)) (pointer value other : UInt64) :
    lastStored ((pointer, value) :: stored) other =
      if other = pointer then value else lastStored stored other := by
  by_cases same : other = pointer
  · simp [lastStored, same]
  · rw [lastStored, List.lookup_cons, beq_false_of_ne same, if_neg same]
    rfl

/-- The entries that were returned are where they were found, and hold what was stored. -/
structure Located (s : Run) : Prop where
  tables : Tables s.pgdir
  returned : ∀ va pointer, (va, pointer) ∈ s.returned → s.pgdir.location va = some pointer
  stored : ∀ pointer value, (pointer, value) ∈ s.stored → ∃ va, (va, pointer) ∈ s.returned
  values : ∀ va pointer, s.pgdir.location va = some pointer →
    s.pgdir.mem.word pointer = lastStored s.stored pointer

namespace Located

variable {s s' : Run}

/-- After `init_pgdir` there is no entry. -/
theorem init (initial : machine.init s) : Located s := by
  obtain ⟨mem, page, rest, more, kernel, made, returned, stored⟩ := initial
  obtain ⟨pgdir, made', tables, absent, -⟩ := initPgdir_some more kernel
  rw [made] at made'
  obtain rfl := Option.some.inj made'
  refine ⟨tables, by simp [returned], by simp [stored], fun va pointer located => ?_⟩
  rw [absent va] at located
  exact absurd located (by simp)

/-- The pages on the queue are no part of the tables. -/
theorem supplied (located : Located s) (pages : List UInt64) :
    Tables (s.pgdir.supplied pages) :=
  ⟨located.tables.kernel, located.tables.tree⟩

/-- Locations that were stored to are those of an address. -/
theorem stored_location (located : Located s) {pointer value : UInt64}
    (member : (pointer, value) ∈ s.stored) : ∃ va, (va, pointer) ∈ s.returned ∧
      s.pgdir.location va = some pointer := by
  obtain ⟨va, returned⟩ := located.stored pointer value member
  exact ⟨va, returned, located.returned va pointer returned⟩

/-- A call of `get_pte` that makes the tables it needs. -/
theorem make (located : Located s) {va : UInt64} {pages taken : List UInt64} {pgdir : State}
    (tables : Tables pgdir) (grown : Grown taken (s.pgdir.supplied pages) pgdir)
    {result : Option UInt64} (here : ∀ pointer, result = some pointer →
      pgdir.location va = some pointer) :
    Located { s with pgdir, returned := (result.map (va, ·)).toList ++ s.returned } := by
  refine ⟨tables, fun va' pointer member => ?_, fun pointer value member => ?_,
    fun va' pointer there => ?_⟩
  · rcases List.mem_append.mp member with new | old
    · simp only [Option.mem_toList, Option.map_eq_some_iff, Prod.mk.injEq] at new
      obtain ⟨_, same, rfl, rfl⟩ := new
      exact here _ same
    · exact (grown.location (located.returned va' pointer old)).1
  · obtain ⟨va', member⟩ := located.stored pointer value member
    exact ⟨va', List.mem_append_right _ member⟩
  · cases before : s.pgdir.location va' with
    | some pointer' =>
      obtain ⟨after, word⟩ := grown.location before
      rw [there] at after
      obtain rfl := Option.some.inj after
      exact word.trans (located.values va' pointer before)
    | none =>
      refine (grown.location_new before there).trans (lastStored_of_notMem fun value member => ?_).symm
      -- A location that was stored to is that of an address, which would be `va'`.
      obtain ⟨va'', -, there'⟩ := located.stored_location member
      have same := (tables.location_inj there (grown.location there').1).mp rfl
      have equal := location_congr (s := s.pgdir) same
      rw [before, there'] at equal
      exact absurd equal (by simp)

/-- Every step with pages that are not in use. -/
theorem step (located : Located s) {act : Act} (met : NotInUse s act)
    (taken : s.step act = some s') : Located s' := by
  cases act with
  | get va alloc pages =>
    simp only [Run.step, Option.map_eq_some_iff, Prod.exists] at taken
    obtain ⟨result, pgdir, ran, rfl⟩ := taken
    cases alloc with
    | false =>
      rw [(located.supplied pages).getPte_false] at ran
      obtain ⟨rfl, rfl⟩ := Prod.mk.inj (Option.some.inj ran)
      exact located.make (located.supplied pages) (.refl _) fun pointer same => same
    | true =>
      obtain ⟨pointer, taken, rfl, here, tables, -, grown, -⟩ :=
        (located.supplied pages).getPte_true met ran
      exact located.make tables grown fun _ same => here.trans same
  | store pointer value =>
    simp only [Run.step, Option.ite_none_right_eq_some, Option.some.injEq, List.mem_map,
      Prod.exists, exists_eq_right] at taken
    obtain ⟨⟨va, member⟩, rfl⟩ := taken
    obtain ⟨tables, same⟩ := located.tables.store (located.returned va pointer member) value
    refine ⟨tables, fun va' pointer' member' => ?_, fun pointer' value' member' => ?_,
      fun va' pointer' there => ?_⟩
    · rw [same va']
      exact located.returned va' pointer' member'
    · rcases List.mem_cons.mp member' with new | old
      · obtain ⟨rfl, -⟩ := Prod.mk.inj new
        exact ⟨va, member⟩
      · exact located.stored pointer' value' old
    · rw [same va'] at there
      rw [lastStored_cons, ← located.values va' pointer' there]
      exact Function.update_apply ..

end Located

/-- The page table is a map. In every run in which `kalloc_page` returns pages not in use: calls of
`get_pte` return the same location for addresses of one page and different locations otherwise; a
location that was returned is returned ever after and holds the last value stored there; a call
without `alloc` changes nothing and returns `NULL` or an entry, which is zero unless somebody stored
to the page; and a call with `alloc` returns an entry if there are pages for the tables. -/
theorem page_table_is_map {s : Run} (reached : machine.Reach NotInUse s) :
    (∀ va va' pointer pointer', (va, pointer) ∈ s.returned → (va', pointer') ∈ s.returned →
      (pointer = pointer' ↔ SamePage va va')) ∧
    (∀ va pointer, (va, pointer) ∈ s.returned →
      s.pgdir.mem.word pointer = lastStored s.stored pointer ∧
      ∀ alloc pages, getPte (s.pgdir.supplied pages) va alloc =
        some (some pointer, s.pgdir.supplied pages)) ∧
    (∀ va pages, ∃ result, getPte (s.pgdir.supplied pages) va false =
        some (result, s.pgdir.supplied pages) ∧
      ∀ pointer, result = some pointer → ¬ StoredTo s va → s.pgdir.mem.word pointer = 0) ∧
    ∀ va pages, Fresh (s.pgdir.supplied pages) → 3 ≤ pages.length →
      ∃ pointer pgdir, getPte (s.pgdir.supplied pages) va true = some (some pointer, pgdir) := by
  have located : Located s := reached.invariant (P := Located)
    (fun s initial => Located.init initial)
    (fun s act s' _ located met taken => located.step met taken)
  refine ⟨?_, ?_, ?_, ?_⟩
  · intro va va' pointer pointer' member member'
    exact located.tables.location_inj (located.returned va pointer member)
      (located.returned va' pointer' member')
  · intro va pointer member
    have there := located.returned va pointer member
    exact ⟨located.values va pointer there,
      fun alloc pages => (located.supplied pages).getPte_located there alloc⟩
  · intro va pages
    refine ⟨_, (located.supplied pages).getPte_false va, fun pointer there never => ?_⟩
    refine (located.values va pointer there).trans (lastStored_of_notMem fun value member => ?_)
    obtain ⟨va', returned, there'⟩ := located.stored_location member
    have same := (located.tables.location_inj there there').mp rfl
    exact never ⟨va', pointer, value, returned, member, same⟩
  · intro va pages fresh enough
    exact (located.supplied pages).getPte_total va (fun page member =>
      (fresh.kernel page member).ne_zero) enough

/-- Memory full of fives with one page on the queue. -/
def oneFreePage : Mem where
  word _ := 5
  pages := [0xffff000000201000]
  ref _ := 0
  allocPageCnt := 0
  pagenum := 1

/-- Two neighbouring pages get entries in one table, and a store to one is seen there only. -/
theorem page_table_is_map_neighbours : ∃ s, machine.Reach NotInUse s ∧
    (0x1234, 0xffff000000204008) ∈ s.returned ∧ (0x2000, 0xffff000000204010) ∈ s.returned ∧
    s.pgdir.mem.word 0xffff000000204008 = 7 ∧ s.pgdir.mem.word 0xffff000000204010 = 0 := by
  obtain ⟨pgdir, made⟩ : ∃ pgdir, initPgdir oneFreePage = some pgdir := ⟨_, rfl⟩
  have initial : machine.init ⟨pgdir, [], []⟩ :=
    ⟨oneFreePage, _, _, rfl, by decide, made, rfl, rfl⟩
  have shown : (machine.exec NotInUse ⟨pgdir, [], []⟩
      [.get 0x1234 true [0xffff000000202000, 0xffff000000203000, 0xffff000000204000],
        .store 0xffff000000204008 7, .get 0x2000 true []]).map (fun s => (s.returned, s.stored)) =
      some ([(0x2000, 0xffff000000204010), (0x1234, 0xffff000000204008)],
        [(0xffff000000204008, 7)]) := by
    obtain rfl := Option.some.inj made
    decide +kernel
  obtain ⟨s, reached, observed⟩ := Machine.Reach.exec_map initial shown
  obtain ⟨returned, stored⟩ := Prod.mk.inj observed
  obtain ⟨-, held, -⟩ := page_table_is_map reached
  have first : (0x1234, 0xffff000000204008) ∈ s.returned := by simp [returned]
  have second : (0x2000, 0xffff000000204010) ∈ s.returned := by simp [returned]
  refine ⟨s, reached, first, second, ?_, ?_⟩
  · rw [(held _ _ first).1, stored]
    decide
  · rw [(held _ _ second).1, stored]
    decide

end OsLab.Kernel.Pt
