import OsLab.Fs.Swap
import OsLab.Kernel.Pt

/-!
# Paging

`src/kernel/paging.c`: the heap section of a process, `sbrk`, the handler of page faults, and
swapping. A page of the heap has no entry until it is first used; a page that was swapped out has
the number of its swap slot as its entry, in the same word where a page in memory has its address
and its flags. Accesses of the process are repeated after the handler of their fault.

One process runs here, with its heap as the only section, as `init_sections` leaves it. Locks and
the translation cache are left out.
-/
namespace OsLab.Kernel.Paging

open OsLab.Lib OsLab.Aarch64 OsLab.Fs

/-- `ST_FILE`. -/
def stFile : UInt64 := 1

/-- `ST_SWAP`. -/
def stSwap : UInt64 := 2

/-- `ST_HEAP`. -/
def stHeap : UInt64 := 8

/-- `REVERSED_PAGES`. -/
def reversedPages : Nat := 1024

/-- `struct section`. -/
structure Section where
  flags : UInt64
  begin : UInt64
  /-- `end`. -/
  limit : UInt64

/-- The process, its memory and the swap area. -/
structure State where
  pgdir : Pt.State
  sec : Section
  /-- `zeor_page`. -/
  zeroPage : UInt64
  inuse : Nat → Bool
  disk : Disk

/-- `CLEAN`. -/
def clean (addr : UInt64) : UInt64 := addr &&& ~~~0xFFF

/-- The bytes of the page at an address. -/
def pageBytes (word : UInt64 → UInt64) (page : UInt64) : Page :=
  Bytes.ofFn fun index => digit (word (page + 8 * UInt64.ofNat (index / 8))).toNat (index % 8)

/-- The word at a distance from the start of a page of bytes. -/
def bytesWord (page : Page) (offset : UInt64) : UInt64 := UInt64.ofNat (page.peek offset.toNat 8)

/-- The memory of the process is replaced. -/
def State.setMem (s : State) (mem : Mem) : State := { s with pgdir := { s.pgdir with mem } }

/-- A store to a word of memory. -/
def State.store (s : State) (addr value : UInt64) : State :=
  { s with pgdir := s.pgdir.store addr value }

/-- `pte = get_pte(pd, va, false)`, and `body` with the location and the value of the entry if
there is one. -/
def State.withPte (s : State) (va : UInt64) (body : UInt64 → UInt64 → State → Option State) :
    Option State :=
  (Pt.getPte s.pgdir va false).bind fun (pte, pgdir) =>
    let s := { s with pgdir }
    match pte with
    | none => some s
    | some pte => body pte (s.pgdir.mem.word pte) s

/-- The first `count` turns of a loop over pages from `begin` on. -/
def forPages (body : UInt64 → State → Option State) (begin : UInt64) : Nat → State → Option State
  | 0, s => some s
  | i + 1, s => (forPages body begin i s).bind (body (begin + 4096 * UInt64.ofNat i))

/-- How often `for (u64 i = begin; i < end; i += PAGE_SIZE)` turns. -/
def turns (begin limit : UInt64) : Nat :=
  if begin < limit then ((limit - begin).toNat + 4095) / 4096 else 0

/-- The turn of the loop in `sbrk`. -/
def sbrkPage (va : UInt64) (s : State) : Option State :=
  s.withPte va fun pte value s =>
    if value = 0 then some s
    else some ((s.setMem (s.pgdir.mem.kfreePage (p2k (clean value)))).store pte 0)

/-- `sbrk`, with a number of pages that is signed: the old end and the state after. -/
def sbrk (s : State) (size : Int) : Option (UInt64 × State) :=
  let limit := s.sec.limit + UInt64.ofInt (size * 4096)
  (forPages sbrkPage limit (-size).toNat { s with sec := { s.sec with limit } }).map
    fun s' => (s.sec.limit, s')

/-- `alloc_page_for_user`, with 0 for `NULL`. -/
def allocPageForUser (m : Mem) : UInt64 × Mem :=
  if m.leftPageCnt ≤ reversedPages then (0, m) else m.kallocPage

/-- The turn of the first loop of `swapout`. -/
def swapoutMark (va : UInt64) (s : State) : Option State :=
  s.withPte va fun pte value s =>
    some (if value = 0 then s else s.store pte (value &&& ~~~pteValid))

/-- The turn of the second loop of `swapout`. -/
def swapoutWrite (va : UInt64) (s : State) : Option State :=
  s.withPte va fun pte value s =>
    if value &&& pteValid = 0 then
      let page := pageBytes s.pgdir.mem.word (p2k (clean value))
      (Swap.writePageToDisk s.inuse s.disk page).map fun (bno, inuse, disk) =>
        { s.store pte (UInt64.ofNat bno) with inuse, disk }
    else some s

/-- `swapout`. The argument of its call of `sbrk` is computed without sign. -/
def swapout (s : State) : Option State :=
  let begin := s.sec.begin
  let limit := s.sec.limit
  let s := { s with sec := { s.sec with flags := s.sec.flags ||| stSwap } }
  (forPages swapoutMark begin (turns begin limit) s).bind fun s =>
    let written :=
      if s.sec.flags &&& stFile = 0 then forPages swapoutWrite begin (turns begin limit) s
      else some s
    written.bind fun s =>
      (sbrk s (((0 - (limit - begin)) / 4096).toNat : Int)).map fun (_, s) =>
        { s with sec := { s.sec with limit } }

/-- The turn of the loop in `swapin`; `none` is the read of the device into `NULL`. -/
def swapinPage (va : UInt64) (s : State) : Option State :=
  s.withPte va fun pte value s =>
    if value = 0 then some s
    else
      let bno := value.toNat % 2 ^ 32
      let (newpage, mem) := allocPageForUser s.pgdir.mem
      if newpage = 0 then none
      else
        let word := overwrite mem.word newpage (bytesWord (Swap.readPageFromDisk s.disk bno))
        some
          { (s.setMem { mem with word }).store pte (k2p newpage ||| pteUserData) with
            inuse := Swap.release8Blocks s.inuse bno }

/-- `swapin`; `none` is its ASSERT too. -/
def swapin (s : State) : Option State :=
  if s.sec.flags &&& stSwap = 0 then none
  else
    (forPages swapinPage s.sec.begin (turns s.sec.begin s.sec.limit) s).map fun s =>
      { s with sec := { s.sec with flags := s.sec.flags &&& ~~~stSwap } }

/-- `check_zero_page`. -/
def checkZeroPage (word : UInt64 → UInt64) (zeroPage : UInt64) : Bool :=
  (List.range 512).all fun i => word (zeroPage + 8 * UInt64.ofNat i) == 0

/-- The branch of `pgfault` for pages that are read-only: the page is given back before its
contents are copied. -/
def copyOnWrite (s : State) (pte value : UInt64) : Option State :=
  let (page, mem) := allocPageForUser s.pgdir.mem
  let mem := mem.kfreePage (p2k (pteAddress value))
  if page = 0 then none
  else
    let word := copyPage mem.word page (p2k (pteAddress value))
    if checkZeroPage word s.zeroPage then
      some ((s.setMem { mem with word }).store pte (k2p page ||| pteUserData))
    else none

/-- `pgfault` for an access to `addr`. -/
def pgfault (s : State) (addr : UInt64) : Option State :=
  (Pt.getPte s.pgdir addr true).bind fun (pte, pgdir) =>
    pte.bind fun pte =>
      let s := { s with pgdir }
      let value := s.pgdir.mem.word pte
      if value = 0 then
        if s.sec.flags &&& stSwap ≠ 0 then swapin s
        else
          let (page, mem) := allocPageForUser s.pgdir.mem
          some ((s.setMem mem).store pte (k2p page ||| pteUserData))
      else if value &&& pteRo ≠ 0 then copyOnWrite s pte value
      else if value &&& pteValid = 0 ∧ s.sec.flags &&& stSwap ≠ 0 then swapin s
      else some s

/-- The word of memory that an access of the process reaches, unless it faults. -/
def State.translate (s : State) (va : UInt64) (write : Bool) : Option UInt64 :=
  (s.pgdir.entry va).bind fun value =>
    if value &&& pteValid = 0 ∨ write = true ∧ value &&& pteRo ≠ 0 then none
    else some (p2k (pteAddress value) + (va &&& 0xFF8))

/-- An access is repeated after each fault, of which there may be `faults`. -/
def State.access (va : UInt64) (write : Bool) : Nat → State → Option (UInt64 × State)
  | faults, s =>
    match s.translate va write, faults with
    | some addr, _ => some (addr, s)
    | none, 0 => none
    | none, faults + 1 => (pgfault s va).bind (State.access va write faults)

/-- The process reads the word at an address. -/
def State.read (s : State) (va : UInt64) : Option (UInt64 × State) :=
  (s.access va false 2).map fun (addr, s) => (s.pgdir.mem.word addr, s)

/-- The process writes the word at an address. -/
def State.write (s : State) (va value : UInt64) : Option State :=
  (s.access va true 2).map fun (addr, s) => s.store addr value

/-! ## Small facts -/

/-- An entry for a page of the process is not zero. -/
theorem userEntry_ne_zero {page : UInt64} (kernel : KernelPage page) :
    k2p page ||| pteUserData ≠ 0 := by
  intro zero
  have valid : (k2p page ||| pteUserData) &&& pteValid = pteUserData &&& pteValid :=
    kernel.entry_and pteUserData (by decide)
  rw [zero] at valid
  exact absurd valid (by decide)

/-- The page that `sbrk` reads from an entry. -/
theorem clean_userEntry {page : UInt64} (kernel : KernelPage page) :
    p2k (clean (k2p page ||| pteUserData)) = page := by
  have kept : (k2p page ||| pteUserData) &&& ~~~0xFFF = k2p page :=
    and_not_or (kernel.and_flags (by decide)) (by decide)
  rw [clean, kept, p2k, k2p, UInt64.sub_add_cancel]

section Facts

variable {s s' : State} {va begin : UInt64}

/-- What a loop over pages keeps, with what each turn does. -/
theorem forPages_rule {body : UInt64 → State → Option State} (I : Nat → State → Prop)
    {count : Nat} (start : I 0 s)
    (turn : ∀ i s, i < count → I i s →
      ∃ s', body (begin + 4096 * UInt64.ofNat i) s = some s' ∧ I (i + 1) s') :
    ∃ s', forPages body begin count s = some s' ∧ I count s' := by
  induction count with
  | zero => exact ⟨s, rfl, start⟩
  | succ count ih =>
    obtain ⟨s₁, ran, kept⟩ := ih fun i s inside => turn i s (by omega)
    obtain ⟨s₂, ran', kept'⟩ := turn count s₁ (by omega) kept
    exact ⟨s₂, by rw [forPages, ran, Option.bind_some, ran'], kept'⟩

/-- A loop over pages whose turns change nothing. -/
theorem forPages_same {body : UInt64 → State → Option State} {count : Nat}
    (same : ∀ i, i < count → body (begin + 4096 * UInt64.ofNat i) s = some s) :
    forPages body begin count s = some s := by
  have turn : ∀ i s', i < count → s' = s →
      ∃ s'', body (begin + 4096 * UInt64.ofNat i) s' = some s'' ∧ s'' = s := by
    rintro i s' below rfl
    exact ⟨s', same i below, rfl⟩
  obtain ⟨s', ran, rfl⟩ := forPages_rule (fun _ s' => s' = s) rfl turn
  exact ran

/-- What `get_pte` finds without `alloc`. -/
theorem State.withPte_eq (tables : Pt.Tables s.pgdir)
    (body : UInt64 → UInt64 → State → Option State) :
    s.withPte va body =
      match s.pgdir.location va with
      | none => some s
      | some pte => body pte (s.pgdir.mem.word pte) s := by
  rw [State.withPte, tables.getPte_false]
  rfl

/-- A page without an entry is passed over. -/
theorem State.withPte_absent (tables : Pt.Tables s.pgdir) (absent : s.pgdir.entry va = none)
    (body : UInt64 → UInt64 → State → Option State) : s.withPte va body = some s := by
  rw [Pt.State.entry, Option.map_eq_none_iff] at absent
  rw [State.withPte_eq tables, absent]

/-- A page with an entry. -/
theorem State.withPte_present {value : UInt64} (tables : Pt.Tables s.pgdir)
    (present : s.pgdir.entry va = some value)
    (body : UInt64 → UInt64 → State → Option State) :
    ∃ pte, s.pgdir.location va = some pte ∧ s.pgdir.mem.word pte = value ∧
      s.withPte va body = body pte value s := by
  rw [Pt.State.entry, Option.map_eq_some_iff] at present
  obtain ⟨pte, located, rfl⟩ := present
  refine ⟨pte, located, rfl, ?_⟩
  rw [State.withPte_eq tables, located]

/-- A page of memory written to bytes and read back, word by word. -/
theorem bytesWord_pageBytes {word : UInt64 → UInt64} {page index : UInt64}
    (small : index < 512) :
    bytesWord (pageBytes word page) (8 * index) = word (page + 8 * index) := by
  have offset := toNat_offset small
  replace small : index.toNat < 512 := UInt64.lt_iff_toNat_lt.mp small
  have bytes : (pageBytes word page).peek (8 * index).toNat 8 =
      Lib.word 8 (digit (word (page + 8 * index)).toNat) := by
    refine word_congr fun byte below => ?_
    have inside : 8 * index.toNat + byte < pageSize := by
      simp only [pageSize]
      omega
    rw [offset, pageBytes, Bytes.get_ofFn inside, show (8 * index.toNat + byte) / 8 = index.toNat by
      omega, show (8 * index.toNat + byte) % 8 = byte by omega, UInt64.ofNat_toNat]
  have width : (256 : Nat) ^ 8 = 2 ^ 64 := rfl
  rw [bytesWord, bytes, word_digit, width, Nat.mod_eq_of_lt (UInt64.toNat_lt _),
    UInt64.ofNat_toNat]

/-- An access that does not fault. -/
theorem State.access_translate {addr : UInt64} {write : Bool}
    (reached : s.translate va write = some addr) (faults : Nat) :
    s.access va write faults = some (addr, s) := by
  unfold State.access
  simp only [reached]

/-- An access that faults is made again. -/
theorem State.access_fault {write : Bool} (faulted : s.translate va write = none)
    (faults : Nat) :
    s.access va write (faults + 1) = (pgfault s va).bind (State.access va write faults) := by
  conv_lhs => unfold State.access
  simp only [faulted]

/-- `alloc_page_for_user` leaves the words of memory alone. -/
theorem allocPageForUser_word (m : Mem) : (allocPageForUser m).2.word = m.word := by
  rw [allocPageForUser]
  split <;> rfl

/-- The lazy branch of `pgfault`: an entry that is zero gets the page that `alloc_page_for_user`
returns. -/
theorem pgfault_lazy {pgdir : Pt.State} {pte : UInt64}
    (got : Pt.getPte s.pgdir va true = some (some pte, pgdir)) (zero : pgdir.mem.word pte = 0)
    (plain : s.sec.flags &&& stSwap = 0) :
    pgfault s va = some (({ s with pgdir }.setMem (allocPageForUser pgdir.mem).2).store pte
      (k2p (allocPageForUser pgdir.mem).1 ||| pteUserData)) := by
  simp only [pgfault, got, Option.bind_some, zero, if_true, plain, ne_eq, not_true_eq_false,
    if_false]

/-- The first access to a page takes the lazy branch, once its entry exists. -/
theorem pgfault_first (tables : Pt.Tables s.pgdir) (fresh : Pt.Fresh s.pgdir)
    (unused : (s.pgdir.entry va).getD 0 = 0) (plain : s.sec.flags &&& stSwap = 0)
    (ran : pgfault s va = some s') :
    ∃ pgdir pte taken, Pt.getPte s.pgdir va true = some (some pte, pgdir) ∧ Pt.Tables pgdir ∧
      Pt.Fresh pgdir ∧ Pt.Grown taken s.pgdir pgdir ∧ taken.length ≤ 3 ∧
      pgdir.location va = some pte ∧ pgdir.mem.word pte = 0 ∧
      s' = ({ s with pgdir }.setMem (allocPageForUser pgdir.mem).2).store pte
        (k2p (allocPageForUser pgdir.mem).1 ||| pteUserData) := by
  obtain ⟨⟨result, pgdir⟩, got, -⟩ := Option.bind_eq_some_iff.mp ran
  obtain ⟨pte, taken, rfl, located, tables', fresh', grown, few⟩ := tables.getPte_true fresh got
  have entry : pgdir.entry va = some (pgdir.mem.word pte) := by rw [Pt.State.entry, located]; rfl
  have zero : pgdir.mem.word pte = 0 := by
    rcases grown.entry entry with zero | before
    · exact zero
    · rwa [before] at unused
  rw [pgfault_lazy got zero plain] at ran
  exact ⟨pgdir, pte, taken, got, tables', fresh', grown, few, located, zero,
    (Option.some.inj ran).symm⟩

/-- The tables and entries after the entry of a page got a page. -/
theorem tables_first {pgdir : Pt.State} {pte value : UInt64} (tables : Pt.Tables pgdir)
    (located : pgdir.location va = some pte)
    (shape : s' = ({ s with pgdir }.setMem (allocPageForUser pgdir.mem).2).store pte value) :
    Pt.Tables s'.pgdir ∧ s'.pgdir.entry va = some value ∧
      ∀ other, ¬ SamePage va other → s'.pgdir.entry other = pgdir.entry other := by
  have agree : ∀ table ∈ pgdir.tables, ∀ index, index < 512 →
      (allocPageForUser pgdir.mem).2.word (table + 8 * index) =
        pgdir.mem.word (table + 8 * index) := by
    intro table _ index _
    rw [allocPageForUser_word]
  obtain ⟨tables', -⟩ := tables.congr { pgdir with mem := (allocPageForUser pgdir.mem).2 } rfl
    rfl agree
  have same := tables.entry_of_agree { pgdir with mem := (allocPageForUser pgdir.mem).2 } rfl
    rfl agree
  have located' := (same va).1.trans located
  subst shape
  exact ⟨(tables'.store located' value).1, tables'.entry_store_same located' value,
    fun other different => (tables'.entry_store_other located' value different).trans (same other).2⟩

/-- `alloc_page_for_user` returns the next page on the queue, or `NULL`. -/
theorem allocPageForUser_pages (m : Mem) :
    ((allocPageForUser m).1 = 0 ∧ (allocPageForUser m).2.pages = m.pages) ∨
      m.pages = (allocPageForUser m).1 :: (allocPageForUser m).2.pages := by
  rw [allocPageForUser]
  split
  · exact .inl ⟨rfl, rfl⟩
  · cases more : m.pages with
    | nil => exact .inl (by simp [Mem.kallocPage, more])
    | cons page rest => exact .inr (by simp [Mem.kallocPage, more])

/-- `sbrk` without a negative argument only moves the end. -/
theorem sbrk_of_nonneg {size : Int} (positive : 0 ≤ size) :
    sbrk s size = some (s.sec.limit,
      { s with sec := { s.sec with limit := s.sec.limit + UInt64.ofInt (size * 4096) } }) := by
  have none : (-size).toNat = 0 := by omega
  simp only [sbrk, none, forPages, Option.map_some]

end Facts

end OsLab.Kernel.Paging
