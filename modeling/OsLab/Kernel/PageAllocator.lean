import OsLab.Lib.Transition
import OsLab.Kernel.Mem
import Mathlib.Data.Finset.Card

/-!
# The account of the pages

`kalloc_page` and `kfree_page` of `src/kernel/mem.c`, called in any order. The allocator counts the
pages it has given out and keeps a reference count for each page, at an index computed from the
address. `kalloc_page` counts before it knows whether there is a page: on an empty queue it counts
a page nobody has, and writes far behind the array of reference counts.
-/
namespace OsLab.Kernel.PageAllocator

open OsLab.Lib OsLab.Aarch64

/-- `PHYSTOP`. -/
def phystop : UInt64 := 0x3f000000

/-- `PHYSTOP/PAGE_SIZE`, the number of elements of `refpage`. -/
def numRefpages : UInt64 := phystop / 4096

/-- The page allocator, and the indices of `refpage` it has used. -/
structure State where
  /-- Memory, with the queue and the counters. -/
  mem : Mem
  /-- The indices used, latest first. -/
  used : List UInt64

/-- The calls. -/
inductive Act where
  | kallocPage
  | kfreePage (page : UInt64)
  deriving Repr, DecidableEq

/-- One call. Only pages of the allocator are given back. -/
def step (all : Finset UInt64) (s : State) : Act → Option State
  | .kallocPage => some ⟨s.mem.kallocPage.2, Mem.refIndex s.mem.kallocPage.1 :: s.used⟩
  | .kfreePage page =>
    if page ∈ all then some ⟨s.mem.kfreePage page, Mem.refIndex page :: s.used⟩ else none

/-- A whole page of the kernel's half below the top of memory. -/
structure Managed (page : UInt64) : Prop where
  aligned : page.toNat % 4096 = 0
  kernel : kspaceMask.toNat ≤ page.toNat
  below : page.toNat < (p2k phystop).toNat

/-- Its reference count is in the array. -/
theorem Managed.refIndex_lt {page : UInt64} (managed : Managed page) :
    Mem.refIndex page < numRefpages := by
  have kernel := managed.kernel
  have below := managed.below
  have bound := page.toNat_lt
  have mask : kspaceMask.toNat = 0xffff000000000000 := rfl
  have top : (p2k phystop).toNat = 0xffff00003f000000 := by decide
  have size : (4096 : UInt64).toNat = 4096 := rfl
  have number : numRefpages.toNat = 0x3f000 := by decide
  rw [UInt64.lt_iff_toNat_lt, Mem.refIndex, k2p, UInt64.toNat_div, UInt64.toNat_sub, number, size]
  omega

/-- The pages that were put on the queue at the start and are not on it. -/
def taken (all : Finset UInt64) (m : Mem) : Finset UInt64 := all.filter (· ∉ m.pages)

/-- A state of the allocator of the pages `all`. -/
structure Accounted (all : Finset UInt64) (m : Mem) : Prop where
  managed : ∀ page ∈ all, Managed page
  nodup : m.pages.Nodup
  inside : ∀ page ∈ m.pages, page ∈ all
  idle : ∀ page ∈ m.pages, m.ref (Mem.refIndex page) ≤ 0
  count : m.allocPageCnt = (taken all m).card

/-- The calls one after another, from any state of the allocator. -/
def machine (all : Finset UInt64) : Machine State Act where
  init s := Accounted all s.mem ∧ s.used = []
  step := step all

/-! ## The start -/

section Boot

/-- The first page that the allocator gets: `PAGE_BASE(&end) + 2 * PAGE_SIZE`. -/
def firstPage (kernelEnd : UInt64) : UInt64 := pageBase kernelEnd + 2 * 4096

/-- The number of pages up to `P2K(PHYSTOP)`. -/
def pageCount (first : UInt64) : Nat := ((p2k phystop).toNat - first.toNat + 4095) / 4096

/-- The pages in the order in which they are added to the queue. -/
def bootPages (first : UInt64) : List UInt64 :=
  (List.range (pageCount first)).map fun i => UInt64.ofNat (first.toNat + 4096 * i)

/-- The allocator at the start, with any words in memory. -/
def boot (kernelEnd : UInt64) (word : UInt64 → UInt64) : Mem where
  word := word
  pages := (bootPages (firstPage kernelEnd)).reverse
  ref := Function.update (fun _ => 0) (Mem.refIndex (firstPage kernelEnd - 4096)) 1
  allocPageCnt := 0
  pagenum := pageCount (firstPage kernelEnd)

variable {first page : UInt64}

/-- The addresses of the pages do not wrap round. -/
theorem bootPages_toNat {i : Nat} (inRange : i < pageCount first) :
    (UInt64.ofNat (first.toNat + 4096 * i)).toNat = first.toNat + 4096 * i ∧
      first.toNat + 4096 * i < (p2k phystop).toNat := by
  have top : (p2k phystop).toNat = 0xffff00003f000000 := by decide
  rw [pageCount, top] at inRange
  rw [top, UInt64.toNat_ofNat', Nat.mod_eq_of_lt (by omega)]
  exact ⟨rfl, by omega⟩

/-- No page is added twice. -/
theorem bootPages_nodup (first : UInt64) : (bootPages first).Nodup := by
  refine List.Nodup.map_on (fun i inRange j inRange' same => ?_) List.nodup_range
  have equal := congrArg UInt64.toNat same
  rw [(bootPages_toNat (List.mem_range.mp inRange)).1,
    (bootPages_toNat (List.mem_range.mp inRange')).1] at equal
  omega

/-- The pages are whole pages of memory. -/
theorem bootPages_managed (aligned : first.toNat % 4096 = 0)
    (kernel : kspaceMask.toNat ≤ first.toNat) (member : page ∈ bootPages first) : Managed page := by
  obtain ⟨i, inRange, rfl⟩ := List.mem_map.mp member
  obtain ⟨value, below⟩ := bootPages_toNat (List.mem_range.mp inRange)
  refine ⟨?_, ?_, ?_⟩ <;> rw [value]
  · omega
  · omega
  · exact below

/-- They start at the first one. -/
theorem le_of_mem_bootPages (member : page ∈ bootPages first) : first.toNat ≤ page.toNat := by
  obtain ⟨i, inRange, rfl⟩ := List.mem_map.mp member
  rw [(bootPages_toNat (List.mem_range.mp inRange)).1]
  omega

/-- The kernel ends below the first page. -/
theorem firstPage_toNat {kernelEnd : UInt64} (kernel : kspaceMask ≤ kernelEnd)
    (below : kernelEnd ≤ p2k phystop) :
    (firstPage kernelEnd).toNat % 4096 = 0 ∧ kspaceMask.toNat + 8192 ≤ (firstPage kernelEnd).toNat := by
  have mask : kspaceMask.toNat = 0xffff000000000000 := rfl
  have top : (p2k phystop).toNat = 0xffff00003f000000 := by decide
  rw [UInt64.le_iff_toNat_le] at kernel below
  rw [mask] at kernel ⊢
  have two : (2 * 4096 : UInt64).toNat = 8192 := rfl
  rw [firstPage, UInt64.toNat_add, toNat_pageBase, two]
  omega

/-- The kernel starts the allocator in one of its states. -/
theorem boot_accounted {kernelEnd : UInt64} (word : UInt64 → UInt64)
    (kernel : kspaceMask ≤ kernelEnd) (below : kernelEnd ≤ p2k phystop) :
    Accounted (bootPages (firstPage kernelEnd)).toFinset (boot kernelEnd word) := by
  have first := firstPage_toNat kernel below
  have managed : ∀ page ∈ bootPages (firstPage kernelEnd), Managed page := fun page member =>
    bootPages_managed (by omega) (by omega) member
  refine ⟨fun page member => managed page (List.mem_toFinset.mp member),
    List.nodup_reverse.mpr (bootPages_nodup _),
    fun page member => List.mem_toFinset.mpr (List.mem_reverse.mp member), fun page member => ?_, ?_⟩
  · -- the page of zeros, which has a reference from the start, lies before the pages of the queue
    have after := le_of_mem_bootPages (List.mem_reverse.mp member)
    have before : (firstPage kernelEnd - 4096).toNat = (firstPage kernelEnd).toNat - 4096 :=
      UInt64.toNat_sub_of_le _ _ (UInt64.le_iff_toNat_le.mpr (le_trans (by decide) first.2))
    have different : Mem.refIndex page ≠ Mem.refIndex (firstPage kernelEnd - 4096) := by
      intro same
      have equal := Mem.refIndex_inj_of_aligned (managed page (List.mem_reverse.mp member)).aligned
        (by omega) same
      rw [equal] at after
      omega
    simp only [boot, Function.update_of_ne different, le_refl]
  · have none : taken (bootPages (firstPage kernelEnd)).toFinset (boot kernelEnd word) = ∅ := by
      simp [taken, boot]
    rw [none]
    rfl

end Boot

section Account

variable {all : Finset UInt64} {m : Mem} {page : UInt64}

/-- The reference counts of other pages on the queue. -/
theorem Accounted.update_ref (accounted : Accounted all m) (inside : page ∈ all) {other : UInt64}
    (member : other ∈ m.pages) (different : other ≠ page) (value : Int) :
    Function.update m.ref (Mem.refIndex page) value (Mem.refIndex other) ≤ 0 := by
  have apart : Mem.refIndex other ≠ Mem.refIndex page := fun same =>
    different (Mem.refIndex_inj_of_aligned
      (accounted.managed other (accounted.inside other member)).aligned
      (accounted.managed page inside).aligned same)
  rw [Function.update_of_ne apart]
  exact accounted.idle other member

/-- Taking the first page of the queue. -/
theorem Accounted.kallocPage (accounted : Accounted all m) (some : m.pages ≠ []) :
    Accounted all m.kallocPage.2 ∧ Managed m.kallocPage.1 := by
  obtain ⟨page, rest, pages⟩ := List.exists_cons_of_ne_nil some
  have nodup := accounted.nodup
  have inside : page ∈ all := accounted.inside page (by simp [pages])
  rw [pages, List.nodup_cons] at nodup
  have result : m.kallocPage = (page, { m with
      pages := rest
      allocPageCnt := m.allocPageCnt + 1
      ref := Function.update m.ref (Mem.refIndex page) (m.ref (Mem.refIndex page) + 1) }) := by
    simp [Mem.kallocPage, pages]
  rw [result]
  refine ⟨⟨accounted.managed, nodup.2, fun other member => ?_, fun other member => ?_, ?_⟩,
    accounted.managed page inside⟩
  · exact accounted.inside other (by simp [pages, member])
  · have old : other ∈ m.pages := by simp [pages, member]
    exact accounted.update_ref inside old (fun same => nodup.1 (same ▸ member)) _
  · have grown : taken all { m with
        pages := rest
        allocPageCnt := m.allocPageCnt + 1
        ref := Function.update m.ref (Mem.refIndex page) (m.ref (Mem.refIndex page) + 1) } =
          insert page (taken all m) := by
      ext other
      simp only [taken, Finset.mem_insert, Finset.mem_filter, pages, List.mem_cons, not_or]
      by_cases same : other = page
      · simp [same, inside, nodup.1]
      · simp [same]
    rw [grown, Finset.card_insert_of_notMem (by simp [taken, pages]), accounted.count]
    rfl

/-- Giving a page back. -/
theorem Accounted.kfreePage (accounted : Accounted all m) (inside : page ∈ all) :
    Accounted all (m.kfreePage page) := by
  by_cases last : m.ref (Mem.refIndex page) = 1
  · -- the count reaches zero, so the page was not on the queue
    have absent : page ∉ m.pages := fun member => by
      have := accounted.idle page member
      omega
    rw [Mem.kfreePage_last last]
    refine ⟨accounted.managed, List.nodup_cons.mpr ⟨absent, accounted.nodup⟩, ?_, ?_, ?_⟩
    · intro other member
      rcases List.mem_cons.mp member with rfl | member
      · exact inside
      · exact accounted.inside other member
    · intro other member
      rcases List.mem_cons.mp member with rfl | member
      · simp
      · exact accounted.update_ref inside member (fun same => absent (same ▸ member)) _
    · have shrunk : taken all m = insert page (taken all { m with
          word := Function.update m.word page (m.pages.headD 0)
          pages := page :: m.pages
          ref := Function.update m.ref (Mem.refIndex page) 0
          allocPageCnt := m.allocPageCnt - 1 }) := by
        ext other
        simp only [taken, Finset.mem_insert, Finset.mem_filter, List.mem_cons, not_or]
        by_cases same : other = page
        · simp [same, inside, absent]
        · simp [same]
      have count := accounted.count
      rw [shrunk, Finset.card_insert_of_notMem (by simp [taken])] at count
      push_cast at count
      show m.allocPageCnt - 1 = _
      omega
  · have kept : m.kfreePage page = { m with
        ref := Function.update m.ref (Mem.refIndex page) (m.ref (Mem.refIndex page) - 1) } := by
      rw [Mem.kfreePage, Function.update_self, if_neg (by omega)]
    rw [kept]
    refine ⟨accounted.managed, accounted.nodup, accounted.inside, fun other member => ?_,
      accounted.count⟩
    by_cases same : other = page
    · subst same
      have idle := accounted.idle other member
      simp only [Function.update_self]
      omega
    · exact accounted.update_ref inside member same _

end Account

/-- There is a page on the queue whenever `kalloc_page` is called. -/
def Available (s : State) : Act → Prop
  | .kallocPage => s.mem.pages ≠ []
  | .kfreePage _ => True

instance (s : State) (act : Act) : Decidable (Available s act) := by
  cases act <;> unfold Available <;> infer_instance

/-- While `kalloc_page` is called only when there is a page on the queue, `alloc_page_cnt` is the
number of pages taken from the queue, and the reference counts used are in the array. -/
theorem pages_accounted (all : Finset UInt64) {s : State}
    (reached : (machine all).Reach Available s) :
    s.mem.allocPageCnt = (taken all s.mem).card ∧ (∀ index ∈ s.used, index < numRefpages) ∧
      (s.mem.pages = [] → s.mem.kallocPage.1 = 0) := by
  have sound : Accounted all s.mem ∧ ∀ index ∈ s.used, index < numRefpages := by
    refine reached.invariant (P := fun s => Accounted all s.mem ∧
      ∀ index ∈ s.used, index < numRefpages) ?_ ?_
    · rintro s ⟨accounted, fresh⟩
      exact ⟨accounted, by simp [fresh]⟩
    · rintro s act s' - ⟨accounted, used⟩ met stepped
      cases act with
      | kallocPage =>
        obtain rfl := Option.some.inj stepped
        obtain ⟨after, managed⟩ := accounted.kallocPage met
        exact ⟨after, List.forall_mem_cons.mpr ⟨managed.refIndex_lt, used⟩⟩
      | kfreePage page =>
        simp only [machine, step, Option.ite_none_right_eq_some, Option.some.injEq] at stepped
        obtain ⟨inside, rfl⟩ := stepped
        exact ⟨accounted.kfreePage inside,
          List.forall_mem_cons.mpr ⟨(accounted.managed page inside).refIndex_lt, used⟩⟩
  exact ⟨sound.1.count, sound.2, fun empty => by simp [Mem.kallocPage, empty]⟩

/-- An allocator with the last page of memory only. -/
def onePage : State := ⟨boot 0xffff00003effd000 fun _ => 0, []⟩

/-- Its page. -/
def lastPage : UInt64 := 0xffff00003efff000

theorem onePage_init : (machine {lastPage}).init onePage := by
  have pages : (bootPages (firstPage 0xffff00003effd000)).toFinset = {lastPage} := by decide
  exact ⟨pages ▸ boot_accounted _ (by decide) (by decide), rfl⟩

/-- The page is taken, given back and taken again: it is counted once. -/
theorem pages_accounted_onePage :
    ∃ s, (machine {lastPage}).Reach Available s ∧ s.mem.pages = [] ∧ s.mem.allocPageCnt = 1 ∧
      s.mem.allocPageCnt = (taken {lastPage} s.mem).card ∧
      (∀ index ∈ s.used, index < numRefpages) ∧ s.mem.kallocPage.1 = 0 := by
  have shown : ((machine {lastPage}).exec Available onePage
      [.kallocPage, .kfreePage lastPage, .kallocPage]).map
        (fun s => (s.mem.pages, s.mem.allocPageCnt)) = some ([], 1) := by decide +kernel
  obtain ⟨s, reached, observed⟩ := Machine.Reach.exec_map onePage_init shown
  obtain ⟨empty, count⟩ := Prod.mk.inj observed
  obtain ⟨accounted, used, null⟩ := pages_accounted _ reached
  exact ⟨s, reached, empty, count, accounted, used, null empty⟩

/-- When the page is taken, `kalloc_page` returns `NULL`, and counts a page that nobody took and a
reference that is not in the array. -/
theorem kallocPage_counts_null :
    ∃ s s', (machine {lastPage}).Reach Machine.Any s ∧ s.mem.pages = [] ∧
      (machine {lastPage}).step s .kallocPage = some s' ∧ s.mem.kallocPage.1 = 0 ∧
      s'.mem.allocPageCnt = s.mem.allocPageCnt + 1 ∧
      s'.mem.allocPageCnt ≠ (taken {lastPage} s'.mem).card ∧
      ∃ index ∈ s'.used, numRefpages ≤ index ∧ s'.mem.ref index = s.mem.ref index + 1 := by
  have first : (machine {lastPage}).step onePage .kallocPage =
      some ⟨onePage.mem.kallocPage.2, [Mem.refIndex lastPage]⟩ := rfl
  exact ⟨_, _, .step (.start onePage_init) trivial first, by decide, rfl, by decide, by decide,
    by decide, Mem.refIndex 0, by decide, by decide, by decide⟩

end OsLab.Kernel.PageAllocator
