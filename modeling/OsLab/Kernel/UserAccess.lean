import OsLab.Kernel.UserMemory
import Mathlib.Data.Fintype.EquivFin

/-!
# Access to the memory of a process

How the kernel reaches into the memory of a process: `copyout` of `src/kernel/pt.c` writes a range
of any page table, and `user_writeable` of `src/kernel/syscall.c` is asked before a system call
writes to a buffer of the process that made it.
-/
namespace OsLab.Kernel.Pt

open OsLab.Lib OsLab.Aarch64 OsLab.Kernel.Paging OsLab.Kernel.Vm

/-! ## Page tables without a root -/

/-- The entry for an address; a page table whose root is `NULL` has none. -/
def State.pte (s : State) (va : UInt64) : Option UInt64 := if s.pt = 0 then none else s.entry va

/-- The page of memory that an address is mapped to. -/
def State.mapping (s : State) (va : UInt64) : Option UInt64 := (s.pte va).bind mappedPage

/-- The byte at an address, if it is mapped. -/
def State.byteAt (s : State) (a : Nat) : Option UInt8 :=
  (s.mapping (UInt64.ofNat a)).map fun page => (pageBytes s.mem.word page).get (a % 4096)

section Rooted

variable {s : State}

/-- The root is there. -/
theorem Tables.pt_ne_zero (tables : Tables s) : s.pt ≠ 0 :=
  (tables.kernel s.pt (tables.tree.inUse [] s.pt (by simp) rfl)).ne_zero

/-- With a root the entries are those in the tables. -/
theorem Tables.pte_eq (tables : Tables s) : s.pte = s.entry := by
  funext va
  rw [State.pte, if_neg tables.pt_ne_zero]

/-- With a root the pages are those in the tables. -/
theorem Tables.mapping_eq (tables : Tables s) : s.mapping = s.frame := by
  funext va
  rw [State.mapping, tables.pte_eq, State.frame]

/-- With a root the bytes are those of the pages. -/
theorem Tables.byteAt_eq (tables : Tables s) : s.byteAt = s.view := by
  funext a
  rw [State.byteAt, tables.mapping_eq, State.view]

/-- Without a root there are no entries. -/
theorem pte_unrooted (unrooted : s.pt = 0) (va : UInt64) : s.pte va = none := if_pos unrooted

/-- Without a root nothing is mapped. -/
theorem mapping_unrooted (unrooted : s.pt = 0) (va : UInt64) : s.mapping va = none := by
  rw [State.mapping, pte_unrooted unrooted, Option.bind_none]

/-- Without a root there are no bytes. -/
theorem byteAt_unrooted (unrooted : s.pt = 0) (a : Nat) : s.byteAt a = none := by
  rw [State.byteAt, mapping_unrooted unrooted, Option.map_none]

/-- `get_pte` makes the root as `init_pgdir` does. -/
theorem getPte_unrooted (mem : Mem) (va : UInt64) :
    getPte ⟨mem, 0, []⟩ va true = (initPgdir mem).bind fun s => getPte s va true := by
  rw [getPte, rootTable, if_pos rfl, if_pos rfl, initPgdir]
  cases made : kkalloc ⟨mem, 0, []⟩ with
  | none => rfl
  | some result =>
    obtain ⟨page, s⟩ := result
    have nonzero : page ≠ 0 := by
      simp only [kkalloc, Option.ite_none_left_eq_some, Option.some.injEq, Prod.mk.injEq] at made
      exact made.2.1 ▸ made.1
    rw [Option.map_some, Option.map_some, Option.bind_some, getPte, rootTable, if_neg nonzero]

/-- `copyout` makes the root if there is anything to copy. -/
theorem copyoutLoop_unrooted (source : UInt64 → UInt8) (mem : Mem) {turns : Nat}
    {va done len : UInt64} (nonempty : len ≠ 0) :
    Vm.copyoutLoop source (turns + 1) va done len ⟨mem, 0, []⟩ =
      (initPgdir mem).bind (Vm.copyoutLoop source (turns + 1) va done len) := by
  have page : Vm.copyoutPage ⟨mem, 0, []⟩ va = (initPgdir mem).bind (Vm.copyoutPage · va) := by
    rw [Vm.copyoutPage, getPte_unrooted, Option.bind_assoc]
    rfl
  rw [Vm.copyoutLoop, if_neg nonempty, page, Option.bind_assoc]
  refine congrArg _ (funext fun s => ?_)
  rw [Vm.copyoutLoop, if_neg nonempty]

end Rooted

/-! ## `copyout` -/

/-- A page table: it has no root yet, or its tables form a tree. The pages that `kalloc_page`
returns are not in use, no table is mapped, and what is mapped in a range is mapped nowhere else. -/
structure Exclusive (s : State) (lo hi : Nat) : Prop where
  tables : s.pt = 0 ∧ s.tables = [] ∨ Tables s
  fresh : Fresh s
  frames : ∀ va page, s.mapping va = some page → page ∉ s.tables ∧ page ∉ s.mem.pages
  apart : ∀ va va' page, Overlaps lo hi va → s.mapping va = some page →
    s.mapping va' = some page → SamePage va va'

/-- With a root this is an address space made out of the pages that there are. -/
theorem Exclusive.mapped {s : State} {lo hi : Nat} (exclusive : Exclusive s lo hi)
    (tables : Tables s) : ∃ pool, Mapped (Overlaps lo hi) pool s := by
  have finite : Finite UInt64 :=
    Finite.of_injective UInt64.toFin fun _ _ same => UInt64.toFin_inj.mp same
  have words := Fintype.ofFinite UInt64
  have every : ∀ page, page ∈ (Finset.univ : Finset UInt64).toList := by simp
  obtain ⟨-, fresh, frames, apart⟩ := exclusive
  rw [tables.mapping_eq] at frames apart
  exact ⟨_, tables, fresh, fun page _ => every page, fun page _ => every page,
    fun va page found => ⟨every page, frames va page found⟩, apart⟩

section Copyout

variable {s : State} {va len : UInt64}

/-- What `copyout` leaves: the range has been written, and what there was besides is there. -/
structure CopiedOut (s s' : State) (va len : UInt64) (source : UInt64 → UInt8) : Prop where
  bytes : ∀ i, i < len → s'.byteAt (va + i).toNat = some (source i)
  pages : ∀ va', Overlaps va.toNat (va.toNat + len.toNat) va' → s'.mapping va' ≠ none
  others : ∀ a, a < 2 ^ 48 → ¬ (va.toNat ≤ a ∧ a < va.toNat + len.toNat) → s.byteAt a ≠ none →
    s'.byteAt a = s.byteAt a
  /-- Entries that were valid, and entries of other pages. -/
  entries : ∀ va' value, s.pte va' = some value →
    value &&& pteValid ≠ 0 ∨ ¬ Overlaps va.toNat (va.toNat + len.toNat) va' →
    s'.pte va' = some value
  mappings : ∀ va', ¬ Overlaps va.toNat (va.toNat + len.toNat) va' →
    s'.mapping va' = s.mapping va'

/-- A copy into an address space with a root. -/
theorem Copied.copiedOut {lone : UInt64 → Prop} {pool : List UInt64} {s' : State}
    {source : UInt64 → UInt8} (tables : Tables s) (top : va.toNat + len.toNat ≤ 2 ^ 48)
    (copied : Copied lone pool s s' va.toNat (va.toNat + len.toNat)
      fun a => source (UInt64.ofNat (a - va.toNat))) : CopiedOut s s' va len source := by
  have tables' := copied.mapped.tables
  refine ⟨fun i inside => ?_, fun va' ⟨a, low, high, close⟩ => ?_, ?_, ?_, ?_⟩
  · rw [UInt64.lt_iff_toNat_lt] at inside
    have place : (va + i).toNat = va.toNat + i.toNat := by
      rw [UInt64.toNat_add]
      omega
    rw [tables'.byteAt_eq, place, copied.inside _ (by omega) (by omega), Nat.add_sub_cancel_left,
      UInt64.ofNat_toNat]
  · rw [tables'.mapping_eq, frame_congr close]
    obtain ⟨page, found⟩ := frame_of_view (copied.inside a low high)
    rw [found]
    simp
  · rw [tables'.byteAt_eq, tables.byteAt_eq]
    exact copied.outside
  · rw [tables'.pte_eq, tables.pte_eq]
    exact copied.filled.kept
  · rw [tables'.mapping_eq, tables.mapping_eq]
    exact fun va' => copied.filled.frame

/-- `copyout` of a range below `USERTOP` returns zero and writes that range, in every page table in
which what is mapped in the range is mapped nowhere else and no table is mapped, as long as
`kalloc_page` returns pages that are not in use. -/
theorem copyout_writes_range (exclusive : Exclusive s va.toNat (va.toNat + len.toNat))
    (source : UInt64 → UInt8) (top : va.toNat + len.toNat ≤ usertop.toNat)
    (enough : 4 * pagesFor va.toNat len.toNat + 1 ≤ s.mem.pages.length) :
    ∃ s', Vm.copyout s va source len = some (true, s') ∧ CopiedOut s s' va len source := by
  change va.toNat + len.toNat ≤ 2 ^ 48 at top
  have alone : ∀ a, va.toNat ≤ a → a < va.toNat + len.toNat →
      Overlaps va.toNat (va.toNat + len.toNat) (UInt64.ofNat a) :=
    fun a low high => ⟨a, low, high, .refl _⟩
  rcases exclusive.tables with ⟨unrooted, none⟩ | tables
  · by_cases empty : len = 0
    · subst empty
      refine ⟨s, by rw [copyout_eq source top]; rfl, fun i inside => ?_, fun va' ⟨a, low, high, _⟩ =>
        ?_, fun _ _ _ _ => rfl, fun _ _ shown _ => shown, fun _ _ => rfl⟩
      · exact absurd inside (by rw [UInt64.lt_iff_toNat_lt]; exact Nat.not_lt_zero _)
      · change a < va.toNat + 0 at high
        omega
    · obtain ⟨mem, pt, own⟩ := s
      obtain rfl : pt = 0 := unrooted
      obtain rfl : own = [] := none
      have fresh := exclusive.fresh
      cases more : mem.pages with
      | nil =>
        rw [more] at enough
        exact absurd enough (by simp)
      | cons page rest =>
        obtain ⟨s₀, made, mapped, nothing, pages, -⟩ :=
          Mapped.initPgdir _ more fresh.kernel fresh.nodup
        rw [more, List.length_cons] at enough
        obtain ⟨s', ran, copied, -⟩ := mapped.copyout va source len top alone
          (by rw [pages]; omega)
        have rooted := Copied.copiedOut mapped.tables top copied
        have turn : len.toNat ≠ 0 := fun zero => empty (UInt64.toNat_inj.mp zero)
        obtain ⟨turns, many⟩ := Nat.exists_eq_succ_of_ne_zero turn
        refine ⟨s', ?_, rooted.bytes, rooted.pages, fun a _ _ shown => ?_, fun va' value shown _ => ?_,
          fun va' apart => ?_⟩
        · rw [copyout_eq source top] at ran ⊢
          rw [many] at ran ⊢
          rw [copyoutLoop_unrooted source mem empty, made, Option.bind_some, ran]
        · exact absurd (byteAt_unrooted rfl a) shown
        · exact absurd (pte_unrooted rfl va') (by rw [shown]; simp)
        · rw [rooted.mappings va' apart, mapped.tables.mapping_eq, nothing, mapping_unrooted rfl]
  · obtain ⟨pool, mapped⟩ := exclusive.mapped tables
    obtain ⟨s', ran, copied, -⟩ := mapped.copyout va source len top alone (by omega)
    exact ⟨s', ran, copied.copiedOut tables top⟩

end Copyout

/-- Memory full of zeros with nine free pages. -/
def nineFreePages : Mem where
  word _ := 0
  pages := (List.range 9).map fun i => 0xffff000000201000 + 4096 * UInt64.ofNat i
  ref _ := 0
  allocPageCnt := 0
  pagenum := 9

/-- Four bytes are copied across the end of a page, to a page table that has no root yet. -/
theorem copyout_writes_range_across : ∃ s',
    Vm.copyout ⟨nineFreePages, 0, []⟩ 0x1ffe (fun i => 7 + i.toUInt8) 4 = some (true, s') ∧
    s'.byteAt 0x1ffe = some 7 ∧ s'.byteAt 0x2001 = some 10 ∧ s'.mapping 0x3000 = none := by
  have nothing : ∀ va, (⟨nineFreePages, 0, []⟩ : State).mapping va = none := mapping_unrooted rfl
  have exclusive : ∀ lo hi, Exclusive ⟨nineFreePages, 0, []⟩ lo hi := by
    refine fun lo hi => ⟨.inl ⟨rfl, rfl⟩, by decide +kernel, fun va page found => ?_,
      fun va va' page _ found => ?_⟩
    all_goals
      rw [nothing] at found
      exact absurd found (by simp)
  obtain ⟨s', ran, copied⟩ := copyout_writes_range (exclusive _ _) (fun i => 7 + i.toUInt8)
    (show (0x1ffe : UInt64).toNat + (4 : UInt64).toNat ≤ usertop.toNat by decide) (by decide)
  refine ⟨s', ran, copied.bytes 0 (by decide), copied.bytes 3 (by decide), ?_⟩
  refine (copied.mappings 0x3000 fun ⟨a, low, high, close⟩ => ?_).trans (nothing _)
  change 0x1ffe ≤ a at low
  change a < 0x1ffe + 4 at high
  rw [samePage_iff, UInt64.toNat_ofNat_of_lt' (show a < 2 ^ 64 by omega)] at close
  change 0x3000 / 2 ^ 12 % 2 ^ 36 = _ at close
  omega

/-- A page that is mapped at two addresses: a byte copied to one of them is copied to the other,
outside the range. -/
theorem copyout_reaches_alias : ∃ run s', machine.Reach NotInUse run ∧ run.pgdir.mem.pages = [] ∧
    (∀ va page, run.pgdir.mapping va = some page → page ∉ run.pgdir.tables) ∧
    Vm.copyout run.pgdir 0x1000 (fun _ => 65) 1 = some (true, s') ∧
    run.pgdir.byteAt 0x2000 = some 5 ∧ s'.byteAt 0x2000 = some 65 := by
  obtain ⟨pgdir, made⟩ : ∃ pgdir, initPgdir oneFreePage = some pgdir := ⟨_, rfl⟩
  have initial : machine.init ⟨pgdir, [], []⟩ :=
    ⟨oneFreePage, _, _, rfl, by decide, made, rfl, rfl⟩
  have shown : (machine.exec NotInUse ⟨pgdir, [], []⟩
      [.get 0x1000 true [0xffff000000202000, 0xffff000000203000, 0xffff000000204000],
        .store 0xffff000000204008 0x205647, .get 0x2000 true [],
        .store 0xffff000000204010 0x205647]).map (fun run =>
        ((run.pgdir.mem.pages, run.pgdir.tables, run.stored), run.pgdir.byteAt 0x2000,
          (Vm.copyout run.pgdir 0x1000 (fun _ => 65) 1).map fun ran =>
            decide (ran.1 = true ∧ ran.2.byteAt 0x2000 = some 65))) =
      some (([], [0xffff000000204000, 0xffff000000203000, 0xffff000000202000, 0xffff000000201000],
        [(0xffff000000204010, 0x205647), (0xffff000000204008, 0x205647)]), some 5,
        some true) := by
    obtain rfl := Option.some.inj made
    decide +kernel
  obtain ⟨run, reached, observed⟩ := Machine.Reach.exec_map initial shown
  simp only [Prod.mk.injEq, Option.map_eq_some_iff, Prod.exists, decide_eq_true_eq] at observed
  obtain ⟨⟨pages, tables, stored⟩, before, ok, s', ran, rfl, after⟩ := observed
  have located : Located run := reached.invariant (P := Located)
    (fun run initial => Located.init initial)
    (fun run act run' _ located met taken => located.step met taken)
  refine ⟨run, s', reached, pages, fun va page found => ?_, ran, before, after⟩
  -- Entries are zero or name the page that was stored.
  rw [located.tables.mapping_eq] at found
  obtain ⟨value, entry, mapped⟩ := Option.bind_eq_some_iff.mp found
  rw [State.entry, Option.map_eq_some_iff] at entry
  obtain ⟨pointer, there, rfl⟩ := entry
  obtain ⟨valid, rfl⟩ := mappedPage_some mapped
  rw [located.values va pointer there, stored, lastStored_cons, lastStored_cons] at valid ⊢
  rw [tables]
  split at valid
  next here =>
    rw [if_pos here]
    decide
  next elsewhere =>
    rw [if_neg elsewhere]
    split at valid
    next here =>
      rw [if_pos here]
      decide
    next => exact absurd (show (0 : UInt64) &&& pteValid = 0 by decide) valid

end OsLab.Kernel.Pt

/-! ## `user_writeable` -/

namespace OsLab.Kernel.Paging

open OsLab.Lib OsLab.Aarch64 OsLab.Kernel.Pt

/-- The page of an address is mapped for the process, which may write to it. -/
def MayWrite (s : State) (a : Nat) : Prop :=
  ∃ value, s.pgdir.entry (UInt64.ofNat a) = some value ∧ value &&& pteValid ≠ 0 ∧
    value &&& pteUser ≠ 0 ∧ value &&& pteRo = 0

/-- The address is in the heap, which was not swapped out, and there is a page to be had for it. -/
structure Fillable (s : State) (a : Nat) : Prop where
  heap : s.sec.begin.toNat ≤ a ∧ a < s.sec.limit.toNat
  present : s.sec.flags &&& stSwap = 0
  left : reversedPages < s.pgdir.mem.leftPageCnt
  page : ∃ page rest, s.pgdir.mem.pages = page :: rest ∧ KernelPage page

section UserWriteable

variable {s : Pt.State} {i limit : UInt64} {rounds : Nat}

end UserWriteable

section Check

variable {s : State} {a : Nat} {start size : UInt64} {rounds : Nat}

/-- The fault handler gives a page to an address of the heap that has an empty entry. -/
theorem Fillable.pgfault (fillable : Fillable s a) (tables : Tables s.pgdir)
    (empty : s.pgdir.entry (UInt64.ofNat a) = some 0) :
    ∃ s', Paging.pgfault s (UInt64.ofNat a) = some s' ∧ MayWrite s' a := by
  obtain ⟨page, rest, more, kernel⟩ := fillable.page
  have entry := empty
  rw [State.entry, Option.map_eq_some_iff] at entry
  obtain ⟨pte, located, zero⟩ := entry
  have got := tables.getPte_located located true
  have taken : (allocPageForUser s.pgdir.mem).1 = page := by
    rw [allocPageForUser, if_neg (Nat.not_le.mpr fillable.left)]
    simp [Mem.kallocPage, more]
  refine ⟨_, pgfault_lazy got zero fillable.present, ?_⟩
  obtain ⟨-, shown, -⟩ := tables_first (s := s) tables located rfl
  refine ⟨_, shown, ?_⟩
  rw [taken, kernel.entry_and pteUserData (by decide), kernel.entry_and pteUserData (by decide),
    kernel.entry_and pteUserData (by decide)]
  decide

/-- A range that does not wrap around is good: each of its addresses is below `USERTOP`, on a page
that the process may write to, or on a page of the heap that `pgfault` makes one. -/
def Good (s : State) (start size : UInt64) : Prop :=
  (start + size).toNat = start.toNat + size.toNat ∧
  ∀ a, start.toNat ≤ a → a < start.toNat + size.toNat → a < usertop.toNat ∧
    (MayWrite s a ∨ Fillable s a ∧ ∃ s', Paging.pgfault s (UInt64.ofNat a) = some s' ∧ MayWrite s' a)

end Check

end OsLab.Kernel.Paging
