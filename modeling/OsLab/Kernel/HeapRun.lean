import OsLab.Kernel.AddressSpace
import OsLab.Kernel.Lifetime

/-!
# Runs of a heap

`sbrk`, page faults, `swapout` and `swapin` of `src/kernel/paging.c` on the heap section of one
process, in any order. `sbrk` adds its argument to the end without a check, so that the bounds are
kept by callers that do not ask for more than there is; and the frames and slots of the heap are
accounted for as long as `swapout` finds no entry, since it gives no frame back.
-/
namespace OsLab.Kernel.HeapRun

open OsLab.Lib OsLab.Aarch64 OsLab.Fs OsLab.Kernel.Paging OsLab.Kernel.HeapPages
open OsLab.Kernel.Lifetime (Books Owns heap)

/-- A process with its heap. -/
structure Heap where
  os : State
  /-- The pages that were accessed since they are part of the heap. -/
  touched : Nat → Bool

/-- What happens to the heap. -/
inductive Act where
  | sbrk (size : Int)
  /-- `pgfault` for an access to an address of the heap. -/
  | fault (va : UInt64)
  | swapout
  | swapin

/-- The number of pages of the heap. -/
def pageCount (s : State) : Nat := (s.sec.limit - s.sec.begin).toNat / 4096

/-- One step; the argument of `sbrk` is of 64 bits. -/
def Heap.step (s : Heap) : Act → Option Heap
  | .sbrk size =>
    if -2 ^ 63 ≤ size ∧ size < 2 ^ 63 then
      (Paging.sbrk s.os size).map fun (_, os) =>
        { os, touched := fun page => s.touched page && decide (page < pageCount os) }
    else none
  | .fault va =>
    if s.os.sec.begin ≤ va ∧ va < s.os.sec.limit then
      (pgfault s.os va).map fun os =>
        { os, touched := Function.update s.touched ((va - s.os.sec.begin).toNat / 4096) true }
    else none
  | .swapout => (Paging.swapout s.os).map fun os => { s with os }
  | .swapin => (Paging.swapin s.os).map fun os => { s with os }

/-! ## Bounds -/

/-- A heap as `init_sections` makes it, over any memory. -/
def anyMachine : Machine Heap Act where
  init s := s.os.sec = heap
  step := Heap.step

/-- `sbrk` is asked neither for less than nothing nor for more than `USERTOP`. -/
def Bounded (s : Heap) : Act → Prop
  | .sbrk size => -(pageCount s.os : Int) ≤ size ∧ s.os.sec.limit.toNat + size * 4096 ≤ usertop.toNat
  | _ => True

instance (s : Heap) (act : Act) : Decidable (Bounded s act) := by
  cases act <;> unfold Bounded <;> infer_instance

/-- The bounds of a heap. -/
structure InBounds (s : State) : Prop where
  begins : s.sec.begin = 0
  aligned : s.sec.limit.toNat % 4096 = 0
  below : s.sec.limit.toNat ≤ usertop.toNat

section Bounds

variable {s s' : State} {va begin : UInt64}

/-- The bounds are where they were. -/
def SameBounds (s s' : State) : Prop :=
  s'.sec.begin = s.sec.begin ∧ s'.sec.limit = s.sec.limit

/-- Going through an entry leaves to the body what is no part of the page table. -/
theorem withPte_keeps {β : Type} {body : UInt64 → UInt64 → State → Option State} (view : State → β)
    (outside : ∀ s pgdir, view { s with pgdir } = view s)
    (kept : ∀ pte value s s', body pte value s = some s' → view s' = view s)
    (ran : s.withPte va body = some s') : view s' = view s := by
  obtain ⟨⟨pte, pgdir⟩, -, ran⟩ := Option.bind_eq_some_iff.mp ran
  cases pte with
  | none =>
    rw [← Option.some.inj ran]
    exact outside s pgdir
  | some pte => exact (kept _ _ { s with pgdir } s' ran).trans (outside s pgdir)

/-- A loop over pages keeps what each of its turns keeps. -/
theorem forPages_keeps {β : Type} {body : UInt64 → State → Option State} {count : Nat}
    (view : State → β) (kept : ∀ va s s', body va s = some s' → view s' = view s)
    (ran : forPages body begin count s = some s') : view s' = view s := by
  induction count generalizing s' with
  | zero => rw [← Option.some.inj ran]
  | succ count ih =>
    obtain ⟨middle, earlier, last⟩ := Option.bind_eq_some_iff.mp ran
    exact (kept _ _ _ last).trans (ih earlier)

/-- Stores and changes of memory are changes of the page table. -/
theorem view_store {β : Type} (view : State → β)
    (outside : ∀ s pgdir, view { s with pgdir } = view s) (s : State) (mem : Mem)
    (addr value : UInt64) : view ((s.setMem mem).store addr value) = view s :=
  (outside (s.setMem mem) _).trans (outside s _)

/-- The turns of `sbrk` change the page table only. -/
theorem sbrkPage_keeps {β : Type} (view : State → β)
    (outside : ∀ s pgdir, view { s with pgdir } = view s) (ran : sbrkPage va s = some s') :
    view s' = view s := by
  unfold sbrkPage at ran
  refine withPte_keeps view outside (fun pte value s s' ran => ?_) ran
  by_cases zero : value = 0
  · rw [if_pos zero] at ran
    rw [Option.some.inj ran]
  · rw [if_neg zero, Option.some.injEq] at ran
    rw [← ran, view_store view outside]

/-- The turns of `swapin` leave the section alone. -/
theorem swapinPage_sec (ran : swapinPage va s = some s') : s'.sec = s.sec := by
  unfold swapinPage at ran
  refine withPte_keeps State.sec (fun _ _ => rfl) (fun pte value s s' ran => ?_) ran
  by_cases zero : value = 0
  · rw [if_pos zero] at ran
    rw [Option.some.inj ran]
  · rw [if_neg zero] at ran
    cases taken : allocPageForUser s.pgdir.mem with
    | mk newpage mem =>
      simp only [taken] at ran
      by_cases null : newpage = 0
      · rw [if_pos null] at ran
        exact absurd ran (by simp)
      · rw [if_neg null, Option.some.injEq] at ran
        subst ran
        exact rfl

/-- The turns of the first loop of `swapout` leave the section alone. -/
theorem swapoutMark_sec (ran : swapoutMark va s = some s') : s'.sec = s.sec := by
  refine withPte_keeps State.sec (fun _ _ => rfl) (fun pte value s s' ran => ?_) ran
  obtain rfl := Option.some.inj ran
  split <;> rfl

/-- The turns of the second loop of `swapout` leave the section alone. -/
theorem swapoutWrite_sec (ran : swapoutWrite va s = some s') : s'.sec = s.sec := by
  refine withPte_keeps State.sec (fun _ _ => rfl) (fun pte value s s' ran => ?_) ran
  split at ran
  · obtain ⟨_, -, rfl⟩ := Option.map_eq_some_iff.mp ran
    rfl
  · obtain rfl := Option.some.inj ran
    rfl

/-- `swapin` leaves the bounds alone. -/
theorem swapin_bounds (ran : Paging.swapin s = some s') : SameBounds s s' := by
  simp only [Paging.swapin, Option.ite_none_left_eq_some, Option.map_eq_some_iff] at ran
  obtain ⟨-, middle, ran, rfl⟩ := ran
  have kept := forPages_keeps State.sec (fun _ _ _ => swapinPage_sec) ran
  exact ⟨by rw [← kept], by rw [← kept]⟩

/-- `swapout` puts the end back where it was. -/
theorem swapout_bounds (ran : Paging.swapout s = some s') : SameBounds s s' := by
  simp only [Paging.swapout, Option.bind_eq_some_iff, Option.map_eq_some_iff, Prod.exists] at ran
  obtain ⟨marked, mark, written, write, _, moved, grown, rfl⟩ := ran
  have first := forPages_keeps State.sec (fun _ _ _ => swapoutMark_sec) mark
  have second : written.sec = marked.sec := by
    split at write
    · exact forPages_keeps State.sec (fun _ _ _ => swapoutWrite_sec) write
    · rw [Option.some.inj write]
  rw [sbrk_of_nonneg (Int.natCast_nonneg _)] at grown
  obtain ⟨-, rfl⟩ := Prod.mk.inj (Option.some.inj grown)
  refine ⟨?_, rfl⟩
  simp only [second, first]

/-- Page faults leave the bounds alone. -/
theorem pgfault_bounds (ran : pgfault s va = some s') : SameBounds s s' := by
  simp only [pgfault, Option.bind_eq_some_iff, Prod.exists] at ran
  obtain ⟨result, pgdir, -, pte, -, ran⟩ := ran
  split at ran
  · split at ran
    · exact @swapin_bounds { s with pgdir } s' ran
    · obtain rfl := Option.some.inj ran
      exact ⟨rfl, rfl⟩
  · split at ran
    · simp only [copyOnWrite] at ran
      split at ran
      · exact absurd ran (by simp)
      · split at ran
        · obtain rfl := Option.some.inj ran
          exact ⟨rfl, rfl⟩
        · exact absurd ran (by simp)
    · split at ran
      · exact @swapin_bounds { s with pgdir } s' ran
      · obtain rfl := Option.some.inj ran
        exact ⟨rfl, rfl⟩

/-- Page faults on a heap that is not swapped out leave the slots alone. -/
theorem pgfault_inuse (plain : s.sec.flags &&& stSwap = 0) (ran : pgfault s va = some s') :
    s'.inuse = s.inuse := by
  simp only [pgfault, plain, ne_eq, not_true_eq_false, and_false, if_false,
    Option.bind_eq_some_iff, Prod.exists] at ran
  obtain ⟨result, pgdir, -, pte, -, ran⟩ := ran
  split at ran
  · obtain rfl := Option.some.inj ran
    rfl
  · split at ran
    · simp only [copyOnWrite] at ran
      split at ran
      · exact absurd ran (by simp)
      · split at ran
        · obtain rfl := Option.some.inj ran
          rfl
        · exact absurd ran (by simp)
    · obtain rfl := Option.some.inj ran
      rfl

/-- `get_pte` without `alloc` always returns, and changes nothing. -/
theorem getPte_false_total (pgdir : Pt.State) (va : UInt64) :
    ∃ result, Pt.getPte pgdir va false = some (result, pgdir) := by
  have next : ∀ part table, ∃ result,
      Pt.nextTable part false table pgdir = some (result, pgdir) := by
    intro part table
    rw [Pt.nextTable]
    split
    · exact ⟨_, rfl⟩
    · exact ⟨_, rfl⟩
  have andThen : ∀ {first : Pt.Result} {rest : UInt64 → Pt.State → Pt.Result},
      (∃ result, first = some (result, pgdir)) →
      (∀ table, ∃ result, rest table pgdir = some (result, pgdir)) →
      ∃ result, first.andThen rest = some (result, pgdir) := by
    rintro first rest ⟨result, rfl⟩ later
    cases result with
    | none => exact ⟨none, rfl⟩
    | some table => exact later table
  refine andThen ?_ fun p0 => andThen (next _ p0) fun p1 => andThen (next _ p1) fun p2 =>
    andThen (next _ p2) fun p3 => ⟨_, rfl⟩
  rw [Pt.rootTable]
  split
  · exact ⟨_, rfl⟩
  · exact ⟨_, rfl⟩

/-- The turn of the loop in `sbrk` always ends. -/
theorem sbrkPage_total (va : UInt64) (s : State) : ∃ s', sbrkPage va s = some s' := by
  obtain ⟨result, got⟩ := getPte_false_total s.pgdir va
  rw [sbrkPage, State.withPte, got, Option.bind_some]
  cases result with
  | none => exact ⟨_, rfl⟩
  | some pte =>
    simp only
    split
    · exact ⟨_, rfl⟩
    · exact ⟨_, rfl⟩

/-- The loop in `sbrk` always ends. -/
theorem sbrkPages_total (begin : UInt64) (count : Nat) (s : State) :
    ∃ s', forPages sbrkPage begin count s = some s' := by
  induction count with
  | zero => exact ⟨s, rfl⟩
  | succ count ih =>
    obtain ⟨middle, earlier⟩ := ih
    rw [forPages, earlier]
    exact sbrkPage_total _ middle

/-- A loop over pages is the list of its turns. -/
theorem forPages_eq_foldlM (body : UInt64 → State → Option State) (count : Nat) :
    forPages body begin count s =
      ((List.range count).map (begin + 4096 * UInt64.ofNat ·)).foldlM (fun s va => body va s) s := by
  induction count with
  | zero => rfl
  | succ count ih =>
    rw [forPages, ih, List.range_succ, List.map_append, List.foldlM_append]
    simp only [List.map_cons, List.map_nil, List.foldlM_cons, List.foldlM_nil]
    congr 1
    funext s
    exact (bind_pure _).symm

/-- The number of pages of a heap that starts at 0. -/
theorem InBounds.pageCount (bounds : InBounds s) :
    4096 * HeapRun.pageCount s = s.sec.limit.toNat := by
  have aligned := bounds.aligned
  rw [HeapRun.pageCount, bounds.begins, UInt64.sub_zero]
  omega

/-- The loops of `swapout` and `swapin` go through the pages of the heap. -/
theorem InBounds.turns (bounds : InBounds s) :
    Paging.turns s.sec.begin s.sec.limit = HeapRun.pageCount s := by
  have count := bounds.pageCount
  rw [Paging.turns, bounds.begins, UInt64.sub_zero]
  split
  · omega
  · rename_i empty
    rw [UInt64.lt_iff_toNat_lt] at empty
    change ¬ 0 < _ at empty
    omega

/-- `swapout` of a heap without entries only sets the flag. -/
theorem swapout_absent (tables : Pt.Tables s.pgdir)
    (absent : ∀ i < turns s.sec.begin s.sec.limit, s.pgdir.entry (pageAddr s.sec.begin i) = none) :
    Paging.swapout s = some { s with sec := { s.sec with flags := s.sec.flags ||| stSwap } } := by
  let flagged : State := { s with sec := { s.sec with flags := s.sec.flags ||| stSwap } }
  let count := turns s.sec.begin s.sec.limit
  have mark : forPages swapoutMark s.sec.begin count flagged = some flagged :=
    forPages_same fun i below => State.withPte_absent (s := flagged) tables (absent i below) _
  have write : (if flagged.sec.flags &&& stFile = 0 then
      forPages swapoutWrite s.sec.begin count flagged else some flagged) = some flagged := by
    split
    · exact forPages_same fun i below =>
        State.withPte_absent (s := flagged) tables (absent i below) _
    · rfl
  rw [Paging.swapout]
  change (forPages swapoutMark s.sec.begin count flagged).bind _ = _
  rw [mark, Option.bind_some]
  change Option.bind (if flagged.sec.flags &&& stFile = 0 then _ else _) _ = _
  rw [write, Option.bind_some, sbrk_of_nonneg (Int.natCast_nonneg _)]
  rfl

/-- The end after `sbrk` within bounds. -/
theorem InBounds.limit (bounds : InBounds s) {size : Int}
    (enough : -(HeapRun.pageCount s : Int) ≤ size)
    (top : s.sec.limit.toNat + size * 4096 ≤ usertop.toNat) :
    ((s.sec.limit + UInt64.ofInt (size * 4096)).toNat : Int) = s.sec.limit.toNat + size * 4096 := by
  have count := bounds.pageCount
  have most : usertop.toNat = 2 ^ 48 := rfl
  have narrow : (size * 4096 % 2 ^ 64).toNat < 2 ^ 64 := by omega
  rw [UInt64.toNat_add, UInt64.ofInt, UInt64.toNat_ofNat_of_lt' narrow]
  omega

/-- The bounds after `sbrk` within bounds. -/
theorem InBounds.sbrk (bounds : InBounds s) {size : Int} {old : UInt64}
    (enough : -(HeapRun.pageCount s : Int) ≤ size)
    (top : s.sec.limit.toNat + size * 4096 ≤ usertop.toNat)
    (ran : Paging.sbrk s size = some (old, s')) : InBounds s' := by
  simp only [Paging.sbrk, Option.map_eq_some_iff, Prod.mk.injEq] at ran
  obtain ⟨_, ran, -, rfl⟩ := ran
  have kept := forPages_keeps State.sec (fun _ _ _ => sbrkPage_keeps State.sec fun _ _ => rfl) ran
  have limit := bounds.limit enough top
  have aligned := bounds.aligned
  refine ⟨by rw [kept]; exact bounds.begins, ?_, ?_⟩ <;> rw [kept]
  · change (s.sec.limit + UInt64.ofInt (size * 4096)).toNat % 4096 = 0
    omega
  · change (s.sec.limit + UInt64.ofInt (size * 4096)).toNat ≤ _
    omega

/-- What keeps the bounds of a heap where they are keeps it within bounds. -/
theorem InBounds.congr (bounds : InBounds s) (same : SameBounds s s') : InBounds s' := by
  refine ⟨same.1.trans bounds.begins, ?_, ?_⟩ <;> rw [same.2]
  · exact bounds.aligned
  · exact bounds.below

/-- `sbrk` within bounds goes through pages of the heap only. -/
theorem InBounds.visited (bounds : InBounds s) {size : Int}
    (enough : -(HeapRun.pageCount s : Int) ≤ size)
    (top : s.sec.limit.toNat + size * 4096 ≤ usertop.toNat) {i : Nat} (inside : i < (-size).toNat) :
    (s.sec.limit + UInt64.ofInt (size * 4096) + 4096 * UInt64.ofNat i).toNat =
        s.sec.limit.toNat - 4096 * ((-size).toNat - i) ∧
      4096 * ((-size).toNat - i) ≤ s.sec.limit.toNat := by
  have limit := bounds.limit enough top
  have count := bounds.pageCount
  have below := bounds.below
  have most : usertop.toNat = 2 ^ 48 := rfl
  have narrow : i < 2 ^ 64 := by omega
  rw [UInt64.toNat_add, UInt64.toNat_mul, UInt64.toNat_ofNat_of_lt' narrow]
  change (_ + 4096 * i % 2 ^ 64) % 2 ^ 64 = _ ∧ _
  omega

end Bounds

/-- Each step within bounds. -/
theorem InBounds.step {s s' : Heap} {act : Act} (bounds : InBounds s.os) (met : Bounded s act)
    (taken : s.step act = some s') : InBounds s'.os := by
  cases act with
  | sbrk size =>
    simp only [Heap.step, Option.ite_none_right_eq_some, Option.map_eq_some_iff, Prod.exists]
      at taken
    obtain ⟨-, old, os, ran, rfl⟩ := taken
    exact bounds.sbrk met.1 met.2 ran
  | fault va =>
    simp only [Heap.step, Option.ite_none_right_eq_some, Option.map_eq_some_iff] at taken
    obtain ⟨-, os, ran, rfl⟩ := taken
    exact bounds.congr (pgfault_bounds ran)
  | swapout =>
    obtain ⟨os, ran, rfl⟩ := Option.map_eq_some_iff.mp taken
    exact bounds.congr (swapout_bounds ran)
  | swapin =>
    obtain ⟨os, ran, rfl⟩ := Option.map_eq_some_iff.mp taken
    exact bounds.congr (swapin_bounds ran)

/-- The bounds of the heap in every run in which `sbrk` is asked for no more than there is: the end
is that of a page in the half of the process, and `sbrk` returns the end it found, and goes through
entries of pages between the start and that end only. -/
theorem heap_within_bounds {s : Heap} (reached : anyMachine.Reach Bounded s) :
    s.os.sec.begin ≤ s.os.sec.limit ∧ s.os.sec.limit.toNat % 4096 = 0 ∧
    s.os.sec.limit ≤ usertop ∧
    ∀ size : Int, Bounded s (.sbrk size) → ∃ s' visited,
      Paging.sbrk s.os size = some (s.os.sec.limit, s') ∧
      List.foldlM (fun os va => sbrkPage va os) { s.os with sec := s'.sec } visited = some s' ∧
      ∀ va ∈ visited, s.os.sec.begin ≤ va ∧ va < s.os.sec.limit := by
  have bounds : InBounds s.os := by
    refine reached.invariant (P := fun s => InBounds s.os) (fun s initial => ?_)
      fun s act s' _ bounds met taken => bounds.step met taken
    have sec : s.os.sec = heap := initial
    exact ⟨by rw [sec]; rfl, by rw [sec]; rfl, by rw [sec]; decide⟩
  refine ⟨?_, bounds.aligned, UInt64.le_iff_toNat_le.mpr bounds.below, ?_⟩
  · rw [bounds.begins, UInt64.le_iff_toNat_le]
    exact Nat.zero_le _
  rintro size ⟨enough, top⟩
  obtain ⟨os, ran⟩ := sbrkPages_total (s.os.sec.limit + UInt64.ofInt (size * 4096)) (-size).toNat
    { s.os with sec := { s.os.sec with limit := s.os.sec.limit + UInt64.ofInt (size * 4096) } }
  have sec := forPages_keeps State.sec (fun _ _ _ => sbrkPage_keeps State.sec fun _ _ => rfl) ran
  refine ⟨os, (List.range (-size).toNat).map
    (s.os.sec.limit + UInt64.ofInt (size * 4096) + 4096 * UInt64.ofNat ·), ?_, ?_, ?_⟩
  · rw [Paging.sbrk, ran, Option.map_some]
  · rw [← forPages_eq_foldlM, sec, ran]
  · intro va member
    obtain ⟨i, inside, rfl⟩ := List.mem_map.mp member
    rw [List.mem_range] at inside
    obtain ⟨value, enough'⟩ := bounds.visited enough top inside
    rw [bounds.begins, UInt64.le_iff_toNat_le, UInt64.lt_iff_toNat_lt, value]
    refine ⟨Nat.zero_le _, ?_⟩
    omega

/-- A process without a heap yet, and without memory. -/
def noHeap : State where
  pgdir := ⟨⟨fun _ => 0, [], fun _ => 0, 0, 0⟩, 0, []⟩
  sec := heap
  zeroPage := 0
  inuse _ := false
  disk _ := Bytes.zero

/-- A heap that grows by two pages and shrinks by one. -/
theorem heap_within_bounds_grown : ∃ s, anyMachine.Reach Bounded s ∧
    s.os.sec.limit = 0x1000 ∧ s.os.sec.limit ≤ usertop := by
  have shown : (anyMachine.exec Bounded ⟨noHeap, fun _ => false⟩ [.sbrk 2, .sbrk (-1)]).map
      (fun s => s.os.sec.limit) = some 0x1000 := by
    decide +kernel
  obtain ⟨s, reached, limit⟩ := Machine.Reach.exec_map rfl shown
  exact ⟨s, reached, limit, (heap_within_bounds reached).2.2.1⟩

/-- A heap without pages that shrinks by one ends above `USERTOP`. -/
theorem heap_below_nothing : ∃ s, anyMachine.Reach Machine.Any s ∧ ¬ s.os.sec.limit ≤ usertop := by
  have shown : (anyMachine.exec Machine.Any ⟨noHeap, fun _ => false⟩ [.sbrk (-1)]).map
      (fun s => s.os.sec.limit) = some 0xfffffffffffff000 := by
    decide +kernel
  obtain ⟨s, reached, limit⟩ := Machine.Reach.exec_map rfl shown
  refine ⟨s, reached, ?_⟩
  rw [limit]
  decide

/-! ## Frames and slots -/

/-- The number of pages of the heap whose entry is valid. -/
def validPages (s : State) : Nat :=
  ((Finset.range (pageCount s)).filter fun page =>
    (s.pgdir.frame (pageAddr s.sec.begin page)).isSome).card

/-- The number of pages of the heap whose entry names a slot. -/
def swappedPages (s : State) : Nat :=
  ((Finset.range (pageCount s)).filter fun page =>
    (s.pgdir.entry (pageAddr s.sec.begin page)).getD 0 ≠ 0 ∧
      (s.pgdir.entry (pageAddr s.sec.begin page)).getD 0 &&& pteValid = 0).card

/-- The pages of memory held for the heap: neither free nor tables nor those of others. -/
def heldFrames (all others : List UInt64) (s : State) : List UInt64 :=
  all.filter fun page => page ∉ s.pgdir.mem.pages ∧ page ∉ s.pgdir.tables ∧ page ∉ others

section Accounts

variable (all others : List UInt64) (kstack : UInt64)

/-- The heap of a new process, where no slot is in use. -/
def machine : Machine Heap Act where
  init s := (∃ start, Books all start others ∧
      Lifetime.initProc start = some (s.os.pgdir, kstack)) ∧
    s.os.sec = heap ∧ (∀ k, s.os.inuse k = false) ∧ ∀ page, s.touched page = false
  step := Heap.step

/-- `sbrk` is asked for no more than there is, pages fault while there is memory, and `swapout` is
called while no page of the heap has an entry. -/
def Frugal (s : Heap) : Act → Prop
  | .sbrk size => Bounded s (.sbrk size)
  | .fault _ => reversedPages + 3 < s.os.pgdir.mem.leftPageCnt
  | .swapout => ∀ page < pageCount s.os, s.os.pgdir.entry (pageAddr s.os.sec.begin page) = none
  | .swapin => True

instance (s : Heap) (act : Act) : Decidable (Frugal s act) := by
  cases act <;> unfold Frugal <;> infer_instance

/-- Every page that is mapped is one of the heap that was accessed. -/
structure Kept (s : Heap) : Prop where
  bounds : InBounds s.os
  owned : ∃ frames, Owns all others kstack frames s.os ∧ ∀ pair ∈ frames, ∃ page,
    page < pageCount s.os ∧ s.touched page = true ∧
      SamePage pair.1 (pageAddr s.os.sec.begin page)
  slots : ∀ k, s.os.inuse k = false

end Accounts

namespace Kept

variable {all others : List UInt64} {kstack va : UInt64} {s s' : Heap} {os : State}

/-- The pages of the heap are in the half of the process. -/
theorem within (kept : Kept all others kstack s) :
    s.os.sec.begin.toNat % 4096 = 0 ∧
      s.os.sec.begin.toNat + 4096 * pageCount s.os ≤ 2 ^ 48 := by
  have below := kept.bounds.below
  have most : usertop.toNat = 2 ^ 48 := rfl
  rw [kept.bounds.begins, kept.bounds.pageCount]
  exact ⟨rfl, by rw [← most]; simpa using below⟩

/-- The page of the heap that an address is in. -/
theorem pageOf (bounds : InBounds os) (inside : va < os.sec.limit) :
    (va - os.sec.begin).toNat / 4096 < pageCount os ∧
      SamePage va (pageAddr os.sec.begin ((va - os.sec.begin).toNat / 4096)) := by
  have count := bounds.pageCount
  have below := bounds.below
  have most : usertop.toNat = 2 ^ 48 := rfl
  replace inside := UInt64.lt_iff_toNat_lt.mp inside
  have less : (va - os.sec.begin).toNat / 4096 < pageCount os := by
    rw [bounds.begins, UInt64.sub_zero]
    omega
  refine ⟨less, ?_⟩
  have within : os.sec.begin.toNat + 4096 * pageCount os ≤ 2 ^ 48 := by
    rw [bounds.begins, count]
    change 0 + _ ≤ _
    omega
  rw [samePage_iff, toNat_pageAddr within less, bounds.begins, UInt64.sub_zero]
  change _ = (0 + _) / 2 ^ 12 % 2 ^ 36
  omega

/-- `sbrk` within bounds. -/
theorem sbrk (kept : Kept all others kstack s) {size : Int} {old : UInt64}
    (met : Bounded s (.sbrk size)) (ran : Paging.sbrk s.os size = some (old, os)) :
    Kept all others kstack
      { os, touched := fun page => s.touched page && decide (page < pageCount os) } := by
  obtain ⟨enough, top⟩ := met
  have bounds := kept.bounds.sbrk enough top ran
  obtain ⟨frames, owns, inside⟩ := kept.owned
  obtain ⟨frames', owns', fewer, gone⟩ := owns.sbrk ran
  have limit : (os.sec.limit.toNat : Int) = s.os.sec.limit.toNat + size * 4096 ∧
      os.inuse = s.os.inuse := by
    simp only [Paging.sbrk, Option.map_eq_some_iff, Prod.mk.injEq] at ran
    obtain ⟨_, ran, -, rfl⟩ := ran
    have sec := forPages_keeps State.sec (fun _ _ _ => sbrkPage_keeps State.sec fun _ _ => rfl) ran
    have inuse := forPages_keeps State.inuse
      (fun _ _ _ => sbrkPage_keeps State.inuse fun _ _ => rfl) ran
    rw [sec]
    exact ⟨kept.bounds.limit enough top, inuse⟩
  have count := kept.bounds.pageCount
  have count' := bounds.pageCount
  refine ⟨bounds, ⟨frames', owns', fun pair member => ?_⟩, fun k => by rw [limit.2, kept.slots]⟩
  obtain ⟨page, less, touched, same⟩ := inside pair (fewer member)
  have stays : page < pageCount os := by
    by_contra cut
    have index : page - pageCount os < (-size).toNat := by omega
    refine gone (page - pageCount os) index pair member ?_
    refine SamePage.symm (same.trans ?_)
    have visited := (kept.bounds.visited enough top index).1
    rw [samePage_iff, toNat_pageAddr kept.within.2 less, visited, kept.bounds.begins]
    change (0 + _) / 2 ^ 12 % 2 ^ 36 = _
    omega
  refine ⟨page, stays, by simp [touched, stays], ?_⟩
  rw [kept.bounds.begins] at same
  rw [bounds.begins]
  exact same

/-- Page faults while there is memory. -/
theorem fault (kept : Kept all others kstack s) (inside : va < s.os.sec.limit)
    (left : reversedPages + 3 < s.os.pgdir.mem.leftPageCnt) (ran : pgfault s.os va = some os) :
    Kept all others kstack
      { os, touched := Function.update s.touched ((va - s.os.sec.begin).toNat / 4096) true } := by
  have same := pgfault_bounds ran
  have bounds := kept.bounds.congr same
  obtain ⟨frames, owns, covered⟩ := kept.owned
  obtain ⟨frames', owns', added⟩ := owns.pgfault left ran
  have count : pageCount os = pageCount s.os := by rw [pageCount, pageCount, same.1, same.2]
  refine ⟨bounds, ⟨frames', owns', fun pair member => ?_⟩, fun k => ?_⟩
  · rcases added pair member with member | rfl
    · obtain ⟨page, less, touched, near⟩ := covered pair member
      refine ⟨page, by rw [count]; exact less, ?_, by rw [same.1]; exact near⟩
      simp only [Function.update_apply]
      split
      · rfl
      · exact touched
    · obtain ⟨less, near⟩ := pageOf kept.bounds inside
      exact ⟨_, by rw [count]; exact less, Function.update_self .., by rw [same.1]; exact near⟩
  · by_cases swapped : s.os.sec.flags &&& stSwap ≠ 0
    · obtain rfl := owns.plain.resolve_left swapped
      rw [(owns.pgfault_swapped swapped ran).2, kept.slots]
    · rw [pgfault_inuse (not_not.mp swapped) ran, kept.slots]

/-- `swapout` of a heap without entries. -/
theorem swapout (kept : Kept all others kstack s) (met : Frugal s .swapout)
    (ran : Paging.swapout s.os = some os) : Kept all others kstack { s with os } := by
  obtain ⟨frames, owns, covered⟩ := kept.owned
  have empty : frames = [] := by
    refine List.eq_nil_iff_forall_not_mem.mpr fun pair member => ?_
    obtain ⟨page, less, -, near⟩ := covered pair member
    have listed := owns.maps.listed pair member
    rw [Pt.entry_congr near, met page less] at listed
    exact absurd listed (by simp)
  subst empty
  rw [swapout_absent owns.whole.tables (kept.bounds.turns ▸ met)] at ran
  obtain rfl := Option.some.inj ran
  exact ⟨⟨kept.bounds.begins, kept.bounds.aligned, kept.bounds.below⟩,
    ⟨[], ⟨owns.whole, owns.maps, owns.books, .inr rfl⟩, by simp⟩, kept.slots⟩

/-- `swapin`, which finds nothing to do. -/
theorem swapin (kept : Kept all others kstack s) (ran : Paging.swapin s.os = some os) :
    Kept all others kstack { s with os } := by
  obtain ⟨frames, owns, -⟩ := kept.owned
  have swapped : s.os.sec.flags &&& stSwap ≠ 0 := (Option.ite_none_left_eq_some.mp ran).1
  obtain rfl := owns.plain.resolve_left swapped
  obtain ⟨owns', inuse⟩ := owns.swapin ran
  exact ⟨kept.bounds.congr (swapin_bounds ran), ⟨[], owns', by simp⟩,
    fun k => by rw [inuse, kept.slots]⟩

/-- Each step within bounds. -/
theorem step (kept : Kept all others kstack s) {act : Act} (met : Frugal s act)
    (taken : s.step act = some s') : Kept all others kstack s' := by
  cases act with
  | sbrk size =>
    simp only [Heap.step, Option.ite_none_right_eq_some, Option.map_eq_some_iff, Prod.exists]
      at taken
    obtain ⟨-, old, os, ran, rfl⟩ := taken
    exact kept.sbrk met ran
  | fault va =>
    simp only [Heap.step, Option.ite_none_right_eq_some, Option.map_eq_some_iff] at taken
    obtain ⟨⟨-, inside⟩, os, ran, rfl⟩ := taken
    exact kept.fault inside met ran
  | swapout =>
    obtain ⟨os, ran, rfl⟩ := Option.map_eq_some_iff.mp taken
    exact kept.swapout met ran
  | swapin =>
    obtain ⟨os, ran, rfl⟩ := Option.map_eq_some_iff.mp taken
    exact kept.swapin ran

/-- Every state of a run in which no page is swapped out. -/
theorem of_reach (reached : (machine all others kstack).Reach Frugal s) :
    Kept all others kstack s := by
  refine reached.invariant (P := Kept all others kstack) ?_
    fun s act s' _ kept met taken => kept.step met taken
  rintro ⟨⟨pgdir, sec, zeroPage, inuse, disk⟩, touched⟩ ⟨⟨start, books, made⟩, rfl, slots, -⟩
  refine ⟨⟨rfl, rfl, (by decide : heap.limit.toNat ≤ usertop.toNat)⟩, ⟨[], ?_, by simp⟩, slots⟩
  exact @Owns.initProc all others ⟨⟨start, 0, []⟩, heap, zeroPage, inuse, disk⟩ pgdir kstack books
    made heap (by decide)

/-- An entry of the heap that maps a page. -/
theorem mapped {frames : List (UInt64 × UInt64)} (owns : Owns all others kstack frames os)
    {page : UInt64} (found : os.pgdir.frame va = some page) :
    ∃ pair ∈ frames, SamePage pair.1 va ∧ pair.2 = page := by
  obtain ⟨value, entry, valid⟩ := Option.bind_eq_some_iff.mp found
  have nonzero : value ≠ 0 := by
    rintro rfl
    exact (Pt.mappedPage_some valid).1 (by decide)
  obtain ⟨pair, member, same, rfl⟩ := owns.maps.mapped va value entry nonzero
  rw [Pt.mappedPage_userData (owns.frame member).1] at valid
  exact ⟨pair, member, same, Option.some.inj valid⟩

/-- The pages that are held are those that are mapped. -/
theorem mem_heldFrames {frames : List (UInt64 × UInt64)} (owns : Owns all others kstack frames os)
    (page : UInt64) :
    page ∈ heldFrames all (kstack :: others) os ↔ page ∈ frames.map Prod.snd := by
  obtain ⟨-, nodup, free⟩ := List.nodup_append.mp owns.books.apart
  obtain ⟨-, nodup', tables⟩ := List.nodup_append.mp nodup
  obtain ⟨-, -, apart⟩ := List.nodup_append.mp nodup'
  simp only [heldFrames, List.mem_filter, owns.books.mem_iff, List.mem_append,
    decide_eq_true_eq]
  constructor
  · tauto
  · intro member
    refine ⟨.inr (.inr (.inl member)), fun queued => ?_, fun table => ?_, fun other => ?_⟩
    · exact free page queued page (by simp [member]) rfl
    · exact tables page table page (by simp [member]) rfl
    · exact apart page member page other rfl

/-- No page of memory is mapped twice. -/
theorem frames_nodup {frames : List (UInt64 × UInt64)} (owns : Owns all others kstack frames os) :
    (frames.map Prod.snd).Nodup := by
  obtain ⟨-, nodup, -⟩ := List.nodup_append.mp owns.books.apart
  obtain ⟨-, nodup', -⟩ := List.nodup_append.mp nodup
  exact (List.nodup_append.mp nodup').1

/-- As many pages of memory are held as entries are valid. -/
theorem held (kept : Kept all others kstack s) :
    (heldFrames all (kstack :: others) s.os).length = validPages s.os := by
  obtain ⟨frames, owns, covered⟩ := kept.owned
  obtain ⟨aligned, within⟩ := kept.within
  have nodup := frames_nodup owns
  have unique : (heldFrames all (kstack :: others) s.os).Nodup := owns.books.nodup.filter _
  rw [← List.toFinset_card_of_nodup unique, validPages]
  refine (Finset.card_bij (fun page _ =>
    (s.os.pgdir.frame (pageAddr s.os.sec.begin page)).getD 0) ?_ ?_ ?_).symm
  · intro page member
    obtain ⟨frame, found⟩ := Option.isSome_iff_exists.mp (Finset.mem_filter.mp member).2
    obtain ⟨pair, listed, -, rfl⟩ := mapped owns found
    rw [List.mem_toFinset, mem_heldFrames owns, found]
    exact List.mem_map_of_mem listed
  · intro one member other member' same
    simp only [Finset.mem_filter, Finset.mem_range, Option.isSome_iff_exists] at member member'
    obtain ⟨less, frame, found⟩ := member
    obtain ⟨less', frame', found'⟩ := member'
    obtain ⟨pair, listed, near, shown⟩ := mapped owns found
    obtain ⟨pair', listed', near', shown'⟩ := mapped owns found'
    simp only [found, found', Option.getD_some] at same
    obtain rfl := List.inj_on_of_nodup_map nodup listed listed' (by rw [shown, shown', same])
    exact samePage_pageAddr aligned within less less' (near.symm.trans near')
  · intro frame member
    rw [List.mem_toFinset, mem_heldFrames owns] at member
    obtain ⟨pair, listed, rfl⟩ := List.mem_map.mp member
    obtain ⟨page, less, -, near⟩ := covered pair listed
    have found : s.os.pgdir.frame (pageAddr s.os.sec.begin page) = some pair.2 := by
      rw [← Pt.frame_congr near, Pt.frame_of_entry (owns.maps.listed pair listed),
        Pt.mappedPage_userData (owns.frame listed).1]
    refine ⟨page, ?_, by rw [found]; rfl⟩
    simp only [Finset.mem_filter, Finset.mem_range, found, Option.isSome_some, and_true]
    exact less

/-- No page is swapped out. -/
theorem swapped (kept : Kept all others kstack s) : swappedPages s.os = 0 := by
  obtain ⟨frames, owns, -⟩ := kept.owned
  rw [swappedPages, Finset.card_eq_zero, Finset.filter_eq_empty_iff]
  rintro page - ⟨nonzero, invalid⟩
  cases entry : s.os.pgdir.entry (pageAddr s.os.sec.begin page) with
  | none => simp [entry] at nonzero
  | some value =>
    rw [entry, Option.getD_some] at nonzero invalid
    obtain ⟨pair, listed, -, rfl⟩ := owns.maps.mapped _ value entry nonzero
    rw [(owns.frame listed).1.entry_and pteUserData (by decide)] at invalid
    exact absurd invalid (by decide)

/-- No slot is in use. -/
theorem unused (kept : Kept all others kstack s) : Swap.usedSlots s.os.inuse = 0 := by
  simp [Swap.usedSlots, kept.slots]

/-- Pages that were not accessed have no entry, or one that is zero. -/
theorem untouched (kept : Kept all others kstack s) {page : Nat} (inside : page < pageCount s.os)
    (never : s.touched page = false) :
    (s.os.pgdir.entry (pageAddr s.os.sec.begin page)).getD 0 = 0 := by
  obtain ⟨frames, owns, covered⟩ := kept.owned
  obtain ⟨aligned, within⟩ := kept.within
  cases entry : s.os.pgdir.entry (pageAddr s.os.sec.begin page) with
  | none => rfl
  | some value =>
    by_contra nonzero
    obtain ⟨pair, listed, near, -⟩ := owns.maps.mapped _ value entry nonzero
    obtain ⟨page', less, touched, near'⟩ := covered pair listed
    obtain rfl := samePage_pageAddr aligned within inside less (near.symm.trans near')
    rw [never] at touched
    exact absurd touched (by decide)

end Kept

/-- The accounts of the heap in every run in which `sbrk` is asked for no more than there is, pages
fault while there is memory, and `swapout` is called while no page has an entry: the pages of memory
held are as many as the valid entries, the slots in use as many as the pages swapped out, pages that
were not accessed have neither, and an empty heap has none. -/
theorem heap_accounted {all others : List UInt64} {kstack : UInt64} {s : Heap}
    (reached : (machine all others kstack).Reach Frugal s) :
    (heldFrames all (kstack :: others) s.os).length = validPages s.os ∧
    Swap.usedSlots s.os.inuse = swappedPages s.os ∧
    (∀ page, page < pageCount s.os → s.touched page = false →
      (s.os.pgdir.entry (pageAddr s.os.sec.begin page)).getD 0 = 0) ∧
    (pageCount s.os = 0 → heldFrames all (kstack :: others) s.os = [] ∧
      Swap.usedSlots s.os.inuse = 0) := by
  have kept := Kept.of_reach reached
  refine ⟨kept.held, kept.unused.trans kept.swapped.symm, fun page => kept.untouched,
    fun empty => ⟨?_, kept.unused⟩⟩
  have none := kept.held
  rw [validPages, empty, Finset.range_zero, Finset.filter_empty, Finset.card_empty] at none
  exact List.eq_nil_iff_length_eq_zero.mpr none

/-- A new process with enough memory. -/
def newHeap : Option Heap :=
  (Lifetime.initProc memory).map fun (pgdir, _) =>
    ⟨{ emptyHeap pgdir with sec := heap }, fun _ => false⟩

/-- Runs start there. -/
theorem newHeap_init :
    ∃ s, newHeap = some s ∧ (machine memory.pages [] 0xffff000000202000).init s := by
  have shown : (Lifetime.initProc memory).map Prod.snd = some 0xffff000000202000 := by
    decide +kernel
  obtain ⟨⟨pgdir, kstack⟩, made, rfl⟩ := Option.map_eq_some_iff.mp shown
  obtain ⟨kernel, nodup⟩ := memory_pages
  have books : Books memory.pages memory [] :=
    ⟨kernel, nodup, by simp, fun _ _ => rfl, by simp, by simp [memory]⟩
  exact ⟨⟨{ emptyHeap pgdir with sec := heap }, fun _ => false⟩, by rw [newHeap, made]; rfl,
    ⟨memory, books, made⟩, rfl, fun _ => rfl, fun _ => rfl⟩

/-- A heap of two pages that is swapped out before one of them is accessed. -/
theorem heap_accounted_one : ∃ s, (machine memory.pages [] 0xffff000000202000).Reach Frugal s ∧
    pageCount s.os = 2 ∧ (heldFrames memory.pages [0xffff000000202000] s.os).length = 1 := by
  obtain ⟨start, made, initial⟩ := newHeap_init
  have shown : newHeap.bind (fun start => ((machine memory.pages [] 0xffff000000202000).exec Frugal
      start [.sbrk 2, .swapout, .fault 0x10, .fault 0x10]).map fun s =>
        (pageCount s.os, validPages s.os)) = some (2, 1) := by
    decide +kernel
  rw [made, Option.bind_some] at shown
  obtain ⟨s, reached, observed⟩ := Machine.Reach.exec_map initial shown
  obtain ⟨count, valid⟩ := Prod.mk.inj observed
  exact ⟨s, reached, count, (heap_accounted reached).1.trans valid⟩

/-- `swapout` of the one page in memory leaves as many free pages as before: the page is held, and no
entry is valid. -/
theorem swapout_keeps_frame : ∃ s s', (machine memory.pages [] 0xffff000000202000).Reach Frugal s ∧
    validPages s.os = 1 ∧ s.step .swapout = some s' ∧
    s'.os.pgdir.mem.leftPageCnt = s.os.pgdir.mem.leftPageCnt ∧ validPages s'.os = 0 ∧
    (heldFrames memory.pages [0xffff000000202000] s'.os).length = 1 := by
  obtain ⟨start, made, initial⟩ := newHeap_init
  have shown : newHeap.bind (fun start => ((machine memory.pages [] 0xffff000000202000).exec Frugal
      start [.sbrk 1, .fault 0x10]).bind fun s => (s.step .swapout).map fun s' =>
        (validPages s.os, validPages s'.os,
          decide (s'.os.pgdir.mem.leftPageCnt = s.os.pgdir.mem.leftPageCnt),
          decide (s'.os.pgdir.mem.pages = s.os.pgdir.mem.pages ∧
            s'.os.pgdir.tables = s.os.pgdir.tables))) = some (1, 0, true, true) := by
    decide +kernel
  rw [made, Option.bind_some, Option.bind_eq_some_iff] at shown
  obtain ⟨s, ran, shown⟩ := shown
  obtain ⟨s', swapped, observed⟩ := Option.map_eq_some_iff.mp shown
  simp only [Prod.mk.injEq, decide_eq_true_eq] at observed
  obtain ⟨valid, invalid, left, pages, tables⟩ := observed
  have reached := (Machine.Reach.start initial).exec ran
  have same : heldFrames memory.pages [0xffff000000202000] s'.os =
      heldFrames memory.pages [0xffff000000202000] s.os := by
    rw [heldFrames, heldFrames, pages, tables]
  exact ⟨s, s', reached, valid, swapped, left, invalid,
    by rw [same, (Kept.of_reach reached).held, valid]⟩

end OsLab.Kernel.HeapRun
