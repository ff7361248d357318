import OsLab.Lib.Transition
import OsLab.Kernel.Mem
import Mathlib.Algebra.BigOperators.Group.Finset.Piecewise
import Mathlib.Algebra.Order.BigOperators.Group.Finset
import Mathlib.Algebra.Order.Ring.Int

/-!
# A shared page given back by several CPUs

`kfree_page` of `src/kernel/mem.c`, called by several CPUs for one page as often as the page is
referred to. The decrement of the reference count, the read of the count after it, the decrement of
`alloc_page_cnt` and `add_to_queue` are a step each. The read does not see what the decrement of the
same call left but what all decrements so far have left: between the two, another CPU may bring the
count to zero, and both give the page back.
-/
namespace OsLab.Kernel.PageRelease

open OsLab.Lib OsLab.Aarch64

/-- Where a CPU stands in `kfree_page`. -/
inductive Pc where
  | idle
  /-- About to read `ref.count`. -/
  | read
  /-- About to decrement `alloc_page_cnt`. -/
  | uncount
  /-- At `add_to_queue`. -/
  | enqueue
  deriving Repr, DecidableEq

/-- Memory and the CPUs. -/
structure State (ncpu : Nat) where
  mem : Mem
  pcs : Fin ncpu → Pc
  /-- The calls that each CPU has still to make. -/
  left : Fin ncpu → Nat

namespace State

variable {ncpu : Nat} (page : UInt64) (s : State ncpu)

/-- Move a CPU. -/
def goto (cpu : Fin ncpu) (pc : Pc) : State ncpu :=
  { s with pcs := Function.update s.pcs cpu pc }

/-- `_decrement_rc(&refpage[K2P(p) / PAGE_SIZE].ref)` of the next call of a CPU. -/
def decrement (cpu : Fin ncpu) : State ncpu :=
  { s with
    mem := { s.mem with
      ref := Function.update s.mem.ref (Mem.refIndex page) (s.mem.ref (Mem.refIndex page) - 1) }
    left := Function.update s.left cpu (s.left cpu - 1) }

/-- `_decrement_rc(&alloc_page_cnt)`. -/
def uncount : State ncpu :=
  { s with mem := { s.mem with allocPageCnt := s.mem.allocPageCnt - 1 } }

/-- `add_to_queue(&pages, p)`. -/
def enqueue : State ncpu :=
  { s with
    mem := { s.mem with
      word := Function.update s.mem.word page (s.mem.pages.headD 0)
      pages := page :: s.mem.pages } }

/-- The next step of a CPU. -/
def step (cpu : Fin ncpu) : Option (State ncpu) :=
  match s.pcs cpu with
  | .idle => if 0 < s.left cpu then some ((s.decrement page cpu).goto cpu .read) else none
  | .read => some (s.goto cpu (if s.mem.ref (Mem.refIndex page) = 0 then .uncount else .idle))
  | .uncount => some (s.uncount.goto cpu .enqueue)
  | .enqueue => some ((s.enqueue page).goto cpu .idle)

/-- The calls that are still to be made. -/
def remaining : Int := ∑ cpu, (s.left cpu : Int)

/-- All calls have returned. -/
def Ended : Prop := ∀ cpu, s.pcs cpu = .idle ∧ s.left cpu = 0

instance : Decidable s.Ended := inferInstanceAs (Decidable (∀ _, _))

end State

/-- As many calls for a page in use as it is referred to. -/
def machine (ncpu : Nat) (page : UInt64) (before : Mem) : Machine (State ncpu) (Fin ncpu) where
  init s := s.mem = before ∧ (∀ cpu, s.pcs cpu = .idle) ∧
    0 < before.ref (Mem.refIndex page) ∧ before.ref (Mem.refIndex page) = s.remaining
  step := State.step page

/-- A CPU decrements the count only while no CPU is between its decrement and its read. -/
def Undisturbed {ncpu : Nat} (s : State ncpu) (cpu : Fin ncpu) : Prop :=
  s.pcs cpu = .idle → ∀ other, s.pcs other ≠ .read

instance {ncpu : Nat} (s : State ncpu) (cpu : Fin ncpu) : Decidable (Undisturbed s cpu) :=
  inferInstanceAs (Decidable (_ → _))

/-- How far the page is from being free. -/
inductive Stage {ncpu : Nat} (page : UInt64) (before : Mem) (s : State ncpu) : Prop where
  /-- There are calls to come, and no call has read zero. -/
  | shared (more : 0 < s.remaining) (count : s.mem.ref (Mem.refIndex page) = s.remaining)
      (early : ∀ cpu, s.pcs cpu = .idle ∨ s.pcs cpu = .read)
      (pages : s.mem.pages = before.pages) (counted : s.mem.allocPageCnt = before.allocPageCnt)
  /-- One CPU is in the last call. -/
  | last (cpu : Fin ncpu) (none : s.remaining = 0) (count : s.mem.ref (Mem.refIndex page) = 0)
      (busy : s.pcs cpu ≠ .idle) (others : ∀ other, other ≠ cpu → s.pcs other = .idle)
      (pages : s.mem.pages = before.pages)
      (counted : s.mem.allocPageCnt =
        if s.pcs cpu = .enqueue then before.allocPageCnt - 1 else before.allocPageCnt)
  /-- All calls have returned. -/
  | freed (none : s.remaining = 0) (idle : ∀ cpu, s.pcs cpu = .idle)
      (pages : s.mem.pages = page :: before.pages)
      (counted : s.mem.allocPageCnt = before.allocPageCnt - 1)

section Step

variable {ncpu : Nat} {page : UInt64} {before : Mem} {s : State ncpu} {cpu : Fin ncpu}

/-- A call that begins is one less to come. -/
theorem State.remaining_decrement (page : UInt64) (some : 0 < s.left cpu) :
    (s.decrement page cpu).remaining = s.remaining - 1 := by
  have others : ∑ other ∈ Finset.univ.erase cpu,
      (Function.update s.left cpu (s.left cpu - 1) other : Int) =
        ∑ other ∈ Finset.univ.erase cpu, (s.left other : Int) := by
    refine Finset.sum_congr rfl fun other member => ?_
    rw [Function.update_of_ne (Finset.ne_of_mem_erase member)]
  change ∑ other, (Function.update s.left cpu (s.left cpu - 1) other : Int) =
    ∑ other, (s.left other : Int) - 1
  rw [← Finset.sum_erase_add _ _ (Finset.mem_univ cpu), others, Function.update_self,
    ← Finset.sum_erase_add Finset.univ (fun other => (s.left other : Int)) (Finset.mem_univ cpu)]
  omega

/-- A CPU with calls to come leaves calls to come. -/
theorem State.remaining_pos (some : 0 < s.left cpu) : 0 < s.remaining :=
  Finset.sum_pos' (fun _ _ => Int.natCast_nonneg _) ⟨cpu, Finset.mem_univ cpu, by exact_mod_cast some⟩

/-- The beginning of a call. -/
theorem Stage.decrement (stage : Stage page before s) (idle : s.pcs cpu = .idle)
    (some : 0 < s.left cpu) (met : Undisturbed s cpu) :
    Stage page before ((s.decrement page cpu).goto cpu .read) := by
  have fewer : ((s.decrement page cpu).goto cpu .read).remaining = s.remaining - 1 :=
    State.remaining_decrement page some
  have more := State.remaining_pos some
  cases stage with
  | last _ none => omega
  | freed none => omega
  | shared _ count early pages counted =>
    have count' : ((s.decrement page cpu).goto cpu .read).mem.ref (Mem.refIndex page) =
        s.remaining - 1 := by
      simp [State.goto, State.decrement, count]
    by_cases one : s.remaining = 1
    · -- the guard leaves no other CPU before its read, so this call is alone
      refine .last cpu (by omega) (by omega) (by simp [State.goto]) (fun other different => ?_)
        pages (by simpa [State.goto, State.decrement] using counted)
      simp only [State.goto, Function.update_of_ne different]
      exact (early other).resolve_right (met idle other)
    · refine .shared (by omega) (by omega) (fun other => ?_) pages counted
      by_cases same : other = cpu
      · subst same
        exact .inr (Function.update_self ..)
      · simpa only [State.goto, State.decrement, Function.update_of_ne same] using early other

/-- The read of the count. -/
theorem Stage.read (stage : Stage page before s) (here : s.pcs cpu = .read) :
    Stage page before
      (s.goto cpu (if s.mem.ref (Mem.refIndex page) = 0 then .uncount else .idle)) := by
  cases stage with
  | shared more count early pages counted =>
    rw [if_neg (by omega)]
    refine .shared more count (fun other => ?_) pages counted
    by_cases same : other = cpu
    · subst same
      exact .inl (Function.update_self ..)
    · simpa only [State.goto, Function.update_of_ne same] using early other
  | last cpu' none count busy others pages counted =>
    obtain rfl : cpu = cpu' := by
      by_contra different
      simp [others cpu different] at here
    rw [if_pos count]
    refine .last cpu none count (by simp [State.goto]) (fun other different => ?_) pages ?_
    · simpa only [State.goto, Function.update_of_ne different] using others other different
    · simpa [State.goto, here] using counted
  | freed _ idle => simp [idle cpu] at here

/-- The decrement of `alloc_page_cnt`. -/
theorem Stage.uncount (stage : Stage page before s) (here : s.pcs cpu = .uncount) :
    Stage page before (s.uncount.goto cpu .enqueue) := by
  cases stage with
  | shared _ _ early => rcases early cpu with idle | read <;> simp_all
  | last cpu' none count busy others pages counted =>
    obtain rfl : cpu = cpu' := by
      by_contra different
      simp [others cpu different] at here
    refine .last cpu none count (by simp [State.goto]) (fun other different => ?_) pages ?_
    · simpa only [State.uncount, State.goto, Function.update_of_ne different] using
        others other different
    · simpa [State.uncount, State.goto, here] using counted
  | freed _ idle => simp [idle cpu] at here

/-- The page goes to the queue. -/
theorem Stage.enqueue (stage : Stage page before s) (here : s.pcs cpu = .enqueue) :
    Stage page before ((s.enqueue page).goto cpu .idle) := by
  cases stage with
  | shared _ _ early => rcases early cpu with idle | read <;> simp_all
  | last cpu' none count busy others pages counted =>
    obtain rfl : cpu = cpu' := by
      by_contra different
      simp [others cpu different] at here
    refine .freed none (fun other => ?_) (by simp [State.enqueue, State.goto, pages])
      (by simpa [State.enqueue, State.goto, here] using counted)
    by_cases same : other = cpu
    · subst same
      exact Function.update_self ..
    · simpa only [State.enqueue, State.goto, Function.update_of_ne same] using others other same
  | freed _ idle => simp [idle cpu] at here

/-- A step keeps the stage. -/
theorem Stage.step (stage : Stage page before s) {s' : State ncpu} (met : Undisturbed s cpu)
    (stepped : s.step page cpu = some s') : Stage page before s' := by
  rw [State.step] at stepped
  split at stepped
  next idle =>
    obtain ⟨some, same⟩ := Option.ite_none_right_eq_some.mp stepped
    obtain rfl := Option.some.inj same
    exact stage.decrement idle some met
  next here =>
    obtain rfl := Option.some.inj stepped
    exact stage.read here
  next here =>
    obtain rfl := Option.some.inj stepped
    exact stage.uncount here
  next here =>
    obtain rfl := Option.some.inj stepped
    exact stage.enqueue here

end Step

/-- If no CPU decrements the count between the decrement and the read of another, then the calls,
once they have all returned, have put the page on the queue once and counted it off once. -/
theorem page_freed_once (ncpu : Nat) (page : UInt64) (before : Mem) {s : State ncpu}
    (reached : (machine ncpu page before).Reach Undisturbed s) (ended : s.Ended) :
    s.mem.pages = page :: before.pages ∧ s.mem.allocPageCnt = before.allocPageCnt - 1 := by
  have stage : Stage page before s := by
    refine reached.invariant (P := Stage page before) ?_ fun s cpu s' _ stage met stepped =>
      stage.step met stepped
    rintro s ⟨rfl, idle, referred, calls⟩
    exact .shared (by omega) calls (fun cpu => .inl (idle cpu)) rfl rfl
  have none : s.remaining = 0 := Finset.sum_eq_zero fun cpu _ => by simp [(ended cpu).2]
  cases stage with
  | shared more => omega
  | last cpu _ _ busy => exact absurd (ended cpu).1 busy
  | freed _ _ pages counted => exact ⟨pages, counted⟩

/-- A page at an address, referred to twice and counted. -/
def sharedPage : Mem where
  word _ := 0
  pages := []
  ref := Function.update (fun _ => 0) (Mem.refIndex 0xffff000000100000) 2
  allocPageCnt := 1
  pagenum := 1

/-- Two CPUs that are about to give it back. -/
def twoCalls : State 2 := ⟨sharedPage, fun _ => .idle, fun _ => 1⟩

theorem twoCalls_init : (machine 2 0xffff000000100000 sharedPage).init twoCalls :=
  ⟨rfl, fun _ => rfl, by decide, by decide⟩

/-- One CPU after the other. -/
theorem page_freed_once_inTurn :
    ∃ s, (machine 2 0xffff000000100000 sharedPage).Reach Undisturbed s ∧ s.Ended ∧
      s.mem.pages = [0xffff000000100000] ∧ s.mem.allocPageCnt = 0 := by
  have shown : ((machine 2 0xffff000000100000 sharedPage).exec Undisturbed twoCalls
      [0, 0, 1, 1, 1, 1]).map (fun s => decide s.Ended) = some true := by decide +kernel
  obtain ⟨s, reached, ended⟩ := Machine.Reach.exec_map twoCalls_init shown
  have done := page_freed_once 2 0xffff000000100000 sharedPage reached (of_decide_eq_true ended)
  exact ⟨s, reached, of_decide_eq_true ended, done.1, done.2⟩

/-- Both CPUs decrement the count before either reads it, and both find it zero: the page is on the
queue twice, with a link to itself, and one page too many is counted off. -/
theorem page_freed_twice :
    ∃ s, (machine 2 0xffff000000100000 sharedPage).Reach Machine.Any s ∧ s.Ended ∧
      s.mem.pages = [0xffff000000100000, 0xffff000000100000] ∧ s.mem.allocPageCnt = -1 ∧
      s.mem.word 0xffff000000100000 = 0xffff000000100000 := by
  have shown : ((machine 2 0xffff000000100000 sharedPage).exec Machine.Any twoCalls
      [0, 1, 0, 1, 0, 0, 1, 1]).map (fun s => (decide s.Ended, s.mem.pages, s.mem.allocPageCnt,
        s.mem.word 0xffff000000100000)) =
      some (true, [0xffff000000100000, 0xffff000000100000], -1, 0xffff000000100000) := by
    decide +kernel
  obtain ⟨s, reached, observed⟩ := Machine.Reach.exec_map twoCalls_init shown
  simp only [Prod.mk.injEq, decide_eq_true_eq] at observed
  exact ⟨s, reached, observed⟩

end OsLab.Kernel.PageRelease
