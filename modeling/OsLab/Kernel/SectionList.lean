import OsLab.Common.List
import OsLab.Lib.Transition

/-!
# Lists of sections

The list of the sections of a process has its head inside of `struct pgdir`, and the nodes of the
list point to it there. `init_pgdir` of `src/kernel/pt.c` makes the list in place. `fork` and
`execve` make the list of a `struct pgdir` elsewhere and then assign the whole structure, by which
the new head leads into the list, but the list leads back to the old head. An `execve` that fails
puts back what it had saved, at the place where it was.
-/
namespace OsLab.Kernel.SectionList

open OsLab.Lib OsLab.Common

/-! ## The functions -/

/-- `init_sections`, with the node of the section that it allocates. -/
def initSections (l : Links) (head sec : Nat) : Links := l.insertIntoList head sec

/-- `init_pgdir` of the structure whose head is at `head`. -/
def initPgdir (l : Links) (head sec : Nat) : Links := initSections (l.initListNode head) head sec

/-- An assignment of a `struct pgdir` to another. -/
def assign (l : Links) (target source : Nat) : Links where
  next := Function.update l.next target (l.next source)
  prev := Function.update l.prev target (l.prev source)

/-- `fork`: `create_proc` with the head of the new process, and `vm_copy` with another one. -/
def fork (l : Links) (head sec temp copied : Nat) : Links :=
  assign (initPgdir (initPgdir l head sec) temp copied) head temp

/-- `execve` by the process whose head is at `head`, which saves its `struct pgdir` on the stack,
with its head at `old`. The structure is assigned before the segments are loaded, and again at the
end. -/
def execve (l : Links) (head old pgdir sec : Nat) (succeeds : Bool) : Links :=
  let l := initPgdir (assign l old head) pgdir sec
  if succeeds then assign (assign l head pgdir) head pgdir else assign l head old

/-! ## Runs -/

/-- A process that exists. -/
structure Proc where
  /-- `&p->pgdir.section_head`. -/
  head : Nat
  /-- The nodes of the sections that were made with its page table. -/
  secs : List Nat
  /-- Its `struct pgdir` is where `init_pgdir` was called for it. -/
  inPlace : Bool

/-- The processes and the nodes in memory. -/
structure Lists where
  links : Links
  /-- The nodes that exist. -/
  used : List Nat
  procs : Nat → Option Proc

/-- What happens to them; new nodes are given by their addresses. -/
inductive Act where
  | createProc (pid head sec : Nat)
  | fork (parent pid head sec temp copied : Nat)
  | execve (pid old pgdir sec : Nat) (succeeds : Bool)
  /-- `init_pgdir` of a structure that belongs to no process. -/
  | initPgdir (head sec : Nat)
  /-- `init_pgdir` of the structure of a process. -/
  | renewPgdir (pid sec : Nat)

/-- The addresses are those of new nodes. -/
def Lists.Fresh (s : Lists) (nodes : List Nat) : Prop :=
  nodes.Nodup ∧ ∀ node ∈ nodes, node ≠ 0 ∧ node ∉ s.used

instance (s : Lists) (nodes : List Nat) : Decidable (s.Fresh nodes) := by
  unfold Lists.Fresh
  infer_instance

/-- One step. -/
def Lists.step (s : Lists) : Act → Option Lists
  | .createProc pid head sec =>
    if s.procs pid = none ∧ s.Fresh [head, sec] then
      some ⟨SectionList.initPgdir s.links head sec, [head, sec] ++ s.used,
        Function.update s.procs pid (some ⟨head, [sec], true⟩)⟩
    else none
  | .fork parent pid head sec temp copied =>
    if s.procs parent ≠ none ∧ s.procs pid = none ∧ s.Fresh [head, sec, temp, copied] then
      some ⟨SectionList.fork s.links head sec temp copied, [head, sec, temp, copied] ++ s.used,
        Function.update s.procs pid (some ⟨head, [copied], false⟩)⟩
    else none
  | .execve pid old pgdir sec succeeds =>
    (s.procs pid).bind fun p =>
      if s.Fresh [old, pgdir, sec] then
        some ⟨SectionList.execve s.links p.head old pgdir sec succeeds, [pgdir, sec] ++ s.used,
          Function.update s.procs pid (some (if succeeds then ⟨p.head, [sec], false⟩ else p))⟩
      else none
  | .initPgdir head sec =>
    if s.Fresh [head, sec] then
      some ⟨SectionList.initPgdir s.links head sec, [head, sec] ++ s.used, s.procs⟩
    else none
  | .renewPgdir pid sec =>
    (s.procs pid).bind fun p =>
      if s.Fresh [sec] then
        some ⟨SectionList.initPgdir s.links p.head sec, sec :: s.used,
          Function.update s.procs pid (some ⟨p.head, [sec], true⟩)⟩
      else none

/-- Runs start without processes. -/
def machine : Machine Lists Act where
  init s := ∀ pid, s.procs pid = none
  step := Lists.step

/-! ## What the functions leave alone -/

section Links

variable {l : Links} {head sec node target source : Nat}

/-- The links of a node are the same in both. -/
def Same (l l' : Links) (node : Nat) : Prop :=
  l'.next node = l.next node ∧ l'.prev node = l.prev node

/-- Links that are the same in a third memory. -/
theorem Same.trans {l l' l'' : Links} (first : Same l l' node) (second : Same l' l'' node) :
    Same l l'' node := ⟨second.1.trans first.1, second.2.trans first.2⟩

/-- The target of an assignment gets the links of the source. -/
theorem assign_target : (assign l target source).next target = l.next source ∧
    (assign l target source).prev target = l.prev source := by
  simp [assign]

/-- An assignment changes its target. -/
theorem assign_other (different : node ≠ target) : Same l (assign l target source) node := by
  simp [Same, assign, different]

/-- `init_pgdir` changes the head and the new node. -/
theorem initPgdir_other (nonzero : head ≠ 0) (nonzero' : sec ≠ 0) (new : sec ≠ head)
    (different : node ≠ head) (different' : node ≠ sec) : Same l (initPgdir l head sec) node := by
  obtain ⟨next, prev⟩ :=
    Links.insertIntoList_eq (l := l.initListNode head) nonzero nonzero' new node
  have alone : (l.initListNode head).next head = head := by simp [Links.initListNode]
  obtain ⟨next', prev'⟩ := Links.initListNode_other (l := l) different
  rw [if_neg different', if_neg different, next'] at next
  rw [alone, if_neg different, if_neg different', prev'] at prev
  exact ⟨next, prev⟩

/-- `init_pgdir` makes a list of one section. -/
theorem ring_initPgdir (nonzero : head ≠ 0) (nonzero' : sec ≠ 0) (new : sec ≠ head) :
    (initPgdir l head sec).Ring head [sec] :=
  (Links.ring_initListNode nonzero).insertIntoList (by simpa using new) nonzero'

end Links

/-! ## Lists in place -/

/-- The lists of the processes are apart, and those that are in place are whole. -/
structure Kept (s : Lists) : Prop where
  placed : ∀ pid p, s.procs pid = some p → ∀ node ∈ p.head :: p.secs, node ∈ s.used
  nonzero : ∀ pid p, s.procs pid = some p → p.head ≠ 0
  apart : ∀ pid pid' p q, s.procs pid = some p → s.procs pid' = some q → pid ≠ pid' →
    ∀ node ∈ p.head :: p.secs, node ∉ q.head :: q.secs
  rings : ∀ pid p, s.procs pid = some p → p.inPlace = true → s.links.Ring p.head p.secs

section Steps

variable {s s' : Lists}

/-- A step that makes or changes one process, and leaves the nodes of the others alone. -/
theorem Kept.replace (kept : Kept s) {pid : Nat} {p : Proc} {links : Links} {used : List Nat}
    (grown : ∀ node ∈ s.used, node ∈ used) (placed : ∀ node ∈ p.head :: p.secs, node ∈ used)
    (nonzero : p.head ≠ 0)
    (others : ∀ pid' q, s.procs pid' = some q → pid' ≠ pid → ∀ node ∈ q.head :: q.secs,
      node ∉ p.head :: p.secs ∧ Same s.links links node)
    (ring : p.inPlace = true → links.Ring p.head p.secs) :
    Kept ⟨links, used, Function.update s.procs pid (some p)⟩ := by
  have split : ∀ pid' q, Function.update s.procs pid (some p) pid' = some q →
      pid' = pid ∧ q = p ∨ pid' ≠ pid ∧ s.procs pid' = some q := by
    intro pid' q shown
    by_cases same : pid' = pid
    · rw [same, Function.update_self] at shown
      exact .inl ⟨same, (Option.some.inj shown).symm⟩
    · rw [Function.update_of_ne same] at shown
      exact .inr ⟨same, shown⟩
  refine ⟨fun pid' q shown => ?_, fun pid' q shown => ?_,
    fun pid' pid'' q q' shown shown' different node member => ?_, fun pid' q shown whole => ?_⟩
  · obtain ⟨rfl, rfl⟩ | ⟨-, shown⟩ := split pid' q shown
    · exact placed
    · exact fun node member => grown node (kept.placed pid' q shown node member)
  · obtain ⟨rfl, rfl⟩ | ⟨-, shown⟩ := split pid' q shown
    · exact nonzero
    · exact kept.nonzero pid' q shown
  · obtain ⟨rfl, rfl⟩ | ⟨other, there⟩ := split pid' q shown <;>
      obtain ⟨rfl, rfl⟩ | ⟨other', there'⟩ := split pid'' q' shown'
    · exact absurd rfl different
    · exact fun member' => (others pid'' q' there' other' node member').1 member
    · exact (others pid' q there other node member).1
    · exact kept.apart pid' pid'' q q' there there' different node member
  · obtain ⟨rfl, rfl⟩ | ⟨other, shown⟩ := split pid' q shown
    · exact ring whole
    · exact (kept.rings pid' q shown whole).congr fun node member =>
        (others pid' q shown other node member).2

/-- A step that changes no node of a process. -/
theorem Kept.elsewhere (kept : Kept s) {links : Links} {used : List Nat}
    (grown : ∀ node ∈ s.used, node ∈ used) (same : ∀ node ∈ s.used, Same s.links links node) :
    Kept ⟨links, used, s.procs⟩ :=
  ⟨fun pid p shown node member => grown node (kept.placed pid p shown node member), kept.nonzero,
    kept.apart, fun pid p shown whole => (kept.rings pid p shown whole).congr fun node member =>
      same node (kept.placed pid p shown node member)⟩

/-- Two new nodes, for a head and a section. -/
theorem Lists.Fresh.pair {head sec : Nat} (fresh : s.Fresh [head, sec]) :
    head ≠ 0 ∧ sec ≠ 0 ∧ sec ≠ head ∧ head ∉ s.used ∧ sec ∉ s.used := by
  obtain ⟨nodup, new⟩ := fresh
  refine ⟨(new head (by simp)).1, (new sec (by simp)).1, ?_, (new head (by simp)).2,
    (new sec (by simp)).2⟩
  rintro rfl
  simp at nodup

/-- Some of the new nodes. -/
theorem Lists.Fresh.sublist {nodes few : List Nat} (fresh : s.Fresh nodes)
    (some : few.Sublist nodes) : s.Fresh few :=
  ⟨fresh.1.sublist some, fun node member => fresh.2 node (some.subset member)⟩

/-- Nodes that exist do not change when `init_pgdir` uses new ones. -/
theorem Lists.Fresh.same {head sec node : Nat} (fresh : s.Fresh [head, sec])
    (old : node ∈ s.used) (l : Links) : Same l (initPgdir l head sec) node := by
  obtain ⟨nonzero, nonzero', new, head', sec'⟩ := fresh.pair
  exact initPgdir_other nonzero nonzero' new (fun same => head' (same ▸ old))
    fun same => sec' (same ▸ old)

/-- A process of one new section whose head belongs to no other process. -/
theorem Kept.apart_new (kept : Kept s) {pid head sec : Nat} (new : sec ∉ s.used)
    (own : ∀ pid' q, s.procs pid' = some q → pid' ≠ pid → head ∉ q.head :: q.secs)
    {pid' : Nat} {q : Proc} (shown : s.procs pid' = some q) (different : pid' ≠ pid) {node : Nat}
    (member : node ∈ q.head :: q.secs) : node ∉ [head, sec] := by
  intro either
  simp only [List.mem_cons, List.not_mem_nil, or_false] at either
  rcases either with rfl | rfl
  · exact own pid' q shown different member
  · exact new (kept.placed pid' q shown _ member)

/-- `create_proc`. -/
theorem Kept.createProc (kept : Kept s) {pid head sec : Nat}
    (ran : s.step (.createProc pid head sec) = some s') : Kept s' := by
  simp only [Lists.step, Option.ite_none_right_eq_some, Option.some.injEq] at ran
  obtain ⟨⟨-, fresh⟩, rfl⟩ := ran
  obtain ⟨nonzero, nonzero', new, unused, unused'⟩ := fresh.pair
  have own : ∀ pid' q, s.procs pid' = some q → pid' ≠ pid → head ∉ q.head :: q.secs :=
    fun pid' q shown _ member => unused (kept.placed pid' q shown head member)
  refine kept.replace (by simp +contextual) (by simp) nonzero
    (fun pid' q shown different node member => ⟨kept.apart_new unused' own shown different member,
      fresh.same (kept.placed pid' q shown node member) _⟩)
    fun _ => ring_initPgdir nonzero nonzero' new

/-- `fork`. -/
theorem Kept.fork (kept : Kept s) {parent pid head sec temp copied : Nat}
    (ran : s.step (.fork parent pid head sec temp copied) = some s') : Kept s' := by
  simp only [Lists.step, Option.ite_none_right_eq_some, Option.some.injEq] at ran
  obtain ⟨⟨-, -, fresh⟩, rfl⟩ := ran
  have pair : s.Fresh [head, sec] := fresh.sublist (List.sublist_append_left _ [temp, copied])
  have pair' : s.Fresh [temp, copied] := fresh.sublist (List.sublist_append_right [head, sec] _)
  have own : ∀ pid' q, s.procs pid' = some q → pid' ≠ pid → head ∉ q.head :: q.secs :=
    fun pid' q shown _ member => pair.pair.2.2.2.1 (kept.placed pid' q shown head member)
  refine kept.replace (by simp +contextual) (by simp) pair.pair.1
    (fun pid' q shown different node member => ⟨kept.apart_new pair'.pair.2.2.2.2 own shown
      different member, ?_⟩) (by simp)
  have old := kept.placed pid' q shown node member
  have other : node ≠ head := fun same => pair.pair.2.2.2.1 (same ▸ old)
  exact ((pair.same old _).trans (pair'.same old _)).trans (assign_other other)

/-- `execve`. -/
theorem Kept.execve (kept : Kept s) {pid old pgdir sec : Nat} {succeeds : Bool}
    (ran : s.step (.execve pid old pgdir sec succeeds) = some s') : Kept s' := by
  obtain ⟨p, live, ran⟩ := Option.bind_eq_some_iff.mp ran
  simp only [Option.ite_none_right_eq_some, Option.some.injEq] at ran
  obtain ⟨fresh, rfl⟩ := ran
  have pair : s.Fresh [pgdir, sec] := fresh.sublist (List.sublist_cons_self old _)
  obtain ⟨nonzero, nonzero', new, unused, unused'⟩ := pair.pair
  have saved : ∀ node ∈ s.used, node ≠ old := fun node member same =>
    (fresh.2 old (by simp)).2 (same ▸ member)
  have apart : ∀ pid' q, s.procs pid' = some q → pid' ≠ pid → ∀ node ∈ q.head :: q.secs,
      node ∉ p.head :: p.secs := fun pid' q shown different =>
    kept.apart pid' pid q p shown live different
  -- The nodes that existed before, other than the head of the process.
  have same : ∀ node ∈ s.used, Same s.links (initPgdir (assign s.links old p.head) pgdir sec)
      node := fun node member => (assign_other (saved node member)).trans (pair.same member _)
  cases succeeds with
  | true =>
    have own : ∀ pid' q, s.procs pid' = some q → pid' ≠ pid → p.head ∉ q.head :: q.secs :=
      fun pid' q shown different => kept.apart pid pid' p q live shown (Ne.symm different) p.head
        (by simp)
    refine kept.replace (by simp +contextual) ?_ (kept.nonzero pid p live)
      (fun pid' q shown different node member => ⟨kept.apart_new unused' own shown different member,
        ?_⟩) (by simp)
    · simp [kept.placed pid p live p.head]
    · have other : node ≠ p.head := fun same => own pid' q shown different (same ▸ member)
      exact ((same node (kept.placed pid' q shown node member)).trans (assign_other other)).trans
        (assign_other other)
  | false =>
    have restored : ∀ node ∈ s.used,
        Same s.links (SectionList.execve s.links p.head old pgdir sec false) node := by
      intro node member
      by_cases here : node = p.head
      · have kept' : Same (assign s.links old p.head)
            (initPgdir (assign s.links old p.head) pgdir sec) old := by
          have distinct := List.nodup_cons.mp fresh.1
          simp only [List.mem_cons, List.not_mem_nil, or_false, not_or] at distinct
          exact initPgdir_other nonzero nonzero' new distinct.1.1 distinct.1.2
        obtain ⟨next, prev⟩ := kept'
        subst here
        simp only [SectionList.execve, Bool.false_eq_true, if_false]
        exact ⟨assign_target.1.trans (next.trans assign_target.1),
          assign_target.2.trans (prev.trans assign_target.2)⟩
      · exact (same node member).trans (assign_other here)
    refine kept.replace (by simp +contextual) ?_ (kept.nonzero pid p live)
      (fun pid' q shown different node member => ⟨apart pid' q shown different node member,
        restored node (kept.placed pid' q shown node member)⟩)
      fun whole => (kept.rings pid p live whole).congr fun node member =>
        restored node (kept.placed pid p live node member)
    exact fun node member => List.mem_append_right _ (kept.placed pid p live node member)

/-- `init_pgdir` of the structure of a process. -/
theorem Kept.renewPgdir (kept : Kept s) {pid sec : Nat}
    (ran : s.step (.renewPgdir pid sec) = some s') : Kept s' := by
  obtain ⟨p, live, ran⟩ := Option.bind_eq_some_iff.mp ran
  simp only [Option.ite_none_right_eq_some, Option.some.injEq] at ran
  obtain ⟨fresh, rfl⟩ := ran
  obtain ⟨nonzero', unused⟩ := fresh.2 sec (by simp)
  have head := kept.placed pid p live p.head (by simp)
  have nonzero := kept.nonzero pid p live
  have new : sec ≠ p.head := fun same => unused (same ▸ head)
  have own : ∀ pid' q, s.procs pid' = some q → pid' ≠ pid → p.head ∉ q.head :: q.secs :=
    fun pid' q shown different => kept.apart pid pid' p q live shown (Ne.symm different) p.head
      (by simp)
  refine kept.replace (by simp +contextual) (by simpa using .inr head) nonzero
    (fun pid' q shown different node member => ⟨kept.apart_new unused own shown different member,
      initPgdir_other nonzero nonzero' new ?_ ?_⟩) fun _ => ring_initPgdir nonzero nonzero' new
  · exact fun same => own pid' q shown different (same ▸ member)
  · exact fun same => unused (same ▸ kept.placed pid' q shown node member)

/-- Every step. -/
theorem Kept.step (kept : Kept s) {act : Act} (ran : s.step act = some s') : Kept s' := by
  cases act with
  | createProc pid head sec => exact kept.createProc ran
  | fork parent pid head sec temp copied => exact kept.fork ran
  | execve pid old pgdir sec succeeds => exact kept.execve ran
  | initPgdir head sec =>
    simp only [Lists.step, Option.ite_none_right_eq_some, Option.some.injEq] at ran
    obtain ⟨fresh, rfl⟩ := ran
    exact kept.elsewhere (by simp +contextual) fun node member => fresh.same member _
  | renewPgdir pid sec => exact kept.renewPgdir ran

/-- Every run. -/
theorem Kept.of_reach (reached : machine.Reach Machine.Any s) : Kept s := by
  refine reached.invariant (fun s initial => ?_) fun s act s' _ kept _ ran => kept.step ran
  refine ⟨fun pid p shown => ?_, fun pid p shown => ?_, fun pid pid' p q shown => ?_,
    fun pid p shown => ?_⟩ <;> exact absurd shown (by simp [initial pid])

/-- In every run the list of a process whose `struct pgdir` is where `init_pgdir` made it is
circular: its nodes are those of the sections of the process, each of which leads on and back, and
`_for_in_list` visits them and ends at the head. -/
theorem section_list_circular (reached : machine.Reach Machine.Any s) {pid : Nat} {p : Proc}
    (live : s.procs pid = some p) (inPlace : p.inPlace = true) :
    s.links.Ring p.head p.secs ∧ ∀ fuel, p.secs.length < fuel →
      s.links.forInList p.head fuel (s.links.next p.head) = some (p.secs ++ [p.head]) := by
  have ring := (Kept.of_reach reached).rings pid p live inPlace
  exact ⟨ring, fun fuel enough => ring.forInList enough⟩

end Steps

/-- Memory without processes. -/
def start : Lists := ⟨⟨fun _ => 0, fun _ => 0⟩, [], fun _ => none⟩

/-- A process whose `execve` failed, next to one that it has forked. -/
theorem section_list_circular_parent : ∃ s, machine.Reach Machine.Any s ∧
    s.procs 1 = some ⟨10, [11], true⟩ ∧ s.links.Ring 10 [11] := by
  have shown : (machine.exec Machine.Any start [.createProc 1 10 11, .fork 1 2 20 21 22 23,
      .execve 1 30 31 32 false]).map (fun s => (s.procs 1).map fun p =>
        (p.head, p.secs, p.inPlace)) = some (some (10, [11], true)) := by
    decide +kernel
  obtain ⟨s, reached, observed⟩ := Machine.Reach.exec_map (fun _ => rfl) shown
  obtain ⟨⟨head, secs, inPlace⟩, live, same⟩ := Option.map_eq_some_iff.mp observed
  simp only [Prod.mk.injEq] at same
  obtain ⟨rfl, rfl, rfl⟩ := same
  exact ⟨s, reached, live, (section_list_circular reached live rfl).1⟩

/-- The head of a forked process leads to a section that leads to another head and never back. -/
theorem forked_list_endless : ∃ s, machine.Reach Machine.Any s ∧
    s.procs 2 = some ⟨20, [23], false⟩ ∧ s.links.next 20 = 23 ∧ s.links.next 23 = 22 ∧
    22 ∉ [23] ∧ ∀ fuel, s.links.forInList 20 fuel (s.links.next 20) = none := by
  have shown : (machine.exec Machine.Any start [.createProc 1 10 11, .fork 1 2 20 21 22 23]).map
      (fun s => ((s.procs 2).map fun p => (p.head, p.secs, p.inPlace), s.links.next 20,
        s.links.next 23, s.links.next 22)) = some (some (20, [23], false), 23, 22, 23) := by
    decide +kernel
  obtain ⟨s, reached, observed⟩ := Machine.Reach.exec_map (fun _ => rfl) shown
  simp only [Prod.mk.injEq] at observed
  obtain ⟨process, first, second, third⟩ := observed
  obtain ⟨⟨head, secs, inPlace⟩, live, same⟩ := Option.map_eq_some_iff.mp process
  simp only [Prod.mk.injEq] at same
  obtain ⟨rfl, rfl, rfl⟩ := same
  refine ⟨s, reached, live, first, second, by decide, fun fuel => ?_⟩
  rw [first]
  exact (Links.forInList_endless second third (by decide) (by decide) fuel).1

end OsLab.Kernel.SectionList
