import OsLab.Kernel.Sched
import OsLab.Common.List

/-!
# Picking the next process

`find_proc` and `pick_next` of `src/kernel/sched.c` on the run queues as they are in memory, where
each is a circular list of `src/common/list.h`. They find what the functions of the same names on
the queues as lists find, and leave in memory the queues those leave. So a CPU gets its idle process
only if no RUNNABLE process is queued in a container that is queued below the root container.
-/
namespace OsLab.Kernel.Sched

open OsLab.Common

/-- Where the nodes and the heads of the run queues are. -/
structure Layout where
  /-- `&proc->schinfo.rq` or `&container->schinfo.rq`. -/
  node : Node → Nat
  /-- `&container->schqueue.rq`. -/
  head : Nat → Nat
  /-- What a node is part of: `info->group` tells which, and `container_of` finds it. -/
  around : Nat → Node
  /-- It is found. -/
  around_node : ∀ queued, around (node queued) = queued
  /-- No head is the node of something. -/
  apart : ∀ queued container, node queued ≠ head container
  /-- Containers have their own heads. -/
  head_injective : Function.Injective head
  /-- None of them is the null pointer. -/
  nonzero : ∀ queued, node queued ≠ 0

/-- Nodes are different. -/
theorem Layout.node_injective (layout : Layout) : Function.Injective layout.node := by
  intro one other same
  rw [← layout.around_node one, same, layout.around_node]

/-- The loop of `find_proc` from the node `p` on, in at most `fuel` turns and calls. -/
def Layout.findProcFrom (layout : Layout) (procs : Nat → Proc) :
    (fuel head p : Nat) → Links → Option (Option Nat × Links)
  | 0, _, _, _ => none
  | fuel + 1, head, p, links =>
    if p = 0 ∨ p = head then some (none, links)
    else match layout.around p with
      | .group nowcontainer =>
        let rq := layout.head nowcontainer
        match layout.findProcFrom procs fuel rq (links.next rq) links with
        | none => none
        | some (some nxt, links) => some (some nxt, links.moveLast head p)
        | some (none, links) => layout.findProcFrom procs fuel head (links.next p) links
      | .proc proc =>
        if (procs proc).state = .runnable then some (some proc, links)
        else layout.findProcFrom procs fuel head (links.next p) links

/-- `find_proc`. -/
def Layout.findProc (layout : Layout) (procs : Nat → Proc) (fuel head : Nat) (links : Links) :
    Option (Option Nat × Links) :=
  layout.findProcFrom procs fuel head (links.next head) links

/-- `pick_next`. -/
def Layout.pickNext (layout : Layout) (s : State) (cpu fuel : Nat) (links : Links) :
    Option (Nat × Links) :=
  if s.panicFlag then some (cpu, links)
  else (layout.findProc s.procs fuel (layout.head 0) links).map fun found =>
    (found.1.getD cpu, found.2)

/-- The queues of the first containers are in memory, and nothing is queued twice. -/
structure Stored (layout : Layout) (numContainers : Nat) (queue : Nat → List Node)
    (links : Links) : Prop where
  ring : ∀ container, container < numContainers →
    links.Ring (layout.head container) ((queue container).map layout.node)
  once : ∀ one other, one < numContainers → other < numContainers → ∀ node ∈ queue one,
    node ∈ queue other → one = other

/-! ## Groups on the way -/

/-- A process is queued below a container, in the last of these groups. -/
def Queued (queue : Nat → List Node) : (head : Nat) → (path : List Nat) → (proc : Nat) → Prop
  | head, [], proc => .proc proc ∈ queue head
  | head, group :: rest, proc => .group group ∈ queue head ∧ Queued queue group rest proc

/-- The groups on a way go to the ends of their queues. -/
def rotateAll (queue : Nat → List Node) : (head : Nat) → (path : List Nat) → Nat → List Node
  | _, [] => queue
  | head, group :: rest => rotate (rotateAll queue group rest) head group

section Lists

variable {procs : Nat → Proc} {queue : Nat → List Node} {depth head numContainers : Nat}

/-- What `find_proc` finds is queued below the container, and the groups on the way to it go to the
ends of their queues. -/
theorem findProc_path {found : Nat × (Nat → List Node)}
    (done : findProc procs queue depth head = some found) :
    ∃ path, Queued queue head path found.1 ∧ found.2 = rotateAll queue head path := by
  induction depth generalizing head found with
  | zero => contradiction
  | succ depth ih =>
    rw [findProc] at done
    obtain ⟨node, member, here⟩ := List.exists_of_findSome?_eq_some done
    cases node with
    | proc proc =>
      simp only [Option.ite_none_right_eq_some, Option.some.injEq] at here
      obtain ⟨-, rfl⟩ := here
      exact ⟨[], member, rfl⟩
    | group group =>
      obtain ⟨below, found_below, rfl⟩ := Option.map_eq_some_iff.mp here
      obtain ⟨path, queued, queues⟩ := ih found_below
      refine ⟨group :: path, ⟨member, queued⟩, ?_⟩
      rw [rotateAll, ← queues]

/-- Where `find_proc` finds nothing, no process that is queued below the container is RUNNABLE. -/
theorem findProc_none (layered : Layered numContainers queue) (created : head < numContainers)
    (enough : numContainers ≤ head + depth) (nothing : findProc procs queue depth head = none)
    {path : List Nat} {proc : Nat} (queued : Queued queue head path proc) :
    (procs proc).state ≠ .runnable := by
  induction path generalizing depth head with
  | nil =>
    obtain ⟨depth, rfl⟩ : ∃ less, depth = less + 1 := ⟨depth - 1, by omega⟩
    rw [findProc, List.findSome?_eq_none_iff] at nothing
    have here := nothing _ queued
    simpa using here
  | cons group rest ih =>
    obtain ⟨depth, rfl⟩ : ∃ less, depth = less + 1 := ⟨depth - 1, by omega⟩
    obtain ⟨member, queued⟩ := queued
    obtain ⟨above, below⟩ := layered head group member
    rw [findProc, List.findSome?_eq_none_iff] at nothing
    have here := nothing _ member
    exact ih below (by omega) (Option.map_eq_none_iff.mp here) queued

end Lists

/-! ## The queues in memory -/

section Memory

variable {layout : Layout} {queue : Nat → List Node} {links : Links} {numContainers head : Nat}

/-- A group goes to the end of its queue, in memory. -/
theorem Stored.rotate (stored : Stored layout numContainers queue links)
    (created : head < numContainers) {group : Nat} (member : .group group ∈ queue head) :
    Stored layout numContainers (rotate queue head group)
      (links.moveLast (layout.head head) (layout.node (.group group))) := by
  obtain ⟨moved, others⟩ := (stored.ring head created).moveLast
    (List.mem_map_of_mem (f := layout.node) member)
  refine ⟨fun container below => ?_, fun one other oneBelow otherBelow node inOne inOther => ?_⟩
  · by_cases here : container = head
    · subst here
      rw [Sched.rotate, Function.update_self, List.map_append, List.map_erase layout.node_injective]
      exact moved
    · rw [Sched.rotate, Function.update_of_ne here]
      refine (stored.ring container below).congr fun address inside => others address ?_
      rw [List.mem_cons, List.mem_map] at inside ⊢
      rintro (atHead | ⟨node, inHead, rfl⟩)
      · obtain same | ⟨node, -, same⟩ := inside
        · exact here (layout.head_injective (same.symm.trans atHead))
        · exact layout.apart node head (same.trans atHead)
      · obtain same | ⟨node', inContainer, same⟩ := inside
        · exact layout.apart node container same
        · obtain rfl := layout.node_injective same
          exact here (stored.once container head below created node' inContainer inHead)
  · exact stored.once one other oneBelow otherBelow node
      ((rotate_perm member one).mem_iff.mp inOne) ((rotate_perm member other).mem_iff.mp inOther)

/-- What `find_proc` leaves in memory: the queues after what it found, or everything as it was. -/
def Left (layout : Layout) (numContainers : Nat) (links : Links) :
    Option (Nat × (Nat → List Node)) → Links → Prop
  | some found, links' => Stored layout numContainers found.2 links'
  | none, links' => links' = links

/-- What `find_proc` does with a node of a list. -/
def tryNode (procs : Nat → Proc) (queue : Nat → List Node) (depth head : Nat) :
    Node → Option (Nat × (Nat → List Node))
  | .proc proc => if (procs proc).state = .runnable then some (proc, queue) else none
  | .group group => (Sched.findProc procs queue depth group).map fun found =>
    (found.1, Sched.rotate found.2 head group)

/-- `find_proc` tries the nodes one after the other. -/
theorem findProc_tryNode (procs : Nat → Proc) (queue : Nat → List Node) (depth head : Nat) :
    Sched.findProc procs queue (depth + 1) head =
      (queue head).findSome? (tryNode procs queue depth head) := by
  rw [Sched.findProc]
  congr 1

/-- The code in memory, with enough rounds, gives what was found and leaves the queues after it. -/
def Finds (layout : Layout) (numContainers : Nat) (links : Links)
    (code : Nat → Option (Option Nat × Links)) (result : Option (Nat × (Nat → List Node))) : Prop :=
  ∃ links' enough, (∀ fuel, enough ≤ fuel → code fuel = some (result.map Prod.fst, links')) ∧
    Left layout numContainers links result links'

/-- The loop of `find_proc` in memory, over what is left of a list. -/
theorem Stored.findProcFrom (stored : Stored layout numContainers queue links) (procs : Nat → Proc)
    (layered : Layered numContainers queue) (created : head < numContainers) {depth : Nat}
    (deeper : ∀ group, head < group → group < numContainers →
      Finds layout numContainers links
        (fun fuel => layout.findProc procs fuel (layout.head group) links)
        (Sched.findProc procs queue depth group))
    (rest : List Node) (before : Nat) (inside : ∀ node ∈ rest, node ∈ queue head)
    (linked : links.Linked before (rest.map layout.node) (layout.head head)) :
    Finds layout numContainers links
      (fun fuel => layout.findProcFrom procs fuel (layout.head head) (links.next before) links)
      (rest.findSome? (tryNode procs queue depth head)) := by
  induction rest generalizing before with
  | nil =>
    refine ⟨links, 1, fun fuel many => ?_, rfl⟩
    obtain ⟨fuel, rfl⟩ : ∃ less, fuel = less + 1 := ⟨fuel - 1, by omega⟩
    dsimp only
    rw [Layout.findProcFrom, if_pos (Or.inr linked.1)]
    rfl
  | cons node rest ih =>
    obtain ⟨forward, -, linked⟩ := linked
    obtain ⟨member, inside⟩ := List.forall_mem_cons.mp inside
    obtain ⟨links', enough, others, left⟩ := ih _ inside linked
    have going : ¬(layout.node node = 0 ∨ layout.node node = layout.head head) :=
      not_or.mpr ⟨layout.nonzero node, layout.apart node head⟩
    rw [forward, List.findSome?_cons]
    cases node with
    | proc proc =>
      by_cases runnable : (procs proc).state = .runnable
      · refine ⟨links, 1, fun fuel many => ?_, ?_⟩
        · obtain ⟨fuel, rfl⟩ : ∃ less, fuel = less + 1 := ⟨fuel - 1, by omega⟩
          dsimp only
          rw [Layout.findProcFrom, if_neg going, layout.around_node]
          simp [tryNode, runnable]
        · simpa [tryNode, runnable, Left] using stored
      · refine ⟨links', enough + 1, fun fuel many => ?_, ?_⟩
        · obtain ⟨fuel, rfl⟩ : ∃ less, fuel = less + 1 := ⟨fuel - 1, by omega⟩
          dsimp only
          rw [Layout.findProcFrom, if_neg going, layout.around_node]
          simpa [tryNode, runnable] using others fuel (by omega)
        · simpa [tryNode, runnable] using left
    | group group =>
      obtain ⟨above, below⟩ := layered head group member
      obtain ⟨links₁, enough₁, run, left₁⟩ := deeper group above below
      cases result : Sched.findProc procs queue depth group with
      | none =>
        rw [result] at run left₁
        obtain rfl := left₁
        refine ⟨links', max enough enough₁ + 1, fun fuel many => ?_, ?_⟩
        · obtain ⟨fuel, rfl⟩ : ∃ less, fuel = less + 1 := ⟨fuel - 1, by omega⟩
          have inner := run fuel (by omega)
          dsimp only [Layout.findProc] at inner ⊢
          rw [Layout.findProcFrom, if_neg going, layout.around_node]
          simpa [tryNode, result, inner] using others fuel (by omega)
        · simpa [tryNode, result] using left
      | some found =>
        rw [result] at run left₁
        have still : .group group ∈ found.2 head :=
          ((findProc_some result).2.2 head).mem_iff.mpr member
        refine ⟨links₁.moveLast (layout.head head) (layout.node (.group group)), enough₁ + 1,
          fun fuel many => ?_, ?_⟩
        · obtain ⟨fuel, rfl⟩ : ∃ less, fuel = less + 1 := ⟨fuel - 1, by omega⟩
          have inner := run fuel (by omega)
          dsimp only [Layout.findProc] at inner ⊢
          rw [Layout.findProcFrom, if_neg going, layout.around_node]
          simp [tryNode, result, inner]
        · simp only [tryNode, result, Option.map_some]
          exact Stored.rotate left₁ created still

/-- `find_proc` in memory finds what `find_proc` on lists finds. -/
theorem Stored.findProc (stored : Stored layout numContainers queue links) (procs : Nat → Proc)
    (layered : Layered numContainers queue) (created : head < numContainers) {depth : Nat}
    (deep : numContainers ≤ head + depth) :
    Finds layout numContainers links
      (fun fuel => layout.findProc procs fuel (layout.head head) links)
      (Sched.findProc procs queue depth head) := by
  induction depth generalizing head with
  | zero => omega
  | succ depth ih =>
    rw [findProc_tryNode]
    exact stored.findProcFrom procs layered created
      (fun group above below => ih below (by omega)) (queue head) _ (fun _ member => member)
      (stored.ring head created).linked

end Memory

/-- What `pick_next` picks for a CPU, and the queues it leaves: a RUNNABLE process that is queued in
a container below the root container, with the groups on the way to it at the ends of their queues,
or the idle process of the CPU where there is none. -/
def Picked (s : State) (cpu next : Nat) (queue : Nat → List Node) : Prop :=
  (∃ path, Queued s.queue 0 path next ∧ s.state next = .runnable ∧
      queue = rotateAll s.queue 0 path) ∨
    next = cpu ∧ queue = s.queue ∧
      ∀ path proc, Queued s.queue 0 path proc → s.state proc ≠ .runnable

/-- For every tree of containers with their queues in memory, `pick_next` returns a RUNNABLE process
that is queued below the root container if there is one, and the idle process otherwise. Every queue
keeps its members, and their order unless it has a group on the way to the process. -/
theorem pickNext_complete {s : State} {layout : Layout} {links : Links} (cpu : Nat)
    (calm : s.panicFlag = false) (rooted : 0 < s.numContainers)
    (layered : Layered s.numContainers s.queue)
    (stored : Stored layout s.numContainers s.queue links) :
    ∃ next queue links' enough,
      (∀ fuel, enough ≤ fuel → layout.pickNext s cpu fuel links = some (next, links')) ∧
        Stored layout s.numContainers queue links' ∧ Picked s cpu next queue ∧
        ∀ container, (queue container).Perm (s.queue container) := by
  obtain ⟨links', enough, run, left⟩ := stored.findProc s.procs layered rooted
    (Nat.le_of_eq (Nat.zero_add _).symm)
  cases result : findProc s.procs s.queue s.numContainers 0 with
  | none =>
    rw [result] at run left
    obtain rfl := left
    refine ⟨cpu, s.queue, links', enough, fun fuel many => ?_, stored,
      .inr ⟨rfl, rfl, fun path proc queued => ?_⟩, fun _ => .refl _⟩
    · simp [Layout.pickNext, calm, run fuel many]
    · exact findProc_none layered rooted (Nat.le_of_eq (Nat.zero_add _).symm) result queued
  | some found =>
    rw [result] at run left
    obtain ⟨runnable, -, same⟩ := findProc_some result
    obtain ⟨path, queued, queues⟩ := findProc_path result
    refine ⟨found.1, found.2, links', enough, fun fuel many => ?_, left,
      .inl ⟨path, queued, runnable, queues⟩, same⟩
    simp [Layout.pickNext, calm, run fuel many]

/-- A node has its place in a part of 32 bytes of its own. -/
def nodeBeside : Node → Nat
  | .proc proc => 32 * proc + 8
  | .group group => 32 * group + 16

/-- The node at an address. -/
def aroundBeside (address : Nat) : Node :=
  if address % 32 = 16 then .group (address / 32) else .proc (address / 32)

theorem aroundBeside_node (queued : Node) : aroundBeside (nodeBeside queued) = queued := by
  cases queued with
  | proc proc =>
    rw [nodeBeside, aroundBeside, if_neg (by omega), Node.proc.injEq]
    omega
  | group group =>
    rw [nodeBeside, aroundBeside, if_pos (by omega), Node.group.injEq]
    omega

theorem nodeBeside_apart (queued : Node) (container : Nat) :
    nodeBeside queued ≠ 32 * container + 24 := by
  cases queued <;> rw [nodeBeside] <;> omega

theorem nodeBeside_nonzero (queued : Node) : nodeBeside queued ≠ 0 := by
  cases queued <;> simp [nodeBeside]

theorem headBeside_injective (one other : Nat) (same : 32 * one + 24 = 32 * other + 24) :
    one = other := by
  omega

/-- Nodes and heads side by side. -/
def sideBySide : Layout where
  node := nodeBeside
  head container := 32 * container + 24
  around := aroundBeside
  around_node := aroundBeside_node
  apart := nodeBeside_apart
  head_injective := headBeside_injective
  nonzero := nodeBeside_nonzero

/-- Two containers, with a process that runs before one that is RUNNABLE in each. -/
def twoContainers : State where
  procs proc := ⟨if proc = 4 ∨ proc = 6 then .running else .runnable, false, proc / 6⟩
  queue container := if container = 0 then [.proc 4, .group 1, .proc 5]
    else if container = 1 then [.proc 6, .proc 7] else []
  thisproc cpu := if cpu = 0 then 4 else if cpu = 1 then 6 else cpu
  numContainers := 2
  panicFlag := false
  panic := none

/-- Their queues in memory. -/
def twoLists : Links :=
  let node := sideBySide.node
  (((((⟨id, id⟩ : Links).insertIntoList 24 (node (.proc 5))).insertIntoList 24
    (node (.group 1))).insertIntoList 24 (node (.proc 4))).insertIntoList 56
    (node (.proc 7))).insertIntoList 56 (node (.proc 6))

/-- The lists are the queues. -/
theorem stored_twoLists : Stored sideBySide 2 twoContainers.queue twoLists := by
  refine ⟨fun container below => ?_, fun one other oneBelow otherBelow node inOne inOther => ?_⟩
  · obtain rfl | rfl : container = 0 ∨ container = 1 := by omega
    · exact ⟨⟨by decide, by decide, by decide, by decide, by decide, by decide, by decide,
        by decide⟩, by decide, by decide⟩
    · exact ⟨⟨by decide, by decide, by decide, by decide, by decide, by decide⟩, by decide,
        by decide⟩
  · have distinct : ∀ node ∈ twoContainers.queue 0, node ∉ twoContainers.queue 1 := by decide
    obtain rfl | rfl : one = 0 ∨ one = 1 := by omega
    · obtain rfl | rfl : other = 0 ∨ other = 1 := by omega
      · rfl
      · exact absurd inOther (distinct node inOne)
    · obtain rfl | rfl : other = 0 ∨ other = 1 := by omega
      · exact absurd inOne (distinct node inOther)
      · rfl

/-- The process is found in the group. -/
theorem pickNext_complete_group :
    (sideBySide.pickNext twoContainers 2 10 twoLists).map Prod.fst = some 7 ∧
      ∃ next queue links' enough, (∀ fuel, enough ≤ fuel →
          sideBySide.pickNext twoContainers 2 fuel twoLists = some (next, links')) ∧
        Stored sideBySide 2 queue links' ∧ Picked twoContainers 2 next queue ∧
        ∀ container, (queue container).Perm (twoContainers.queue container) := by
  refine ⟨by decide, pickNext_complete 2 rfl (by decide) (fun head group member => ?_)
    stored_twoLists⟩
  simp only [twoContainers] at member ⊢
  split at member
  · simp at member
    omega
  · split at member <;> simp at member

end OsLab.Kernel.Sched
