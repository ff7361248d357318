import OsLab.Lib.Transition
import Mathlib.Data.Fintype.Basic
import Mathlib.Logic.Function.Basic

/-!
# The lock-free queue

`add_to_queue` and `fetch_from_queue` of `src/common/list.c`, which keep the free pages, called
by any number of CPUs. Each plain read, each plain write and each compare-exchange is one step;
the compare-exchanges are weak and may fail without a reason. Between the calls a node has an
owner, who may write to it and pass it on: a page on the queue holds the link in its first
word, a page off the queue holds whatever its owner keeps there.

`fetch_from_queue` reads the successor of the head before its compare-exchange. If the head
leaves the queue and comes back in between, the compare-exchange succeeds with a successor that
is no longer one.
-/
namespace OsLab.Common.Queue

open OsLab.Lib

/-- Where a CPU stands. -/
inductive Pc where
  | idle
  /-- About to read the head for `node->next = *head`. -/
  | addRead (node : Nat)
  /-- About to write the link. -/
  | addWrite (node : Nat) (head : Option Nat)
  /-- At the compare-exchange of `add_to_queue`. -/
  | addCas (node : Nat)
  /-- About to read the head for `node = *head`. -/
  | fetchRead
  /-- About to read `node->next`. -/
  | fetchNext (node : Nat)
  /-- At the compare-exchange of `fetch_from_queue`. -/
  | fetchCas (node : Nat) (next : Option Nat)
  deriving Repr, DecidableEq

/-- What the calls have done. -/
inductive Event where
  /-- `add_to_queue` has put the node on the queue. -/
  | added (node : Nat)
  /-- `fetch_from_queue` returns the node. -/
  | fetched (node : Nat)
  /-- `fetch_from_queue` returns null. -/
  | empty
  deriving Repr, DecidableEq

/-- The queue, its nodes and its users. -/
structure State (ncpu : Nat) where
  head : Option Nat
  /-- The first word of each node. -/
  next : Nat → Option Nat
  pcs : Fin ncpu → Pc
  /-- Who may use a node; nobody while it is on the queue. -/
  owner : Nat → Option (Fin ncpu)
  history : List Event

/-- What happens next. -/
inductive Act (ncpu : Nat) where
  /-- A CPU calls `add_to_queue` with a node it owns. -/
  | add (cpu : Fin ncpu) (node : Nat)
  /-- A CPU calls `fetch_from_queue`. -/
  | fetch (cpu : Fin ncpu)
  /-- A CPU takes its next step; a compare-exchange fails if `spurious`. -/
  | run (cpu : Fin ncpu) (spurious : Bool)
  /-- A CPU writes to the first word of a node it owns. -/
  | write (cpu : Fin ncpu) (node : Nat) (value : Option Nat)
  /-- A CPU passes a node on. -/
  | pass (cpu : Fin ncpu) (node : Nat) (heir : Fin ncpu)

namespace State

variable {ncpu : Nat}

/-- Move a CPU. -/
def goto (s : State ncpu) (cpu : Fin ncpu) (pc : Pc) : State ncpu :=
  { s with pcs := Function.update s.pcs cpu pc }

/-- Write the first word of a node. -/
def setNext (s : State ncpu) (node : Nat) (value : Option Nat) : State ncpu :=
  { s with next := Function.update s.next node value }

/-- Change the owner of a node. -/
def setOwner (s : State ncpu) (node : Nat) (owner : Option (Fin ncpu)) : State ncpu :=
  { s with owner := Function.update s.owner node owner }

/-- Record what a call has done. -/
def note (s : State ncpu) (event : Event) : State ncpu :=
  { s with history := event :: s.history }

/-- The next step of a CPU. A failed compare-exchange stores the value it found where the
expected one was. -/
def run (s : State ncpu) (cpu : Fin ncpu) (spurious : Bool) : Option (State ncpu) :=
  match s.pcs cpu with
  | .idle => none
  | .addRead node => some (s.goto cpu (.addWrite node s.head))
  | .addWrite node head => some ((s.setNext node head).goto cpu (.addCas node))
  | .addCas node =>
    if s.head = s.next node ∧ spurious = false then
      some ((({ s with head := some node }.setOwner node none).goto cpu .idle).note (.added node))
    else some ((s.setNext node s.head).goto cpu (.addRead node))
  | .fetchRead =>
    match s.head with
    | none => some ((s.goto cpu .idle).note .empty)
    | some node => some (s.goto cpu (.fetchNext node))
  | .fetchNext node => some (s.goto cpu (.fetchCas node (s.next node)))
  | .fetchCas node next =>
    if s.head = some node ∧ spurious = false then
      some ((({ s with head := next }.setOwner node (some cpu)).goto cpu .idle).note
        (.fetched node))
    else some (s.goto cpu .fetchRead)

/-- One step. -/
def step (s : State ncpu) : Act ncpu → Option (State ncpu)
  | .add cpu node =>
    if s.pcs cpu = .idle ∧ s.owner node = some cpu then some (s.goto cpu (.addRead node)) else none
  | .fetch cpu => if s.pcs cpu = .idle then some (s.goto cpu .fetchRead) else none
  | .run cpu spurious => s.run cpu spurious
  | .write cpu node value =>
    if s.pcs cpu = .idle ∧ s.owner node = some cpu then some (s.setNext node value) else none
  | .pass cpu node heir =>
    if s.pcs cpu = .idle ∧ s.owner node = some cpu then some (s.setOwner node (some heir))
    else none

end State

/-- An empty queue, with every node owned by some CPU and with any contents. -/
def machine (ncpu : Nat) : Machine (State ncpu) (Act ncpu) where
  init s := s.head = none ∧ (∀ cpu, s.pcs cpu = .idle) ∧ (∀ node, s.owner node ≠ none) ∧
    s.history = []
  step := State.step

/-- Whether a node has been added and not fetched since. -/
def queued : List Event → Nat → Bool
  | [], _ => false
  | .added other :: earlier, node => other = node || queued earlier node
  | .fetched other :: earlier, node => other ≠ node && queued earlier node
  | .empty :: earlier, node => queued earlier node

/-- The nodes that `head` leads to are those in the list, in this order. -/
def Linked (next : Nat → Option Nat) : List Nat → Option Nat → Prop
  | [], head => head = none
  | node :: rest, head => head = some node ∧ Linked next rest (next node)

/-- Writing to a node that is not on a chain leaves the chain. -/
theorem Linked.update {next : Nat → Option Nat} {nodes : List Nat} {head : Option Nat}
    (linked : Linked next nodes head) {node : Nat} (outside : node ∉ nodes) (value : Option Nat) :
    Linked (Function.update next node value) nodes head := by
  induction nodes generalizing head with
  | nil => exact linked
  | cons first rest ih =>
    have different : first ≠ node := fun same => outside (same ▸ List.mem_cons_self)
    refine ⟨linked.1, ?_⟩
    rw [Function.update_of_ne different]
    exact ih linked.2 fun inside => outside (List.mem_cons_of_mem _ inside)

/-- The node a CPU is adding. -/
def Pc.adds : Pc → Option Nat
  | .addRead node | .addWrite node _ | .addCas node => some node
  | _ => none

/-- Every node fetched was on the queue. -/
def Fair : List Event → Prop
  | [] => True
  | .fetched node :: earlier => queued earlier node = true ∧ Fair earlier
  | _ :: earlier => Fair earlier

/-- What keeps the queue a chain of the nodes added and not fetched: whoever adds a node owns
it, and a successor read from a node that is on the queue is still the one. -/
structure Intact {ncpu : Nat} (s : State ncpu) (nodes : List Nat) : Prop where
  linked : Linked s.next nodes s.head
  distinct : nodes.Nodup
  unowned : ∀ node, node ∈ nodes ↔ s.owner node = none
  present : ∀ node, node ∈ nodes ↔ queued s.history node = true
  adds : ∀ cpu node, (s.pcs cpu).adds = some node → s.owner node = some cpu
  /-- A successor read is right while its node is on the queue. -/
  current : ∀ cpu node next, s.pcs cpu = .fetchCas node next → node ∈ nodes → next = s.next node
  fair : Fair s.history

/-- At the compare-exchange of `fetch_from_queue` with this node and another successor. -/
def Pc.Stale (node : Nat) (successor : Option Nat) : Pc → Prop
  | .fetchCas other next => other = node ∧ next ≠ successor
  | _ => False

instance (node : Nat) (successor : Option Nat) (pc : Pc) : Decidable (pc.Stale node successor) :=
  match pc with
  | .fetchCas _ _ => inferInstanceAs (Decidable (_ ∧ _))
  | .idle | .addRead _ | .addWrite _ _ | .addCas _ | .fetchRead | .fetchNext _ => isFalse id

/-- When a node is put on the queue, no CPU is about to take it off together with a successor
that it will not have. -/
def NoReturn {ncpu : Nat} (s : State ncpu) : Act ncpu → Prop
  | .run cpu false =>
    match s.pcs cpu with
    | .addCas node => s.head = s.next node → ∀ other, ¬ (s.pcs other).Stale node s.head
    | _ => True
  | _ => True

instance {ncpu : Nat} (s : State ncpu) (act : Act ncpu) : Decidable (NoReturn s act) := by
  unfold NoReturn
  split
  · split <;> infer_instance
  · infer_instance

namespace Intact

variable {ncpu : Nat} {s : State ncpu} {nodes : List Nat}

/-- A CPU moves. -/
theorem goto (intact : Intact s nodes) (cpu : Fin ncpu) {pc : Pc}
    (adds : ∀ node, pc.adds = some node → s.owner node = some cpu)
    (current : ∀ node next, pc = .fetchCas node next → node ∈ nodes → next = s.next node) :
    Intact (s.goto cpu pc) nodes := by
  refine { intact with adds := fun other node adding => ?_, current := fun other => ?_ }
  · by_cases same : other = cpu
    · subst same
      simp only [State.goto, Function.update_self] at adding
      exact adds node adding
    · simp only [State.goto, Function.update_of_ne same] at adding
      exact intact.adds other node adding
  · by_cases same : other = cpu
    · subst same
      simp only [State.goto, Function.update_self]
      exact current
    · simp only [State.goto, Function.update_of_ne same]
      exact intact.current other

/-- A node off the queue is written. -/
theorem setNext (intact : Intact s nodes) {node : Nat} (outside : node ∉ nodes)
    (value : Option Nat) : Intact (s.setNext node value) nodes := by
  refine { intact with linked := intact.linked.update outside value, current := ?_ }
  intro cpu other next atCas inside
  have different : other ≠ node := fun same => outside (same ▸ inside)
  simp only [State.setNext, Function.update_of_ne different]
  exact intact.current cpu other next atCas inside

/-- What has an owner is off the queue. -/
theorem outside (intact : Intact s nodes) {node : Nat} {cpu : Fin ncpu}
    (owned : s.owner node = some cpu) : node ∉ nodes := by
  rw [intact.unowned, owned]
  simp

/-- The owner of a node off the queue changes, while nobody adds it. -/
theorem setOwner (intact : Intact s nodes) {node : Nat} (heir : Fin ncpu)
    (outside : node ∉ nodes) (nobody : ∀ cpu, (s.pcs cpu).adds ≠ some node) :
    Intact (s.setOwner node (some heir)) nodes := by
  refine { intact with unowned := fun other => ?_, adds := fun cpu other adding => ?_ }
  · by_cases same : other = node
    · subst same
      simp [State.setOwner, outside]
    · simp only [State.setOwner, Function.update_of_ne same]
      exact intact.unowned other
  · have different : other ≠ node := fun same => nobody cpu (same ▸ adding)
    simp only [State.setOwner, Function.update_of_ne different]
    exact intact.adds cpu other adding

/-- The compare-exchange of `add_to_queue` succeeds. -/
theorem add (intact : Intact s nodes) {cpu : Fin ncpu} {node : Nat}
    (adding : s.pcs cpu = .addCas node) (found : s.head = s.next node)
    (fresh : ∀ other, ¬ (s.pcs other).Stale node s.head) :
    Intact ((({ s with head := some node }.setOwner node none).goto cpu .idle).note (.added node))
      (node :: nodes) := by
  have owned : s.owner node = some cpu := intact.adds cpu node (by rw [adding]; rfl)
  have outside := intact.outside owned
  constructor
  case linked => exact ⟨rfl, found ▸ intact.linked⟩
  case distinct => exact List.nodup_cons.mpr ⟨outside, intact.distinct⟩
  case unowned =>
    intro other
    by_cases same : other = node
    · subst same
      simp [State.note, State.goto, State.setOwner]
    · simp only [List.mem_cons, same, false_or, State.note, State.goto, State.setOwner,
        Function.update_of_ne same]
      exact intact.unowned other
  case present =>
    intro other
    simp only [List.mem_cons, State.note, queued, Bool.or_eq_true, decide_eq_true_eq]
    exact or_congr eq_comm (intact.present other)
  case adds =>
    intro other adds adding'
    by_cases same : other = cpu
    · subst same
      simp [State.note, State.goto, Pc.adds] at adding'
    · simp only [State.note, State.goto, Function.update_of_ne same, State.setOwner] at adding' ⊢
      have theirs := intact.adds other adds adding'
      have different : adds ≠ node := by
        rintro rfl
        rw [owned] at theirs
        exact same (Option.some.inj theirs).symm
      rw [Function.update_of_ne different, theirs]
  case current =>
    intro other candidate next atCas inside
    by_cases same : other = cpu
    · subst same
      simp [State.note, State.goto] at atCas
    · simp only [State.note, State.goto, Function.update_of_ne same, State.setOwner] at atCas ⊢
      by_cases new : candidate = node
      · -- The node comes back: what this CPU read is the successor it gets now.
        subst new
        have read := fresh other
        rw [atCas] at read
        have right : next = s.head := by
          by_contra wrong
          exact read ⟨rfl, wrong⟩
        rw [right, found]
      · exact intact.current other candidate next atCas
          ((List.mem_cons.mp inside).resolve_left new)
  case fair => exact intact.fair

/-- The compare-exchange of `fetch_from_queue` succeeds. -/
theorem fetch (intact : Intact s nodes) {cpu : Fin ncpu} {node : Nat} {next : Option Nat}
    (fetching : s.pcs cpu = .fetchCas node next) (found : s.head = some node) :
    ∃ rest, nodes = node :: rest ∧
      Intact ((({ s with head := next }.setOwner node (some cpu)).goto cpu .idle).note
        (.fetched node)) rest := by
  cases nodes with
  | nil =>
    have nothing : s.head = none := intact.linked
    rw [nothing] at found
    simp at found
  | cons first rest =>
    obtain ⟨same, linked⟩ := intact.linked
    obtain rfl : first = node := Option.some.inj (same.symm.trans found)
    obtain ⟨outside, distinct⟩ := List.nodup_cons.mp intact.distinct
    have successor := intact.current cpu first next fetching List.mem_cons_self
    have unowned : s.owner first = none := (intact.unowned first).mp List.mem_cons_self
    refine ⟨rest, rfl, ?_⟩
    constructor
    case linked =>
      rw [← successor] at linked
      exact linked
    case distinct => exact distinct
    case unowned =>
      intro other
      by_cases same : other = first
      · subst same
        simp [State.note, State.goto, State.setOwner, outside]
      · have before := intact.unowned other
        simp only [List.mem_cons, same, false_or] at before
        simp only [State.note, State.goto, State.setOwner, Function.update_of_ne same]
        exact before
    case present =>
      intro other
      simp only [State.note, State.goto, State.setOwner, queued, Bool.and_eq_true,
        decide_eq_true_eq]
      rw [← intact.present other]
      by_cases same : first = other
      · subst same
        simp [outside]
      · simp [same, Ne.symm same]
    case adds =>
      intro other adds adding
      by_cases same : other = cpu
      · subst same
        simp [State.note, State.goto, Pc.adds] at adding
      · simp only [State.note, State.goto, Function.update_of_ne same, State.setOwner] at adding ⊢
        have theirs := intact.adds other adds adding
        have different : adds ≠ first := by
          rintro rfl
          rw [unowned] at theirs
          simp at theirs
        rw [Function.update_of_ne different, theirs]
    case current =>
      intro other candidate read atCas inside
      by_cases same : other = cpu
      · subst same
        simp [State.note, State.goto] at atCas
      · simp only [State.note, State.goto, Function.update_of_ne same] at atCas ⊢
        exact intact.current other candidate read atCas (List.mem_cons_of_mem _ inside)
    case fair => exact ⟨(intact.present first).mp List.mem_cons_self, intact.fair⟩

/-- The next step of a CPU keeps the queue intact. -/
theorem run (intact : Intact s nodes) {cpu : Fin ncpu} {spurious : Bool} {s' : State ncpu}
    (met : NoReturn s (.run cpu spurious)) (taken : s.run cpu spurious = some s') :
    ∃ nodes', Intact s' nodes' := by
  simp only [State.run] at taken
  split at taken
  case h_1 => simp at taken
  case h_2 node reading =>
    obtain rfl := Option.some.inj taken
    have owned := intact.adds cpu node (by rw [reading]; rfl)
    exact ⟨nodes, intact.goto cpu (fun other adding => Option.some.inj adding ▸ owned) (by simp)⟩
  case h_3 node head writing =>
    obtain rfl := Option.some.inj taken
    have owned := intact.adds cpu node (by rw [writing]; rfl)
    exact ⟨nodes, (intact.setNext (intact.outside owned) head).goto cpu
      (fun other adding => Option.some.inj adding ▸ owned) (by simp)⟩
  case h_4 node adding =>
    have owned := intact.adds cpu node (by rw [adding]; rfl)
    split at taken
    · rename_i succeeds
      obtain rfl := Option.some.inj taken
      obtain ⟨found, rfl⟩ := succeeds
      simp only [NoReturn, adding] at met
      exact ⟨node :: nodes, intact.add adding found (met found)⟩
    · obtain rfl := Option.some.inj taken
      exact ⟨nodes, (intact.setNext (intact.outside owned) _).goto cpu
        (fun other adding => Option.some.inj adding ▸ owned) (by simp)⟩
  case h_5 reading =>
    split at taken
    · obtain rfl := Option.some.inj taken
      have moved : Intact (s.goto cpu .idle) nodes := intact.goto cpu (by simp [Pc.adds]) (by simp)
      exact ⟨nodes, { moved with }⟩
    · obtain rfl := Option.some.inj taken
      exact ⟨nodes, intact.goto cpu (by simp [Pc.adds]) (by simp)⟩
  case h_6 node reading =>
    obtain rfl := Option.some.inj taken
    refine ⟨nodes, intact.goto cpu (by simp [Pc.adds]) fun other next same _ => ?_⟩
    obtain ⟨rfl, rfl⟩ := Pc.fetchCas.inj same
    rfl
  case h_7 node next fetching =>
    split at taken
    · rename_i succeeds
      obtain rfl := Option.some.inj taken
      obtain ⟨rest, -, left⟩ := intact.fetch fetching succeeds.1
      exact ⟨rest, left⟩
    · obtain rfl := Option.some.inj taken
      exact ⟨nodes, intact.goto cpu (by simp [Pc.adds]) (by simp)⟩

/-- Every step that meets the condition keeps the queue intact. -/
theorem step (intact : Intact s nodes) {act : Act ncpu} {s' : State ncpu} (met : NoReturn s act)
    (taken : s.step act = some s') : ∃ nodes', Intact s' nodes' := by
  cases act with
  | run cpu spurious => exact intact.run met taken
  | add cpu node =>
    simp only [State.step, Option.ite_none_right_eq_some] at taken
    obtain ⟨⟨-, owned⟩, same⟩ := taken
    obtain rfl := Option.some.inj same
    exact ⟨nodes, intact.goto cpu (fun other adding => Option.some.inj adding ▸ owned) (by simp)⟩
  | fetch cpu =>
    simp only [State.step, Option.ite_none_right_eq_some] at taken
    obtain ⟨-, same⟩ := taken
    obtain rfl := Option.some.inj same
    exact ⟨nodes, intact.goto cpu (by simp [Pc.adds]) (by simp)⟩
  | write cpu node value =>
    simp only [State.step, Option.ite_none_right_eq_some] at taken
    obtain ⟨⟨-, owned⟩, same⟩ := taken
    obtain rfl := Option.some.inj same
    exact ⟨nodes, intact.setNext (intact.outside owned) value⟩
  | pass cpu node heir =>
    simp only [State.step, Option.ite_none_right_eq_some] at taken
    obtain ⟨⟨idle, owned⟩, same⟩ := taken
    obtain rfl := Option.some.inj same
    refine ⟨nodes, intact.setOwner heir (intact.outside owned) fun other adding => ?_⟩
    have theirs := intact.adds other node adding
    rw [owned] at theirs
    obtain rfl := Option.some.inj theirs
    simp [idle, Pc.adds] at adding

end Intact

/-- Where every node fetched was on the queue, a node fetched twice was added in between. -/
theorem Fair.added_between {history later middle earlier : List Event} {node : Nat}
    (fair : Fair history)
    (twice : history = later ++ .fetched node :: (middle ++ .fetched node :: earlier)) :
    .added node ∈ middle := by
  have back : queued (middle ++ .fetched node :: earlier) node = true := by
    rw [twice] at fair
    clear twice
    induction later with
    | nil => exact fair.1
    | cons event rest ih =>
      refine ih ?_
      cases event with
      | fetched other => exact fair.2
      | added other => exact fair
      | empty => exact fair
  clear twice
  induction middle with
  | nil => simp [queued] at back
  | cons event rest ih =>
    cases event with
    | added other =>
      simp only [List.cons_append, queued, Bool.or_eq_true, decide_eq_true_eq] at back
      rcases back with rfl | still
      · exact List.mem_cons_self
      · exact List.mem_cons_of_mem _ (ih still)
    | fetched other =>
      simp only [List.cons_append, queued, Bool.and_eq_true] at back
      exact List.mem_cons_of_mem _ (ih back.2)
    | empty => exact List.mem_cons_of_mem _ (ih back)

/-- In every run in which no node comes back to the queue while a CPU is about to take it off
with another successor, the nodes that the head leads to are those added and not fetched, each
once, and a node fetched twice was added in between. -/
theorem queue_holds_added_nodes (ncpu : Nat) {s : State ncpu}
    (reached : (machine ncpu).Reach NoReturn s) :
    (∃ nodes, Linked s.next nodes s.head ∧ nodes.Nodup ∧
      ∀ node, node ∈ nodes ↔ queued s.history node = true) ∧
    ∀ node later middle earlier,
      s.history = later ++ .fetched node :: (middle ++ .fetched node :: earlier) →
        .added node ∈ middle := by
  have intact : ∃ nodes, Intact s nodes := by
    refine reached.invariant (P := fun s => ∃ nodes, Intact s nodes)
      (fun s initial => ⟨[], ?_⟩) fun s act s' _ before met taken => ?_
    · obtain ⟨empty, idle, owned, new⟩ := initial
      exact ⟨empty, List.nodup_nil, by simp [owned], by simp [new, queued],
        by simp [idle, Pc.adds], by simp [idle], by simp [new, Fair]⟩
    · obtain ⟨nodes, intact⟩ := before
      exact intact.step met taken
  obtain ⟨nodes, intact⟩ := intact
  exact ⟨⟨nodes, intact.linked, intact.distinct, intact.present⟩,
    fun node later middle earlier twice => intact.fair.added_between twice⟩

/-- An empty queue whose nodes all belong to CPU 0. -/
def fresh : State 2 := ⟨none, fun _ => none, fun _ => .idle, fun _ => some 0, []⟩

/-- CPU 0 has added nodes 2, 1 and 0, and CPU 1 has read node 0 and its successor 1. -/
def overtaken : List (Act 2) :=
  [.add 0 2, .run 0 false, .run 0 false, .run 0 false,
    .add 0 1, .run 0 false, .run 0 false, .run 0 false,
    .add 0 0, .run 0 false, .run 0 false, .run 0 false,
    .fetch 1, .run 1 false, .run 1 false]

/-- CPU 0 takes node 0 and CPU 1 fails and takes node 1. -/
theorem queue_holds_added_nodes_afterFailure :
    ∃ s, (machine 2).Reach NoReturn s ∧
      (s.head, s.history) = (some 2, [.fetched 1, .fetched 0, .added 0, .added 1, .added 2]) ∧
      (∃ nodes, Linked s.next nodes s.head ∧ nodes.Nodup ∧
        ∀ node, node ∈ nodes ↔ queued s.history node = true) := by
  have shown : ((machine 2).exec NoReturn fresh (List.flatten [overtaken,
      [.fetch 0, .run 0 false, .run 0 false, .run 0 true, .run 0 false, .run 0 false, .run 0 false,
        .run 1 false, .run 1 false, .run 1 false, .run 1 false]])).map
      (fun s => (s.head, s.history)) =
      some (some 2, [.fetched 1, .fetched 0, .added 0, .added 1, .added 2]) := by
    decide +kernel
  obtain ⟨s, reached, observed⟩ := Machine.Reach.exec_map (by simp [machine, fresh]) shown
  exact ⟨s, reached, observed, (queue_holds_added_nodes 2 reached).1⟩

/-- CPU 0 takes nodes 0 and 1 and puts node 0 back before CPU 1 goes on: CPU 1 takes node 0 and
makes node 1 the head, which CPU 0 owns, and CPU 0 is given node 1 a second time. -/
theorem node_fetched_twice :
    (∃ s, (machine 2).Reach Machine.Any s ∧
      ¬ ∃ nodes, Linked s.next nodes s.head ∧ nodes.Nodup ∧
        ∀ node, node ∈ nodes ↔ queued s.history node = true) ∧
    ∃ s, (machine 2).Reach Machine.Any s ∧
      ¬ ∀ node later middle earlier,
        s.history = later ++ .fetched node :: (middle ++ .fetched node :: earlier) →
          .added node ∈ middle := by
  have wrongHead : ((machine 2).exec Machine.Any fresh (List.flatten [overtaken,
      [.fetch 0, .run 0 false, .run 0 false, .run 0 false,
        .fetch 0, .run 0 false, .run 0 false, .run 0 false,
        .add 0 0, .run 0 false, .run 0 false, .run 0 false, .run 1 false]])).map
      (fun s => (s.head, queued s.history 1)) = some (some 1, false) := by
    decide +kernel
  have twice : ((machine 2).exec Machine.Any fresh (List.flatten [overtaken,
      [.fetch 0, .run 0 false, .run 0 false, .run 0 false,
        .fetch 0, .run 0 false, .run 0 false, .run 0 false,
        .add 0 0, .run 0 false, .run 0 false, .run 0 false, .run 1 false,
        .fetch 0, .run 0 false, .run 0 false, .run 0 false]])).map State.history =
      some [.fetched 1, .fetched 0, .added 0, .fetched 1, .fetched 0, .added 0, .added 1,
        .added 2] := by
    decide +kernel
  obtain ⟨s, reached, observed⟩ := Machine.Reach.exec_map (by simp [machine, fresh]) wrongHead
  obtain ⟨s', reached', observed'⟩ := Machine.Reach.exec_map (by simp [machine, fresh]) twice
  refine ⟨⟨s, reached, ?_⟩, s', reached', ?_⟩
  · rintro ⟨nodes, linked, -, present⟩
    obtain ⟨head, away⟩ := Prod.mk.inj observed
    cases nodes with
    | nil =>
      have nothing : s.head = none := linked
      simp [nothing] at head
    | cons first rest =>
      obtain rfl : first = 1 := Option.some.inj (linked.1.symm.trans head)
      have there := (present 1).mp List.mem_cons_self
      simp [away] at there
  · intro between
    have added := between 1 [] [.fetched 0, .added 0] [.fetched 0, .added 0, .added 1, .added 2]
      observed'
    simp at added

end OsLab.Common.Queue
