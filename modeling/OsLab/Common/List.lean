import Mathlib.Data.List.Nodup
import Mathlib.Logic.Function.Basic

/-!
# Circular lists

The lists of `src/common/list.h` and `src/common/list.c`, whose nodes are parts of other structures:
a list is named by any of its nodes, mostly by one that is nothing but the head. Nodes are named by
their addresses, with 0 for `NULL`.
-/
namespace OsLab.Common

/-- The nodes in memory. -/
structure Links where
  next : Nat → Nat
  prev : Nat → Nat

namespace Links

/-- `init_list_node`. -/
def initListNode (l : Links) (node : Nat) : Links where
  next := Function.update l.next node node
  prev := Function.update l.prev node node

/-- `_merge_list`. -/
def mergeList (l : Links) (node1 node2 : Nat) : Links :=
  if node1 = 0 ∨ node2 = 0 then l
  else
    let node3 := l.next node1
    let node4 := l.prev node2
    { next := Function.update (Function.update l.next node1 node2) node4 node3
      prev := Function.update (Function.update l.prev node2 node1) node3 node4 }

/-- `_insert_into_list`. -/
def insertIntoList (l : Links) (list node : Nat) : Links :=
  (l.initListNode node).mergeList list node

/-- `_detach_from_list`. -/
def detachFromList (l : Links) (node : Nat) : Links :=
  let l := { l with next := Function.update l.next (l.prev node) (l.next node) }
  let l := { l with prev := Function.update l.prev (l.next node) (l.prev node) }
  l.initListNode node

/-- `_detach_from_list(node)` and `_insert_into_list(head->prev, node)`. -/
def moveLast (l : Links) (head node : Nat) : Links :=
  let l := l.detachFromList node
  l.insertIntoList (l.prev head) node

/-- The nodes that `_for_in_list` visits from `val` on, in at most `fuel` turns; `none` where the
loop has not ended by then. -/
def forInList (l : Links) (flag : Nat) : Nat → Nat → Option (List Nat)
  | 0, _ => none
  | fuel + 1, val =>
    if val = 0 then some []
    else if val = flag then some [val]
    else (l.forInList flag fuel (l.next val)).map (val :: ·)

/-- `nodes` come after `node`, and `last` after them. -/
def Linked (l : Links) : Nat → List Nat → Nat → Prop
  | node, [], last => l.next node = last ∧ l.prev last = node
  | node, next :: rest, last => l.next node = next ∧ l.prev next = node ∧ l.Linked next rest last

/-- The list with the head `head` has the nodes `nodes`, in this order. -/
structure Ring (l : Links) (head : Nat) (nodes : List Nat) : Prop where
  linked : l.Linked head nodes head
  nodup : (head :: nodes).Nodup
  nonzero : 0 ∉ head :: nodes

section Rings

variable {l l' : Links} {head node last : Nat} {nodes : List Nat}

/-- A part of a list is as it is where its links are. -/
theorem Linked.congr (linked : l.Linked node nodes last)
    (next : ∀ other ∈ node :: nodes, l'.next other = l.next other)
    (prev : ∀ other ∈ nodes ++ [last], l'.prev other = l.prev other) :
    l'.Linked node nodes last := by
  induction nodes generalizing node with
  | nil => exact ⟨(next node (by simp)).trans linked.1, (prev last (by simp)).trans linked.2⟩
  | cons first rest ih =>
    obtain ⟨forward, backward, linked⟩ := linked
    exact ⟨(next node (by simp)).trans forward, (prev first (by simp)).trans backward,
      ih linked (fun other member => next other (List.mem_cons_of_mem _ member))
        fun other member => prev other (List.mem_cons_of_mem _ member)⟩

/-- A list is as it is where its links are. -/
theorem Ring.congr (ring : l.Ring head nodes)
    (same : ∀ other ∈ head :: nodes, l'.next other = l.next other ∧ l'.prev other = l.prev other) :
    l'.Ring head nodes := by
  refine ⟨ring.linked.congr (fun other member => (same other member).1) fun other member => ?_,
    ring.nodup, ring.nonzero⟩
  rw [List.mem_append, List.mem_singleton] at member
  exact (same other (by rw [List.mem_cons]; exact member.symm)).2

/-- A node alone. -/
theorem ring_initListNode (nonzero : head ≠ 0) : (l.initListNode head).Ring head [] := by
  refine ⟨⟨?_, ?_⟩, by simp, by simpa using nonzero.symm⟩ <;> simp [initListNode]

/-- Nodes other than the one that is initialised. -/
theorem initListNode_other {other : Nat} (different : other ≠ node) :
    (l.initListNode node).next other = l.next other ∧
      (l.initListNode node).prev other = l.prev other := by
  simp [initListNode, different]

/-- The links of nodes after an insertion. -/
theorem insertIntoList_eq (nonzero : head ≠ 0) (nonzero' : node ≠ 0) (new : node ≠ head)
    (other : Nat) :
    (l.insertIntoList head node).next other =
        (if other = node then l.next head else if other = head then node else l.next other) ∧
      (l.insertIntoList head node).prev other =
        if other = l.next head then node else if other = node then head else l.prev other := by
  have first : (l.initListNode node).next head = l.next head := (initListNode_other new.symm).1
  have second : (l.initListNode node).prev node = node := by simp [initListNode]
  rw [insertIntoList, mergeList, if_neg (by simp [nonzero, nonzero'])]
  simp only [first, second]
  simp only [initListNode, Function.update_apply]
  refine ⟨?_, ?_⟩ <;> split_ifs <;> rfl

/-- A node is inserted after the head. -/
theorem Ring.insertIntoList (ring : l.Ring head nodes) (new : node ∉ head :: nodes)
    (nonzero : node ≠ 0) : (l.insertIntoList head node).Ring head (node :: nodes) := by
  obtain ⟨linked, nodup, nonzeros⟩ := ring
  simp only [List.mem_cons, not_or] at new nonzeros
  have links := insertIntoList_eq (l := l) (Ne.symm nonzeros.1) nonzero new.1
  refine ⟨?_, ?_, ?_⟩
  · cases nodes with
    | nil =>
      obtain ⟨forward, backward⟩ := linked
      refine ⟨?_, ?_, ?_, ?_⟩ <;> simp [links, forward, Ne.symm new.1, new.1]
    | cons first rest =>
      obtain ⟨forward, backward, linked⟩ := linked
      simp only [List.mem_cons, not_or, List.nodup_cons] at new nodup
      refine ⟨?_, ?_, ?_, ?_, linked.congr (fun other member => ?_) fun other member => ?_⟩
      · simp [links, Ne.symm new.1]
      · simp [links, forward, new.2.1]
      · simp [links, forward]
      · simp [links, forward]
      · have inside : other ≠ node ∧ other ≠ head := by
          rw [List.mem_cons] at member
          rcases member with rfl | member
          · exact ⟨Ne.symm new.2.1, Ne.symm nodup.1.1⟩
          · exact ⟨fun same => new.2.2 (same ▸ member), fun same => nodup.1.2 (same ▸ member)⟩
        simp [links, inside]
      · have inside : other ≠ node ∧ other ≠ first := by
          rw [List.mem_append, List.mem_singleton] at member
          rcases member with member | rfl
          · exact ⟨fun same => new.2.2 (same ▸ member), fun same => nodup.2.1 (same ▸ member)⟩
          · exact ⟨Ne.symm new.1, nodup.1.1⟩
        simp [links, forward, inside]
  · simp only [List.nodup_cons, List.mem_cons, not_or] at nodup ⊢
    exact ⟨⟨Ne.symm new.1, nodup.1⟩, new.2, nodup.2⟩
  · simp only [List.mem_cons, not_or]
    exact ⟨nonzeros.1, Ne.symm nonzero, nonzeros.2⟩

/-! ### Lists from any of their nodes -/

/-- A list from a node to another goes through the nodes between them. -/
theorem linked_append {before after : List Nat} :
    l.Linked head (before ++ node :: after) last ↔
      l.Linked head before node ∧ l.Linked node after last := by
  induction before generalizing head with
  | nil => simp [Linked, and_assoc]
  | cons first rest ih => simp [Linked, and_assoc, ih]

/-- A list named by another of its nodes. -/
theorem Ring.turn {before after : List Nat} (ring : l.Ring head (before ++ node :: after)) :
    l.Ring node (after ++ head :: before) := by
  obtain ⟨linked, nodup, nonzero⟩ := ring
  obtain ⟨first, second⟩ := linked_append.mp linked
  have same : (node :: (after ++ head :: before)).Perm (head :: (before ++ node :: after)) :=
    calc
      (node :: after ++ head :: before).Perm (head :: (node :: after ++ before)) := List.perm_middle
      _ |>.Perm (head :: (before ++ node :: after)) := .cons head List.perm_append_comm
  exact ⟨linked_append.mpr ⟨second, first⟩, same.nodup_iff.mpr nodup,
    fun zero => nonzero (same.mem_iff.mp zero)⟩

/-- What comes before the end is on the way. -/
theorem Linked.prev_mem (linked : l.Linked node nodes last) : l.prev last ∈ node :: nodes := by
  induction nodes generalizing node with
  | nil => simp [linked.2]
  | cons first rest ih => exact List.mem_cons_of_mem _ (ih linked.2.2)

/-- What comes first is on the way, or the end. -/
theorem Linked.next_mem (linked : l.Linked node nodes last) : l.next node ∈ nodes ++ [last] := by
  cases nodes with
  | nil => simp [linked.1]
  | cons first rest => simp [linked.1]

/-- The links of nodes after a node was taken out. -/
theorem detachFromList_eq (apart : l.next node ≠ node ∧ l.prev node ≠ node) (other : Nat) :
    (l.detachFromList node).next other =
        (if other = node then node else if other = l.prev node then l.next node
          else l.next other) ∧
      (l.detachFromList node).prev other =
        if other = node then node else if other = l.next node then l.prev node
          else l.prev other := by
  simp only [detachFromList, initListNode, Function.update_apply, Ne.symm apart.2, if_false]
  trivial

/-- The last link of a part of a list leads elsewhere. -/
theorem Linked.retarget {target : Nat} (linked : l.Linked node nodes last)
    (nodup : (node :: nodes).Nodup)
    (next : ∀ other ∈ node :: nodes, other ≠ l.prev last → l'.next other = l.next other)
    (prev : ∀ other ∈ nodes, l'.prev other = l.prev other)
    (joined : l'.next (l.prev last) = target ∧ l'.prev target = l.prev last) :
    l'.Linked node nodes target := by
  induction nodes generalizing node with
  | nil =>
    rw [linked.2] at joined
    exact joined
  | cons first rest ih =>
    obtain ⟨forward, backward, linked⟩ := linked
    obtain ⟨outside, nodup⟩ := List.nodup_cons.mp nodup
    have apart : node ≠ l.prev last := fun same => outside (same ▸ linked.prev_mem)
    refine ⟨(next node List.mem_cons_self apart).trans forward,
      (prev first List.mem_cons_self).trans backward, ih linked nodup ?_ ?_⟩
    · exact fun other member => next other (List.mem_cons_of_mem _ member)
    · exact fun other member => prev other (List.mem_cons_of_mem _ member)

/-- A node is taken out of its list. -/
theorem Ring.detachFromList {before after : List Nat}
    (ring : l.Ring head (before ++ node :: after)) :
    (l.detachFromList node).Ring head (before ++ after) := by
  obtain ⟨linked, nodup, nonzero⟩ := ring
  obtain ⟨first, second⟩ := linked_append.mp linked
  have fewer : (head :: (before ++ after)).Sublist (head :: (before ++ node :: after)) :=
    ((List.sublist_cons_self node after).append_left before).cons_cons head
  refine ⟨?_, nodup.sublist fewer, fun zero => nonzero (fewer.subset zero)⟩
  have behind := first.prev_mem
  have ahead := second.next_mem
  have chain : (head :: before).Nodup := nodup.sublist (by simp)
  simp only [List.nodup_cons, List.nodup_append, List.mem_append, List.mem_cons, not_or] at nodup
  obtain ⟨⟨headBefore, headNode, headAfter⟩, -, ⟨nodeAfter, nodupAfter⟩, disjoint⟩ := nodup
  have nodeBefore : node ∉ head :: before := by
    rw [List.mem_cons, not_or]
    exact ⟨Ne.symm headNode, fun inside => disjoint node inside node (.inl rfl) rfl⟩
  have nodeAhead : node ∉ after ++ [head] := by
    simp [nodeAfter, Ne.symm headNode]
  have nextNode : l.next node ≠ node := fun same => nodeAhead (same ▸ ahead)
  have prevNode : l.prev node ≠ node := fun same => nodeBefore (same ▸ behind)
  have links := detachFromList_eq ⟨nextNode, prevNode⟩
  -- up to the node, the list is as it was; its last link leads to what came after the node
  have start : (l.detachFromList node).Linked head before (l.next node) := by
    refine first.retarget chain (fun other member apart => ?_) (fun other member => ?_) ⟨?_, ?_⟩
    · have differs : other ≠ node := fun same => nodeBefore (same ▸ member)
      rw [(links other).1, if_neg differs, if_neg apart]
    · have differs : other ≠ node := fun same => nodeBefore (same ▸ List.mem_cons_of_mem _ member)
      have notAhead : other ≠ l.next node := by
        rintro rfl
        rw [List.mem_append, List.mem_singleton] at ahead
        obtain inside | same := ahead
        · exact disjoint _ member _ (.inr inside) rfl
        · exact headBefore (same ▸ member)
      rw [(links other).2, if_neg differs, if_neg notAhead]
    · rw [(links _).1, if_neg prevNode, if_pos rfl]
    · rw [(links _).2, if_neg nextNode, if_pos rfl]
  cases after with
  | nil =>
    rw [second.1] at start
    rwa [List.append_nil]
  | cons next rest =>
    obtain ⟨forward, backward, rest_linked⟩ := second
    rw [forward] at start links
    refine linked_append.mpr ⟨start, rest_linked.congr (fun other member => ?_)
      fun other member => ?_⟩
    · have differs : other ≠ node := fun same => nodeAfter (same ▸ member)
      have notBehind : other ≠ l.prev node := by
        rintro rfl
        rw [List.mem_cons] at behind
        obtain same | inside := behind
        · exact headAfter (same ▸ member)
        · exact disjoint _ inside _ (.inr member) rfl
      rw [(links other).1, if_neg differs, if_neg notBehind]
    · have differs : other ≠ node := by
        rintro rfl
        exact nodeAhead (by simpa [or_assoc] using Or.inr (List.mem_append.mp member))
      have notNext : other ≠ next := by
        rintro rfl
        rw [List.mem_append, List.mem_singleton] at member
        obtain inside | same := member
        · exact (List.nodup_cons.mp nodupAfter).1 inside
        · exact headAfter (same ▸ List.mem_cons_self)
      rw [(links other).2, if_neg differs, if_neg notNext]

/-- A node is inserted before the head. -/
theorem Ring.insertLast (ring : l.Ring head nodes) (new : node ∉ head :: nodes)
    (nonzero : node ≠ 0) :
    (l.insertIntoList (l.prev head) node).Ring head (nodes ++ [node]) := by
  rcases List.eq_nil_or_concat nodes with rfl | ⟨init, tail, rfl⟩
  · rw [show l.prev head = head from ring.linked.2]
    exact ring.insertIntoList new nonzero
  · rw [List.concat_eq_append] at ring new ⊢
    have last : l.prev head = tail := (linked_append.mp ring.linked).2.2
    have seen : (l.insertIntoList tail node).Ring tail ([node] ++ head :: init) :=
      (Ring.turn ring).insertIntoList (by simpa [or_comm, or_assoc, or_left_comm] using new) nonzero
    rw [last]
    simpa using Ring.turn seen

/-- The last node leads to the end. -/
theorem Linked.next_prev (linked : l.Linked node nodes last) : l.next (l.prev last) = last := by
  induction nodes generalizing node with
  | nil => rw [linked.2, linked.1]
  | cons first rest ih => exact ih linked.2.2

/-- Taking a node out leaves the others in their order. -/
theorem Ring.erase (ring : l.Ring head nodes) (member : node ∈ nodes) :
    (l.detachFromList node).Ring head (nodes.erase node) := by
  have nodup := (List.nodup_cons.mp ring.nodup).2
  obtain ⟨before, after, rfl⟩ := List.mem_iff_append.mp member
  have outsideBefore : node ∉ before := fun inside =>
    (List.nodup_append.mp nodup).2.2 node inside node List.mem_cons_self rfl
  rw [List.erase_append_right _ outsideBefore, List.erase_cons_head]
  exact ring.detachFromList

/-- Nodes that are not in the list stay as they are when a node is taken out. -/
theorem Ring.detachFromList_other {other : Nat} (ring : l.Ring head nodes) (member : node ∈ nodes)
    (outside : other ∉ head :: nodes) :
    (l.detachFromList node).next other = l.next other ∧
      (l.detachFromList node).prev other = l.prev other := by
  obtain ⟨before, after, rfl⟩ := List.mem_iff_append.mp member
  have behind := (linked_append.mp ring.linked).1.prev_mem
  have ahead := (linked_append.mp ring.linked).2.next_mem
  have nodup := ring.nodup
  simp only [List.nodup_cons, List.nodup_append, List.mem_append, List.mem_cons,
    not_or] at nodup outside behind ahead
  have apart : l.next node ≠ node ∧ l.prev node ≠ node := by grind
  rw [(detachFromList_eq apart other).1, (detachFromList_eq apart other).2]
  grind

/-- A node goes to the end of its list, and other lists stay as they are. -/
theorem Ring.moveLast (ring : l.Ring head nodes) (member : node ∈ nodes) :
    (l.moveLast head node).Ring head (nodes.erase node ++ [node]) ∧
      ∀ other, other ∉ head :: nodes → (l.moveLast head node).next other = l.next other ∧
        (l.moveLast head node).prev other = l.prev other := by
  have nonzero : node ≠ 0 := fun zero => ring.nonzero (zero ▸ List.mem_cons_of_mem _ member)
  obtain ⟨outsideHead, nodup⟩ := List.nodup_cons.mp ring.nodup
  have detached := ring.erase member
  have new : node ∉ head :: nodes.erase node := by
    rw [List.mem_cons, not_or, nodup.mem_erase_iff]
    exact ⟨fun same => outsideHead (same ▸ member), fun inside => inside.1 rfl⟩
  refine ⟨detached.insertLast new nonzero, fun other outside => ?_⟩
  have place := detached.linked.prev_mem
  have inside : ∀ inner ∈ head :: nodes.erase node, other ≠ inner ∧ node ≠ inner ∧ inner ≠ 0 := by
    intro inner innerMember
    refine ⟨?_, fun same => new (same ▸ innerMember), fun zero =>
      detached.nonzero (zero ▸ innerMember)⟩
    rintro rfl
    exact outside (List.cons_subset_cons head List.erase_subset innerMember)
  obtain ⟨otherPlace, nodePlace, placeZero⟩ := inside _ place
  have links := insertIntoList_eq (l := l.detachFromList node) placeZero nonzero nodePlace other
  have kept := ring.detachFromList_other member outside
  have otherNode : other ≠ node := fun same => outside (same ▸ List.mem_cons_of_mem _ member)
  have otherHead : other ≠ head := fun same => outside (same ▸ List.mem_cons_self)
  rw [detached.linked.next_prev] at links
  rw [Links.moveLast, links.1, links.2, if_neg otherNode, if_neg otherPlace, if_neg otherHead,
    if_neg otherNode]
  exact kept

/-- `_for_in_list` visits the nodes of a part of a list, and ends at the head. -/
theorem Linked.forInList (linked : l.Linked node nodes head) (outside : head ∉ nodes)
    (nonzero : 0 ∉ head :: nodes) {fuel : Nat} (enough : nodes.length < fuel) :
    l.forInList head fuel (l.next node) = some (nodes ++ [head]) := by
  induction nodes generalizing node fuel with
  | nil =>
    obtain ⟨fuel, rfl⟩ : ∃ less, fuel = less + 1 := ⟨fuel - 1, by omega⟩
    have named : head ≠ 0 := by simpa [eq_comm] using nonzero
    simp [Links.forInList, linked.1, named]
  | cons first rest ih =>
    obtain ⟨fuel, rfl⟩ : ∃ less, fuel = less + 1 := ⟨fuel - 1, by omega⟩
    rw [List.length_cons] at enough
    simp only [List.mem_cons, not_or] at outside nonzero
    obtain ⟨forward, -, linked⟩ := linked
    have rest := ih linked outside.2 (by simp [nonzero]) (show rest.length < fuel by omega)
    simp [Links.forInList, forward, Ne.symm nonzero.2.1, Ne.symm outside.1, rest]

/-- `_for_in_list` ends. -/
theorem Ring.forInList (ring : l.Ring head nodes) {fuel : Nat} (enough : nodes.length < fuel) :
    l.forInList head fuel (l.next head) = some (nodes ++ [head]) :=
  ring.linked.forInList (List.nodup_cons.mp ring.nodup).1 ring.nonzero enough

/-- `_for_in_list` does not end where two nodes other than the head lead to each other. -/
theorem forInList_endless {flag one other : Nat} (there : l.next one = other)
    (back : l.next other = one) (nonzero : one ≠ 0 ∧ other ≠ 0)
    (different : one ≠ flag ∧ other ≠ flag) (fuel : Nat) :
    l.forInList flag fuel one = none ∧ l.forInList flag fuel other = none := by
  induction fuel with
  | zero => exact ⟨rfl, rfl⟩
  | succ fuel ih => simp [Links.forInList, there, back, nonzero, different, ih]

end Rings

end Links

end OsLab.Common
