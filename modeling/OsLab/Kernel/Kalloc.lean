import Mathlib.Data.List.Nodup
import Mathlib.Logic.Relation
import Mathlib.Algebra.BigOperators.Group.List.Basic
import OsLab.Aarch64.Mmu

/-!
# Memory in small pieces

`kalloc`, `kfree` and `merge` of `src/kernel/mem.c`. Each CPU has a list of nodes, linked through
memory; a node is a header of 16 bytes followed by as many bytes as it says. The functions run
under `memlock`, so each is one step. The list of a CPU is read here as a list of cells: the code
is shown to join, split and take cells, and what follows from that is said of the cells.
-/
namespace OsLab.Kernel.Kalloc

open OsLab.Aarch64 (pageSize)

/-- `sizeof(node)`. -/
def nodeBytes : Nat := 16

/-- The number of lists. -/
abbrev ncpu : Nat := 4

/-- `node`. -/
structure Node where
  /-- The next node of the list. -/
  next : Option Nat
  /-- The number of bytes after the header. -/
  size : Nat
  free : Bool
  deriving Repr, DecidableEq

/-- The lists and the headers in memory. -/
structure Heap where
  /-- `free[cpu]`. -/
  free : Fin ncpu → Option Nat
  /-- The header at an address. -/
  node : Nat → Node

namespace Heap

/-- Write a header. -/
def set (s : Heap) (h : Nat) (fields : Node) : Heap :=
  { s with node := Function.update s.node h fields }

/-- `merge`. It does nothing to a node without a next one. -/
def merge (s : Heap) (h : Nat) : Heap :=
  match (s.node h).next with
  | none => s
  | some p =>
    let s :=
      -- `PAGE_BASE(h)==PAGE_BASE(p)`
      if (s.node p).free = true ∧ h / pageSize = p / pageSize then
        s.set h { s.node h with
          next := (s.node p).next
          size := (s.node h).size + ((s.node p).size + nodeBytes) }
      else s
    s.set h { s.node h with free := true }

/-- The loop of `kalloc` from a node on: the node it stops at, or `none` in a heap where it has not
ended after so many rounds. -/
def search (size : Nat) : (rounds : Nat) → Heap → Option Nat → Option (Heap × Option Nat)
  | 0, _, _ => none
  | _ + 1, s, none => some (s, none)
  | rounds + 1, s, some h =>
    if (s.node h).free then
      let s := s.merge h
      if size ≤ (s.node h).size then some (s, some h) else search size rounds s (s.node h).next
    else search size rounds s (s.node h).next

/-- A page becomes the first node of a list. -/
def grow (s : Heap) (cpu : Fin ncpu) (page : Nat) : Heap :=
  { s.set page ⟨s.free cpu, pageSize - nodeBytes, true⟩ with
    free := Function.update s.free cpu (some page) }

/-- The end of `kalloc`: a node is split if enough is left, and taken. The difference of the sizes
has 64 bits. -/
def take (s : Heap) (h size : Nat) : Heap :=
  let s :=
    if nodeBytes < ((s.node h).size + 2 ^ 64 - size) % 2 ^ 64 then
      let p := h + nodeBytes + size
      let s := s.set p ⟨(s.node h).next, (s.node h).size - size - nodeBytes, true⟩
      s.set h { s.node h with next := some p }
    else s
  s.set h { s.node h with size, free := false }

/-- The size that `kalloc` looks for. -/
def roundUp (size : Nat) : Nat := (size / 8 + if size % 8 ≠ 0 then 1 else 0) * 8

/-- `kalloc`, where `kalloc_page` returns `page`: the pointer and the heap. -/
def kalloc (s : Heap) (cpu : Fin ncpu) (size page rounds : Nat) : Option (Nat × Heap) :=
  (search (roundUp size) rounds s (s.free cpu)).map fun
    | (s, some h) => (h + nodeBytes, s.take h (roundUp size))
    | (s, none) => (page + nodeBytes, (s.grow cpu page).take page (roundUp size))

/-- `kfree`. -/
def kfree (s : Heap) (p : Nat) : Heap := s.merge (p - nodeBytes)

end Heap

/-! ## Cells -/

/-- A node as part of a list. -/
structure Cell where
  /-- Where the header is. -/
  addr : Nat
  /-- The number of bytes after the header. -/
  size : Nat
  /-- It may be taken. -/
  free : Bool
  deriving Repr, DecidableEq

namespace Cell

/-- The number of its page. -/
def page (c : Cell) : Nat := c.addr / pageSize

/-- Two free cells made one. -/
def join (c d : Cell) : Cell := ⟨c.addr, c.size + (d.size + nodeBytes), true⟩

/-- It is aligned, and ends in its page. -/
structure Fits (c : Cell) : Prop where
  aligned : c.addr % 8 = 0
  /-- The bytes after the header end at an aligned address. -/
  whole : c.size % 8 = 0
  inside : c.addr % pageSize + nodeBytes + c.size ≤ pageSize

/-- In one page, the second starts behind the end of the first. -/
def Apart (c d : Cell) : Prop := c.page = d.page → c.addr + nodeBytes + c.size ≤ d.addr

end Cell

/-- The pointer to the first cell of a list. -/
def link (cells : List Cell) : Option Nat := cells.head?.map Cell.addr

/-- The headers in memory are those of the cells, linked in their order. -/
def Holds (node : Nat → Node) : List Cell → Prop
  | [] => True
  | c :: rest => node c.addr = ⟨link rest, c.size, c.free⟩ ∧ Holds node rest

/-- Two free neighbours of one page are joined. -/
inductive Joins : List Cell → List Cell → Prop where
  | intro (front : List Cell) {c d : Cell} (back : List Cell) (free : c.free = true)
      (free' : d.free = true) (same : c.page = d.page) :
    Joins (front ++ c :: d :: back) (front ++ c.join d :: back)

/-- Free neighbours have been joined, here and there. -/
def Merged : List Cell → List Cell → Prop := Relation.ReflTransGen Joins

/-! ## Lists in memory -/

namespace Holds

variable {node node' : Nat → Node} {pre post cells : List Cell} {c : Cell}

/-- Only the headers of the cells matter. -/
theorem congr (holds : Holds node cells) (same : ∀ d ∈ cells, node' d.addr = node d.addr) :
    Holds node' cells := by
  induction cells with
  | nil => trivial
  | cons d rest ih =>
    exact ⟨(same d List.mem_cons_self).trans holds.1,
      ih holds.2 fun e member => same e (List.mem_cons_of_mem _ member)⟩

/-- The end of a list. -/
theorem after (holds : Holds node (pre ++ post)) : Holds node post := by
  induction pre with
  | nil => exact holds
  | cons d rest ih => exact ih holds.2

/-- The end of a list is replaced by one that starts at the same address. -/
theorem replace {post' : List Cell} (holds : Holds node (pre ++ post))
    (same : ∀ d ∈ pre, node' d.addr = node d.addr) (start : link post' = link post)
    (holds' : Holds node' post') : Holds node' (pre ++ post') := by
  induction pre with
  | nil => exact holds'
  | cons d rest ih =>
    have first : link (rest ++ post) = link (rest ++ post') := by
      cases rest with
      | nil => exact start.symm
      | cons => rfl
    refine ⟨((same d List.mem_cons_self).trans holds.1).trans ?_,
      ih holds.2 fun e member => same e (List.mem_cons_of_mem _ member)⟩
    change (⟨link (rest ++ post), _, _⟩ : Node) = ⟨link (rest ++ post'), _, _⟩
    rw [first]

end Holds

/-- What `merge` makes of a cell and those after it. -/
def mergeCells (c : Cell) : List Cell → List Cell
  | [] => [c]
  | d :: rest =>
    if d.free = true ∧ c.page = d.page then c.join d :: rest else { c with free := true } :: d :: rest

/-- It starts at the same address. -/
theorem mergeCells_cons (c : Cell) (post : List Cell) :
    ∃ c' post', mergeCells c post = c' :: post' ∧ c'.addr = c.addr ∧ post'.length ≤ post.length ∧
      (c.free = true → c'.free = true) := by
  cases post with
  | nil => exact ⟨c, [], rfl, rfl, Nat.le_refl _, id⟩
  | cons d rest =>
    by_cases both : d.free = true ∧ c.page = d.page
    · exact ⟨c.join d, rest, if_pos both, rfl, Nat.le_succ _, fun _ => rfl⟩
    · exact ⟨{ c with free := true }, d :: rest, if_neg both, rfl, Nat.le_refl _, fun _ => rfl⟩

/-- Merging a free cell joins it with the next one or leaves everything as it is. -/
theorem Merged.mergeCells {c : Cell} (free : c.free = true) (pre post : List Cell) :
    Merged (pre ++ c :: post) (pre ++ mergeCells c post) := by
  cases post with
  | nil => exact .refl
  | cons d rest =>
    by_cases both : d.free = true ∧ c.page = d.page
    · rw [Kalloc.mergeCells, if_pos both]
      exact .single (.intro pre rest free both.1 both.2)
    · rw [Kalloc.mergeCells, if_neg both, ← free]
      exact .refl

/-- The addresses that are left are some of those before. -/
theorem Merged.sublist {cells cells' : List Cell} (merged : Merged cells cells') :
    (cells'.map Cell.addr).Sublist (cells.map Cell.addr) := by
  induction merged with
  | refl => exact .refl _
  | tail _ joins ih =>
    refine List.Sublist.trans ?_ ih
    cases joins with
    | intro front back =>
      simp only [List.map_append, List.map_cons]
      exact (List.Sublist.cons_cons _ (List.sublist_cons_self _ _)).append_left _

/-- The list starts where it did. -/
theorem Merged.link {cells cells' : List Cell} (merged : Merged cells cells') :
    link cells' = link cells := by
  induction merged with
  | refl => rfl
  | tail _ joins ih =>
    refine Eq.trans ?_ ih
    cases joins with
    | intro front back => cases front <;> rfl

/-- The other cells have other headers. -/
theorem ne_of_nodup {pre post : List Cell} {c : Cell}
    (nodup : ((pre ++ c :: post).map Cell.addr).Nodup) :
    (∀ d ∈ pre, d.addr ≠ c.addr) ∧ ∀ d ∈ post, d.addr ≠ c.addr := by
  rw [List.map_append, List.map_cons, List.nodup_append, List.nodup_cons] at nodup
  exact ⟨fun d member same => nodup.2.2 _ (List.mem_map_of_mem member) _ (by simp) same,
    fun d member same => nodup.2.1.1 (same ▸ List.mem_map_of_mem member)⟩

namespace Heap

variable {s : Heap} {pre post : List Cell} {c : Cell}

@[simp] theorem set_node_self (s : Heap) (h : Nat) (fields : Node) : (s.set h fields).node h = fields :=
  Function.update_self ..

theorem set_node_of_ne {h a : Nat} (different : a ≠ h) (s : Heap) (fields : Node) :
    (s.set h fields).node a = s.node a :=
  Function.update_of_ne different ..

/-- `merge` writes one header. -/
theorem merge_frame (s : Heap) (h : Nat) :
    (s.merge h).free = s.free ∧ ∀ a, a ≠ h → (s.merge h).node a = s.node a := by
  rw [merge]
  split
  · exact ⟨rfl, fun _ _ => rfl⟩
  · constructor
    · split <;> rfl
    · intro a different
      split <;> simp only [set_node_of_ne different]

/-- `merge` on the cells. -/
theorem merge_cells (holds : Holds s.node (pre ++ c :: post))
    (nodup : ((pre ++ c :: post).map Cell.addr).Nodup) :
    Holds (s.merge c.addr).node (pre ++ mergeCells c post) := by
  obtain ⟨-, others⟩ := merge_frame s c.addr
  have here := holds.after
  obtain ⟨apart, apart'⟩ := ne_of_nodup nodup
  have start : link (mergeCells c post) = link (c :: post) := by
    obtain ⟨c', post', eq, same, -⟩ := mergeCells_cons c post
    rw [eq, link, List.head?_cons, Option.map_some, same]
    rfl
  refine holds.replace (fun d member => others _ (apart d member)) start ?_
  cases post with
  | nil =>
    have next : (s.node c.addr).next = none := by rw [here.1]; rfl
    rw [merge, next]
    exact here
  | cons d rest =>
    have next : (s.node c.addr).next = some d.addr := by rw [here.1]; rfl
    have rest' : Holds (s.merge c.addr).node (d :: rest) :=
      here.2.congr fun e member => others _ (apart' e member)
    rw [mergeCells]
    split
    next both =>
      refine ⟨?_, rest'.2⟩
      have joined : (s.node d.addr).free = true ∧ c.addr / pageSize = d.addr / pageSize := by
        rw [here.2.1]
        exact both
      rw [merge, next]
      simp only
      rw [if_pos joined, set_node_self, here.1, here.2.1]
      exact set_node_self ..
    next apart =>
      refine ⟨?_, rest'⟩
      have parted : ¬ ((s.node d.addr).free = true ∧ c.addr / pageSize = d.addr / pageSize) := by
        rw [here.2.1]
        exact apart
      rw [merge, next]
      simp only
      rw [if_neg parted, set_node_self, here.1]

/-- What the loop of `kalloc` does to a list: it joins free cells, writes to no other headers, and
stops at a free cell that is large enough. -/
structure Searched (size : Nat) (s : Heap) (cells : List Cell) (s' : Heap) (cells' : List Cell)
    (found : Option Nat) : Prop where
  free : s'.free = s.free
  others : ∀ a, a ∉ cells.map Cell.addr → s'.node a = s.node a
  merged : Merged cells cells'
  holds : Holds s'.node cells'
  large : ∀ h, found = some h → ∃ front c back, cells' = front ++ c :: back ∧ c.addr = h ∧
    c.free = true ∧ size ≤ c.size

/-- The loop goes on with what a round has left. -/
theorem Searched.after {size : Nat} {s₁ s' : Heap} {cells cells₁ cells' : List Cell}
    {found : Option Nat} (free : s₁.free = s.free)
    (others : ∀ a, a ∉ cells.map Cell.addr → s₁.node a = s.node a) (merged : Merged cells cells₁)
    (later : Searched size s₁ cells₁ s' cells' found) : Searched size s cells s' cells' found where
  free := later.free.trans free
  others a outside := (later.others a fun member => outside (merged.sublist.mem member)).trans
    (others a outside)
  merged := merged.trans later.merged
  holds := later.holds
  large := later.large

/-- The loop of `kalloc` ends. -/
theorem search_cells {size rounds : Nat} (holds : Holds s.node (pre ++ post))
    (nodup : ((pre ++ post).map Cell.addr).Nodup) (enough : post.length < rounds) :
    ∃ s' cells' found, search size rounds s (link post) = some (s', found) ∧
      Searched size s (pre ++ post) s' cells' found := by
  induction rounds generalizing s pre post with
  | zero => omega
  | succ rounds ih =>
    cases post with
    | nil => exact ⟨s, pre ++ [], none, rfl, rfl, fun _ _ => rfl, .refl, holds, by simp⟩
    | cons c rest =>
      have here := holds.after.1
      change ∃ s' cells' found, search size (rounds + 1) s (some c.addr) = some (s', found) ∧ _
      rw [List.length_cons] at enough
      by_cases free : c.free = true
      · have holds₁ := merge_cells holds nodup
        have merged : Merged (pre ++ c :: rest) (pre ++ mergeCells c rest) := .mergeCells free _ _
        obtain ⟨frame, others⟩ := merge_frame s c.addr
        obtain ⟨c₁, rest₁, eq, same, fewer, free₁⟩ := mergeCells_cons c rest
        rw [eq] at holds₁ merged
        have here₁ := holds₁.after.1
        rw [same] at here₁
        replace others : ∀ a, a ∉ (pre ++ c :: rest).map Cell.addr →
            (s.merge c.addr).node a = s.node a :=
          fun a outside => others a fun equal => outside (by simp [equal])
        simp only [search, here, free, if_true, here₁]
        by_cases large : size ≤ c₁.size
        · refine ⟨s.merge c.addr, pre ++ c₁ :: rest₁, some c.addr, if_pos large, frame, others,
            merged, holds₁, ?_⟩
          rintro h ⟨rfl⟩
          exact ⟨pre, c₁, rest₁, rfl, same, free₁ free, large⟩
        · rw [if_neg large]
          have nodup₁ := merged.sublist.nodup nodup
          rw [List.append_cons pre c₁] at holds₁ nodup₁ merged
          obtain ⟨s', cells', found, eq', later⟩ := ih holds₁ nodup₁ (by omega)
          exact ⟨s', cells', found, eq', later.after frame others merged⟩
      · simp only [search, here, free, Bool.false_eq_true, if_false]
        rw [List.append_cons] at holds nodup ⊢
        exact ih holds nodup (by omega)

/-- More rounds find the same. -/
theorem search_mono {size rounds more : Nat} {h : Option Nat} {result : Heap × Option Nat}
    (found : search size rounds s h = some result) (enough : rounds ≤ more) :
    search size more s h = some result := by
  induction rounds generalizing more s h with
  | zero => cases found
  | succ rounds ih =>
    obtain ⟨more, rfl⟩ : ∃ less, more = less + 1 := ⟨more - 1, by omega⟩
    cases h with
    | none => exact found
    | some h =>
      rw [search] at found ⊢
      split at found
      next free =>
        rw [if_pos free]
        simp only at found ⊢
        split at found
        next large => rwa [if_pos large]
        next small =>
          rw [if_neg small]
          exact ih found (by omega)
      next taken =>
        rw [if_neg taken]
        exact ih found (by omega)

end Heap

/-- Taking a cell: what is left becomes a cell if it is large enough. -/
def takeCell (c : Cell) (size : Nat) : List Cell :=
  if nodeBytes < c.size - size then
    [⟨c.addr, size, false⟩, ⟨c.addr + nodeBytes + size, c.size - size - nodeBytes, true⟩]
  else [⟨c.addr, size, false⟩]

namespace Heap

variable {s : Heap} {pre post : List Cell} {c : Cell} {size : Nat}

/-- `take` writes the header of the node, and one behind it if it splits the node. -/
theorem take_frame (s : Heap) (h size : Nat) :
    (s.take h size).free = s.free ∧
      ∀ a, a ≠ h → (nodeBytes < ((s.node h).size + 2 ^ 64 - size) % 2 ^ 64 →
        a ≠ h + nodeBytes + size) → (s.take h size).node a = s.node a := by
  rw [take]
  constructor
  · split <;> rfl
  · intro a different different'
    split
    next split => simp only [set_node_of_ne different, set_node_of_ne (different' split)]
    next => exact set_node_of_ne different _ _

/-- The end of `kalloc` on the cells. -/
theorem take_cells (holds : Holds s.node (pre ++ c :: post))
    (nodup : ((pre ++ c :: post).map Cell.addr).Nodup) (enough : size ≤ c.size)
    (small : c.size < 2 ^ 64) (fresh : nodeBytes < c.size - size →
      c.addr + nodeBytes + size ∉ (pre ++ c :: post).map Cell.addr) :
    Holds (s.take c.addr size).node (pre ++ (takeCell c size ++ post)) := by
  have here := holds.after
  have wrap : (c.size + 2 ^ 64 - size) % 2 ^ 64 = c.size - size := by omega
  obtain ⟨apart, apart'⟩ := ne_of_nodup nodup
  obtain ⟨-, others⟩ := take_frame s c.addr size
  rw [here.1, wrap] at others
  by_cases split : nodeBytes < c.size - size
  · have away := fresh split
    have aside : ∀ d ∈ pre ++ c :: post, d.addr ≠ c.addr + nodeBytes + size := fun d member same =>
      away (same ▸ List.mem_map_of_mem member)
    have behind : c.addr + nodeBytes + size ≠ c.addr := by rw [nodeBytes]; omega
    rw [takeCell, if_pos split]
    refine holds.replace
      (fun d member => others _ (apart d member) fun _ => aside d (by simp [member])) rfl
      ⟨?_, ?_, here.2.congr fun d member =>
        others _ (apart' d member) fun _ => aside d (by simp [member])⟩
    · simp only [take, here.1, wrap, split, if_true, set_node_self, set_node_of_ne behind.symm]
      rfl
    · simp only [take, here.1, wrap, split, if_true, set_node_self, set_node_of_ne behind]
      rfl
  · rw [takeCell, if_neg split]
    refine holds.replace (fun d member => others _ (apart d member) fun more => absurd more split) rfl
      ⟨?_, here.2.congr fun d member => others _ (apart' d member) fun more => absurd more split⟩
    simp only [take, here.1, wrap, split, if_false, set_node_self]
    rfl

/-- A page becomes the first cell of a list. -/
theorem grow_cells {cells : List Cell} {cpu : Fin ncpu} {page : Nat} (holds : Holds s.node cells)
    (start : s.free cpu = link cells) (fresh : page ∉ cells.map Cell.addr) :
    Holds (s.grow cpu page).node (⟨page, pageSize - nodeBytes, true⟩ :: cells) := by
  refine ⟨?_, holds.congr fun d member => ?_⟩
  · simp only [grow, set_node_self, start]
  · have different : d.addr ≠ page := fun same => fresh (same ▸ List.mem_map_of_mem member)
    exact set_node_of_ne different _ _

end Heap

end OsLab.Kernel.Kalloc
