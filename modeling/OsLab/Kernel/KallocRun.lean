import OsLab.Lib.Transition
import OsLab.Kernel.Kalloc
import Mathlib.Data.List.Pairwise
import Mathlib.Order.CompletePartialOrder
import Mathlib.Order.Interval.Set.Disjoint

/-!
# What `kalloc` gives out

Calls of `kalloc` and `kfree` in any order, from any CPU. The cells of a page lie behind one another:
joining neighbours, splitting a cell and taking it keep that, so what is given out is never given
out twice. Memory is lost all the same: `kalloc` cuts off what is left of a cell when it is too small
for a header, and `merge` does not free a node that is the last of its list.
-/
namespace OsLab.Kernel.Kalloc

open OsLab.Lib
open OsLab.Aarch64 (pageSize)

/-! ## Cells that lie behind one another -/

/-- The cells of a list fit in their pages and do not overlap. -/
structure Tiles (cells : List Cell) : Prop where
  fits : ∀ c ∈ cells, c.Fits
  apart : cells.Pairwise Cell.Apart

/-- Some cells are replaced by others in the room they had. -/
structure Recut (mid mid' : List Cell) : Prop where
  fits : ∀ c ∈ mid', c.Fits
  apart : mid'.Pairwise Cell.Apart
  before : ∀ x : Cell, (∀ m ∈ mid, x.Apart m) → ∀ m ∈ mid', x.Apart m
  after : ∀ y : Cell, (∀ m ∈ mid, m.Apart y) → ∀ m ∈ mid', m.Apart y
  page : ∀ c ∈ mid', ∃ d ∈ mid, d.page = c.page

section Cells

variable {pre mid mid' post cells : List Cell} {c d : Cell} {size : Nat}

theorem Tiles.nodup (tiles : Tiles cells) : (cells.map Cell.addr).Nodup := by
  rw [List.Nodup, List.pairwise_map]
  refine tiles.apart.imp fun {c d} apart same => ?_
  have behind := apart (by rw [Cell.page, same, Cell.page])
  rw [same, nodeBytes] at behind
  omega

/-- No header is inside a cell. -/
theorem Tiles.between (tiles : Tiles (pre ++ c :: post))
    (near : (c.addr + nodeBytes + size) / pageSize = c.page) (more : nodeBytes < c.size - size) :
    c.addr + nodeBytes + size ∉ (pre ++ c :: post).map Cell.addr := by
  intro member
  obtain ⟨d, inside, addr⟩ := List.mem_map.mp member
  obtain ⟨-, late, early⟩ := List.pairwise_append.mp tiles.apart
  have page : d.page = c.page := by rw [Cell.page, addr, near]
  simp only [nodeBytes] at addr more
  rcases List.mem_append.mp inside with inside | inside
  · have before := early d inside c (by simp) page
    omega
  · rcases List.mem_cons.mp inside with rfl | inside
    · omega
    · have behind := (List.pairwise_cons.mp late).1 d inside page.symm
      simp only [nodeBytes] at behind
      omega

/-- Cells cut another way still lie behind one another. -/
theorem Recut.tiles (recut : Recut mid mid') (tiles : Tiles (pre ++ (mid ++ post))) :
    Tiles (pre ++ (mid' ++ post)) := by
  obtain ⟨fits, apart⟩ := tiles
  rw [List.pairwise_append, List.pairwise_append] at apart
  obtain ⟨front, ⟨-, back, across⟩, under⟩ := apart
  refine ⟨fun c member => ?_, ?_⟩
  · simp only [List.mem_append] at member
    rcases member with member | member | member
    · exact fits c (by simp [member])
    · exact recut.fits c member
    · exact fits c (by simp [member])
  · rw [List.pairwise_append, List.pairwise_append]
    refine ⟨front, ⟨recut.apart, back, fun m member y later => ?_⟩, fun x earlier y member => ?_⟩
    · exact recut.after y (fun m member => across m member y later) m member
    · rcases List.mem_append.mp member with member | later
      · exact recut.before x (fun m member => under x earlier m (by simp [member])) y member
      · exact under x earlier y (by simp [later])

/-- The cells in the middle. -/
theorem Tiles.middle (tiles : Tiles (pre ++ (mid ++ post))) : Tiles mid where
  fits c member := tiles.fits c (by simp [member])
  apart := (List.pairwise_append.mp (List.pairwise_append.mp tiles.apart).2.1).1

/-- Two cells are joined. -/
theorem Recut.join (tiles : Tiles [c, d]) (same : c.page = d.page) : Recut [c, d] [c.join d] := by
  have first := tiles.fits c (by simp)
  have second := tiles.fits d (by simp)
  have behind := (List.pairwise_cons.mp tiles.apart).1 d (by simp) same
  obtain ⟨aligned, whole, inside⟩ := first
  obtain ⟨aligned', whole', inside'⟩ := second
  simp only [Cell.page, pageSize, nodeBytes] at *
  refine ⟨?_, by simp, ?_, ?_, ?_⟩
  · simp only [List.mem_singleton, forall_eq]
    refine ⟨aligned, ?_, ?_⟩ <;> simp only [Cell.join, pageSize, nodeBytes] <;> omega
  · intro x apart m member
    obtain rfl := List.mem_singleton.mp member
    exact apart c (by simp)
  · intro y apart m member
    obtain rfl := List.mem_singleton.mp member
    have later := apart d (by simp)
    intro here
    simp only [Cell.Apart, Cell.page, Cell.join, pageSize, nodeBytes] at later here ⊢
    have := later (by omega)
    omega
  · intro e member
    obtain rfl := List.mem_singleton.mp member
    exact ⟨c, by simp, rfl⟩

/-- A cell is taken, whole or in part. -/
theorem Recut.take (fits : c.Fits) (whole : size % 8 = 0) (enough : size ≤ c.size) :
    Recut [c] (takeCell c size) := by
  obtain ⟨aligned, whole', inside⟩ := fits
  simp only [pageSize, nodeBytes] at inside
  rw [takeCell, nodeBytes]
  split
  next split =>
    refine ⟨?_, ?_, ?_, ?_, ?_⟩
    · simp only [List.mem_cons, List.not_mem_nil, or_false, forall_eq_or_imp, forall_eq]
      refine ⟨⟨aligned, whole, ?_⟩, ⟨?_, ?_, ?_⟩⟩ <;> simp only [pageSize, nodeBytes] <;> omega
    · simp only [List.pairwise_cons, List.mem_singleton, forall_eq, List.not_mem_nil,
        false_implies, implies_true, List.Pairwise.nil, and_true]
      intro _
      simp only [nodeBytes]
      omega
    · intro x apart m member
      have first := apart c (by simp)
      simp only [List.mem_cons, List.not_mem_nil, or_false] at member
      rcases member with rfl | rfl
      · exact first
      · intro here
        simp only [Cell.Apart, Cell.page, pageSize, nodeBytes] at first here ⊢
        have := first (by omega)
        omega
    · intro y apart m member
      have first := apart c (by simp)
      simp only [List.mem_cons, List.not_mem_nil, or_false] at member
      rcases member with rfl | rfl <;> intro here <;>
        simp only [Cell.Apart, Cell.page, pageSize, nodeBytes] at first here ⊢ <;>
        have := first (by omega) <;> omega
    · intro e member
      simp only [List.mem_cons, List.not_mem_nil, or_false] at member
      refine ⟨c, by simp, ?_⟩
      rcases member with rfl | rfl <;> simp only [Cell.page, pageSize]
      omega
  next whole'' =>
    refine ⟨?_, by simp, ?_, ?_, ?_⟩
    · simp only [List.mem_singleton, forall_eq]
      exact ⟨aligned, whole, by simp only [pageSize, nodeBytes]; omega⟩
    · intro x apart m member
      obtain rfl := List.mem_singleton.mp member
      exact apart c (by simp)
    · intro y apart m member
      obtain rfl := List.mem_singleton.mp member
      have first := apart c (by simp)
      intro here
      have := first here
      simp only [nodeBytes] at this ⊢
      omega
    · intro e member
      obtain rfl := List.mem_singleton.mp member
      exact ⟨c, by simp, rfl⟩

/-- Whether a cell is free does not matter. -/
theorem Recut.free (fits : c.Fits) (free : Bool) : Recut [c] [{ c with free }] where
  fits e member := by
    obtain rfl := List.mem_singleton.mp member
    exact ⟨fits.aligned, fits.whole, fits.inside⟩
  apart := by simp
  before x apart m member := by
    obtain rfl := List.mem_singleton.mp member
    exact apart c (by simp)
  after y apart m member := by
    obtain rfl := List.mem_singleton.mp member
    exact apart c (by simp)
  page e member := by
    obtain rfl := List.mem_singleton.mp member
    exact ⟨c, by simp, rfl⟩

/-- Joined cells still lie behind one another. -/
theorem Tiles.merged (tiles : Tiles cells) {cells' : List Cell} (merged : Merged cells cells') :
    Tiles cells' := by
  induction merged with
  | refl => exact tiles
  | tail _ joins ih =>
    cases joins with
    | @intro front c d back _ _ same =>
      have middle : Tiles [c, d] := Tiles.middle ih
      exact (Recut.join middle same).tiles ih

/-- The cells after `merge`. -/
theorem mem_mergeCells (member : d ∈ mergeCells c post) :
    d.addr = c.addr ∧ (post ≠ [] → d.free = true) ∨ d ∈ post := by
  cases post with
  | nil => exact .inl ⟨by rw [List.mem_singleton.mp member], fun some => absurd rfl some⟩
  | cons e rest =>
    rw [mergeCells] at member
    split at member
    · rcases List.mem_cons.mp member with rfl | member
      · exact .inl ⟨rfl, fun _ => rfl⟩
      · exact .inr (List.mem_cons_of_mem _ member)
    · rcases List.mem_cons.mp member with rfl | member
      · exact .inl ⟨rfl, fun _ => rfl⟩
      · exact .inr member

/-- Cells that are not free stay. -/
theorem mem_mergeCells_of_taken (member : d ∈ post) (taken : d.free = false) :
    d ∈ mergeCells c post := by
  cases post with
  | nil => cases member
  | cons e rest =>
    rw [mergeCells]
    split
    next both =>
      rcases List.mem_cons.mp member with rfl | member
      · simp [taken] at both
      · exact List.mem_cons_of_mem _ member
    next => exact List.mem_cons_of_mem _ member

/-- After `merge` the cells still lie behind one another. -/
theorem Tiles.mergeCells (tiles : Tiles (pre ++ c :: post)) :
    Tiles (pre ++ mergeCells c post) := by
  have freed : Tiles (pre ++ { c with free := true } :: post) :=
    (Recut.free (tiles.fits c (by simp)) true).tiles tiles
  cases post with
  | nil => exact tiles
  | cons d rest =>
    rw [Kalloc.mergeCells]
    split
    next both => exact freed.merged (.single (.intro pre rest rfl both.1 both.2))
    next => exact freed

/-- Each cell that is left was there, and as free, with no other page. -/
theorem Merged.old {cells' : List Cell} (merged : Merged cells cells') :
    ∀ c' ∈ cells', ∃ c ∈ cells, c.addr = c'.addr ∧ c.free = c'.free := by
  induction merged with
  | refl => exact fun c' member => ⟨c', member, rfl, rfl⟩
  | tail _ joins ih =>
    cases joins with
    | @intro front c d back free =>
      intro c' member
      simp only [List.mem_append, List.mem_cons] at member
      rcases member with member | rfl | member
      · exact ih c' (by simp [member])
      · obtain ⟨e, inside, addr, free'⟩ := ih c (by simp)
        exact ⟨e, inside, addr, free'.trans free⟩
      · exact ih c' (by simp [member])

/-- Cells that are not free are left. -/
theorem Merged.kept {cells' : List Cell} (merged : Merged cells cells') (member : c ∈ cells)
    (taken : c.free = false) : c ∈ cells' := by
  induction merged with
  | refl => exact member
  | tail _ joins ih =>
    cases joins with
    | intro front back free free' =>
      simp only [List.mem_append, List.mem_cons] at ih ⊢
      rcases ih with ih | rfl | rfl | ih
      · exact .inl ih
      · simp [taken] at free
      · simp [taken] at free'
      · exact .inr (.inr ih)

/-- The bytes of a page that cells occupy, with their headers. -/
def occupied (page : Nat) (cells : List Cell) : Nat :=
  (cells.map fun c => if c.page = page then c.size + nodeBytes else 0).sum

@[simp] theorem occupied_nil (page : Nat) : occupied page [] = 0 := rfl

@[simp] theorem occupied_cons (page : Nat) (c : Cell) (cells : List Cell) :
    occupied page (c :: cells) =
      (if c.page = page then c.size + nodeBytes else 0) + occupied page cells := by
  simp [occupied]

@[simp] theorem occupied_append (page : Nat) (cells more : List Cell) :
    occupied page (cells ++ more) = occupied page cells + occupied page more := by
  simp [occupied]

/-- The sum over the cells of a page. -/
theorem occupied_eq_sum (page : Nat) (cells : List Cell) :
    occupied page cells =
      ((cells.filter (·.page = page)).map fun c => c.size + nodeBytes).sum := by
  induction cells with
  | nil => rfl
  | cons c rest ih =>
    by_cases here : c.page = page
    · rw [occupied_cons, if_pos here, ih, List.filter_cons_of_pos (by simpa using here),
        List.map_cons, List.sum_cons]
    · rw [occupied_cons, if_neg here, ih, List.filter_cons_of_neg (by simpa using here),
        Nat.zero_add]

/-- Joining two cells loses nothing. -/
theorem occupied_join (same : c.page = d.page) (page : Nat) (cells : List Cell) :
    occupied page (c.join d :: cells) = occupied page (c :: d :: cells) := by
  have here : (c.join d).page = c.page := rfl
  rw [occupied_cons, occupied_cons, occupied_cons, here, ← same]
  simp only [Cell.join]
  split <;> omega

/-- No cell is in a page. -/
theorem occupied_eq_zero {page : Nat} (none : ∀ c ∈ cells, c.page ≠ page) :
    occupied page cells = 0 := by
  induction cells with
  | nil => rfl
  | cons c rest ih =>
    rw [occupied_cons, if_neg (none c List.mem_cons_self),
      ih fun d member => none d (List.mem_cons_of_mem _ member)]

/-- Joining cells loses nothing. -/
theorem Merged.occupied {cells' : List Cell} (merged : Merged cells cells') (page : Nat) :
    occupied page cells' = occupied page cells := by
  induction merged with
  | refl => rfl
  | tail _ joins ih =>
    rw [← ih]
    cases joins with
    | intro front back _ _ same => rw [occupied_append, occupied_append, occupied_join same]

/-- `merge` loses nothing. -/
theorem occupied_mergeCells (c : Cell) (post : List Cell) (page : Nat) :
    occupied page (mergeCells c post) = occupied page (c :: post) := by
  cases post with
  | nil => rfl
  | cons d rest =>
    rw [mergeCells]
    split
    next both => exact occupied_join both.2 page rest
    next => rfl

/-- The cells after a cell was taken. -/
theorem mem_takeCell (member : d ∈ takeCell c size) :
    d = ⟨c.addr, size, false⟩ ∨ d.addr = c.addr + nodeBytes + size ∧ d.free = true := by
  rw [takeCell] at member
  split at member
  · rcases List.mem_cons.mp member with rfl | member
    · exact .inl rfl
    · rw [List.mem_singleton.mp member]
      exact .inr ⟨rfl, rfl⟩
  · exact .inl (List.mem_singleton.mp member)

/-- Taking a cell loses nothing if nothing is left or enough for a header. -/
theorem occupied_takeCell (fits : c.Fits) (enough : size ≤ c.size)
    (fit : c.size = size ∨ nodeBytes < c.size - size) (page : Nat) :
    occupied page (takeCell c size) = if c.page = page then c.size + nodeBytes else 0 := by
  have here : (⟨c.addr, size, false⟩ : Cell).page = c.page := rfl
  rw [takeCell]
  split
  next more =>
    have near : (⟨c.addr + nodeBytes + size, c.size - size - nodeBytes, true⟩ : Cell).page =
        c.page := by
      have inside := fits.inside
      simp only [Cell.page, pageSize, nodeBytes] at *
      omega
    rw [occupied_cons, occupied_cons, occupied_nil, here, near]
    dsimp only
    split <;> omega
  next less =>
    obtain rfl : c.size = size := fit.resolve_right less
    rw [occupied_cons, occupied_nil, here, Nat.add_zero]

end Cells

/-! ## The lists of the CPUs -/

/-- The heap holds the cells of each CPU, and each page belongs to one CPU. -/
structure Laid (s : Heap) (cells : Fin ncpu → List Cell) (owner : Nat → Option (Fin ncpu)) :
    Prop where
  head : ∀ cpu, s.free cpu = link (cells cpu)
  holds : ∀ cpu, Holds s.node (cells cpu)
  tiles : ∀ cpu, Tiles (cells cpu)
  owned : ∀ cpu, ∀ c ∈ cells cpu, owner c.page = some cpu

namespace Laid

variable {s s' : Heap} {cells : Fin ncpu → List Cell} {owner : Nat → Option (Fin ncpu)}
  {cpu : Fin ncpu} {front back : List Cell} {c : Cell} {size : Nat}

/-- The list of one CPU changes, and so does memory in the pages of that CPU. -/
theorem change (laid : Laid s cells owner) {changed : List Cell} (head : s'.free cpu = link changed)
    (heads : ∀ other, other ≠ cpu → s'.free other = s.free other)
    (holds : Holds s'.node changed)
    (frame : ∀ a, owner (a / pageSize) ≠ some cpu → s'.node a = s.node a)
    (tiles : Tiles changed) (owned : ∀ c ∈ changed, owner c.page = some cpu) :
    Laid s' (Function.update cells cpu changed) owner := by
  have elsewhere : ∀ other, other ≠ cpu → Holds s'.node (cells other) := by
    intro other different
    refine (laid.holds other).congr fun c member => frame _ ?_
    rw [show c.addr / pageSize = c.page from rfl, laid.owned other c member]
    exact fun same => different (Option.some.inj same)
  refine ⟨fun other => ?_, fun other => ?_, fun other => ?_, fun other => ?_⟩ <;>
    by_cases same : other = cpu
  · subst same
    rwa [Function.update_self]
  · rw [Function.update_of_ne same, heads other same, laid.head other]
  · subst same
    rwa [Function.update_self]
  · rw [Function.update_of_ne same]
    exact elsewhere other same
  · subst same
    rwa [Function.update_self]
  · rw [Function.update_of_ne same]
    exact laid.tiles other
  · subst same
    rwa [Function.update_self]
  · rw [Function.update_of_ne same]
    exact laid.owned other

/-- The loop of `kalloc`. -/
theorem search (laid : Laid s cells owner) (cpu : Fin ncpu) {size rounds : Nat}
    {found : Option Nat} (done : Heap.search size rounds s (s.free cpu) = some (s', found)) :
    ∃ cells', Merged (cells cpu) cells' ∧ Laid s' (Function.update cells cpu cells') owner ∧
      ∀ h, found = some h → ∃ front c back, cells' = front ++ c :: back ∧ c.addr = h ∧
        c.free = true ∧ size ≤ c.size := by
  obtain ⟨s₁, cells', found₁, done₁, searched⟩ := @Heap.search_cells s [] (cells cpu) size
    (rounds + (cells cpu).length + 1) (laid.holds cpu) (laid.tiles cpu).nodup (by omega)
  have more := Heap.search_mono done (show rounds ≤ rounds + (cells cpu).length + 1 by omega)
  rw [laid.head cpu, done₁, Option.some.injEq, Prod.mk.injEq] at more
  obtain ⟨rfl, rfl⟩ := more
  refine ⟨cells', searched.merged, ?_, searched.large⟩
  refine laid.change ?_ (fun other _ => by rw [searched.free]) searched.holds (fun a away => ?_)
    ((laid.tiles cpu).merged searched.merged) fun c member => ?_
  · rw [searched.free, laid.head cpu, searched.merged.link]
    rfl
  · refine searched.others a fun member => away ?_
    obtain ⟨c, inside, rfl⟩ := List.mem_map.mp member
    exact laid.owned cpu c inside
  · obtain ⟨d, inside, addr, -⟩ := searched.merged.old c member
    rw [Cell.page, ← addr]
    exact laid.owned cpu d inside

/-- The end of `kalloc`. -/
theorem take (laid : Laid s cells owner) (split : cells cpu = front ++ c :: back)
    (whole : size % 8 = 0) (enough : size ≤ c.size) :
    Laid (s.take c.addr size) (Function.update cells cpu (front ++ (takeCell c size ++ back)))
      owner := by
  have tiles := laid.tiles cpu
  have holds := laid.holds cpu
  have here := laid.owned cpu c (by simp [split])
  rw [split] at tiles holds
  have fits := tiles.fits c (by simp)
  have recut := Recut.take fits whole enough
  have small : c.size < 2 ^ 64 := by
    have := fits.inside
    simp only [pageSize] at this
    omega
  have wrap : ((s.node c.addr).size + 2 ^ 64 - size) % 2 ^ 64 = c.size - size := by
    rw [holds.after.1]
    change (c.size + 2 ^ 64 - size) % 2 ^ 64 = _
    omega
  -- where the node is split, the new header is in the page of the node
  have near : nodeBytes < c.size - size → (c.addr + nodeBytes + size) / pageSize = c.page := by
    intro more
    have := fits.inside
    simp only [Cell.page, pageSize, nodeBytes] at *
    omega
  obtain ⟨free, others⟩ := Heap.take_frame s c.addr size
  rw [wrap] at others
  refine laid.change ?_ (fun other _ => by rw [free])
    (Heap.take_cells holds tiles.nodup enough small fun more member => ?_) (fun a away => ?_)
    (recut.tiles tiles) fun d member => ?_
  · rw [free, laid.head cpu, split]
    cases front with
    | nil =>
      rw [takeCell]
      split <;> rfl
    | cons => rfl
  · exact tiles.between (near more) more member
  · refine others a (fun same => away ?_) fun more same => away ?_
    · rw [same]
      exact here
    · rw [same, near more]
      exact here
  · simp only [List.mem_append] at member
    rcases member with member | member | member
    · exact laid.owned cpu d (by simp [split, member])
    · obtain ⟨e, inside, page⟩ := recut.page d member
      rw [← page, List.mem_singleton.mp inside]
      exact here
    · exact laid.owned cpu d (by simp [split, member])

/-- A page becomes the first cell of a list. -/
theorem grow (laid : Laid s cells owner) (cpu : Fin ncpu) {page : Nat}
    (aligned : page % pageSize = 0) (fresh : owner (page / pageSize) = none) :
    Laid (s.grow cpu page)
      (Function.update cells cpu (⟨page, pageSize - nodeBytes, true⟩ :: cells cpu))
      (Function.update owner (page / pageSize) (some cpu)) := by
  have elsewhere : ∀ other, ∀ c ∈ cells other, c.page ≠ page / pageSize := by
    intro other c member same
    rw [← same, laid.owned other c member] at fresh
    cases fresh
  have still : Laid s cells (Function.update owner (page / pageSize) (some cpu)) :=
    { laid with
      owned := fun other c member => by
        rw [Function.update_of_ne (elsewhere other c member)]
        exact laid.owned other c member }
  have new : ∀ c ∈ cells cpu, c.addr ≠ page := fun c member same =>
    elsewhere cpu c member (by rw [Cell.page, same])
  refine still.change (Function.update_self ..)
    (fun other different => Function.update_of_ne different ..)
    (Heap.grow_cells (laid.holds cpu) (laid.head cpu) fun member => ?_) (fun a away => ?_)
    ⟨?_, ?_⟩ ?_
  · obtain ⟨c, inside, same⟩ := List.mem_map.mp member
    exact new c inside same
  · have different : a ≠ page := by
      rintro rfl
      exact away (Function.update_self ..)
    exact Heap.set_node_of_ne different _ _
  · refine List.forall_mem_cons.mpr ⟨⟨?_, show (pageSize - nodeBytes) % 8 = 0 by decide, ?_⟩,
      (laid.tiles cpu).fits⟩
    · simp only [pageSize] at aligned
      change page % 8 = 0
      omega
    · change page % pageSize + nodeBytes + (pageSize - nodeBytes) ≤ pageSize
      rw [aligned]
      decide
  · refine List.pairwise_cons.mpr ⟨fun d member same => ?_, (laid.tiles cpu).apart⟩
    exact absurd same.symm (elsewhere cpu d member)
  · refine List.forall_mem_cons.mpr ⟨Function.update_self .., still.owned cpu⟩

/-- `kfree`. -/
theorem merge (laid : Laid s cells owner) (split : cells cpu = front ++ c :: back) :
    Laid (s.merge c.addr) (Function.update cells cpu (front ++ mergeCells c back)) owner := by
  have tiles := laid.tiles cpu
  have holds := laid.holds cpu
  have here := laid.owned cpu c (by simp [split])
  rw [split] at tiles holds
  obtain ⟨free, others⟩ := Heap.merge_frame s c.addr
  refine laid.change ?_ (fun other _ => by rw [free]) (Heap.merge_cells holds tiles.nodup)
    (fun a away => others a fun same => away (same ▸ here)) tiles.mergeCells fun d member => ?_
  · rw [free, laid.head cpu, split]
    cases front with
    | nil =>
      obtain ⟨c', post', eq, same, -⟩ := mergeCells_cons c back
      rw [List.nil_append, List.nil_append, eq, link, List.head?_cons, Option.map_some, link,
        List.head?_cons, Option.map_some, same]
    | cons => rfl
  · rcases List.mem_append.mp member with member | member
    · exact laid.owned cpu d (by simp [split, member])
    · rcases mem_mergeCells member with ⟨same, -⟩ | member
      · rw [Cell.page, same]
        exact here
      · exact laid.owned cpu d (by simp [split, member])

/-- A header belongs to one cell. -/
theorem unique (laid : Laid s cells owner) {cpu' : Fin ncpu} {d : Cell} (member : c ∈ cells cpu)
    (member' : d ∈ cells cpu') (same : c.addr = d.addr) : cpu = cpu' ∧ c = d := by
  have page : c.page = d.page := by rw [Cell.page, same, Cell.page]
  have owner := laid.owned cpu c member
  rw [page, laid.owned cpu' d member'] at owner
  obtain rfl := Option.some.inj owner
  exact ⟨rfl, List.inj_on_of_nodup_map (laid.tiles cpu').nodup member member' same⟩

/-- The header of a cell. -/
theorem header (laid : Laid s cells owner) (member : c ∈ cells cpu) :
    (s.node c.addr).size = c.size ∧ (s.node c.addr).free = c.free := by
  obtain ⟨front, back, split⟩ := List.append_of_mem member
  have holds := laid.holds cpu
  rw [split] at holds
  rw [holds.after.1]
  exact ⟨rfl, rfl⟩

/-- Two cells do not overlap. -/
theorem disjoint (laid : Laid s cells owner) {cpu' : Fin ncpu} {d : Cell} (member : c ∈ cells cpu)
    (member' : d ∈ cells cpu') (different : c ≠ d) :
    c.addr + nodeBytes + c.size ≤ d.addr ∨ d.addr + nodeBytes + d.size ≤ c.addr := by
  by_cases page : c.page = d.page
  · have owner := laid.owned cpu c member
    rw [page, laid.owned cpu' d member'] at owner
    obtain rfl := Option.some.inj owner
    have either : (cells cpu').Pairwise fun c d => c.Apart d ∨ d.Apart c :=
      (laid.tiles cpu').apart.imp .inl
    have : Std.Symm fun c d : Cell => c.Apart d ∨ d.Apart c := ⟨fun _ _ => Or.symm⟩
    rcases either.forall member member' different with apart | apart
    · exact .inl (apart page)
    · exact .inr (apart page.symm)
  · have inside := ((laid.tiles cpu).fits c member).inside
    have inside' := ((laid.tiles cpu').fits d member').inside
    simp only [Cell.page, pageSize, nodeBytes] at *
    omega

end Laid

/-- The nodes of the lists. -/
inductive Heap.IsNode (s : Heap) : Nat → Prop where
  /-- The first node of a list. -/
  | head {cpu : Fin ncpu} {h : Nat} (first : s.free cpu = some h) : IsNode s h
  | next {h p : Nat} (node : IsNode s h) (following : (s.node h).next = some p) : IsNode s p

/-- A pointer to the first cell of a list. -/
theorem link_eq_some {cells : List Cell} {h : Nat} (start : link cells = some h) :
    ∃ c rest, cells = c :: rest ∧ c.addr = h := by
  cases cells with
  | nil => cases start
  | cons c rest => exact ⟨c, rest, rfl, Option.some.inj start⟩

/-- The nodes are the cells. -/
theorem Laid.isNode_iff {s : Heap} {cells : Fin ncpu → List Cell}
    {owner : Nat → Option (Fin ncpu)} (laid : Laid s cells owner) {h : Nat} :
    s.IsNode h ↔ ∃ cpu, ∃ c ∈ cells cpu, c.addr = h := by
  constructor
  · intro node
    induction node with
    | @head cpu h first =>
      rw [laid.head] at first
      obtain ⟨c, rest, eq, addr⟩ := link_eq_some first
      exact ⟨cpu, c, by simp [eq], addr⟩
    | next _ following ih =>
      obtain ⟨cpu, c, member, rfl⟩ := ih
      obtain ⟨front, back, split⟩ := List.append_of_mem member
      have holds := laid.holds cpu
      rw [split] at holds
      rw [holds.after.1] at following
      obtain ⟨d, rest, eq, addr⟩ := link_eq_some following
      exact ⟨cpu, d, by simp [split, eq], addr⟩
  · rintro ⟨cpu, c, member, rfl⟩
    have along : ∀ cells, Holds s.node cells → (∀ h, link cells = some h → s.IsNode h) →
        ∀ c ∈ cells, s.IsNode c.addr := by
      intro cells holds start
      induction cells with
      | nil => simp
      | cons d rest ih =>
        have first := start d.addr rfl
        refine List.forall_mem_cons.mpr ⟨first, ih holds.2 fun h eq => .next first ?_⟩
        rw [holds.1, eq]
    exact along _ (laid.holds cpu) (fun h eq => .head ((laid.head cpu).trans eq)) c member

/-! ## The machine -/

/-- What `kalloc` has returned. -/
structure Alloc where
  ptr : Nat
  /-- The size that was asked for. -/
  size : Nat
  deriving Repr, DecidableEq

/-- The heap and what its users have. -/
structure State where
  heap : Heap
  /-- What was returned and not given back. -/
  live : List Alloc
  /-- The pages that `kalloc` has got from `kalloc_page`. -/
  pages : List Nat

/-- The calls. -/
inductive Act where
  /-- `kalloc` on a CPU, where `kalloc_page` would return `page`. -/
  | kalloc (cpu : Fin ncpu) (size page rounds : Nat)
  | kfree (ptr : Nat)
  deriving Repr, DecidableEq

/-- One call. `kalloc_page` returns pages that are not in use, and what is given back was returned
and not given back before. -/
def step (s : State) : Act → Option State
  | .kalloc cpu size page rounds =>
    if size ≤ pageSize - nodeBytes ∧ page ≠ 0 ∧ page % pageSize = 0 ∧ page ∉ s.pages then
      (s.heap.kalloc cpu size page rounds).map fun (ptr, heap) =>
        ⟨heap, ⟨ptr, size⟩ :: s.live, if ptr = page + nodeBytes then page :: s.pages else s.pages⟩
    else none
  | .kfree ptr =>
    if ptr ∈ s.live.map Alloc.ptr then
      some { s with heap := s.heap.kfree ptr, live := s.live.filter (·.ptr ≠ ptr) }
    else none

/-- Calls one after another, from empty lists. -/
def machine : Machine State Act where
  init s := (∀ cpu, s.heap.free cpu = none) ∧ s.live = [] ∧ s.pages = []
  step := step

/-- What is given out are cells that are not free, each once. -/
structure Sound (s : State) (cells : Fin ncpu → List Cell) (owner : Nat → Option (Fin ncpu)) :
    Prop where
  laid : Laid s.heap cells owner
  /-- The pages of the lists come from `kalloc_page`. -/
  pages : ∀ number, owner number ≠ none → number * pageSize ∈ s.pages
  aligned : ∀ page ∈ s.pages, page % pageSize = 0
  /-- What was returned and not given back is in a cell that is not free. -/
  live : ∀ a ∈ s.live, ∃ cpu, ∃ c ∈ cells cpu, c.addr + nodeBytes = a.ptr ∧ c.free = false ∧
    a.size ≤ c.size
  distinct : (s.live.map Alloc.ptr).Nodup

/-- Nothing is lost. -/
structure Exact (s : State) (cells : Fin ncpu → List Cell) (owner : Nat → Option (Fin ncpu)) :
    Prop where
  full : ∀ page ∈ s.pages, ∃ cpu, owner (page / pageSize) = some cpu ∧
    occupied (page / pageSize) (cells cpu) = pageSize
  flag : ∀ cpu, ∀ c ∈ cells cpu, c.free = true ↔ c.addr + nodeBytes ∉ s.live.map Alloc.ptr

section Step

variable {s : State} {heap : Heap} {cells : Fin ncpu → List Cell}
  {owner : Nat → Option (Fin ncpu)} {cpu : Fin ncpu} {front back cells' : List Cell} {c : Cell}

/-- The list of a CPU changes, but not the cells that are given out. -/
theorem Sound.change (sound : Sound s cells owner)
    (laid : Laid heap (Function.update cells cpu cells') owner)
    (kept : ∀ c ∈ cells cpu, c.free = false → c ∈ cells') :
    Sound { s with heap } (Function.update cells cpu cells') owner := by
  refine { sound with laid, live := fun a member => ?_ }
  obtain ⟨cpu', c, inside, ptr, taken, size⟩ := sound.live a member
  refine ⟨cpu', c, ?_, ptr, taken, size⟩
  by_cases same : cpu' = cpu
  · subst same
    rw [Function.update_self]
    exact kept c inside taken
  · rwa [Function.update_of_ne same]

/-- The list of a CPU changes, and nothing is lost. -/
theorem Exact.change (exact : Exact s cells owner) {live : List Alloc}
    (full : ∀ page, occupied page cells' = occupied page (cells cpu))
    (flag : ∀ c ∈ cells', c.free = true ↔ c.addr + nodeBytes ∉ live.map Alloc.ptr)
    (others : ∀ other, other ≠ cpu → ∀ c ∈ cells other,
      c.addr + nodeBytes ∈ live.map Alloc.ptr ↔ c.addr + nodeBytes ∈ s.live.map Alloc.ptr) :
    Exact { s with heap, live } (Function.update cells cpu cells') owner := by
  refine ⟨fun page member => ?_, fun cpu' => ?_⟩
  · obtain ⟨cpu', owned, sum⟩ := exact.full page member
    refine ⟨cpu', owned, ?_⟩
    by_cases same : cpu' = cpu
    · subst same
      rw [Function.update_self, full, sum]
    · rw [Function.update_of_ne same, sum]
  · by_cases same : cpu' = cpu
    · subst same
      rwa [Function.update_self]
    · rw [Function.update_of_ne same]
      intro c member
      rw [exact.flag cpu' c member, others cpu' same c member]

/-- A cell that is free has not been given out. -/
theorem Sound.not_live (sound : Sound s cells owner) (member : c ∈ cells cpu)
    (free : c.free = true) : c.addr + nodeBytes ∉ s.live.map Alloc.ptr := by
  intro given
  obtain ⟨a, inside, ptr⟩ := List.mem_map.mp given
  obtain ⟨cpu', d, member', ptr', taken, -⟩ := sound.live a inside
  obtain ⟨-, rfl⟩ := sound.laid.unique member member' (by omega)
  rw [free] at taken
  cases taken

/-- The loop of `kalloc`. -/
theorem Sound.search (sound : Sound s cells owner) (cpu : Fin ncpu) {size rounds : Nat}
    {found : Option Nat}
    (done : Heap.search size rounds s.heap (s.heap.free cpu) = some (heap, found)) :
    ∃ cells', Sound { s with heap } (Function.update cells cpu cells') owner ∧
      (Exact s cells owner → Exact { s with heap } (Function.update cells cpu cells') owner) ∧
      ∀ h, found = some h → ∃ front c back, cells' = front ++ c :: back ∧ c.addr = h ∧
        c.free = true ∧ size ≤ c.size := by
  obtain ⟨cells', merged, laid, large⟩ := sound.laid.search cpu done
  refine ⟨cells', sound.change laid fun c member taken => merged.kept member taken, fun exact => ?_,
    large⟩
  refine exact.change merged.occupied (fun c member => ?_) fun _ _ _ _ => Iff.rfl
  obtain ⟨d, inside, addr, free⟩ := merged.old c member
  rw [← free, ← addr]
  exact exact.flag cpu d inside

/-- `kalloc` gives out a cell. -/
theorem Sound.take (sound : Sound s cells owner) (split : cells cpu = front ++ c :: back)
    (free : c.free = true) {size request : Nat} (whole : size % 8 = 0) (enough : size ≤ c.size)
    (covers : request ≤ size) :
    ∃ cells', Sound { s with
        heap := s.heap.take c.addr size
        live := ⟨c.addr + nodeBytes, request⟩ :: s.live } cells' owner ∧
      (c.size = size ∨ nodeBytes < c.size - size → Exact s cells owner → Exact { s with
        heap := s.heap.take c.addr size
        live := ⟨c.addr + nodeBytes, request⟩ :: s.live } cells' owner) := by
  have member : c ∈ cells cpu := by simp [split]
  have laid := sound.laid.take split whole enough
  have taken : (⟨c.addr, size, false⟩ : Cell) ∈ takeCell c size := by
    rw [takeCell]
    split <;> simp
  have kept := sound.change laid fun d inside busy => by
    rw [split] at inside
    simp only [List.mem_append, List.mem_cons] at inside ⊢
    rcases inside with inside | rfl | inside
    · exact .inl inside
    · simp [free] at busy
    · exact .inr (.inr inside)
  refine ⟨_, { kept with live := List.forall_mem_cons.mpr ⟨?_, kept.live⟩, distinct := ?_ },
    fun fit exact => ?_⟩
  · refine ⟨cpu, ⟨c.addr, size, false⟩, ?_, rfl, rfl, covers⟩
    rw [Function.update_self]
    simp [taken]
  · exact List.nodup_cons.mpr ⟨sound.not_live member free, sound.distinct⟩
  · have other : ∀ cpu', ∀ d ∈ cells cpu', d ≠ c → d.addr + nodeBytes ≠ c.addr + nodeBytes :=
      fun cpu' d inside different same =>
        different (sound.laid.unique inside member (by omega)).2
    have apart := ne_of_nodup (split ▸ (sound.laid.tiles cpu).nodup)
    refine exact.change (fun page => ?_) (fun d inside => ?_) fun cpu' different d inside => ?_
    · rw [split, occupied_append, occupied_append, occupied_append, occupied_cons,
        occupied_takeCell ((sound.laid.tiles cpu).fits c member) enough fit]
    · -- a cell that is left over is free, the cell taken is not, and the others are as they were
      have old : d ∈ cells cpu → d ≠ c → (d.free = true ↔
          d.addr + nodeBytes ∉ (⟨c.addr + nodeBytes, request⟩ :: s.live).map Alloc.ptr) := by
        intro inside different
        rw [exact.flag cpu d inside, List.map_cons, List.mem_cons, not_or]
        exact ⟨fun away => ⟨other cpu d inside different, away⟩, And.right⟩
      have now : d ∈ Function.update cells cpu (front ++ (takeCell c size ++ back)) cpu := by
        rwa [Function.update_self]
      simp only [List.mem_append] at inside
      rcases inside with inside | inside | inside
      · exact old (by simp [split, inside]) fun same => apart.1 d inside (by rw [same])
      · rcases mem_takeCell inside with rfl | ⟨behind, free'⟩
        · simp
        · rw [free', List.map_cons, List.mem_cons, not_or]
          refine iff_of_true rfl ⟨by simp only [behind, nodeBytes]; omega, ?_⟩
          exact kept.not_live now free'
      · exact old (by simp [split, inside]) fun same => apart.2 d inside (by rw [same])
    · simp only [List.map_cons, List.mem_cons, or_iff_right_iff_imp]
      intro same
      refine absurd same (other cpu' d inside ?_)
      rintro rfl
      exact different (sound.laid.unique inside member rfl).1

/-- `kalloc` gets a page. -/
theorem Sound.grow (sound : Sound s cells owner) (cpu : Fin ncpu) {page : Nat}
    (aligned : page % pageSize = 0) (fresh : page ∉ s.pages) :
    ∃ owner', Sound { s with heap := s.heap.grow cpu page, pages := page :: s.pages }
        (Function.update cells cpu (⟨page, pageSize - nodeBytes, true⟩ :: cells cpu)) owner' ∧
      (Exact s cells owner → Exact { s with heap := s.heap.grow cpu page, pages := page :: s.pages }
        (Function.update cells cpu (⟨page, pageSize - nodeBytes, true⟩ :: cells cpu)) owner') := by
  have whole : page / pageSize * pageSize = page := Nat.div_mul_cancel (Nat.dvd_of_mod_eq_zero aligned)
  have free : owner (page / pageSize) = none := by
    by_contra some
    exact fresh (whole ▸ sound.pages _ some)
  have laid := sound.laid.grow cpu aligned free
  have elsewhere : ∀ other, ∀ c ∈ cells other, c.page ≠ page / pageSize := by
    intro other c member same
    rw [← same, sound.laid.owned other c member] at free
    cases free
  have sound' : Sound { s with heap := s.heap.grow cpu page, pages := page :: s.pages }
      (Function.update cells cpu (⟨page, pageSize - nodeBytes, true⟩ :: cells cpu))
      (Function.update owner (page / pageSize) (some cpu)) := by
    refine ⟨laid, fun number some => ?_, List.forall_mem_cons.mpr ⟨aligned, sound.aligned⟩,
      fun a member => ?_, sound.distinct⟩
    · by_cases same : number = page / pageSize
      · rw [same, whole]
        exact List.mem_cons_self
      · rw [Function.update_of_ne same] at some
        exact List.mem_cons_of_mem _ (sound.pages number some)
    · obtain ⟨cpu', c, inside, rest⟩ := sound.live a member
      refine ⟨cpu', c, ?_, rest⟩
      by_cases same : cpu' = cpu
      · subst same
        rw [Function.update_self]
        exact List.mem_cons_of_mem _ inside
      · rwa [Function.update_of_ne same]
  refine ⟨_, sound', fun exact => ⟨?_, fun other c member => ?_⟩⟩
  · refine List.forall_mem_cons.mpr ⟨⟨cpu, Function.update_self .., ?_⟩, fun page' member => ?_⟩
    · have alone : (⟨page, pageSize - nodeBytes, true⟩ : Cell).page = page / pageSize := rfl
      rw [Function.update_self, occupied_cons, if_pos alone, occupied_eq_zero (elsewhere cpu)]
      rfl
    · have different : page / pageSize ≠ page' / pageSize := by
        intro same
        have whole' : page' / pageSize * pageSize = page' :=
          Nat.div_mul_cancel (Nat.dvd_of_mod_eq_zero (sound.aligned page' member))
        rw [← same, whole] at whole'
        exact fresh (whole' ▸ member)
      obtain ⟨other, owned, sum⟩ := exact.full page' member
      refine ⟨other, by rwa [Function.update_of_ne different.symm], ?_⟩
      have away : (⟨page, pageSize - nodeBytes, true⟩ : Cell).page ≠ page' / pageSize := different
      by_cases same : other = cpu
      · subst same
        rw [Function.update_self, occupied_cons, if_neg away, sum, Nat.zero_add]
      · rw [Function.update_of_ne same, sum]
  · by_cases old : c ∈ cells other
    · exact exact.flag other c old
    · have new : c.free = true := by
        by_cases same : other = cpu
        · subst same
          rw [Function.update_self] at member
          rcases List.mem_cons.mp member with rfl | member
          · rfl
          · exact absurd member old
        · rw [Function.update_of_ne same] at member
          exact absurd member old
      exact iff_of_true new (sound'.not_live member new)

/-- `kfree` of what was given out. -/
theorem Sound.kfree (sound : Sound s cells owner) {ptr : Nat} (given : ptr ∈ s.live.map Alloc.ptr) :
    ∃ cells', Sound { s with heap := s.heap.kfree ptr, live := s.live.filter (·.ptr ≠ ptr) }
        cells' owner ∧
      ((s.heap.node (ptr - nodeBytes)).next ≠ none → Exact s cells owner →
        Exact { s with heap := s.heap.kfree ptr, live := s.live.filter (·.ptr ≠ ptr) }
          cells' owner) := by
  obtain ⟨a, inside, rfl⟩ := List.mem_map.mp given
  obtain ⟨cpu, c, member, ptr, taken, -⟩ := sound.live a inside
  obtain ⟨front, back, split⟩ := List.append_of_mem member
  have header : a.ptr - nodeBytes = c.addr := by omega
  have laid := sound.laid.merge split
  have apart := ne_of_nodup (split ▸ (sound.laid.tiles cpu).nodup)
  have other : ∀ cpu', ∀ d ∈ cells cpu', d ≠ c → d.addr + nodeBytes ≠ a.ptr :=
    fun cpu' d inside different same =>
      different (sound.laid.unique inside member (by omega)).2
  have remains : ∀ ptr', ptr' ∈ (s.live.filter (·.ptr ≠ a.ptr)).map Alloc.ptr ↔
      ptr' ∈ s.live.map Alloc.ptr ∧ ptr' ≠ a.ptr := by
    intro ptr'
    simp only [List.mem_map, List.mem_filter, decide_eq_true_eq]
    constructor
    · rintro ⟨b, ⟨inside, different⟩, rfl⟩
      exact ⟨⟨b, inside, rfl⟩, different⟩
    · rintro ⟨⟨b, inside, rfl⟩, different⟩
      exact ⟨b, ⟨inside, different⟩, rfl⟩
  rw [Heap.kfree, header]
  refine ⟨_, ⟨laid, sound.pages, sound.aligned, fun b remaining => ?_, ?_⟩, fun more exact => ?_⟩
  · simp only [List.mem_filter, decide_eq_true_eq] at remaining
    obtain ⟨cpu', d, here, ptr', taken', size⟩ := sound.live b remaining.1
    refine ⟨cpu', d, ?_, ptr', taken', size⟩
    by_cases same : cpu' = cpu
    · subst same
      rw [Function.update_self]
      rw [split] at here
      simp only [List.mem_append, List.mem_cons] at here ⊢
      rcases here with here | rfl | here
      · exact .inl here
      · omega
      · exact .inr (mem_mergeCells_of_taken here taken')
    · rwa [Function.update_of_ne same]
  · exact (List.filter_sublist.map _).nodup sound.distinct
  · have later : back ≠ [] := by
      rintro rfl
      have here := (split ▸ sound.laid.holds cpu).after.1
      rw [here] at more
      exact more rfl
    refine exact.change (fun page => ?_) (fun d inside => ?_) fun cpu' different d inside => ?_
    · rw [split, occupied_append, occupied_append, occupied_mergeCells]
    · have old : d ∈ cells cpu → d ≠ c → (d.free = true ↔
          d.addr + nodeBytes ∉ (s.live.filter (·.ptr ≠ a.ptr)).map Alloc.ptr) := by
        intro inside different
        rw [exact.flag cpu d inside, remains, not_and, not_not]
        exact ⟨fun away given => absurd given away,
          fun away given => other cpu d inside different (away given)⟩
      rcases List.mem_append.mp inside with inside | inside
      · exact old (by simp [split, inside]) fun same => apart.1 d inside (by rw [same])
      · rcases mem_mergeCells inside with ⟨same, free⟩ | inside
        · refine iff_of_true (free later) fun given => ((remains _).mp given).2 ?_
          rw [same, ptr]
        · exact old (by simp [split, inside]) fun same => apart.2 d inside (by rw [same])
    · rw [remains]
      refine and_iff_left (other cpu' d inside ?_)
      rintro rfl
      exact different (sound.laid.unique inside member rfl).1

/-- The rounded size holds what was asked for, and a page holds it. -/
theorem roundUp_spec {size : Nat} (small : size ≤ pageSize - nodeBytes) :
    Heap.roundUp size % 8 = 0 ∧ size ≤ Heap.roundUp size ∧
      Heap.roundUp size ≤ pageSize - nodeBytes := by
  simp only [Heap.roundUp, pageSize, nodeBytes] at *
  split <;> omega

/-- The size of the node that `kalloc` takes, before it is taken. -/
def State.room (s : State) (cpu : Fin ncpu) (size rounds : Nat) : Nat :=
  match Heap.search (Heap.roundUp size) rounds s.heap (s.heap.free cpu) with
  | some (heap, some h) => (heap.node h).size
  | _ => pageSize - nodeBytes

/-- Nothing is left of the node that `kalloc` takes, or enough for a header and more; and `kfree` is
called on a node that is not the last of its list. -/
def Careful (s : State) : Act → Prop
  | .kalloc cpu size _ rounds => s.room cpu size rounds = Heap.roundUp size ∨
      nodeBytes < s.room cpu size rounds - Heap.roundUp size
  | .kfree ptr => (s.heap.node (ptr - nodeBytes)).next ≠ none

instance (s : State) (act : Act) : Decidable (Careful s act) :=
  match act with
  | .kalloc _ _ _ _ => inferInstanceAs (Decidable (_ ∨ _))
  | .kfree _ => inferInstanceAs (Decidable (_ ≠ _))

/-- One call. -/
theorem Sound.step (sound : Sound s cells owner) {act : Act} {s' : State}
    (stepped : step s act = some s') :
    ∃ cells' owner', Sound s' cells' owner' ∧
      (Careful s act → Exact s cells owner → Exact s' cells' owner') := by
  cases act with
  | kfree ptr =>
    obtain ⟨given, eq⟩ := Option.ite_none_right_eq_some.mp stepped
    obtain rfl := Option.some.inj eq
    obtain ⟨cells', sound', exact⟩ := sound.kfree given
    exact ⟨cells', owner, sound', exact⟩
  | kalloc cpu size page rounds =>
    obtain ⟨⟨small, -, aligned, fresh⟩, eq⟩ := Option.ite_none_right_eq_some.mp stepped
    obtain ⟨⟨ptr, heap'⟩, done, rfl⟩ := Option.map_eq_some_iff.mp eq
    obtain ⟨⟨heap, found⟩, searched, rest⟩ := Option.map_eq_some_iff.mp done
    obtain ⟨whole, covers, fits⟩ := roundUp_spec small
    obtain ⟨cells₁, sound₁, exact₁, large⟩ := sound.search cpu searched
    cases found with
    | some h =>
      obtain ⟨rfl, rfl⟩ := Prod.mk.inj rest
      obtain ⟨front, c, back, split, rfl, free, enough⟩ := large h rfl
      have here : Function.update cells cpu cells₁ cpu = front ++ c :: back := by
        rw [Function.update_self, split]
      have old : c.addr + nodeBytes ≠ page + nodeBytes := by
        intro same
        obtain rfl : c.addr = page := by omega
        have owned := sound₁.laid.owned cpu c (by rw [here]; simp)
        have listed := sound₁.pages c.page (by simp [owned])
        rw [Cell.page, Nat.div_mul_cancel (Nat.dvd_of_mod_eq_zero aligned)] at listed
        exact fresh listed
      have room : s.room cpu size rounds = c.size := by
        have holds := sound₁.laid.holds cpu
        rw [here] at holds
        simp only [State.room, searched]
        rw [holds.after.1]
      dsimp only
      rw [if_neg old]
      obtain ⟨cells', sound', exact'⟩ := sound₁.take here free whole enough covers
      refine ⟨cells', owner, sound', fun careful exact => exact' ?_ (exact₁ exact)⟩
      rwa [Careful, room] at careful
    | none =>
      obtain ⟨rfl, rfl⟩ := Prod.mk.inj rest
      have room : s.room cpu size rounds = pageSize - nodeBytes := by simp only [State.room, searched]
      dsimp only
      rw [if_pos rfl]
      obtain ⟨owner', sound₂, exact₂⟩ := sound₁.grow cpu aligned fresh
      have here : Function.update (Function.update cells cpu cells₁) cpu
          (⟨page, pageSize - nodeBytes, true⟩ :: Function.update cells cpu cells₁ cpu) cpu =
            [] ++ ⟨page, pageSize - nodeBytes, true⟩ :: cells₁ := by
        rw [Function.update_self, Function.update_self, List.nil_append]
      obtain ⟨cells', sound', exact'⟩ := sound₂.take here rfl whole fits covers
      refine ⟨cells', owner', sound', fun careful exact => exact' ?_ (exact₂ (exact₁ exact))⟩
      rwa [Careful, room] at careful

end Step

/-- Nothing has been given out. -/
theorem Sound.init {s : State} (initial : machine.init s) :
    Sound s (fun _ => []) (fun _ => none) ∧ Exact s (fun _ => []) fun _ => none := by
  obtain ⟨free, live, pages⟩ := initial
  constructor
  · exact ⟨⟨free, fun _ => trivial, fun _ => ⟨by simp, .nil⟩, by simp⟩, by simp, by simp [pages],
      by simp [live], by simp [live]⟩
  · exact ⟨by simp [pages], by simp⟩

/-- What `kalloc` gives out is aligned and inside a page of its own; what is given out at one time
does not overlap, nor does it overlap a header. `kalloc` always returns. -/
theorem kalloc_disjoint {s : State} (reached : machine.Reach Machine.Any s) :
    (∀ a ∈ s.live, a.ptr % 8 = 0 ∧
      ∃ page ∈ s.pages, page ≤ a.ptr ∧ a.ptr + a.size ≤ page + pageSize) ∧
    (s.live.Pairwise fun a b =>
      Disjoint (Set.Ico a.ptr (a.ptr + a.size)) (Set.Ico b.ptr (b.ptr + b.size))) ∧
    (∀ a ∈ s.live, ∀ h, s.heap.IsNode h →
      Disjoint (Set.Ico a.ptr (a.ptr + a.size)) (Set.Ico h (h + nodeBytes))) ∧
    ∀ cpu size page, ∃ rounds, (s.heap.kalloc cpu size page rounds).isSome := by
  obtain ⟨cells, owner, sound⟩ : ∃ cells owner, Sound s cells owner :=
    reached.invariant (P := fun s => ∃ cells owner, Sound s cells owner)
      (fun s initial => ⟨_, _, (Sound.init initial).1⟩)
      fun s act s' _ ⟨cells, owner, sound⟩ _ stepped =>
        let ⟨cells', owner', sound', _⟩ := sound.step stepped
        ⟨cells', owner', sound'⟩
  refine ⟨fun a member => ?_, ?_, fun a member h node => ?_, fun cpu size page => ?_⟩
  · obtain ⟨cpu, c, here, ptr, -, size⟩ := sound.live a member
    obtain ⟨aligned, whole, inside⟩ := (sound.laid.tiles cpu).fits c here
    refine ⟨by simp only [nodeBytes] at ptr; omega, c.page * pageSize, ?_, ?_⟩
    · exact sound.pages c.page (by simp [sound.laid.owned cpu c here])
    · simp only [Cell.page, pageSize, nodeBytes] at *
      omega
  · refine (List.pairwise_map.mp sound.distinct).imp_of_mem fun {a b} member member' different => ?_
    obtain ⟨cpu, c, here, ptr, -, size⟩ := sound.live a member
    obtain ⟨cpu', d, here', ptr', -, size'⟩ := sound.live b member'
    have apart := sound.laid.disjoint here here' fun same => different (by rw [← ptr, same, ptr'])
    rw [Set.Ico_disjoint_Ico]
    omega
  · obtain ⟨cpu, c, here, ptr, -, size⟩ := sound.live a member
    obtain ⟨cpu', d, here', rfl⟩ := sound.laid.isNode_iff.mp node
    rw [Set.Ico_disjoint_Ico]
    by_cases same : c = d
    · subst same
      omega
    · have apart := sound.laid.disjoint here here' same
      omega
  · obtain ⟨heap, cells', found, done, -⟩ := @Heap.search_cells s.heap [] (cells cpu)
      (Heap.roundUp size) ((cells cpu).length + 1) (sound.laid.holds cpu)
      (sound.laid.tiles cpu).nodup (by omega)
    refine ⟨(cells cpu).length + 1, ?_⟩
    rw [Heap.kalloc, sound.laid.head cpu, done]
    rfl

/-- The lists of four CPUs, empty. -/
def empty : State := ⟨⟨fun _ => none, fun _ => ⟨none, 0, false⟩⟩, [], []⟩

theorem empty_init : machine.init empty := ⟨fun _ => rfl, rfl, rfl⟩

/-- Two CPUs allocate; the first page is split, and a cell of it is given back and taken again. -/
theorem kalloc_disjoint_twoCpus :
    ∃ s, machine.Reach Machine.Any s ∧
      s.live = [⟨0x1010, 40⟩, ⟨0x2010, 8⟩, ⟨0x1048, 100⟩] ∧
      Disjoint (Set.Ico 0x1010 (0x1010 + 40)) (Set.Ico 0x1048 (0x1048 + 100)) := by
  have shown : (machine.exec Machine.Any empty
      [.kalloc 0 33 0x1000 9, .kalloc 0 100 0x2000 9, .kalloc 1 8 0x2000 9, .kfree 0x1010,
        .kalloc 0 40 0x3000 9]).map (fun s => s.live) =
      some [⟨0x1010, 40⟩, ⟨0x2010, 8⟩, ⟨0x1048, 100⟩] := by decide +kernel
  obtain ⟨s, reached, live⟩ := Machine.Reach.exec_map empty_init shown
  have apart := (kalloc_disjoint reached).2.1
  rw [live] at apart
  exact ⟨s, reached, live, (List.pairwise_cons.mp apart).1 ⟨0x1048, 100⟩ (by decide)⟩

/-- If `kalloc` always takes a node whole or leaves enough for a header and more, and `kfree` is never
called on the last node of a list, then the nodes of a page fill it, and a node is free exactly if it
is not given out. -/
theorem kfree_loses_nothing {s : State} (reached : machine.Reach Careful s) :
    (∀ page ∈ s.pages, ∃ nodes : List Nat, nodes.Nodup ∧
      (∀ h, h ∈ nodes ↔ s.heap.IsNode h ∧ h / pageSize = page / pageSize) ∧
      (nodes.map fun h => (s.heap.node h).size + nodeBytes).sum = pageSize) ∧
    ∀ h, s.heap.IsNode h →
      ((s.heap.node h).free = true ↔ h + nodeBytes ∉ s.live.map Alloc.ptr) := by
  obtain ⟨cells, owner, sound, exact⟩ : ∃ cells owner, Sound s cells owner ∧ Exact s cells owner :=
    reached.invariant (P := fun s => ∃ cells owner, Sound s cells owner ∧ Exact s cells owner)
      (fun s initial => ⟨_, _, Sound.init initial⟩)
      fun s act s' _ ⟨cells, owner, sound, exact⟩ careful stepped =>
        let ⟨cells', owner', sound', exact'⟩ := sound.step stepped
        ⟨cells', owner', sound', exact' careful exact⟩
  constructor
  · intro page member
    obtain ⟨cpu, owned, sum⟩ := exact.full page member
    refine ⟨((cells cpu).filter (·.page = page / pageSize)).map Cell.addr,
      (List.filter_sublist.map _).nodup (sound.laid.tiles cpu).nodup, fun h => ?_, ?_⟩
    · rw [sound.laid.isNode_iff, List.mem_map]
      constructor
      · rintro ⟨c, inside, rfl⟩
        simp only [List.mem_filter, decide_eq_true_eq] at inside
        exact ⟨⟨cpu, c, inside.1, rfl⟩, inside.2⟩
      · rintro ⟨⟨cpu', c, inside, rfl⟩, same⟩
        -- the page has one owner
        have owner' := sound.laid.owned cpu' c inside
        rw [show c.page = page / pageSize from same, owned] at owner'
        obtain rfl := Option.some.inj owner'
        exact ⟨c, List.mem_filter.mpr ⟨inside, decide_eq_true same⟩, rfl⟩
    · refine Eq.trans ?_ sum
      rw [occupied_eq_sum, List.map_map]
      congr 1
      refine List.map_congr_left fun c inside => ?_
      simp only [List.mem_filter] at inside
      rw [Function.comp_apply, (sound.laid.header inside.1).1]
  · intro h node
    obtain ⟨cpu, c, inside, rfl⟩ := sound.laid.isNode_iff.mp node
    rw [(sound.laid.header inside).2]
    exact exact.flag cpu c inside

/-- Three pieces of a page, of which the first two are given back and are one node again. -/
theorem kfree_loses_nothing_twoFreed :
    ∃ s, machine.Reach Careful s ∧ s.heap.free 0 = some 0x1000 ∧
      s.heap.node 0x1000 = ⟨some 0x1080, 112, true⟩ ∧
      ((s.heap.node 0x1000).free = true ↔ 0x1010 ∉ s.live.map Alloc.ptr) := by
  have shown : (machine.exec Careful empty
      [.kalloc 0 40 0x1000 9, .kalloc 0 56 0x2000 9, .kalloc 0 8 0x2000 9, .kfree 0x1048,
        .kfree 0x1010]).map (fun s => (s.heap.free 0, s.heap.node 0x1000)) =
      some (some 0x1000, ⟨some 0x1080, 112, true⟩) := by decide +kernel
  obtain ⟨s, reached, observed⟩ := Machine.Reach.exec_map empty_init shown
  obtain ⟨free, node⟩ := Prod.mk.inj observed
  exact ⟨s, reached, free, node, (kfree_loses_nothing reached).2 0x1000 (.head free)⟩

/-- A page is taken but for 8 bytes, which are in no node, and given back, which leaves its node taken:
the page is lost. -/
theorem kfree_loses_page :
    ∃ s, machine.Reach Machine.Any s ∧ s.live = [] ∧ s.pages = [0x1000] ∧
      [0, 1, 2, 3].map s.heap.free = [some 0x1000, none, none, none] ∧
      s.heap.node 0x1000 = ⟨none, 4072, false⟩ ∧ 4072 + nodeBytes ≠ pageSize := by
  have shown : (machine.exec Machine.Any empty [.kalloc 0 4072 0x1000 9, .kfree 0x1010]).map
      (fun s => (s.live, s.pages, [0, 1, 2, 3].map s.heap.free, s.heap.node 0x1000)) =
      some ([], [0x1000], [some 0x1000, none, none, none], ⟨none, 4072, false⟩) := by decide +kernel
  obtain ⟨s, reached, observed⟩ := Machine.Reach.exec_map empty_init shown
  simp only [Prod.mk.injEq] at observed
  obtain ⟨live, pages, free, node⟩ := observed
  exact ⟨s, reached, live, pages, free, node, by decide⟩

end OsLab.Kernel.Kalloc
