import OsLab.Kernel.AddressSpace
import OsLab.Kernel.Lifetime

/-!
# Copies of address spaces

`vm_copy` of `src/kernel/pt.c`. Its four loops go through the valid entries of the last tables one
after the other, which does not depend on the copy that grows meanwhile, since the copy is made out
of free pages. Each page is copied to a page of its own.
-/
namespace OsLab.Kernel.Vm

open OsLab.Lib OsLab.Aarch64 OsLab.Kernel.Pt OsLab.Kernel.Paging

/-! ## The pages that are copied -/

/-- The valid entries of a table, with their indices. -/
def validEntries (word : UInt64 → UInt64) (table : UInt64) : List (UInt64 × UInt64) :=
  (entryIndices.map fun i => (i, word (table + 8 * i))).filter fun entry => entry.2 &&& pteValid ≠ 0

/-- The page that an entry names. -/
def entryPage (entry : UInt64) : UInt64 := p2k (pteAddress entry)

/-- The address that belongs to four indices. -/
def leafAddr (i i1 i2 i3 : UInt64) : UInt64 := i <<< 39 ||| i1 <<< 30 ||| i2 <<< 21 ||| i3 <<< 12

/-- The valid entries of the last tables, with the addresses of their pages, in the order of
`vm_copy`. -/
def leaves (word : UInt64 → UInt64) (pt : UInt64) : List (UInt64 × UInt64) :=
  (validEntries word pt).flatMap fun p =>
    (validEntries word (entryPage p.2)).flatMap fun p1 =>
      (validEntries word (entryPage p1.2)).flatMap fun p2 =>
        (validEntries word (entryPage p2.2)).flatMap fun p3 =>
          [(leafAddr p.1 p1.1 p2.1 p3.1, p3.2)]

section Leaves

variable {word : UInt64 → UInt64} {table pt : UInt64} {i i1 i2 i3 : UInt64}

/-- Valid entries are those at indices of the table. -/
theorem mem_validEntries {entry : UInt64 × UInt64} :
    entry ∈ validEntries word table ↔
      entry.1 < 512 ∧ entry.2 = word (table + 8 * entry.1) ∧ entry.2 &&& pteValid ≠ 0 := by
  simp only [validEntries, List.mem_filter, List.mem_map, decide_eq_true_eq]
  constructor
  · rintro ⟨⟨index, member, rfl⟩, valid⟩
    exact ⟨mem_entryIndices.mp member, rfl, valid⟩
  · rintro ⟨small, same, valid⟩
    exact ⟨⟨entry.1, mem_entryIndices.mpr small, by rw [← same]⟩, valid⟩

/-- A valid entry of a table above the last ones names a table. -/
theorem child_of_mem {entry : UInt64 × UInt64} (member : entry ∈ validEntries word table) :
    child word table entry.1 = some (entryPage entry.2) := by
  obtain ⟨small, same, valid⟩ := mem_validEntries.mp member
  rw [child, ← same, if_pos ⟨small, valid⟩, entryPage]

/-- A table that is named has a valid entry. -/
theorem mem_of_child {index next : UInt64} (named : child word table index = some next) :
    ∃ entry, (index, entry) ∈ validEntries word table ∧ entryPage entry = next := by
  simp only [child, Option.ite_none_right_eq_some, Option.some.injEq] at named
  exact ⟨word (table + 8 * index), mem_validEntries.mpr ⟨named.1.1, rfl, named.1.2⟩, named.2⟩

/-- The address that belongs to four indices, as a number. -/
theorem toNat_leafAddr (small : i < 512) (small1 : i1 < 512) (small2 : i2 < 512)
    (small3 : i3 < 512) : (leafAddr i i1 i2 i3).toNat =
      i.toNat * 2 ^ 39 + i1.toNat * 2 ^ 30 + i2.toNat * 2 ^ 21 + i3.toNat * 2 ^ 12 := by
  replace small : i.toNat < 512 := UInt64.lt_iff_toNat_lt.mp small
  replace small1 : i1.toNat < 512 := UInt64.lt_iff_toNat_lt.mp small1
  replace small2 : i2.toNat < 512 := UInt64.lt_iff_toNat_lt.mp small2
  replace small3 : i3.toNat < 512 := UInt64.lt_iff_toNat_lt.mp small3
  have shift : ∀ (a b : UInt64) (bit : Nat), b.toNat % 64 = bit → bit ≤ 39 → a.toNat < 512 →
      (a <<< b).toNat = a.toNat <<< bit := by
    intro a b bit same low below
    rw [UInt64.toNat_shiftLeft, same, Nat.mod_eq_of_lt]
    rw [Nat.shiftLeft_eq]
    calc a.toNat * 2 ^ bit < 512 * 2 ^ bit := Nat.mul_lt_mul_of_pos_right below (Nat.two_pow_pos _)
      _ ≤ 512 * 2 ^ 39 := Nat.mul_le_mul_left _ (Nat.pow_le_pow_right (by decide) low)
      _ < 2 ^ 64 := by decide
  rw [leafAddr, UInt64.toNat_or, UInt64.toNat_or, UInt64.toNat_or,
    shift i 39 39 rfl (by decide) small, shift i1 30 30 rfl (by decide) small1,
    shift i2 21 21 rfl (by decide) small2, shift i3 12 12 rfl (by decide) small3]
  have high : i.toNat <<< 39 ||| i1.toNat <<< 30 = (i.toNat * 512 + i1.toNat) <<< 30 := by
    rw [← Nat.shiftLeft_add_eq_or_of_lt (by rw [Nat.shiftLeft_eq]; omega), Nat.shiftLeft_eq,
      Nat.shiftLeft_eq, Nat.shiftLeft_eq]
    omega
  have middle : (i.toNat * 512 + i1.toNat) <<< 30 ||| i2.toNat <<< 21 =
      ((i.toNat * 512 + i1.toNat) * 512 + i2.toNat) <<< 21 := by
    rw [← Nat.shiftLeft_add_eq_or_of_lt (by rw [Nat.shiftLeft_eq]; omega), Nat.shiftLeft_eq,
      Nat.shiftLeft_eq, Nat.shiftLeft_eq]
    omega
  rw [high, middle, ← Nat.shiftLeft_add_eq_or_of_lt (by rw [Nat.shiftLeft_eq]; omega),
    Nat.shiftLeft_eq, Nat.shiftLeft_eq]
  omega

/-- The indices of the address that belongs to four indices. -/
theorem vaParts_leafAddr (small : i < 512) (small1 : i1 < 512) (small2 : i2 < 512)
    (small3 : i3 < 512) : vaPart0 (leafAddr i i1 i2 i3) = i ∧ vaPart1 (leafAddr i i1 i2 i3) = i1 ∧
      vaPart2 (leafAddr i i1 i2 i3) = i2 ∧ vaPart3 (leafAddr i i1 i2 i3) = i3 := by
  have value := toNat_leafAddr small small1 small2 small3
  replace small : i.toNat < 512 := UInt64.lt_iff_toNat_lt.mp small
  replace small1 : i1.toNat < 512 := UInt64.lt_iff_toNat_lt.mp small1
  replace small2 : i2.toNat < 512 := UInt64.lt_iff_toNat_lt.mp small2
  replace small3 : i3.toNat < 512 := UInt64.lt_iff_toNat_lt.mp small3
  refine ⟨?_, ?_, ?_, ?_⟩ <;> rw [← UInt64.toNat_inj]
  · rw [toNat_vaPart0, value]
    omega
  · rw [toNat_vaPart1, value]
    omega
  · rw [toNat_vaPart2, value]
    omega
  · rw [toNat_vaPart3, value]
    omega

/-- Four indices that lead to a valid entry are what is copied. -/
theorem mem_leaves {leaf : UInt64 × UInt64} :
    leaf ∈ leaves word pt ↔ ∃ i i1 i2 i3 t1 t2 t3, child word pt i = some t1 ∧
      child word t1 i1 = some t2 ∧ child word t2 i2 = some t3 ∧ i3 < 512 ∧
      word (t3 + 8 * i3) &&& pteValid ≠ 0 ∧ leaf = (leafAddr i i1 i2 i3, word (t3 + 8 * i3)) := by
  simp only [leaves, List.mem_flatMap, List.mem_singleton]
  constructor
  · rintro ⟨p, member, p1, member1, p2, member2, p3, member3, rfl⟩
    obtain ⟨small, same, valid⟩ := mem_validEntries.mp member3
    rw [same] at valid
    exact ⟨p.1, p1.1, p2.1, p3.1, _, _, _, child_of_mem member, child_of_mem member1,
      child_of_mem member2, small, valid, by rw [same]⟩
  · rintro ⟨i, i1, i2, i3, t1, t2, t3, first, second, third, small, valid, rfl⟩
    obtain ⟨entry, member, rfl⟩ := mem_of_child first
    obtain ⟨entry1, member1, rfl⟩ := mem_of_child second
    obtain ⟨entry2, member2, rfl⟩ := mem_of_child third
    exact ⟨(i, entry), member, (i1, entry1), member1, (i2, entry2), member2,
      (i3, word (entryPage entry2 + 8 * i3)), mem_validEntries.mpr ⟨small, rfl, valid⟩, rfl⟩

/-- Tables are named at indices. -/
theorem child_lt {index next : UInt64} (named : child word table index = some next) :
    index < 512 := by
  simp only [child, Option.ite_none_right_eq_some] at named
  exact named.1.1

/-- The indices of valid entries are different. -/
theorem validEntries_apart :
    (validEntries word table).Pairwise fun entry later => entry.1 ≠ later.1 := by
  refine List.Pairwise.filter _ ?_
  rw [List.pairwise_map]
  exact nodup_entryIndices

/-- The pages below the entries of a table are different, as the addresses of each have its index
in one of their parts. -/
theorem pairwise_flatMap_validEntries {list : UInt64 × UInt64 → List (UInt64 × UInt64)}
    {part : UInt64 → UInt64} (congr : ∀ va va', SamePage va va' → part va = part va')
    (inner : ∀ entry ∈ validEntries word table,
      (list entry).Pairwise fun earlier later => ¬ SamePage later.1 earlier.1)
    (index : ∀ entry ∈ validEntries word table, ∀ leaf ∈ list entry, part leaf.1 = entry.1) :
    ((validEntries word table).flatMap list).Pairwise
      fun earlier later => ¬ SamePage later.1 earlier.1 := by
  rw [List.pairwise_flatMap]
  refine ⟨inner, validEntries_apart.imp_of_mem ?_⟩
  intro entry other member member' different earlier below later below' same
  refine different ?_
  rw [← index entry member earlier below, ← index other member' later below']
  exact (congr _ _ same).symm

/-- No page is copied twice. -/
theorem leaves_apart : (leaves word pt).Pairwise
    fun earlier later => ¬ SamePage later.1 earlier.1 := by
  have lt : ∀ {table entry}, entry ∈ validEntries word table → entry.1 < 512 :=
    fun member => (mem_validEntries.mp member).1
  have parts := fun va va' (same : SamePage va va') => samePage_iff_parts.mp same
  refine pairwise_flatMap_validEntries (fun va va' same => (parts va va' same).1)
    (fun p member => pairwise_flatMap_validEntries (fun va va' same => (parts va va' same).2.1)
      (fun p1 member1 => pairwise_flatMap_validEntries
        (fun va va' same => (parts va va' same).2.2.1)
        (fun p2 member2 => pairwise_flatMap_validEntries
          (fun va va' same => (parts va va' same).2.2.2)
          (fun p3 member3 => List.pairwise_singleton _ _) ?_) ?_) ?_) ?_
  · intro p3 member3 leaf below
    obtain rfl := List.mem_singleton.mp below
    exact (vaParts_leafAddr (lt member) (lt member1) (lt member2) (lt member3)).2.2.2
  · intro p2 member2 leaf below
    simp only [List.mem_flatMap, List.mem_singleton] at below
    obtain ⟨p3, member3, rfl⟩ := below
    exact (vaParts_leafAddr (lt member) (lt member1) (lt member2) (lt member3)).2.2.1
  · intro p1 member1 leaf below
    simp only [List.mem_flatMap, List.mem_singleton] at below
    obtain ⟨p2, member2, p3, member3, rfl⟩ := below
    exact (vaParts_leafAddr (lt member) (lt member1) (lt member2) (lt member3)).2.1
  · intro p member leaf below
    simp only [List.mem_flatMap, List.mem_singleton] at below
    obtain ⟨p1, member1, p2, member2, p3, member3, rfl⟩ := below
    exact (vaParts_leafAddr (lt member) (lt member1) (lt member2) (lt member3)).1

variable {s : Pt.State}

/-- What is copied is the entries that are valid, at the addresses of their pages. -/
theorem leaf_entry {leaf : UInt64 × UInt64} (member : leaf ∈ leaves s.mem.word s.pt) {va : UInt64}
    (same : SamePage leaf.1 va) : s.entry va = some leaf.2 ∧ leaf.2 &&& pteValid ≠ 0 := by
  obtain ⟨i, i1, i2, i3, t1, t2, t3, first, second, third, small, valid, rfl⟩ :=
    mem_leaves.mp member
  obtain ⟨part0, part1, part2, part3⟩ :=
    vaParts_leafAddr (child_lt first) (child_lt second) (child_lt third) small
  refine ⟨?_, valid⟩
  rw [← entry_congr same, State.entry, State.location, State.walk, tablePath, part0, part1, part2,
    part3]
  simp [Radix.walk, first, second, third]

/-- Every page that is mapped is copied. -/
theorem leaf_of_frame {va page : UInt64} (found : s.frame va = some page) :
    ∃ leaf ∈ leaves s.mem.word s.pt, SamePage leaf.1 va ∧ entryPage leaf.2 = page := by
  obtain ⟨value, entry, mapped⟩ := Option.bind_eq_some_iff.mp found
  obtain ⟨valid, rfl⟩ := mappedPage_some mapped
  obtain ⟨pte, located, rfl⟩ := Option.map_eq_some_iff.mp entry
  obtain ⟨t3, reached, rfl⟩ := location_some located
  simp only [State.walk, tablePath, Radix.walk, Option.bind_eq_some_iff,
    Option.some.injEq] at reached
  obtain ⟨t1, first, t2, second, _, third, rfl⟩ := reached
  obtain ⟨small0, small1, small2, small3⟩ := vaParts_lt va
  refine ⟨_, mem_leaves.mpr ⟨_, _, _, _, t1, t2, _, first, second, third, small3, valid, rfl⟩, ?_,
    rfl⟩
  exact samePage_iff_parts.mpr (vaParts_leafAddr small0 small1 small2 small3)

end Leaves

/-! ## One page -/

section Entry

variable {pool : List UInt64} {s s' : Pt.State} {va entry : UInt64}

/-- What `vm_copy` asserts about an entry. -/
def Copyable (entry : UInt64) : Prop :=
  entry &&& ptePage ≠ 0 ∧ entry &&& pteUser ≠ 0 ∧ entry &&& pteNormal ≠ 0

/-- The steps of `copyEntry`. -/
theorem copyEntry_eq {np : UInt64} {rest : List UInt64} (copyable : Copyable entry)
    (more : s.mem.pages = np :: rest) (kernel : KernelPage np) :
    copyEntry va entry s =
      mapPage { s with mem := { s.mem.kallocPage.2 with
        word := copyPage s.mem.word np (entryPage entry) } } va np := by
  obtain ⟨page, user, normal⟩ := copyable
  have taken : s.mem.kallocPage.1 = np := by simp [Mem.kallocPage, more]
  simp only [copyEntry, page, user, normal, or_self, if_false, taken, kernel.ne_zero]
  rfl

/-- A copy to a page that is not in use leaves the tables alone. -/
theorem copyPage_table {np source table index : UInt64} {word : UInt64 → UInt64}
    (spare : Spare pool s np) (kernel : KernelPage table) (member : table ∈ s.tables)
    (small : index < 512) :
    copyPage word np source (table + 8 * index) = word (table + 8 * index) := by
  have different : table ≠ np := fun equal => spare.table (equal ▸ member)
  rw [copyPage_word spare.kernel kernel small, if_neg different]

/-- The copy of one page: it is mapped to a new page with the same words. -/
theorem copyEntry_spec (mapped : Mapped (fun _ => True) pool s) (ran : copyEntry va entry s = some s') :
    ∃ np, Mapped (fun _ => True) pool s' ∧ (∀ va', SamePage va va' → s'.frame va' = some np) ∧
      (∀ va', ¬ SamePage va va' → s'.frame va' = s.frame va') ∧
      (∀ other index, KernelPage other → index < 512 → other ∉ s'.tables →
        s'.mem.word (other + 8 * index) =
          if other = np then s.mem.word (entryPage entry + 8 * index)
          else s.mem.word (other + 8 * index)) ∧
      (∀ va', s.frame va' ≠ some np) ∧
      s.mem.pages.length ≤ s'.mem.pages.length + 4 := by
  have copyable : Copyable entry := by
    by_contra bad
    rw [Copyable] at bad
    rw [copyEntry, if_pos (by tauto)] at ran
    exact absurd ran (by simp)
  cases more : s.mem.pages with
  | nil => simp [copyEntry, copyable.1, copyable.2.1, copyable.2.2, Mem.kallocPage, more] at ran
  | cons np rest =>
    have kernel := mapped.fresh.kernel np (by simp [more])
    rw [copyEntry_eq copyable more kernel] at ran
    obtain ⟨taken, spare⟩ := mapped.take more
    obtain ⟨filled, same⟩ := taken.words fun table member index small =>
      copyPage_table spare (mapped.tables.kernel table member) member small
    have spare' : Spare pool { s with mem := { s.mem.kallocPage.2 with
        word := copyPage s.mem.word np (entryPage entry) } } np :=
      ⟨spare.kernel, spare.pool, spare.table, spare.free, fun va found =>
        spare.unmapped va ((same va).symm.trans found)⟩
    obtain ⟨mapped', here, elsewhere, words, length⟩ := filled.mapPage spare' ran
    refine ⟨np, mapped', here, fun va' different => (elsewhere va' different).trans (same va'),
      fun other index kernel' small outside => ?_, spare.unmapped, ?_⟩
    · exact (words other index kernel' small outside).trans (copyPage_word kernel kernel' small)
    · have shorter : s.mem.kallocPage.2.pages = rest := by simp [Mem.kallocPage, more]
      change s.mem.kallocPage.2.pages.length ≤ _ at length
      rw [shorter] at length
      rw [List.length_cons]
      omega

/-- Pages are copied as long as there are free ones. -/
theorem copyEntry_total (mapped : Mapped (fun _ => True) pool s) (copyable : Copyable entry)
    (enough : 4 ≤ s.mem.pages.length) : ∃ s', copyEntry va entry s = some s' := by
  cases more : s.mem.pages with
  | nil => simp [more] at enough
  | cons np rest =>
    have kernel := mapped.fresh.kernel np (by simp [more])
    rw [copyEntry_eq copyable more kernel]
    obtain ⟨taken, spare⟩ := mapped.take more
    obtain ⟨filled, -⟩ := taken.words fun table member index small =>
      copyPage_table spare (mapped.tables.kernel table member) member small
    refine filled.mapPage_total ?_ va np
    have shorter : s.mem.kallocPage.2.pages = rest := by simp [Mem.kallocPage, more]
    change 3 ≤ s.mem.kallocPage.2.pages.length
    rw [shorter]
    rw [more, List.length_cons] at enough
    omega

end Entry

/-! ## All pages -/

/-- The copy of a page of the list. -/
def copyLeaf (s : Pt.State) (leaf : UInt64 × UInt64) : Option Pt.State := copyEntry leaf.1 leaf.2 s

/-- A copy out of the pages of `pool`, in memory that had the words `word` before. -/
structure Copying (pool : List UInt64) (word : UInt64 → UInt64) (s : Pt.State) : Prop where
  mapped : Mapped (fun _ => True) pool s
  words : ∀ page, KernelPage page → page ∉ pool → ∀ index, index < 512 →
    s.mem.word (page + 8 * index) = word (page + 8 * index)

section Runs

variable {pool : List UInt64} {word : UInt64 → UInt64} {s s' : Pt.State} {table : UInt64}

/-- The copy of a page. -/
theorem Copying.copyLeaf (copying : Copying pool word s) {leaf : UInt64 × UInt64}
    (ran : Vm.copyLeaf s leaf = some s') : Copying pool word s' := by
  obtain ⟨np, mapped, here, -, words, -, -⟩ := copyEntry_spec copying.mapped ran
  refine ⟨mapped, fun page kernel outside index small => ?_⟩
  have different : page ≠ np := by
    rintro rfl
    exact outside (mapped.frames _ _ (here leaf.1 (.refl _))).1
  rw [words page index kernel small fun member => outside (mapped.own page member),
    if_neg different]
  exact copying.words page kernel outside index small

/-- The copies of some pages. -/
theorem Copying.foldlM (copying : Copying pool word s) {list : List (UInt64 × UInt64)}
    (ran : list.foldlM Vm.copyLeaf s = some s') : Copying pool word s' := by
  induction list generalizing s with
  | nil =>
    obtain rfl := Option.some.inj ran
    exact copying
  | cons leaf list ih =>
    obtain ⟨middle, first, rest⟩ := Option.bind_eq_some_iff.mp ran
    exact ih (copying.copyLeaf first) rest

/-- A loop of `vm_copy`, whose turns copy lists of pages, copies them one list after the other. -/
theorem forValid_eq {body : UInt64 → UInt64 → Pt.State → Option Pt.State}
    {list : UInt64 × UInt64 → List (UInt64 × UInt64)} (kernel : KernelPage table)
    (outside : table ∉ pool)
    (same : ∀ entry ∈ validEntries word table, ∀ s, Copying pool word s →
      body entry.1 entry.2 s = (list entry).foldlM copyLeaf s) (copying : Copying pool word s) :
    forValid table body s = ((validEntries word table).flatMap list).foldlM copyLeaf s := by
  -- By induction on the indices that are left; the table does not change on the way.
  suffices loop : ∀ indices : List UInt64, (∀ i ∈ indices, i < 512) → ∀ s, Copying pool word s →
      indices.foldlM (fun s i =>
        if s.mem.word (table + 8 * i) &&& pteValid = 0 then some s
        else body i (s.mem.word (table + 8 * i)) s) s =
      (((indices.map fun i => (i, word (table + 8 * i))).filter fun entry =>
        entry.2 &&& pteValid ≠ 0).flatMap list).foldlM copyLeaf s from
    loop entryIndices (fun i member => mem_entryIndices.mp member) s copying
  intro indices
  induction indices with
  | nil => exact fun _ _ _ => rfl
  | cons i indices ih =>
    intro small s copying
    replace ih := ih fun i member => small i (List.mem_cons_of_mem _ member)
    have value := copying.words table kernel outside i (small i (by simp))
    rw [List.foldlM_cons, List.map_cons, value]
    by_cases valid : word (table + 8 * i) &&& pteValid = 0
    · rw [if_pos valid, List.filter_cons_of_neg (by simpa using valid)]
      exact ih s copying
    · have member : (i, word (table + 8 * i)) ∈ validEntries word table :=
        mem_validEntries.mpr ⟨small i (by simp), rfl, valid⟩
      rw [if_neg valid, List.filter_cons_of_pos (by simpa using valid), List.flatMap_cons,
        List.foldlM_append, same _ member s copying]
      cases ran : (list (i, word (table + 8 * i))).foldlM copyLeaf s with
      | none => rfl
      | some s' => exact ih s' (copying.foldlM ran)

/-- A valid entry passes the check for tables. -/
theorem entryTable_valid {entry : UInt64} (valid : entry &&& pteValid ≠ 0) :
    entryTable entry = some (entryPage entry) := by
  have table : entry &&& pteTable ≠ 0 := by
    intro zero
    refine valid ?_
    have part : pteValid = pteTable &&& pteValid := by decide
    rw [part, ← UInt64.and_assoc, zero, UInt64.zero_and]
  rw [entryTable, if_neg table, entryPage]

/-- The page table that is copied is not made of free pages. -/
structure Original (s : Pt.State) : Prop where
  root : KernelPage s.pt
  used : ∀ page, s.Uses page → page ∉ s.mem.pages
  kernel : ∀ page ∈ s.mem.pages, KernelPage page
  nodup : s.mem.pages.Nodup

/-- A table that a valid entry of a table names. -/
theorem walk_entry {path : List UInt64} {entry : UInt64 × UInt64} (found : s.walk path = some table)
    (member : entry ∈ validEntries s.mem.word table) :
    s.walk (path ++ [entry.1]) = some (entryPage entry.2) := by
  rw [State.walk, Radix.walk_concat, ← State.walk, found, Option.bind_some, child_of_mem member]

/-- A turn of one of the upper loops of `vm_copy`. -/
theorem forValid_turn (original : Original s) {path : List UInt64} (short : path.length < 3)
    (found : s.walk path = some table)
    {entry : UInt64 × UInt64} (member : entry ∈ validEntries s.mem.word table)
    {body : UInt64 → UInt64 → Pt.State → Option Pt.State}
    {list : UInt64 × UInt64 → List (UInt64 × UInt64)}
    (same : ∀ lower ∈ validEntries s.mem.word (entryPage entry.2), ∀ copy,
      Copying s.mem.pages s.mem.word copy →
        body lower.1 lower.2 copy = (list lower).foldlM copyLeaf copy)
    {copy : Pt.State} (copying : Copying s.mem.pages s.mem.word copy) :
    ((entryTable entry.2).bind fun next => copy |> forValid next body) =
      ((validEntries s.mem.word (entryPage entry.2)).flatMap list).foldlM copyLeaf copy := by
  have reached := walk_entry found member
  rw [entryTable_valid (mem_validEntries.mp member).2.2, Option.bind_some]
  refine forValid_eq (walk_kernel original.root reached) ?_ same copying
  refine original.used _ (.inl ⟨_, ?_, reached⟩)
  rw [List.length_append, List.length_singleton]
  omega

/-- `vm_copy` copies the pages of the list into a new page table. -/
theorem vmCopy_eq (original : Original s) {copy : Pt.State} (made : initPgdir s.mem = some copy)
    (copying : Copying s.mem.pages s.mem.word copy) :
    vmCopy s.mem s.pt = (leaves s.mem.word s.pt).foldlM copyLeaf copy := by
  have here : s.walk [] = some s.pt := rfl
  rw [vmCopy, made, Option.bind_some]
  refine forValid_eq original.root (original.used _ (.inl ⟨[], by simp, here⟩))
    (fun p member copy copying => ?_) copying
  refine forValid_turn original (by simp) here member (fun p1 member1 copy copying => ?_) copying
  have first := walk_entry here member
  refine forValid_turn original (by simp) first member1 (fun p2 member2 copy copying => ?_) copying
  have second := walk_entry first member1
  refine forValid_turn original (by simp) second member2 (fun p3 _ copy _ => ?_) copying
  exact (Option.bind_fun_some (copyEntry _ _ copy)).symm

/-- The pages of `done` have been copied, each to a page of its own. -/
structure Copies (word : UInt64 → UInt64) (done : List (UInt64 × UInt64)) (copy : Pt.State) :
    Prop where
  /-- Pages that were copied are mapped, and hold the same words. -/
  held : ∀ leaf ∈ done, ∃ np, copy.frame leaf.1 = some np ∧ ∀ index, index < 512 →
    copy.mem.word (np + 8 * index) = word (entryPage leaf.2 + 8 * index)
  only : ∀ va np, copy.frame va = some np → ∃ leaf ∈ done, SamePage leaf.1 va

/-- One more page is copied. -/
theorem Copies.copyLeaf (copying : Copying pool word s) {done : List (UInt64 × UInt64)}
    (copies : Copies word done s) {leaf : UInt64 × UInt64} (outside : entryPage leaf.2 ∉ pool)
    (new : ∀ earlier ∈ done, ¬ SamePage leaf.1 earlier.1)
    (ran : Vm.copyLeaf s leaf = some s') : Copies word (done ++ [leaf]) s' := by
  obtain ⟨np, mapped, here, elsewhere, words, unmapped, -⟩ := copyEntry_spec copying.mapped ran
  have found := here leaf.1 (.refl _)
  refine ⟨fun earlier member => ?_, fun va page shown => ?_⟩
  · rcases List.mem_append.mp member with member | member
    · obtain ⟨page, shown, same⟩ := copies.held earlier member
      have shown' := (elsewhere earlier.1 (new earlier member)).trans shown
      refine ⟨page, shown', fun index small => ?_⟩
      have different : page ≠ np := fun equal => unmapped earlier.1 (equal ▸ shown)
      rw [words page index (frame_kernel shown') small (mapped.frames _ _ shown').2.1,
        if_neg different]
      exact same index small
    · obtain rfl := List.mem_singleton.mp member
      refine ⟨np, found, fun index small => ?_⟩
      rw [words np index (frame_kernel found) small (mapped.frames _ _ found).2.1, if_pos rfl]
      exact copying.words _ (kernelPage_address _) outside index small
  · by_cases same : SamePage leaf.1 va
    · exact ⟨leaf, by simp, same⟩
    · obtain ⟨earlier, member, close⟩ := copies.only va page ((elsewhere va same).symm.trans shown)
      exact ⟨earlier, List.mem_append_left _ member, close⟩

/-- All pages that are left are copied. -/
theorem Copies.foldlM {todo done : List (UInt64 × UInt64)} (copying : Copying pool word s)
    (copies : Copies word done s) (outside : ∀ leaf ∈ todo, entryPage leaf.2 ∉ pool)
    (new : (done ++ todo).Pairwise fun earlier later => ¬ SamePage later.1 earlier.1)
    (ran : todo.foldlM Vm.copyLeaf s = some s') : Copies word (done ++ todo) s' := by
  induction todo generalizing s done with
  | nil =>
    obtain rfl := Option.some.inj ran
    rwa [List.append_nil]
  | cons leaf todo ih =>
    obtain ⟨middle, first, rest⟩ := Option.bind_eq_some_iff.mp ran
    have apart := (List.pairwise_append.mp new).2.2
    have more := copies.copyLeaf copying (outside leaf (by simp))
      (fun earlier member => apart earlier member leaf (by simp)) first
    rw [← List.singleton_append, ← List.append_assoc] at new ⊢
    exact ih (copying.copyLeaf first) more (fun leaf member => outside leaf (by simp [member])) new
      rest

/-- The pages can be copied as long as there are free ones. -/
theorem Copying.total {todo : List (UInt64 × UInt64)} (copying : Copying pool word s)
    (copyable : ∀ leaf ∈ todo, Copyable leaf.2) (enough : 4 * todo.length ≤ s.mem.pages.length) :
    ∃ s', todo.foldlM Vm.copyLeaf s = some s' := by
  induction todo generalizing s with
  | nil => exact ⟨s, rfl⟩
  | cons leaf todo ih =>
    rw [List.length_cons] at enough
    obtain ⟨middle, first⟩ : ∃ middle, Vm.copyLeaf s leaf = some middle :=
      copyEntry_total copying.mapped (copyable leaf (by simp)) (by omega)
    obtain ⟨-, -, -, -, -, -, length⟩ := copyEntry_spec copying.mapped first
    obtain ⟨s', rest⟩ := ih (copying.copyLeaf first)
      (fun leaf member => copyable leaf (by simp [member])) (by omega)
    exact ⟨s', by rw [List.foldlM_cons, first]; exact rest⟩

end Runs

/-! ## The copy -/

/-- `copy` is a copy of the address space of `s`, made in the memory of `s`. -/
structure Clone (s copy : Pt.State) : Prop where
  reads : ∀ va, copy.readPage va = s.readPage va
  /-- Different pages of the copy are in different pages of memory. -/
  frames : ∀ va va' page, copy.frame va = some page → copy.frame va' = some page → SamePage va va'
  /-- Different tables of the copy are in different pages of memory. -/
  tables : ∀ path path' table, path.length ≤ 3 → path'.length ≤ 3 →
    copy.walk path = some table → copy.walk path' = some table → path = path'
  apart : ∀ va page path, path.length ≤ 3 → copy.frame va = some page →
    copy.walk path ≠ some page
  disjoint : ∀ page, copy.Uses page → ¬ s.Uses page
  /-- It is made of pages that were free. -/
  own : ∀ page, copy.Uses page ∨ page ∈ copy.mem.pages → page ∈ s.mem.pages
  entries : ∀ va, (s.inMem copy.mem).entry va = s.entry va
  kept : ∀ page, s.Uses page → ∀ index, index < 512 →
    copy.mem.word (page + 8 * index) = s.mem.word (page + 8 * index)
  /-- What is stored to a page of the copy is not seen in the original. -/
  storeCopy : ∀ va page content, copy.frame va = some page → ∀ va',
    (s.inMem { copy.mem with word := overwrite copy.mem.word page content }).readPage va' =
      s.readPage va'
  /-- What is stored to a page of the original is not seen in the copy. -/
  storeOriginal : ∀ va page content, s.frame va = some page → ∀ va',
    (copy.inMem { copy.mem with word := overwrite copy.mem.word page content }).readPage va' =
      copy.readPage va'

section Clones

variable {s copy : Pt.State}

/-- The pages that have been copied are read alike. -/
theorem Copies.readPage (copies : Copies s.mem.word (leaves s.mem.word s.pt) copy) (va : UInt64) :
    copy.readPage va = s.readPage va := by
  rw [State.readPage, State.readPage]
  cases found : s.frame va with
  | none =>
    cases shown : copy.frame va with
    | none => rfl
    | some np =>
      obtain ⟨leaf, member, same⟩ := copies.only va np shown
      obtain ⟨entry, valid⟩ := leaf_entry member same
      rw [frame_of_entry entry, mappedPage, if_neg valid] at found
      exact absurd found (by simp)
  | some page =>
    obtain ⟨leaf, member, same, rfl⟩ := leaf_of_frame found
    obtain ⟨np, shown, words⟩ := copies.held leaf member
    rw [← frame_congr same, shown]
    exact congrArg some (pageBytes_congr words)

/-- A copy of all pages, out of free pages, is a clone. -/
theorem Original.clone (original : Original s) (copying : Copying s.mem.pages s.mem.word copy)
    (copies : Copies s.mem.word (leaves s.mem.word s.pt) copy) : Clone s copy := by
  obtain ⟨mapped, words⟩ := copying
  have own : ∀ page, copy.Uses page → page ∈ s.mem.pages := by
    rintro page (⟨path, short, found⟩ | ⟨va, found⟩)
    · exact mapped.own page (mapped.tables.inUse short found)
    · exact (mapped.frames va page found).1
  have disjoint : ∀ page, copy.Uses page → ¬ s.Uses page := fun page uses uses' =>
    original.used page uses' (own page uses)
  have kept : ∀ page, s.Uses page → ∀ index, index < 512 →
      copy.mem.word (page + 8 * index) = s.mem.word (page + 8 * index) := fun page uses =>
    words page (uses.kernel original.root) (original.used page uses)
  have root : KernelPage copy.pt :=
    mapped.tables.kernel _ (mapped.tables.inUse (show ([] : List UInt64).length ≤ 3 by simp) rfl)
  refine ⟨copies.readPage, fun va va' page => mapped.apart va va' page trivial,
    mapped.tables.tree.apart, ?_, disjoint, fun page => Or.rec (own page) (mapped.queue page),
    entry_of_uses kept, kept, ?_, ?_⟩
  · intro va page path short found reached
    exact (mapped.frames va page found).2.1 (mapped.tables.inUse short reached)
  · intro va page content found va'
    refine readPage_of_uses (fun other uses index small => ?_) va'
    refine Eq.trans ?_ (kept other uses index small)
    refine overwrite_outside (frame_kernel found) (uses.kernel original.root) small ?_
    rintro rfl
    exact disjoint other (.inr ⟨va, found⟩) uses
  · intro va page content found va'
    exact readPage_overwrite root (frame_kernel found)
      (fun uses => disjoint page uses (.inr ⟨va, found⟩)) content va'

/-- Pages that are closed under what their entries name are all that an address space uses. -/
theorem uses_of_closed {held : List UInt64} (root : s.pt ∈ held)
    (closed : ∀ table ∈ held, ∀ entry ∈ validEntries s.mem.word table, entryPage entry.2 ∈ held)
    {page : UInt64} (uses : s.Uses page) : page ∈ held := by
  have reached : ∀ (path : List UInt64) (table : UInt64), s.walk path = some table →
      table ∈ held := by
    intro path
    induction path using List.reverseRecOn with
    | nil =>
      intro table found
      obtain rfl := Option.some.inj found
      exact root
    | append_singleton path index ih =>
      intro table found
      obtain ⟨upper, above, named⟩ := Radix.walk_of_concat found
      obtain ⟨entry, member, rfl⟩ := mem_of_child named
      exact closed upper (ih upper above) (index, entry) member
  rcases uses with ⟨path, -, found⟩ | ⟨va, found⟩
  · exact reached path page found
  · obtain ⟨leaf, member, -, rfl⟩ := leaf_of_frame found
    simp only [leaves, List.mem_flatMap, List.mem_singleton] at member
    obtain ⟨p, member, p1, member1, p2, member2, p3, member3, rfl⟩ := member
    exact closed _ (closed _ (closed _ (closed _ root p member) p1 member1) p2 member2) p3 member3

/-- The entries of the pages that are mapped have the bits that `vm_copy` asserts. -/
def AllCopyable (s : Pt.State) : Prop :=
  ∀ va entry, s.entry va = some entry → entry &&& pteValid ≠ 0 →
    entry &&& pteUser ≠ 0 ∧ entry &&& pteNormal ≠ 0

/-- The pages that are copied pass the checks of `vm_copy`. -/
theorem AllCopyable.leaf (all : AllCopyable s) {leaf : UInt64 × UInt64}
    (member : leaf ∈ leaves s.mem.word s.pt) : Copyable leaf.2 := by
  obtain ⟨entry, valid⟩ := leaf_entry member (.refl _)
  obtain ⟨user, normal⟩ := all _ _ entry valid
  refine ⟨fun zero => valid ?_, user, normal⟩
  have part : pteValid = ptePage &&& pteValid := by decide
  rw [part, ← UInt64.and_assoc, zero, UInt64.zero_and]

/-- The pages that are copied are not free. -/
theorem Original.leaf (original : Original s) {leaf : UInt64 × UInt64}
    (member : leaf ∈ leaves s.mem.word s.pt) : entryPage leaf.2 ∉ s.mem.pages := by
  obtain ⟨entry, valid⟩ := leaf_entry member (.refl _)
  refine original.used _ (.inr ⟨leaf.1, ?_⟩)
  rw [frame_of_entry entry, mappedPage, if_neg valid, entryPage]

/-- The start of `vm_copy`. -/
theorem Original.start (original : Original s) {page : UInt64} {rest : List UInt64}
    (more : s.mem.pages = page :: rest) :
    ∃ copy, initPgdir s.mem = some copy ∧ Copying s.mem.pages s.mem.word copy ∧
      Copies s.mem.word [] copy ∧ copy.mem.pages = rest := by
  obtain ⟨copy, made, mapped, unmapped, pages, words⟩ :=
    Mapped.initPgdir (fun _ => True) more original.kernel original.nodup
  refine ⟨copy, made, ⟨mapped, words⟩, ⟨by simp, fun va np found => ?_⟩, pages⟩
  rw [unmapped] at found
  exact absurd found (by simp)

/-- What `vm_copy` returns is a clone. -/
theorem Original.vmCopy (original : Original s) (ran : vmCopy s.mem s.pt = some copy) :
    Clone s copy := by
  cases more : s.mem.pages with
  | nil =>
    have none : initPgdir s.mem = none := by simp [initPgdir, kkalloc, Mem.kallocPage, more]
    rw [Vm.vmCopy, none] at ran
    exact absurd ran (by simp)
  | cons page rest =>
    obtain ⟨first, made, copying, copies, -⟩ := original.start more
    rw [vmCopy_eq original made copying] at ran
    have all := copies.foldlM copying (fun leaf member => original.leaf member)
      (by rw [List.nil_append]; exact leaves_apart) ran
    rw [List.nil_append] at all
    exact original.clone (copying.foldlM ran) all

/-- `vm_copy` returns a page table if there are enough free pages. -/
theorem Original.vmCopy_total (original : Original s) (copyable : AllCopyable s)
    (enough : 4 * (leaves s.mem.word s.pt).length + 1 ≤ s.mem.pages.length) :
    ∃ copy, Vm.vmCopy s.mem s.pt = some copy := by
  cases more : s.mem.pages with
  | nil => simp [more] at enough
  | cons page rest =>
    obtain ⟨first, made, copying, -, pages⟩ := original.start more
    rw [vmCopy_eq original made copying]
    refine copying.total (fun leaf member => copyable.leaf member) ?_
    rw [more, List.length_cons] at enough
    rw [pages]
    omega

/-- `vm_copy` clones address spaces: what it returns is a clone, and it returns one if there are
enough free pages, at most four for a page and the root. -/
theorem vm_copy_clones (original : Original s) (copyable : AllCopyable s) :
    (∀ copy, vmCopy s.mem s.pt = some copy → Clone s copy) ∧
      (4 * (leaves s.mem.word s.pt).length + 1 ≤ s.mem.pages.length →
        ∃ copy, vmCopy s.mem s.pt = some copy) :=
  ⟨fun _ ran => original.vmCopy ran, original.vmCopy_total copyable⟩

end Clones

/-- A page table that maps two pages, the second of which holds 42. -/
def parentSpace : Pt.State :=
  let mem := Lifetime.parentMemory.kallocPage.2
  let word := Function.update mem.word 0xffff000000204008 (k2p 0xffff000000206000 ||| pteUserData)
  ⟨{ mem with word := Function.update word 0xffff000000206000 42 }, 0xffff000000201000, []⟩

/-- Its pages. -/
def parentPages : List UInt64 := 0xffff000000206000 :: Lifetime.parentPages

/-- The free pages. -/
theorem parentSpace_pages : parentSpace.mem.pages = HeapPages.memory.pages.drop 6 := by
  unfold parentSpace Lifetime.parentMemory Mem.kallocPage
  dsimp only
  exact List.tail_drop ..

/-- Its pages are not free. -/
theorem parentSpace_original : Original parentSpace := by
  obtain ⟨kernel, nodup⟩ := HeapPages.memory_pages
  refine ⟨by decide, fun page uses => ?_, fun page member => ?_, ?_⟩
  · -- stated for words, so that it is decided along the list
    have closed : ∀ table ∈ parentPages,
        ∀ page ∈ (validEntries parentSpace.mem.word table).map fun entry => entryPage entry.2,
          page ∈ parentPages := by
      decide +kernel
    have apart : ∀ page ∈ parentPages, page ∉ parentSpace.mem.pages := by
      decide +kernel
    exact apart page (uses_of_closed (by decide)
      (fun table held entry member => closed table held _ (List.mem_map_of_mem member)) uses)
  · rw [parentSpace_pages] at member
    exact kernel page (List.mem_of_mem_drop member)
  · rw [parentSpace_pages]
    exact nodup.sublist (List.drop_sublist _ _)

/-- The pages that it maps. -/
theorem parentSpace_leaves : leaves parentSpace.mem.word parentSpace.pt =
    [(0, k2p 0xffff000000205000 ||| pteUserData),
      (0x1000, k2p 0xffff000000206000 ||| pteUserData)] := by
  decide +kernel

/-- The pages can be copied. -/
theorem parentSpace_copyable : AllCopyable parentSpace := by
  intro va entry found valid
  have mapped : parentSpace.frame va = some (entryPage entry) := by
    rw [frame_of_entry found, mappedPage, if_neg valid, entryPage]
  obtain ⟨leaf, member, same, -⟩ := leaf_of_frame mapped
  obtain rfl := Option.some.inj ((leaf_entry member same).1.symm.trans found)
  rw [parentSpace_leaves, List.mem_pair] at member
  rcases member with rfl | rfl <;> decide

/-- A page table of two pages is cloned. -/
theorem vm_copy_clones_parent :
    ∃ copy, vmCopy parentSpace.mem parentSpace.pt = some copy ∧ Clone parentSpace copy := by
  have clones := vm_copy_clones parentSpace_original parentSpace_copyable
  have enough : 4 * (leaves parentSpace.mem.word parentSpace.pt).length + 1 ≤
      parentSpace.mem.pages.length := by
    rw [parentSpace_leaves]
    decide +kernel
  obtain ⟨copy, ran⟩ := clones.2 enough
  exact ⟨copy, ran, clones.1 copy ran⟩

/-! ## The heap of a child -/

/-- What `fork` makes of memory, with the section of the child: `create_proc` takes a root and a
kernel stack, and the page table that `vm_copy` returns replaces that root. Both page tables have
the heap of `init_pgdir`. The parent goes on in the memory of the result. -/
def fork (s : Paging.State) : Option Paging.State :=
  (Lifetime.initProc s.pgdir.mem).bind fun (made, _) =>
    (vmCopy made.mem s.pgdir.pt).map fun pgdir => { s with pgdir, sec := Lifetime.heap }

section Fork

variable {s : Pt.State} {mem : Mem}

/-- Valid entries depend on the words of the table. -/
theorem validEntries_congr {word word' : UInt64 → UInt64} {table : UInt64}
    (same : ∀ index, index < 512 → word' (table + 8 * index) = word (table + 8 * index)) :
    validEntries word' table = validEntries word table := by
  refine congrArg (List.filter _) (List.map_congr_left fun index member => ?_)
  rw [same index (mem_entryIndices.mp member)]

/-- The pages that are copied depend on the words of the tables. -/
theorem leaves_congr (agree : ∀ page, s.Uses page → ∀ index, index < 512 →
      mem.word (page + 8 * index) = s.mem.word (page + 8 * index)) :
    leaves mem.word s.pt = leaves s.mem.word s.pt := by
  have here : s.walk [] = some s.pt := rfl
  have entries : ∀ {path : List UInt64} {table : UInt64}, path.length ≤ 3 →
      s.walk path = some table → validEntries mem.word table = validEntries s.mem.word table :=
    fun short found => validEntries_congr (agree _ (.inl ⟨_, short, found⟩))
  rw [leaves, leaves, entries (by simp) here]
  refine List.flatMap_congr fun p member => ?_
  have first := walk_entry here member
  rw [entries (by simp) first]
  refine List.flatMap_congr fun p1 member1 => ?_
  have second := walk_entry first member1
  rw [entries (by simp) second]
  refine List.flatMap_congr fun p2 member2 => ?_
  have third := walk_entry second member2
  rw [entries (by simp) third]

/-- Other memory that agrees on an address space is as good to copy it in. -/
theorem Original.inMem (original : Original s)
    (agree : ∀ page, s.Uses page → ∀ index, index < 512 →
      mem.word (page + 8 * index) = s.mem.word (page + 8 * index))
    (fewer : mem.pages.Sublist s.mem.pages) : Original (s.inMem mem) := by
  refine ⟨original.root, fun page uses free => ?_, fun page member =>
    original.kernel page (fewer.subset member), original.nodup.sublist fewer⟩
  refine original.used page ?_ (fewer.subset free)
  rcases uses with ⟨path, short, found⟩ | ⟨va, found⟩
  · exact .inl ⟨path, short, (walk_of_agree agree short).symm.trans found⟩
  · exact .inr ⟨va, (frame_of_uses agree va).symm.trans found⟩

/-- The bits of the entries are in the words of the tables. -/
theorem AllCopyable.inMem (copyable : AllCopyable s)
    (agree : ∀ page, s.Uses page → ∀ index, index < 512 →
      mem.word (page + 8 * index) = s.mem.word (page + 8 * index)) :
    AllCopyable (s.inMem mem) := fun va entry found =>
  copyable va entry ((entry_of_uses agree va).symm.trans found)

/-- `create_proc` takes two free pages and leaves the pages of the parent alone. -/
theorem Original.initProc (original : Original s) {page kstack : UInt64} {rest : List UInt64}
    (more : s.mem.pages = page :: kstack :: rest) :
    ∃ made, Lifetime.initProc s.mem = some (made, kstack) ∧ made.mem.pages = rest ∧
      Original (s.inMem made.mem) ∧ ∀ page, s.Uses page → ∀ index, index < 512 →
        made.mem.word (page + 8 * index) = s.mem.word (page + 8 * index) := by
  obtain ⟨root, made, -, -, pages, words⟩ :=
    Mapped.initPgdir (fun _ => True) more original.kernel original.nodup
  have taken : root.mem.kallocPage.1 = kstack := by simp [Mem.kallocPage, pages]
  have nonzero : kstack ≠ 0 := (original.kernel kstack (by simp [more])).ne_zero
  have pages' : root.mem.kallocPage.2.pages = rest := by simp [Mem.kallocPage, pages]
  have agree := fun page (uses : s.Uses page) =>
    words page (uses.kernel original.root) (original.used page uses)
  refine ⟨{ root with mem := root.mem.kallocPage.2 }, ?_, pages', original.inMem agree ?_, agree⟩
  · simp only [Lifetime.initProc, made, Option.bind_some, taken, nonzero, if_false]
  · rw [pages', more]
    exact (List.sublist_cons_self kstack rest).cons page

/-- Every `fork` loses the root table that `init_proc` makes: the page is neither free afterwards nor
used by the child or by others. -/
theorem fork_loses_root {s s' : Lifetime.Life} {pt root kstack : UInt64} {rest : List UInt64}
    (original : Original ⟨s.os.pgdir.mem, pt, []⟩) (others : root ∉ s.others)
    (more : s.os.pgdir.mem.pages = root :: kstack :: rest)
    (forked : s.step (.fork pt) = some s') :
    root ∉ s'.os.pgdir.mem.pages ∧ ¬ s'.os.pgdir.Uses root ∧ root ≠ s'.kstack ∧
      root ∉ s'.others := by
  obtain ⟨made, ran, rfl, original', -⟩ := original.initProc more
  simp only [Lifetime.Life.step, Option.ite_none_right_eq_some, ran, Option.bind_some,
    Option.map_eq_some_iff] at forked
  obtain ⟨-, copy, copied, rfl⟩ := forked
  have clone := original'.vmCopy copied
  have nodup := original.nodup
  rw [more, List.nodup_cons, List.mem_cons, not_or] at nodup
  exact ⟨fun free => nodup.1.2 (clone.own root (.inr free)),
    fun uses => nodup.1.2 (clone.own root (.inl uses)), nodup.1.1, others⟩

/-- `fork` of a process duplicates its heap, and the rest of its memory, exactly when its heap is
empty: the sections have the same bounds, `sbrk(0)` returns the same, and every page is read
alike. -/
theorem fork_duplicates_heap {s : Paging.State} (original : Original s.pgdir)
    (copyable : AllCopyable s.pgdir)
    (enough : 4 * (leaves s.pgdir.mem.word s.pgdir.pt).length + 3 ≤ s.pgdir.mem.pages.length) :
    (s.sec.begin = 0 ∧ s.sec.limit = 0) ↔
      ∃ child, fork s = some child ∧ child.sec.begin = s.sec.begin ∧
        child.sec.limit = s.sec.limit ∧
        (Paging.sbrk child 0).map Prod.fst = (Paging.sbrk s 0).map Prod.fst ∧
        ∀ va, child.pgdir.readPage va = s.pgdir.readPage va := by
  obtain ⟨page, kstack, rest, more⟩ : ∃ page kstack rest,
      s.pgdir.mem.pages = page :: kstack :: rest := by
    match taken : s.pgdir.mem.pages with
    | [] | [_] => simp [taken] at enough
    | page :: kstack :: rest => exact ⟨page, kstack, rest, rfl⟩
  obtain ⟨made, ran, pages, original', agree⟩ := original.initProc more
  have room : 4 * (leaves made.mem.word s.pgdir.pt).length + 1 ≤ made.mem.pages.length := by
    rw [more, List.length_cons, List.length_cons] at enough
    rw [leaves_congr agree, pages]
    omega
  obtain ⟨copy, copied⟩ := original'.vmCopy_total (copyable.inMem agree) room
  have clone := original'.vmCopy copied
  have forked : fork s = some { s with pgdir := copy, sec := Lifetime.heap } := by
    change vmCopy made.mem s.pgdir.pt = some copy at copied
    simp only [fork, ran, Option.bind_some, copied, Option.map_some]
  constructor
  · rintro ⟨begin, limit⟩
    refine ⟨_, forked, begin.symm, limit.symm, ?_, fun va =>
      (clone.reads va).trans (readPage_of_uses agree va)⟩
    change some (0 : UInt64) = some s.sec.limit
    rw [limit]
  · -- the section of the child is always that of `init_sections`
    rintro ⟨child, forked', begin, limit, -⟩
    obtain rfl := Option.some.inj (forked.symm.trans forked')
    exact ⟨begin.symm, limit.symm⟩

end Fork

/-- A process that maps two pages and has not called `sbrk`. -/
def parentProc : Paging.State := { HeapPages.emptyHeap parentSpace with sec := Lifetime.heap }

/-- It is duplicated. -/
theorem fork_duplicates_heap_parent : ∃ child, fork parentProc = some child ∧
    child.sec.limit = parentProc.sec.limit ∧
    ∀ va, child.pgdir.readPage va = parentProc.pgdir.readPage va := by
  have space : parentProc.pgdir = parentSpace := rfl
  have enough : 4 * (leaves parentProc.pgdir.mem.word parentProc.pgdir.pt).length + 3 ≤
      parentProc.pgdir.mem.pages.length := by
    rw [space, parentSpace_leaves]
    decide +kernel
  obtain ⟨child, ran, -, limit, -, same⟩ := (fork_duplicates_heap (s := parentProc)
    parentSpace_original parentSpace_copyable enough).mp ⟨rfl, rfl⟩
  exact ⟨child, ran, limit, same⟩

/-- A process that has called `sbrk(1)`, written to its heap and been swapped out. -/
def swappedProc : Option Paging.State :=
  (Lifetime.initProc HeapPages.memory).bind fun (pgdir, _) =>
    (Paging.sbrk { HeapPages.emptyHeap pgdir with sec := Lifetime.heap } 1).bind fun (_, s) =>
      (s.write 0x10 7).bind Paging.swapout

/-- The child of a process with a heap has none: `sbrk(0)` returns another end, and what was
written there is not read. -/
theorem fork_forgets_heap : ∃ parent child, swappedProc = some parent ∧
    fork parent = some child ∧ (Paging.sbrk parent 0).map Prod.fst = some 4096 ∧
    (Paging.sbrk child 0).map Prod.fst = some 0 ∧
    ((parent.setMem child.pgdir.mem).read 0x10).map Prod.fst = some 7 ∧
    (child.read 0x10).map Prod.fst ≠ some 7 := by
  have shown : (swappedProc.bind fun parent => (fork parent).map fun child =>
      (parent.sec.limit, child.sec.limit,
        ((parent.setMem child.pgdir.mem).read 0x10).map Prod.fst,
        decide ((child.read 0x10).map Prod.fst = some 7))) =
      some (4096, 0, some 7, false) := by
    decide +kernel
  obtain ⟨parent, made, ran⟩ := Option.bind_eq_some_iff.mp shown
  obtain ⟨child, forked, observed⟩ := Option.map_eq_some_iff.mp ran
  simp only [Prod.mk.injEq, decide_eq_false_iff_not] at observed
  obtain ⟨limit, limit', read, unread⟩ := observed
  exact ⟨parent, child, made, forked, congrArg some limit, congrArg some limit', read, unread⟩

end OsLab.Kernel.Vm
