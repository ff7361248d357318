import Mathlib.Data.List.Induction
import Mathlib.Data.List.Nodup

/-!
# Trees of tables

A table names further tables, one for an index. The tables of a few levels below a root form a
tree when different paths of indices lead to different tables. Adding a table that is not in use
yet at an index that names none keeps it a tree and moves nothing: every path leads to where it
led before, except for the new one.
-/
namespace OsLab.Lib.Radix

universe u v

variable {P : Type u} {I : Type v} {child child' : P → I → Option P} {root : P} {depth : Nat}

/-- The table that a path of indices leads to. -/
def walk (child : P → I → Option P) : P → List I → Option P
  | table, [] => some table
  | table, index :: rest => (child table index).bind fun next => walk child next rest

/-- A path in two parts. -/
theorem walk_append (table : P) (path rest : List I) :
    walk child table (path ++ rest) = (walk child table path).bind (walk child · rest) := by
  induction path generalizing table with
  | nil => rfl
  | cons index path ih =>
    simp only [List.cons_append, walk, Option.bind_assoc]
    exact congrArg _ (funext ih)

/-- The last step of a path. -/
theorem walk_concat (table : P) (path : List I) (index : I) :
    walk child table (path ++ [index]) = (walk child table path).bind (child · index) := by
  rw [walk_append]
  simp [walk]

/-- A path that goes further passes through a table. -/
theorem walk_of_concat {table last : P} {path : List I} {index : I}
    (found : walk child table (path ++ [index]) = some last) :
    ∃ next, walk child table path = some next ∧ child next index = some last := by
  rw [walk_concat] at found
  exact Option.bind_eq_some_iff.mp found

/-- Paths do not change as long as the tables they pass through do not. -/
theorem walk_congr (agree : ∀ path table, path.length < depth →
      walk child root path = some table → child' table = child table)
    {path : List I} (short : path.length ≤ depth) :
    walk child' root path = walk child root path := by
  induction path using List.reverseRecOn with
  | nil => rfl
  | append_singleton path index ih =>
    rw [List.length_append, List.length_singleton] at short
    rw [walk_concat, walk_concat, ih (by omega)]
    cases found : walk child root path with
    | none => rfl
    | some table => rw [Option.bind_some, Option.bind_some, agree path table (by omega) found]

/-- A tree of `depth` levels below its root, all of whose tables are in use. -/
structure Tree (child : P → I → Option P) (root : P) (depth : Nat) (used : P → Prop) :
    Prop where
  inUse : ∀ path table, path.length ≤ depth → walk child root path = some table → used table
  apart : ∀ path other table, path.length ≤ depth → other.length ≤ depth →
    walk child root path = some table → walk child root other = some table → path = other

/-- A root alone. -/
theorem Tree.alone {used : P → Prop} (empty : ∀ index, child root index = none)
    (inUse : used root) : Tree child root depth used := by
  have only : ∀ path table, walk child root path = some table → path = [] ∧ table = root := by
    intro path table found
    cases path with
    | nil => exact ⟨rfl, (Option.some.inj found).symm⟩
    | cons index rest => simp [walk, empty] at found
  refine ⟨fun path table _ found => ?_, fun path other table _ _ found found' => ?_⟩
  · rw [(only path table found).2]
    exact inUse
  · rw [(only path table found).1, (only other table found').1]

/-- `child'` names `fresh`, which names no table yet, at an index of `table`; the other entries of
the tables in use are as in `child`. -/
structure Graft (child child' : P → I → Option P) (used : P → Prop) (table : P) (index : I)
    (fresh : P) : Prop where
  here : child' table index = some fresh
  empty : ∀ index, child' fresh index = none
  other : ∀ table' index', used table' → ¬ (table' = table ∧ index' = index) →
    child' table' index' = child table' index'

section Graft

variable {used : P → Prop} {table fresh : P} {index : I} {path : List I}

/-- Where paths lead once a table was added. -/
theorem Tree.walk_graft [DecidableEq I] (tree : Tree child root depth used)
    (found : walk child root path = some table) (room : path.length < depth)
    (missing : child table index = none)
    (grafted : Graft child child' used table index fresh) {other : List I}
    (short : other.length ≤ depth) :
    walk child' root other =
      if other = path ++ [index] then some fresh else walk child root other := by
  -- By induction on the path from its end: the last step starts at the new table, at the table
  -- that got the new entry, or at one that did not change.
  induction other using List.reverseRecOn with
  | nil => simp [walk]
  | append_singleton other step ih =>
    rw [List.length_append, List.length_singleton] at short
    rw [walk_concat, walk_concat, ih (by omega)]
    by_cases beyond : other = path ++ [index]
    · have longer : other ++ [step] ≠ path ++ [index] := by
        intro same
        have lengths := congrArg List.length same
        simp [beyond] at lengths
      rw [if_pos beyond, if_neg longer, beyond, walk_concat, found, Option.bind_some,
        Option.bind_some, missing, grafted.empty]
      rfl
    · rw [if_neg beyond]
      cases reached : walk child root other with
      | none =>
        have elsewhere : other ++ [step] ≠ path ++ [index] := by
          intro same
          obtain ⟨rfl, -⟩ := List.append_inj' same rfl
          rw [found] at reached
          exact absurd reached (by simp)
        rw [if_neg elsewhere]
        rfl
      | some last =>
        have old : used last := tree.inUse other last (by omega) reached
        rw [Option.bind_some, Option.bind_some]
        by_cases here : last = table ∧ step = index
        · obtain ⟨rfl, rfl⟩ := here
          rw [tree.apart other path last (by omega) (by omega) reached found, if_pos rfl,
            grafted.here]
        · have elsewhere : other ++ [step] ≠ path ++ [index] := by
            intro same
            obtain ⟨rfl, last⟩ := List.append_inj' same rfl
            rw [found] at reached
            exact here ⟨(Option.some.inj reached).symm, (List.cons.inj last).1⟩
          rw [if_neg elsewhere, grafted.other last step old here]

/-- Adding a table keeps the tree. -/
theorem Tree.graft [DecidableEq I] (tree : Tree child root depth used)
    (found : walk child root path = some table) (room : path.length < depth)
    (missing : child table index = none) (unused : ¬ used fresh)
    (grafted : Graft child child' used table index fresh) :
    Tree child' root depth fun table => table = fresh ∨ used table := by
  have walks := fun (other : List I) (short : other.length ≤ depth) =>
    tree.walk_graft found room missing grafted short
  refine ⟨fun other last short reached => ?_, fun one other last short short' reached reached' => ?_⟩
  · rw [walks other short] at reached
    split at reached
    · exact .inl (Option.some.inj reached).symm
    · exact .inr (tree.inUse other last short reached)
  · rw [walks one short] at reached
    rw [walks other short'] at reached'
    split at reached <;> split at reached'
    case isTrue.isTrue first second => rw [first, second]
    case isTrue.isFalse =>
      rw [← Option.some.inj reached] at reached'
      exact absurd (tree.inUse other fresh short' reached') unused
    case isFalse.isTrue =>
      rw [← Option.some.inj reached'] at reached
      exact absurd (tree.inUse one fresh short reached) unused
    case isFalse.isFalse => exact tree.apart one other last short short' reached reached'

end Graft

section Postorder

variable {indices : List I} {levels : Nat} {table : P}

/-- The tables of a tree, each after those below it. -/
def postorder (child : P → I → Option P) (indices : List I) : Nat → P → List P
  | 0, table => [table]
  | levels + 1, table =>
    indices.flatMap (fun index => (child table index).elim [] (postorder child indices levels)) ++
      [table]

/-- The tables listed are those that paths lead to. -/
theorem mem_postorder (complete : ∀ table index next, child table index = some next →
      index ∈ indices) {last : P} :
    last ∈ postorder child indices levels table ↔
      ∃ path : List I, path.length ≤ levels ∧ walk child table path = some last := by
  induction levels generalizing table with
  | zero =>
    simp only [postorder, List.mem_singleton, Nat.le_zero, List.length_eq_zero_iff,
      exists_eq_left, walk, Option.some.injEq, eq_comm]
  | succ levels ih =>
    simp only [postorder, List.mem_append, List.mem_flatMap, List.mem_singleton]
    constructor
    · rintro (⟨index, -, below⟩ | rfl)
      · cases entry : child table index with
        | none => simp [entry] at below
        | some next =>
          rw [entry] at below
          obtain ⟨path, short, reached⟩ := ih.mp below
          exact ⟨index :: path, by simpa using short, by rw [walk, entry, Option.bind_some, reached]⟩
      · exact ⟨[], by simp, rfl⟩
    · rintro ⟨path, short, reached⟩
      cases path with
      | nil => exact .inr (Option.some.inj reached).symm
      | cons index rest =>
        rw [walk, Option.bind_eq_some_iff] at reached
        obtain ⟨next, entry, reached⟩ := reached
        refine .inl ⟨index, complete table index next entry, ?_⟩
        rw [entry]
        exact ih.mpr ⟨rest, by simpa using short, reached⟩

/-- No table is listed twice if different paths lead to different tables. -/
theorem nodup_postorder (nodup : indices.Nodup)
    (complete : ∀ table index next, child table index = some next → index ∈ indices)
    (apart : ∀ path other : List I, ∀ last, path.length ≤ levels → other.length ≤ levels →
      walk child table path = some last → walk child table other = some last → path = other) :
    (postorder child indices levels table).Nodup := by
  induction levels generalizing table with
  | zero => simp [postorder]
  | succ levels ih =>
    -- A path that starts with an index leads below the entry at this index.
    have below : ∀ index last, last ∈ (child table index).elim [] (postorder child indices levels) →
        ∃ path : List I, path.length ≤ levels ∧ walk child table (index :: path) = some last := by
      intro index last member
      cases entry : child table index with
      | none => simp [entry] at member
      | some next =>
        rw [entry] at member
        obtain ⟨path, short, reached⟩ := (mem_postorder complete).mp member
        exact ⟨path, short, by rw [walk, entry, Option.bind_some, reached]⟩
    rw [postorder, List.nodup_append, List.nodup_flatMap]
    refine ⟨⟨fun index _ => ?_, ?_⟩, by simp, ?_⟩
    · cases entry : child table index with
      | none => simp
      | some next =>
        refine ih fun path other last short short' reached reached' => ?_
        have same := apart (index :: path) (index :: other) last (by simpa using short)
          (by simpa using short') (by rw [walk, entry, Option.bind_some, reached])
          (by rw [walk, entry, Option.bind_some, reached'])
        exact (List.cons.inj same).2
    · refine nodup.imp fun {one other} different last member member' => ?_
      obtain ⟨path, short, reached⟩ := below one last member
      obtain ⟨path', short', reached'⟩ := below other last member'
      have same := apart _ _ last (by simpa using short) (by simpa using short') reached reached'
      exact different (List.cons.inj same).1
    · intro last member other here
      obtain ⟨index, -, member⟩ := List.mem_flatMap.mp member
      obtain rfl := List.mem_singleton.mp here
      rintro rfl
      obtain ⟨path, short, reached⟩ := below index last member
      exact absurd (apart _ [] last (by simpa using short) (by simp) reached rfl) (by simp)

/-- The list depends on the tables above the last ones only. -/
theorem postorder_congr (agree : ∀ path : List I, ∀ last, path.length < levels →
      walk child table path = some last → ∀ index ∈ indices, child' last index = child last index) :
    postorder child' indices levels table = postorder child indices levels table := by
  induction levels generalizing table with
  | zero => rfl
  | succ levels ih =>
    rw [postorder, postorder]
    refine congrArg (· ++ [table]) (List.flatMap_congr fun index member => ?_)
    rw [agree [] table (by simp) rfl index member]
    cases entry : child table index with
    | none => rfl
    | some next =>
      refine ih fun path last short reached => agree (index :: path) last (by simpa using short) ?_
      rw [walk, entry, Option.bind_some, reached]

end Postorder

end OsLab.Lib.Radix
