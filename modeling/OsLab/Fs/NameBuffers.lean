import OsLab.Fs.DirectoryMap
import Mathlib.Data.List.TakeWhile

/-!
# The arrays that hold names

`skipelem` writes the next component of a path into an array of `FILE_NAME_MAX_LENGTH` bytes, and
`memcmp2` compares it with the name of a directory entry, an array of the same size. Reading past an
array has no result here. A component that fills the array leaves no room for the zero, and `strlen`
reads past it; the names end in their arrays exactly where the components that the walk comes to are
shorter.
-/
namespace OsLab.Fs

open OsLab.Lib OsLab.Fs.FsState OsLab.Fs.DirectoryMap

/-- `strlen` of a string in an array. -/
def strlen : List UInt8 → Option Nat
  | [] => none
  | byte :: array => if byte = 0 then some 0 else (strlen array).map (· + 1)

/-- `memcmp` of two arrays. -/
def memcmp : List UInt8 → List UInt8 → Nat → Option Int
  | _, _, 0 => some 0
  | c1 :: s1, c2 :: s2, n + 1 => if c1 ≠ c2 then some (c1.toNat - c2.toNat) else memcmp s1 s2 n
  | _, _, _ => none

/-- `memcmp2`. -/
def memcmp2 (s1 s2 : List UInt8) : Option Int := do
  memcmp s1 s2 (max (← strlen s1) (← strlen s2))

/-- `skipelem`, with the array it writes to: the rest of the path, and the array. -/
def skipelemInto (path name : List UInt8) : Option (List UInt8 × List UInt8) :=
  match path.dropWhile (· = 47) with
  | [] => none
  | byte :: rest =>
    let s := (byte :: rest).takeWhile (· ≠ 47)
    some (((byte :: rest).dropWhile (· ≠ 47)).dropWhile (· = 47),
      if fileNameMaxLength ≤ s.length then overlay (s.take fileNameMaxLength) name
      else overlay (s ++ [0]) name)

/-- What the array holds each time `skipelem` returns in the loop of `namex`, for as long as the walk
goes on. -/
def namexNames : (rounds : Nat) → (path name : List UInt8) → List (List UInt8)
  | 0, _, _ => []
  | rounds + 1, path, name =>
    match skipelemInto path name with
    | none => []
    | some (path, name) => name :: namexNames rounds path name

/-- `now.name`. -/
def DirEntry.array (now : List UInt8) : List UInt8 := (now.drop 2).take fileNameMaxLength

/-- The string in an array, and what is behind it where it does not end there. -/
def stringAt (past array : List UInt8) : List UInt8 :=
  let text := array.takeWhile (· ≠ 0)
  if text.length = array.length then text ++ past else text

/-- The components of a path: the runs of bytes between slashes. -/
def components (path : List UInt8) : List (List UInt8) :=
  (path.splitOn 47).filter fun component => !component.isEmpty

section Components

variable {path rest : List UInt8} {byte : UInt8}

theorem components_slash (path : List UInt8) : components (47 :: path) = components path := by
  simp [components, List.splitOn, List.splitOnP_cons_eq_if_modifyHead]

theorem components_dropWhile (path : List UInt8) :
    components (path.dropWhile (· = 47)) = components path := by
  induction path with
  | nil => rfl
  | cons byte path ih =>
    by_cases slash : byte = 47
    · rw [List.dropWhile_cons_of_pos (by simpa using slash), ih, slash, components_slash]
    · rw [List.dropWhile_cons_of_neg (by simpa using slash)]

/-- A path that starts with a component. -/
theorem components_cons (plain : byte ≠ 47) : components (byte :: rest) =
    (byte :: rest).takeWhile (· ≠ 47) :: components ((byte :: rest).dropWhile (· ≠ 47)) := by
  have nonempty : (byte :: rest).takeWhile (· ≠ 47) ≠ [] := by
    rw [List.takeWhile_cons_of_pos (by simpa using plain)]
    simp
  have word : ∀ other ∈ (byte :: rest).takeWhile (· ≠ 47), (other == 47) = false := by
    intro other member
    simpa using List.mem_takeWhile_imp member
  have whole := List.takeWhile_append_dropWhile (p := (· ≠ 47)) (l := byte :: rest)
  have first := List.head?_dropWhile_not (· ≠ 47) (byte :: rest)
  generalize (byte :: rest).takeWhile (· ≠ 47) = word, (byte :: rest).dropWhile (· ≠ 47) = after at *
  rw [← whole]
  cases after with
  | nil =>
    rw [List.append_nil, components, List.splitOn, List.splitOnP_eq_singleton word]
    simp [nonempty, components]
  | cons slash after =>
    obtain rfl : slash = 47 := by simpa using first
    rw [components, List.splitOn, List.splitOnP_append_cons_of_forall_mem word _ (by simp),
      components_slash]
    simp [nonempty, components, List.splitOn]

/-- Only a path of slashes has no component. -/
theorem isEmpty_components (path : List UInt8) :
    (components path).isEmpty = (path.dropWhile (· = 47)).isEmpty := by
  rw [← components_dropWhile]
  have first := List.head?_dropWhile_not (· = 47) path
  cases tail : path.dropWhile (· = 47) with
  | nil => rfl
  | cons byte rest =>
    rw [tail] at first
    rw [components_cons (by simpa using first)]
    rfl

end Components

section Strings

variable {array other name path : List UInt8}

theorem strlen_eq (terminated : 0 ∈ array) :
    strlen array = some (array.takeWhile (· ≠ 0)).length := by
  induction array with
  | nil => contradiction
  | cons byte array ih =>
    rw [strlen]
    by_cases zero : byte = 0
    · simp [zero]
    · have more := (List.mem_cons.mp terminated).resolve_left fun same => zero same.symm
      rw [if_neg zero, ih more]
      simp [zero]

/-- A string that does not end in its array fills it. -/
theorem takeWhile_of_open (open_ : 0 ∉ array) : array.takeWhile (· ≠ 0) = array :=
  List.takeWhile_eq_self_iff.mpr fun byte there => by
    simpa using fun zero : byte = 0 => open_ (zero ▸ there)

/-- A string ends in its array if it is shorter. -/
theorem length_takeWhile_lt : (array.takeWhile (· ≠ 0)).length < array.length ↔ 0 ∈ array := by
  constructor
  · intro short
    by_contra open_
    rw [takeWhile_of_open open_] at short
    exact Nat.lt_irrefl _ short
  · intro ends
    refine Nat.lt_of_le_of_ne (List.takeWhile_sublist _).length_le fun same => ?_
    have whole := (List.takeWhile_sublist _).eq_of_length same
    have nonzero := List.takeWhile_eq_self_iff.mp whole 0 ends
    simp at nonzero

/-- Bytes that differ have another order than those that do not. -/
theorem order_ne {c1 c2 : UInt8} (differ : c1 ≠ c2) : (c1.toNat : Int) - c2.toNat ≠ 0 := fun zero =>
  differ (UInt8.toNat_inj.mp (by omega))

/-- `memcmp`, up to the longer of two strings that end in their arrays, reads past neither, and says
whether the strings are the same. -/
theorem memcmp_strings (ends : 0 ∈ array) (ends' : 0 ∈ other) :
    ∃ order, memcmp array other (max (array.takeWhile (· ≠ 0)).length
        (other.takeWhile (· ≠ 0)).length) = some order ∧
      (order = 0 ↔ array.takeWhile (· ≠ 0) = other.takeWhile (· ≠ 0)) := by
  induction array generalizing other with
  | nil => contradiction
  | cons c1 s1 ih =>
    cases other with
    | nil => contradiction
    | cons c2 s2 =>
      by_cases same : c1 = c2
      · subst same
        by_cases zero : c1 = 0
        · exact ⟨0, by simp [zero, memcmp], by simp [zero]⟩
        · have away : (0 : UInt8) ≠ c1 := fun same => zero same.symm
          obtain ⟨order, compared, equal⟩ := ih ((List.mem_cons.mp ends).resolve_left away)
            ((List.mem_cons.mp ends').resolve_left away)
          refine ⟨order, ?_, ?_⟩
          · simp only [List.takeWhile_cons, ne_eq, zero, not_false_eq_true, decide_true, if_true,
              List.length_cons, Nat.succ_max_succ, memcmp, not_true_eq_false, if_false]
            exact compared
          · simpa [zero] using equal
      · refine ⟨c1.toNat - c2.toNat, ?_, ?_⟩
        · obtain ⟨n, longer⟩ : ∃ n, max ((c1 :: s1).takeWhile (· ≠ 0)).length
              ((c2 :: s2).takeWhile (· ≠ 0)).length = n + 1 := by
            refine Nat.exists_eq_succ_of_ne_zero fun none => same ?_
            have zero1 : c1 = 0 := by
              by_contra nonzero
              simp [nonzero] at none
            have zero2 : c2 = 0 := by
              by_contra nonzero
              simp [nonzero] at none
            rw [zero1, zero2]
          rw [longer, memcmp, if_pos same]
        · refine ⟨fun zero => absurd zero (order_ne same), fun equal => absurd ?_ same⟩
          by_cases zero1 : c1 = 0 <;> by_cases zero2 : c2 = 0 <;> simp_all

/-- `memcmp2` of strings that end in their arrays. -/
theorem memcmp2_strings (ends : 0 ∈ array) (ends' : 0 ∈ other) :
    ∃ order, memcmp2 array other = some order ∧
      (order = 0 ↔ array.takeWhile (· ≠ 0) = other.takeWhile (· ≠ 0)) := by
  rw [memcmp2, strlen_eq ends, strlen_eq ends']
  exact memcmp_strings ends ends'

/-- A component that fills the array. -/
theorem overlay_full {s : List UInt8} (plain : ∀ byte ∈ s, byte ≠ 0)
    (sized : name.length = fileNameMaxLength) (long : fileNameMaxLength ≤ s.length) :
    overlay (s.take fileNameMaxLength) name = s.take fileNameMaxLength ∧
      (s.take fileNameMaxLength).length = fileNameMaxLength ∧ 0 ∉ s.take fileNameMaxLength := by
  have width : (s.take fileNameMaxLength).length = fileNameMaxLength := List.length_take_of_le long
  refine ⟨?_, width, fun zero => plain 0 (List.mem_of_mem_take zero) rfl⟩
  rw [overlay, width, List.drop_eq_nil_of_le (Nat.le_of_eq sized), List.append_nil]

/-- A component that leaves room for the zero. -/
theorem overlay_string {s : List UInt8} (plain : ∀ byte ∈ s, byte ≠ 0)
    (sized : name.length = fileNameMaxLength) (short : s.length < fileNameMaxLength) :
    0 ∈ overlay (s ++ [0]) name ∧ (overlay (s ++ [0]) name).length = fileNameMaxLength ∧
      (overlay (s ++ [0]) name).takeWhile (· ≠ 0) = s := by
  refine ⟨by simp [overlay], ?_, ?_⟩
  · simp only [overlay, List.length_append, List.length_drop, List.length_singleton, sized]
    omega
  · rw [overlay, List.append_assoc, List.takeWhile_append_of_pos fun byte member =>
      by simpa using plain byte member]
    simp

/-- The string that `skipelem` leaves in the array is the name of the model. -/
theorem skipelem_eq (stack : Stack) (nonzero : ∀ byte ∈ path, byte ≠ 0)
    (sized : name.length = fileNameMaxLength) : skipelem stack path =
      (skipelemInto path name).map fun found => (found.1, stringAt stack.pastName found.2) := by
  rw [skipelem, skipelemInto]
  have inside := List.dropWhile_sublist (l := path) (· = 47)
  cases tail : path.dropWhile (· = 47) with
  | nil => rfl
  | cons byte rest =>
    rw [tail] at inside
    have plain : ∀ other ∈ (byte :: rest).takeWhile (· ≠ 47), other ≠ 0 := fun other member =>
      nonzero other (inside.subset ((List.takeWhile_sublist _).subset member))
    simp only [Option.map_some, Option.some.injEq, Prod.mk.injEq, true_and]
    generalize (byte :: rest).takeWhile (· ≠ 47) = s at plain ⊢
    split
    · rename_i long
      obtain ⟨whole, -, open_⟩ := overlay_full plain sized long
      rw [whole, stringAt, takeWhile_of_open open_, if_pos rfl]
    · rename_i short
      obtain ⟨-, width, text⟩ := overlay_string plain sized (Nat.not_le.mp short)
      rw [stringAt, text, width, if_neg fun full => short (Nat.le_of_eq full.symm)]

theorem skipelemInto_none (bare : components path = []) : skipelemInto path name = none := by
  have empty := isEmpty_components path
  rw [bare] at empty
  rw [skipelemInto, List.isEmpty_iff.mp empty.symm]

/-- `skipelem` takes the first component, and the array has a zero if that one is short. -/
theorem skipelemInto_some {component : List UInt8} {others : List (List UInt8)}
    (nonzero : ∀ byte ∈ path, byte ≠ 0) (sized : name.length = fileNameMaxLength)
    (parts : components path = component :: others) :
    ∃ rest array, skipelemInto path name = some (rest, array) ∧ components rest = others ∧
      rest ⊆ path ∧ array.length = fileNameMaxLength ∧
      (component.length < fileNameMaxLength ↔ 0 ∈ array) := by
  have inside := (List.dropWhile_sublist (l := path) (· = 47)).subset
  have first := List.head?_dropWhile_not (· = 47) path
  rw [← components_dropWhile] at parts
  rw [skipelemInto]
  cases tail : path.dropWhile (· = 47) with
  | nil =>
    rw [tail] at parts
    contradiction
  | cons byte after =>
    rw [tail] at parts first inside
    rw [components_cons (by simpa using first)] at parts
    obtain ⟨rfl, rfl⟩ := List.cons.inj parts
    have plain : ∀ other ∈ (byte :: after).takeWhile (· ≠ 47), other ≠ 0 := fun other member =>
      nonzero other (inside ((List.takeWhile_sublist _).subset member))
    refine ⟨_, _, rfl, components_dropWhile _, fun other member => inside
      ((List.dropWhile_sublist _).subset ((List.dropWhile_sublist _).subset member)), ?_⟩
    generalize (byte :: after).takeWhile (· ≠ 47) = s at plain ⊢
    split
    · rename_i long
      obtain ⟨whole, width, open_⟩ := overlay_full plain sized long
      rw [whole]
      exact ⟨width, iff_of_false (Nat.not_lt.mpr long) open_⟩
    · rename_i short
      obtain ⟨ends, width, -⟩ := overlay_string plain sized (Nat.not_le.mp short)
      exact ⟨width, iff_of_true (Nat.not_le.mp short) ends⟩

/-- The arrays have a zero exactly where the components that the walk comes to are short. -/
theorem namexNames_terminated {rounds : Nat} (nonzero : ∀ byte ∈ path, byte ≠ 0)
    (sized : name.length = fileNameMaxLength) :
    (∀ component ∈ (components path).take rounds, component.length < fileNameMaxLength) ↔
      ∀ array ∈ namexNames rounds path name, 0 ∈ array := by
  induction rounds generalizing path name with
  | zero => simp [namexNames]
  | succ rounds ih =>
    rw [namexNames]
    cases parts : components path with
    | nil => simp [skipelemInto_none parts]
    | cons component others =>
      obtain ⟨rest, array, taken, rfl, part, width, ends⟩ := skipelemInto_some nonzero sized parts
      simp only [taken, List.take_succ_cons, List.forall_mem_cons, ends,
        ih (fun byte there => nonzero byte (part there)) width]

end Strings

/-- Names end in their arrays. For any number of components that a walk of `namex` comes to, and a
directory that has held names of at most 13 bytes only: the array that `skipelem` writes to has a zero
each time it returns exactly if these components have at most 13 bytes. The name of every entry in use
has one; comparing the two with `memcmp2` reads past neither, and says whether the model's strings
are the same. -/
theorem names_terminated (sblock : SuperBlock) (layout : sblock.Layout) (inode : Nat) (p : Paired)
    (reached : (machine sblock inode).Reach (Allowed sblock inode) p) (rounds : Nat)
    (path name : List UInt8) (nonzero : ∀ byte ∈ path, byte ≠ 0)
    (sized : name.length = fileNameMaxLength) :
    (∀ component ∈ (components path).take rounds, component.length < fileNameMaxLength) ↔
    ∀ array ∈ namexNames rounds path name, 0 ∈ array ∧
      ∀ i < (content sblock inode p.fs).length / dirEntryBytes,
        let now := slice (content sblock inode p.fs) (dirEntryBytes * i) dirEntryBytes
        DirEntry.inodeNo now ≠ 0 → 0 ∈ DirEntry.array now ∧
          ∃ order, memcmp2 array (DirEntry.array now) = some order ∧
            ∀ stack, order = 0 ↔ stringAt stack.pastName array = DirEntry.name stack now := by
  rw [namexNames_terminated nonzero sized]
  refine forall₂_congr fun array member => ⟨fun ends => ⟨ends, ?_⟩, fun both => both.1⟩
  intro i inside now used
  obtain ⟨fields, dir⟩ := (Holds.reach layout reached).dir
  have stored : some (DirEntry.text now, DirEntry.inodeNo now) ∈ DirEntry.slots
      (p.fs.store.content sblock fields.inodeNo) := by
    rw [content_eq dir.loaded] at inside
    refine List.mem_of_getElem? ((DirEntry.slots_getElem? inside).trans ?_)
    simp only [now, content_eq dir.loaded, DirEntry.slot] at used ⊢
    rw [if_neg used]
  have brief := dir.terminated _ _ stored
  have arrayWidth : (DirEntry.array now).length = fileNameMaxLength := by
    have whole := DirEntry.entry_length inside
    rw [DirEntry.array, List.length_take, List.length_drop, whole]
    decide
  have ends' : 0 ∈ DirEntry.array now := length_takeWhile_lt.mp (by rw [arrayWidth]; exact brief)
  obtain ⟨order, compared, same⟩ := memcmp2_strings ends ends'
  refine ⟨ends', order, compared, fun stack => ?_⟩
  rw [DirEntry.name_eq_text stack brief, stringAt,
    if_neg (Nat.ne_of_lt (length_takeWhile_lt.mpr ends)), same]
  rfl

/-- A component of 13 bytes, and a directory with one name. -/
theorem names_terminated_thirteen :
    ∃ p, (machine (tinyDisk 25) 0).Reach (Allowed (tinyDisk 25) 0) p ∧
    ∀ array ∈ namexNames 14 (List.replicate 13 97) (List.replicate 14 1), 0 ∈ array ∧
      0 ∈ DirEntry.array (slice (content (tinyDisk 25) 0 p.fs) 0 dirEntryBytes) := by
  have shown : ((machine (tinyDisk 25) 0).exec (Allowed (tinyDisk 25) 0) (emptyDir 25)
      [(.insert .op [97] 5, zeros)]).map (fun p => ((content (tinyDisk 25) 0 p.fs).length,
        DirEntry.inodeNo (slice (content (tinyDisk 25) 0 p.fs) 0 dirEntryBytes))) =
      some (16, 5) := by decide +kernel
  obtain ⟨p, reached, same⟩ := Machine.Reach.exec_map (emptyDir_holds (Nat.le_refl _)) shown
  obtain ⟨length, number⟩ := Prod.mk.inj same
  refine ⟨p, reached, fun array member => ?_⟩
  obtain ⟨ends, entries⟩ := (names_terminated (tinyDisk 25) (tinyDisk_layout (Nat.le_refl _)) 0 p
    reached 14 (List.replicate 13 97) (List.replicate 14 1) (by decide +kernel) (by decide)).mp
    (by decide +kernel) array member
  refine ⟨ends, (entries 0 (by rw [length]; decide) ?_).1⟩
  rw [Nat.mul_zero, number]
  decide

/-- A component of 14 bytes leaves no zero in the array: `strlen` reads past it, and so does
`memcmp2`. -/
theorem fourteen_unterminated :
    namexNames 15 (List.replicate 14 97) (List.replicate 14 0) = [List.replicate 14 97] ∧
    (0 : UInt8) ∉ List.replicate 14 97 ∧ strlen (List.replicate 14 97) = none ∧
    memcmp2 (List.replicate 14 97) (DirEntry.array (DirEntry.pack 2 (DirEntry.strncpy [97]))) =
      none := by
  decide +kernel

end OsLab.Fs
