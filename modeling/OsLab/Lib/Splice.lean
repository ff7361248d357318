import Mathlib.Algebra.GroupWithZero.Nat
import Mathlib.Data.List.GetD
import Mathlib.Data.List.TakeDrop

/-!
# Replacing and reading parts of a list

Elements put over those of a list from a place on, which extend the list where they reach beyond its
end, and the elements read from a place on. How a run of elements is cut into pieces, for putting and
for reading, makes no difference.
-/
namespace OsLab.Lib

universe u

variable {α : Type u}

/-- Elements put over those of a list from a place on. -/
def patch (old : List α) (offset : Nat) (src : List α) : List α :=
  old.take offset ++ src ++ old.drop (offset + src.length)

/-- The elements of a list from a place on, at most `count`. -/
def slice (whole : List α) (offset count : Nat) : List α := (whole.drop offset).take count

variable {old src : List α} {offset : Nat}

theorem patch_length (inside : offset ≤ old.length) :
    (patch old offset src).length = max old.length (offset + src.length) := by
  simp only [patch, List.length_append, List.length_take, List.length_drop]
  omega

/-- The elements after a patch are the new ones in its range, and the old ones elsewhere. -/
theorem patch_getElem? (inside : offset ≤ old.length) (position : Nat) :
    (patch old offset src)[position]? =
      if offset ≤ position ∧ position < offset + src.length then src[position - offset]?
      else old[position]? := by
  have front : (old.take offset).length = offset := List.length_take_of_le inside
  simp only [patch, List.append_assoc]
  by_cases before : position < offset
  · rw [List.getElem?_append_left (by omega), List.getElem?_take_of_lt before, if_neg (by omega)]
  · rw [List.getElem?_append_right (by omega), front]
    by_cases within : position < offset + src.length
    · rw [List.getElem?_append_left (by omega), if_pos (by omega)]
    · rw [List.getElem?_append_right (by omega), List.getElem?_drop, if_neg (by omega)]
      congr 1
      omega

/-- Two patches one behind the other are one. -/
theorem patch_patch (inside : offset ≤ old.length) (more : List α) :
    patch (patch old offset src) (offset + src.length) more = patch old offset (src ++ more) := by
  have behind : offset + src.length ≤ (patch old offset src).length := by
    rw [patch_length inside]
    exact Nat.le_max_right ..
  refine List.ext_getElem? fun position => ?_
  rw [patch_getElem? behind, patch_getElem? inside, patch_getElem? inside, List.length_append]
  by_cases before : position < offset + src.length
  · rw [if_neg (by omega)]
    by_cases within : offset ≤ position
    · rw [if_pos (by omega), if_pos (by omega), List.getElem?_append_left (by omega)]
    · rw [if_neg (by omega), if_neg (by omega)]
  · by_cases within : position < offset + (src.length + more.length)
    · rw [if_pos (by omega), if_pos (by omega), List.getElem?_append_right (by omega)]
      congr 1
      omega
    · rw [if_neg (by omega), if_neg (by omega), if_neg (by omega)]

/-- What was put is read back. -/
theorem slice_patch (inside : offset ≤ old.length) :
    slice (patch old offset src) offset src.length = src := by
  have front : (old.take offset).length = offset := List.length_take_of_le inside
  rw [slice, patch, List.append_assoc, List.drop_left' front, List.take_left]

/-- A read apart from what was put. -/
theorem slice_patch_apart {start count : Nat} (inside : offset ≤ old.length)
    (apart : start + count ≤ offset ∨ offset + src.length ≤ start) :
    slice (patch old offset src) start count = slice old start count := by
  refine List.ext_getElem? fun position => ?_
  by_cases below : position < count
  · rw [slice, slice, List.getElem?_take_of_lt below, List.getElem?_take_of_lt below,
      List.getElem?_drop, List.getElem?_drop, patch_getElem? inside, if_neg (by omega)]
  · rw [slice, slice, List.getElem?_take_eq_none (by omega), List.getElem?_take_eq_none (by omega)]

/-- Reads one behind the other are one. -/
theorem slice_slice (whole : List α) (offset count more : Nat) :
    slice whole offset count ++ slice whole (offset + count) more =
      slice whole offset (count + more) := by
  rw [slice, slice, slice, List.take_add, List.drop_drop]

/-- Pieces put one behind the other. -/
def patchAll : List α → Nat → List (List α) → List α
  | old, _, [] => old
  | old, offset, piece :: rest => patchAll (patch old offset piece) (offset + piece.length) rest

/-- Pieces read one behind the other. -/
def sliceAll (whole : List α) : Nat → List Nat → List α
  | _, [] => []
  | offset, count :: rest => slice whole offset count ++ sliceAll whole (offset + count) rest

/-- How what is put is cut makes no difference. -/
theorem patchAll_eq (inside : offset ≤ old.length) (pieces : List (List α)) :
    patchAll old offset pieces = patch old offset pieces.flatten := by
  induction pieces generalizing old offset with
  | nil => simp [patchAll, patch]
  | cons piece rest ih =>
    have behind : offset + piece.length ≤ (patch old offset piece).length := by
      rw [patch_length inside]
      exact Nat.le_max_right ..
    rw [patchAll, ih behind, patch_patch inside, List.flatten_cons]

/-- How what is read is cut makes no difference. -/
theorem sliceAll_eq (whole : List α) (offset : Nat) (counts : List Nat) :
    sliceAll whole offset counts = slice whole offset counts.sum := by
  induction counts generalizing offset with
  | nil => simp [sliceAll, slice]
  | cons count rest ih => rw [sliceAll, ih, slice_slice, List.sum_cons]

/-- What is put in pieces is read back in any pieces. -/
theorem sliceAll_patchAll (inside : offset ≤ old.length) (pieces : List (List α))
    {counts : List Nat} (total : counts.sum = pieces.flatten.length) :
    sliceAll (patchAll old offset pieces) offset counts = pieces.flatten := by
  rw [sliceAll_eq, patchAll_eq inside, total, slice_patch inside]

end OsLab.Lib
