import OsLab.Lib.Splice
import Mathlib.Logic.Function.Basic

/-!
# A map in a list of slots

A list of slots, each free or with a value under a name. A name is looked up from the front; a value
is put into the first slot that is free, or behind the last. As long as no value is put under a name
that is there, no name is there twice, and the list is a finite map.
-/
namespace OsLab.Lib

universe u v

/-- Slots with values under names. -/
abbrev Slots (ν : Type u) (β : Type v) : Type (max u v) := List (Option (ν × β))

namespace Slots

variable {ν : Type u} {β : Type v}

/-- The first slot that is free, or the one behind the last. -/
def firstFree : Slots ν β → Nat
  | [] => 0
  | none :: _ => 0
  | some _ :: rest => firstFree rest + 1

/-- No name is there twice. -/
def Distinct (slots : Slots ν β) : Prop :=
  ∀ ⦃i j : Nat⦄ ⦃name : ν⦄ ⦃value value' : β⦄, slots[i]? = some (some (name, value)) →
    slots[j]? = some (some (name, value')) → i = j

variable {slots : Slots ν β} {name : ν} {value : β} {index : Nat}

theorem firstFree_le (slots : Slots ν β) : slots.firstFree ≤ slots.length := by
  induction slots with
  | nil => exact Nat.le_refl _
  | cons slot rest ih =>
    cases slot with
    | none => exact Nat.zero_le _
    | some pair => exact Nat.succ_le_succ ih

/-- The slots before the first free one are not free. -/
theorem used_of_lt_firstFree (before : index < slots.firstFree) :
    ∃ pair, slots[index]? = some (some pair) := by
  induction slots generalizing index with
  | nil => exact absurd before (Nat.not_lt_zero _)
  | cons slot rest ih =>
    cases slot with
    | none => exact absurd before (Nat.not_lt_zero _)
    | some pair =>
      cases index with
      | zero => exact ⟨pair, rfl⟩
      | succ index => exact ih (Nat.lt_of_succ_lt_succ before)

/-- The first free slot has no value. -/
theorem firstFree_free (pair : ν × β) : slots[slots.firstFree]? ≠ some (some pair) := by
  induction slots with
  | nil => exact nofun
  | cons slot rest ih =>
    cases slot with
    | none => exact nofun
    | some _ => exact ih

/-- The slots before an index are used, and it is free, or behind the last. -/
def LowestFree (slots : Slots ν β) (index : Nat) : Prop :=
  (∀ before, before < index → ∃ pair, slots[before]? = some (some pair)) ∧
    (slots[index]? = some none ∨ index = slots.length)

theorem firstFree_lowest (slots : Slots ν β) : slots.LowestFree slots.firstFree := by
  refine ⟨fun before below => used_of_lt_firstFree below, ?_⟩
  obtain below | last := Nat.lt_or_eq_of_le slots.firstFree_le
  · left
    rw [List.getElem?_eq_getElem below]
    cases free : slots[slots.firstFree] with
    | none => rfl
    | some pair =>
      have used := (List.getElem?_eq_getElem below).trans (congrArg some free)
      exact absurd used (firstFree_free pair)
  · exact .inr last

/-- One slot is another. -/
theorem getElem?_patch_one (slot : Option (ν × β)) (inside : index ≤ slots.length) (other : Nat) :
    (patch slots index [slot])[other]? = if other = index then some slot else slots[other]? := by
  rw [patch_getElem? inside]
  split
  · rename_i here
    simp only [List.length_singleton] at here
    obtain rfl : other = index := by omega
    rw [if_pos rfl, Nat.sub_self]
    rfl
  · rename_i away
    simp only [List.length_singleton] at away
    rw [if_neg (by omega)]

/-- A slot is made free. -/
theorem Distinct.free (distinct : slots.Distinct) (inside : index ≤ slots.length) :
    Distinct (patch slots index [none]) := by
  intro i j name value₁ value₂ one two
  rw [getElem?_patch_one _ inside] at one two
  split at one
  · exact nomatch Option.some.inj one
  · split at two
    · exact nomatch Option.some.inj two
    · exact distinct one two

variable [DecidableEq ν]

/-- The value under a name and the index of its slot. -/
def find (name : ν) : Slots ν β → Option (β × Nat)
  | [] => none
  | some (other, value) :: rest =>
    if other = name then some (value, 0) else (find name rest).map fun found => (found.1, found.2 + 1)
  | none :: rest => (find name rest).map fun found => (found.1, found.2 + 1)

/-- The map. -/
def toMap (slots : Slots ν β) (name : ν) : Option β := (slots.find name).map Prod.fst

@[simp] theorem find_cons_self (name : ν) (value : β) (rest : Slots ν β) :
    find name (some (name, value) :: rest) = some (value, 0) := if_pos rfl

/-- A slot without the name is passed. -/
theorem find_cons_ne {slot : Option (ν × β)} {rest : Slots ν β}
    (differ : ∀ value, slot ≠ some (name, value)) :
    find name (slot :: rest) = (find name rest).map fun found => (found.1, found.2 + 1) := by
  cases slot with
  | none => rfl
  | some pair =>
    obtain ⟨other, value⟩ := pair
    refine if_neg ?_
    rintro rfl
    exact differ value rfl

/-- What is found is there. -/
theorem getElem?_of_find (found : slots.find name = some (value, index)) :
    slots[index]? = some (some (name, value)) := by
  induction slots generalizing value index with
  | nil => contradiction
  | cons slot rest ih =>
    have later : ∀ {result}, (find name rest).map (fun found => (found.1, found.2 + 1)) =
        some result → (slot :: rest)[result.2]? = some (some (name, result.1)) := by
      intro result same
      obtain ⟨found, earlier, rfl⟩ := Option.map_eq_some_iff.mp same
      exact ih earlier
    cases slot with
    | none => exact later found
    | some pair =>
      obtain ⟨other, here⟩ := pair
      rw [find] at found
      split at found
      · rename_i same
        obtain ⟨rfl, rfl⟩ := Prod.mk.inj (Option.some.inj found)
        rw [same]
        rfl
      · exact later found

/-- What is there is found. -/
theorem find_ne_none (there : slots[index]? = some (some (name, value))) :
    slots.find name ≠ none := by
  induction slots generalizing index with
  | nil => contradiction
  | cons slot rest ih =>
    cases index with
    | zero =>
      obtain rfl := Option.some.inj there
      simp [find]
    | succ index =>
      have later := ih there
      cases slot with
      | none => simpa [find] using later
      | some pair =>
        rw [find]
        split
        · exact nofun
        · simpa using later

theorem find_eq_some (distinct : slots.Distinct)
    (there : slots[index]? = some (some (name, value))) : slots.find name = some (value, index) := by
  cases found : slots.find name with
  | none => exact absurd found (find_ne_none there)
  | some result =>
    obtain ⟨value', index'⟩ := result
    have also := getElem?_of_find found
    obtain rfl := distinct there also
    rw [there] at also
    obtain ⟨-, rfl⟩ := Prod.mk.inj (Option.some.inj (Option.some.inj also))
    rfl

/-- A name that is not there is put into a slot without a value. -/
theorem Distinct.put (distinct : slots.Distinct) (inside : index ≤ slots.length)
    (absent : slots.find name = none) : Distinct (patch slots index [some (name, value)]) := by
  intro i j name' value₁ value₂ one two
  rw [getElem?_patch_one _ inside] at one two
  split at one <;> split at two
  · rename_i here also
    rw [here, also]
  · obtain ⟨rfl, -⟩ := Prod.mk.inj (Option.some.inj (Option.some.inj one))
    exact absurd absent (find_ne_none two)
  · obtain ⟨rfl, -⟩ := Prod.mk.inj (Option.some.inj (Option.some.inj two))
    exact absurd absent (find_ne_none one)
  · exact distinct one two

theorem toMap_eq_some (distinct : slots.Distinct) :
    slots.toMap name = some value ↔ ∃ index : Nat, slots[index]? = some (some (name, value)) := by
  constructor
  · intro mapped
    obtain ⟨⟨value, index⟩, found, rfl⟩ := Option.map_eq_some_iff.mp mapped
    exact ⟨index, getElem?_of_find found⟩
  · rintro ⟨index, there⟩
    rw [toMap, find_eq_some distinct there, Option.map_some]

/-- The map after a value was put into a slot without one. -/
theorem toMap_put (distinct : slots.Distinct) (inside : index ≤ slots.length)
    (free : ∀ pair, slots[index]? ≠ some (some pair)) (absent : slots.find name = none) :
    toMap (patch slots index [some (name, value)]) =
      Function.update slots.toMap name (some value) := by
  funext other
  refine Option.ext fun found => ?_
  rw [toMap_eq_some (distinct.put inside absent), Function.update_apply]
  simp only [getElem?_patch_one _ inside]
  constructor
  · rintro ⟨i, there⟩
    split at there
    · obtain ⟨rfl, rfl⟩ := Prod.mk.inj (Option.some.inj (Option.some.inj there))
      rw [if_pos rfl]
    · rw [if_neg, toMap_eq_some distinct]
      · exact ⟨i, there⟩
      · rintro rfl
        exact find_ne_none there absent
  · intro mapped
    split at mapped
    · rename_i same
      obtain rfl := Option.some.inj mapped
      exact ⟨index, by rw [if_pos rfl, same]⟩
    · obtain ⟨i, there⟩ := (toMap_eq_some distinct).mp mapped
      exact ⟨i, by rw [if_neg fun here => free _ (here ▸ there)]; exact there⟩

/-- The map after a slot was made free. -/
theorem toMap_free (distinct : slots.Distinct)
    (there : slots[index]? = some (some (name, value))) :
    toMap (patch slots index [none]) = Function.update slots.toMap name none := by
  have inside : index ≤ slots.length := Nat.le_of_lt (List.getElem?_eq_some_iff.mp there).1
  funext other
  refine Option.ext fun found => ?_
  rw [toMap_eq_some (distinct.free inside), Function.update_apply]
  simp only [getElem?_patch_one _ inside]
  constructor
  · rintro ⟨i, here⟩
    split at here
    · exact nomatch Option.some.inj here
    · rename_i away
      rw [if_neg, toMap_eq_some distinct]
      · exact ⟨i, here⟩
      · rintro rfl
        exact away (distinct here there)
  · intro mapped
    split at mapped
    · contradiction
    · rename_i differ
      obtain ⟨i, here⟩ := (toMap_eq_some distinct).mp mapped
      refine ⟨i, ?_⟩
      rw [if_neg, here]
      rintro rfl
      rw [there] at here
      exact differ (Prod.mk.inj (Option.some.inj (Option.some.inj here))).1.symm

end Slots

end OsLab.Lib
