import Mathlib.Logic.Function.Basic

/-!
# Things with one owner

Things that are taken are owned by one owner each, and an owner has at most one of them. An owner
that has none may take what is not taken, and may give back what it has.
-/
namespace OsLab.Lib

variable {ι β : Type*}

/-- `own` says what each owner has: no two have the same, and what is had is what is taken. -/
structure Exact (taken : β → Prop) (own : ι → Option β) : Prop where
  alone : ∀ {i j : ι} {b : β}, own i = some b → own j = some b → i = j
  taken_iff : ∀ b, taken b ↔ ∃ i, own i = some b

namespace Exact

variable {taken taken' : β → Prop} {own own' : ι → Option β}

/-- Only who has what counts. -/
theorem congr (exact : Exact taken own) (same : ∀ b, taken' b ↔ taken b)
    (owned : ∀ i, own' i = own i) : Exact taken' own' := by
  obtain rfl : own' = own := funext owned
  exact ⟨exact.alone, fun b => (same b).trans (exact.taken_iff b)⟩

variable [DecidableEq ι]

/-- An owner that has nothing takes what is not taken. -/
theorem take (exact : Exact taken own) {i : ι} {b : β} (bare : own i = none) (free : ¬ taken b) :
    Exact (fun c => c = b ∨ taken c) (Function.update own i (some b)) := by
  have fresh : ∀ j, own j ≠ some b := fun j has => free ((exact.taken_iff b).mpr ⟨j, has⟩)
  refine ⟨fun {one other c} left right => ?_, fun c => ⟨?_, ?_⟩⟩
  · by_cases isOne : one = i
    · by_cases isOther : other = i
      · rw [isOne, isOther]
      · rw [isOne, Function.update_self] at left
        rw [Function.update_of_ne isOther, ← left] at right
        exact absurd right (fresh other)
    · rw [Function.update_of_ne isOne] at left
      by_cases isOther : other = i
      · rw [isOther, Function.update_self] at right
        rw [← right] at left
        exact absurd left (fresh one)
      · rw [Function.update_of_ne isOther] at right
        exact exact.alone left right
  · rintro (rfl | before)
    · exact ⟨i, Function.update_self ..⟩
    · obtain ⟨j, has⟩ := (exact.taken_iff c).mp before
      have different : j ≠ i := by
        rintro rfl
        rw [bare] at has
        contradiction
      exact ⟨j, by rw [Function.update_of_ne different, has]⟩
  · rintro ⟨j, has⟩
    by_cases isTaker : j = i
    · rw [isTaker, Function.update_self] at has
      exact .inl (Option.some.inj has).symm
    · rw [Function.update_of_ne isTaker] at has
      exact .inr ((exact.taken_iff c).mpr ⟨j, has⟩)

omit [DecidableEq ι] in
/-- Some owners give back all they have. -/
theorem releaseAll (exact : Exact taken own) (gone : ι → Prop) [DecidablePred gone] :
    Exact (fun c => taken c ∧ ∀ i, gone i → own i ≠ some c)
      (fun i => if gone i then none else own i) := by
  have others : ∀ {j c}, (if gone j then none else own j) = some c → ¬ gone j ∧ own j = some c := by
    intro j c has
    by_cases leaves : gone j
    · rw [if_pos leaves] at has
      contradiction
    · rw [if_neg leaves] at has
      exact ⟨leaves, has⟩
  refine ⟨fun left right => exact.alone (others left).2 (others right).2, fun c => ⟨?_, ?_⟩⟩
  · rintro ⟨before, nobody⟩
    obtain ⟨j, has⟩ := (exact.taken_iff c).mp before
    exact ⟨j, by rw [if_neg fun leaves => nobody j leaves has, has]⟩
  · rintro ⟨j, has⟩
    obtain ⟨stays, had⟩ := others has
    refine ⟨(exact.taken_iff c).mpr ⟨j, had⟩, fun i leaves owned => ?_⟩
    exact stays (exact.alone owned had ▸ leaves)

/-- An owner gives back what it has. -/
theorem release (exact : Exact taken own) {i : ι} {b : β} (owned : own i = some b) :
    Exact (fun c => c ≠ b ∧ taken c) (Function.update own i none) := by
  have others : ∀ {j c}, Function.update own i none j = some c → j ≠ i ∧ own j = some c := by
    intro j c has
    by_cases same : j = i
    · rw [same, Function.update_self] at has
      contradiction
    · rw [Function.update_of_ne same] at has
      exact ⟨same, has⟩
  refine ⟨fun left right => exact.alone (others left).2 (others right).2, fun c => ⟨?_, ?_⟩⟩
  · rintro ⟨different, before⟩
    obtain ⟨j, has⟩ := (exact.taken_iff c).mp before
    have apart : j ≠ i := by
      rintro rfl
      exact different (Option.some.inj (has.symm.trans owned))
    exact ⟨j, by rw [Function.update_of_ne apart, has]⟩
  · rintro ⟨j, has⟩
    obtain ⟨apart, had⟩ := others has
    refine ⟨?_, (exact.taken_iff c).mpr ⟨j, had⟩⟩
    rintro rfl
    exact apart (exact.alone had owned)

end Exact

end OsLab.Lib
