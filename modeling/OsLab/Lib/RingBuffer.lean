import Mathlib.Data.Nat.ModEq
import Mathlib.Logic.Function.Basic
import Mathlib.Data.List.Infix

/-!
# Rings with wrapping counters

A ring of `capacity` slots with a counter of the items taken and a counter of the items given,
both kept modulo `modulus`. The slot of an item is its counter modulo the capacity. Where the
capacity divides the modulus and is smaller, the ring holds the items given and not yet taken,
in order, however often the counters have wrapped around.
-/
namespace OsLab.Lib

universe u

/-- The slots and the two counters. -/
structure RingBuffer (α : Type u) where
  slots : Nat → α
  /-- The counter of items taken. -/
  first : Nat
  /-- The counter of items given. -/
  last : Nat

namespace RingBuffer

variable {α : Type u} (capacity modulus : Nat)

/-- Give an item. -/
def push (ring : RingBuffer α) (item : α) : RingBuffer α :=
  { ring with
    slots := Function.update ring.slots (ring.last % capacity) item
    last := (ring.last + 1) % modulus }

/-- The item to take next. -/
def front (ring : RingBuffer α) : α := ring.slots (ring.first % capacity)

/-- Take an item. -/
def pop (ring : RingBuffer α) : RingBuffer α := { ring with first := (ring.first + 1) % modulus }

/-- Withdraw the item given last. -/
def unpush (ring : RingBuffer α) : RingBuffer α :=
  { ring with last := (ring.last + modulus - 1) % modulus }

/-- The item given last. -/
def back (ring : RingBuffer α) : α :=
  ring.slots ((ring.last + modulus - 1) % modulus % capacity)

/-- A capacity that the counters can tell from empty and whose slots they keep apart. -/
structure Sized : Prop where
  /-- The slots do not move where a counter wraps around. -/
  divides : capacity ∣ modulus
  smaller : capacity < modulus

/-- The ring after the items `taken` of the items `given`. -/
structure Holds (ring : RingBuffer α) (taken given : List α) : Prop where
  first : ring.first = taken.length % modulus
  last : ring.last = given.length % modulus
  order : taken <+: given
  bounded : given.length ≤ taken.length + capacity
  contents : ∀ index, taken.length ≤ index → index < given.length →
    given[index]? = some (ring.slots (index % capacity))

/-- Numbers at a distance below the modulus are equal if they agree modulo it. -/
theorem eq_of_mod_eq {modulus low high : Nat} (ordered : low ≤ high) (near : high - low < modulus)
    (same : low % modulus = high % modulus) : low = high := by
  have multiple : modulus ∣ high - low := (Nat.modEq_iff_dvd' ordered).mp same
  have nothing := Nat.eq_zero_of_dvd_of_lt multiple near
  omega

namespace Holds

variable {capacity modulus : Nat} {ring : RingBuffer α} {taken given : List α}

/-- An empty ring. -/
theorem start {slots : Nat → α} : Holds capacity modulus ⟨slots, 0, 0⟩ [] [] where
  first := by simp
  last := by simp
  order := List.prefix_refl _
  bounded := by simp
  contents := by simp

/-- Equal counters mean an empty ring. -/
theorem empty_iff (holds : Holds capacity modulus ring taken given)
    (sized : Sized capacity modulus) :
    ring.first = ring.last ↔ taken.length = given.length := by
  have ordered := holds.order.length_le
  have bounded := holds.bounded
  have smaller := sized.smaller
  rw [holds.first, holds.last]
  exact ⟨eq_of_mod_eq ordered (by omega), fun same => by rw [same]⟩

/-- Counters at the distance of the capacity mean a full ring. -/
theorem full_iff (holds : Holds capacity modulus ring taken given)
    (sized : Sized capacity modulus) :
    ring.last = (ring.first + capacity) % modulus ↔
      given.length = taken.length + capacity := by
  have ordered := holds.order.length_le
  have smaller := sized.smaller
  rw [holds.first, holds.last, Nat.mod_add_mod]
  exact ⟨eq_of_mod_eq holds.bounded (by omega), fun same => by rw [same]⟩

/-- Giving an item to a ring that is not full. -/
theorem push (holds : Holds capacity modulus ring taken given)
    (sized : Sized capacity modulus) (room : given.length < taken.length + capacity) (item : α) :
    Holds capacity modulus (ring.push capacity modulus item) taken (given ++ [item]) where
  first := holds.first
  last := by
    simp only [RingBuffer.push, holds.last, Nat.mod_add_mod, List.length_append,
      List.length_singleton]
  order := holds.order.trans (List.prefix_append _ _)
  bounded := by
    simp only [List.length_append, List.length_singleton]
    omega
  contents := by
    intro index after before
    simp only [List.length_append, List.length_singleton] at before
    have slot : ring.last % capacity = given.length % capacity := by
      rw [holds.last, Nat.mod_mod_of_dvd _ sized.divides]
    simp only [RingBuffer.push, slot]
    by_cases newest : index = given.length
    · subst newest
      simp
    · have apart : index % capacity ≠ given.length % capacity := by
        intro same
        exact newest (eq_of_mod_eq (by omega) (by omega) same)
      rw [Function.update_of_ne apart, List.getElem?_append_left (by omega)]
      exact holds.contents index after (by omega)

/-- The item to take next is the first that was not taken. -/
theorem front_eq {item : α} (holds : Holds capacity modulus ring taken given)
    (sized : Sized capacity modulus) (next : given[taken.length]? = some item) :
    ring.front capacity = item := by
  obtain ⟨inside, -⟩ := List.getElem?_eq_some_iff.mp next
  have found := holds.contents taken.length (Nat.le_refl _) inside
  rw [next] at found
  rw [RingBuffer.front, holds.first, Nat.mod_mod_of_dvd _ sized.divides]
  exact (Option.some.inj found).symm

/-- Taking an item from a ring that is not empty. -/
theorem pop (holds : Holds capacity modulus ring taken given)
    (sized : Sized capacity modulus) (some_left : taken.length < given.length) :
    Holds capacity modulus (ring.pop modulus) (taken ++ [ring.front capacity]) given where
  first := by
    simp only [RingBuffer.pop, holds.first, Nat.mod_add_mod, List.length_append,
      List.length_singleton]
  last := holds.last
  order := by
    obtain ⟨rest, rfl⟩ := holds.order
    cases rest with
    | nil => simp at some_left
    | cons head tail =>
      have first : ring.front capacity = head := holds.front_eq sized (by simp)
      exact ⟨tail, by simp [first]⟩
  bounded := by
    have bounded := holds.bounded
    simp only [List.length_append, List.length_singleton]
    omega
  contents := by
    intro index after before
    simp only [List.length_append, List.length_singleton] at after
    exact holds.contents index (by omega) before

/-- The counter of items given, one back. -/
theorem last_back {item : α} (holds : Holds capacity modulus ring taken (given ++ [item]))
    (sized : Sized capacity modulus) :
    (ring.last + modulus - 1) % modulus = given.length % modulus := by
  have positive := Nat.zero_lt_of_lt sized.smaller
  rw [holds.last, Nat.add_sub_assoc positive, Nat.mod_add_mod, List.length_append,
    List.length_singleton, show given.length + 1 + (modulus - 1) = given.length + modulus by omega,
    Nat.add_mod_right]

/-- Withdrawing an item that was not taken. -/
theorem unpush {item : α} (holds : Holds capacity modulus ring taken (given ++ [item]))
    (sized : Sized capacity modulus) (left : taken.length ≤ given.length) :
    Holds capacity modulus (ring.unpush modulus) taken given where
  first := holds.first
  last := holds.last_back sized
  order := List.prefix_of_prefix_length_le holds.order (List.prefix_append _ _) left
  bounded := by
    have bounded := holds.bounded
    simp only [List.length_append, List.length_singleton] at bounded
    omega
  contents := by
    intro index after before
    rw [← List.getElem?_append_left before]
    exact holds.contents index after (by simp only [List.length_append]; omega)

/-- The item that can be withdrawn. -/
theorem back_eq {item : α} (holds : Holds capacity modulus ring taken (given ++ [item]))
    (sized : Sized capacity modulus) (left : taken.length ≤ given.length) :
    ring.back capacity modulus = item := by
  have found := holds.contents given.length left (by simp)
  rw [RingBuffer.back, holds.last_back sized, Nat.mod_mod_of_dvd _ sized.divides]
  simpa [eq_comm] using found

end Holds

end RingBuffer

end OsLab.Lib
