import Mathlib.Logic.Function.Basic

/-!
# Copying memory

`memcpy` and `memmove` of `src/common/string.c`, which copy the messages, the pages and the names of
this kernel. `memmove` picks the direction of its loop from the order of the two regions. Addresses
do not wrap.
-/
namespace OsLab.Common

/-- Memory from some address on. -/
abbrev Memory : Type := Nat → UInt8

/-- `memcpy(memory+offset, source, length)`. -/
def copyTo (memory : Memory) (offset length : Nat) (source : Memory) : Memory := fun index =>
  if offset ≤ index ∧ index < offset + length then source (index - offset) else memory index

/-- Copying nothing. -/
@[simp] theorem copyTo_zero (dst src : Memory) (offset : Nat) : copyTo dst offset 0 src = dst := by
  funext index
  simp only [copyTo]
  rw [if_neg (by omega)]

/-- A copy that starts inside or at the end of an earlier copy of the same memory extends it. -/
theorem copyTo_copyTo (dst src : Memory) (offset second : Nat) {first skip : Nat}
    (joined : skip ≤ first) :
    copyTo (copyTo dst offset first fun index => src (offset + index)) (offset + skip) second
      (fun index => src (offset + skip + index)) =
    copyTo dst offset (max first (skip + second)) fun index => src (offset + index) := by
  funext index
  simp only [copyTo]
  by_cases inside : offset + skip ≤ index ∧ index < offset + skip + second
  · rw [if_pos inside, if_pos (by omega)]
    congr 1
    omega
  · rw [if_neg inside]
    by_cases before : offset ≤ index ∧ index < offset + first
    · rw [if_pos before, if_pos (by omega)]
    · rw [if_neg before, if_neg (by omega)]

/-- A copy depends on the bytes it copies only. -/
theorem copyTo_congr {dst left right : Memory} {offset length : Nat}
    (agree : ∀ index, index < length → left index = right index) :
    copyTo dst offset length left = copyTo dst offset length right := by
  funext index
  simp only [copyTo]
  split
  · exact agree _ (by omega)
  · rfl

variable {d s n : Nat} (memory : Memory)

/-- `while (n-- > 0) *d++ = *s++`. -/
def copyUp (memory : Memory) (d s : Nat) : (n : Nat) → Memory
  | 0 => memory
  | n + 1 => copyUp (Function.update memory d (memory s)) (d + 1) (s + 1) n

/-- `while (n-- > 0) *--d = *--s`. -/
def copyDown (memory : Memory) (d s : Nat) : (n : Nat) → Memory
  | 0 => memory
  | n + 1 => copyDown (Function.update memory (d - 1) (memory (s - 1))) (d - 1) (s - 1) n

/-- `memmove`: the memory, and the pointer returned. -/
def memmove (memory : Memory) (dest src n : Nat) : Memory × Nat :=
  (if src < dest ∧ dest - src < n then copyDown memory (dest + n) (src + n) n
    else copyUp memory dest src n, dest)

/-- Upwards no byte is written before it is read, unless the destination begins inside the source. -/
theorem copyUp_eq (outside : ¬(s < d ∧ d - s < n)) :
    copyUp memory d s n = copyTo memory d n fun index => memory (s + index) := by
  induction n generalizing memory d s with
  | zero => exact (copyTo_zero ..).symm
  | succ n ih =>
    rw [copyUp, ih _ (by omega)]
    funext index
    simp only [copyTo]
    by_cases first : index = d
    · subst first
      rw [if_neg (by omega), if_pos (by omega), Function.update_self, Nat.sub_self, Nat.add_zero]
    · by_cases inside : d < index ∧ index < d + (n + 1)
      · -- The byte just written is not one that is still to be read.
        rw [if_pos (by omega), if_pos (by omega), Function.update_of_ne (by omega)]
        exact congrArg memory (by omega)
      · rw [if_neg (by omega), if_neg (by omega), Function.update_of_ne first]

/-- Downwards no byte is written before it is read, if the destination is behind the source. -/
theorem copyDown_eq (behind : s < d) :
    copyDown memory (d + n) (s + n) n = copyTo memory d n fun index => memory (s + index) := by
  induction n generalizing memory with
  | zero => exact (copyTo_zero ..).symm
  | succ n ih =>
    rw [copyDown, Nat.add_succ_sub_one, Nat.add_succ_sub_one, ih]
    funext index
    simp only [copyTo]
    by_cases last : index = d + n
    · subst last
      rw [if_neg (by omega), if_pos (by omega), Function.update_self, Nat.add_sub_cancel_left]
    · by_cases inside : d ≤ index ∧ index < d + n
      · rw [if_pos inside, if_pos (by omega), Function.update_of_ne (by omega)]
      · rw [if_neg inside, if_neg (by omega), Function.update_of_ne last]

/-- `memmove` copies the region as it was before the call, however the two regions overlap, and
writes nothing else. -/
theorem memmove_snapshot (dest src n : Nat) :
    memmove memory dest src n =
      (copyTo memory dest n fun index => memory (src + index), dest) := by
  rw [memmove]
  split
  next overlap => rw [copyDown_eq memory overlap.1]
  next outside => rw [copyUp_eq memory outside]

end OsLab.Common
