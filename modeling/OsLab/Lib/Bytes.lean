import Mathlib.Data.Fintype.Basic
import Mathlib.Tactic.Ring

/-!
# Fixed areas of bytes

An area is a function from its positions to bytes. Reading is total, with zero outside the
area, so that a statement about one position needs no bound in its text; writing replaces a
run of positions. Words are little-endian base-256 digits.
-/
namespace OsLab.Lib

/-- The digit of `value` that a little-endian word stores at byte `index`. -/
def digit (value index : Nat) : UInt8 := UInt8.ofNat (value / 256 ^ index)

/-- The value of the little-endian word of `width` bytes that `bytes` supplies. -/
def word : Nat → (Nat → UInt8) → Nat
  | 0, _ => 0
  | width + 1, bytes => (bytes 0).toNat + 256 * word width fun index => bytes (index + 1)

/-- A word depends on its own bytes only. -/
theorem word_congr {width : Nat} {left right : Nat → UInt8}
    (agree : ∀ index, index < width → left index = right index) :
    word width left = word width right := by
  induction width generalizing left right with
  | zero => rfl
  | succ width ih =>
    simp only [word]
    rw [agree 0 (by omega), ih fun index below => agree (index + 1) (by omega)]

/-- A word is below the bound of its width. -/
theorem word_lt (width : Nat) (bytes : Nat → UInt8) : word width bytes < 256 ^ width := by
  induction width generalizing bytes with
  | zero => simp [word]
  | succ width ih =>
    have low := (bytes 0).toNat_lt
    have high := ih fun index => bytes (index + 1)
    simp only [word, Nat.pow_succ]
    omega

/-- Storing a value and reading it back reduces it to the width of the word. -/
theorem word_digit (width value : Nat) : word width (digit value) = value % 256 ^ width := by
  induction width generalizing value with
  | zero => simp [word, Nat.mod_one]
  | succ width ih =>
    have shifted : (fun index => digit value (index + 1)) = digit (value / 256) := by
      funext index
      simp only [digit]
      rw [Nat.div_div_eq_div_mul, Nat.pow_succ']
    simp only [word, shifted, ih]
    rw [Nat.pow_succ', Nat.mod_mul]
    simp [digit]

/-- The digits of a word are its bytes. -/
theorem digit_word {width : Nat} {bytes : Nat → UInt8} {index : Nat} (inside : index < width) :
    digit (word width bytes) index = bytes index := by
  induction width generalizing bytes index with
  | zero => omega
  | succ width ih =>
    have low := (bytes 0).toNat_lt
    cases index with
    | zero =>
      rw [digit, word, Nat.pow_zero, Nat.div_one]
      refine UInt8.toNat_inj.mp ?_
      rw [UInt8.toNat_ofNat']
      omega
    | succ index =>
      have shifted : word (width + 1) bytes / 256 ^ (index + 1) =
          word width (fun index => bytes (index + 1)) / 256 ^ index := by
        rw [Nat.pow_succ', ← Nat.div_div_eq_div_mul, word]
        congr 1
        omega
      rw [digit, shifted]
      exact ih (by omega)

/-- An area of `size` bytes. -/
def Bytes (size : Nat) : Type := Fin size → UInt8

namespace Bytes

variable {size : Nat}

instance : DecidableEq (Bytes size) := inferInstanceAs (DecidableEq (Fin size → UInt8))

/-- The byte at a position, and zero outside the area. -/
def get (bytes : Bytes size) (index : Nat) : UInt8 :=
  if inside : index < size then bytes ⟨index, inside⟩ else 0

/-- The area holding `f` at each of its positions. -/
def ofFn (f : Nat → UInt8) : Bytes size := fun index => f index

/-- Every position zero. -/
def zero : Bytes size := ofFn fun _ => 0

/-- Reading inside an area built from a function. -/
theorem get_ofFn {f : Nat → UInt8} {index : Nat} (inside : index < size) :
    (ofFn f : Bytes size).get index = f index := by
  simp only [get, ofFn, inside, dif_pos]

/-- The zero area reads as zero everywhere. -/
@[simp] theorem get_zero (index : Nat) : (zero : Bytes size).get index = 0 := by
  simp only [get, zero, ofFn]
  split <;> rfl

/-- Reading outside an area gives zero. -/
theorem get_outside {bytes : Bytes size} {index : Nat} (outside : size ≤ index) :
    bytes.get index = 0 := by
  simp only [get]
  rw [dif_neg (by omega)]

/-- Areas that agree at every position are equal. -/
theorem ext {left right : Bytes size}
    (agree : ∀ index, index < size → left.get index = right.get index) : left = right := by
  funext index
  have same := agree index.val index.isLt
  simpa only [get, index.isLt, dif_pos] using same

/-- Replace the `length` positions from `offset` on by the bytes of `source`. -/
def blit (bytes : Bytes size) (offset length : Nat) (source : Nat → UInt8) : Bytes size :=
  ofFn fun index =>
    if offset ≤ index ∧ index < offset + length then source (index - offset) else bytes.get index

/-- Reading after a replacement. -/
theorem get_blit {bytes : Bytes size} {offset length index : Nat} {source : Nat → UInt8}
    (inside : index < size) : (bytes.blit offset length source).get index =
      if offset ≤ index ∧ index < offset + length then source (index - offset)
      else bytes.get index :=
  get_ofFn inside

/-- Replace one byte. -/
def set (bytes : Bytes size) (index : Nat) (byte : UInt8) : Bytes size :=
  bytes.blit index 1 fun _ => byte

/-- Reading after one byte was replaced. -/
theorem get_set {bytes : Bytes size} {index other : Nat} {byte : UInt8} (inside : other < size) :
    (bytes.set index byte).get other = if other = index then byte else bytes.get other := by
  rw [set, get_blit inside]
  by_cases same : other = index
  · rw [if_pos same, if_pos (by omega)]
  · rw [if_neg same, if_neg (by omega)]

/-- The word of `width` bytes at `offset`. -/
def peek (bytes : Bytes size) (offset width : Nat) : Nat :=
  word width fun index => bytes.get (offset + index)

/-- Words beside a replacement stay. -/
theorem peek_blit_of_disjoint {bytes : Bytes size} {offset length place width : Nat}
    {source : Nat → UInt8} (inside : place + width ≤ size)
    (apart : place + width ≤ offset ∨ offset + length ≤ place) :
    (bytes.blit offset length source).peek place width = bytes.peek place width := by
  refine word_congr fun index below => ?_
  rw [get_blit (by omega), if_neg (by omega)]

/-- A word that was replaced, read back. -/
theorem peek_blit_digit {bytes : Bytes size} {offset width value : Nat}
    (inside : offset + width ≤ size) :
    (bytes.blit offset width (digit value)).peek offset width = value % 256 ^ width := by
  rw [← word_digit]
  refine word_congr fun index below => ?_
  rw [get_blit (by omega), if_pos (by omega), Nat.add_sub_cancel_left]

@[simp] theorem peek_zero (offset width : Nat) : (zero : Bytes size).peek offset width = 0 := by
  simp only [peek, get_zero]
  induction width with
  | zero => rfl
  | succ width ih => simpa [word] using ih

end Bytes

end OsLab.Lib
