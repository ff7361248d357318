import Mathlib.Data.List.Basic
import Mathlib.Data.Nat.Init
import Mathlib.Algebra.GroupWithZero.Nat

/-!
# Formatted output

`src/common/format.c`: `_print_int` and `vformat`, with `strncmp` of `src/common/string.c`. A C
string is the list of its characters before the terminating zero, and the output is the list of
characters passed to `put_char`. The arguments are typed: fetching one of another type than the
format names has no defined result, and neither has a write behind the 64 bytes of the digit
buffer.
-/
namespace OsLab.Common.Format

/-- The character at the front of a C string. -/
def code (s : List Char) : Int := (s.head?.map fun c => (c.toNat : Int)).getD 0

/-- `strncmp`. -/
def strncmp : Nat → List Char → List Char → Int
  | 0, _, _ => 0
  | n + 1, s1, s2 =>
    if code s1 ≠ code s2 then code s1 - code s2
    else if code s1 = 0 ∨ code s2 = 0 then 0
    else strncmp n s1.tail s2.tail

/-- `digit`. -/
def digit : List Char :=
  ['0', '1', '2', '3', '4', '5', '6', '7', '8', '9', 'a', 'b', 'c', 'd', 'e', 'f']

/-- The loop of `_print_int` that fills `buf`, which has room for some characters more. What is in
the buffer is listed from the last character on, as the second loop puts it out. -/
def fillBuf (base : Nat) : Nat → Nat → List Char → Option (List Char)
  | 0, _, _ => none
  | room + 1, v, buf =>
    let buf := digit.getD (v % base) '0' :: buf
    if v / base = 0 then some buf else fillBuf base room (v / base) buf

/-- `_print_int`. -/
def printInt (u : BitVec 64) (base : Nat) (isSigned : Bool) : Option (List Char) :=
  let negative := isSigned && decide (u.toInt < 0)
  let v := if negative then -u else u
  (fillBuf base 64 v.toNat []).map fun buf => if negative then '-' :: buf else buf

/-- The types of integers that `va_arg` is asked for; `usize` and `isize` have 64 bits. -/
inductive IntType where
  | u32
  | i32
  | u64
  | i64
  deriving Repr, DecidableEq

/-- An argument. -/
inductive Arg where
  | u32 (value : BitVec 32)
  /-- `i32`, also for a character. -/
  | i32 (value : BitVec 32)
  | u64 (value : BitVec 64)
  | i64 (value : BitVec 64)
  /-- A string, `none` for a null pointer. -/
  | str (value : Option (List Char))
  deriving Repr, DecidableEq

/-- `(i64)va_arg(arg, type)`, and the arguments after it. -/
def vaArg : IntType → List Arg → Option (BitVec 64 × List Arg)
  | .u32, .u32 value :: args => some (value.setWidth 64, args)
  | .i32, .i32 value :: args => some (value.signExtend 64, args)
  | .u64, .u64 value :: args => some (value, args)
  | .i64, .i64 value :: args => some (value, args)
  | _, _ => none

/-- `va_arg(arg, int)`, for a character. -/
def vaChar : List Arg → Option (BitVec 32 × List Arg)
  | .i32 value :: args => some (value, args)
  | _ => none

/-- `va_arg(arg, const char *)`. -/
def vaStr : List Arg → Option (Option (List Char) × List Arg)
  | .str value :: args => some (value, args)
  | _ => none

/-- `_INT_CASE`. -/
structure IntCase where
  /-- What stands behind the `%`. -/
  ident : List Char
  type : IntType
  base : Nat
  /-- Whether a sign is put out. -/
  sign : Bool
  deriving Repr, DecidableEq

/-- The cases of `vformat` for integers. -/
def intCases : List IntCase :=
  [⟨['u'], .u32, 10, false⟩, ⟨['l', 'l', 'u'], .u64, 10, false⟩, ⟨['d'], .i32, 10, true⟩,
    ⟨['l', 'l', 'd'], .i64, 10, true⟩, ⟨['x'], .u32, 16, false⟩, ⟨['l', 'l', 'x'], .u64, 16, false⟩,
    ⟨['p'], .u64, 16, false⟩, ⟨['z', 'u'], .u64, 10, false⟩, ⟨['z', 'd'], .i64, 10, true⟩]

/-- The string put out for a null pointer. -/
def nullText : List Char := ['(', 'n', 'u', 'l', 'l', ')']

/-- `(char)value`. -/
def toChar (value : BitVec 32) : Char := Char.ofNat (value.toNat % 256)

/-- The loop of `vformat`, which passes over `skip` characters first. -/
def vformatFrom : Nat → List Char → List Arg → Option (List Char)
  | _, [], _ => some []
  | skip + 1, _ :: rest, args => vformatFrom skip rest args
  | 0, c :: rest, args =>
    if c = '%' then
      if code rest = '%'.toNat then (vformatFrom 1 rest args).map ('%' :: ·)
      else if code rest = 'c'.toNat then
        (vaChar args).bind fun (value, args) =>
          (vformatFrom 1 rest args).map (toChar value :: ·)
      else if code rest = 's'.toNat then
        (vaStr args).bind fun (value, args) =>
          (vformatFrom 1 rest args).map (value.getD nullText ++ ·)
      else match intCases.find? fun case => strncmp case.ident.length rest case.ident = 0 with
        | some case =>
          (vaArg case.type args).bind fun (u, args) =>
            (printInt u case.base case.sign).bind fun text =>
              (vformatFrom case.ident.length rest args).map (text ++ ·)
        | none => (vformatFrom 0 rest args).map (c :: ·)
    else (vformatFrom 0 rest args).map (c :: ·)

/-- `vformat`. -/
def vformat (fmt : List Char) (args : List Arg) : Option (List Char) := vformatFrom 0 fmt args

/-! ## Numbers -/

/-- The value of a digit. -/
def digitValue (c : Char) : Nat := digit.idxOf c

/-- The number that digits stand for. -/
def readDigits (base : Nat) (digits : List Char) : Nat :=
  digits.foldl (fun number c => number * base + digitValue c) 0

/-- A digit reads back, and is one of its base. -/
theorem digit_spec {base number : Nat} (high : base ≤ 16) (small : number < base) :
    digitValue (digit.getD number '0') = number ∧ digit.getD number '0' ∈ digit.take base := by
  have values : ∀ number < 16, digitValue (digit.getD number '0') = number := by decide
  have inside : number < digit.length := Nat.lt_of_lt_of_le small high
  refine ⟨values number (by omega), ?_⟩
  rw [List.getD_eq_getElem?_getD, List.getElem?_eq_getElem inside, Option.getD_some,
    List.mem_take_iff_getElem]
  exact ⟨number, Nat.lt_min.mpr ⟨small, inside⟩, rfl⟩

/-- Reading one digit more. -/
theorem readDigits_append (base : Nat) (digits : List Char) (c : Char) :
    readDigits base (digits ++ [c]) = readDigits base digits * base + digitValue c := by
  rw [readDigits, List.foldl_append]
  rfl

/-- The digits of a number, without leading zeros. -/
structure DigitsOf (base v : Nat) (digits : List Char) : Prop where
  nonempty : digits ≠ []
  valid : ∀ c ∈ digits, c ∈ digit.take base
  leading : digits.head? = some '0' → digits = ['0'] ∧ v = 0
  reads : readDigits base digits = v

section Digits

variable {base v : Nat}

/-- A number below the base has one digit. -/
theorem digitsOf_small (high : base ≤ 16) (small : v < base) :
    DigitsOf base v [digit.getD v '0'] where
  nonempty := by simp
  valid := by simpa using (digit_spec high small).2
  leading := by
    intro zero
    have first : digit.getD v '0' = '0' := Option.some.inj zero
    have value := (digit_spec high small).1
    have nothing : digitValue '0' = 0 := by decide
    rw [first] at value ⊢
    exact ⟨rfl, by omega⟩
  reads := by
    rw [← List.nil_append [digit.getD v '0'], readDigits_append, (digit_spec high small).1]
    simp [readDigits]

/-- The digits of another number are those of its quotient and its last digit. -/
theorem DigitsOf.append {digits : List Char} (quotient : DigitsOf base (v / base) digits)
    (high : base ≤ 16) (more : v / base ≠ 0) :
    DigitsOf base v (digits ++ [digit.getD (v % base) '0']) := by
  have positive : 0 < base := Nat.pos_of_ne_zero fun zero => more (by simp [zero])
  obtain ⟨value, valid⟩ := digit_spec high (Nat.mod_lt v positive)
  refine ⟨by simp, fun c member => ?_, fun zero => ?_, ?_⟩
  · rcases List.mem_append.mp member with member | member
    · exact quotient.valid c member
    · rw [List.mem_singleton.mp member]
      exact valid
  · rw [List.head?_append_of_ne_nil _ quotient.nonempty] at zero
    exact absurd (quotient.leading zero).2 more
  · rw [readDigits_append, quotient.reads, value, Nat.mul_comm]
    exact Nat.div_add_mod v base

/-- The loop ends with a number below the base. -/
theorem fillBuf_small {room : Nat} (buf : List Char) (small : v < base) :
    fillBuf base (room + 1) v buf = some ([digit.getD v '0'] ++ buf) := by
  rw [fillBuf, if_pos (Nat.div_eq_of_lt small), Nat.mod_eq_of_lt small]
  rfl

/-- The loop puts the digits of the number in front of the buffer, which has room for them. -/
theorem fillBuf_digits {room : Nat} (buf : List Char) (low : 2 ≤ base) (high : base ≤ 16)
    (fits : v < base ^ (room + 1)) :
    ∃ digits, fillBuf base (room + 1) v buf = some (digits ++ buf) ∧ DigitsOf base v digits := by
  induction room generalizing v buf with
  | zero =>
    have small : v < base := by simpa using fits
    exact ⟨_, fillBuf_small buf small, digitsOf_small high small⟩
  | succ room ih =>
    by_cases last : v / base = 0
    · have small : v < base := (Nat.div_eq_zero_iff_lt (by omega)).mp last
      exact ⟨_, fillBuf_small buf small, digitsOf_small high small⟩
    · have less : v / base < base ^ (room + 1) := by
        rw [Nat.div_lt_iff_lt_mul (by omega)]
        exact fits
      obtain ⟨digits, fills, quotient⟩ := ih (digit.getD (v % base) '0' :: buf) less
      refine ⟨digits ++ [digit.getD (v % base) '0'], ?_, quotient.append high last⟩
      rw [fillBuf, if_neg last, fills, List.append_assoc]
      rfl

/-- The representation of a number: a sign where it is negative, and the digits of its absolute
value. -/
def Canonical (base : Nat) (value : Int) (text : List Char) : Prop :=
  ∃ digits, text = (if value < 0 then ['-'] else []) ++ digits ∧
    DigitsOf base value.natAbs digits

/-- `_print_int` puts out the representation of its argument, and its buffer has room for it. -/
theorem printInt_canonical (u : BitVec 64) (isSigned : Bool) (low : 2 ≤ base) (high : base ≤ 16) :
    ∃ text, printInt u base isSigned = some text ∧
      Canonical base (if isSigned then u.toInt else u.toNat) text := by
  have room : ∀ v : BitVec 64, v.toNat < base ^ (63 + 1) := fun v =>
    Nat.lt_of_lt_of_le v.isLt (Nat.pow_le_pow_left low 64)
  have bound := u.isLt
  by_cases negative : (isSigned && decide (u.toInt < 0)) = true
  · obtain ⟨signed, below⟩ := Bool.and_eq_true_iff.mp negative
    rw [decide_eq_true_iff] at below
    have magnitude : (-u).toNat = u.toInt.natAbs := by
      rw [BitVec.toNat_neg]
      rw [BitVec.toInt_eq_toNat_cond] at below ⊢
      split at below <;> split <;> omega
    obtain ⟨digits, fills, of⟩ := fillBuf_digits [] low high (room (-u))
    refine ⟨'-' :: digits, ?_, digits, ?_, ?_⟩
    · simp only [printInt, negative, if_true]
      rw [fills, List.append_nil]
      rfl
    · rw [if_pos signed, if_pos below]
      rfl
    · rw [if_pos signed, ← magnitude]
      exact of
  · obtain ⟨digits, fills, of⟩ := fillBuf_digits [] low high (room u)
    have value : (if isSigned then u.toInt else u.toNat) = (u.toNat : Int) := by
      split
      · rename_i signed
        simp only [signed, Bool.true_and, decide_eq_true_iff] at negative
        rw [BitVec.toInt_eq_toNat_cond] at negative ⊢
        split at negative <;> split <;> omega
      · rfl
    refine ⟨digits, ?_, digits, ?_, ?_⟩
    · simp only [printInt, negative]
      rw [if_neg (by simp), fills, List.append_nil]
      rfl
    · rw [value, if_neg (by omega)]
      rfl
    · rw [value]
      exact of

end Digits

/-! ## Format strings -/

/-- A part of a format string. -/
inductive Piece where
  /-- A character that stands for itself. -/
  | literal (c : Char)
  /-- A directive for `%`. -/
  | percent
  | char
  | string
  | int (case : IntCase)
  deriving Repr, DecidableEq

/-- What stands behind the `%` of a directive. -/
def Piece.ident : Piece → List Char
  | .literal _ => []
  | .percent => ['%']
  | .char => ['c']
  | .string => ['s']
  | .int case => case.ident

/-- The directives. -/
def directives : List Piece := [.percent, .char, .string] ++ intCases.map .int

/-- The parts of a format string. -/
inductive Parses : List Char → List Piece → Prop where
  | nil : Parses [] []
  /-- A character other than `%` stands for itself. -/
  | literal {c : Char} {rest : List Char} {pieces : List Piece} (plain : c ≠ '%')
      (parses : Parses rest pieces) : Parses (c :: rest) (.literal c :: pieces)
  | directive {piece : Piece} {rest : List Char} {pieces : List Piece}
      (known : piece ∈ directives) (parses : Parses rest pieces) :
      Parses ('%' :: (piece.ident ++ rest)) (piece :: pieces)
  /-- A `%` that no directive follows stands for itself. -/
  | unknown {rest : List Char} {pieces : List Piece}
      (unknown : ∀ piece ∈ directives, ¬ piece.ident <+: rest) (parses : Parses rest pieces) :
      Parses ('%' :: rest) (.literal '%' :: pieces)

/-- The type of an integer argument. -/
def Arg.intType : Arg → Option IntType
  | .u32 _ => some .u32
  | .i32 _ => some .i32
  | .u64 _ => some .u64
  | .i64 _ => some .i64
  | .str _ => none

/-- The number an argument stands for. -/
def Arg.value : Arg → Int
  | .u32 value => value.toNat
  | .i32 value => value.toInt
  | .u64 value => value.toNat
  | .i64 value => value.toInt
  | .str _ => 0

/-- The arguments match the directives. -/
def Fits : List Piece → List Arg → Prop
  | [], _ => True
  | .literal _ :: pieces, args => Fits pieces args
  | .percent :: pieces, args => Fits pieces args
  | .char :: pieces, .i32 _ :: args => Fits pieces args
  | .string :: pieces, .str _ :: args => Fits pieces args
  | .int case :: pieces, arg :: args => arg.intType = some case.type ∧ Fits pieces args
  | _, _ => False

/-- What is put out for parts of a format string and their arguments. -/
inductive Emits : List Piece → List Arg → List Char → Prop where
  | nil {args : List Arg} : Emits [] args []
  /-- A character that stands for itself takes no argument. -/
  | literal {c : Char} {pieces : List Piece} {args : List Arg} {out : List Char}
      (emits : Emits pieces args out) : Emits (.literal c :: pieces) args (c :: out)
  /-- So does a percent sign. -/
  | percent {pieces : List Piece} {args : List Arg} {out : List Char}
      (emits : Emits pieces args out) : Emits (.percent :: pieces) args ('%' :: out)
  | char {value : BitVec 32} {pieces : List Piece} {args : List Arg} {out : List Char}
      (emits : Emits pieces args out) :
      Emits (.char :: pieces) (.i32 value :: args) (toChar value :: out)
  | string {value : Option (List Char)} {pieces : List Piece} {args : List Arg} {out : List Char}
      (emits : Emits pieces args out) :
      Emits (.string :: pieces) (.str value :: args) (value.getD nullText ++ out)
  | int {case : IntCase} {arg : Arg} {text : List Char} {pieces : List Piece} {args : List Arg}
      {out : List Char} (canonical : Canonical case.base arg.value text)
      (emits : Emits pieces args out) : Emits (.int case :: pieces) (arg :: args) (text ++ out)

section Parsing

variable {rest : List Char} {args : List Arg} {piece : Piece} {case : IntCase}

/-- `strncmp` with the length of the second string looks for a prefix. -/
theorem strncmp_eq_zero {ident : List Char} (nonzero : ∀ c ∈ ident, c.toNat ≠ 0) :
    strncmp ident.length rest ident = 0 ↔ ident <+: rest := by
  induction ident generalizing rest with
  | nil => simp [strncmp]
  | cons c ident ih =>
    rw [List.forall_mem_cons] at nonzero
    cases rest with
    | nil =>
      have first := nonzero.1
      simp only [List.length_cons, strncmp, code, List.head?_nil, List.head?_cons, Option.map_none,
        Option.map_some, Option.getD_none, Option.getD_some, List.prefix_nil, List.cons_ne_nil,
        iff_false]
      rw [if_pos (by omega)]
      omega
    | cons other rest =>
      have codes : code (other :: rest) = code (c :: ident) ↔ other = c := by
        simp only [code, List.head?_cons, Option.map_some, Option.getD_some, Int.natCast_inj]
        exact ⟨fun same => Char.toNat_inj.mp same, fun same => congrArg Char.toNat same⟩
      have some_ : code (c :: ident) ≠ 0 := by simp [code, nonzero.1]
      rw [List.length_cons, strncmp, List.cons_prefix_cons]
      by_cases same : other = c
      · subst same
        rw [if_neg (by simp [codes]), if_neg (by simp [codes.mpr rfl, some_])]
        simp [ih nonzero.2]
      · have different : code (other :: rest) ≠ code (c :: ident) := fun equal =>
          same (codes.mp equal)
        rw [if_pos different]
        have apart : code (other :: rest) - code (c :: ident) ≠ 0 := by omega
        simp [apart, Ne.symm same]

/-- Characters are passed over. -/
theorem vformatFrom_skip (ident : List Char) :
    vformatFrom ident.length (ident ++ rest) args = vformat rest args := by
  induction ident with
  | nil => rfl
  | cons c ident ih => exact ih

/-- Every format string has parts. -/
theorem parses_exists (fmt : List Char) : ∃ pieces, Parses fmt pieces := by
  induction length : fmt.length using Nat.strong_induction_on generalizing fmt with
  | _ size ih =>
    subst length
    cases fmt with
    | nil => exact ⟨[], .nil⟩
    | cons c rest =>
      by_cases percent : c = '%'
      · subst percent
        by_cases known : ∃ piece ∈ directives, piece.ident <+: rest
        · obtain ⟨piece, known, tail, rfl⟩ := known
          have shorter : tail.length < ('%' :: (piece.ident ++ tail)).length := by
            rw [List.length_cons, List.length_append]
            omega
          obtain ⟨pieces, parses⟩ := ih tail.length shorter tail rfl
          exact ⟨piece :: pieces, .directive known parses⟩
        · obtain ⟨pieces, parses⟩ := ih rest.length (by simp) rest rfl
          exact ⟨_, .unknown (fun piece member here => known ⟨piece, member, here⟩) parses⟩
      · obtain ⟨pieces, parses⟩ := ih rest.length (by simp) rest rfl
        exact ⟨_, .literal percent parses⟩

/-- What `vformat` does with a character that stands for itself. -/
theorem vformat_literal {c : Char} (plain : c ≠ '%') :
    vformat (c :: rest) args = (vformat rest args).map (c :: ·) := by
  rw [vformat, vformatFrom, if_neg plain]
  rfl

/-- The character at the front is the first one. -/
theorem code_eq {c : Char} (nonzero : c.toNat ≠ 0) : code rest = c.toNat ↔ [c] <+: rest := by
  cases rest with
  | nil =>
    have away : (0 : Int) ≠ c.toNat := by omega
    simp [code, away]
  | cons first rest =>
    rw [List.cons_prefix_cons]
    simp only [code, List.head?_cons, Option.map_some, Option.getD_some, Int.natCast_inj,
      List.nil_prefix, and_true]
    exact ⟨fun same => (Char.toNat_inj.mp same).symm, fun same => congrArg Char.toNat same.symm⟩

/-- What `vformat` does with a `%` that no directive follows. -/
theorem vformat_unknown (unknown : ∀ piece ∈ directives, ¬ piece.ident <+: rest) :
    vformat ('%' :: rest) args = (vformat rest args).map ('%' :: ·) := by
  have percent : ¬ code rest = '%'.toNat := by
    rw [code_eq (by decide)]
    exact unknown .percent (by decide)
  have char : ¬ code rest = 'c'.toNat := by
    rw [code_eq (by decide)]
    exact unknown .char (by decide)
  have string : ¬ code rest = 's'.toNat := by
    rw [code_eq (by decide)]
    exact unknown .string (by decide)
  have others : intCases.find? (fun case => strncmp case.ident.length rest case.ident = 0) =
      none := by
    rw [List.find?_eq_none]
    intro case member
    have all : (intCases.all fun case => case.ident.all fun c => c.toNat != 0) = true := rfl
    have nonzero : ∀ c ∈ case.ident, c.toNat ≠ 0 := by
      intro c inside
      simpa using List.all_eq_true.mp (List.all_eq_true.mp all case member) c inside
    rw [decide_eq_true_iff, strncmp_eq_zero nonzero]
    exact unknown (.int case) (by simp [directives, member])
  rw [vformat, vformatFrom, if_pos rfl, if_neg percent, if_neg char, if_neg string, others]
  rfl

/-- What `vformat` does with an integer. -/
theorem vformat_int (known : case ∈ intCases) :
    vformat ('%' :: (case.ident ++ rest)) args = (vaArg case.type args).bind fun (u, args) =>
      (printInt u case.base case.sign).bind fun text => (vformat rest args).map (text ++ ·) := by
  have front : code (case.ident ++ rest) = code case.ident := by
    have nonempty : ∀ case ∈ intCases, case.ident ≠ [] := by decide
    rw [code, List.head?_append_of_ne_nil _ (nonempty case known)]
    rfl
  have first : ∀ case ∈ intCases, code case.ident ≠ '%'.toNat ∧ code case.ident ≠ 'c'.toNat ∧
      code case.ident ≠ 's'.toNat := by decide
  obtain ⟨percent, char, string⟩ := front ▸ first case known
  -- no other identifier is a prefix of this one
  have finds : intCases.find? (fun other =>
      strncmp other.ident.length (case.ident ++ rest) other.ident = 0) = some case := by
    simp only [intCases, List.mem_cons, List.not_mem_nil, or_false] at known
    rcases known with rfl | rfl | rfl | rfl | rfl | rfl | rfl | rfl | rfl <;> rfl
  rw [vformat, vformatFrom, if_pos rfl, if_neg percent, if_neg char, if_neg string, finds]
  simp only [vformatFrom_skip]

/-- The integer fetched for a directive is the number its argument stands for. -/
theorem vaArg_value {arg : Arg} (known : case ∈ intCases) (type : arg.intType = some case.type) :
    ∃ u, vaArg case.type (arg :: args) = some (u, args) ∧
      (if case.sign then u.toInt else (u.toNat : Int)) = arg.value := by
  have signs : ∀ case ∈ intCases, case.sign = decide (case.type = .i32 ∨ case.type = .i64) := by
    decide
  rw [signs case known]
  cases arg with
  | u32 value =>
    rw [← show IntType.u32 = case.type from Option.some.inj type]
    exact ⟨value.setWidth 64, rfl, by simp [Arg.value]; omega⟩
  | i32 value =>
    rw [← show IntType.i32 = case.type from Option.some.inj type]
    refine ⟨value.signExtend 64, rfl, ?_⟩
    simp [Arg.value, BitVec.toInt_signExtend_of_le]
  | u64 value =>
    rw [← show IntType.u64 = case.type from Option.some.inj type]
    exact ⟨value, rfl, rfl⟩
  | i64 value =>
    rw [← show IntType.i64 = case.type from Option.some.inj type]
    exact ⟨value, rfl, rfl⟩
  | str value => cases type

/-- What `vformat` puts out for the parts of a format string and matching arguments. -/
theorem vformat_parses {fmt : List Char} {pieces : List Piece} (parses : Parses fmt pieces)
    (fits : Fits pieces args) : ∃ out, vformat fmt args = some out ∧ Emits pieces args out := by
  induction parses generalizing args with
  | nil => exact ⟨[], rfl, .nil⟩
  | literal plain _ ih =>
    obtain ⟨out, gives, emits⟩ := ih fits
    exact ⟨_, by rw [vformat_literal plain, gives]; rfl, .literal emits⟩
  | unknown unknown _ ih =>
    obtain ⟨out, gives, emits⟩ := ih fits
    exact ⟨_, by rw [vformat_unknown unknown, gives]; rfl, .literal emits⟩
  | @directive piece rest pieces known _ ih =>
    cases piece with
    | literal c => simp [directives] at known
    | percent =>
      obtain ⟨out, gives, emits⟩ := ih fits
      refine ⟨_, ?_, .percent emits⟩
      show (vformat rest args).map ('%' :: ·) = _
      rw [gives]
      rfl
    | char =>
      cases args with
      | nil => cases fits
      | cons arg args =>
        cases arg with
        | i32 value =>
          obtain ⟨out, gives, emits⟩ := ih fits
          refine ⟨_, ?_, .char emits⟩
          show (vformat rest args).map (toChar value :: ·) = _
          rw [gives]
          rfl
        | _ => cases fits
    | string =>
      cases args with
      | nil => cases fits
      | cons arg args =>
        cases arg with
        | str value =>
          obtain ⟨out, gives, emits⟩ := ih fits
          refine ⟨_, ?_, .string emits⟩
          show (vformat rest args).map (value.getD nullText ++ ·) = _
          rw [gives]
          rfl
        | _ => cases fits
    | int case =>
      have known : case ∈ intCases := by simpa [directives] using known
      have bases : ∀ case ∈ intCases, 2 ≤ case.base ∧ case.base ≤ 16 := by decide
      cases args with
      | nil => cases fits
      | cons arg args =>
        obtain ⟨type, fits⟩ := fits
        obtain ⟨out, gives, emits⟩ := ih fits
        obtain ⟨u, fetched, value⟩ := vaArg_value known type
        obtain ⟨text, prints, canonical⟩ := printInt_canonical u case.sign (bases case known).1
          (bases case known).2
        refine ⟨text ++ out, ?_, .int (value ▸ canonical) emits⟩
        rw [Piece.ident, vformat_int known, fetched]
        simp [prints, gives]

end Parsing

/-- Every format string has parts, and with matching arguments `vformat` puts out their texts one
after the other. -/
theorem vformat_emits (fmt : List Char) : (∃ pieces, Parses fmt pieces) ∧
    ∀ pieces args, Parses fmt pieces → Fits pieces args →
      ∃ out, vformat fmt args = some out ∧ Emits pieces args out :=
  ⟨parses_exists fmt, fun _ _ parses fits => vformat_parses parses fits⟩

/-- The most negative number, and a `%` that no directive follows. -/
theorem vformat_emits_least : ∃ out,
    vformat ['%', 'd', '%', 'l'] [.i32 (BitVec.ofInt 32 (-2147483648))] = some out ∧
      Emits [.int ⟨['d'], .i32, 10, true⟩, .literal '%', .literal 'l']
        [.i32 (BitVec.ofInt 32 (-2147483648))] out := by
  have parses : Parses ['%', 'd', '%', 'l']
      [.int ⟨['d'], .i32, 10, true⟩, .literal '%', .literal 'l'] :=
    @Parses.directive (.int ⟨['d'], .i32, 10, true⟩) _ _ (by decide)
      (.unknown (by decide) (.literal (by decide) .nil))
  exact (vformat_emits _).2 _ _ parses ⟨rfl, trivial⟩

example : vformat ['%', 'd', '%', 'l'] [.i32 (BitVec.ofInt 32 (-2147483648))] =
    some ['-', '2', '1', '4', '7', '4', '8', '3', '6', '4', '8', '%', 'l'] := by
  decide +kernel

end OsLab.Common.Format
