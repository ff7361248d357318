import OsLab.Kernel.Console
import OsLab.Lib.RingBuffer

/-!
# The line discipline of the console

What `console_intr` and `console_read` of `src/kernel/console.c` do with the input, one character of
`console_intr` and one stretch of `console_read` between two waits at a time. A read that waits may
go on at any time; it waits again where there is nothing to read. Reads come one after the other.

The edited input is what has been typed as an editor of lines would leave it. The reads return it
piece by piece, without the `C('D')`s.
-/
namespace OsLab.Kernel.LineDiscipline

open OsLab.Lib
open OsLab.Kernel.Console (Input inputBuf usizeRange ctrlC ctrlD ctrlU newline carriageReturn
  delete)

/-- How a stretch of `console_read` ends. -/
inductive Outcome where
  /-- It returns with these characters. -/
  | returned (bytes : List UInt8)
  /-- It waits, having got these. -/
  | waits (got : List UInt8)
  deriving Repr, DecidableEq

/-- The loop of `console_read`, with `n` of `m` characters left to read, up to the next wait. -/
def readStretch (m : Nat) : (n : Nat) → (got : List UInt8) → Input → Outcome × Input
  | 0, got, input => (.returned got, input)
  | n + 1, got, input =>
    if input.r = input.w then (.waits got, input)
    else
      let c := input.buf (input.r % inputBuf)
      let after := { input with r := (input.r + 1) % usizeRange }
      if c = ctrlD then
        if n + 1 < m then (.returned got, input) else (.returned got, after)
      else if c = newline then (.returned (got ++ [c]), after)
      else readStretch m n (got ++ [c]) after

/-- What is typed, as an editor of lines leaves it. -/
structure Edit where
  /-- The lines that are complete. -/
  edited : List UInt8
  /-- The line that is being typed. -/
  line : List UInt8
  deriving Repr, DecidableEq

/-- A character is typed when `taken` characters of the complete lines have been read. Characters
are dropped while `INPUT_BUF` are buffered. -/
def Edit.type (edit : Edit) (taken : Nat) (char : UInt8) : Edit :=
  if char = ctrlU then { edit with line := [] }
  else if char = delete then { edit with line := edit.line.dropLast }
  else if edit.edited.length + edit.line.length < taken + inputBuf then
    let char := if char = carriageReturn then newline else char
    let line := edit.line ++ [char]
    if char = newline ∨ char = ctrlD ∨ edit.edited.length + line.length = taken + inputBuf then
      ⟨edit.edited ++ line, []⟩
    else { edit with line }
  else edit

/-- A call of `console_read` that has returned, or has not returned yet. -/
structure Read where
  /-- `n`, as the call got it. -/
  size : Nat
  bytes : List UInt8
  deriving Repr, DecidableEq

/-- The console, its reader and the editor. -/
structure State where
  input : Input
  /-- The call that waits. -/
  reading : Option Read
  /-- The calls that have returned, in order. -/
  returned : List Read
  edit : Edit

/-- How many characters a call has taken that has returned: 0 is returned for a `C('D')`. -/
def Read.used (read : Read) : Nat := max 1 read.bytes.length

/-- How many characters some calls have taken. -/
def used (reads : List Read) : Nat := (reads.map Read.used).sum

namespace State

/-- How many characters have been taken. -/
def taken (s : State) : Nat := used s.returned + (s.reading.elim 0 (·.bytes.length))

/-- After a stretch of a call. -/
def goOn (s : State) (m : Nat) : Outcome × Input → State
  | (.returned bytes, input) =>
    { s with input, reading := none, returned := s.returned ++ [⟨m, bytes⟩] }
  | (.waits got, input) => { s with input, reading := some ⟨m, got⟩ }

end State

/-- What happens next. -/
inductive Act where
  /-- `console_intr` handles a character. -/
  | char (c : UInt8)
  /-- `console_read` is called. -/
  | read (n : Nat)
  /-- A call goes on after it has waited. -/
  | resume

/-- The console and its reader as a machine. -/
def machine : Machine State Act where
  init s := s = ⟨Console.State.init.input, none, [], ⟨[], []⟩⟩
  step s
    | .char c => some { s with input := (s.input.type c).1, edit := s.edit.type s.taken c }
    | .read n => if s.reading = none then some (s.goOn n (readStretch n n [] s.input)) else none
    | .resume => s.reading.map fun read =>
        s.goOn read.size (readStretch read.size (read.size - read.bytes.length) read.bytes s.input)

/-- Characters are ASCII other than NUL and `C('C')`, and reads are not empty. -/
def Allowed (_ : State) : Act → Prop
  | .char c => 1 ≤ c ∧ c < 128 ∧ c ≠ ctrlC
  | .read n => 1 ≤ n
  | .resume => True

instance (s : State) (act : Act) : Decidable (Allowed s act) :=
  match act with
  | .char _ => inferInstanceAs (Decidable (_ ∧ _ ∧ _))
  | .read _ => inferInstanceAs (Decidable (_ ≤ _))
  | .resume => inferInstanceAs (Decidable True)

/-! ## The buffer -/

/-- The ring and the counters keep apart what is buffered. -/
theorem sized : RingBuffer.Sized inputBuf usizeRange := ⟨⟨2 ^ 57, rfl⟩, by decide⟩

/-- The buffer as a ring. -/
def ring (input : Input) : RingBuffer UInt8 := ⟨input.buf, input.r, input.e⟩

theorem ring_back (input : Input) : ring input.back = (ring input).unpush usizeRange := rfl

theorem back_w (buf : Nat → UInt8) (r w e : Nat) : (Input.back ⟨buf, r, w, e⟩).w = w := rfl

/-- The buffer holds what was typed and not taken. -/
structure Fits (input : Input) (taken : List UInt8) (edit : Edit) : Prop where
  ring : RingBuffer.Holds inputBuf usizeRange (ring input) taken (edit.edited ++ edit.line)
  committed : taken <+: edit.edited
  w : input.w = edit.edited.length % usizeRange
  line : newline ∉ edit.line

namespace Fits

variable {input : Input} {taken edited line : List UInt8} {edit : Edit}

/-- There is an unfinished line just when the edit index is not at the write index. -/
theorem e_eq_w (fits : Fits input taken edit) : input.e = input.w ↔ edit.line = [] := by
  have last : input.e = (edit.edited ++ edit.line).length % usizeRange := fits.ring.last
  have bounded := fits.ring.bounded
  have shorter := fits.committed.length_le
  rw [last, fits.w, ← List.length_eq_zero_iff]
  simp only [List.length_append] at bounded ⊢
  refine ⟨fun same => ?_, fun empty => by rw [empty, Nat.add_zero]⟩
  have near : edit.edited.length + edit.line.length - edit.edited.length < usizeRange := by
    have := sized.smaller
    omega
  have := RingBuffer.eq_of_mod_eq (Nat.le_add_right _ _) near same.symm
  omega

/-- The last character of an unfinished line is withdrawn. -/
theorem back {c : UInt8} (fits : Fits input taken ⟨edited, line ++ [c]⟩) :
    Fits input.back taken ⟨edited, line⟩ := by
  have held : RingBuffer.Holds inputBuf usizeRange (LineDiscipline.ring input) taken
      ((edited ++ line) ++ [c]) := by
    rw [List.append_assoc]
    exact fits.ring
  have left : taken.length ≤ (edited ++ line).length := by
    have shorter : taken.length ≤ edited.length := fits.committed.length_le
    rw [List.length_append]
    omega
  have w : input.back.w = edited.length % usizeRange := by
    obtain ⟨buf, r, w, e⟩ := input
    exact (back_w buf r w e).trans fits.w
  refine ⟨?_, fits.committed, w, fun inside => fits.line (List.mem_append_left _ inside)⟩
  rw [ring_back]
  exact held.unpush sized left

/-- The last character of an unfinished line. -/
theorem last_char {c : UInt8} (fits : Fits input taken ⟨edited, line ++ [c]⟩) :
    input.buf ((input.e + usizeRange - 1) % usizeRange % inputBuf) = c := by
  have held : RingBuffer.Holds inputBuf usizeRange (LineDiscipline.ring input) taken
      ((edited ++ line) ++ [c]) := by
    rw [List.append_assoc]
    exact fits.ring
  have left : taken.length ≤ (edited ++ line).length := by
    have shorter : taken.length ≤ edited.length := fits.committed.length_le
    rw [List.length_append]
    omega
  exact held.back_eq sized left

/-- `C('U')` withdraws the unfinished line. -/
theorem eraseLine (fits : Fits input taken ⟨edited, line⟩) {rounds : Nat}
    (enough : line.length ≤ rounds) : Fits (input.eraseLine rounds) taken ⟨edited, []⟩ := by
  induction rounds generalizing input line with
  | zero =>
    obtain rfl := List.length_eq_zero_iff.mp (Nat.le_zero.mp enough)
    exact fits
  | succ rounds ih =>
    rw [Input.eraseLine]
    rcases List.eq_nil_or_concat line with rfl | ⟨init, c, rfl⟩
    · rw [if_neg (fun going => going.1 (fits.e_eq_w.mpr rfl))]
      exact fits
    · rw [List.concat_eq_append] at fits enough
      have unfinished : input.e ≠ input.w := fun same => by simpa using fits.e_eq_w.mp same
      have other : c ≠ newline := fun same => fits.line (by simp [same])
      rw [if_pos ⟨unfinished, by rwa [fits.last_char]⟩]
      exact ih fits.back (by simpa using enough)

/-- `0x7f` withdraws a character. -/
theorem erase (fits : Fits input taken ⟨edited, line⟩) :
    Fits (if input.e ≠ input.w then input.back else input) taken ⟨edited, line.dropLast⟩ := by
  rcases List.eq_nil_or_concat line with rfl | ⟨init, c, rfl⟩
  · rw [if_neg (not_not.mpr (fits.e_eq_w.mpr rfl))]
    exact fits
  · rw [List.concat_eq_append] at fits ⊢
    have unfinished : input.e ≠ input.w := fun same => by simpa using fits.e_eq_w.mp same
    rw [if_pos unfinished, List.dropLast_concat]
    exact fits.back

/-- `input.e-input.r<INPUT_BUF` tells whether there is room. -/
theorem room (fits : Fits input taken edit) :
    (input.e + usizeRange - input.r) % usizeRange < inputBuf ↔
      edit.edited.length + edit.line.length < taken.length + inputBuf := by
  have first : input.r = taken.length % usizeRange := fits.ring.first
  have last : input.e = (edit.edited ++ edit.line).length % usizeRange := fits.ring.last
  have bounded := fits.ring.bounded
  have shorter := fits.committed.length_le
  rw [List.length_append] at last bounded
  rw [first, last]
  unfold usizeRange inputBuf at *
  omega

/-- An ordinary character. -/
theorem put (fits : Fits input taken edit) {c : UInt8} (there : c ≠ 0)
    (ordinary : c ≠ ctrlU ∧ c ≠ delete) :
    Fits (input.put c).1 taken (edit.type taken.length c) := by
  obtain ⟨edited, line⟩ := edit
  rw [Edit.type, if_neg ordinary.1, if_neg ordinary.2, Input.put]
  by_cases free : edited.length + line.length < taken.length + inputBuf
  · rw [if_pos free, if_pos ⟨there, fits.room.mpr free⟩]
    generalize (if c = carriageReturn then newline else c) = char
    have pushed := fits.ring.push sized (by rwa [List.length_append]) char
    rw [List.append_assoc] at pushed
    obtain ⟨buf, r, w, e⟩ := input
    have full : (e + 1) % usizeRange = (r + inputBuf) % usizeRange ↔
        edited.length + (line ++ [char]).length = taken.length + inputBuf := by
      rw [← List.length_append]
      exact pushed.full_iff sized
    dsimp only
    simp only [full]
    split
    · refine ⟨?_, fits.committed.trans (List.prefix_append _ _), ?_, List.not_mem_nil⟩
      · rw [List.append_nil]
        exact pushed
      · exact pushed.last
    · rename_i unfinished
      refine ⟨pushed, fits.committed, fits.w, fun inside => ?_⟩
      obtain before | here := List.mem_append.mp inside
      · exact fits.line before
      · exact unfinished (.inl (List.mem_singleton.mp here).symm)
  · rw [if_neg free, if_neg (fun both => free (fits.room.mp both.2))]
    exact fits

/-- A character of `console_intr` does to the buffer what it does to the edited input. -/
theorem type (fits : Fits input taken edit) {c : UInt8} (there : c ≠ 0) :
    Fits (input.type c).1 taken (edit.type taken.length c) := by
  by_cases kill : c = ctrlU
  · obtain ⟨edited, line⟩ := edit
    have short : line.length ≤ usizeRange := by
      have bounded := fits.ring.bounded
      have shorter : taken.length ≤ edited.length := fits.committed.length_le
      have smaller := sized.smaller
      rw [List.length_append] at bounded
      dsimp only at bounded
      omega
    rw [Input.type, if_pos kill, Edit.type, if_pos kill]
    exact fits.eraseLine short
  · by_cases rubout : c = delete
    · rw [Input.type, if_neg kill, if_pos rubout, Edit.type, if_neg kill, if_pos rubout]
      exact fits.erase
    · rw [Input.type, if_neg kill, if_neg rubout]
      exact fits.put there ⟨kill, rubout⟩

/-- There is something to read just when the read index is not at the write index. -/
theorem r_eq_w (fits : Fits input taken edit) : input.r = input.w ↔ taken = edit.edited := by
  have first : input.r = taken.length % usizeRange := fits.ring.first
  have bounded := fits.ring.bounded
  have shorter := fits.committed.length_le
  have smaller := sized.smaller
  rw [List.length_append] at bounded
  rw [first, fits.w]
  refine ⟨fun same => fits.committed.eq_of_length ?_, fun same => by rw [same]⟩
  exact RingBuffer.eq_of_mod_eq shorter (by omega) same

/-- The next character is taken. -/
theorem take (fits : Fits input taken edit) (more : input.r ≠ input.w) :
    ∃ c, input.buf (input.r % inputBuf) = c ∧ edit.edited[taken.length]? = some c ∧
      Fits { input with r := (input.r + 1) % usizeRange } (taken ++ [c]) edit := by
  have different : taken ≠ edit.edited := fun same => more (fits.r_eq_w.mpr same)
  obtain ⟨rest, split⟩ := fits.committed
  cases rest with
  | nil => exact absurd (by rw [← split, List.append_nil]) different
  | cons c rest =>
    have here : edit.edited[taken.length]? = some c := by rw [← split]; simp
    obtain ⟨inside, -⟩ := List.getElem?_eq_some_iff.mp here
    have inRing : (edit.edited ++ edit.line)[taken.length]? = some c := by
      rw [List.getElem?_append_left inside, here]
    have next : (LineDiscipline.ring input).front inputBuf = c := fits.ring.front_eq sized inRing
    have popped := fits.ring.pop sized (List.getElem?_eq_some_iff.mp inRing).1
    rw [next] at popped
    exact ⟨c, next, here, popped, ⟨rest, by rw [← split]; simp⟩, fits.w, fits.line⟩

end Fits

/-! ## Reads -/

/-- What a call has returned, of the edited input from `start` on: nothing, for the `C('D')` there,
which is gone; or what comes next, up to a newline, up to its size or up to a `C('D')`, which is
left. -/
def ReadAt (edited : List UInt8) (start : Nat) (read : Read) : Prop :=
  read.bytes = [] ∧ edited[start]? = some ctrlD ∨
    read.bytes ≠ [] ∧ read.bytes <+: edited.drop start ∧ ctrlD ∉ read.bytes ∧
      newline ∉ read.bytes.dropLast ∧ read.bytes.length ≤ read.size ∧
      (read.bytes.length = read.size ∨ read.bytes.getLast? = some newline ∨
        edited[start + read.bytes.length]? = some ctrlD)

/-- What a call has got that has not returned. -/
structure Pending (edited : List UInt8) (start : Nat) (read : Read) : Prop where
  next : read.bytes <+: edited.drop start
  noEnd : ctrlD ∉ read.bytes
  noLine : newline ∉ read.bytes
  fits : read.bytes.length ≤ read.size
  positive : 1 ≤ read.size

/-- The calls have returned the edited input from `start` on, one after the other. -/
def Delivered (edited : List UInt8) : (start : Nat) → List Read → Prop
  | _, [] => True
  | start, read :: rest => ReadAt edited start read ∧ Delivered edited (start + read.used) rest

section Reads

variable {edited more got : List UInt8} {start size : Nat} {read : Read} {reads : List Read}

/-- What is there stays when more is typed. -/
theorem getElem?_mono (grows : edited <+: more) {index : Nat} {c : UInt8}
    (there : edited[index]? = some c) : more[index]? = some c := by
  obtain ⟨rest, rfl⟩ := grows
  rw [List.getElem?_append_left (List.getElem?_eq_some_iff.mp there).1, there]

theorem ReadAt.mono (grows : edited <+: more) (done : ReadAt edited start read) :
    ReadAt more start read := by
  obtain ⟨nothing, there⟩ | ⟨something, next, noEnd, noLine, short, ends⟩ := done
  · exact .inl ⟨nothing, getElem?_mono grows there⟩
  · refine .inr ⟨something, next.trans (grows.drop start), noEnd, noLine, short, ?_⟩
    exact ends.imp_right (Or.imp_right (getElem?_mono grows))

theorem Pending.mono (grows : edited <+: more) (pending : Pending edited start read) :
    Pending more start read :=
  { pending with next := pending.next.trans (grows.drop start) }

theorem Delivered.mono (grows : edited <+: more) (done : Delivered edited start reads) :
    Delivered more start reads := by
  induction reads generalizing start with
  | nil => trivial
  | cons read rest ih => exact ⟨done.1.mono grows, ih done.2⟩

/-- One more call has returned. -/
theorem Delivered.snoc (done : Delivered edited start reads)
    (last : ReadAt edited (start + used reads) read) :
    Delivered edited start (reads ++ [read]) := by
  induction reads generalizing start with
  | nil => exact ⟨last, trivial⟩
  | cons first rest ih =>
    refine ⟨done.1, ih done.2 ?_⟩
    rwa [Nat.add_assoc]

/-- What comes next, after what comes first. -/
theorem prefix_snoc {c : UInt8} (first : got <+: edited.drop start)
    (next : edited[start + got.length]? = some c) : got ++ [c] <+: edited.drop start := by
  obtain ⟨rest, split⟩ := first
  rw [← List.getElem?_drop, ← split, List.getElem?_append_right (Nat.le_refl _),
    Nat.sub_self] at next
  cases rest with
  | nil => contradiction
  | cons head tail =>
    obtain rfl : head = c := by simpa using next
    exact ⟨tail, by rw [← split]; simp⟩

/-- A stretch of `console_read`. -/
theorem Fits.readStretch {input : Input} {taken : List UInt8} {edit : Edit} {n : Nat}
    (fits : Fits input taken edit) (pending : Pending edit.edited start ⟨size, got⟩)
    (place : taken.length = start + got.length) (left : n + got.length = size) :
    match LineDiscipline.readStretch size n got input with
    | (.returned bytes, input') => ∃ taken', Fits input' taken' edit ∧
        ReadAt edit.edited start ⟨size, bytes⟩ ∧
        taken'.length = start + Read.used ⟨size, bytes⟩
    | (.waits got', input') => ∃ taken', Fits input' taken' edit ∧
        Pending edit.edited start ⟨size, got'⟩ ∧ taken'.length = start + got'.length := by
  induction n generalizing got input taken with
  | zero =>
    have full : got.length = size := by omega
    have positive : 1 ≤ size := pending.positive
    refine ⟨taken, fits, .inr ⟨?_, pending.next, pending.noEnd, fun inside => ?_, pending.fits,
      .inl full⟩, ?_⟩
    · rintro rfl
      simp at full
      omega
    · exact pending.noLine (List.mem_of_mem_dropLast inside)
    · rw [place, Read.used]
      dsimp only
      omega
  | succ n ih =>
    rw [LineDiscipline.readStretch]
    by_cases empty : input.r = input.w
    · rw [if_pos empty]
      exact ⟨taken, fits, pending, place⟩
    · obtain ⟨c, char, here, after⟩ := fits.take empty
      rw [if_neg empty]
      dsimp only
      rw [char]
      rw [place] at here
      by_cases eof : c = ctrlD
      · subst eof
        rw [if_pos rfl]
        by_cases pushBack : n + 1 < size
        · rw [if_pos pushBack]
          refine ⟨taken, fits, .inr ⟨?_, pending.next, pending.noEnd, fun inside => ?_,
            pending.fits, .inr (.inr here)⟩, ?_⟩
          · rintro rfl
            simp at left
            omega
          · exact pending.noLine (List.mem_of_mem_dropLast inside)
          · rw [place, Read.used]
            dsimp only
            omega
        · rw [if_neg pushBack]
          obtain rfl : got = [] := List.length_eq_zero_iff.mp (by omega)
          exact ⟨_, after, .inl ⟨rfl, here⟩, by simp [place, Read.used]⟩
      · rw [if_neg eof]
        have next := prefix_snoc pending.next here
        have noEnd : ctrlD ∉ got ++ [c] := by
          simpa [eq_comm, eof] using pending.noEnd
        by_cases ends : c = newline
        · rw [if_pos ends]
          refine ⟨_, after, .inr ⟨by simp, next, noEnd, ?_, ?_, .inr (.inl (by simp [ends]))⟩, ?_⟩
          · rw [List.dropLast_concat]
            exact pending.noLine
          · simp only [List.length_append, List.length_singleton]
            omega
          · simp only [Read.used, List.length_append, List.length_singleton, place]
            omega
        · rw [if_neg ends]
          have longer : (got ++ [c]).length = got.length + 1 := by simp
          refine ih after ⟨next, noEnd, ?_, ?_, pending.positive⟩ ?_ (by omega)
          · simpa [eq_comm, ends] using pending.noLine
          · dsimp only
            omega
          · rw [List.length_append, List.length_singleton, place]
            omega

/-- What a call has taken of the input is what it has returned, apart from a `C('D')`. -/
theorem ReadAt.taken (done : ReadAt edited start read) :
    ((edited.drop start).take read.used).filter (· ≠ ctrlD) = read.bytes ∧
      ((edited.drop start).take read.used).count ctrlD = if read.bytes = [] then 1 else 0 := by
  obtain ⟨nothing, there⟩ | ⟨something, next, noEnd, -⟩ := done
  · have one : (edited.drop start).take read.used = [ctrlD] := by
      rw [Read.used, nothing, List.length_nil, Nat.max_eq_left (Nat.zero_le 1),
        List.take_one, List.head?_drop, there]
      rfl
    rw [one, nothing]
    decide
  · have all : (edited.drop start).take read.used = read.bytes := by
      have nonzero : 1 ≤ read.bytes.length := List.length_pos_iff.mpr something
      rw [Read.used, Nat.max_eq_right nonzero]
      exact (List.prefix_iff_eq_take.mp next).symm
    rw [all, if_neg something, List.count_eq_zero.mpr noEnd, List.filter_eq_self]
    refine ⟨fun c inside => ?_, rfl⟩
    have other : c ≠ ctrlD := fun same => noEnd (same ▸ inside)
    simpa using other

/-- What the calls have taken of the input is what they have returned, apart from the `C('D')`s, of
which there are as many as calls that have returned nothing. -/
theorem Delivered.taken (done : Delivered edited start reads) :
    ((edited.drop start).take (used reads)).filter (· ≠ ctrlD) = reads.flatMap (·.bytes) ∧
      ((edited.drop start).take (used reads)).count ctrlD =
        reads.countP (·.bytes = []) := by
  induction reads generalizing start with
  | nil => simp [used]
  | cons read rest ih =>
    obtain ⟨first, count⟩ := done.1.taken
    obtain ⟨later, laterCount⟩ := ih done.2
    have parts : (edited.drop start).take (used (read :: rest)) =
        (edited.drop start).take read.used ++
          (edited.drop (start + read.used)).take (used rest) := by
      rw [used, List.map_cons, List.sum_cons, List.take_add, List.drop_drop]
      rfl
    rw [parts, List.filter_append, List.count_append, first, count, later, laterCount,
      List.flatMap_cons, List.countP_cons]
    simp only [decide_eq_true_eq]
    exact ⟨trivial, Nat.add_comm _ _⟩

end Reads

/-! ## Runs -/

/-- What holds between two steps. -/
structure Inv (s : State) : Prop where
  buffer : ∃ taken, Fits s.input taken s.edit ∧ taken.length = s.taken
  delivered : Delivered s.edit.edited 0 s.returned
  pending : ∀ read, s.reading = some read → Pending s.edit.edited (used s.returned) read

/-- Typing makes the edited input longer. -/
theorem Edit.type_grows (edit : Edit) (taken : Nat) (c : UInt8) :
    edit.edited <+: (edit.type taken c).edited := by
  unfold Edit.type
  split
  · exact List.prefix_refl _
  · split
    · exact List.prefix_refl _
    · split
      · dsimp only
        generalize (if c = carriageReturn then newline else c) = char
        split
        · exact List.prefix_append _ _
        · exact List.prefix_refl _
      · exact List.prefix_refl _

namespace Inv

variable {s s' : State}

/-- A character. -/
theorem char (inv : Inv s) {c : UInt8} (there : c ≠ 0) :
    Inv { s with input := (s.input.type c).1, edit := s.edit.type s.taken c } := by
  obtain ⟨taken, fits, count⟩ := inv.buffer
  have grows := s.edit.type_grows s.taken c
  refine ⟨⟨taken, ?_, count⟩, inv.delivered.mono grows, fun read reading =>
    (inv.pending read reading).mono grows⟩
  rw [← count]
  exact fits.type there

/-- A stretch of a call, from the beginning or after a wait. -/
theorem goOn (inv : Inv s) {read : Read} (idle : s.reading = none ∧ read.bytes = [] ∨
      s.reading = some read)
    (pending : Pending s.edit.edited (used s.returned) read) :
    Inv (s.goOn read.size
      (readStretch read.size (read.size - read.bytes.length) read.bytes s.input)) := by
  obtain ⟨taken, fits, count⟩ := inv.buffer
  have place : taken.length = used s.returned + read.bytes.length := by
    rw [count, State.taken]
    obtain ⟨reading, bytes⟩ | reading := idle
    · rw [reading, bytes]
      rfl
    · rw [reading]
      rfl
  have stretch := fits.readStretch pending place (Nat.sub_add_cancel pending.fits)
  match result : readStretch read.size (read.size - read.bytes.length) read.bytes s.input with
  | (.returned bytes, input) =>
    rw [result] at stretch
    obtain ⟨taken', fits', readAt, length⟩ := stretch
    refine ⟨⟨taken', fits', ?_⟩, inv.delivered.snoc ?_, fun _ impossible => ?_⟩
    · rw [length]
      simp [State.taken, State.goOn, used]
    · rwa [Nat.zero_add]
    · contradiction
  | (.waits got, input) =>
    rw [result] at stretch
    obtain ⟨taken', fits', pending', length⟩ := stretch
    refine ⟨⟨taken', fits', length⟩, inv.delivered, fun waiting same => ?_⟩
    obtain rfl := Option.some.inj same
    exact pending'

/-- Every step that is allowed. -/
theorem step {act : Act} (inv : Inv s) (allowed : Allowed s act)
    (taken : machine.step s act = some s') : Inv s' := by
  cases act with
  | char c =>
    obtain rfl := Option.some.inj taken
    refine inv.char ?_
    rintro rfl
    exact absurd allowed.1 (by decide)
  | read n =>
    simp only [machine, Option.ite_none_right_eq_some, Option.some.injEq] at taken
    obtain ⟨idle, rfl⟩ := taken
    have pending : Pending s.edit.edited (used s.returned) ⟨n, []⟩ :=
      ⟨List.nil_prefix, List.not_mem_nil, List.not_mem_nil, Nat.zero_le _, allowed⟩
    exact inv.goOn (.inl ⟨idle, rfl⟩) pending
  | resume =>
    simp only [machine, Option.map_eq_some_iff] at taken
    obtain ⟨read, reading, rfl⟩ := taken
    exact inv.goOn (.inr reading) (inv.pending read reading)

end Inv

end OsLab.Kernel.LineDiscipline
