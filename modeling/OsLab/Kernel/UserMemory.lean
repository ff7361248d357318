import OsLab.Kernel.AddressSpace

/-!
# Bytes of an address space

An address space is a map from addresses to bytes, with nothing where no page is mapped. `copyout`
of `src/kernel/pt.c` writes a range of it, through pages that it takes where there are none yet. The
pages of the range are mapped nowhere else; other pages may be shared.
-/
namespace OsLab.Kernel.Pt

open OsLab.Lib OsLab.Aarch64 OsLab.Kernel.Paging OsLab.Kernel.Vm

/-- The byte at an address, if there is a page. -/
def State.view (s : State) (a : Nat) : Option UInt8 :=
  (s.frame (UInt64.ofNat a)).map fun page => (pageBytes s.mem.word page).get (a % 4096)

/-! ## Pages of bytes -/

section Poke

variable {word : UInt64 → UInt64} {page other addr n a : UInt64} {byte : UInt64 → UInt8}

/-- The bytes of a word of memory once some were replaced. -/
theorem digit_pokeBytes {j : Nat} (inside : j < 8) :
    digit (pokeBytes word addr n byte a).toNat j =
      if a + UInt64.ofNat j - addr < n then byte (a + UInt64.ofNat j - addr)
      else digit (word a).toNat j := by
  have narrow : ∀ bytes, Lib.word 8 bytes < UInt64.size := fun bytes => word_lt 8 bytes
  rw [pokeBytes, UInt64.toNat_ofNat_of_lt' (narrow _), digit_word inside]

/-- The bytes of a page once some were replaced, in this page or in another one. -/
theorem pageBytes_pokeBytes {off k : Nat} (kernel : KernelPage page) (kernel' : KernelPage other)
    (fits : off + n.toNat ≤ 4096) (inside : k < 4096) :
    (pageBytes (pokeBytes word (page + UInt64.ofNat off) n byte) other).get k =
      if other = page ∧ off ≤ k ∧ k < off + n.toNat then byte (UInt64.ofNat (k - off))
      else (pageBytes word other).get k := by
  have aligned := kernel.aligned
  have aligned' := kernel'.aligned
  have bound := page.toNat_lt
  have bound' := other.toNat_lt
  have start : (page + UInt64.ofNat off).toNat = (page.toNat + off) % 2 ^ 64 := by
    rw [UInt64.toNat_add, UInt64.toNat_ofNat']
    omega
  have place : (other + 8 * UInt64.ofNat (k / 8) + UInt64.ofNat (k % 8)).toNat =
      other.toNat + k := by
    rw [UInt64.toNat_add, UInt64.toNat_add, UInt64.toNat_mul, UInt64.toNat_ofNat',
      UInt64.toNat_ofNat']
    change ((other.toNat + 8 * (k / 8 % 2 ^ 64) % 2 ^ 64) % 2 ^ 64 + k % 8 % 2 ^ 64) % 2 ^ 64 = _
    omega
  obtain ⟨distance, shape⟩ : ∃ distance, distance = other + 8 * UInt64.ofNat (k / 8) +
    UInt64.ofNat (k % 8) - (page + UInt64.ofNat off) := ⟨_, rfl⟩
  have value : distance.toNat =
      (2 ^ 64 - (page.toNat + off) % 2 ^ 64 + (other.toNat + k)) % 2 ^ 64 := by
    rw [shape, UInt64.toNat_sub, start, place]
  have size : k < pageSize := inside
  rw [pageBytes, pageBytes, Bytes.get_ofFn size, Bytes.get_ofFn size,
    digit_pokeBytes (Nat.mod_lt _ (by decide)), ← shape]
  by_cases here : other = page
  · subst here
    by_cases low : off ≤ k
    · have offset : distance = UInt64.ofNat (k - off) := by
        rw [← UInt64.toNat_inj, value, UInt64.toNat_ofNat_of_lt' (show k - off < 2 ^ 64 by omega)]
        omega
      have below : distance < n ↔ k < off + n.toNat := by
        rw [UInt64.lt_iff_toNat_lt, offset,
          UInt64.toNat_ofNat_of_lt' (show k - off < 2 ^ 64 by omega)]
        omega
      by_cases high : k < off + n.toNat
      · rw [if_pos (below.mpr high), if_pos ⟨rfl, low, high⟩, offset]
      · rw [if_neg (fun less => high (below.mp less)), if_neg (fun all => high all.2.2)]
    · have far : ¬ distance < n := by
        rw [UInt64.lt_iff_toNat_lt, value]
        omega
      rw [if_neg far, if_neg (fun all => low all.2.1)]
  · have different : other.toNat ≠ page.toNat := fun same => here (UInt64.toNat_inj.mp same)
    have far : ¬ distance < n := by
      rw [UInt64.lt_iff_toNat_lt, value]
      omega
    rw [if_neg far, if_neg (fun all => here all.1)]

/-- Pages with the same bytes have the same words. -/
theorem words_of_pageBytes {word' : UInt64 → UInt64}
    (same : pageBytes word' page = pageBytes word page) {index : UInt64} (small : index < 512) :
    word' (page + 8 * index) = word (page + 8 * index) := by
  have shown := congrArg (bytesWord · (8 * index)) same
  simpa only [bytesWord_pageBytes small] using shown

/-- The words of other pages stay. -/
theorem pokeBytes_outside {off : Nat} (kernel : KernelPage page) (kernel' : KernelPage other)
    (fits : off + n.toNat ≤ 4096) (different : other ≠ page) {index : UInt64}
    (small : index < 512) :
    pokeBytes word (page + UInt64.ofNat off) n byte (other + 8 * index) =
      word (other + 8 * index) := by
  refine words_of_pageBytes (Bytes.ext fun k inside => ?_) small
  rw [pageBytes_pokeBytes kernel kernel' fits inside, if_neg fun all => different all.1]

end Poke

/-! ## Address spaces that may be written -/

/-- Entries were made or filled, those of the pages `touched` with pages of memory; entries that
were valid stay. -/
structure Filled (touched : UInt64 → Prop) (s s' : State) : Prop where
  kept : ∀ va value, s.entry va = some value → value &&& pteValid ≠ 0 ∨ ¬ touched va →
    s'.entry va = some value
  made : ∀ va value, s'.entry va = some value → s.entry va = some value ∨ value = 0 ∨
    touched va ∧ ∃ page, KernelPage page ∧ value = k2p page ||| pteUserData

namespace Filled

variable {touched touched' : UInt64 → Prop} {s s' s'' : State}

/-- The entries are the same. -/
theorem of_same (same : ∀ va, s'.entry va = s.entry va) : Filled touched s s' :=
  ⟨fun va _ shown _ => (same va).trans shown, fun va _ shown => .inl ((same va).symm.trans shown)⟩

/-- Entries are filled one after the other. -/
theorem trans (first : Filled touched s s') (second : Filled touched s' s'') :
    Filled touched s s'' := by
  refine ⟨fun va value shown stays => ?_, fun va value shown => ?_⟩
  · exact second.kept va value (first.kept va value shown stays) stays
  · rcases second.made va value shown with before | new
    · exact first.made va value before
    · exact .inr new

/-- More pages may have been filled. -/
theorem mono (filled : Filled touched s s') (wider : ∀ va, touched va → touched' va) :
    Filled touched' s s' := by
  refine ⟨fun va value shown stays => ?_, fun va value shown => ?_⟩
  · exact filled.kept va value shown (stays.imp_right fun apart here => apart (wider va here))
  · exact (filled.made va value shown).imp_right (.imp_right (.imp_left (wider va)))

/-- Pages that were not filled are where they were. -/
theorem frame (filled : Filled touched s s') {va : UInt64} (apart : ¬ touched va) :
    s'.frame va = s.frame va := by
  cases before : s.entry va with
  | some value => rw [frame_of_entry before, frame_of_entry (filled.kept va value before (.inr apart))]
  | none =>
    rw [State.frame, State.frame, before, Option.bind_none]
    cases after : s'.entry va with
    | none => rfl
    | some value =>
      rcases filled.made va value after with shown | rfl | ⟨here, -⟩
      · rw [before] at shown
        exact absurd shown (by simp)
      · rfl
      · exact absurd here apart

end Filled

section Views

variable {lone : UInt64 → Prop} {pool : List UInt64} {s s' : State} {va page : UInt64} {a : Nat}

/-- A byte stays where its page stays. -/
theorem view_congr (frame : s'.frame (UInt64.ofNat a) = s.frame (UInt64.ofNat a))
    (words : ∀ page, s.frame (UInt64.ofNat a) = some page → ∀ index, index < 512 →
      s'.mem.word (page + 8 * index) = s.mem.word (page + 8 * index)) :
    s'.view a = s.view a := by
  rw [State.view, State.view, frame]
  cases found : s.frame (UInt64.ofNat a) with
  | none => rfl
  | some page => rw [Option.map_some, Option.map_some, pageBytes_congr (words page found)]

/-- There is a byte where there is a page. -/
theorem view_some (found : s.frame (UInt64.ofNat a) = some page) :
    s.view a = some ((pageBytes s.mem.word page).get (a % 4096)) := by
  rw [State.view, found, Option.map_some]

/-- There is a page where there is a byte. -/
theorem frame_of_view {b : UInt8} (shown : s.view a = some b) :
    ∃ page, s.frame (UInt64.ofNat a) = some page := by
  obtain ⟨page, found, -⟩ := Option.map_eq_some_iff.mp shown
  exact ⟨page, found⟩

/-- Addresses of one page, as numbers. -/
theorem samePage_ofNat {b : Nat} (low : a < 2 ^ 48) (low' : b < 2 ^ 48) :
    SamePage (UInt64.ofNat b) (UInt64.ofNat a) ↔ a / 4096 = b / 4096 := by
  rw [samePage_iff, UInt64.toNat_ofNat_of_lt' (show b < 2 ^ 64 by omega),
    UInt64.toNat_ofNat_of_lt' (show a < 2 ^ 64 by omega)]
  omega

/-- The words of one page change, that of the address `b`. -/
theorem Mapped.change (mapped : Mapped lone pool s) {b : Nat} (low : b < 2 ^ 48)
    (alone : lone (UInt64.ofNat b)) (found : s.frame (UInt64.ofNat b) = some page)
    (word : UInt64 → UInt64)
    (outside : ∀ other index, KernelPage other → index < 512 → other ≠ page →
      word (other + 8 * index) = s.mem.word (other + 8 * index)) (s' : State)
    (shape : s' = { s with mem := { s.mem with word } }) :
    Mapped lone pool s' ∧ (∀ va, s'.entry va = s.entry va) ∧ ∀ a < 2 ^ 48, s'.view a =
      if a / 4096 = b / 4096 then some ((pageBytes word page).get (a % 4096)) else s.view a := by
  obtain ⟨-, table, -⟩ := mapped.frames _ page found
  have agree : ∀ table ∈ s.tables, ∀ index, index < 512 →
      word (table + 8 * index) = s.mem.word (table + 8 * index) := by
    intro other member index small
    refine outside other index (mapped.tables.kernel other member) small ?_
    rintro rfl
    exact table member
  obtain ⟨mapped', same⟩ := mapped.words agree
  have entries := mapped.tables.entry_of_agree s' (by rw [shape]) (by rw [shape])
    (by rw [shape]; exact agree)
  rw [← shape] at mapped' same
  refine ⟨mapped', fun va => (entries va).2, fun a low' => ?_⟩
  by_cases close : a / 4096 = b / 4096
  · have held : s'.frame (UInt64.ofNat a) = some page := by
      rw [same, ← frame_congr ((samePage_ofNat low' low).mpr close), found]
    rw [if_pos close, view_some held, shape]
  · rw [if_neg close]
    refine view_congr (same _) fun other held index small => ?_
    rw [shape]
    refine outside other index (frame_kernel held) small ?_
    rintro rfl
    exact close ((samePage_ofNat low' low).mp (mapped.apart _ _ other alone found held))

/-- Bytes of one page are replaced, those from `b` on. -/
theorem Mapped.poke (mapped : Mapped lone pool s) {b : Nat} (low : b < 2 ^ 48)
    (alone : lone (UInt64.ofNat b)) (found : s.frame (UInt64.ofNat b) = some page)
    {n : UInt64} (fits : b % 4096 + n.toNat ≤ 4096) (byte : UInt64 → UInt8) (s' : State)
    (shape : s' = { s with mem := { s.mem with
      word := pokeBytes s.mem.word (page + UInt64.ofNat (b % 4096)) n byte } }) :
    Mapped lone pool s' ∧ (∀ va, s'.entry va = s.entry va) ∧ ∀ a < 2 ^ 48, s'.view a =
      if b ≤ a ∧ a < b + n.toNat then some (byte (UInt64.ofNat (a - b))) else s.view a := by
  have kernel := frame_kernel found
  obtain ⟨mapped', same, views⟩ := mapped.change low alone found _
    (fun other index kernel' small different =>
      pokeBytes_outside kernel kernel' fits different small) s' shape
  refine ⟨mapped', same, fun a low' => ?_⟩
  rw [views a low', pageBytes_pokeBytes kernel kernel fits (Nat.mod_lt _ (by decide))]
  by_cases close : a / 4096 = b / 4096
  · have held : s.frame (UInt64.ofNat a) = some page := by
      rw [← frame_congr ((samePage_ofNat low' low).mpr close), found]
    rw [if_pos close, view_some held]
    by_cases inside : b ≤ a ∧ a < b + n.toNat
    · rw [if_pos inside, if_pos ⟨rfl, by omega, by omega⟩,
        show a % 4096 - b % 4096 = a - b by omega]
    · rw [if_neg inside, if_neg (by omega)]
  · rw [if_neg close, if_neg (by omega)]

/-- `get_pte` makes tables, and nothing that a process could see. -/
theorem Mapped.getPte_filled (mapped : Mapped lone pool s) {result : Option UInt64}
    (ran : Pt.getPte s va true = some (result, s')) (touched : UInt64 → Prop) :
    Filled touched s s' ∧ ∀ a, s'.view a = s.view a := by
  obtain ⟨-, -, -, mapped', frames, -, words, -⟩ := mapped.getPte ran
  obtain ⟨-, taken, -, -, -, -, grown, -⟩ := mapped.tables.getPte_true mapped.fresh ran
  refine ⟨⟨fun va value shown _ => grown.entry_kept shown, fun va value shown =>
    (grown.entry shown).elim (fun zero => .inr (.inl zero)) .inl⟩, fun a => ?_⟩
  refine view_congr (frames _) fun page found index small => ?_
  exact words page index (frame_kernel found) small
    (mapped'.frames _ page ((frames _).trans found)).2.1

/-- A page is taken by `kalloc_page` and mapped where there was none. -/
theorem Mapped.fill (mapped : Mapped lone pool s) {pte : UInt64} {rest : List UInt64}
    (located : s.location va = some pte) (more : s.mem.pages = page :: rest)
    (absent : s.frame va = none) (s' : State)
    (shape : s' = ({ s with mem := s.mem.kallocPage.2 } : State).store pte
      (k2p page ||| pteUserData)) :
    Mapped lone pool s' ∧ Filled (SamePage va) s s' ∧ s'.frame va = some page ∧
      (∀ a, s.view a ≠ none → s'.view a = s.view a) ∧ s'.mem.pages = rest := by
  obtain ⟨taken, spare⟩ := mapped.take more
  have located' : ({ s with mem := s.mem.kallocPage.2 } : State).location va = some pte := located
  obtain ⟨mapped', here, elsewhere⟩ := taken.install located' spare
  rw [← shape] at mapped' here elsewhere
  refine ⟨mapped', ⟨fun va' value shown stays => ?_, fun va' value shown => ?_⟩,
    here va (.refl va), fun a shown => ?_, ?_⟩
  · have apart : ¬ SamePage va va' := by
      intro close
      rcases stays with valid | apart
      · rw [frame_congr close, frame_of_entry shown, mappedPage, if_neg valid] at absent
        exact absurd absent (by simp)
      · exact apart close
    rw [shape, taken.tables.entry_store_other located' _ apart]
    exact shown
  · by_cases close : SamePage va va'
    · rw [← entry_congr close, shape, taken.tables.entry_store_same located'] at shown
      exact .inr (.inr ⟨close, page, spare.kernel, (Option.some.inj shown).symm⟩)
    · rw [shape, taken.tables.entry_store_other located' _ close] at shown
      exact .inl shown
  · have apart : ¬ SamePage va (UInt64.ofNat a) := by
      intro close
      rw [State.view, ← frame_congr close, absent] at shown
      exact shown rfl
    refine view_congr (elsewhere _ apart) fun held found index small => ?_
    have table : held ∉ s.tables := (mapped.frames _ held found).2.1
    rw [shape]
    exact taken.tables.store_frame located' _ (frame_kernel found) table small
  · rw [shape]
    change s.mem.kallocPage.2.pages = rest
    simp [Mem.kallocPage, more]

end Views

/-! ## `copyout` -/

section Copyout

variable {lone : UInt64 → Prop} {pool : List UInt64} {s s' s'' : State} {va page : UInt64}
  {lo mid hi : Nat} {content : Nat → UInt8}

/-- The page that `copyout` writes to. -/
theorem Mapped.copyoutPage (mapped : Mapped lone pool s) (va : UInt64)
    (enough : 4 ≤ s.mem.pages.length) :
    ∃ page s', Vm.copyoutPage s va = some (some page, s') ∧ Mapped lone pool s' ∧
      Filled (SamePage va) s s' ∧ s'.frame va = some page ∧
      (∀ a, s.view a ≠ none → s'.view a = s.view a) ∧
      s.mem.pages.length ≤ s'.mem.pages.length + 4 := by
  obtain ⟨pte, s₁, got⟩ := mapped.tables.getPte_total va
    (fun page member => (mapped.fresh.kernel page member).ne_zero) (by omega)
  obtain ⟨_, shown, located, mapped₁, -, -, -, length⟩ := mapped.getPte got
  obtain ⟨filled₁, views⟩ := mapped.getPte_filled got (SamePage va)
  obtain rfl := Option.some.inj shown
  have entry : s₁.entry va = some (s₁.mem.word pte) := by rw [State.entry, located, Option.map_some]
  by_cases valid : s₁.mem.word pte &&& pteValid = 0
  · cases more : s₁.mem.pages with
    | nil =>
      rw [more, List.length_nil] at length
      omega
    | cons page rest =>
      have kernel := mapped₁.fresh.kernel page (by simp [more])
      have absent : s₁.frame va = none := by rw [frame_of_entry entry, mappedPage, if_pos valid]
      obtain ⟨mapped₂, filled₂, here, kept, pages⟩ := mapped₁.fill located more absent _ rfl
      have taken : s₁.mem.kallocPage.1 = page := by simp [Mem.kallocPage, more]
      refine ⟨page, _, ?_, mapped₂, filled₁.trans filled₂, here, fun a there => ?_, ?_⟩
      · simp only [Vm.copyoutPage, got, Option.bind_some, Option.map_some, valid, ne_eq,
          not_true_eq_false, if_false, taken, kernel.ne_zero]
      · rw [kept a (by rw [views]; exact there), views]
      · rw [pages]
        rw [more, List.length_cons] at length
        omega
  · refine ⟨p2k (pteAddress (s₁.mem.word pte)), s₁, ?_, mapped₁, filled₁, ?_, fun a _ => views a,
      by omega⟩
    · simp only [Vm.copyoutPage, got, Option.bind_some, Option.map_some, valid, ne_eq,
        not_false_eq_true, if_true]
    · rw [frame_of_entry entry, mappedPage, if_neg valid]

/-- Addresses given as numbers of 64 bits. -/
theorem ofNat_toNat_mod (va : UInt64) : va % 4096 = UInt64.ofNat (va.toNat % 4096) := by
  rw [← UInt64.toNat_inj, UInt64.toNat_mod,
    UInt64.toNat_ofNat_of_lt' (show va.toNat % 4096 < 2 ^ 64 by omega)]
  rfl

/-- How much a turn of `copyout` copies: up to the end of the page, or of the range. -/
theorem toNat_piece {len n : UInt64} (shape : n = min (4096 - va % 4096) len) :
    n.toNat = min (4096 - va.toNat % 4096) len.toNat := by
  have offset : (va % 4096).toNat = va.toNat % 4096 := UInt64.toNat_mod va 4096
  have rest : (4096 - va % 4096).toNat = 4096 - va.toNat % 4096 := by
    rw [UInt64.toNat_sub_of_le _ _ (UInt64.le_iff_toNat_le.mpr ?_), offset]
    · rfl
    · rw [offset]
      change va.toNat % 4096 ≤ 4096
      omega
  have least : min (4096 - va % 4096) len =
      if 4096 - va % 4096 ≤ len then 4096 - va % 4096 else len := rfl
  rw [shape, least]
  split
  next below =>
    rw [UInt64.le_iff_toNat_le] at below
    omega
  next above =>
    rw [UInt64.le_iff_toNat_le] at above
    omega

/-- The number of pages that a range has a part of. -/
def pagesFor (lo size : Nat) : Nat := if size = 0 then 0 else (lo % 4096 + size + 4095) / 4096

/-- The page of an address has a part of a range. -/
def Overlaps (lo hi : Nat) (va : UInt64) : Prop :=
  ∃ a, lo ≤ a ∧ a < hi ∧ SamePage va (UInt64.ofNat a)

/-- The bytes from `lo` to `hi` have been copied into an address space: the bytes that there were
besides stay, and so do the entries, but for new pages where the range needs them. -/
structure Copied (lone : UInt64 → Prop) (pool : List UInt64) (s s' : State) (lo hi : Nat)
    (content : Nat → UInt8) : Prop where
  mapped : Mapped lone pool s'
  inside : ∀ a, lo ≤ a → a < hi → s'.view a = some (content a)
  outside : ∀ a, a < 2 ^ 48 → ¬ (lo ≤ a ∧ a < hi) → s.view a ≠ none → s'.view a = s.view a
  filled : Filled (Overlaps lo hi) s s'

/-- Nothing is copied. -/
theorem Copied.refl (mapped : Mapped lone pool s) (content : Nat → UInt8) :
    Copied lone pool s s lo lo content :=
  ⟨mapped, fun _ low high => absurd low (by omega), fun _ _ _ _ => rfl, .of_same fun _ => rfl⟩

/-- One range is copied after the other. -/
theorem Copied.trans (first : Copied lone pool s s' lo mid content)
    (second : Copied lone pool s' s'' mid hi content) (ordered : lo ≤ mid ∧ mid ≤ hi)
    (top : hi ≤ 2 ^ 48) : Copied lone pool s s'' lo hi content := by
  refine ⟨second.mapped, fun a low high => ?_, fun a narrow apart shown => ?_,
    (first.filled.mono ?_).trans (second.filled.mono ?_)⟩
  · by_cases later : mid ≤ a
    · exact second.inside a later high
    · have here := first.inside a low (by omega)
      rw [second.outside a (by omega) (by omega) (by rw [here]; simp), here]
  · have here := first.outside a narrow (by omega) shown
    rw [second.outside a narrow (by omega) (by rw [here]; exact shown), here]
  · rintro va ⟨a, low, high, close⟩
    exact ⟨a, low, by omega, close⟩
  · rintro va ⟨a, low, high, close⟩
    exact ⟨a, by omega, high, close⟩

/-- What would be copied besides does not matter. -/
theorem Copied.congr {content' : Nat → UInt8} (copied : Copied lone pool s s' lo hi content)
    (same : ∀ a, lo ≤ a → a < hi → content a = content' a) : Copied lone pool s s' lo hi content' :=
  { copied with
    inside := fun a low high => (copied.inside a low high).trans
      (congrArg some (same a low high)) }

/-- The loop of `copyout` copies a range, if there are free pages. -/
theorem Mapped.copyoutLoop (source : UInt64 → UInt8) {turns : Nat} {len : UInt64} (done : UInt64)
    (mapped : Mapped lone pool s) (turn : len.toNat ≤ turns)
    (top : va.toNat + len.toNat ≤ 2 ^ 48)
    (alone : ∀ a, va.toNat ≤ a → a < va.toNat + len.toNat → lone (UInt64.ofNat a))
    (enough : 4 * pagesFor va.toNat len.toNat ≤ s.mem.pages.length) :
    ∃ s', Vm.copyoutLoop source turns va done len s = some (true, s') ∧
      Copied lone pool s s' va.toNat (va.toNat + len.toNat)
        (fun a => source (done + UInt64.ofNat (a - va.toNat))) ∧
      s.mem.pages.length ≤ s'.mem.pages.length + 4 * pagesFor va.toNat len.toNat := by
  -- By induction on the turns: one turn goes to the end of the page, or of the range.
  induction turns generalizing s va done len with
  | zero =>
    obtain zero : len.toNat = 0 := by omega
    exact ⟨s, rfl, by rw [zero]; exact .refl mapped _, by omega⟩
  | succ turns ih =>
    by_cases none : len = 0
    · subst none
      exact ⟨s, rfl, .refl mapped _, by omega⟩
    · have positive : len.toNat ≠ 0 := fun zero => none (UInt64.toNat_inj.mp zero)
      rw [pagesFor, if_neg positive] at enough ⊢
      obtain ⟨page, s₁, found, mapped₁, filled₁, frame, kept, length⟩ :=
        mapped.copyoutPage va (by omega)
      obtain ⟨n, shape⟩ : ∃ n, n = min (4096 - va % 4096) len := ⟨_, rfl⟩
      have size := toNat_piece shape
      have number : UInt64.ofNat va.toNat = va := UInt64.ofNat_toNat
      rw [← number] at frame
      obtain ⟨mapped₂, entries, views⟩ := mapped₁.poke (show va.toNat < 2 ^ 48 by omega)
        (alone va.toNat (Nat.le_refl _) (by omega)) frame
        (show va.toNat % 4096 + n.toNat ≤ 4096 by omega) (fun i => source (done + i)) _ rfl
      have place : (va + n).toNat = va.toNat + n.toNat := by
        rw [UInt64.toNat_add]
        omega
      have left : (len - n).toNat = len.toNat - n.toNat := by
        rw [UInt64.toNat_sub_of_le _ _ (UInt64.le_iff_toNat_le.mpr (by omega))]
      have fewer : 4 * pagesFor (va + n).toNat (len - n).toNat + 4 ≤
          4 * ((va.toNat % 4096 + len.toNat + 4095) / 4096) := by
        rw [pagesFor, place, left]
        split <;> omega
      obtain ⟨s₃, ran, copied, length'⟩ : ∃ s₃, Vm.copyoutLoop source turns (va + n) (done + n)
          (len - n) _ = some (true, s₃) ∧ _ :=
        ih (done + n) mapped₂ (show (len - n).toNat ≤ turns by omega)
          (show (va + n).toNat + (len - n).toNat ≤ 2 ^ 48 by omega)
          (fun a low high => alone a (by omega) (by omega))
          (show 4 * pagesFor (va + n).toNat (len - n).toNat ≤ s₁.mem.pages.length by omega)
      refine ⟨s₃, ?_, ?_, ?_⟩
      · rw [Vm.copyoutLoop, if_neg none, found, Option.bind_some]
        dsimp only
        rw [← shape, ofNat_toNat_mod]
        exact ran
      · rw [place, left, show va.toNat + n.toNat + (len.toNat - n.toNat) =
          va.toNat + len.toNat by omega] at copied
        refine Copied.trans ⟨mapped₂, fun a low high => ?_, fun a narrow apart there => ?_,
          (filled₁.mono fun va' close => ?_).trans (.of_same entries)⟩
          (copied.congr fun a low high => ?_) ⟨Nat.le_add_right _ _, by omega⟩ top
        · rw [views a (by omega), if_pos ⟨low, high⟩]
        · rw [views a narrow, if_neg apart, kept a there]
        · exact ⟨va.toNat, Nat.le_refl _, by omega, number.symm ▸ close.symm⟩
        · have later : UInt64.ofNat (a - va.toNat) =
              n + UInt64.ofNat (a - (va.toNat + n.toNat)) := by
            rw [← UInt64.toNat_inj, UInt64.toNat_add, UInt64.toNat_ofNat', UInt64.toNat_ofNat']
            omega
          rw [later, UInt64.add_assoc]
      · change s₁.mem.pages.length ≤ _ at length'
        omega

/-- A range below `USERTOP` is not refused. -/
theorem copyout_eq (source : UInt64 → UInt8) {len : UInt64}
    (top : va.toNat + len.toNat ≤ 2 ^ 48) :
    Vm.copyout s va source len = Vm.copyoutLoop source len.toNat va 0 len s := by
  have below : ¬ usertop < va + len := by
    rw [UInt64.lt_iff_toNat_lt, UInt64.toNat_add]
    change ¬ 2 ^ 48 < _
    omega
  rw [Vm.copyout, if_neg below]

/-- `copyout` copies a range below `USERTOP`, if there are free pages. -/
theorem Mapped.copyout (mapped : Mapped lone pool s) (va : UInt64) (source : UInt64 → UInt8)
    (len : UInt64) (top : va.toNat + len.toNat ≤ 2 ^ 48)
    (alone : ∀ a, va.toNat ≤ a → a < va.toNat + len.toNat → lone (UInt64.ofNat a))
    (enough : 4 * pagesFor va.toNat len.toNat ≤ s.mem.pages.length) :
    ∃ s', Vm.copyout s va source len = some (true, s') ∧
      Copied lone pool s s' va.toNat (va.toNat + len.toNat)
        (fun a => source (UInt64.ofNat (a - va.toNat))) ∧
      s.mem.pages.length ≤ s'.mem.pages.length + 4 * pagesFor va.toNat len.toNat := by
  obtain ⟨s', ran, copied, length⟩ := mapped.copyoutLoop source 0 (Nat.le_refl _) top alone enough
  rw [copyout_eq source top]
  exact ⟨s', ran, by simpa only [UInt64.zero_add] using copied, length⟩

end Copyout

end OsLab.Kernel.Pt
