import Mathlib.Data.Nat.Bitwise
import OsLab.Lib.Bytes

/-!
# Pages and page-table entries

The parts of `src/aarch64/mmu.h` that the page table, the page allocator and the message queues
use: the size of a page, the two readings of an address, and the fields of virtual addresses and
of page-table entries. All of it is 64-bit arithmetic; what the masks and shifts select is stated
once, in numbers, and used in this form afterwards.
-/
namespace OsLab.Aarch64

open OsLab.Lib

/-- Whether all addresses in a list have a property is decided along the list, never by going
through all words there are. -/
instance (priority := high) decidableForallWords (P : UInt64 → Prop) [DecidablePred P]
    (words : List UInt64) : Decidable (∀ word ∈ words, P word) :=
  List.decidableBAll P words

/-- The same where there is one address at most. -/
instance (priority := high) decidableForallWord (P : UInt64 → Prop) [DecidablePred P] :
    (word : Option UInt64) → Decidable (∀ found ∈ word, P found)
  | none => isTrue fun _ found => absurd found (by simp)
  | some word => decidable_of_iff (P word) (by simp)

/-- `PAGE_SIZE`. -/
def pageSize : Nat := 4096

/-- The contents of one page. -/
abbrev Page : Type := Bytes pageSize

/-- `PTE_VALID`. -/
def pteValid : UInt64 := 0x1

/-- `PTE_TABLE`. -/
def pteTable : UInt64 := 0x3

/-- `PTE_PAGE`. -/
def ptePage : UInt64 := 0x3

/-- `PTE_NORMAL`. -/
def pteNormal : UInt64 := 0x604

/-- `PTE_USER`. -/
def pteUser : UInt64 := 0x40

/-- `PTE_RO`. -/
def pteRo : UInt64 := 0x80

/-- `PTE_USER_DATA`. -/
def pteUserData : UInt64 := 0x647

/-- `USERTOP`. -/
def usertop : UInt64 := 0x0001000000000000

/-- `KSPACE_MASK`. -/
def kspaceMask : UInt64 := 0xffff000000000000

/-- `K2P`: the physical address of a kernel address. -/
def k2p (addr : UInt64) : UInt64 := addr - kspaceMask

/-- `P2K`: the kernel address of a physical address. -/
def p2k (addr : UInt64) : UInt64 := addr + kspaceMask

/-- `PAGE_BASE`. -/
def pageBase (addr : UInt64) : UInt64 := addr &&& ~~~4095

/-- `PTE_ADDRESS`. -/
def pteAddress (pte : UInt64) : UInt64 := pte &&& ~~~0xFFFF000000000FFF

/-- `PTE_FLAGS`. -/
def pteFlags (pte : UInt64) : UInt64 := pte &&& 0xFFFF000000000FFF

/-- `VA_PART0`. -/
def vaPart0 (va : UInt64) : UInt64 := (va &&& 0xFF8000000000) >>> 39

/-- `VA_PART1`. -/
def vaPart1 (va : UInt64) : UInt64 := (va &&& 0x7FC0000000) >>> 30

/-- `VA_PART2`. -/
def vaPart2 (va : UInt64) : UInt64 := (va &&& 0x3FE00000) >>> 21

/-- `VA_PART3`. -/
def vaPart3 (va : UInt64) : UInt64 := (va &&& 0x1FF000) >>> 12

/-- The distance of a word from the start of its page. -/
theorem toNat_offset {index : UInt64} (small : index < 512) :
    (8 * index).toNat = 8 * index.toNat := by
  replace small : index.toNat < 512 := UInt64.lt_iff_toNat_lt.mp small
  have eight : (8 : UInt64).toNat = 8 := rfl
  rw [UInt64.toNat_mul, eight]
  omega

/-- Nine bits of a word, selected by a mask and moved down. -/
theorem toNat_part {va mask shift : UInt64} {bit : Nat} (shifts : shift.toNat % 64 = bit)
    (nine : mask.toNat >>> bit = 2 ^ 9 - 1) :
    ((va &&& mask) >>> shift).toNat = va.toNat / 2 ^ bit % 512 := by
  rw [UInt64.toNat_shiftRight, UInt64.toNat_and, shifts, Nat.shiftRight_and_distrib, nine,
    Nat.and_two_pow_sub_one_eq_mod, Nat.shiftRight_eq_div_pow]

/-- The first index of a walk. -/
theorem toNat_vaPart0 (va : UInt64) : (vaPart0 va).toNat = va.toNat / 2 ^ 39 % 512 :=
  toNat_part rfl rfl

/-- The second index of a walk. -/
theorem toNat_vaPart1 (va : UInt64) : (vaPart1 va).toNat = va.toNat / 2 ^ 30 % 512 :=
  toNat_part rfl rfl

/-- The third index of a walk. -/
theorem toNat_vaPart2 (va : UInt64) : (vaPart2 va).toNat = va.toNat / 2 ^ 21 % 512 :=
  toNat_part rfl rfl

/-- The fourth index of a walk. -/
theorem toNat_vaPart3 (va : UInt64) : (vaPart3 va).toNat = va.toNat / 2 ^ 12 % 512 :=
  toNat_part rfl rfl

/-- The page of an address starts at the multiple of its size below. -/
theorem toNat_pageBase (addr : UInt64) : (pageBase addr).toNat = addr.toNat / 4096 * 4096 := by
  have mask : (~~~4095 : UInt64).toNat = 2 ^ 64 - (2 ^ 12 - 1 + 1) := by decide
  rw [pageBase, UInt64.toNat_and]
  refine Nat.eq_of_testBit_eq fun bit => ?_
  have ones : (~~~4095 : UInt64).toNat.testBit bit = (decide (bit < 64) && !decide (bit < 12)) := by
    rw [mask, Nat.testBit_two_pow_sub_succ (by omega), Nat.testBit_two_pow_sub_one]
  rw [Nat.testBit_and, ones, show (4096 : Nat) = 2 ^ 12 from rfl, Nat.testBit_mul_two_pow,
    Nat.testBit_div_two_pow]
  by_cases low : bit < 12
  · simp [low, show ¬ 12 ≤ bit by omega]
  · by_cases high : bit < 64
    · simp [low, high, show bit - 12 + 12 = bit by omega, show 12 ≤ bit by omega]
    · have clear : addr.toNat.testBit bit = false := Nat.testBit_lt_two_pow
        (lt_of_lt_of_le addr.toNat_lt (Nat.pow_le_pow_right (by omega) (by omega)))
      simp [low, high, clear, show bit - 12 + 12 = bit by omega]

/-- The addresses agree on bits 12 to 47, which name the page. -/
def SamePage (va va' : UInt64) : Prop :=
  ∀ bit, 12 ≤ bit → bit ≤ 47 → va.toNat.testBit bit = va'.toNat.testBit bit

/-- An address is on its page. -/
theorem SamePage.refl (va : UInt64) : SamePage va va := fun _ _ _ => rfl

/-- Being on one page goes both ways. -/
theorem SamePage.symm {va va' : UInt64} (same : SamePage va va') : SamePage va' va :=
  fun bit low high => (same bit low high).symm

/-- Being on one page with a third address. -/
theorem SamePage.trans {va va' va'' : UInt64} (first : SamePage va va')
    (second : SamePage va' va'') : SamePage va va'' := fun bit low high =>
  (first bit low high).trans (second bit low high)

/-- Agreeing on bits 12 to 47 is agreeing on the number of the page. -/
theorem samePage_iff {va va' : UInt64} :
    SamePage va va' ↔ va.toNat / 2 ^ 12 % 2 ^ 36 = va'.toNat / 2 ^ 12 % 2 ^ 36 := by
  constructor
  · intro same
    refine Nat.eq_of_testBit_eq fun bit => ?_
    simp only [Nat.testBit_mod_two_pow, Nat.testBit_div_two_pow]
    by_cases low : bit < 36
    · rw [same (bit + 12) (by omega) (by omega)]
    · simp [low]
  · intro same bit low high
    have shown := congrArg (Nat.testBit · (bit - 12)) same
    simp only [Nat.testBit_mod_two_pow, Nat.testBit_div_two_pow, Nat.sub_add_cancel low,
      show bit - 12 < 36 by omega, decide_true, Bool.true_and] at shown
    exact shown

/-- Addresses of one page have the same four indices, and no others have. -/
theorem samePage_iff_parts {va va' : UInt64} :
    SamePage va va' ↔ vaPart0 va = vaPart0 va' ∧ vaPart1 va = vaPart1 va' ∧
      vaPart2 va = vaPart2 va' ∧ vaPart3 va = vaPart3 va' := by
  simp only [samePage_iff, ← UInt64.toNat_inj, toNat_vaPart0, toNat_vaPart1, toNat_vaPart2,
    toNat_vaPart3]
  omega

/-- The address is that of a page in the kernel's half: its physical address is a number of whole
pages and has 48 bits. -/
def KernelPage (page : UInt64) : Prop := pteFlags (k2p page) = 0

instance (page : UInt64) : Decidable (KernelPage page) :=
  inferInstanceAs (Decidable (pteFlags (k2p page) = 0))

/-- Masking takes away exactly what was added below the mask. -/
theorem and_not_or {high low mask : UInt64} (clear : high &&& mask = 0)
    (covered : low &&& mask = low) : (high ||| low) &&& ~~~mask = high := by
  refine UInt64.toBitVec_inj.mp (BitVec.eq_of_getLsbD_eq fun bit small => ?_)
  have clearBit := congrArg (fun word : UInt64 => word.toBitVec.getLsbD bit) clear
  have coveredBit := congrArg (fun word : UInt64 => word.toBitVec.getLsbD bit) covered
  simp only [UInt64.toBitVec_and, BitVec.getLsbD_and, UInt64.toBitVec_ofNat,
    BitVec.getLsbD_zero] at clearBit coveredBit
  simp only [UInt64.toBitVec_and, UInt64.toBitVec_or, UInt64.toBitVec_not, BitVec.getLsbD_and,
    BitVec.getLsbD_or, BitVec.getLsbD_not, small, decide_true, Bool.true_and]
  cases masked : mask.toBitVec.getLsbD bit <;> simp_all

/-- Bits that are clear above do not matter below. -/
theorem or_and {high low bits : UInt64} (clear : high &&& bits = 0) :
    (high ||| low) &&& bits = low &&& bits := by
  refine UInt64.toBitVec_inj.mp (BitVec.eq_of_getLsbD_eq fun bit _ => ?_)
  have clearBit := congrArg (fun word : UInt64 => word.toBitVec.getLsbD bit) clear
  simp only [UInt64.toBitVec_and, BitVec.getLsbD_and, UInt64.toBitVec_ofNat,
    BitVec.getLsbD_zero] at clearBit
  simp only [UInt64.toBitVec_and, UInt64.toBitVec_or, BitVec.getLsbD_and, BitVec.getLsbD_or]
  cases selected : bits.toBitVec.getLsbD bit <;> simp_all

namespace KernelPage

variable {page other : UInt64}

/-- The bits of the physical address that are not part of the number of its page are clear. -/
theorem and_flags (kernel : KernelPage page) {bits : UInt64}
    (flags : 0xFFFF000000000FFF &&& bits = bits) : k2p page &&& bits = 0 := by
  rw [← flags, ← UInt64.and_assoc, show k2p page &&& 0xFFFF000000000FFF = 0 from kernel,
    UInt64.zero_and]

/-- The flags of an entry for a page. -/
theorem entry_and (kernel : KernelPage page) (flags : UInt64) {bits : UInt64}
    (low : 0xFFFF000000000FFF &&& bits = bits) :
    (k2p page ||| flags) &&& bits = flags &&& bits :=
  or_and (kernel.and_flags low)

/-- The table that an entry for a page names is the page. -/
theorem tableEntry (kernel : KernelPage page) :
    p2k (pteAddress (k2p page ||| pteTable)) = page := by
  have kept : pteAddress (k2p page ||| pteTable) = k2p page := and_not_or kernel (by decide)
  rw [kept, p2k, k2p, UInt64.sub_add_cancel]

/-- A page starts at a multiple of its size. -/
theorem aligned (kernel : KernelPage page) : page.toNat % 4096 = 0 := by
  have low : k2p page &&& 0xFFF = 0 := kernel.and_flags (by decide)
  have number : (k2p page).toNat &&& (2 ^ 12 - 1) = 0 := congrArg UInt64.toNat low
  have mask : kspaceMask.toNat = 0xffff000000000000 := rfl
  rw [Nat.and_two_pow_sub_one_eq_mod, k2p, UInt64.toNat_sub] at number
  omega

/-- `NULL` is not a page of the kernel. -/
theorem ne_zero (kernel : KernelPage page) : page ≠ 0 := by
  rintro rfl
  revert kernel
  decide

/-- The word at an index of a page, as a number. -/
theorem toNat_slot (kernel : KernelPage page) {index : UInt64} (small : index < 512) :
    (page + 8 * index).toNat = page.toNat + 8 * index.toNat := by
  have aligned := kernel.aligned
  have bound := page.toNat_lt
  rw [UInt64.toNat_add, toNat_offset small]
  replace small : index.toNat < 512 := UInt64.lt_iff_toNat_lt.mp small
  omega

/-- The words of pages are told apart by their pages and their indices. -/
theorem slot_inj (kernel : KernelPage page) (kernel' : KernelPage other) {index index' : UInt64}
    (small : index < 512) (small' : index' < 512)
    (same : page + 8 * index = other + 8 * index') : page = other ∧ index = index' := by
  have equal := congrArg UInt64.toNat same
  rw [kernel.toNat_slot small, kernel'.toNat_slot small'] at equal
  have aligned := kernel.aligned
  have aligned' := kernel'.aligned
  replace small : index.toNat < 512 := UInt64.lt_iff_toNat_lt.mp small
  replace small' : index'.toNat < 512 := UInt64.lt_iff_toNat_lt.mp small'
  rw [← UInt64.toNat_inj, ← UInt64.toNat_inj]
  omega

/-- The page that an entry for a page of the process names. -/
theorem userEntry (kernel : KernelPage page) :
    p2k (pteAddress (k2p page ||| pteUserData)) = page := by
  have kept : pteAddress (k2p page ||| pteUserData) = k2p page := and_not_or kernel (by decide)
  rw [kept, p2k, k2p, UInt64.sub_add_cancel]

end KernelPage

end OsLab.Aarch64
