import OsLab.Kernel.Paging

/-!
# The pages of a heap

The addresses of the pages and of the words of a heap section, which starts at a page boundary and
stays below the end of the user's half. At the end are the memory and the heap that samples start
from.
-/
namespace OsLab.Kernel.HeapPages

open OsLab.Lib OsLab.Aarch64 OsLab.Fs OsLab.Kernel.Paging

/-- The address of a page of the section. -/
def pageAddr (begin : UInt64) (page : Nat) : UInt64 := begin + 4096 * UInt64.ofNat page

/-! ## Addresses -/

section Addresses

variable {n : Nat} {begin : UInt64}

/-- The address of a page as a number. -/
theorem toNat_pageAddr (within : begin.toNat + 4096 * n ≤ 2 ^ 48) {page : Nat}
    (inside : page < n) : (pageAddr begin page).toNat = begin.toNat + 4096 * page := by
  have small : page < 2 ^ 64 := by omega
  rw [pageAddr, UInt64.toNat_add, UInt64.toNat_mul, UInt64.toNat_ofNat_of_lt' small]
  change (begin.toNat + 4096 * page % 2 ^ 64) % 2 ^ 64 = _
  omega

/-- The word at an index of a page. -/
def wordAddr (begin : UInt64) (page : Nat) (index : UInt64) : UInt64 :=
  pageAddr begin page + 8 * index

/-- The address of a word as a number. -/
theorem toNat_wordAddr (within : begin.toNat + 4096 * n ≤ 2 ^ 48) {page : Nat} {index : UInt64}
    (inside : page < n) (small : index < 512) :
    (wordAddr begin page index).toNat = begin.toNat + 4096 * page + 8 * index.toNat := by
  rw [wordAddr, UInt64.toNat_add, toNat_offset small, toNat_pageAddr within inside]
  replace small : index.toNat < 512 := UInt64.lt_iff_toNat_lt.mp small
  omega

/-- Different pages of the section are different pages. -/
theorem samePage_pageAddr (aligned : begin.toNat % 4096 = 0)
    (within : begin.toNat + 4096 * n ≤ 2 ^ 48) {page other : Nat} (inside : page < n)
    (inside' : other < n) (same : SamePage (pageAddr begin page) (pageAddr begin other)) :
    page = other := by
  rw [samePage_iff, toNat_pageAddr within inside, toNat_pageAddr within inside'] at same
  omega

/-- The words of a page are in the page. -/
theorem samePage_wordAddr (aligned : begin.toNat % 4096 = 0)
    (within : begin.toNat + 4096 * n ≤ 2 ^ 48) {page : Nat} {index : UInt64} (inside : page < n)
    (small : index < 512) : SamePage (wordAddr begin page index) (pageAddr begin page) := by
  rw [samePage_iff, toNat_wordAddr within inside small, toNat_pageAddr within inside]
  replace small : index.toNat < 512 := UInt64.lt_iff_toNat_lt.mp small
  omega

/-- The place of a word in its page. -/
theorem wordAddr_and (aligned : begin.toNat % 4096 = 0)
    (within : begin.toNat + 4096 * n ≤ 2 ^ 48) {page : Nat} {index : UInt64} (inside : page < n)
    (small : index < 512) : wordAddr begin page index &&& 0xFF8 = 8 * index := by
  have value := toNat_wordAddr within inside small
  have offset := toNat_offset small
  replace small : index.toNat < 512 := UInt64.lt_iff_toNat_lt.mp small
  have low : (wordAddr begin page index).toNat &&& (2 ^ 12 - 1) = index.toNat <<< 3 := by
    rw [Nat.and_two_pow_sub_one_eq_mod, value, Nat.shiftLeft_eq]
    omega
  have mask : (0xFF8 : UInt64).toNat = (2 ^ 12 - 1) &&& ((2 ^ 9 - 1) <<< 3) := rfl
  rw [← UInt64.toNat_inj, UInt64.toNat_and, mask, ← Nat.and_assoc, low,
    ← Nat.shiftLeft_and_distrib, Nat.and_two_pow_sub_one_eq_mod, Nat.mod_eq_of_lt small, offset,
    Nat.shiftLeft_eq]
  omega

end Addresses

/-! ## A memory to start from -/

/-- Memory in which each word is its own address, with pages for the tables, one for the heap, and
enough others. -/
def memory : Mem where
  word addr := addr
  pages := [0xffff000000201000, 0xffff000000202000, 0xffff000000203000, 0xffff000000204000,
    0xffff000000205000] ++ (List.range 1100).map (0xffff000000206000 + 4096 * UInt64.ofNat ·)
  ref _ := 0
  allocPageCnt := 0
  pagenum := 1105

/-- A heap of one page that was not used yet. -/
def emptyHeap (pgdir : Pt.State) : State :=
  { pgdir, sec := ⟨stHeap, 0, 4096⟩, zeroPage := 0xffff000000200000, inuse := fun _ => false,
    disk := fun _ => Bytes.zero }

/-- The pages of `memory` are pages of the kernel, and no two are the same. -/
theorem memory_pages : (∀ page ∈ memory.pages, KernelPage page) ∧ memory.pages.Nodup := by
  refine ⟨by decide +kernel, ?_⟩
  have numbers : memory.pages =
      (List.range 1105).map (0xffff000000201000 + 4096 * UInt64.ofNat ·) := by
    decide +kernel
  rw [numbers]
  refine List.nodup_range.map_on fun one member other member' same => ?_
  rw [List.mem_range] at member member'
  have small : one < 2 ^ 64 := by omega
  have small' : other < 2 ^ 64 := by omega
  have equal := congrArg UInt64.toNat ((UInt64.add_right_inj _).mp same)
  rw [UInt64.toNat_mul, UInt64.toNat_mul, UInt64.toNat_ofNat_of_lt' small,
    UInt64.toNat_ofNat_of_lt' small'] at equal
  change 4096 * one % 2 ^ 64 = 4096 * other % 2 ^ 64 at equal
  omega

end OsLab.Kernel.HeapPages
