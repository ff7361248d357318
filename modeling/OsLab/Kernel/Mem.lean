import OsLab.Aarch64.Mmu
import Mathlib.Logic.Function.Basic

/-!
# Pages of memory

The page allocator of `src/kernel/mem.c`, over memory as the words at its addresses. Free pages
are on a queue that runs through their first words; a page in use has a reference count. Each
function runs without interruption here; how the queue behaves between CPUs is the subject of
the module on queues.
-/
namespace OsLab.Kernel

open OsLab.Aarch64

/-- Memory, and what the page allocator keeps about it. -/
structure Mem where
  /-- The word at an address. -/
  word : UInt64 → UInt64
  /-- The pages on the queue `pages`, next one first. -/
  pages : List UInt64
  /-- `refpage[i].ref.count`. -/
  ref : UInt64 → Int
  /-- `alloc_page_cnt.count`. -/
  allocPageCnt : Int
  pagenum : Int

/-- The words of the page at `page` are replaced, by what `content` has at their distance from
the start of the page. -/
def overwrite (word : UInt64 → UInt64) (page : UInt64) (content : UInt64 → UInt64) :
    UInt64 → UInt64 := fun addr =>
  if addr - page < 4096 then content (addr - page) else word addr

/-- `memset(page, 0, PAGE_SIZE)`. -/
def clearPage (word : UInt64 → UInt64) (page : UInt64) : UInt64 → UInt64 :=
  overwrite word page fun _ => 0

/-- `memmove(page, source, PAGE_SIZE)`. -/
def copyPage (word : UInt64 → UInt64) (page source : UInt64) : UInt64 → UInt64 :=
  overwrite word page fun offset => word (source + offset)

namespace Mem

/-- The index in `refpage` that belongs to a page. -/
def refIndex (page : UInt64) : UInt64 := k2p page / 4096

/-- `kalloc_page`: the page, with 0 for `NULL`, and the memory after. -/
def kallocPage (m : Mem) : UInt64 × Mem :=
  let page := m.pages.headD 0
  (page,
    { m with
      pages := m.pages.tail
      allocPageCnt := m.allocPageCnt + 1
      ref := Function.update m.ref (refIndex page) (m.ref (refIndex page) + 1) })

/-- `kfree_page`. -/
def kfreePage (m : Mem) (page : UInt64) : Mem :=
  let ref := Function.update m.ref (refIndex page) (m.ref (refIndex page) - 1)
  if ref (refIndex page) = 0 then
    { m with
      word := Function.update m.word page (m.pages.headD 0)
      pages := page :: m.pages
      ref
      allocPageCnt := m.allocPageCnt - 1 }
  else { m with ref }

/-- `left_page_cnt`, in 64 bits. -/
def leftPageCnt (m : Mem) : Nat := ((m.pagenum - m.allocPageCnt) % 2 ^ 64).toNat

/-- Addresses of different pages have different indices. -/
theorem refIndex_inj_of_aligned {page other : UInt64} (aligned : page.toNat % 4096 = 0)
    (aligned' : other.toNat % 4096 = 0) (same : refIndex page = refIndex other) :
    page = other := by
  have equal := congrArg UInt64.toNat same
  have mask : kspaceMask.toNat = 0xffff000000000000 := rfl
  have size : (4096 : UInt64).toNat = 4096 := rfl
  have bound := page.toNat_lt
  have bound' := other.toNat_lt
  simp only [refIndex, k2p, UInt64.toNat_div, UInt64.toNat_sub, mask, size] at equal
  rw [← UInt64.toNat_inj]
  omega

/-- Different pages have different indices. -/
theorem refIndex_inj {page other : UInt64} (kernel : KernelPage page) (kernel' : KernelPage other)
    (same : refIndex page = refIndex other) : page = other :=
  refIndex_inj_of_aligned kernel.aligned kernel'.aligned same

/-- A page that is referred to once goes back to the queue. -/
theorem kfreePage_last {m : Mem} {page : UInt64} (last : m.ref (refIndex page) = 1) :
    m.kfreePage page =
      { m with
        word := Function.update m.word page (m.pages.headD 0)
        pages := page :: m.pages
        ref := Function.update m.ref (refIndex page) 0
        allocPageCnt := m.allocPageCnt - 1 } := by
  simp only [kfreePage, last, sub_self, Function.update_self, if_true]

end Mem

section Overwrite

variable {word : UInt64 → UInt64} {page other index : UInt64} {content : UInt64 → UInt64}

/-- The words of the page. -/
theorem overwrite_inside (small : index < 512) :
    overwrite word page content (page + 8 * index) = content (8 * index) := by
  have offset : page + 8 * index - page = 8 * index := by
    rw [UInt64.add_comm, UInt64.add_sub_cancel]
  have inside : 8 * index < 4096 := by
    rw [UInt64.lt_iff_toNat_lt, toNat_offset small]
    have below : index.toNat < 512 := UInt64.lt_iff_toNat_lt.mp small
    change 8 * index.toNat < 4096
    omega
  rw [overwrite, offset, if_pos inside]

/-- The words of other pages. -/
theorem overwrite_outside (kernel : KernelPage page) (kernel' : KernelPage other)
    (small : index < 512) (different : other ≠ page) :
    overwrite word page content (other + 8 * index) = word (other + 8 * index) := by
  have value := kernel'.toNat_slot small
  have aligned := kernel.aligned
  have aligned' := kernel'.aligned
  have bound := page.toNat_lt
  have bound' := other.toNat_lt
  replace small : index.toNat < 512 := UInt64.lt_iff_toNat_lt.mp small
  have apart : other.toNat ≠ page.toNat := fun same => different (UInt64.toNat_inj.mp same)
  have outside : ¬ other + 8 * index - page < 4096 := by
    rw [UInt64.lt_iff_toNat_lt, UInt64.toNat_sub, value]
    change ¬ (2 ^ 64 - page.toNat + (other.toNat + 8 * index.toNat)) % 2 ^ 64 < 4096
    omega
  rw [overwrite, if_neg outside]

/-- The words of pages once one was copied. -/
theorem copyPage_word {source : UInt64} (kernel : KernelPage page) (kernel' : KernelPage other)
    (small : index < 512) : copyPage word page source (other + 8 * index) =
      if other = page then word (source + 8 * index) else word (other + 8 * index) := by
  by_cases here : other = page
  · rw [if_pos here, here, copyPage, overwrite_inside small]
  · rw [if_neg here, copyPage, overwrite_outside kernel kernel' small here]

end Overwrite

end OsLab.Kernel
