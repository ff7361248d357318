import OsLab.Kernel.FreePgdir
import OsLab.Kernel.Paging

/-!
# Address spaces

The functions that fill page tables with pages: `vm_copy`, `uvm_alloc` and `copyout` of
`src/kernel/pt.c`, and what `execve` does with them in `src/kernel/exec.c`. What `execve` reads from
the file into the pages, and the pointers to the arguments that it stores on the new stack, are left
out.
-/
namespace OsLab.Kernel.Vm

open OsLab.Lib OsLab.Aarch64 OsLab.Kernel.Pt

/-- `if (table[i] & PTE_VALID)` for each index of a table. -/
def forValid (table : UInt64) (body : UInt64 → UInt64 → State → Option State) (s : State) :
    Option State :=
  entryIndices.foldlM (fun s i =>
    let entry := s.mem.word (table + 8 * i)
    if entry &&& pteValid = 0 then some s else body i entry s) s

/-- `*get_pte(pgdir, va, true) = K2P(page) | PTE_USER_DATA`. -/
def mapPage (s : State) (va page : UInt64) : Option State :=
  (getPte s va true).bind fun (pte, s) => pte.map (s.store · (k2p page ||| pteUserData))

/-- The copy of one page in `vm_copy`; `none` is one of its ASSERTs. -/
def copyEntry (va entry : UInt64) (s : State) : Option State :=
  if entry &&& ptePage = 0 ∨ entry &&& pteUser = 0 ∨ entry &&& pteNormal = 0 then none
  else
    let (np, mem) := s.mem.kallocPage
    if np = 0 then none
    else
      let word := copyPage mem.word np (p2k (pteAddress entry))
      mapPage { s with mem := { mem with word } } va np

/-- A table that an entry of `vm_copy` names; `none` is its ASSERT. -/
def entryTable (entry : UInt64) : Option UInt64 :=
  if entry &&& pteTable = 0 then none else some (p2k (pteAddress entry))

/-- `vm_copy` of the page table at `pt`: the page table that is the copy. -/
def vmCopy (mem : Mem) (pt : UInt64) : Option State :=
  (initPgdir mem).bind <| forValid pt fun i entry s =>
    (entryTable entry).bind fun pgt1 => s |> forValid pgt1 fun i1 entry s =>
      (entryTable entry).bind fun pgt2 => s |> forValid pgt2 fun i2 entry s =>
        (entryTable entry).bind fun pgt3 => s |> forValid pgt3 fun i3 entry s =>
          copyEntry (i <<< 39 ||| i1 <<< 30 ||| i2 <<< 21 ||| i3 <<< 12) entry s

/-- The turn of the loop in `uvm_alloc`; `none` is its ASSERT. -/
def uvmPage (s : State) (a : UInt64) : Option State :=
  let (p, mem) := s.mem.kallocPage
  if p = 0 then none else mapPage { s with mem } a p

/-- A value of 64 bits as the result of a function of type `int`. -/
def asInt (value : UInt64) : UInt64 := value.toInt64.toInt32.toInt64.toUInt64

/-- `uvm_alloc`. -/
def uvmAlloc (s : State) (stksz oldsz newsz : UInt64) : Option (UInt64 × State) :=
  if stksz % 4096 ≠ 0 then none
  else
    let first := (oldsz + 4096 - 1) / 4096 * 4096
    ((List.range (Paging.turns first newsz)).foldlM
      (fun s i => uvmPage s (first + 4096 * UInt64.ofNat i)) s).map fun s => (asInt newsz, s)

/-- `n` bytes from `addr` on are replaced. -/
def pokeBytes (word : UInt64 → UInt64) (addr n : UInt64) (byte : UInt64 → UInt8) :
    UInt64 → UInt64 := fun a =>
  UInt64.ofNat (Lib.word 8 fun j =>
    let distance := a + UInt64.ofNat j - addr
    if distance < n then byte distance else digit (word a).toNat j)

/-- The page that `copyout` writes to, and its return for `kalloc_page` returning `NULL`. -/
def copyoutPage (s : State) (va : UInt64) : Option (Option UInt64 × State) :=
  (getPte s va true).bind fun (pte, s) => pte.map fun pte =>
    let entry := s.mem.word pte
    if entry &&& pteValid ≠ 0 then (some (p2k (pteAddress entry)), s)
    else
      let (page, mem) := s.mem.kallocPage
      if page = 0 then (none, { s with mem })
      else (some page, { s with mem }.store pte (k2p page ||| pteUserData))

/-- The loop of `copyout`, which turns at most `turns` times: whether it returned 0. The source is
what `p` points to, or zeros for `NULL`. -/
def copyoutLoop (source : UInt64 → UInt8) : Nat → UInt64 → UInt64 → UInt64 → State →
    Option (Bool × State)
  | 0, _, _, _, s => some (true, s)
  | turns + 1, va, done, len, s =>
    if len = 0 then some (true, s)
    else
      (copyoutPage s va).bind fun (page, s) =>
        match page with
        | none => some (false, s)
        | some page =>
          let pgoff := va % 4096
          let n := min (4096 - pgoff) len
          let word := pokeBytes s.mem.word (page + pgoff) n fun i => source (done + i)
          copyoutLoop source turns (va + n) (done + n) (len - n) { s with mem := { s.mem with word } }

/-- `copyout`: whether it returned 0. -/
def copyout (s : State) (va : UInt64) (source : UInt64 → UInt8) (len : UInt64) :
    Option (Bool × State) :=
  if usertop < va + len then some (false, s) else copyoutLoop source len.toNat va 0 len s

/-- `MAXARG`. -/
def maxarg : Nat := 10

/-- The bytes of a string, with zeros from its end on. -/
def stringBytes (string : List UInt8) (i : UInt64) : UInt8 := string.getD i.toNat 0

/-- Strings are copied to the stack one below the other, as far as there are fewer than `MAXARG`;
the results of `copyout` are not looked at. -/
def pushStrings (strings : List (List UInt8)) (sp : UInt64) (s : State) : Option (UInt64 × State) :=
  (strings.take maxarg).foldlM (fun (sp, s) string =>
    let size := UInt64.ofNat string.length + 1
    (copyout s (sp - size) (stringBytes string) size).map fun (_, s) => (sp - size, s)) (sp, s)

/-- The loop of `execve` over the program headers of type `PT_LOAD`, each with its `p_vaddr` and
`p_memsz`; `none` is one of its PANICs. -/
def loadSegments : List (UInt64 × UInt64) → Option UInt64 → State → Option State
  | [], _, s => some s
  | (vaddr, memsz) :: rest, sz, s =>
    if vaddr + memsz < vaddr then none
    else if sz = none ∧ vaddr % 4096 ≠ 0 then none
    else
      (uvmAlloc s 0 (sz.getD vaddr) (vaddr + memsz)).bind fun (sz, s) =>
        if sz = 0 then none else loadSegments rest (some sz) s

/-- The stack that `execve` makes. -/
def makeStack (argv envp : List (List UInt8)) (s : State) : Option State :=
  (pushStrings argv usertop s).bind fun (sp, s) =>
    (pushStrings envp sp s).bind fun (sp, s) =>
      let words := UInt64.ofNat ((argv.take maxarg).length + (envp.take maxarg).length + 4)
      let newsp := (sp - words * 8) / 16 * 16
      (copyout s newsp (fun _ => 0) (sp - newsp)).bind fun (_, s) =>
        let size := 10 * 4096
        let stksz := (usertop - newsp + size - 1) / size * size
        (copyout s (usertop - stksz) (fun _ => 0) (stksz - (usertop - newsp))).bind fun (_, s) =>
          if usertop - stksz < newsp then some s else none

/-- A program: the segments of a file that `execve` accepts, with the arguments. -/
structure Program where
  /-- The program headers of type `PT_LOAD`. -/
  segments : List (UInt64 × UInt64)
  argv : List (List UInt8)
  envp : List (List UInt8)

/-- `execve` of a program, or of a file that it refuses: the page table of the process after. -/
def execve (old : State) (program : Option Program) : Option State :=
  (initPgdir old.mem).bind fun new =>
    match program with
    | none => some { old with mem := (freePgdir new).mem }
    | some program =>
      (loadSegments program.segments none new).bind fun new =>
        (makeStack program.argv program.envp new).map fun new =>
          { new with mem := (freePgdir { old with mem := new.mem }).mem }

end OsLab.Kernel.Vm
