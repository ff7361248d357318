import OsLab.Kernel.SysfileRun

/-!
# Descriptors that name no file

The system calls that take a descriptor ask `fd2file` for the file, and all but `close` return where
there is none. `close` first stores through the table at an index that nobody has checked, and then
lets `fileclose` follow the null pointer.
-/
namespace OsLab.Kernel.Sysfile

open OsLab.Lib OsLab.Fs

/-- The system calls that take a descriptor. -/
inductive FdCall where
  | read (size : Int) (writeable : Bool)
  | write (buffer : List UInt8)
  | writev (iov : List (List UInt8))
  | dup
  | close
  | fstat (writeable : Bool)

/-- The code of a call. -/
def FdCall.program (sblock : SuperBlock) (this : Nat) (fd : Int) : FdCall → SysProg Int
  | .read size writeable => Sysfile.read sblock this fd size writeable
  | .write buffer => Sysfile.write sblock this fd buffer
  | .writev iov => Sysfile.writev sblock this fd iov
  | .dup => Sysfile.dup this fd
  | .close => Sysfile.close sblock this fd
  | .fstat writeable => Sysfile.fstat this fd writeable

/-- A descriptor of a process names no file: it is not an index of the table, or the slot is
empty. -/
def State.Invalid (s : State) (this : Nat) (fd : Int) : Prop :=
  fd < 0 ∨ (nofile : Int) ≤ fd ∨ s.openfiles this fd.toNat = none

/-- A request accesses `openfile` inside the table, or not at all. -/
def InTable : SysOp → Prop
  | .openfile _ fd | .setOpenfile _ fd _ => fd < nofile
  | .strayOpenfile _ _ => False
  | _ => True

instance (op : SysOp) : Decidable (InTable op) :=
  match op with
  | .openfile _ _ | .setOpenfile _ _ _ => inferInstanceAs (Decidable (_ < _))
  | .strayOpenfile _ _ => isFalse id
  | .inode _ | .beginOp | .endOp | .lockFtable | .unlockFtable | .loadFile _ | .setFile _ _
  | .kallocPipe | .loadPipe _ | .setPipe _ _ | .kfreePipe _ | .pipeRead _ _ | .pipeWrite _ _
  | .cwd _ | .setCwd _ _ | .createProc | .vmCopy | .retire _ => isTrue trivial

/-- The requests that access `openfile` inside the table, or not at all, are answered. -/
def State.serveInTable : Prog.Handler SysOp SysOp.Out State :=
  Prog.restrict (fun op _ => InTable op) State.serve

variable {sblock : SuperBlock} {this : Nat} {fd : Int} {s : State}

/-- Inside the table the slot is empty. -/
theorem State.Invalid.empty (invalid : s.Invalid this fd) (inside : ¬(fd < 0 ∨ fd ≥ nofile)) :
    s.openfiles this fd.toNat = none := by
  obtain negative | large | empty := invalid
  · exact absurd (.inl negative) inside
  · exact absurd (.inr large) inside
  · exact empty

/-- `fd2file` finds nothing, and does not look outside the table. -/
theorem fd2file_invalid (invalid : s.Invalid this fd) :
    (fd2file this fd).run State.serveInTable s = some (none, s) := by
  unfold fd2file
  split
  · rfl
  · rename_i inside
    have small : fd.toNat < nofile := by omega
    have empty := invalid.empty inside
    have answered : State.serveInTable (.openfile this fd.toNat) s = some (none, s) := by
      refine (if_pos small).trans ((if_pos small).trans ?_)
      rw [empty]
      rfl
    exact (Prog.run_request _ _ _).trans answered

/-- `close` of a descriptor that is no index of the table stores outside of it. -/
theorem close_stray (outside : fd < 0 ∨ fd ≥ nofile) :
    (close sblock this fd).stop State.serve s = some (.strayOpenfile this fd) := by
  simp only [close, fd2file, clearOpenfile, if_pos outside]
  rfl

/-- `close` of an empty slot follows a null pointer. -/
theorem close_empty (inside : ¬(fd < 0 ∨ fd ≥ nofile))
    (empty : s.openfiles this fd.toNat = none) :
    (close sblock this fd).stop State.serve s = some (.inode (.block .panic)) := by
  have found := Prog.run_of_restrict (fd2file_invalid (.inr (.inr empty)))
  have cleared : (clearOpenfile this fd).run State.serve s =
      some ((), s.setSlot this fd.toNat none) := by
    rw [clearOpenfile, if_neg inside]
    exact (Prog.run_request _ _ _).trans (if_pos (by omega))
  simp only [close, Prog.stop_bind, found, cleared]
  rfl

/-- `close` of a descriptor that names no file does not return. -/
theorem close_invalid (invalid : s.Invalid this fd) :
    (close sblock this fd).stop State.serve s ≠ none := by
  by_cases outside : fd < 0 ∨ fd ≥ nofile
  · simp [close_stray outside]
  · simp [close_empty outside (invalid.empty outside)]

/-- A call with a descriptor that names no file returns `-1` and changes nothing, and accesses
`openfile` only inside the table, exactly if it is not `close`. -/
theorem invalid_fd_harmless (sblock : SuperBlock) (this : Nat) (fd : Int) (s : State)
    (invalid : s.Invalid this fd) (call : FdCall) :
    call ≠ .close ↔ (call.program sblock this fd).run State.serve s = some (-1, s) ∧
      (call.program sblock this fd).run State.serveInTable s = some (-1, s) := by
  constructor
  · intro checked
    have returned : (call.program sblock this fd).run State.serveInTable s = some (-1, s) := by
      cases call with
      | close => exact absurd rfl checked
      | read | write | writev | dup | fstat =>
        simp only [FdCall.program, read, write, writev, dup, fstat, Prog.run_bind,
          fd2file_invalid invalid]
        rfl
    exact ⟨Prog.run_of_restrict returned, returned⟩
  · rintro ⟨returned, -⟩ rfl
    exact close_invalid invalid (Prog.stop_of_run returned)

/-- The first process has one open file, in its first slot. -/
def openRoot : List Act := [⟨1, .openat true [47] ⟨false, false, false⟩, zeroStack, [], [], []⟩]

/-- The state after that. -/
theorem openRoot_reach :
    ∃ s, (machine smallDisk (Booted smallDisk 0)).Reach Machine.Any s ∧
      s.openfiles 1 0 = some 0 ∧ s.openfiles 1 1 = none := by
  have shown : (((boot smallDisk zeroStack).run State.serve (.blank smallImage)).bind fun started =>
      ((machine smallDisk (Booted smallDisk 0)).exec Machine.Any started.2 openRoot).map fun s =>
        (started.1, s.openfiles 1 0, s.openfiles 1 1)) = some (0, some 0, none) := by
    decide +kernel
  obtain ⟨s, reached, observed⟩ := Booted.reach shown
  exact ⟨s, reached, Prod.mk.inj observed⟩

/-- It has one file open, and closes a descriptor above the table, one below and an empty slot. -/
theorem close_unchecked :
    ∃ s, (machine smallDisk (Booted smallDisk 0)).Reach Machine.Any s ∧
      s.Invalid 1 16 ∧ s.Invalid 1 (-1) ∧ s.Invalid 1 1 ∧
      (close smallDisk 1 16).stop State.serve s = some (.strayOpenfile 1 16) ∧
      (close smallDisk 1 (-1)).stop State.serve s = some (.strayOpenfile 1 (-1)) ∧
      (close smallDisk 1 1).stop State.serve s = some (.inode (.block .panic)) := by
  obtain ⟨s, reached, -, empty⟩ := openRoot_reach
  exact ⟨s, reached, .inr (.inl (by decide)), .inl (by decide), .inr (.inr empty),
    close_stray (.inr (by decide)), close_stray (.inl (by decide)), close_empty (by decide) empty⟩

/-- It has one file open, and duplicates an empty slot. -/
theorem invalid_fd_harmless_openRoot :
    ∃ s, (machine smallDisk (Booted smallDisk 0)).Reach Machine.Any s ∧
      s.openfiles 1 0 = some 0 ∧
      (FdCall.dup.program smallDisk 1 1).run State.serve s = some (-1, s) := by
  obtain ⟨s, reached, opened, empty⟩ := openRoot_reach
  exact ⟨s, reached, opened,
    ((invalid_fd_harmless smallDisk 1 1 s (.inr (.inr empty)) .dup).mp (by simp)).1⟩

end OsLab.Kernel.Sysfile
