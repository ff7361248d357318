import OsLab.Kernel.Console
import OsLab.Kernel.Kill

/-!
# Console interrupts and `kill`

`console_intr` of `src/kernel/console.c` from beginning to end, with `kill`, whose result it asserts
for `C('C')`. The process is whatever runs on the CPU when the interrupt comes: one that was
interrupted in user mode, the root process or an idle process, which wait for interrupts in the
kernel.
-/
namespace OsLab.Kernel.ConsoleInterrupt

open OsLab.Common
open OsLab.Kernel.Console (Input ctrlC)

/-- The console and the processes. -/
structure State where
  input : Input
  conssem : Semaphore
  procs : Kill.State

/-- `post_sem(&conssem)`, which activates the process that has slept longest; `none` is its
PANIC, or a counter that overflows. -/
def State.post (s : State) : Option State :=
  s.conssem.postInt.map fun conssem =>
    if s.conssem.val + 1 ≤ 0 then
      match s.conssem.sleeplist.head? with
      | some proc =>
        { s with conssem, procs.sched := s.procs.sched.activateProc proc false }
      | none => { s with conssem }
    else { s with conssem }

/-- The loop of `console_intr` in the process `this`, with the characters that `getc` has to give;
`none` is a failing `ASSERT`. It ends with the characters or with one that is negative as an
`i8`. -/
def consoleIntr (this : Nat) : List UInt8 → State → Option State
  | [], s => some s
  | c :: rest, s =>
    if 128 ≤ c then some s
    else if c = ctrlC then
      match Kill.kill s.procs (s.procs.pid this) with
      | (result, procs) => if result = 0 then consoleIntr this rest { s with procs } else none
    else
      match s.input.type c with
      | (input, true) => (State.post { s with input }).bind (consoleIntr this rest)
      | (input, false) => consoleIntr this rest { s with input }

/-- The characters the loop handles. -/
def handled (chars : List UInt8) : List UInt8 := chars.takeWhile (· < 128)

/-- The posts for these characters. -/
def posts (input : Input) : List UInt8 → Nat
  | [] => 0
  | c :: rest =>
    if 128 ≤ c then 0
    else if c = ctrlC then posts input rest
    else
      match input.type c with
      | (input, true) => posts input rest + 1
      | (input, false) => posts input rest

/-- A process in use has the pid, and was interrupted at a user address. -/
def Killable (s : Kill.State) (pid : Int) : Prop :=
  ∃ proc ∈ s.tree.procs, s.pid proc = pid ∧ s.state proc ≠ .unused ∧ s.elr proc >>> 48 = 0

/-! ## What does not change -/

/-- The processes are the same, with the same pids and program counters, and the same ones are in
use. -/
structure Kept (s s' : Kill.State) : Prop where
  tree : s'.tree = s.tree
  pid : s'.pid = s.pid
  elr : s'.elr = s.elr
  used : ∀ proc, s'.state proc = .unused ↔ s.state proc = .unused

theorem Kept.refl (s : Kill.State) : Kept s s := ⟨rfl, rfl, rfl, fun _ => .rfl⟩

section Keeping

variable {s s' : Kill.State} {pid : Int}

/-- The same processes can be killed. -/
theorem Kept.killable (kept : Kept s s') : Killable s' pid ↔ Killable s pid := by
  simp only [Killable, kept.tree, kept.pid, kept.elr, ne_eq, kept.used]

/-- Different pids stay different. -/
theorem Kept.distinct (kept : Kept s s') (distinct : (s.tree.procs.map s.pid).Nodup) :
    (s'.tree.procs.map s'.pid).Nodup := by
  rwa [kept.tree, kept.pid]

/-- `_activate_proc` of a process in use leaves the same ones in use. -/
theorem activateProc_kept {proc : Nat} (used : s.state proc ≠ .unused) (onalert : Bool) :
    Kept s { s with sched := s.sched.activateProc proc onalert } := by
  refine ⟨rfl, rfl, rfl, fun other => ?_⟩
  change s.sched.state proc ≠ .unused at used
  change (s.sched.activateProc proc onalert).state other = .unused ↔ s.sched.state other = .unused
  by_cases same : other = proc
  · subst same
    unfold Sched.State.activateProc
    cases state : s.sched.state other with
    | unused => exact absurd state used
    | running | runnable | zombie => simp [state]
    | sleeping => simp
    | deepSleeping => cases onalert <;> simp [state]
  · rw [Sched.activateProc_other same]

/-- What `kill` returns, and what it leaves. -/
theorem kill_spec (distinct : (s.tree.procs.map s.pid).Nodup) (pid : Int) :
    ((Kill.kill s pid).1 = 0 ↔ Killable s pid) ∧ Kept s (Kill.kill s pid).2 := by
  rw [Kill.kill_eq]
  cases result : s.tree.procs.find? (Kill.Wanted s pid) with
  | none =>
    refine ⟨iff_of_false (by simp) ?_, .refl s⟩
    rintro ⟨proc, member, named, used, -⟩
    rw [Kill.find_wanted distinct member named used] at result
    cases result
  | some proc =>
    have member := List.mem_of_find?_eq_some result
    have wanted := List.find?_some result
    simp only [Kill.Wanted, decide_eq_true_eq] at wanted
    have flagged : Kept s (s.setKilled proc) := ⟨rfl, rfl, rfl, fun other => by simp⟩
    dsimp only
    split
    · rename_i user
      refine ⟨iff_of_true rfl ⟨proc, member, wanted.1, wanted.2, user⟩, ?_⟩
      have used : (s.setKilled proc).state proc ≠ .unused := by simpa using wanted.2
      have alerted := activateProc_kept used true
      exact ⟨alerted.tree, alerted.pid, alerted.elr, fun other =>
        (alerted.used other).trans (flagged.used other)⟩
    · rename_i kernel
      refine ⟨iff_of_false (by simp) ?_, flagged⟩
      rintro ⟨other, inside, named, used, user⟩
      obtain rfl := Option.some.inj
        (result.symm.trans (Kill.find_wanted distinct inside named used))
      exact kernel user

end Keeping

/-- `conssem` as the code leaves it: the counter is an `int` and agrees with the sleep list, on which
there are processes in use. -/
structure Orderly (s : State) : Prop where
  balanced : s.conssem.Balanced
  word : s.conssem.val ≤ intMax
  asleep : ∀ proc ∈ s.conssem.sleeplist, s.procs.state proc ≠ .unused

/-- A post succeeds unless the counter overflows. -/
theorem Orderly.post {s : State} (orderly : Orderly s) :
    (s.conssem.val = intMax ∧ s.post = none) ∨
      ∃ s', s.post = some s' ∧ Orderly s' ∧ s'.conssem.val = s.conssem.val + 1 ∧
        s'.input = s.input ∧ Kept s.procs s'.procs := by
  have word := orderly.word
  by_cases room : s.conssem.val < intMax
  · obtain ⟨posted, post, balanced, val, fewer⟩ := Semaphore.postSem_balanced orderly.balanced
    rw [State.post, Semaphore.postInt, if_pos room, post]
    have later : ∀ proc ∈ posted.sleeplist, s.procs.state proc ≠ .unused := fun proc member =>
      orderly.asleep proc (List.mem_of_mem_tail (fewer ▸ member))
    refine .inr ⟨_, rfl, ?_⟩
    split
    · split
      · rename_i proc first
        have kept := activateProc_kept (orderly.asleep proc (List.mem_of_mem_head? first)) false
        exact ⟨⟨balanced, by simp only; omega, fun other member =>
          mt (kept.used other).mp (later other member)⟩, val, rfl, kept⟩
      · exact ⟨⟨balanced, by simp only; omega, later⟩, val, rfl, .refl _⟩
    · exact ⟨⟨balanced, by simp only; omega, later⟩, val, rfl, .refl _⟩
  · exact .inl ⟨by omega, by rw [State.post, Semaphore.postInt, if_neg room]; rfl⟩

/-- For every input and every state of the buffer: `console_intr` handles the input without a failing
`ASSERT` or an overflow of `conssem` exactly if `C('C')` only comes while the pid of the current
process is that of a process of the tree that was interrupted in user mode, and the posts for the
input leave the counter an `int`. -/
theorem console_intr_safe {s : State} {this : Nat} {chars : List UInt8} (orderly : Orderly s)
    (distinct : (s.procs.tree.procs.map s.procs.pid).Nodup) :
    ((ctrlC ∈ handled chars → Killable s.procs (s.procs.pid this)) ∧
        s.conssem.val + posts s.input chars ≤ intMax) ↔
      ∃ s', consoleIntr this chars s = some s' := by
  induction chars generalizing s with
  | nil => exact iff_of_true ⟨by simp [handled], by simpa [posts] using orderly.word⟩ ⟨s, rfl⟩
  | cons c rest ih =>
    rw [consoleIntr, posts, handled]
    by_cases negative : 128 ≤ c
    · rw [if_pos negative, if_pos negative, List.takeWhile_cons_of_neg (by simpa using negative)]
      exact iff_of_true ⟨by simp, by simpa using orderly.word⟩ ⟨s, rfl⟩
    rw [if_neg negative, if_neg negative, List.takeWhile_cons_of_pos (by simpa using negative),
      ← handled, List.mem_cons]
    by_cases control : c = ctrlC
    · -- the current process is killed, or the `ASSERT` fails
      obtain ⟨returned, kept⟩ := kill_spec distinct (s.procs.pid this)
      have later := ih (s := { s with procs := (Kill.kill s.procs (s.procs.pid this)).2 })
        ⟨orderly.balanced, orderly.word, fun proc member =>
          mt (kept.used proc).mp (orderly.asleep proc member)⟩ (kept.distinct distinct)
      rw [kept.killable, kept.pid] at later
      rw [if_pos control, if_pos control]
      dsimp only
      by_cases killable : Killable s.procs (s.procs.pid this)
      · rw [if_pos (returned.mpr killable), ← later]
        simp [killable]
      · rw [if_neg (mt returned.mp killable)]
        simp [killable, control]
    rw [if_neg control, if_neg control]
    have other : ¬ ctrlC = c := fun same => control same.symm
    simp only [other, false_or]
    rcases typed : s.input.type c with ⟨input, _ | _⟩
    · exact ih (s := { s with input }) ⟨orderly.balanced, orderly.word, orderly.asleep⟩ distinct
    · have before : Orderly { s with input } := ⟨orderly.balanced, orderly.word, orderly.asleep⟩
      obtain ⟨full, stops⟩ | ⟨s', posted, after, val, same, kept⟩ := before.post
      · simp only [stops, Option.bind_none]
        refine iff_of_false (fun fits => ?_) (by simp)
        have small := fits.2
        push_cast at small
        change s.conssem.val = _ at full
        omega
      · have later := ih after (kept.distinct distinct)
        rw [kept.killable, kept.pid, val, same] at later
        simp only [posted, Option.bind_some, ← later, Nat.cast_add, Nat.cast_one]
        rw [Int.add_right_comm, Int.add_assoc]

/-- An empty console, with `root_proc`, a process in user mode and one in the kernel. Process 3 is
an idle process. -/
def quiet : State where
  input := Console.State.init.input
  conssem := .initSem 0
  procs :=
    { sched := { Sched.State.boot 0 with procs := fun _ => ⟨.running, false, 0⟩ }
      pid := fun proc => if proc = 3 then 0 else proc + 1
      elr := fun proc => if proc = 1 then 0x400000 else 0xffff000000080000
      tree := .node 0 [.node 1 [], .node 2 []] }

/-- The process in user mode is killed in the middle of a line. -/
theorem console_intr_safe_user : ∃ s', consoleIntr 1 [104, 3, 105, 10] quiet = some s' :=
  (console_intr_safe (s := quiet) ⟨Semaphore.initSem_balanced (by decide), by decide,
    by simp [quiet, Semaphore.initSem]⟩ (by decide)).mp
    ⟨fun _ => ⟨1, by decide, by decide, by decide, by decide⟩, by decide +kernel⟩

/-- `C('C')` makes the `ASSERT` fail where the root process or an idle process waits for an
interrupt, and where a process was interrupted in the kernel. -/
theorem console_intr_panics : (consoleIntr 0 [3] quiet).isNone ∧
    (consoleIntr 3 [3] quiet).isNone ∧ (consoleIntr 2 [3] quiet).isNone := by
  decide

end OsLab.Kernel.ConsoleInterrupt
