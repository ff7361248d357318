import OsLab.Fs.LogEffect
import Mathlib.Algebra.BigOperators.Group.Finset.Basic
import Mathlib.Algebra.Order.BigOperators.Group.Finset

/-!
# Admission to the log

`begin_op` reserves `OP_MAX_NUM_BLOCKS` entries of the header for every operation it lets in.
The reservation is sufficient: what the header already names and what the open operations may
still add fit into the header together. The invariant also says that a commit excludes open
operations and other commits, that the header is empty between groups, and that the blocks
charged to an operation are blocks it has synced.
-/
namespace OsLab.Fs.Log

open OsLab.Lib OsLab.Common

/-- The state of the log seen from the operations that are open, the set `ops`. -/
structure Inv (s : State) (ops : Finset Nat) : Prop where
  opened : ∀ proc, proc ∈ ops ↔ s.pc proc = .inOp
  counted : s.log.outstanding = ops.card
  charged : ∀ proc, proc ∈ ops → s.rm proc ≤ opMaxNumBlocks
  uncharged : ∀ proc, (s.pc proc).beginning = true → s.rm proc = 0
  /-- The header has room for what the open operations may still sync. -/
  reserved : s.header.numBlocks + ∑ proc ∈ ops, (opMaxNumBlocks - s.rm proc) ≤ logMaxSize
  nodup : s.header.named.Nodup
  exclusive : s.log.iscommit = true → ops = ∅
  /-- The flag covers every process that runs a commit. -/
  flagged : ∀ proc, (s.pc proc).committing = true → s.log.iscommit = true
  single : ∀ proc other, (s.pc proc).committing = true → (s.pc other).committing = true →
    proc = other
  indexed : ∀ proc index, (s.pc proc).index? = some index → index < s.header.numBlocks
  cleared : ∀ proc, (s.pc proc).cleared = true → s.header.numBlocks = 0
  between : ops = ∅ → s.log.iscommit = false → s.header.numBlocks = 0

namespace Inv

variable {s s' : State} {ops : Finset Nat}

/-- The log after `init_bcache`. -/
theorem boot (found : LogHeader) : Inv (.boot found) ∅ where
  opened := by simp [State.boot]
  counted := by simp [State.boot]
  charged := by simp
  uncharged := by simp [State.boot]
  reserved := by simp [State.boot]
  nodup := by simp [State.boot]
  exclusive := by simp
  flagged := by simp [State.boot, Pc.committing]
  single := by simp [State.boot, Pc.committing]
  indexed := by simp [State.boot, Pc.index?]
  cleared := by simp [State.boot]
  between := by simp [State.boot]

/-- While a commit runs no process is inside an operation. -/
theorem not_open_of_iscommit (inv : Inv s ops) (committing : s.log.iscommit = true)
    (proc : Nat) : s.pc proc ≠ .inOp := by
  intro open_
  have member := (inv.opened proc).mpr open_
  rw [inv.exclusive committing] at member
  exact absurd member (Finset.notMem_empty proc)

/-- A process inside an operation keeps the commit flag down. -/
theorem iscommit_of_open (inv : Inv s ops) {proc : Nat} (open_ : s.pc proc = .inOp) :
    s.log.iscommit = false := by
  cases flag : s.log.iscommit with
  | false => rfl
  | true => exact absurd open_ (inv.not_open_of_iscommit flag proc)

/-- A process that no step touched is where it was, with the same charge. -/
theorem untouched {proc : Nat} (others : ∀ other, other ≠ proc → s'.procs other = s.procs other)
    {other : Nat} (different : other ≠ proc) :
    s'.pc other = s.pc other ∧ s'.rm other = s.rm other := by
  simp only [State.pc, State.rm, others other different, and_self]

/-- A process that is about to begin an operation is charged nothing, if that holds of the one
process that a step touched. -/
theorem uncharged_step (inv : Inv s ops) {proc : Nat}
    (others : ∀ other, other ≠ proc → s'.procs other = s.procs other)
    (touched : (s'.pc proc).beginning = true → s'.rm proc = 0) (other : Nat)
    (beginning : (s'.pc other).beginning = true) : s'.rm other = 0 := by
  by_cases same : other = proc
  · subst same
    exact touched beginning
  · rw [(untouched others same).1] at beginning
    rw [(untouched others same).2]
    exact inv.uncharged other beginning

/-- No operation is open after a step that leaves the commit to itself. -/
theorem closed_step (inv : Inv s ops) {proc : Nat}
    (others : ∀ other, other ≠ proc → s'.procs other = s.procs other)
    (flag : s.log.iscommit = true) (touched : s'.pc proc ≠ .inOp) (other : Nat) :
    other ∈ (∅ : Finset Nat) ↔ s'.pc other = .inOp := by
  refine iff_of_false (Finset.notMem_empty other) ?_
  by_cases same : other = proc
  · rw [same]
    exact touched
  · rw [(untouched others same).1]
    exact inv.not_open_of_iscommit flag other

/-- Quiet moves keep the invariant. -/
theorem move (inv : Inv s ops) {proc : Nat}
    (others : ∀ other, other ≠ proc → s'.procs other = s.procs other)
    (header : s'.header = s.header) (iscommit : s'.log.iscommit = s.log.iscommit)
    (outstanding : s'.log.outstanding = s.log.outstanding)
    (before : s.pc proc ≠ .inOp) (after : s'.pc proc ≠ .inOp)
    (committing : (s'.pc proc).committing = (s.pc proc).committing)
    (cleared : (s'.pc proc).cleared = true → (s.pc proc).cleared = true)
    (indexed : ∀ index, (s'.pc proc).index? = some index →
      (s.pc proc).index? = some index ∨ index < s.header.numBlocks)
    (charged : (s'.pc proc).beginning = true →
      s'.rm proc = 0 ∨ ((s.pc proc).beginning = true ∧ s'.rm proc = s.rm proc)) :
    Inv s' ops := by
  have outside : proc ∉ ops := fun member => before ((inv.opened proc).mp member)
  have apart : ∀ other, other ∈ ops → other ≠ proc := by
    rintro other member rfl
    exact outside member
  have commits : ∀ other, (s'.pc other).committing = (s.pc other).committing := by
    intro other
    by_cases same : other = proc
    · rw [same]
      exact committing
    · rw [(untouched others same).1]
  constructor
  case opened =>
    intro other
    by_cases same : other = proc
    · rw [same]
      exact iff_of_false outside after
    · rw [(untouched others same).1]
      exact inv.opened other
  case counted => rw [outstanding, inv.counted]
  case charged =>
    intro other member
    rw [(untouched others (apart other member)).2]
    exact inv.charged other member
  case uncharged =>
    refine inv.uncharged_step others fun beginning => ?_
    obtain zero | ⟨earlier, kept⟩ := charged beginning
    · exact zero
    · rw [kept]
      exact inv.uncharged proc earlier
  case reserved =>
    rw [header, Finset.sum_congr rfl fun other member => by
      rw [(untouched others (apart other member)).2]]
    exact inv.reserved
  case nodup => rw [header]; exact inv.nodup
  case exclusive => rw [iscommit]; exact inv.exclusive
  case flagged =>
    intro other
    rw [commits, iscommit]
    exact inv.flagged other
  case single =>
    intro first second
    rw [commits, commits]
    exact inv.single first second
  case indexed =>
    intro other index at_
    rw [header]
    by_cases same : other = proc
    · subst same
      obtain earlier | used := indexed index at_
      · exact inv.indexed other index earlier
      · exact used
    · rw [(untouched others same).1] at at_
      exact inv.indexed other index at_
  case cleared =>
    intro other at_
    rw [header]
    by_cases same : other = proc
    · subst same
      exact inv.cleared other (cleared at_)
    · rw [(untouched others same).1] at at_
      exact inv.cleared other at_
  case between => rw [header, iscommit]; exact inv.between

/-- An admission reserves the whole of what an operation may hold. -/
theorem enter (inv : Inv s ops) {proc : Nat}
    (others : ∀ other, other ≠ proc → s'.procs other = s.procs other)
    (header : s'.header = s.header) (iscommit : s'.log.iscommit = s.log.iscommit)
    (outstanding : s'.log.outstanding = s.log.outstanding + 1)
    (room : s.mustWait = false) (before : s.pc proc ≠ .inOp) (after : s'.pc proc = .inOp)
    (charged : s'.rm proc = 0 ∨ ((s.pc proc).beginning = true ∧ s'.rm proc = s.rm proc)) :
    Inv s' (insert proc ops) := by
  have outside : proc ∉ ops := fun member => before ((inv.opened proc).mp member)
  have apart : ∀ other, other ∈ ops → other ≠ proc := by
    rintro other member rfl
    exact outside member
  have zero : s'.rm proc = 0 := by
    obtain zero | ⟨earlier, kept⟩ := charged
    · exact zero
    · rw [kept]
      exact inv.uncharged proc earlier
  -- no place that matters to a commit is the new place of the process
  have elsewhere : ∀ other, s'.pc other ≠ .inOp → s'.pc other = s.pc other := by
    intro other notOpen
    refine (untouched others ?_).1
    rintro rfl
    exact notOpen after
  simp only [State.mustWait, Bool.or_eq_false_iff, decide_eq_false_iff_not, not_lt,
    inv.counted] at room
  obtain ⟨quiet, fits⟩ := room
  constructor
  case opened =>
    intro other
    by_cases same : other = proc
    · simp [same, after]
    · rw [Finset.mem_insert, (untouched others same).1, inv.opened other]
      simp [same]
  case counted =>
    rw [outstanding, inv.counted, Finset.card_insert_of_notMem outside]
    rfl
  case charged =>
    intro other member
    obtain rfl | member := Finset.mem_insert.mp member
    · omega
    · rw [(untouched others (apart other member)).2]
      exact inv.charged other member
  case uncharged => exact inv.uncharged_step others fun _ => zero
  case reserved =>
    rw [header, Finset.sum_insert outside, Finset.sum_congr rfl fun other member => by
      rw [(untouched others (apart other member)).2]]
    have bound : ∑ other ∈ ops, (opMaxNumBlocks - s.rm other) ≤ ops.card * opMaxNumBlocks :=
      Finset.sum_le_card_nsmul _ _ _ fun other _ => Nat.sub_le _ _
    push_cast [zero] at fits ⊢
    have total : s.header.numBlocks + (ops.card + 1) * opMaxNumBlocks ≤ logMaxSize := by
      exact_mod_cast fits
    rw [Nat.add_mul, Nat.one_mul] at total
    omega
  case nodup => rw [header]; exact inv.nodup
  case exclusive =>
    rw [iscommit, quiet]
    rintro ⟨⟩
  case flagged =>
    intro other at_
    have same := elsewhere other (Pc.ne_inOp_of_committing at_)
    rw [same] at at_
    rw [iscommit]
    exact inv.flagged other at_
  case single =>
    intro first second atFirst atSecond
    rw [elsewhere first (Pc.ne_inOp_of_committing atFirst)] at atFirst
    rw [elsewhere second (Pc.ne_inOp_of_committing atSecond)] at atSecond
    exact inv.single first second atFirst atSecond
  case indexed =>
    intro other index at_
    rw [elsewhere other (by rintro open_; rw [open_] at at_; contradiction)] at at_
    rw [header]
    exact inv.indexed other index at_
  case cleared =>
    intro other at_
    rw [elsewhere other (by rintro open_; rw [open_] at at_; contradiction)] at at_
    rw [header]
    exact inv.cleared other at_
  case between =>
    intro none_
    exact absurd none_ (Finset.insert_ne_empty _ _)

/-- Recording a block moves one unit from the reservation of its operation to the header. -/
theorem record (inv : Inv s ops) {proc blockNo : Nat}
    (others : ∀ other, other ≠ proc → s'.procs other = s.procs other)
    (header : s'.header = s.header.push blockNo) (iscommit : s'.log.iscommit = s.log.iscommit)
    (outstanding : s'.log.outstanding = s.log.outstanding)
    (open_ : s.pc proc = .inOp) (fresh : blockNo ∉ s.header.named)
    (roomInOp : s.rm proc < opMaxNumBlocks) (roomInLog : s.header.numBlocks < logMaxSize)
    (after : s'.procs proc = ⟨.inOp, s.rm proc + 1⟩) : Inv s' ops := by
  have member := (inv.opened proc).mpr open_
  have quiet := inv.iscommit_of_open open_
  have pcs : ∀ other, s'.pc other = s.pc other := by
    intro other
    by_cases same : other = proc
    · rw [same, open_, State.pc, after]
    · exact (untouched others same).1
  have charge : s'.rm proc = s.rm proc + 1 := by rw [State.rm, after]
  -- no process commits, so every statement about commits is empty
  have idle : ∀ other, (s.pc other).committing = false := by
    intro other
    rw [Bool.eq_false_iff]
    intro committing
    rw [inv.flagged other committing] at quiet
    contradiction
  constructor
  case opened => intro other; rw [pcs]; exact inv.opened other
  case counted => rw [outstanding, inv.counted]
  case charged =>
    intro other inside
    by_cases same : other = proc
    · subst same
      omega
    · rw [(untouched others same).2]
      exact inv.charged other inside
  case uncharged =>
    intro other beginning
    rw [pcs] at beginning
    have different : other ≠ proc := by
      rintro rfl
      rw [open_] at beginning
      contradiction
    rw [(untouched others different).2]
    exact inv.uncharged other beginning
  case reserved =>
    have before := inv.reserved
    rw [← Finset.add_sum_erase _ _ member] at before ⊢
    have rest : ∑ other ∈ ops.erase proc, (opMaxNumBlocks - s'.rm other) =
        ∑ other ∈ ops.erase proc, (opMaxNumBlocks - s.rm other) :=
      Finset.sum_congr rfl fun other inside => by
        rw [(untouched others (Finset.ne_of_mem_erase inside)).2]
    rw [header, rest]
    simp only [LogHeader.push_numBlocks, charge]
    omega
  case nodup =>
    rw [header, LogHeader.named_push roomInLog]
    refine List.nodup_append.mpr ⟨inv.nodup, List.nodup_singleton _, ?_⟩
    rintro old inside new same rfl
    exact fresh (List.mem_singleton.mp same ▸ inside)
  case exclusive => rw [iscommit]; exact inv.exclusive
  case flagged => intro other; rw [pcs, iscommit]; exact inv.flagged other
  case single => intro first second; rw [pcs, pcs]; exact inv.single first second
  case indexed =>
    intro other index at_
    rw [pcs] at at_
    have used := inv.indexed other index at_
    rw [header, LogHeader.push_numBlocks]
    omega
  case cleared =>
    intro other at_
    rw [pcs] at at_
    have committing := idle other
    cases place : s.pc other <;> rw [place] at at_ committing <;> contradiction
  case between =>
    intro none_
    rw [none_] at member
    exact absurd member (Finset.notMem_empty _)

/-- Ending an operation that leaves others open gives its reservation back. -/
theorem leave (inv : Inv s ops) {proc : Nat}
    (others : ∀ other, other ≠ proc → s'.procs other = s.procs other)
    (header : s'.header = s.header) (iscommit : s'.log.iscommit = s.log.iscommit)
    (outstanding : s'.log.outstanding = s.log.outstanding - 1)
    (more : 0 < s.log.outstanding - 1) (open_ : s.pc proc = .inOp)
    (after : s'.pc proc = .endPost) : Inv s' (ops.erase proc) := by
  have member := (inv.opened proc).mpr open_
  have card := Finset.card_erase_of_mem member
  have quiet := inv.iscommit_of_open open_
  -- the new place is in no class of places the invariant speaks of
  have elsewhere : ∀ other, s'.pc other ≠ .endPost → s'.pc other = s.pc other := by
    intro other notPosting
    refine (untouched others ?_).1
    rintro rfl
    exact notPosting after
  constructor
  case opened =>
    intro other
    by_cases same : other = proc
    · simp [same, after]
    · rw [Finset.mem_erase, (untouched others same).1, inv.opened other]
      simp [same]
  case counted =>
    rw [outstanding, inv.counted, card]
    have positive := Finset.card_pos.mpr ⟨proc, member⟩
    omega
  case charged =>
    intro other inside
    rw [(untouched others (Finset.ne_of_mem_erase inside)).2]
    exact inv.charged other (Finset.mem_of_mem_erase inside)
  case uncharged =>
    refine inv.uncharged_step others fun beginning => ?_
    rw [after] at beginning
    contradiction
  case reserved =>
    have before := inv.reserved
    rw [← Finset.add_sum_erase _ _ member] at before
    rw [header, Finset.sum_congr rfl fun other inside => by
      rw [(untouched others (Finset.ne_of_mem_erase inside)).2]]
    omega
  case nodup => rw [header]; exact inv.nodup
  case exclusive =>
    rw [iscommit, quiet]
    nofun
  case flagged =>
    intro other at_
    rw [elsewhere other (by rintro posting; rw [posting] at at_; contradiction)] at at_
    rw [iscommit]
    exact inv.flagged other at_
  case single =>
    intro first second atFirst atSecond
    rw [elsewhere first (by rintro posting; rw [posting] at atFirst; contradiction)] at atFirst
    rw [elsewhere second (by rintro posting; rw [posting] at atSecond; contradiction)] at atSecond
    exact inv.single first second atFirst atSecond
  case indexed =>
    intro other index at_
    rw [elsewhere other (by rintro posting; rw [posting] at at_; contradiction)] at at_
    rw [header]
    exact inv.indexed other index at_
  case cleared =>
    intro other at_
    rw [elsewhere other (by rintro posting; rw [posting] at at_; contradiction)] at at_
    rw [header]
    exact inv.cleared other at_
  case between =>
    intro none_
    rw [none_, Finset.card_empty] at card
    rw [inv.counted] at more
    omega

/-- The last `end_op` closes the group: no operation is open, and the process that called it
is the only one that commits. -/
theorem close (inv : Inv s ops) {proc : Nat}
    (others : ∀ other, other ≠ proc → s'.procs other = s.procs other)
    (header : s'.header = s.header) (free : s.log.iscommit = false)
    (iscommit : s'.log.iscommit = true)
    (outstanding : s'.log.outstanding = s.log.outstanding - 1)
    (last : ¬ 0 < s.log.outstanding - 1) (open_ : s.pc proc = .inOp)
    (after : s'.pc proc = State.copyPc s.header 0) : Inv s' ∅ := by
  have member := (inv.opened proc).mpr open_
  have positive := Finset.card_pos.mpr ⟨proc, member⟩
  have counted := inv.counted
  have alone : ops = {proc} := by
    refine (Finset.eq_singleton_iff_unique_mem).mpr ⟨member, fun other inside => ?_⟩
    exact Finset.card_le_one.mp (by omega) _ inside _ member
  have commit := copyPc_committing s.header 0
  -- nobody committed before, so whoever commits now is the process that closed the group
  have committer : ∀ other, (s'.pc other).committing = true → other = proc := by
    intro other committing
    by_contra different
    rw [(untouched others different).1] at committing
    rw [inv.flagged other committing] at free
    contradiction
  constructor
  case opened =>
    intro other
    refine iff_of_false (Finset.notMem_empty other) ?_
    by_cases same : other = proc
    · rw [same, after]
      exact Pc.ne_inOp_of_committing commit.1
    · rw [(untouched others same).1, ← inv.opened other, alone]
      simpa using same
  case counted =>
    rw [outstanding, counted, alone]
    simp
  case charged => simp
  case uncharged =>
    refine inv.uncharged_step others fun beginning => ?_
    have quiet : Pc.Quiet .writeHeader (State.copyPc s.header 0) :=
      Pc.quiet_of_committing rfl commit.1 (by rw [commit.2]; nofun)
    rw [after] at beginning
    exact absurd (quiet.2.2.2.2 beginning) nofun
  case reserved =>
    have before := inv.reserved
    rw [header, Finset.sum_empty]
    omega
  case nodup => rw [header]; exact inv.nodup
  case exclusive => intro _; rfl
  case flagged => intro _ _; exact iscommit
  case single =>
    intro first second atFirst atSecond
    rw [committer first atFirst, committer second atSecond]
  case indexed =>
    intro other index at_
    rw [header]
    by_cases same : other = proc
    · rw [same, after] at at_
      exact copyPc_index at_
    · rw [(untouched others same).1] at at_
      exact inv.indexed other index at_
  case cleared =>
    intro other at_
    rw [header]
    by_cases same : other = proc
    · rw [same, after, commit.2] at at_
      contradiction
    · rw [(untouched others same).1] at at_
      exact inv.cleared other at_
  case between =>
    rw [iscommit]
    nofun

/-- The end of the installation empties the header. -/
theorem reset (inv : Inv s ops) {proc : Nat}
    (others : ∀ other, other ≠ proc → s'.procs other = s.procs other)
    (header : s'.header = s.header.reset) (iscommit : s'.log.iscommit = s.log.iscommit)
    (outstanding : s'.log.outstanding = s.log.outstanding)
    (before : (s.pc proc).committing = true) (after : s'.pc proc = .clearHeader) : Inv s' ∅ := by
  have flag := inv.flagged proc before
  have none_ := inv.exclusive flag
  have commits : ∀ other, (s'.pc other).committing = (s.pc other).committing := by
    intro other
    by_cases same : other = proc
    · rw [same, after, before]
      rfl
    · rw [(untouched others same).1]
  constructor
  case opened => exact inv.closed_step others flag (by simp [after])
  case counted => rw [outstanding, inv.counted, none_]
  case charged => simp
  case uncharged =>
    refine inv.uncharged_step others fun beginning => ?_
    rw [after] at beginning
    contradiction
  case reserved => simp [header]
  case nodup => simp [header]
  case exclusive => intro _; rfl
  case flagged => intro _ _; rw [iscommit]; exact flag
  case single =>
    intro first second
    rw [commits, commits]
    exact inv.single first second
  case indexed =>
    intro other index at_
    -- the only commit is past its loops
    have committing : (s'.pc other).committing = true := by
      cases place : s'.pc other <;> rw [place] at at_ <;> first | rfl | contradiction
    rw [commits] at committing
    rw [inv.single other proc committing before, after] at at_
    contradiction
  case cleared => intro _ _; rw [header]; rfl
  case between => intro _ _; rw [header]; rfl

/-- The end of the commit finds no operation open and the header empty. -/
theorem finish (inv : Inv s ops) {proc : Nat}
    (others : ∀ other, other ≠ proc → s'.procs other = s.procs other)
    (header : s'.header = s.header)
    (outstanding : s'.log.outstanding = s.log.outstanding)
    (before : s.pc proc = .finish) (after : s'.pc proc = .postLogsem) : Inv s' ∅ := by
  have committing : (s.pc proc).committing = true := by rw [before]; rfl
  have flag := inv.flagged proc committing
  have empty : s.header.numBlocks = 0 := inv.cleared proc (by rw [before]; rfl)
  have idle : ∀ other, (s'.pc other).committing = false := by
    intro other
    by_cases same : other = proc
    · rw [same, after]
      rfl
    · rw [(untouched others same).1, Bool.eq_false_iff]
      exact fun commits => same (inv.single other proc commits committing)
  constructor
  case opened => exact inv.closed_step others flag (by simp [after])
  case counted => rw [outstanding, inv.counted, inv.exclusive flag]
  case charged => simp
  case uncharged =>
    refine inv.uncharged_step others fun beginning => ?_
    rw [after] at beginning
    contradiction
  case reserved => simp [header, empty]
  case nodup => rw [header]; exact inv.nodup
  case exclusive => intro _; rfl
  case flagged => intro other commits; rw [idle other] at commits; contradiction
  case single => intro first _ commits; rw [idle first] at commits; contradiction
  case indexed =>
    intro other index at_
    have commits := idle other
    cases place : s'.pc other <;> rw [place] at at_ commits <;> contradiction
  case cleared => intro _ _; rw [header]; exact empty
  case between => intro _ _; rw [header]; exact empty

/-- Every step of the log keeps the invariant, for the operations open after it. -/
theorem effect (inv : Inv s ops) (effect : Effect s s') : ∃ ops', Inv s' ops' := by
  cases effect with
  | same header iscommit outstanding procs syncs =>
    refine ⟨ops, ?_⟩
    have pcs : ∀ proc, s'.pc proc = s.pc proc := fun proc => by simp only [State.pc, procs]
    have rms : ∀ proc, s'.rm proc = s.rm proc := fun proc => by simp only [State.rm, procs]
    constructor <;> simp only [pcs, rms, header, iscommit, outstanding]
    exacts [inv.opened, inv.counted, inv.charged, inv.uncharged, inv.reserved, inv.nodup,
      inv.exclusive, inv.flagged, inv.single, inv.indexed, inv.cleared, inv.between]
  | move proc others header iscommit outstanding before after committing cleared indexed charged =>
    exact ⟨ops, inv.move others header iscommit outstanding before after committing cleared
      indexed charged⟩
  | enter proc others header iscommit outstanding room before after quiet charged history =>
    exact ⟨_, inv.enter others header iscommit outstanding room before after charged⟩
  | record proc blockNo others header iscommit outstanding open_ fresh roomInOp roomInLog after =>
    exact ⟨ops, inv.record others header iscommit outstanding open_ fresh roomInOp roomInLog
      after⟩
  | leave proc others header iscommit outstanding more open_ after =>
    exact ⟨_, inv.leave others header iscommit outstanding more open_ after⟩
  | close proc others header free iscommit outstanding last open_ after =>
    exact ⟨_, inv.close others header free iscommit outstanding last open_ after⟩
  | reset proc others header iscommit outstanding before after =>
    exact ⟨_, inv.reset others header iscommit outstanding before after⟩
  | finish proc others header iscommit outstanding before after =>
    exact ⟨_, inv.finish others header outstanding before after⟩

/-- The invariant holds in every state the log reaches. -/
theorem reach {sblock : SuperBlock} {guard : State → Act → Prop}
    (reached : (machine sblock).Reach guard s) : ∃ ops, Inv s ops := by
  refine reached.invariant (P := fun s => ∃ ops, Inv s ops) ?_ ?_
  · rintro s ⟨found, rfl⟩
    exact ⟨∅, boot found⟩
  · rintro s act s' - ⟨ops, inv⟩ - taken
    exact inv.effect (step_effect taken)

end Inv

/-! ## Room for every operation -/

/-- What is charged to an open operation are named blocks it has synced. -/
def Charged (s : State) : Prop :=
  ∀ proc, s.pc proc = .inOp → ∃ own : Finset Nat, own ⊆ opSyncs proc s.history ∧
    (∀ blockNo, blockNo ∈ own → blockNo ∈ s.header.named) ∧ own.card = s.rm proc

/-- Every step keeps the charges. -/
theorem Charged.effect {s s' : State} {ops : Finset Nat} (inv : Inv s ops) (charged : Charged s)
    (effect : Effect s s') : Charged s' := by
  -- an operation that a step leaves open, with its charge, keeps its blocks
  have keep : (∀ blockNo, blockNo ∈ s.header.named → blockNo ∈ s'.header.named) →
      ∀ other, opSyncs other s.history ⊆ opSyncs other s'.history →
      s'.procs other = s.procs other → s'.pc other = .inOp →
      ∃ own : Finset Nat, own ⊆ opSyncs other s'.history ∧
        (∀ blockNo, blockNo ∈ own → blockNo ∈ s'.header.named) ∧ own.card = s'.rm other := by
    intro names other syncs same open_
    rw [State.pc, same] at open_
    obtain ⟨own, synced, named, card⟩ := charged other open_
    exact ⟨own, synced.trans syncs, fun blockNo inside => names blockNo (named blockNo inside),
      by rw [card, State.rm, State.rm, same]⟩
  cases effect with
  | same header iscommit outstanding procs syncs =>
    intro proc
    exact keep (by simp [header]) proc (syncs proc) (by rw [procs])
  | move proc others header iscommit outstanding before after committing cleared indexed charge
      syncs =>
    intro other open_
    have different : other ≠ proc := by
      rintro rfl
      exact after open_
    exact keep (by simp [header]) other (syncs other) (others other different) open_
  | enter proc others header iscommit outstanding room before after quiet charge history =>
    intro other open_
    by_cases same : other = proc
    · subst same
      refine ⟨∅, Finset.empty_subset _, by simp, ?_⟩
      obtain zero | ⟨earlier, kept⟩ := charge
      · rw [zero, Finset.card_empty]
      · rw [kept, inv.uncharged other earlier, Finset.card_empty]
    · refine keep (by simp [header]) other ?_ (others other same) open_
      simp [history, opSyncs, Ne.symm same]
  | record proc blockNo others header iscommit outstanding wasOpen fresh roomInOp roomInLog after
      history =>
    have names : ∀ old, old ∈ s.header.named → old ∈ s'.header.named := by
      intro old inside
      rw [header, LogHeader.named_push roomInLog]
      exact List.mem_append_left _ inside
    intro other open_
    by_cases same : other = proc
    · subst same
      obtain ⟨own, synced, named, card⟩ := charged other wasOpen
      have new : blockNo ∉ own := fun inside => fresh (named blockNo inside)
      refine ⟨insert blockNo own, ?_, ?_, ?_⟩
      · rw [history]
        simp only [opSyncs, if_true]
        exact Finset.insert_subset_insert _ synced
      · intro old inside
        obtain rfl | inside := Finset.mem_insert.mp inside
        · rw [header, LogHeader.named_push roomInLog]
          simp
        · exact names old (named old inside)
      · rw [Finset.card_insert_of_notMem new, card]
        simp only [State.rm, after]
    · refine keep names other ?_ (others other same) open_
      simp [history, opSyncs, Ne.symm same]
  | leave proc others header iscommit outstanding more wasOpen after syncs =>
    intro other open_
    have different : other ≠ proc := by
      rintro rfl
      rw [after] at open_
      contradiction
    exact keep (by simp [header]) other (syncs other) (others other different) open_
  | close proc others header free iscommit outstanding last wasOpen after syncs =>
    intro other open_
    have closed := inv.close others header free iscommit outstanding last wasOpen after
    exact absurd open_ (closed.not_open_of_iscommit iscommit other)
  | reset proc others header iscommit outstanding before after syncs =>
    intro other open_
    have emptied := inv.reset others header iscommit outstanding before after
    exact absurd ((emptied.opened other).mpr open_) (Finset.notMem_empty other)
  | finish proc others header iscommit outstanding before after syncs =>
    intro other open_
    have ended := inv.finish others header outstanding before after
    exact absurd ((ended.opened other).mpr open_) (Finset.notMem_empty other)

/-- Clients whose operations sync at most `OP_MAX_NUM_BLOCKS` distinct blocks. -/
def OpsSmall (s : State) : Act → Prop
  | .sync proc blockNo =>
    (insert blockNo (opSyncs proc s.history)).card ≤ opMaxNumBlocks
  | _ => True

instance (s : State) (act : Act) : Decidable (OpsSmall s act) :=
  match act with
  | .sync _ _ => inferInstanceAs (Decidable (_ ≤ _))
  | .beginOp _ | .store _ _ _ | .syncNull _ _ | .endOp _ | .run _ | .alert _ => isTrue trivial

/-- For small operations `cache_sync` finds room in its operation and in the header. -/
theorem sync_room {s : State} {ops : Finset Nat} {proc blockNo : Nat} (inv : Inv s ops)
    (charged : Charged s) (open_ : s.pc proc = .inOp) (fresh : blockNo ∉ s.header.named)
    (small : (insert blockNo (opSyncs proc s.history)).card ≤ opMaxNumBlocks) :
    s.rm proc < opMaxNumBlocks ∧ s.header.numBlocks < logMaxSize := by
  obtain ⟨own, synced, named, card⟩ := charged proc open_
  have new : blockNo ∉ own := fun inside => fresh (named blockNo inside)
  have grown := Finset.card_le_card (Finset.insert_subset_insert blockNo synced)
  rw [Finset.card_insert_of_notMem new] at grown
  have reserved := inv.reserved
  rw [← Finset.add_sum_erase _ _ ((inv.opened proc).mpr open_)] at reserved
  omega

/-- A step inside the log code panics on a semaphore only. -/
theorem advance_panic {sblock : SuperBlock} {s s' : State} {proc : Nat}
    (taken : s.advance sblock proc = some s') :
    s'.panic = s.panic ∨ s'.panic = some .postEmpty := by
  have begins : (s.beginSection proc).panic = s.panic := by
    unfold State.beginSection
    split <;> rfl
  have installs : ∀ (held : State) index, (held.installNext proc index).panic = held.panic := by
    intro held index
    unfold State.installNext
    split <;> rfl
  unfold State.advance at taken
  split at taken <;> (try split at taken) <;> (try contradiction) <;>
    obtain rfl := Option.some.inj taken <;> simp [begins, installs]

/-- A step of small operations panics neither in `cache_sync` nor on the flag in `end_op`. -/
theorem step_panic {sblock : SuperBlock} {s s' : State} {act : Act} {ops : Finset Nat}
    (inv : Inv s ops) (charged : Charged s) (small : OpsSmall s act)
    (taken : s.step sblock act = some s') :
    s'.panic ≠ some .syncFull ∧ s'.panic ≠ some .endCommitting := by
  unfold State.step at taken
  split at taken
  · contradiction
  · rename_i running
    have none_ : s.panic = none := by simpa using running
    cases act with
    | beginOp proc =>
      simp only [Option.ite_none_right_eq_some, Option.some.injEq] at taken
      obtain ⟨-, rfl⟩ := taken
      unfold State.beginSection
      split <;> simp [none_]
    | store proc blockNo data =>
      simp only [Option.ite_none_right_eq_some, Option.some.injEq] at taken
      obtain ⟨-, rfl⟩ := taken
      simp [none_]
    | sync proc blockNo =>
      simp only [Option.ite_none_right_eq_some, Option.some.injEq] at taken
      obtain ⟨⟨open_, -⟩, rfl⟩ := taken
      unfold State.syncSection
      split
      · simp [none_]
      · rename_i fresh
        have room := sync_room inv charged open_ fresh small
        rw [if_neg (by omega)]
        simp [none_]
    | syncNull proc blockNo =>
      simp only [Option.ite_none_right_eq_some, Option.some.injEq] at taken
      obtain ⟨-, rfl⟩ := taken
      simp [none_]
    | endOp proc =>
      simp only [Option.ite_none_right_eq_some, Option.some.injEq] at taken
      obtain ⟨⟨open_, -⟩, rfl⟩ := taken
      unfold State.endSection
      rw [if_neg (by simp [inv.iscommit_of_open open_])]
      split <;> simp [none_]
    | run proc =>
      obtain same | empty := advance_panic taken
      · simp [same, none_]
      · simp [empty]
    | alert proc =>
      simp only [State.alerted] at taken
      split at taken <;> (try contradiction) <;>
        simp only [Option.ite_none_right_eq_some, Option.some.injEq] at taken <;>
        obtain ⟨-, rfl⟩ := taken <;> simp [none_]

/-- While a commit runs `cache_sync` cannot be called, so it cannot change the header. -/
theorem sync_header_of_iscommit (sblock : SuperBlock) {s s' : State} {ops : Finset Nat}
    {proc blockNo : Nat} (inv : Inv s ops) (committing : s.log.iscommit = true)
    (taken : s.step sblock (.sync proc blockNo) = some s') : s'.header = s.header := by
  unfold State.step at taken
  split at taken
  · contradiction
  · simp only [Option.ite_none_right_eq_some] at taken
    exact absurd taken.1.1 (inv.not_open_of_iscommit committing proc)

/-- Runs of small operations keep the charges and never reach the two panics. -/
theorem small_invariant {sblock : SuperBlock} {s : State}
    (reached : (machine sblock).Reach OpsSmall s) :
    Charged s ∧ s.panic ≠ some .syncFull ∧ s.panic ≠ some .endCommitting := by
  refine reached.invariant
    (P := fun s => Charged s ∧ s.panic ≠ some .syncFull ∧ s.panic ≠ some .endCommitting) ?_ ?_
  · rintro s ⟨found, rfl⟩
    refine ⟨?_, by simp [State.boot], by simp [State.boot]⟩
    intro proc open_
    simp [State.boot] at open_
  · rintro s act s' earlier ⟨charged, -⟩ small taken
    obtain ⟨ops, inv⟩ := Inv.reach earlier
    exact ⟨charged.effect inv (step_effect taken), step_panic inv charged small taken⟩

/-- Admission to the log is sufficient. In every interleaving of operations that sync at
most `OP_MAX_NUM_BLOCKS` distinct blocks each, what the header names and what the open
operations may still add fit into the header; so `cache_sync` never panics for want of room
and `end_op` never finds a commit running. The header names no block twice, and no
`cache_sync` changes it while a commit is in progress. -/
theorem admission_sufficient (sblock : SuperBlock) (s : State)
    (reached : (machine sblock).Reach OpsSmall s) :
    (∃ ops : Finset Nat, (∀ proc, proc ∈ ops ↔ s.pc proc = .inOp) ∧
      (∀ proc, proc ∈ ops → s.rm proc ≤ opMaxNumBlocks) ∧
      s.header.numBlocks + ∑ proc ∈ ops, (opMaxNumBlocks - s.rm proc) ≤ logMaxSize) ∧
    s.panic ≠ some .syncFull ∧ s.panic ≠ some .endCommitting ∧
    s.header.named.Nodup ∧
    ∀ proc blockNo s', s.log.iscommit = true →
      (machine sblock).step s (.sync proc blockNo) = some s' → s'.header = s.header := by
  obtain ⟨ops, inv⟩ := Inv.reach reached
  obtain ⟨-, full, committing⟩ := small_invariant reached
  refine ⟨⟨ops, inv.opened, inv.charged, inv.reserved⟩, full, committing, inv.nodup, ?_⟩
  intro proc blockNo s' flag taken
  exact sync_header_of_iscommit sblock inv flag taken

/-- Two operations share a block, one of them ends first, and the other starts the commit of
both. -/
def sharedBlockRun : List Act :=
  [.beginOp 0, .beginOp 1, .sync 0 100, .sync 1 100, .sync 1 101, .endOp 0, .run 0, .run 0,
    .endOp 1, .run 1, .run 1, .run 1]

/-- The sufficiency at the end of that run. -/
theorem admission_sufficient_shared_block :
    ∃ s, (machine mkfsSuperBlock).Reach OpsSmall s ∧ s.header.named = [100, 101] ∧
      s.header.named.Nodup ∧ s.panic ≠ some .syncFull := by
  have shown : ((machine mkfsSuperBlock).exec OpsSmall (.boot .empty) sharedBlockRun).map
      (·.header.named) = some [100, 101] := by decide +kernel
  obtain ⟨s, reached, names⟩ := Machine.Reach.exec_map (init_boot _ _) shown
  have sufficient := admission_sufficient mkfsSuperBlock s reached
  exact ⟨s, reached, names, sufficient.2.2.2.1, sufficient.2.1⟩

/-! ## Copies in the log area -/

/-- The blocks the copy loop of `end_op` has written, latest first. -/
def logCopies : List Event → List Nat
  | [] => []
  | .logCopied target :: earlier => target :: logCopies earlier
  | _ :: earlier => logCopies earlier

/-- No `cache_sync` records a block in a header that already names as many blocks as the log
area has room for behind the header block. -/
def RecordsInArea (sblock : SuperBlock) (s : State) : Act → Prop
  | .sync _ blockNo => blockNo ∈ s.header.named ∨ s.header.numBlocks + 1 < sblock.numLogBlocks
  | _ => True

instance (sblock : SuperBlock) (s : State) (act : Act) :
    Decidable (RecordsInArea sblock s act) :=
  match act with
  | .sync _ _ => inferInstanceAs (Decidable (_ ∨ _))
  | .beginOp _ | .store _ _ _ | .syncNull _ _ | .endOp _ | .run _ | .alert _ => isTrue trivial

/-- A step that records only inside the area leaves the header small enough for it. -/
theorem step_numBlocks {sblock : SuperBlock} {s s' : State} {act : Act}
    (inside : RecordsInArea sblock s act) (fits : s.header.numBlocks + 1 ≤ sblock.numLogBlocks)
    (taken : s.step sblock act = some s') : s'.header.numBlocks + 1 ≤ sblock.numLogBlocks := by
  cases step_effect taken with
  | same header | move _ _ header | enter _ _ header | leave _ _ header | close _ _ header
  | finish _ _ header =>
    rw [header]
    exact fits
  | reset _ _ header =>
    rw [header, LogHeader.reset_numBlocks]
    omega
  | record proc blockNo others header iscommit outstanding open_ fresh roomInOp roomInLog after
      history =>
    -- only a call of `cache_sync` notes a sync, so the guard speaks of this block
    obtain same | ⟨event, noted, explained⟩ := step_noted taken
    · rw [history] at same
      exact absurd (congrArg List.length same) (by simp)
    · rw [history] at noted
      obtain ⟨rfl, -⟩ := List.cons.inj noted
      rw [explained.1] at inside
      obtain named | room := inside
      · exact absurd named fresh
      · rw [header, LogHeader.push_numBlocks]
        omega

/-- The copy loop stays behind the header block and inside the log area as long as the header
never outgrows the area. -/
theorem copies_inside {sblock : SuperBlock} {s : State} (fits : sblock.LogFits)
    (reached : (machine sblock).Reach (RecordsInArea sblock) s) :
    s.header.numBlocks + 1 ≤ sblock.numLogBlocks ∧
    ∀ target, target ∈ logCopies s.history →
      sblock.logStart + 1 ≤ target ∧ target < sblock.logStart + sblock.numLogBlocks := by
  refine reached.invariant (P := fun s => s.header.numBlocks + 1 ≤ sblock.numLogBlocks ∧
    ∀ target, target ∈ logCopies s.history →
      sblock.logStart + 1 ≤ target ∧ target < sblock.logStart + sblock.numLogBlocks) ?_ ?_
  · rintro s ⟨found, rfl⟩
    simpa [State.boot, logCopies] using fits.header
  · rintro s act s' earlier ⟨small, copied⟩ inside taken
    refine ⟨step_numBlocks inside small taken, ?_⟩
    obtain same | ⟨event, noted, explained⟩ := step_noted taken
    · rw [same]
      exact copied
    · rw [noted]
      cases event with
      | logCopied target =>
        obtain ⟨proc, index, -, place, rfl⟩ := explained
        obtain ⟨ops, inv⟩ := Inv.reach earlier
        have used := inv.indexed proc index (by rw [place]; rfl)
        intro other member
        obtain rfl | member := List.mem_cons.mp member
        · rw [fits.logBlock_eq (by omega)]
          omega
        · exact copied other member
      | _ => exact copied

/-- Log copies stay inside the log area of the disk `mkfs` lays out, and never reach the
inodes, in every run in which no `cache_sync` records a block in a header that already names
`num_log_blocks - 1` blocks. -/
theorem mkfs_copies_inside (s : State)
    (reached : (machine mkfsSuperBlock).Reach (RecordsInArea mkfsSuperBlock) s) :
    ∀ target, target ∈ logCopies s.history →
      mkfsSuperBlock.logStart + 1 ≤ target ∧
      target < mkfsSuperBlock.logStart + mkfsSuperBlock.numLogBlocks ∧
      target < mkfsSuperBlock.inodeStart := by
  intro target member
  obtain ⟨low, high⟩ := (copies_inside ⟨by decide, by decide⟩ reached).2 target member
  exact ⟨low, high, high⟩

/-- The shared-block run, with the first copy of its commit written. -/
theorem mkfs_copies_inside_shared_block :
    ∃ s, (machine mkfsSuperBlock).Reach (RecordsInArea mkfsSuperBlock) s ∧
      logCopies s.history = [3] ∧ 3 < mkfsSuperBlock.inodeStart := by
  have shown : ((machine mkfsSuperBlock).exec (RecordsInArea mkfsSuperBlock) (.boot .empty)
      sharedBlockRun).map (logCopies ·.history) = some [3] := by decide +kernel
  obtain ⟨s, reached, copies⟩ := Machine.Reach.exec_map (init_boot _ _) shown
  exact ⟨s, reached, copies, (mkfs_copies_inside s reached 3 (by simp [copies])).2.2⟩

/-- An operation that ends early leaves three blocks in the header, so that six more can be
admitted with ten blocks each: the header fills up to its last entry. The last of the six
starts the commit. -/
def fullHeaderRun : List Act :=
  [.beginOp 0, .beginOp 1, .sync 0 200, .sync 0 201, .sync 0 202, .endOp 0, .run 0] ++
  [2, 3, 4, 5, 6].map .beginOp ++
  [1, 2, 3, 4, 5, 6].flatMap (fun proc => (List.range 10).map fun block =>
    .sync proc (200 + 10 * proc + block)) ++
  [1, 2, 3, 4, 5].flatMap (fun proc => [.endOp proc, .run proc]) ++
  .endOp 6 :: List.replicate (62 * 6 + 3) (.run 6)

/-- With every operation syncing at most `OP_MAX_NUM_BLOCKS` blocks, the commit of that run
writes its last copy over the first inode block. -/
theorem mkfs_copy_overwrites_inodes :
    ∃ s, (machine mkfsSuperBlock).Reach OpsSmall s ∧
      mkfsSuperBlock.inodeStart ∈ logCopies s.history ∧
      ¬ mkfsSuperBlock.inodeStart < mkfsSuperBlock.logStart + mkfsSuperBlock.numLogBlocks := by
  have shown : ((machine mkfsSuperBlock).exec OpsSmall (.boot .empty) fullHeaderRun).map
      (fun s => (logCopies s.history).head?) = some (some 65) := by decide +kernel
  obtain ⟨s, reached, last⟩ := Machine.Reach.exec_map (init_boot _ _) shown
  exact ⟨s, reached, List.mem_of_mem_head? last, by decide⟩

end OsLab.Fs.Log
