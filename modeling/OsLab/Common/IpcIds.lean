import OsLab.Lib.Transition
import Mathlib.Logic.Function.Basic

/-!
# Identifiers of message queues

The table of queues of `src/common/ipc.c`: `sys_msgget`, which creates a queue or finds one by its
key, `get_msgq`, which finds one by its identifier, and the removal of a queue. An identifier
holds the place in the table and the sequence number of the queue, an `unsigned short` that counts
creations. `in_use` is not read anywhere and left out. Queues are told apart by the number of their
creation, and the machine keeps what every creation returned.
-/
namespace OsLab.Common.IpcIds

open OsLab.Lib

/-- `msg_queue`, as far as the table goes. -/
structure MsgQueue where
  /-- The number of its creation. -/
  number : Nat
  key : Int
  seq : Nat
  deriving Repr, DecidableEq

/-- `msg_ids`, and what has happened. -/
structure State where
  entries : Nat → Option MsgQueue
  seq : Nat
  /-- The identifiers that the creations returned, in order. -/
  created : List Int
  /-- The numbers of the queues removed. -/
  removed : List Nat

/-- `msg_ids.size`. -/
def size : Nat := 16

/-- `SEQ_MULTIPLIER`. -/
def seqMultiplier : Int := 16

/-- `ipc_buildin`. -/
def ipcBuildin (id seq : Nat) : Int := seq * seqMultiplier + id

namespace State

/-- `init_ipc`. -/
def init : State := ⟨fun _ => none, 0, [], []⟩

/-- `ipc_addid`: the first free place. -/
def ipcAddid (s : State) : Option Nat := (List.range size).find? fun id => s.entries id = none

/-- `newque`: the identifier, or `ENOMEM` or `ENOSEQ`. `memory` tells whether `kalloc` succeeds. -/
def newque (s : State) (key : Int) (memory : Bool) : Int × State :=
  if memory then
    match s.ipcAddid with
    | none => (-2, s)
    | some id =>
      let msgid := ipcBuildin id s.seq
      (msgid, { s with
        entries := Function.update s.entries id (some ⟨s.created.length, key, s.seq⟩)
        seq := (s.seq + 1) % 65536
        created := s.created ++ [msgid] })
  else (-1, s)

/-- `ipc_findkey`: the first place with the key. -/
def ipcFindkey (s : State) (key : Int) : Option Nat :=
  (List.range size).find? fun id => (s.entries id).any fun que => que.key == key

/-- `sys_msgget`, with the bits `IPC_CREATE` and `IPC_EXCL` of its flags: an identifier, or `ENOENT`
or `EEXIST`. -/
def sysMsgget (s : State) (key : Int) (create excl memory : Bool) : Int × State :=
  if key = 0 then s.newque key memory
  else match s.ipcFindkey key with
    | none => if create then s.newque key memory else (-3, s)
    | some id =>
      if excl then (-4, s)
      else (ipcBuildin id (((s.entries id).map MsgQueue.seq).getD 0), s)

/-- `get_msgq`: the queue or `NULL`. `none` where `entries` is read outside of its bounds; the
remainder of a negative number is negative. -/
def getMsgq (s : State) (msgid : Int) : Option (Option MsgQueue) :=
  let id := msgid.tmod seqMultiplier
  if (size : Int) ≤ id then some none
  else if id < 0 then none
  else match s.entries id.toNat with
    | none => some none
    | some que => if msgid.tdiv seqMultiplier ≠ que.seq then some none else some (some que)

/-- `freeque`, as far as the table goes. -/
def freeque (s : State) (msgid : Int) : Option State :=
  (s.getMsgq msgid).map fun
    | none => s
    | some que => { s with
        entries := Function.update s.entries (msgid.tmod seqMultiplier).toNat none
        removed := que.number :: s.removed }

end State

/-- What happens next. -/
inductive Act where
  | msgget (key : Int) (create excl memory : Bool)
  /-- `sys_msgctl` with `IPC_RMID`. -/
  | rmid (msgid : Int)

/-- The table, as a machine. -/
def machine : Machine State Act where
  init s := s = .init
  step s
    | .msgget key create excl memory => some (s.sysMsgget key create excl memory).2
    | .rmid msgid => s.freeque msgid

/-! ## The table and its history -/

/-- The queues in the table are those created and not removed, each where its identifier says. -/
structure Recorded (s : State) : Prop where
  counts : s.seq = s.created.length % 65536
  /-- A queue has the place and the number that its identifier holds, and is not removed. -/
  entry : ∀ id que, s.entries id = some que → id < size ∧ que.seq = que.number % 65536 ∧
    s.created[que.number]? = some (ipcBuildin id que.seq) ∧ que.number ∉ s.removed
  kept : ∀ number msgid, s.created[number]? = some msgid → number ∉ s.removed →
    ∃ id que, s.entries id = some que ∧ que.number = number
  /-- Identifiers hold the number of the creation, as an `unsigned short`. -/
  identifier : ∀ (number : Nat) (msgid : Int), s.created[number]? = some msgid →
    ∃ id < size, msgid = ipcBuildin id (number % 65536)
  earlier : ∀ number ∈ s.removed, number < s.created.length

section Table

variable {s s' : State} {id id' : Nat} {msgid : Int} {que : MsgQueue}

/-- An identifier holds its parts. -/
theorem ipcBuildin_parts (seq : Nat) (inside : id < size) :
    (ipcBuildin id seq).tmod seqMultiplier = id ∧ (ipcBuildin id seq).tdiv seqMultiplier = seq := by
  rw [size] at inside
  rw [ipcBuildin, seqMultiplier, Int.tmod_eq_emod_of_nonneg (by omega),
    Int.tdiv_eq_ediv_of_nonneg (by omega)]
  omega

/-- Identifiers of different parts are different. -/
theorem ipcBuildin_inj {seq seq' : Nat} (inside : id < size) (inside' : id' < size)
    (same : ipcBuildin id seq = ipcBuildin id' seq') : id = id' ∧ seq = seq' := by
  have one := ipcBuildin_parts seq inside
  have two := ipcBuildin_parts seq' inside'
  rw [same] at one
  omega

/-- What `get_msgq` finds stands where the identifier says. -/
theorem getMsgq_eq_some :
    s.getMsgq msgid = some (some que) ↔ ∃ id < size, s.entries id = some que ∧
      msgid = ipcBuildin id que.seq := by
  constructor
  · intro found
    simp only [State.getMsgq] at found
    split_ifs at found with high low
    · cases found
    · split at found
      · cases found
      · rename_i que' entry
        split_ifs at found with other
        · cases found
        obtain rfl := Option.some.inj (Option.some.inj found)
        refine ⟨(msgid.tmod seqMultiplier).toNat, by omega, entry, ?_⟩
        have parts := Int.mul_tdiv_add_tmod msgid seqMultiplier
        rw [not_not.mp other] at parts
        rw [ipcBuildin, Int.toNat_of_nonneg (by omega), Int.mul_comm]
        exact parts.symm
  · rintro ⟨id, inside, entry, rfl⟩
    obtain ⟨place, number⟩ := ipcBuildin_parts que.seq inside
    rw [State.getMsgq]
    simp only [place, number, Int.toNat_natCast, entry]
    rw [if_neg (by omega), if_neg (by omega), if_neg (by simp)]

/-- What a list with one more element holds. -/
theorem getElem?_concat_eq_some {list : List Int} {last value : Int} {number : Nat} :
    (list ++ [last])[number]? = some value ↔
      list[number]? = some value ∨ number = list.length ∧ value = last := by
  rcases Nat.lt_trichotomy number list.length with low | rfl | high
  · rw [List.getElem?_append_left low]
    simp [Nat.ne_of_lt low]
  · simp [eq_comm]
  · rw [List.getElem?_eq_none (by simp; omega), List.getElem?_eq_none (by omega)]
    simp [Nat.ne_of_gt high]

/-- A queue is put at a free place. -/
theorem Recorded.add (recorded : Recorded s) (key : Int) (inside : id < size)
    (free : s.entries id = none) : Recorded { s with
      entries := Function.update s.entries id (some ⟨s.created.length, key, s.seq⟩)
      seq := (s.seq + 1) % 65536
      created := s.created ++ [ipcBuildin id s.seq] } := by
  constructor
  · show (s.seq + 1) % 65536 = (s.created ++ [_]).length % 65536
    rw [List.length_append, List.length_singleton, recorded.counts]
    omega
  · intro place que entry
    dsimp only at entry
    by_cases which : place = id
    · subst which
      rw [Function.update_self] at entry
      obtain rfl := Option.some.inj entry
      refine ⟨inside, recorded.counts, getElem?_concat_eq_some.mpr (.inr ⟨rfl, rfl⟩), ?_⟩
      intro gone
      exact absurd (recorded.earlier _ gone) (Nat.lt_irrefl _)
    · rw [Function.update_of_ne which] at entry
      obtain ⟨low, seq, known, there⟩ := recorded.entry place que entry
      exact ⟨low, seq, getElem?_concat_eq_some.mpr (.inl known), there⟩
  · intro number msgid known there
    rcases getElem?_concat_eq_some.mp known with known | ⟨rfl, rfl⟩
    · obtain ⟨place, que, entry, rfl⟩ := recorded.kept number msgid known there
      refine ⟨place, que, (Function.update_of_ne ?_ _ _).trans entry, rfl⟩
      rintro rfl
      rw [free] at entry
      cases entry
    · exact ⟨id, _, Function.update_self .., rfl⟩
  · intro number msgid known
    rcases getElem?_concat_eq_some.mp known with known | ⟨rfl, rfl⟩
    · exact recorded.identifier number msgid known
    · exact ⟨id, inside, by rw [recorded.counts]⟩
  · intro number gone
    have low := recorded.earlier number gone
    rw [List.length_append]
    omega

/-- A new queue is recorded. -/
theorem Recorded.newque (recorded : Recorded s) (key : Int) (memory : Bool) :
    Recorded (s.newque key memory).2 := by
  rw [State.newque]
  split
  · split
    · exact recorded
    · rename_i id found
      apply recorded.add key
      · exact List.mem_range.mp (List.mem_of_find?_eq_some found)
      · simpa using List.find?_some found
  · exact recorded

/-- `sys_msgget` creates at most one queue. -/
theorem Recorded.sysMsgget (recorded : Recorded s) (key : Int) (create excl memory : Bool) :
    Recorded (s.sysMsgget key create excl memory).2 := by
  rw [State.sysMsgget]
  split
  · exact recorded.newque key memory
  · split
    · split
      · exact recorded.newque key memory
      · exact recorded
    · split <;> exact recorded

/-- A removed queue is no longer in the table. -/
theorem Recorded.freeque (recorded : Recorded s) (taken : s.freeque msgid = some s') :
    Recorded s' := by
  obtain ⟨found, gets, rfl⟩ := Option.map_eq_some_iff.mp taken
  cases found with
  | none => exact recorded
  | some que =>
    obtain ⟨id, inside, entry, rfl⟩ := getMsgq_eq_some.mp gets
    dsimp only
    rw [(ipcBuildin_parts que.seq inside).1, Int.toNat_natCast]
    obtain ⟨-, seq, known, -⟩ := recorded.entry id que entry
    refine ⟨recorded.counts, fun place other found => ?_, fun number msgid named there => ?_,
      recorded.identifier, fun number gone => ?_⟩
    · dsimp only at found
      by_cases which : place = id
      · rw [which, Function.update_self] at found
        cases found
      · rw [Function.update_of_ne which] at found
        obtain ⟨low, seq', known', there⟩ := recorded.entry place other found
        refine ⟨low, seq', known', ?_⟩
        rw [List.mem_cons, not_or]
        refine ⟨fun same => which ?_, there⟩
        rw [same] at known'
        exact (ipcBuildin_inj inside low (Option.some.inj (known.symm.trans known'))).1.symm
    · rw [List.mem_cons, not_or] at there
      obtain ⟨place, other, found, rfl⟩ := recorded.kept number msgid named there.2
      refine ⟨place, other, (Function.update_of_ne ?_ _ _).trans found, rfl⟩
      rintro rfl
      rw [entry] at found
      exact there.1 (congrArg MsgQueue.number (Option.some.inj found)).symm
    · rcases List.mem_cons.mp gone with rfl | gone
      · exact (List.getElem?_eq_some_iff.mp known).1
      · exact recorded.earlier number gone

/-- Every run keeps the record. -/
theorem recorded_run {guard : State → Act → Prop} (reached : machine.Reach guard s) :
    Recorded s := by
  apply reached.invariant
  · rintro _ rfl
    exact ⟨rfl, by simp [State.init], by simp [State.init], by simp [State.init],
      by simp [State.init]⟩
  · intro s act s' _ recorded _ taken
    cases act with
    | msgget key create excl memory =>
      obtain rfl := Option.some.inj taken
      exact recorded.sysMsgget key create excl memory
    | rmid msgid => exact recorded.freeque taken

/-- Identifiers are checked exactly. -/
structure Exact (s : State) : Prop where
  bounds : ∀ msgid, 0 ≤ msgid.tmod seqMultiplier → s.getMsgq msgid ≠ none
  /-- A queue is found by what its creation returned, as long as it is not removed. -/
  finds : ∀ msgid number, (∃ que, s.getMsgq msgid = some (some que) ∧ que.number = number) ↔
    s.created[number]? = some msgid ∧ number ∉ s.removed
  stale : ∀ number ∈ s.removed, ∀ msgid, s.created[number]? = some msgid →
    s.getMsgq msgid = some none

/-- No more queues are created than there are sequence numbers. -/
def Few (s : State) (act : Act) : Prop := ∀ s' ∈ machine.step s act, s'.created.length ≤ 65536

/-- The table is read within its bounds unless the remainder is negative. -/
theorem getMsgq_bounds (nonnegative : 0 ≤ msgid.tmod seqMultiplier) : s.getMsgq msgid ≠ none := by
  simp only [State.getMsgq]
  split_ifs with high low
  · simp
  · omega
  · split
    · simp
    · split_ifs <;> simp

/-- In every run that creates at most 65536 queues identifiers are checked exactly. -/
theorem identifiers_exact (reached : machine.Reach Few s) : Exact s := by
  have recorded := recorded_run reached
  have few : s.created.length ≤ 65536 := by
    apply reached.invariant
    · rintro _ rfl
      exact Nat.zero_le _
    · exact fun s act s' _ _ met taken => met s' taken
  have finds : ∀ msgid number,
      (∃ que, s.getMsgq msgid = some (some que) ∧ que.number = number) ↔
        s.created[number]? = some msgid ∧ number ∉ s.removed := by
    intro msgid number
    constructor
    · rintro ⟨que, found, rfl⟩
      obtain ⟨id, -, entry, rfl⟩ := getMsgq_eq_some.mp found
      obtain ⟨-, -, known, there⟩ := recorded.entry id que entry
      exact ⟨known, there⟩
    · rintro ⟨known, there⟩
      obtain ⟨id, que, entry, rfl⟩ := recorded.kept number msgid known there
      obtain ⟨inside, -, named, -⟩ := recorded.entry id que entry
      have same : msgid = ipcBuildin id que.seq := Option.some.inj (known.symm.trans named)
      exact ⟨que, getMsgq_eq_some.mpr ⟨id, inside, entry, same⟩, rfl⟩
  refine ⟨fun msgid => getMsgq_bounds, finds, fun number gone msgid known => ?_⟩
  obtain ⟨id, inside, rfl⟩ := recorded.identifier number msgid known
  cases found : s.getMsgq (ipcBuildin id (number % 65536)) with
  | none =>
    have place := (ipcBuildin_parts (number % 65536) inside).1
    exact absurd found (getMsgq_bounds (by omega))
  | some result =>
    cases result with
    | none => rfl
    | some que =>
      -- the queue found has the same sequence number and so is the one removed
      obtain ⟨known', there⟩ := (finds _ que.number).mp ⟨que, found, rfl⟩
      obtain ⟨id', inside', same⟩ := recorded.identifier que.number _ known'
      have low := (List.getElem?_eq_some_iff.mp known).1
      have low' := (List.getElem?_eq_some_iff.mp known').1
      have equal := (ipcBuildin_inj inside inside' same).2
      have one : que.number = number := by omega
      exact absurd gone (one ▸ there)

instance (s : State) (act : Act) : Decidable (Few s act) :=
  inferInstanceAs (Decidable (∀ s' ∈ machine.step s act, _))

/-- Two queues, of which the first is removed and its place given to a third. -/
theorem identifiers_exact_three : ∃ s, machine.Reach Few s ∧
    (s.created, s.removed, s.getMsgq 0, s.getMsgq 32) =
      ([0, 17, 32], [0], some none, some (some ⟨2, 0, 2⟩)) ∧ Exact s := by
  have shown : (machine.exec Few State.init [.msgget 0 true false true, .msgget 5 true false true,
      .rmid 0, .msgget 0 true false true]).map (fun s =>
        (s.created, s.removed, s.getMsgq 0, s.getMsgq 32)) =
          some ([0, 17, 32], [0], some none, some (some ⟨2, 0, 2⟩)) := by
    decide +kernel
  obtain ⟨s, reached, shows⟩ := Machine.Reach.exec_map rfl shown
  exact ⟨s, reached, shows, identifiers_exact reached⟩

/-! ## Where the numbers end -/

/-- The state after some queues were created and removed one after the other. -/
def State.cycled (count : Nat) : State where
  entries _ := none
  seq := count % 65536
  created := (List.range count).map fun number => ipcBuildin 0 (number % 65536)
  removed := (List.range count).reverse

/-- The state with one more queue. -/
def State.again (count : Nat) : State where
  entries := Function.update (fun _ => none) 0 (some ⟨count, 0, count % 65536⟩)
  seq := (count + 1) % 65536
  created := (State.cycled (count + 1)).created
  removed := (State.cycled count).removed

/-- A queue takes the first place of an empty table. -/
theorem msgget_cycled (count : Nat) :
    machine.step (State.cycled count) (.msgget 0 true false true) = some (State.again count) := by
  have first : (State.cycled count).ipcAddid = some 0 := rfl
  have next : (count % 65536 + 1) % 65536 = (count + 1) % 65536 := by omega
  show some ((State.cycled count).newque 0 true).2 = _
  rw [State.newque, if_pos rfl, first]
  simp [State.cycled, State.again, List.range_succ, next]

/-- The only queue is found. -/
theorem getMsgq_again (count : Nat) : (State.again count).getMsgq (ipcBuildin 0 (count % 65536)) =
    some (some ⟨count, 0, count % 65536⟩) :=
  getMsgq_eq_some.mpr ⟨0, by decide, by simp [State.again], rfl⟩

/-- The only queue is removed. -/
theorem rmid_again (count : Nat) :
    machine.step (State.again count) (.rmid (ipcBuildin 0 (count % 65536))) =
      some (State.cycled (count + 1)) := by
  have place := (ipcBuildin_parts (count % 65536) (show 0 < size by decide)).1
  have empty : Function.update (State.again count).entries 0 none = fun _ => none := by
    funext id
    by_cases here : id = 0 <;> simp [State.again, here]
  show (State.again count).freeque _ = _
  rw [State.freeque, getMsgq_again, place]
  show some { State.again count with
    entries := Function.update (State.again count).entries 0 none
    removed := count :: (State.again count).removed } = _
  rw [empty]
  simp [State.again, State.cycled, List.range_succ]

/-- Any number of queues can be created and removed. -/
theorem reach_cycled (count : Nat) : machine.Reach Machine.Any (State.cycled count) := by
  induction count with
  | zero => exact .start rfl
  | succ count ih => exact .step (.step ih trivial (msgget_cycled count)) trivial (rmid_again count)

/-- The earlier queues are removed. -/
theorem again_removed {count number : Nat} (earlier : number < count) :
    number ∈ (State.again count).removed ∧
      (State.again count).created[number]? = some (ipcBuildin 0 (number % 65536)) := by
  constructor
  · exact List.mem_reverse.mpr (List.mem_range.mpr earlier)
  · show ((List.range (count + 1)).map _)[number]? = _
    rw [List.getElem?_map, List.getElem?_range (by omega)]
    rfl

/-- The identifier -1 is looked up outside of the table, and after 65536 creations the identifier of
the first queue, long removed, denotes another one. -/
theorem identifiers_recur : State.init.getMsgq (-1) = none ∧
    ∃ s, machine.Reach Machine.Any s ∧ ∃ number ∈ s.removed, ∃ msgid que,
      s.created[number]? = some msgid ∧ s.getMsgq msgid = some (some que) ∧
        que.number ≠ number := by
  have reached := Machine.Reach.step (reach_cycled 65536) trivial (msgget_cycled 65536)
  obtain ⟨gone, known⟩ := again_removed (show 0 < 65536 by decide)
  exact ⟨by decide, _, reached, 0, gone, _, _, known, getMsgq_again 65536, by decide⟩

end Table

end OsLab.Common.IpcIds
