import OsLab.Lib.Transition
import OsLab.Common.MsgLists

/-!
# Message queues and `kill`

`sys_msgsnd` and `sys_msgrcv` of `src/common/ipc.c` on any number of queues, together with `kill`.
A section under `msg_ids.lock` is one step, and `_sched(SLEEPING)` at its end belongs to it. The
`msg_sender` and the `msg_receiver` of a call live on the stack of the process, whose number stands
for their nodes. `kill` wakes a process that sleeps in one of the calls, and `_sched` returns at
once for a process that has been killed; neither takes the node off its list.

The lists are those of the nodes as they were put on and taken off. What a call that has gone on
without its node does to them by putting it on a second time, or another call by writing to the
stack it was on, is not followed.
-/
namespace OsLab.Common.MsgWait

open OsLab.Lib OsLab.Common.MsgLists

/-- `MAX_MSGNUM`, the value of `max_msg` in every queue. -/
def maxMsgnum : Int := 256

/-- `msg_msg`, with its address. -/
structure Message where
  addr : Nat
  mtype : Int
  size : Int
  deriving Repr, DecidableEq

/-- `msg_receiver`, apart from `r_msg`. -/
structure Receiver where
  proc : Nat
  mtype : Int
  size : Int
  deriving Repr, DecidableEq

/-- `msg_queue`. -/
structure Queue where
  messages : List Message
  sumMsg : Int
  /-- The processes whose nodes are on `q_sender`. -/
  senders : List Nat
  receivers : List Receiver
  deriving Repr, DecidableEq

/-- Where the call of a process stands. -/
inductive Call where
  /-- The process is in neither function. -/
  | idle
  /-- At `retry` in `sys_msgsnd`. -/
  | send (msgid : Int) (msg : Message) (nowait : Bool)
  /-- Blocked in `sys_msgsnd`. -/
  | sendAsleep (msgid : Int) (msg : Message) (nowait : Bool)
  /-- Before the lock in `sys_msgrcv`. -/
  | receive (msgid mtype size : Int) (nowait : Bool)
  /-- Blocked in `sys_msgrcv`. -/
  | receiveAsleep (msgid mtype size : Int)
  /-- Behind the section in `sys_msgrcv`, with the message it has found or that its `r_msg` names;
  `none` where nobody has set `r_msg`. -/
  | woken (size : Int) (foundMsg : Option Message)
  deriving Repr, DecidableEq

/-- The queues and the processes. -/
structure State where
  /-- What `get_msgq` finds. -/
  queues : Int → Option Queue
  calls : Nat → Call
  killed : Nat → Bool
  /-- What the last call of each process returned. -/
  returned : Nat → Int

/-- What happens next. -/
inductive Act where
  /-- A process calls `sys_msgsnd`: with the type in its buffer, if there is one, and with the page
  that `load_msg` finds. -/
  | send (proc : Nat) (msgid : Int) (msgp : Option Int) (msgsz : Int) (nowait : Bool)
      (page : Option Nat)
  /-- A process calls `sys_msgrcv`. -/
  | receive (proc : Nat) (msgid : Int) (msgp : Bool) (msgsz mtype : Int) (nowait : Bool)
  /-- A process that is not asleep goes on with its call. -/
  | run (proc : Nat)
  /-- A process is killed; it is woken only where it has come from user mode. -/
  | kill (proc : Nat) (user : Bool)
  deriving Repr, DecidableEq

/-- `pipeline_send`: the receiver that gets the message, if any. `none` where the first one that
matches has too small a buffer: the loop does not end. -/
def pipelineSend (receivers : List Receiver) (msg : Message) : Option (Option Receiver) :=
  match receivers.find? fun rcver => testmsg rcver.mtype msg.mtype with
  | none => some none
  | some rcver => if rcver.size < msg.size then none else some (some rcver)

/-- `activate_proc` of a sender: it goes to `retry`. -/
def Call.wakeup : Call → Call
  | .sendAsleep msgid msg nowait => .send msgid msg nowait
  | call => call

/-- `r_msg` is set, and the receiver is activated. -/
def Call.hand (msg : Message) : Call → Call
  | .receiveAsleep _ _ size => .woken size (some msg)
  | call => call

/-- `alert_proc`: a sleeping process goes on. -/
def Call.alert : Call → Call
  | .sendAsleep msgid msg nowait => .send msgid msg nowait
  | .receiveAsleep _ _ size => .woken size none
  | call => call

namespace State

/-- Set the call of a process. -/
def setCall (s : State) (proc : Nat) (call : Call) : State :=
  { s with calls := Function.update s.calls proc call }

/-- Set a queue. -/
def setQueue (s : State) (msgid : Int) (q : Queue) : State :=
  { s with queues := Function.update s.queues msgid (some q) }

/-- A call returns. -/
def finish (s : State) (proc : Nat) (value : Int) : State :=
  { s.setCall proc .idle with returned := Function.update s.returned proc value }

/-- `_sched(SLEEPING)`: a killed process does not sleep. -/
def sched (s : State) (proc : Nat) (asleep awake : Call) : State :=
  s.setCall proc (if s.killed proc then awake else asleep)

/-- `sys_msgsnd` up to `retry`. -/
def startSend (s : State) (proc : Nat) (msgid : Int) (msgp : Option Int) (msgsz : Int)
    (nowait : Bool) (page : Option Nat) : State :=
  match msgp with
  | none => s.finish proc (-5)
  | some mtype =>
    if msgsz < 0 ∨ mtype < 1 then s.finish proc (-5)
    else match page with
      | none => s.finish proc (-1)
      | some addr => s.setCall proc (.send msgid ⟨addr, mtype, msgsz⟩ nowait)

/-- The section of `sys_msgsnd`. -/
def sendSection (s : State) (proc : Nat) (msgid : Int) (msg : Message) (nowait : Bool) :
    Option State :=
  match s.queues msgid with
  | none => some (s.finish proc (-7))
  | some q =>
    if maxMsgnum < q.sumMsg + 1 then
      if nowait then some (s.finish proc (-6))
      else some ((s.setQueue msgid { q with senders := q.senders ++ [proc] }).sched proc
        (.sendAsleep msgid msg nowait) (.send msgid msg nowait))
    else (pipelineSend q.receivers msg).map fun
      | none => (s.setQueue msgid { q with
          messages := q.messages ++ [msg]
          sumMsg := q.sumMsg + 1 }).finish proc 0
      | some rcver => ((s.setQueue msgid { q with
          receivers := q.receivers.eraseP fun rcver => testmsg rcver.mtype msg.mtype }).setCall
            rcver.proc ((s.calls rcver.proc).hand msg)).finish proc 0

/-- `sys_msgrcv` up to its section. -/
def startReceive (s : State) (proc : Nat) (msgid : Int) (msgp : Bool) (msgsz mtype : Int)
    (nowait : Bool) : State :=
  if msgsz < 0 ∨ msgp = false then s.finish proc (-5)
  else s.setCall proc (.receive msgid mtype msgsz nowait)

/-- `ss_wakeup(&msgq->q_sender)`. -/
def ssWakeup (s : State) (senders : List Nat) : State :=
  { s with calls := fun proc => if proc ∈ senders then (s.calls proc).wakeup else s.calls proc }

/-- The section of `sys_msgrcv`. -/
def receiveSection (s : State) (proc : Nat) (msgid mtype size : Int) (nowait : Bool) : State :=
  match s.queues msgid with
  | none => s.finish proc (-7)
  | some q =>
    match findMsg Message.mtype mtype none q.messages with
    | some msg =>
      if size < msg.size then s.finish proc (-8)
      else ((s.setQueue msgid { q with
          messages := q.messages.eraseP fun other => other.addr = msg.addr
          sumMsg := q.sumMsg - 1
          senders := [] }).ssWakeup q.senders).setCall proc (.woken size (some msg))
    | none =>
      if nowait then s.finish proc (-9)
      else (s.setQueue msgid { q with receivers := q.receivers ++ [⟨proc, mtype, size⟩] }).sched
        proc (.receiveAsleep msgid mtype size) (.woken size none)

/-- One step. A call that uses a pointer that nobody has set is not followed. -/
def step (s : State) : Act → Option State
  | .send proc msgid msgp msgsz nowait page =>
    if s.calls proc = .idle then some (s.startSend proc msgid msgp msgsz nowait page) else none
  | .receive proc msgid msgp msgsz mtype nowait =>
    if s.calls proc = .idle then some (s.startReceive proc msgid msgp msgsz mtype nowait) else none
  | .run proc =>
    match s.calls proc with
    | .send msgid msg nowait => s.sendSection proc msgid msg nowait
    | .receive msgid mtype size nowait => some (s.receiveSection proc msgid mtype size nowait)
    | .woken size (some msg) => some (s.finish proc (min size msg.size))
    | _ => none
  | .kill proc user =>
    let s := { s with killed := Function.update s.killed proc true }
    some (if user then s.setCall proc (s.calls proc).alert else s)

end State

/-- Queues and their callers, as a machine: it starts with any empty queues. -/
def machine : Machine State Act where
  init s := (∀ msgid q, s.queues msgid = some q → q = ⟨[], 0, [], []⟩) ∧
    (∀ proc, s.calls proc = .idle) ∧ ∀ proc, s.killed proc = false
  step := State.step

/-! ## Nodes on the lists -/

/-- The process sleeps on the queue. -/
def Call.SleepsOn (msgid : Int) : Call → Prop
  | .sendAsleep id _ _ | .receiveAsleep id _ _ => id = msgid
  | _ => False

/-- The process sleeps in one of the calls. -/
def Call.asleep : Call → Bool
  | .sendAsleep .. | .receiveAsleep .. => true
  | _ => false

/-- The call may go to sleep. -/
def Call.maySleep : Call → Bool
  | .send _ _ nowait | .receive _ _ _ nowait => !nowait
  | _ => false

/-- The nodes on the lists of a queue belong to processes that sleep in that call on that queue, one
node to a process. -/
structure Queue.Live (q : Queue) (calls : Nat → Call) (msgid : Int) : Prop where
  senders : ∀ proc ∈ q.senders, ∃ msg nowait, calls proc = .sendAsleep msgid msg nowait
  receivers : ∀ rcver ∈ q.receivers,
    calls rcver.proc = .receiveAsleep msgid rcver.mtype rcver.size
  sendersOnce : q.senders.Nodup
  receiversOnce : (q.receivers.map Receiver.proc).Nodup

/-- All nodes are live, and no call goes on with a message that nobody has given it. -/
structure Live (s : State) : Prop where
  queues : ∀ msgid q, s.queues msgid = some q → q.Live s.calls msgid
  given : ∀ proc size, s.calls proc ≠ .woken size none

/-- No process is woken from one of the calls by `kill`, and a killed process makes only calls that
do not sleep. -/
def Spares (s : State) : Act → Prop
  | .kill proc user => user = true → (s.calls proc).asleep = false
  | .run proc => s.killed proc = true → (s.calls proc).maySleep = false
  | _ => True

instance (s : State) : (act : Act) → Decidable (Spares s act)
  | .send .. => .isTrue trivial
  | .receive .. => .isTrue trivial
  | .run proc => inferInstanceAs (Decidable (s.killed proc = true →
      (s.calls proc).maySleep = false))
  | .kill proc user => inferInstanceAs (Decidable (user = true →
      (s.calls proc).asleep = false))

section Steps

variable {s s' : State} {proc : Nat} {msgid mtype size : Int} {q : Queue} {msg : Message}
  {nowait : Bool} {calls calls' : Nat → Call}

/-- The lists of a queue are live where the calls of those that sleep on it are as they were. -/
theorem Queue.Live.frame (live : q.Live calls msgid)
    (same : ∀ proc, (calls proc).SleepsOn msgid → calls' proc = calls proc) :
    q.Live calls' msgid where
  senders := by
    intro proc member
    obtain ⟨msg, nowait, sleeps⟩ := live.senders proc member
    exact ⟨msg, nowait, by rw [same proc (by rw [sleeps]; rfl), sleeps]⟩
  receivers := by
    intro rcver member
    have sleeps := live.receivers rcver member
    rw [same rcver.proc (by rw [sleeps]; rfl), sleeps]
  sendersOnce := live.sendersOnce
  receiversOnce := live.receiversOnce

/-- A process that is awake is on no list. -/
theorem Queue.Live.awake (live : q.Live calls msgid) (awake : (calls proc).asleep = false) :
    proc ∉ q.senders ∧ proc ∉ q.receivers.map Receiver.proc := by
  constructor
  · intro member
    obtain ⟨msg, nowait, sleeps⟩ := live.senders proc member
    rw [sleeps] at awake
    cases awake
  · intro member
    obtain ⟨rcver, inside, rfl⟩ := List.mem_map.mp member
    rw [live.receivers rcver inside] at awake
    cases awake

/-- Who sleeps on a queue is asleep. -/
theorem Call.SleepsOn.asleep {call : Call} (sleeps : call.SleepsOn msgid) : call.asleep = true := by
  cases call <;> first | rfl | exact sleeps.elim

/-- Who is awake is not who sleeps. -/
theorem sleeper_ne {other : Nat} (awake : (calls proc).asleep = false)
    (sleeps : (calls other).SleepsOn msgid) : other ≠ proc := by
  rintro rfl
  rw [sleeps.asleep] at awake
  cases awake

/-- A step changes one queue and the calls of processes that sleep on no other. -/
theorem Live.update (live : Live s)
    (queues : s'.queues = Function.update s.queues msgid (some q))
    (here : q.Live s'.calls msgid)
    (same : ∀ proc other, other ≠ msgid → (s.calls proc).SleepsOn other →
      s'.calls proc = s.calls proc)
    (given : ∀ proc size, s'.calls proc ≠ .woken size none) : Live s' where
  queues := by
    intro other q' found
    rw [queues] at found
    by_cases which : other = msgid
    · subst which
      rw [Function.update_self] at found
      exact Option.some.inj found ▸ here
    · rw [Function.update_of_ne which] at found
      exact (live.queues other q' found).frame fun proc => same proc other which
  given := given

/-- The call of a process that is awake goes on. -/
theorem Live.setCall {call : Call} (live : Live s) (awake : (s.calls proc).asleep = false)
    (given : ∀ size, call ≠ .woken size none) : Live (s.setCall proc call) where
  queues := by
    intro msgid q found
    apply (live.queues msgid q found).frame
    exact fun other sleeps => Function.update_of_ne (sleeper_ne awake sleeps) _ _
  given := by
    intro other size
    show Function.update s.calls proc call other ≠ _
    by_cases which : other = proc
    · rw [which, Function.update_self]
      exact given size
    · rw [Function.update_of_ne which]
      exact live.given other size

/-- A call returns. -/
theorem Live.finish (live : Live s) (awake : (s.calls proc).asleep = false) (value : Int) :
    Live (s.finish proc value) := by
  have kept : Live (s.setCall proc .idle) := live.setCall awake (by simp)
  exact ⟨kept.queues, kept.given⟩

/-- A sender that finds the queue full goes to sleep. -/
theorem Live.senderSleeps (live : Live s) (found : s.queues msgid = some q)
    (awake : (s.calls proc).asleep = false) :
    Live ((s.setQueue msgid { q with senders := q.senders ++ [proc] }).setCall proc
      (.sendAsleep msgid msg nowait)) := by
  have others := (live.queues msgid q found).awake awake
  have kept : q.Live (Function.update s.calls proc (.sendAsleep msgid msg nowait)) msgid :=
    ((live.setCall awake (by simp)).queues msgid q found)
  refine live.update rfl ⟨?_, kept.receivers, ?_, kept.receiversOnce⟩ ?_ ?_
  · intro other member
    rcases List.mem_append.mp member with member | member
    · exact kept.senders other member
    · rw [List.mem_singleton.mp member]
      exact ⟨msg, nowait, Function.update_self ..⟩
  · refine List.nodup_append.mpr ⟨kept.sendersOnce, List.nodup_singleton proc, ?_⟩
    intro other member new there same
    obtain rfl : new = proc := List.mem_singleton.mp there
    exact others.1 (same ▸ member)
  · exact fun other _ _ sleeps => Function.update_of_ne (sleeper_ne awake sleeps) _ _
  · exact (live.setCall awake (by simp)).given

/-- A receiver that finds no message goes to sleep. -/
theorem Live.receiverSleeps (live : Live s) (found : s.queues msgid = some q)
    (awake : (s.calls proc).asleep = false) :
    Live ((s.setQueue msgid { q with receivers := q.receivers ++ [⟨proc, mtype, size⟩] }).setCall
      proc (.receiveAsleep msgid mtype size)) := by
  have others := (live.queues msgid q found).awake awake
  have kept : q.Live (Function.update s.calls proc (.receiveAsleep msgid mtype size)) msgid :=
    ((live.setCall awake (by simp)).queues msgid q found)
  refine live.update rfl ⟨kept.senders, ?_, kept.sendersOnce, ?_⟩ ?_ ?_
  · intro rcver member
    rcases List.mem_append.mp member with member | member
    · exact kept.receivers rcver member
    · rw [List.mem_singleton.mp member]
      exact Function.update_self ..
  · rw [List.map_append]
    refine List.nodup_append.mpr ⟨kept.receiversOnce, List.nodup_singleton proc, ?_⟩
    intro other member new there same
    obtain rfl : new = proc := List.mem_singleton.mp there
    exact others.2 (same ▸ member)
  · exact fun other _ _ sleeps => Function.update_of_ne (sleeper_ne awake sleeps) _ _
  · exact (live.setCall awake (by simp)).given

/-- A message is queued. -/
theorem Live.queued (live : Live s) (found : s.queues msgid = some q) (messages : List Message)
    (sumMsg : Int) :
    Live (s.setQueue msgid { q with messages := messages, sumMsg := sumMsg }) := by
  have kept := live.queues msgid q found
  apply live.update rfl
  · exact ⟨kept.senders, kept.receivers, kept.sendersOnce, kept.receiversOnce⟩
  · exact fun _ _ _ _ => rfl
  · exact live.given

/-- A message is handed to a receiver. -/
theorem Live.handed {rcver : Receiver} (live : Live s) (found : s.queues msgid = some q)
    (first : q.receivers.find? (fun rcver => testmsg rcver.mtype msg.mtype) = some rcver) :
    Live ((s.setQueue msgid { q with
      receivers := q.receivers.eraseP fun rcver => testmsg rcver.mtype msg.mtype }).setCall
        rcver.proc ((s.calls rcver.proc).hand msg)) := by
  have kept := live.queues msgid q found
  have sleeps := kept.receivers rcver (List.mem_of_find?_eq_some first)
  have hands : (s.calls rcver.proc).hand msg = .woken rcver.size (some msg) := by
    rw [sleeps]
    rfl
  obtain ⟨asks, before, after, split, others⟩ := List.find?_eq_some_iff_append.mp first
  have rest : q.receivers.eraseP (fun rcver => testmsg rcver.mtype msg.mtype) =
      before ++ after := by
    rw [split, List.eraseP_append_right _ (by simpa using others)]
    simp [asks]
  have once := kept.receiversOnce
  rw [split, List.map_append, List.map_cons, List.nodup_middle, ← List.map_append,
    List.nodup_cons] at once
  rw [hands, rest]
  apply live.update rfl
  · refine ⟨fun proc member => ?_, fun other member => ?_, kept.sendersOnce, once.2⟩
    · obtain ⟨msg', nowait', asleep⟩ := kept.senders proc member
      have different : proc ≠ rcver.proc := by
        rintro rfl
        rw [sleeps] at asleep
        cases asleep
      exact ⟨msg', nowait', (Function.update_of_ne different _ _).trans asleep⟩
    · have different : other.proc ≠ rcver.proc := fun same =>
        once.1 (same ▸ List.mem_map_of_mem member)
      have inside : other ∈ q.receivers := by
        rw [split]
        simp only [List.mem_append, List.mem_cons] at member ⊢
        exact member.imp_right .inr
      exact (Function.update_of_ne different _ _).trans (kept.receivers other inside)
  · intro proc other elsewhere asleep
    apply Function.update_of_ne
    rintro rfl
    rw [sleeps] at asleep
    exact elsewhere (Eq.symm asleep)
  · intro proc size
    show Function.update s.calls rcver.proc _ proc ≠ _
    by_cases which : proc = rcver.proc
    · simp [which]
    · rw [Function.update_of_ne which]
      exact live.given proc size

/-- The senders are woken. -/
theorem Live.ssWakeup (live : Live s) (found : s.queues msgid = some q) (messages : List Message)
    (sumMsg : Int) : Live ((s.setQueue msgid
      { q with messages := messages, sumMsg := sumMsg, senders := [] }).ssWakeup q.senders) := by
  have kept := live.queues msgid q found
  have apart : ∀ {proc other}, (s.calls proc).SleepsOn other → other ≠ msgid →
      proc ∉ q.senders := by
    intro proc other sleeps elsewhere member
    obtain ⟨msg, nowait, asleep⟩ := kept.senders proc member
    rw [asleep] at sleeps
    exact elsewhere (Eq.symm sleeps)
  apply live.update rfl
  · refine ⟨by simp, fun rcver member => ?_, List.nodup_nil, kept.receiversOnce⟩
    have sleeps := kept.receivers rcver member
    have outside : rcver.proc ∉ q.senders := by
      intro inside
      obtain ⟨msg, nowait, asleep⟩ := kept.senders _ inside
      rw [sleeps] at asleep
      cases asleep
    exact (if_neg outside).trans sleeps
  · exact fun proc other elsewhere sleeps => if_neg (apart sleeps elsewhere)
  · intro proc size
    show (if proc ∈ q.senders then (s.calls proc).wakeup else s.calls proc) ≠ _
    split
    · rename_i member
      obtain ⟨msg, nowait, asleep⟩ := kept.senders proc member
      simp [asleep, Call.wakeup]
    · exact live.given proc size

/-! ## Steps and runs -/

/-- The section of `sys_msgsnd`. -/
theorem Live.sendSection (live : Live s) (retry : s.calls proc = .send msgid msg nowait)
    (spared : s.killed proc = true → nowait = true)
    (taken : s.sendSection proc msgid msg nowait = some s') : Live s' := by
  have awake : (s.calls proc).asleep = false := by rw [retry]; rfl
  cases found : s.queues msgid with
  | none =>
    simp only [State.sendSection, found, Option.some.injEq] at taken
    exact taken ▸ live.finish awake _
  | some q =>
    simp only [State.sendSection, found] at taken
    split_ifs at taken with full waits
    · obtain rfl := Option.some.inj taken
      exact live.finish awake _
    · obtain rfl := Option.some.inj taken
      have alive : s.killed proc = false := by simpa [waits] using spared
      have sleeps := @Live.senderSleeps s proc msgid q msg nowait live found awake
      simpa [State.sched, State.setQueue, alive] using sleeps
    · obtain ⟨picked, picks, rfl⟩ := Option.map_eq_some_iff.mp taken
      cases first : q.receivers.find? fun rcver => testmsg rcver.mtype msg.mtype with
      | none =>
        simp only [pipelineSend, first, Option.some.injEq] at picks
        subst picks
        exact (live.queued found _ _).finish awake _
      | some rcver =>
        simp only [pipelineSend, first] at picks
        split_ifs at picks with small
        obtain rfl := Option.some.inj picks
        have handed := live.handed found first
        refine handed.finish ?_ _
        have sleeps := (live.queues msgid q found).receivers rcver (List.mem_of_find?_eq_some first)
        have different : proc ≠ rcver.proc := by
          rintro rfl
          rw [sleeps] at awake
          cases awake
        exact (congrArg Call.asleep (Function.update_of_ne different _ _)).trans awake

/-- The section of `sys_msgrcv`. -/
theorem Live.receiveSection (live : Live s)
    (before : s.calls proc = .receive msgid mtype size nowait)
    (spared : s.killed proc = true → nowait = true) :
    Live (s.receiveSection proc msgid mtype size nowait) := by
  have awake : (s.calls proc).asleep = false := by rw [before]; rfl
  rw [State.receiveSection]
  split
  · exact live.finish awake _
  · rename_i q found
    split
    · rename_i msg _
      split_ifs
      · exact live.finish awake _
      · refine (live.ssWakeup found _ _).setCall ?_ (by simp)
        have outside := ((live.queues msgid q found).awake awake).1
        exact (congrArg Call.asleep (if_neg outside)).trans awake
    · split_ifs with waits
      · exact live.finish awake _
      · have alive : s.killed proc = false := by simpa [waits] using spared
        have sleeps := @Live.receiverSleeps s proc msgid mtype size q live found awake
        simpa [State.sched, State.setQueue, alive] using sleeps

/-- A step that spares the sleepers keeps the lists live. -/
theorem Live.step {act : Act} (live : Live s) (spares : Spares s act)
    (taken : s.step act = some s') : Live s' := by
  cases act with
  | send proc msgid msgp msgsz nowait page =>
    simp only [State.step, Option.ite_none_right_eq_some, Option.some.injEq] at taken
    obtain ⟨idle, rfl⟩ := taken
    have awake : (s.calls proc).asleep = false := by rw [idle]; rfl
    cases msgp with
    | none => exact live.finish awake _
    | some mtype =>
      simp only [State.startSend]
      split_ifs
      · exact live.finish awake _
      · cases page with
        | none => exact live.finish awake _
        | some addr => exact live.setCall awake (by simp)
  | receive proc msgid msgp msgsz mtype nowait =>
    simp only [State.step, Option.ite_none_right_eq_some, Option.some.injEq] at taken
    obtain ⟨idle, rfl⟩ := taken
    have awake : (s.calls proc).asleep = false := by rw [idle]; rfl
    rw [State.startReceive]
    split_ifs
    · exact live.finish awake _
    · exact live.setCall awake (by simp)
  | run proc =>
    rw [State.step] at taken
    split at taken
    · rename_i msgid msg nowait retry
      exact live.sendSection retry (fun dead => by simpa [retry, Call.maySleep] using spares dead)
        taken
    · rename_i msgid mtype size nowait before
      obtain rfl := Option.some.inj taken
      exact live.receiveSection before fun dead => by
        simpa [before, Call.maySleep] using spares dead
    · rename_i size msg has
      obtain rfl := Option.some.inj taken
      exact live.finish (by rw [has]; rfl) _
    · cases taken
  | kill proc user =>
    obtain rfl := Option.some.inj taken
    have flagged : Live { s with killed := Function.update s.killed proc true } :=
      ⟨live.queues, live.given⟩
    split_ifs with comes
    · have awake := spares comes
      refine flagged.setCall awake fun size same => live.given proc size ?_
      show s.calls proc = _
      cases call : s.calls proc <;> simp_all [Call.alert, Call.asleep]
    · exact flagged

/-- In every run in which `kill` spares the sleepers, each node on a list belongs to a process that
is blocked in that call on that queue, one node to a process, and no call goes on with a message
that nobody has given it. -/
theorem nodes_live (reached : machine.Reach Spares s) : Live s := by
  apply reached.invariant
  · intro s initial
    refine ⟨fun msgid q found => ?_, fun proc size => by simp [initial.2.1]⟩
    rw [initial.1 msgid q found]
    exact ⟨by simp, by simp, List.nodup_nil, List.nodup_nil⟩
  · exact fun s act s' _ live spares taken => live.step spares taken

end Steps

/-- The state with one empty queue, of the identifier 0. -/
def State.fresh : State where
  queues msgid := if msgid = 0 then some ⟨[], 0, [], []⟩ else none
  calls _ := .idle
  killed _ := false
  returned _ := 0

/-- A run may start there. -/
theorem fresh_init : machine.init State.fresh := by
  refine ⟨fun msgid q found => ?_, fun _ => rfl, fun _ => rfl⟩
  simp only [State.fresh, Option.ite_none_right_eq_some, Option.some.injEq] at found
  exact found.2.symm

/-- A receiver sleeps, and another process is killed. -/
theorem nodes_live_receiver : ∃ s, machine.Reach Spares s ∧
    (s.queues 0, s.killed 2) = (some ⟨[], 0, [], [⟨1, 0, 8⟩]⟩, true) ∧ Live s := by
  have shown : (machine.exec Spares State.fresh [.receive 1 0 true 8 0 false, .run 1,
      .kill 2 true]).map (fun s => (s.queues 0, s.killed 2)) =
        some (some ⟨[], 0, [], [⟨1, 0, 8⟩]⟩, true) := by
    decide +kernel
  obtain ⟨s, reached, shows⟩ := Machine.Reach.exec_map fresh_init shown
  exact ⟨s, reached, shows, nodes_live reached⟩

/-- A receiver that is killed in its sleep leaves its node on the list, and goes on with an `r_msg`
that nobody has set. -/
theorem kill_leaves_node : ∃ s, machine.Reach Machine.Any s ∧
    (s.queues 0, s.calls 1) = (some ⟨[], 0, [], [⟨1, 0, 8⟩]⟩, .woken 8 none) := by
  have shown : (machine.exec Machine.Any State.fresh [.receive 1 0 true 8 0 false, .run 1,
      .kill 1 true]).map (fun s => (s.queues 0, s.calls 1)) =
        some (some ⟨[], 0, [], [⟨1, 0, 8⟩]⟩, .woken 8 none) := by
    decide +kernel
  exact Machine.Reach.exec_map fresh_init shown

end OsLab.Common.MsgWait
