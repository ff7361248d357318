import OsLab.Common.List
import OsLab.Kernel.Sched

/-!
# The lists of a message queue

The loops of `src/common/ipc.c` over the three lists of a queue: the messages, the blocked senders
and the blocked receivers. `sys_msgrcv` searches the messages, `pipeline_send` the receivers, and
`ss_wakeup`, `expunge_all` and `freeque` empty a list from its front. Each runs under
`msg_ids.lock`. A structure is named by its list node, which is its first member, and a loop is
followed for a number of turns. The text of messages is left out.
-/
namespace OsLab.Common.MsgLists

open OsLab.Kernel.Sched (ProcState)

/-- `testmsg`. -/
def testmsg (rqtype type : Int) : Bool :=
  if rqtype = 0 then true
  else if rqtype < 0 then decide (rqtype + type ≤ 0)
  else decide (rqtype = type)

/-- The loop of `sys_msgrcv` over the messages with `mtype` and `found_msg`: with a type below -1 it
goes on behind the message found, asking for less. -/
def findMsg {α : Type} (type : α → Int) : Int → Option α → List α → Option α
  | _, found, [] => found
  | mtype, found, msg :: rest =>
    if testmsg mtype (type msg) then
      if mtype < -1 then findMsg type (mtype + 1) (some msg) rest else some msg
    else findMsg type mtype found rest

/-- `msg_queue`, without its key. -/
structure MsgQueue where
  /-- The head of the messages. -/
  qMessage : Nat
  /-- The head of the blocked senders. -/
  qSender : Nat
  /-- The head of the blocked receivers. -/
  qReceiver : Nat
  sumMsg : Int
  deriving Repr, DecidableEq

/-- The memory that a call on one identifier works on. -/
structure State where
  links : Links
  /-- What `get_msgq` finds for the identifier. -/
  msgq : Option MsgQueue
  /-- `proc` of a `msg_sender` or `msg_receiver`; it is at the same place in both. -/
  proc : Nat → Nat
  /-- `mtype` of a `msg_receiver`. -/
  rcverType : Nat → Int
  /-- `size` of a `msg_receiver`. -/
  rcverSize : Nat → Int
  /-- `r_msg` of a `msg_receiver`, 0 for `NULL`. -/
  rMsg : Nat → Nat
  /-- `mtype` of a `msg_msg`. -/
  msgType : Nat → Int
  msgSize : Nat → Int
  state : Nat → ProcState
  /-- The processes made runnable, in this order. -/
  activated : List Nat
  /-- The messages given to `free_msg`, in this order. -/
  freed : List Nat

namespace State

/-- `activate_proc`. -/
def activateProc (s : State) (proc : Nat) : State :=
  match s.state proc with
  | .running | .runnable | .zombie => s
  | .sleeping | .unused | .deepSleeping =>
    { s with
      state := Function.update s.state proc .runnable
      activated := s.activated ++ [proc] }

/-- `_detach_from_list`. -/
def detach (s : State) (node : Nat) : State := { s with links := s.links.detachFromList node }

/-- `rcver->r_msg=msg` and `activate_proc(rcver->proc)`. -/
def answer (s : State) (rcver msg : Nat) : State :=
  { s with rMsg := Function.update s.rMsg rcver msg }.activateProc (s.proc rcver)

/-- `while(!_empty_list(head))`: the first node is detached, and something is done with it. -/
def drain (work : State → Nat → State) (head : Nat) : Nat → State → Option State
  | 0, _ => none
  | fuel + 1, s =>
    let node := s.links.next head
    if node = head then some s
    else drain work head fuel (work (s.detach node) node)

/-- `ss_wakeup`. -/
def ssWakeup (head fuel : Nat) (s : State) : Option State :=
  s.drain (fun s node => s.activateProc (s.proc node)) head fuel

/-- `expunge_all`. -/
def expungeAll (q : MsgQueue) (fuel : Nat) (s : State) : Option State :=
  s.drain (fun s node => s.answer node 0) q.qReceiver fuel

/-- The loop of `freeque` that frees the messages. -/
def freeMessages (q : MsgQueue) (fuel : Nat) (s : State) : Option State :=
  s.drain (fun s node => { s with freed := s.freed ++ [node] }) q.qMessage fuel

/-- `freeque`. -/
def freeque (fuel : Nat) (s : State) : Option State :=
  match s.msgq with
  | none => some s
  | some q =>
    (({ s with msgq := none }.ssWakeup q.qReceiver fuel).bind (expungeAll q fuel)).bind
      (freeMessages q fuel)

/-- `sys_msgctl`: 0, or `EINVAL` where the command is not `IPC_RMID`. -/
def sysMsgctl (cmd : Int) (fuel : Nat) (s : State) : Option (Int × State) :=
  if cmd = 0 then (s.freeque fuel).map fun s => (0, s) else some (-5, s)

/-- The loop of `pipeline_send` from a node on: 1 where the message was handed over. -/
def pipelineSend (flag msg : Nat) : Nat → Nat → State → Option (Int × State)
  | 0, _, _ => none
  | fuel + 1, node, s =>
    if node = 0 ∨ node = flag then some (0, s)
    else if testmsg (s.rcverType node) (s.msgType msg) then
      let s := s.detach node
      if s.rcverSize node < s.msgSize msg then
        let s := s.answer node 0
        pipelineSend flag msg fuel (s.links.next node) s
      else some (1, s.answer node msg)
    else pipelineSend flag msg fuel (s.links.next node) s

end State

/-- How the section of `sys_msgrcv` under the lock ends. -/
inductive Section where
  /-- `EIDRM`: there is no such queue. -/
  | eidrm
  /-- `E2BIG`: the message found does not fit. -/
  | e2big
  /-- `ENOMSG`: there is no message, and the call must not wait. -/
  | enomsg
  /-- The message is taken from the list. -/
  | took (msg : Nat)
  /-- The call goes to sleep on `q_receiver`. -/
  | asleep
  deriving Repr, DecidableEq

namespace State

/-- The section of `sys_msgrcv` under `msg_ids.lock`, for a process whose `msg_receiver` would be
`receiver`. -/
def msgrcvSection (receiver proc : Nat) (msgsz mtype : Int) (nowait : Bool) (fuel : Nat)
    (s : State) : Option (Section × State) :=
  match s.msgq with
  | none => some (.eidrm, s)
  | some q =>
    (s.links.forInList q.qMessage fuel (s.links.next q.qMessage)).bind fun nodes =>
      -- the loop breaks at the head
      match findMsg s.msgType mtype none (nodes.takeWhile (· ≠ q.qMessage)) with
      | some msg =>
        if msgsz < s.msgSize msg then some (.e2big, s)
        else
          let s := { s.detach msg with msgq := some { q with sumMsg := q.sumMsg - 1 } }
          (s.ssWakeup q.qSender fuel).map fun s => (.took msg, s)
      | none =>
        if nowait then some (.enomsg, s)
        else some (.asleep, { s with
          links := s.links.insertIntoList (s.links.prev q.qReceiver) receiver
          rcverType := Function.update s.rcverType receiver mtype
          proc := Function.update s.proc receiver proc
          rcverSize := Function.update s.rcverSize receiver msgsz })

end State

section Answer

variable (s : State) (rcver msg : Nat)

@[simp] theorem answer_links : (s.answer rcver msg).links = s.links := by
  rw [State.answer, State.activateProc]; split <;> rfl
@[simp] theorem answer_rcverType : (s.answer rcver msg).rcverType = s.rcverType := by
  rw [State.answer, State.activateProc]; split <;> rfl
@[simp] theorem answer_rcverSize : (s.answer rcver msg).rcverSize = s.rcverSize := by
  rw [State.answer, State.activateProc]; split <;> rfl
@[simp] theorem answer_msgType : (s.answer rcver msg).msgType = s.msgType := by
  rw [State.answer, State.activateProc]; split <;> rfl
@[simp] theorem answer_msgSize : (s.answer rcver msg).msgSize = s.msgSize := by
  rw [State.answer, State.activateProc]; split <;> rfl

end Answer

/-- The lists of a queue hold these nodes. -/
structure Lists (s : State) (q : MsgQueue) (senders receivers messages : List Nat) : Prop where
  sendRing : s.links.Ring q.qSender senders
  rcvRing : s.links.Ring q.qReceiver receivers
  msgRing : s.links.Ring q.qMessage messages
  apart : (q.qSender :: senders ++ q.qReceiver :: receivers ++ q.qMessage :: messages).Nodup

/-- The queue with the heads 1, 2 and 3. -/
def sampleQueue : MsgQueue := ⟨1, 2, 3, 2⟩

/-- A queue with the messages 10 and 11 of these types and with the receiver 30, whose buffer has
this size and whose `r_msg` holds this. -/
def sample (first second size : Int) (rMsg : Nat) : State where
  links :=
    { next := fun | 1 => 10 | 10 => 11 | 11 => 1 | 3 => 30 | 30 => 3 | node => node
      prev := fun | 1 => 11 | 10 => 1 | 11 => 10 | 3 => 30 | 30 => 3 | node => node }
  msgq := some sampleQueue
  proc := id
  rcverType _ := 2
  rcverSize _ := size
  rMsg _ := rMsg
  msgType := fun | 10 => first | 11 => second | _ => 2
  msgSize _ := 4
  state _ := .sleeping
  activated := []
  freed := []

theorem sample_lists (first second size : Int) (rMsg : Nat) :
    Lists (sample first second size rMsg) sampleQueue [] [30] [10, 11] where
  sendRing := ⟨⟨rfl, rfl⟩, by decide, by decide⟩
  rcvRing := ⟨⟨rfl, rfl, rfl, rfl⟩, by decide, by decide⟩
  msgRing := ⟨⟨rfl, rfl, rfl, rfl, rfl, rfl⟩, by decide, by decide⟩
  apart := by decide

/-! ## Emptying a list -/

section Draining

variable {s : State} {q : MsgQueue} {work : State → Nat → State} {head : Nat}
  {nodes senders receivers messages : List Nat}

/-- What is done with a node neither reads nor changes the lists. -/
def Passive (work : State → Nat → State) : Prop :=
  ∀ s links node, work { s with links := links } node = { work s node with links := links }

/-- A sequence of such steps does not touch the lists either. -/
theorem Passive.foldl (passive : Passive work) (s : State) (links : Links) (nodes : List Nat) :
    nodes.foldl work { s with links := links } = { nodes.foldl work s with links := links } := by
  induction nodes generalizing s with
  | nil => rfl
  | cons node rest ih => rw [List.foldl_cons, passive, ih, List.foldl_cons]

/-- The loop ends with the list empty, has worked on its nodes from the front, and no other list
has changed. -/
theorem drain_ring (passive : Passive work) (ring : s.links.Ring head nodes) :
    ∃ links : Links, links.Ring head [] ∧
      (∀ other ∉ head :: nodes, links.next other = s.links.next other ∧
        links.prev other = s.links.prev other) ∧
      ∀ fuel, nodes.length < fuel →
        s.drain work head fuel = some { nodes.foldl work s with links := links } := by
  induction nodes generalizing s with
  | nil =>
    refine ⟨s.links, ring, fun other _ => ⟨rfl, rfl⟩, fun fuel enough => ?_⟩
    obtain ⟨fuel, rfl⟩ : ∃ less, fuel = less + 1 := ⟨fuel - 1, by omega⟩
    simp [State.drain, ring.linked.1]
  | cons first rest ih =>
    have next : s.links.next head = first := ring.linked.1
    have apart : first ≠ head := by
      have nodup := ring.nodup
      simp only [List.nodup_cons, List.mem_cons, not_or] at nodup
      exact Ne.symm nodup.1.1
    have worked : work (s.detach first) first =
        { work s first with links := s.links.detachFromList first } := passive s _ first
    obtain ⟨links, empty, same, ends⟩ := @ih (work (s.detach first) first) (by
      rw [worked]
      exact @Links.Ring.detachFromList _ _ _ [] rest ring)
    refine ⟨links, empty, fun other outside => ?_, fun fuel enough => ?_⟩
    · have kept := ring.detachFromList_other List.mem_cons_self outside
      have now := same other fun inside => outside (by
        rcases List.mem_cons.mp inside with rfl | inside
        · exact List.mem_cons_self
        · exact List.mem_cons_of_mem _ (List.mem_cons_of_mem _ inside))
      rw [worked] at now
      exact ⟨now.1.trans kept.1, now.2.trans kept.2⟩
    · obtain ⟨fuel, rfl⟩ : ∃ less, fuel = less + 1 := ⟨fuel - 1, by omega⟩
      rw [List.length_cons] at enough
      rw [State.drain]
      simp only [next, apart, if_false]
      rw [ends fuel (by omega), worked, passive.foldl, List.foldl_cons]

/-- `activate_proc` does not look at the lists. -/
theorem activateProc_with_links (s : State) (links : Links) (proc : Nat) :
    { s with links := links }.activateProc proc = { s.activateProc proc with links := links } := by
  simp only [State.activateProc]
  split <;> rfl

theorem passive_wakeup : Passive fun s node => s.activateProc (s.proc node) :=
  fun s links node => activateProc_with_links s links (s.proc node)

theorem passive_free : Passive fun s node => { s with freed := s.freed ++ [node] } :=
  fun _ _ _ => rfl

/-- A list of a queue stays as it is where no node of it is touched. -/
theorem ring_kept {l l' : Links} {other : Nat} {others : List Nat} (ring : l.Ring other others)
    (same : ∀ node ∉ head :: nodes, l'.next node = l.next node ∧ l'.prev node = l.prev node)
    (apart : ∀ node ∈ other :: others, node ∉ head :: nodes) : l'.Ring other others :=
  ring.congr fun node member => same node (apart node member)

/-- The processes of some nodes are made runnable. -/
def State.woken (s : State) (nodes : List Nat) : State :=
  { s with
    state := fun proc => if proc ∈ nodes.map s.proc then .runnable else s.state proc
    activated := s.activated ++ nodes.map s.proc }

/-- Sleeping processes are activated one after the other. -/
theorem foldl_activateProc (asleep : ∀ node ∈ nodes, s.state (s.proc node) = .sleeping)
    (distinct : (nodes.map s.proc).Nodup) :
    nodes.foldl (fun s node => s.activateProc (s.proc node)) s = s.woken nodes := by
  induction nodes generalizing s with
  | nil => simp [State.woken]
  | cons first rest ih =>
    rw [List.map_cons, List.nodup_cons] at distinct
    have wakes : s.activateProc (s.proc first) =
        { s with
          state := Function.update s.state (s.proc first) .runnable
          activated := s.activated ++ [s.proc first] } := by
      rw [State.activateProc, asleep first List.mem_cons_self]
    have others : ∀ node ∈ rest, s.proc node ≠ s.proc first := by
      intro node member same
      exact distinct.1 (same ▸ List.mem_map_of_mem member)
    have stillAsleep : ∀ node ∈ rest, (s.activateProc (s.proc first)).state
        ((s.activateProc (s.proc first)).proc node) = .sleeping := by
      intro node member
      rw [wakes]
      show Function.update s.state (s.proc first) .runnable (s.proc node) = .sleeping
      rw [Function.update_of_ne (others node member)]
      exact asleep node (List.mem_cons_of_mem _ member)
    have later := @ih (s.activateProc (s.proc first)) stillAsleep (by rw [wakes]; exact distinct.2)
    rw [List.foldl_cons, later, wakes, State.woken, State.woken]
    simp only [List.map_cons, List.mem_cons, List.append_assoc, List.singleton_append]
    congr 1
    funext proc
    rw [Function.update_apply]
    split_ifs <;> grind

/-- What the loop over the messages leaves. -/
theorem foldl_free : nodes.foldl (fun s node => { s with freed := s.freed ++ [node] }) s =
    { s with freed := s.freed ++ nodes } := by
  induction nodes generalizing s with
  | nil => simp
  | cons first rest ih => rw [List.foldl_cons, ih, List.append_assoc]; rfl

end Draining

/-! ## Receiving by type bound -/

section Receiving

variable {s : State} {q : MsgQueue} {mtype : Int}

/-- A negative request accepts the types up to its bound. -/
theorem testmsg_neg (negative : mtype < 0) (type : Int) :
    testmsg mtype type = true ↔ type ≤ -mtype := by
  rw [testmsg, if_neg (by omega), if_pos negative, decide_eq_true_iff]
  omega

/-- A request with a lower bound. -/
theorem testmsg_succ (low : mtype < -1) (type : Int) :
    testmsg (mtype + 1) type = true ↔ type < -mtype := by
  rw [testmsg_neg (by omega)]
  omega

/-- Of the messages that the request accepts this one has the smallest type, and of those it is the
first. -/
structure Least (s : State) (mtype : Int) (before : List Nat) (msg : Nat) (after : List Nat) :
    Prop where
  accepted : testmsg mtype (s.msgType msg)
  ahead : ∀ other ∈ before, testmsg mtype (s.msgType other) → s.msgType msg < s.msgType other
  behind : ∀ other ∈ after, testmsg mtype (s.msgType other) → s.msgType msg ≤ s.msgType other

/-- The message that is to be taken. -/
def Smallest (s : State) (mtype : Int) (messages : List Nat) (msg : Nat) : Prop :=
  ∃ before after, messages = before ++ msg :: after ∧ Least s mtype before msg after

/-- The bound that the search has behind some messages: each one that it accepts lowers it by
one. -/
def lowered (s : State) : Int → List Nat → Int
  | bound, [] => bound
  | bound, msg :: rest => lowered s (if s.msgType msg ≤ bound then bound - 1 else bound) rest

/-- Behind the message that is to be taken there is none below the bound that the search has come
down to. -/
def Settled (s : State) (mtype : Int) (messages : List Nat) : Prop :=
  ∃ before msg after, messages = before ++ msg :: after ∧ Least s mtype before msg after ∧
    ∀ other ∈ after, lowered s (-mtype) before ≤ s.msgType other

/-- The search gives one of the messages if it accepts any, and what it had found before
otherwise. -/
theorem findMsg_cases (s : State) (mtype : Int) (found : Option Nat) (messages : List Nat) :
    (∀ msg ∈ messages, ¬ testmsg mtype (s.msgType msg)) ∧
        findMsg s.msgType mtype found messages = found ∨
      (∃ msg ∈ messages, testmsg mtype (s.msgType msg)) ∧
        ∃ msg ∈ messages, findMsg s.msgType mtype found messages = some msg := by
  induction messages generalizing mtype found with
  | nil => exact .inl ⟨by simp, rfl⟩
  | cons first rest ih =>
    rw [findMsg]
    by_cases accepted : testmsg mtype (s.msgType first)
    · rw [if_pos accepted]
      split
      · obtain ⟨-, gives⟩ | ⟨-, msg, member, gives⟩ := ih (mtype + 1) (some first)
        · exact .inr ⟨⟨first, by simp, accepted⟩, first, by simp, gives⟩
        · exact .inr ⟨⟨first, by simp, accepted⟩, msg, by simp [member], gives⟩
      · exact .inr ⟨⟨first, by simp, accepted⟩, first, by simp, rfl⟩
    · rw [if_neg accepted]
      obtain ⟨nothing, gives⟩ | ⟨⟨other, inside, fits⟩, msg, member, gives⟩ := ih mtype found
      · exact .inl ⟨List.forall_mem_cons.mpr ⟨accepted, nothing⟩, gives⟩
      · exact .inr ⟨⟨other, by simp [inside], fits⟩, msg, by simp [member], gives⟩

/-- The search comes to a message of the smallest type with a bound that accepts it. -/
theorem findMsg_append {least : Int} {before : List Nat} (rest : List Nat) (positive : 1 ≤ least)
    (fits : least ≤ -mtype)
    (ahead : ∀ other ∈ before, testmsg mtype (s.msgType other) → least < s.msgType other)
    (found : Option Nat) :
    least ≤ lowered s (-mtype) before ∧ ∃ found', findMsg s.msgType mtype found (before ++ rest) =
      findMsg s.msgType (-lowered s (-mtype) before) found' rest := by
  induction before generalizing mtype found with
  | nil => exact ⟨fits, found, by rw [lowered, Int.neg_neg, List.nil_append]⟩
  | cons first before ih =>
    rw [List.forall_mem_cons] at ahead
    have bound := testmsg_neg (show mtype < 0 by omega)
    rw [lowered, List.cons_append, findMsg]
    by_cases accepted : s.msgType first ≤ -mtype
    · -- the types ahead are larger than 1, so the bound that accepts one can still be lowered
      have larger := ahead.1 ((bound _).mpr accepted)
      rw [if_pos accepted, if_pos ((bound _).mpr accepted), if_pos (by omega),
        show -mtype - 1 = -(mtype + 1) by omega]
      refine ih (by omega) (fun other member later => ahead.2 other member ?_) _
      rw [testmsg_neg (by omega)] at later
      exact (bound _).mpr (by omega)
    · rw [if_neg accepted, if_neg (mt (bound _).mp accepted)]
      exact ih fits ahead.2 found

/-- The search gives the message that is to be taken exactly when nothing behind it is below the
bound. -/
theorem findMsg_least {before after : List Nat} {msg : Nat} (negative : mtype < 0)
    (types : ∀ other ∈ msg :: after, 1 ≤ s.msgType other) (once : msg ∉ after)
    (least : Least s mtype before msg after) :
    findMsg s.msgType mtype none (before ++ msg :: after) = some msg ↔
      ∀ other ∈ after, lowered s (-mtype) before ≤ s.msgType other := by
  rw [List.forall_mem_cons] at types
  obtain ⟨fits, found, arrives⟩ := findMsg_append (msg :: after) types.1
    ((testmsg_neg negative _).mp least.accepted) least.ahead none
  generalize lowered s (-mtype) before = bound at fits arrives ⊢
  rw [arrives, findMsg, if_pos ((testmsg_neg (by omega) _).mpr (by omega))]
  by_cases low : -bound < -1
  · have next := testmsg_succ low
    rw [if_pos low]
    obtain ⟨nothing, gives⟩ | ⟨⟨smaller, inside, fits⟩, other, member, gives⟩ :=
      findMsg_cases s (-bound + 1) (some msg) after
    · refine ⟨fun _ other member => ?_, fun _ => gives⟩
      have refused := mt (next _).mpr (nothing other member)
      omega
    · rw [gives]
      refine ⟨fun same => ?_, fun high => ?_⟩
      · exact absurd (Option.some.inj same ▸ member) once
      · have small := (next _).mp fits
        have large := high smaller inside
        omega
  · rw [if_neg low]
    refine ⟨fun _ other member => ?_, fun _ => rfl⟩
    have least := types.2 other member
    omega

/-- What the section of `sys_msgrcv` does with the message that the search gives. -/
theorem msgrcvSection_found {senders receivers messages : List Nat} {msg : Nat}
    (receiver proc : Nat) (msgsz : Int) (nowait : Bool)
    (lists : Lists s q senders receivers messages) (live : s.msgq = some q)
    (member : msg ∈ messages) (gives : findMsg s.msgType mtype none messages = some msg) :
    ∃ enough s', (∀ fuel, enough ≤ fuel →
        s.msgrcvSection receiver proc msgsz mtype nowait fuel =
          some (if msgsz < s.msgSize msg then (.e2big, s) else (.took msg, s'))) ∧
      s'.links.Ring q.qMessage (messages.erase msg) := by
  have reads : (messages ++ [q.qMessage]).takeWhile (· ≠ q.qMessage) = messages := by
    have outside := (List.nodup_cons.mp lists.msgRing.nodup).1
    rw [List.takeWhile_append_of_pos, List.takeWhile_cons_of_neg (by simp), List.append_nil]
    intro node member
    exact decide_eq_true fun same => outside (same ▸ member)
  have apart : ∀ node ∈ q.qSender :: senders, node ∉ q.qMessage :: messages := by
    intro node inside there
    have nodup := lists.apart
    rw [List.append_assoc, List.nodup_append] at nodup
    exact nodup.2.2 node inside node (List.mem_append_right _ there) rfl
  let s₁ : State := { s.detach msg with msgq := some { q with sumMsg := q.sumMsg - 1 } }
  have sendRing : s₁.links.Ring q.qSender senders :=
    ring_kept lists.sendRing (fun _ away => lists.msgRing.detachFromList_other member away) apart
  obtain ⟨links, -, same, ends⟩ := drain_ring passive_wakeup sendRing
  refine ⟨max senders.length messages.length + 1,
    { senders.foldl (fun s node => s.activateProc (s.proc node)) s₁ with links := links },
    fun fuel enough => ?_,
    ring_kept (lists.msgRing.erase member) same fun node inside there =>
      apart node there (List.cons_subset_cons _ List.erase_subset inside)⟩
  rw [State.msgrcvSection, live]
  simp only [lists.msgRing.forInList (show messages.length < fuel by omega), Option.bind_some,
    reads, gives]
  split
  · rfl
  · have woken := ends fuel (by omega)
    exact congrArg (Option.map fun s => (Section.took msg, s)) woken

/-- Every section of `sys_msgrcv` with this negative type takes the first one of the smallest type
that it accepts, unless that one is too long, exactly when the list of messages is settled. -/
theorem msgrcv_takes_smallest {senders receivers messages : List Nat}
    (lists : Lists s q senders receivers messages) (live : s.msgq = some q)
    (types : ∀ msg ∈ messages, 1 ≤ s.msgType msg) (negative : mtype < 0) :
    Settled s mtype messages ↔ ∀ (receiver proc : Nat) (msgsz : Int) (nowait : Bool),
      ∃ msg, Smallest s mtype messages msg ∧ ∃ enough s', (∀ fuel, enough ≤ fuel →
          s.msgrcvSection receiver proc msgsz mtype nowait fuel =
            some (if msgsz < s.msgSize msg then (.e2big, s) else (.took msg, s'))) ∧
        s'.links.Ring q.qMessage (messages.erase msg) := by
  have nodup := (List.nodup_cons.mp lists.msgRing.nodup).2
  have exact : ∀ {before after : List Nat} {msg : Nat}, messages = before ++ msg :: after →
      Least s mtype before msg after →
      (findMsg s.msgType mtype none messages = some msg ↔
        ∀ other ∈ after, lowered s (-mtype) before ≤ s.msgType other) := by
    rintro before after msg rfl least
    have once := (List.nodup_cons.mp (List.nodup_append.mp nodup).2.1).1
    exact findMsg_least negative (fun other member => types other (by simp [member])) once least
  constructor
  · rintro ⟨before, msg, after, split, least, high⟩ receiver proc msgsz nowait
    exact ⟨msg, ⟨before, after, split, least⟩, msgrcvSection_found receiver proc msgsz nowait lists
      live (by simp [split]) ((exact split least).mpr high)⟩
  · -- with room for just the message that the search gives, that message is taken
    intro takes
    obtain ⟨_, ⟨_, _, split, least⟩, _⟩ := takes 0 0 0 false
    obtain ⟨nothing, -⟩ | ⟨-, found, member, gives⟩ := findMsg_cases s mtype none messages
    · exact absurd least.accepted (nothing _ (by simp [split]))
    obtain ⟨enough, s', runs, -⟩ :=
      msgrcvSection_found 0 0 (s.msgSize found) false lists live member gives
    obtain ⟨msg, ⟨before, after, split, least⟩, enough', s'', runs', -⟩ :=
      takes 0 0 (s.msgSize found) false
    have same := Option.some.inj ((runs (max enough enough') (by omega)).symm.trans
      (runs' (max enough enough') (by omega)))
    rw [if_neg (by omega)] at same
    split_ifs at same
    · exact absurd (congrArg Prod.fst same) (by simp)
    · obtain rfl : found = msg := by simpa using congrArg Prod.fst same
      exact ⟨before, found, after, split, least, (exact split least).mp gives⟩

/-- Of the types 3 and 1 the second is taken. -/
theorem msgrcv_takes_smallest_second : ∃ msg, Smallest (sample 3 1 8 0) (-5) [10, 11] msg ∧
    ∃ enough s', ∀ fuel, enough ≤ fuel →
      (sample 3 1 8 0).msgrcvSection 31 31 8 (-5) false fuel = some (.took msg, s') := by
  have settled : Settled (sample 3 1 8 0) (-5) [10, 11] :=
    ⟨[10], 11, [], rfl, ⟨by decide, by decide, by decide⟩, by decide⟩
  obtain ⟨msg, smallest, enough, s', ends, -⟩ := (msgrcv_takes_smallest (sample_lists 3 1 8 0) rfl
    (by decide) (show (-5 : Int) < 0 by decide)).mp settled 31 31 8 false
  exact ⟨msg, smallest, enough, s', ends⟩

/-- Of the types 1 and 3 the second is taken as well: one match lowers the bound only from 5
to 4. -/
theorem msgrcv_takes_larger :
    ((sample 1 3 8 0).msgrcvSection 31 31 8 (-5) false 9).map (fun result => result.1) =
        some (.took 11) ∧
      (sample 1 3 8 0).msgType 10 = 1 ∧ (sample 1 3 8 0).msgType 11 = 3 := by
  decide +kernel

end Receiving

/-! ## Handing a message to a receiver -/

section HandingOff

variable {s : State} {msg head : Nat} {nodes : List Nat}

/-- The receiver asks for messages of the type. -/
def State.matching (s : State) (msg node : Nat) : Bool := testmsg (s.rcverType node) (s.msgType msg)

/-- The receiver asks for messages of the type, and its buffer is large enough. -/
def State.roomy (s : State) (msg node : Nat) : Bool :=
  s.matching msg node && decide (s.msgSize msg ≤ s.rcverSize node)

/-- The receivers that ask for the message, have too small a buffer and come before the first one
that can take it. -/
def State.refused (s : State) (msg : Nat) (nodes : List Nat) : List Nat :=
  (nodes.takeWhile fun node => !s.roomy msg node).filter (s.matching msg)

/-- The receiver that is to have the message. -/
def State.taker (s : State) (msg : Nat) (nodes : List Nat) : Option Nat :=
  nodes.find? (s.roomy msg)

/-- What `pipeline_send` is to do with the receivers `nodes`. -/
structure HandedOff (s s' : State) (msg head : Nat) (nodes : List Nat) (ret : Int) : Prop where
  ret : ret = if (s.taker msg nodes).isSome then 1 else 0
  /-- The receiver has it, and those that cannot take it get nothing. -/
  rMsg : ∀ node, s'.rMsg node = if node ∈ s.refused msg nodes then 0
    else if s.taker msg nodes = some node then msg else s.rMsg node
  woken : s'.activated =
    s.activated ++ (s.refused msg nodes ++ (s.taker msg nodes).toList).map s.proc
  runnable : ∀ node ∈ s.refused msg nodes ++ (s.taker msg nodes).toList,
    s'.state (s.proc node) = .runnable
  queued : s'.links.Ring head
    (nodes.filter fun node => node ∉ s.refused msg nodes ++ (s.taker msg nodes).toList)

/-- The loop passes the receivers that do not ask for the message. -/
theorem pipelineSend_skip {prev node fuel : Nat} {before : List Nat}
    (linked : s.links.Linked prev before node)
    (others : ∀ other ∈ before, other ≠ 0 ∧ other ≠ head ∧ s.matching msg other = false) :
    State.pipelineSend head msg fuel (s.links.next prev) s =
      State.pipelineSend head msg (fuel - before.length) node s := by
  induction before generalizing prev fuel with
  | nil => rw [linked.1, List.length_nil, Nat.sub_zero]
  | cons first rest ih =>
    rw [List.length_cons]
    cases fuel with
    | zero =>
      rw [Nat.zero_sub]
      rfl
    | succ fuel =>
      obtain ⟨nonzero, elsewhere, different⟩ := others first List.mem_cons_self
      rw [State.matching] at different
      have step : State.pipelineSend head msg (fuel + 1) first s =
          State.pipelineSend head msg fuel (s.links.next first) s := by
        simp [State.pipelineSend, nonzero, elsewhere, different]
      rw [linked.1, step, Nat.add_sub_add_right]
      exact ih linked.2.2 fun other member => others other (List.mem_cons_of_mem _ member)

/-- The loop does not leave a receiver whose buffer is too small: it has taken its node out of the
list, and the node leads to itself. -/
theorem pipelineSend_endless {node : Nat} (fuel : Nat) (nonzero : node ≠ 0)
    (elsewhere : node ≠ head) (asks : s.matching msg node = true)
    (small : s.rcverSize node < s.msgSize msg) :
    State.pipelineSend head msg fuel node s = none := by
  induction fuel generalizing s with
  | zero => rfl
  | succ fuel ih =>
    let s₁ := (s.detach node).answer node 0
    have itself : s₁.links.next node = node := by
      simp [s₁, State.detach, Links.detachFromList, Links.initListNode]
    have again : State.pipelineSend head msg fuel node s₁ = none := by
      apply ih
      · simpa [s₁, State.matching, State.detach] using asks
      · simpa [s₁, State.detach] using small
    rw [State.matching] at asks
    rw [State.pipelineSend, if_neg (by simp [nonzero, elsewhere]), if_pos asks]
    dsimp only
    rw [if_pos (show (s.detach node).rcverSize node < (s.detach node).msgSize msg from small)]
    show State.pipelineSend head msg fuel (s₁.links.next node) s₁ = none
    rw [itself, again]

/-- A run of the loop comes to the first receiver that asks for the message. -/
theorem pipelineSend_first {node : Nat} (ring : s.links.Ring head nodes)
    (first : nodes.find? (s.matching msg) = some node) :
    node ∈ nodes ∧ node ≠ 0 ∧ node ≠ head ∧ s.matching msg node = true ∧ ∃ passed < nodes.length,
      ∀ fuel, State.pipelineSend head msg fuel (s.links.next head) s =
        State.pipelineSend head msg (fuel - passed) node s := by
  obtain ⟨asks, before, after, rfl, others⟩ := List.find?_eq_some_iff_append.mp first
  have nodup := (List.nodup_cons.mp ring.nodup).1
  have nonzero := ring.nonzero
  simp only [List.mem_append, List.mem_cons, not_or] at nodup nonzero
  have skips : ∀ other ∈ before, other ≠ 0 ∧ other ≠ head ∧ s.matching msg other = false := by
    intro other member
    refine ⟨?_, ?_, by simpa using others other member⟩
    · rintro rfl
      exact nonzero.2.1 member
    · rintro rfl
      exact nodup.1 member
  have linked := (Links.linked_append.mp ring.linked).1
  refine ⟨by simp, Ne.symm nonzero.2.2.1, Ne.symm nodup.2.1, asks, before.length, by simp, ?_⟩
  exact fun fuel => pipelineSend_skip linked skips

/-- A list of receivers of which the first that asks for the message has too small a buffer keeps
`pipeline_send` forever. -/
theorem pipelineSend_stuck {node : Nat} (ring : s.links.Ring head nodes)
    (first : nodes.find? (s.matching msg) = some node) (small : s.rcverSize node < s.msgSize msg)
    (fuel : Nat) : State.pipelineSend head msg fuel (s.links.next head) s = none := by
  obtain ⟨-, nonzero, elsewhere, asks, passed, -, reaches⟩ := pipelineSend_first ring first
  rw [reaches]
  exact pipelineSend_endless _ nonzero elsewhere asks small

/-- Where the first receiver that asks for the message has room for it, nobody is refused, and it
is the one to have it. -/
theorem taker_first {node : Nat} (first : nodes.find? (s.matching msg) = some node)
    (room : s.msgSize msg ≤ s.rcverSize node) :
    s.refused msg nodes = [] ∧ s.taker msg nodes = some node := by
  obtain ⟨asks, before, after, rfl, others⟩ := List.find?_eq_some_iff_append.mp first
  have takes : s.roomy msg node = true := by simp [State.roomy, asks, room]
  have passes : ∀ other ∈ before, s.roomy msg other = false := by
    intro other member
    have different : s.matching msg other = false := by simpa using others other member
    simp [State.roomy, different]
  constructor
  · rw [State.refused, List.takeWhile_append_of_pos (by simpa using passes),
      List.takeWhile_cons_of_neg (by simp [takes]), List.append_nil]
    exact List.filter_eq_nil_iff.mpr (by simpa using others)
  · exact List.find?_eq_some_iff_append.mpr ⟨takes, before, after, rfl, by simpa using passes⟩

/-- Where the first receiver that asks for the message has room for it, `pipeline_send` ends and does
what it is to do. -/
theorem pipelineSend_handedOff (ring : s.links.Ring head nodes)
    (asleep : ∀ node ∈ nodes, s.state (s.proc node) = .sleeping)
    (room : ∀ node, nodes.find? (s.matching msg) = some node →
      s.msgSize msg ≤ s.rcverSize node) :
    ∃ ret s', HandedOff s s' msg head nodes ret ∧ ∀ fuel, nodes.length < fuel →
      State.pipelineSend head msg fuel (s.links.next head) s = some (ret, s') := by
  cases first : nodes.find? (s.matching msg) with
  | none =>
    have nobody := List.find?_eq_none.mp first
    have refused : s.refused msg nodes = [] := by
      rw [State.refused, List.filter_eq_nil_iff]
      exact fun node member => nobody node ((List.takeWhile_sublist _).subset member)
    have taker : s.taker msg nodes = none := by
      rw [State.taker, List.find?_eq_none]
      intro node member
      have different : s.matching msg node = false := by simpa using nobody node member
      simp [State.roomy, different]
    refine ⟨0, s, ⟨by simp [taker], by simp [refused, taker], by simp [refused, taker],
      by simp [refused, taker], by simpa [refused, taker] using ring⟩, fun fuel enough => ?_⟩
    have skips : ∀ other ∈ nodes, other ≠ 0 ∧ other ≠ head ∧ s.matching msg other = false := by
      intro other member
      refine ⟨fun zero => ring.nonzero (zero ▸ List.mem_cons_of_mem _ member), fun same =>
        (List.nodup_cons.mp ring.nodup).1 (same ▸ member), by simpa using nobody other member⟩
    rw [pipelineSend_skip ring.linked skips]
    obtain ⟨more, left⟩ : ∃ more, fuel - nodes.length = more + 1 :=
      ⟨fuel - nodes.length - 1, by omega⟩
    simp [left, State.pipelineSend]
  | some node =>
    obtain ⟨member, nonzero, elsewhere, asks, passed, short, reaches⟩ :=
      pipelineSend_first ring first
    obtain ⟨refused, taker⟩ := taker_first first (room node first)
    have wakes : (s.detach node).answer node msg = { s with
        links := s.links.detachFromList node
        rMsg := Function.update s.rMsg node msg
        state := Function.update s.state (s.proc node) .runnable
        activated := s.activated ++ [s.proc node] } := by
      simp only [State.answer, State.activateProc, State.detach, asleep node member]
    have rest : nodes.filter (fun other => other ∉ s.refused msg nodes ++
        (s.taker msg nodes).toList) = nodes.erase node := by
      rw [(List.nodup_cons.mp ring.nodup).2.erase_eq_filter]
      rw [refused, taker]
      exact List.filter_congr fun other _ => by simp [bne, beq_eq_decide]
    refine ⟨1, (s.detach node).answer node msg, ⟨by simp [taker], fun other => ?_, ?_, ?_, ?_⟩,
      fun fuel enough => ?_⟩
    · rw [wakes]
      simp [refused, taker, Function.update_apply, eq_comm]
    · simp [wakes, refused, taker]
    · simp [wakes, refused, taker]
    · rw [rest, wakes]
      exact ring.erase member
    · obtain ⟨more, left⟩ : ∃ more, fuel - passed = more + 1 := ⟨fuel - passed - 1, by omega⟩
      have fits : ¬ (s.detach node).rcverSize node < (s.detach node).msgSize msg :=
        Int.not_lt.mpr (room node first)
      rw [State.matching] at asks
      rw [reaches, left, State.pipelineSend, if_neg (by simp [nonzero, elsewhere]), if_pos asks]
      dsimp only
      rw [if_neg fits]

/-- `pipeline_send` ends and does what it is to do exactly where the first receiver that asks for the
message has room for it. -/
theorem pipeline_send_hands_over (ring : s.links.Ring head nodes)
    (asleep : ∀ node ∈ nodes, s.state (s.proc node) = .sleeping) :
    (∀ node, nodes.find? (s.matching msg) = some node → s.msgSize msg ≤ s.rcverSize node) ↔
      ∃ ret s', HandedOff s s' msg head nodes ret ∧ ∀ fuel, nodes.length < fuel →
        State.pipelineSend head msg fuel (s.links.next head) s = some (ret, s') := by
  refine ⟨pipelineSend_handedOff ring asleep, ?_⟩
  rintro ⟨ret, s', -, ends⟩ node first
  by_contra small
  have ended := ends (nodes.length + 1) (Nat.lt_succ_self _)
  rw [pipelineSend_stuck ring first (Int.not_le.mp small)] at ended
  cases ended

/-- A receiver of size 8 is handed a message of size 4. -/
theorem pipeline_send_hands_over_eight : ∃ ret s', HandedOff (sample 1 1 8 0) s' 12 3 [30] ret ∧
    ∀ fuel, 1 < fuel → State.pipelineSend 3 12 fuel 30 (sample 1 1 8 0) = some (ret, s') :=
  (pipeline_send_hands_over (sample_lists 1 1 8 0).rcvRing fun _ _ => rfl).mp (by simp [sample])

/-- A receiver of size 2 keeps `pipeline_send` forever. -/
theorem pipeline_send_never_ends : (sample 1 1 2 0).links.Ring 3 [30] ∧
    ∀ fuel, State.pipelineSend 3 12 fuel ((sample 1 1 2 0).links.next 3) (sample 1 1 2 0) = none :=
  ⟨(sample_lists 1 1 2 0).rcvRing,
    pipelineSend_stuck (sample_lists 1 1 2 0).rcvRing
      (show [30].find? ((sample 1 1 2 0).matching 12) = some 30 by decide) (by decide)⟩

end HandingOff

/-! ## Removing a queue -/

section Removing

variable {s s' : State} {q : MsgQueue} {senders receivers messages : List Nat}

/-- The senders and receivers on the lists are asleep, each for a process of its own. -/
structure Waiting (s : State) (q : MsgQueue) (senders receivers messages : List Nat) : Prop
    extends Lists s q senders receivers messages where
  asleep : ∀ node ∈ senders ++ receivers, s.state (s.proc node) = .sleeping
  distinct : ((senders ++ receivers).map s.proc).Nodup

/-- What removing a queue is to leave. -/
structure Released (s s' : State) (q : MsgQueue) (senders receivers messages : List Nat) :
    Prop where
  woken : ∃ woken, s'.activated = s.activated ++ woken ∧
    woken.Perm ((senders ++ receivers).map s.proc)
  runnable : ∀ node ∈ senders ++ receivers, s'.state (s.proc node) = .runnable
  refused : ∀ node ∈ receivers, s'.rMsg node = 0
  freed : ∃ freed, s'.freed = s.freed ++ freed ∧ freed.Perm messages
  empty : Lists s' q [] [] []
  gone : s'.msgq = none

/-- `freeque` empties the list of receivers and that of messages, wakes the receivers without an
answer, and leaves the senders alone. -/
theorem freeque_waiting (live : s.msgq = some q)
    (waiting : Waiting s q senders receivers messages) :
    ∃ links : Links, links.Ring q.qSender senders ∧ links.Ring q.qReceiver [] ∧
      links.Ring q.qMessage [] ∧ ∀ fuel, receivers.length + messages.length < fuel →
        s.freeque fuel = some { { s with msgq := none }.woken receivers with
          links := links
          freed := s.freed ++ messages } := by
  have nodup := waiting.apart
  simp only [List.append_assoc, List.nodup_append, List.mem_append] at nodup
  have sendRcv : ∀ node ∈ q.qSender :: senders, node ∉ q.qReceiver :: receivers :=
    fun node here there => nodup.2.2 node here node (.inl there) rfl
  have sendMsg : ∀ node ∈ q.qSender :: senders, node ∉ q.qMessage :: messages :=
    fun node here there => nodup.2.2 node here node (.inr there) rfl
  have rcvMsg : ∀ node ∈ q.qReceiver :: receivers, node ∉ q.qMessage :: messages :=
    fun node here there => nodup.2.1.2.2 node here node there rfl
  -- the receivers are woken
  let s₁ : State := { s with msgq := none }
  have wakes : receivers.foldl (fun s node => s.activateProc (s.proc node)) s₁ =
      s₁.woken receivers := by
    apply foldl_activateProc
    · exact fun node member => waiting.asleep node (List.mem_append_right _ member)
    · exact (List.nodup_append.mp (List.map_append ▸ waiting.distinct)).2.1
  obtain ⟨links₁, empty₁, same₁, ends₁⟩ := drain_ring (s := s₁) passive_wakeup waiting.rcvRing
  rw [wakes] at ends₁
  have sendRing₁ := ring_kept waiting.sendRing same₁ sendRcv
  have msgRing₁ := ring_kept waiting.msgRing same₁ fun node here there => rcvMsg node there here
  -- the messages are freed
  let s₂ : State := { s₁.woken receivers with links := links₁ }
  obtain ⟨links₂, empty₂, same₂, ends₂⟩ := drain_ring (s := s₂) passive_free msgRing₁
  rw [foldl_free] at ends₂
  refine ⟨links₂, ring_kept sendRing₁ same₂ sendMsg, ring_kept empty₁ same₂ ?_, empty₂, ?_⟩
  · intro node here
    rw [List.mem_singleton] at here
    exact rcvMsg node (here ▸ List.mem_cons_self)
  · intro fuel enough
    obtain ⟨fuel, rfl⟩ : ∃ less, fuel = less + 1 := ⟨fuel - 1, by omega⟩
    have woken : s₁.ssWakeup q.qReceiver (fuel + 1) = some s₂ := ends₁ _ (by omega)
    -- nothing is left for `expunge_all`
    have nothing : s₂.expungeAll q (fuel + 1) = some s₂ := by
      rw [State.expungeAll, State.drain]
      exact if_pos empty₁.linked.1
    rw [State.freeque, live]
    show ((s₁.ssWakeup q.qReceiver (fuel + 1)).bind (State.expungeAll q (fuel + 1))).bind
      (State.freeMessages q (fuel + 1)) = _
    rw [woken, Option.bind_some, nothing, Option.bind_some, State.freeMessages,
      ends₂ _ (by omega)]
    rfl

/-- `sys_msgctl` with `IPC_RMID` releases everybody exactly where no sender waits, and where the
receivers' `r_msg`, which nobody has set, happens to be `NULL`. -/
theorem rmid_releases (live : s.msgq = some q) (waiting : Waiting s q senders receivers messages) :
    (senders = [] ∧ ∀ node ∈ receivers, s.rMsg node = 0) ↔
      ∃ enough s', Released s s' q senders receivers messages ∧ ∀ fuel, enough ≤ fuel →
        s.sysMsgctl 0 fuel = some (0, s') := by
  obtain ⟨links, sendRing, rcvRing, msgRing, ends⟩ := freeque_waiting live waiting
  let left : State := { { s with msgq := none }.woken receivers with
    links := links
    freed := s.freed ++ messages }
  have runs : ∀ fuel, receivers.length + messages.length < fuel →
      s.sysMsgctl 0 fuel = some (0, left) := by
    intro fuel enough
    rw [State.sysMsgctl, if_pos rfl, ends fuel enough]
    rfl
  constructor
  · rintro ⟨rfl, unset⟩
    refine ⟨receivers.length + messages.length + 1, left, ⟨⟨receivers.map s.proc, rfl, .refl _⟩, ?_,
      unset, ⟨messages, rfl, .refl _⟩, ⟨sendRing, rcvRing, msgRing, ?_⟩, rfl⟩,
      fun fuel enough => runs fuel (by omega)⟩
    · intro node member
      exact if_pos (List.mem_map_of_mem member)
    · refine waiting.apart.sublist ?_
      exact ((List.Sublist.refl _).append ((List.nil_sublist _).cons_cons _)).append
        ((List.nil_sublist _).cons_cons _)
  · rintro ⟨enough, s', released, runs'⟩
    have same := (runs (max enough (receivers.length + messages.length + 1)) (by omega)).symm.trans
      (runs' _ (by omega))
    obtain rfl : left = s' := congrArg Prod.snd (Option.some.inj same)
    refine ⟨?_, fun node member => released.refused node member⟩
    -- only the receivers were woken
    obtain ⟨woken, activated, everybody⟩ := released.woken
    have receivers' := List.append_cancel_left (show s.activated ++ receivers.map s.proc = _ from
      activated)
    have lengths := everybody.length_eq
    rw [← receivers', List.length_map, List.length_map, List.length_append] at lengths
    exact List.length_eq_zero_iff.mp (by omega)

/-- A queue with one receiver and two messages. -/
theorem rmid_releases_receiver : ∃ enough s', Released (sample 1 1 8 0) s' sampleQueue [] [30]
    [10, 11] ∧ ∀ fuel, enough ≤ fuel → (sample 1 1 8 0).sysMsgctl 0 fuel = some (0, s') :=
  (rmid_releases rfl ⟨sample_lists 1 1 8 0, fun _ _ => rfl, by decide⟩).mp ⟨rfl, fun _ _ => rfl⟩

/-- The same queue with the sender 20, and something else in the memory of the receiver. -/
def blocked : State := { sample 1 1 8 77 with
  links := (sample 1 1 8 77).links.insertIntoList 2 20 }

/-- The sender sleeps on after the queue is gone, and the receiver is woken with a message that
nobody has given it. -/
theorem rmid_leaves_sender_asleep : Waiting blocked sampleQueue [20] [30] [10, 11] ∧
    (blocked.sysMsgctl 0 9).map (fun result => (result.1, result.2.state 20, result.2.links.next 2,
      result.2.msgq, result.2.state 30, result.2.rMsg 30)) =
        some (0, .sleeping, 20, none, .runnable, 77) := by
  have lists : Lists blocked sampleQueue [20] [30] [10, 11] :=
    { sendRing := ⟨⟨rfl, rfl, rfl, rfl⟩, by decide, by decide⟩
      rcvRing := ⟨⟨rfl, rfl, rfl, rfl⟩, by decide, by decide⟩
      msgRing := ⟨⟨rfl, rfl, rfl, rfl, rfl, rfl⟩, by decide, by decide⟩
      apart := by decide }
  exact ⟨⟨lists, fun _ _ => rfl, by decide⟩, by decide +kernel⟩

end Removing

end OsLab.Common.MsgLists
