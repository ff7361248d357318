import OsLab.Lib.Transition
import OsLab.Common.Sem
import Mathlib.Data.List.Infix
import Mathlib.Data.List.Nodup
import Mathlib.Logic.Function.Basic

/-!
# The queue of the SD driver

`src/driver/sd.c`: `sdrw` puts a buffer at the end of `buflist` and starts it when it is the first,
and `sd_intr` ends the first request and starts the next. A section under `sdlock` is one step. The
controller finishes one command at a time and raises one interrupt for it, which is handled before
it goes on. A process has one buffer, the one on its stack; its requests are reads, with neither
flag set, and writes, with `B_DIRTY` set.
-/
namespace OsLab.Driver

open OsLab.Lib OsLab.Common

/-- The `BSIZE` bytes of a block, as the words that go through `EMMC_DATA`. -/
abbrev Block := Vector UInt32 128

/-- `B_VALID`. -/
def bValid : UInt32 := 0x2

/-- `B_DIRTY`. -/
def bDirty : UInt32 := 0x4

/-- `struct buf`. -/
structure Buf where
  flags : UInt32
  blockno : UInt32
  data : Block
  bufsem : Semaphore
  deriving Repr, DecidableEq

/-- A read or a write of a block. -/
structure Request where
  blockno : UInt32
  /-- What is written; nothing for a read. -/
  data : Option Block
  deriving Repr, DecidableEq

namespace Buf

/-- The buffer is a write. -/
def dirty (b : Buf) : Bool := b.flags &&& bDirty ≠ 0

/-- The test of the loop of `sdrw`. -/
def served (b : Buf) : Bool := b.flags &&& (bValid ||| bDirty) = bValid

/-- The buffer is a read or a write. -/
def pending (b : Buf) : Bool := b.dirty || b.flags &&& bValid = 0

/-- What the buffer asks for. -/
def request (b : Buf) : Request := ⟨b.blockno, if b.dirty then some b.data else none⟩

@[simp] theorem pending_bufsem (b : Buf) (sem : Semaphore) :
    ({ b with bufsem := sem } : Buf).pending = b.pending := rfl

@[simp] theorem request_bufsem (b : Buf) (sem : Semaphore) :
    ({ b with bufsem := sem } : Buf).request = b.request := rfl

/-- A request is not served. -/
theorem served_of_pending {b : Buf} (pending : b.pending = true) : b.served = false := by
  rw [served, decide_eq_false_iff_not]
  intro valid
  have clean : b.flags &&& bDirty = 0 := by
    have both : b.flags &&& bDirty = (b.flags &&& (bValid ||| bDirty)) &&& bDirty := by
      rw [UInt32.and_assoc]
      rfl
    rw [both, valid]
    rfl
  have marked : b.flags &&& bValid = bValid := by
    have both : b.flags &&& bValid = (b.flags &&& (bValid ||| bDirty)) &&& bValid := by
      rw [UInt32.and_assoc]
      rfl
    rw [both, valid]
    rfl
  rw [Buf.pending, dirty, clean, marked] at pending
  revert pending
  decide

end Buf

/-! ## The card and its controller -/

/-- `sdCard.type`. -/
inductive CardType where
  /-- `SD_TYPE_MMC`. -/
  | mmc
  /-- `SD_TYPE_1`. -/
  | type1
  /-- `SD_TYPE_2_SC`. -/
  | type2Sc
  /-- `SD_TYPE_2_HC`. -/
  | type2Hc
  deriving Repr, DecidableEq

/-- A card. -/
structure Card where
  type : CardType
  numBlocks : Nat
  /-- A card that is addressed by bytes has no more of them than there are addresses. -/
  addressable : type ≠ .type2Hc → numBlocks ≤ 2 ^ 23

/-- What the controller is told. -/
structure Command where
  /-- `bno` of `sd_start`. -/
  address : UInt32
  /-- What `IX_WRITE_SINGLE` writes; nothing for `IX_READ_SINGLE`. -/
  data : Option Block
  deriving Repr, DecidableEq

namespace Card

variable (card : Card)

/-- `bno` of `sd_start`. -/
def address (blockno : UInt32) : UInt32 :=
  if card.type = .type2Hc then blockno else blockno <<< 9

/-- What the blocks of a card hold, given what its addresses hold. -/
def view (contents : UInt32 → Block) (blockno : UInt32) : Block := contents (card.address blockno)

/-- The command for a request. -/
def command (r : Request) : Command := ⟨card.address r.blockno, r.data⟩

/-- The blocks of a card have different addresses. -/
theorem address_inj {one other : UInt32} (inside : one.toNat < card.numBlocks)
    (inside' : other.toNat < card.numBlocks) (same : card.address one = card.address other) :
    one = other := by
  unfold address at same
  split at same
  · exact same
  · rename_i bytes
    have few := card.addressable bytes
    have equal := congrArg UInt32.toNat same
    simp only [UInt32.toNat_shiftLeft, Nat.shiftLeft_eq] at equal
    apply UInt32.toNat_inj.mp
    have shift : (9 : UInt32).toNat % 32 = 9 := rfl
    rw [shift] at equal
    omega

end Card

/-- The controller and the card. -/
structure Emmc where
  /-- The blocks of the card by address. -/
  blocks : UInt32 → Block
  /-- The commands that were sent and whose interrupt was not handled, earliest first. -/
  commands : List Command
  /-- `EMMC_INTERRUPT` is not empty: the first of them has finished. -/
  interrupt : Bool
  /-- What can be read from `EMMC_DATA`. -/
  data : Block

namespace Emmc

/-- The controller finishes a command. -/
def finish (e : Emmc) : Option (Command × Emmc) :=
  if e.interrupt then none
  else match e.commands with
    | [] => none
    | command :: _ =>
      match command.data with
      | some data =>
        some (command, { e with
          blocks := Function.update e.blocks command.address data, interrupt := true })
      | none => some (command, { e with data := e.blocks command.address, interrupt := true })

/-- The command that is finished is the first that was sent. -/
theorem finish_spec {e emmc : Emmc} {command : Command} (done : e.finish = some (command, emmc)) :
    e.interrupt = false ∧ e.commands.head? = some command ∧ emmc.commands = e.commands ∧
      emmc.interrupt = true ∧
      emmc.blocks = Function.update e.blocks command.address
        (command.data.getD (e.blocks command.address)) ∧
      (command.data = none → emmc.data = e.blocks command.address) := by
  unfold finish at done
  split at done
  · contradiction
  rename_i quiet
  split at done
  · contradiction
  rename_i other rest sent
  split at done
  all_goals
    rename_i data
    simp only [Option.some.injEq, Prod.mk.injEq] at done
    obtain ⟨rfl, rfl⟩ := done
    simp [quiet, sent, data]

/-- `sdWaitForInterrupt(INT_DATA_DONE)`. -/
def acknowledge (e : Emmc) : Emmc := { e with commands := e.commands.tail, interrupt := false }

end Emmc

/-- `sd_start`; `none` is its PANIC. -/
def sdStart (card : Card) (e : Emmc) (b : Buf) : Option Emmc :=
  let bno := card.address b.blockno
  if e.interrupt then none
  else some { e with commands := e.commands ++ [⟨bno, if b.dirty then some b.data else none⟩] }

/-! ## The machine -/

/-- Where a process is. -/
inductive Stage where
  | idle
  /-- Before the test of the loop. -/
  | testing
  /-- Before `unalertable_wait_sem`. -/
  | waiting
  /-- In `unalertable_wait_sem`, asleep. -/
  | asleep
  deriving Repr, DecidableEq

/-- A call of `sdrw`. -/
structure Call where
  /-- What was queued before it. -/
  before : List Request
  /-- What it asks for. -/
  request : Request
  deriving Repr, DecidableEq

/-- The driver, its callers and the card. -/
structure State where
  /-- The controller and the card. -/
  emmc : Emmc
  /-- The buffers of the processes. -/
  bufs : Nat → Buf
  /-- Where the processes are. -/
  stages : Nat → Stage
  /-- `buflist`, from `buflist.next` on. -/
  buflist : List Nat
  panic : Bool
  /-- The last call of each process. -/
  calls : Nat → Call
  /-- The requests in the order in which `sdrw` queued them. -/
  queued : List Request
  /-- The commands in the order in which the controller finished them. -/
  executed : List Command
  /-- The calls that have returned, with what is in the buffer. -/
  returned : List (Call × Block)

/-- What happens next. -/
inductive Act where
  | sdrw (proc : Nat) (b : Buf)
  /-- The controller finishes a command. -/
  | finish
  /-- `sd_intr`. -/
  | intr
  /-- The test of the loop of `sdrw`. -/
  | test (proc : Nat)
  /-- `unalertable_wait_sem` up to the call of `sched`. -/
  | wait (proc : Nat)
  /-- `sched` returns. -/
  | wake (proc : Nat)

namespace State

/-- Another stage of a process. -/
def enter (s : State) (proc : Nat) (stage : Stage) : State :=
  { s with stages := Function.update s.stages proc stage }

/-- Another buffer of a process. -/
def setBuf (s : State) (proc : Nat) (b : Buf) : State :=
  { s with bufs := Function.update s.bufs proc b }

/-- `sd_start` of the first request, if there is one; `none` is a PANIC. -/
def startFirst (card : Card) (s : State) : Option State :=
  match s.buflist with
  | [] => some s
  | proc :: _ => (sdStart card s.emmc (s.bufs proc)).map fun emmc => { s with emmc }

/-- The section of `sdrw`. -/
def sdrw (card : Card) (s : State) (proc : Nat) (b : Buf) : Option State :=
  let s := s.setBuf proc { b with bufsem := .initSem 0 }
  let s :=
    { s with
      buflist := s.buflist ++ [proc]
      calls := Function.update s.calls proc ⟨s.queued, b.request⟩
      queued := s.queued ++ [b.request] }
  let s := s.enter proc .testing
  if s.buflist.head? = some proc then s.startFirst card else some s

/-- `sd_intr`; without a request it goes on with a buffer that is none. -/
def intr (card : Card) (s : State) : Option State :=
  match s.buflist with
  | [] => none
  | proc :: rest => do
    let b := s.bufs proc
    let (b, emmc) :=
      if b.dirty then (b, s.emmc.acknowledge)
      else if b.flags &&& bValid = 0 then ({ b with data := s.emmc.data }, s.emmc.acknowledge)
      else (b, s.emmc)
    let sem ← b.bufsem.postSem
    let s := s.setBuf proc { b with flags := bValid, bufsem := sem }
    { s with emmc, buflist := rest }.startFirst card

/-- Without an interrupt the first request is started. -/
theorem startFirst_eq (card : Card) {s : State} (quiet : s.emmc.interrupt = false)
    (none : s.emmc.commands = []) : s.startFirst card = some { s with emmc := { s.emmc with
      commands := (s.buflist.head?.map fun proc => card.command (s.bufs proc).request).toList } } := by
  obtain ⟨⟨blocks, commands, interrupt, data⟩, bufs, stages, buflist, rest⟩ := s
  obtain rfl : commands = [] := none
  obtain rfl : interrupt = false := quiet
  cases buflist <;> rfl

/-- A section that may panic. -/
def orPanic (s : State) (result : Option State) : State :=
  result.getD { s with panic := true }

/-- One step. -/
def step (card : Card) (s : State) (act : Act) : Option State :=
  if s.panic then none
  else match act with
    | .sdrw proc b =>
      if s.stages proc = .idle ∧ b.pending ∧ b.blockno.toNat < card.numBlocks then
        some (s.orPanic (s.sdrw card proc b))
      else none
    | .finish =>
      s.emmc.finish.map fun (command, emmc) =>
        { s with emmc, executed := s.executed ++ [command] }
    | .intr => if s.emmc.interrupt then some (s.orPanic (s.intr card)) else none
    | .test proc =>
      if s.stages proc = .testing then
        if (s.bufs proc).served then
          some { s.enter proc .idle with
            returned := (s.calls proc, (s.bufs proc).data) :: s.returned }
        else some (s.enter proc .waiting)
      else none
    | .wait proc =>
      if s.stages proc = .waiting then
        let (passed, sem) := (s.bufs proc).bufsem.waitSem proc
        some ((s.setBuf proc { s.bufs proc with bufsem := sem }).enter proc
          (if passed then .testing else .asleep))
      else none
    | .wake proc =>
      if s.stages proc = .asleep ∧ proc ∉ (s.bufs proc).bufsem.sleeplist then
        some (s.enter proc .testing)
      else none

end State

/-- The driver as a machine over a card with these contents. -/
def machine (card : Card) (contents : UInt32 → Block) : Machine State Act where
  init s := s.emmc.blocks = contents ∧ s.emmc.commands = [] ∧ s.emmc.interrupt = false ∧
    (∀ proc, s.stages proc = .idle) ∧ s.buflist = [] ∧ s.panic = false ∧ s.queued = [] ∧
    s.executed = [] ∧ s.returned = []
  step := State.step card

/-! ## What a read returns -/

/-- What a block holds after these requests: what the last write to it has written. -/
def lastWrite (initial : UInt32 → Block) (requests : List Request) (blockno : UInt32) : Block :=
  (requests.reverse.findSome? fun r => if r.blockno = blockno then r.data else none).getD
    (initial blockno)

/-- One request more. -/
theorem lastWrite_append (initial : UInt32 → Block) (requests : List Request) (r : Request)
    (blockno : UInt32) : lastWrite initial (requests ++ [r]) blockno =
      if r.blockno = blockno then r.data.getD (lastWrite initial requests blockno)
      else lastWrite initial requests blockno := by
  simp only [lastWrite, List.reverse_append, List.reverse_singleton, List.singleton_append,
    List.findSome?_cons]
  by_cases same : r.blockno = blockno
  · simp only [same, if_true]
    cases r.data <;> rfl
  · simp only [same, if_false]

/-! ## The requests in the list -/

/-- The processes of a list called one after the other, after these requests and up to those. -/
def Lined (calls : Nat → Call) : List Request → List Nat → List Request → Prop
  | handled, [], queued => handled = queued
  | handled, proc :: rest, queued =>
    (calls proc).before = handled ∧ Lined calls (handled ++ [(calls proc).request]) rest queued

namespace Lined

variable {calls calls' : Nat → Call} {handled queued : List Request} {list : List Nat} {proc : Nat}

theorem congr (lined : Lined calls handled list queued)
    (same : ∀ proc ∈ list, calls' proc = calls proc) : Lined calls' handled list queued := by
  induction list generalizing handled with
  | nil => exact lined
  | cons first rest ih =>
    obtain ⟨before, lined⟩ := lined
    have here := same first (List.mem_cons_self ..)
    refine ⟨by rw [here, before], ?_⟩
    rw [here]
    exact ih lined fun proc member => same proc (List.mem_cons_of_mem _ member)

/-- One more call. -/
theorem append (lined : Lined calls handled list queued) (before : (calls proc).before = queued) :
    Lined calls handled (list ++ [proc]) (queued ++ [(calls proc).request]) := by
  induction list generalizing handled with
  | nil =>
    obtain rfl : handled = queued := lined
    exact ⟨before, rfl⟩
  | cons first rest ih =>
    obtain ⟨first, lined⟩ := lined
    exact ⟨first, ih lined⟩

/-- What is queued. -/
theorem queued_eq (lined : Lined calls handled list queued) :
    queued = handled ++ list.map fun proc => (calls proc).request := by
  induction list generalizing handled with
  | nil =>
    obtain rfl : handled = queued := lined
    simp
  | cons first rest ih =>
    obtain ⟨-, lined⟩ := lined
    simp [ih lined]

end Lined

/-! ## The invariant -/

/-- The command of the first request of the list. -/
def first (card : Card) (s : State) : List Command :=
  (s.buflist.head?.map fun proc => card.command (s.calls proc).request).toList

/-- The requests the controller has finished: `sd_intr` has handled all but the first of the
list. -/
def finished (s : State) (handled : List Request) : List Request :=
  if s.emmc.interrupt then
    handled ++ (s.buflist.head?.map fun proc => (s.calls proc).request).toList
  else handled

/-- A call that was served. -/
def Served (initial : UInt32 → Block) (handled : List Request) (call : Call) (data : Block) : Prop :=
  call.before ++ [call.request] <+: handled ∧
    (call.request.data = none → data = lastWrite initial call.before call.request.blockno)

/-- What holds between two steps. -/
structure Inv (card : Card) (contents : UInt32 → Block) (s : State) (handled : List Request) :
    Prop where
  calm : s.panic = false
  lined : Lined s.calls handled s.buflist s.queued
  nodup : s.buflist.Nodup
  /-- A process in the list is in `sdrw`, and its buffer is as it was queued. -/
  listed : ∀ proc ∈ s.buflist, s.stages proc ≠ .idle ∧ (s.bufs proc).pending = true ∧
    (s.bufs proc).request = (s.calls proc).request
  served : ∀ proc, s.stages proc ≠ .idle → proc ∉ s.buflist →
    Served (card.view contents) handled (s.calls proc) (s.bufs proc).data
  balanced : ∀ proc, s.stages proc ≠ .idle → (s.bufs proc).bufsem.Balanced
  /-- The command of the first request is in flight, and no other. -/
  commands : s.emmc.commands = first card s
  interrupt : s.emmc.interrupt = true → s.buflist ≠ []
  inside : ∀ r ∈ s.queued, r.blockno.toNat < card.numBlocks
  executed : s.executed = (finished s handled).map card.command
  blocks : ∀ blockno : UInt32, blockno.toNat < card.numBlocks →
    s.emmc.blocks (card.address blockno) =
      lastWrite (card.view contents) (finished s handled) blockno
  data : s.emmc.interrupt = true → ∀ proc, s.buflist.head? = some proc →
    (s.calls proc).request.data = none →
      s.emmc.data = lastWrite (card.view contents) handled (s.calls proc).request.blockno
  returned : ∀ entry ∈ s.returned, Served (card.view contents) handled entry.1 entry.2

/-- A call stays served. -/
theorem Served.append {initial : UInt32 → Block} {handled : List Request} {call : Call} {data : Block}
    (served : Served initial handled call data) (r : Request) :
    Served initial (handled ++ [r]) call data :=
  ⟨served.1.trans (List.prefix_append ..), served.2⟩

namespace Inv

variable {card : Card} {contents : UInt32 → Block} {s : State} {handled : List Request}
  {proc : Nat} {b : Buf}

theorem init (initial : (machine card contents).init s) : Inv card contents s [] := by
  obtain ⟨blocks, commands, interrupt, idle, buflist, calm, queued, executed, returned⟩ := initial
  refine ⟨calm, ?_, ?_, ?_, fun proc busy => absurd (idle proc) busy,
    fun proc busy => absurd (idle proc) busy, ?_, ?_, ?_, ?_, fun blockno _ => ?_, ?_, ?_⟩
  · rw [buflist, queued]
    exact rfl
  all_goals simp [buflist, commands, interrupt, queued, executed, returned, first, finished,
    blocks, lastWrite, Card.view]

/-- Processes move on in `sdrw`. -/
theorem wander (inv : Inv card contents s handled) (stages : Nat → Stage) (bufs : Nat → Buf)
    (returned : List (Call × Block))
    (same : ∀ proc, ∃ sem, bufs proc = { s.bufs proc with bufsem := sem } ∧
      (stages proc ≠ .idle → sem.Balanced))
    (busy : ∀ proc, stages proc ≠ .idle → s.stages proc ≠ .idle)
    (listed : ∀ proc ∈ s.buflist, stages proc ≠ .idle)
    (told : ∀ entry ∈ returned, Served (card.view contents) handled entry.1 entry.2) :
    Inv card contents { s with stages := stages, bufs := bufs, returned := returned } handled := by
  refine ⟨inv.calm, inv.lined, inv.nodup, fun proc member => ?_, fun proc stays absent => ?_,
    fun proc stays => ?_, inv.commands, inv.interrupt, inv.inside, inv.executed, inv.blocks,
    inv.data, told⟩
  all_goals
    obtain ⟨sem, is, balanced⟩ := same proc
    simp only [is]
  · exact ⟨listed proc member, (inv.listed proc member).2⟩
  · exact inv.served proc (busy proc stays) absent
  · exact balanced stays

/-- A process goes to another stage of `sdrw`. -/
theorem enter (inv : Inv card contents s handled) (busy : s.stages proc ≠ .idle) {stage : Stage}
    (stays : stage ≠ .idle) : Inv card contents (s.enter proc stage) handled := by
  refine inv.wander _ s.bufs s.returned (fun other => ⟨(s.bufs other).bufsem, rfl, fun inside => ?_⟩)
    (fun other inside => ?_) (fun other member => ?_) inv.returned
  · by_cases isProc : other = proc
    · exact inv.balanced other (isProc ▸ busy)
    · exact inv.balanced other (by rwa [Function.update_of_ne isProc] at inside)
  · by_cases isProc : other = proc
    · exact isProc ▸ busy
    · rwa [Function.update_of_ne isProc] at inside
  · by_cases isProc : other = proc
    · rwa [isProc, Function.update_self]
    · rw [Function.update_of_ne isProc]
      exact (inv.listed other member).1

/-- The test of the loop succeeds. -/
theorem leave (inv : Inv card contents s handled) (busy : s.stages proc ≠ .idle)
    (served : (s.bufs proc).served = true) :
    Inv card contents { s.enter proc .idle with
      returned := (s.calls proc, (s.bufs proc).data) :: s.returned } handled := by
  have absent : proc ∉ s.buflist := fun member => by
    have unserved := Buf.served_of_pending (inv.listed proc member).2.1
    rw [served] at unserved
    contradiction
  have inside : ∀ other, Function.update s.stages proc .idle other ≠ .idle →
      s.stages other ≠ .idle := by
    intro other stays
    by_cases isProc : other = proc
    · exact isProc ▸ busy
    · rwa [Function.update_of_ne isProc] at stays
  refine inv.wander (Function.update s.stages proc .idle) s.bufs _
    (fun other => ⟨(s.bufs other).bufsem, rfl, fun stays => ?_⟩) inside (fun other member => ?_)
    fun entry member => ?_
  · exact inv.balanced other (inside other stays)
  · have isOther : other ≠ proc := by
      rintro rfl
      exact absent member
    rw [Function.update_of_ne isOther]
    exact (inv.listed other member).1
  · obtain rfl | member := List.mem_cons.mp member
    · exact inv.served proc busy absent
    · exact inv.returned entry member

/-- `unalertable_wait_sem`. -/
theorem wait (inv : Inv card contents s handled) (busy : s.stages proc ≠ .idle) {stage : Stage}
    (stays : stage ≠ .idle) :
    Inv card contents ((s.setBuf proc
      { s.bufs proc with bufsem := ((s.bufs proc).bufsem.waitSem proc).2 }).enter proc stage)
      handled := by
  have inside : ∀ other, Function.update s.stages proc stage other ≠ .idle →
      s.stages other ≠ .idle := by
    intro other moved
    by_cases isProc : other = proc
    · exact isProc ▸ busy
    · rwa [Function.update_of_ne isProc] at moved
  refine inv.wander (Function.update s.stages proc stage) (Function.update s.bufs proc _) s.returned
    (fun other => ?_) inside (fun other member => ?_) inv.returned
  · by_cases isProc : other = proc
    · subst isProc
      rw [Function.update_self]
      exact ⟨_, rfl, fun _ => Semaphore.waitSem_balanced (inv.balanced other busy) other⟩
    · rw [Function.update_of_ne isProc]
      exact ⟨_, rfl, fun moved => inv.balanced other (inside other moved)⟩
  · by_cases isProc : other = proc
    · rwa [isProc, Function.update_self]
    · rw [Function.update_of_ne isProc]
      exact (inv.listed other member).1

/-- The requests of processes in the list are for blocks of the card. -/
theorem inside_listed (inv : Inv card contents s handled) (member : proc ∈ s.buflist) :
    (s.calls proc).request.blockno.toNat < card.numBlocks := by
  refine inv.inside _ ?_
  rw [inv.lined.queued_eq]
  exact List.mem_append_right _ (List.mem_map_of_mem member)

/-- The controller finishes the command of the first request. -/
theorem finish (inv : Inv card contents s handled) {command : Command} {emmc : Emmc}
    (done : s.emmc.finish = some (command, emmc)) :
    Inv card contents { s with emmc := emmc, executed := s.executed ++ [command] } handled := by
  obtain ⟨quiet, sent, commands, interrupt, written, read⟩ := Emmc.finish_spec done
  rw [inv.commands, first, Option.head?_toList, Option.map_eq_some_iff] at sent
  obtain ⟨proc, isFirst, rfl⟩ := sent
  have inside := inv.inside_listed (List.mem_of_mem_head? isFirst)
  have executed := inv.executed
  have blocks := inv.blocks
  simp only [finished, quiet, Bool.false_eq_true, if_false] at executed blocks
  refine ⟨inv.calm, inv.lined, inv.nodup, inv.listed, inv.served, inv.balanced,
    commands.trans inv.commands, ?_, inv.inside, ?_, fun blockno below => ?_, ?_, inv.returned⟩
  · exact fun _ => List.ne_nil_of_mem (List.mem_of_mem_head? isFirst)
  · simp [finished, interrupt, isFirst, executed]
  · simp only [finished, interrupt, isFirst, if_true, Option.map_some, Option.toList_some,
      lastWrite_append, written, Card.command, blocks _ inside]
    by_cases same : (s.calls proc).request.blockno = blockno
    · rw [if_pos same, same, Function.update_self]
    · have apart : card.address blockno ≠ card.address (s.calls proc).request.blockno := fun equal =>
        same (card.address_inj inside below equal.symm)
      rw [if_neg same, Function.update_of_ne apart, blocks _ below]
  · rintro - other isFirst' isRead
    obtain rfl : proc = other := Option.some.inj (isFirst.symm.trans isFirst')
    rw [read isRead]
    exact blocks _ inside

/-- A process queues a request. -/
theorem sdrw (inv : Inv card contents s handled) (idle : s.stages proc = .idle)
    (pending : b.pending = true) (inside : b.blockno.toNat < card.numBlocks) :
    ∃ s', s.sdrw card proc b = some s' ∧ Inv card contents s' handled := by
  have absent : proc ∉ s.buflist := fun member => (inv.listed proc member).1 idle
  let emmc : Emmc := { s.emmc with
    commands := if s.buflist = [] then [card.command b.request] else s.emmc.commands }
  let s' : State :=
    { s with
      emmc
      bufs := Function.update s.bufs proc { b with bufsem := .initSem 0 }
      stages := Function.update s.stages proc .testing
      buflist := s.buflist ++ [proc]
      calls := Function.update s.calls proc ⟨s.queued, b.request⟩
      queued := s.queued ++ [b.request] }
  refine ⟨s', ?_, ?_⟩
  · unfold State.sdrw
    cases list : s.buflist with
    | nil =>
      have quiet : s.emmc.interrupt = false := by
        by_contra raised
        exact inv.interrupt (by simpa using raised) list
      have none : s.emmc.commands = [] := by rw [inv.commands, first, list]; rfl
      simp only [State.setBuf, State.enter, list, List.nil_append, List.head?_cons, if_true]
      rw [State.startFirst_eq card (by exact quiet) (by exact none)]
      simp [s', emmc, list]
    | cons other rest =>
      have different : other ≠ proc := by
        rintro rfl
        exact absent (by simp [list])
      simp [State.setBuf, State.enter, s', emmc, list, different]
  · have others : ∀ other ∈ s.buflist, other ≠ proc := by
      rintro other member rfl
      exact absent member
    have callsSame : ∀ other ∈ s.buflist, s'.calls other = s.calls other := fun other member =>
      Function.update_of_ne (others other member) ..
    have call : s'.calls proc = ⟨s.queued, b.request⟩ := Function.update_self ..
    have finishedSame : finished s' handled = finished s handled := by
      unfold finished
      by_cases raised : s.emmc.interrupt = true
      · obtain ⟨other, rest, list⟩ := List.exists_cons_of_ne_nil (inv.interrupt raised)
        have same := callsSame other (by simp [list])
        have head : s'.buflist.head? = some other := by simp [s', list]
        rw [head, list, List.head?_cons, Option.map_some, Option.map_some, same]
      · simp [s', emmc, raised]
    refine ⟨inv.calm, ?_, ?_, fun other member => ?_, fun other busy unlisted => ?_,
      fun other busy => ?_, ?_, ?_, fun r member => ?_, ?_, ?_, ?_, inv.returned⟩
    · have lined := (inv.lined.congr callsSame).append (congrArg Call.before call)
      rwa [call] at lined
    · exact List.Nodup.append inv.nodup (by simp) (by simpa using absent)
    · by_cases isProc : other = proc
      · subst isProc
        simp [s', pending]
      · have member : other ∈ s.buflist := by simpa [s', isProc] using member
        simpa [s', isProc] using inv.listed other member
    · have isProc : other ≠ proc := by
        rintro rfl
        simp [s'] at unlisted
      have served := inv.served other (by simpa [s', isProc] using busy)
        fun member => unlisted (List.mem_append_left _ member)
      simpa [s', isProc] using served
    · by_cases isProc : other = proc
      · subst isProc
        simpa [s'] using Semaphore.initSem_balanced (Int.le_refl 0)
      · have balanced := inv.balanced other (by simpa [s', isProc] using busy)
        simpa [s', isProc] using balanced
    · have commands := inv.commands
      unfold first at commands ⊢
      cases list : s.buflist with
      | nil => simp [s', emmc, list]
      | cons other rest =>
        have same := callsSame other (by simp [list])
        have head : s'.buflist.head? = some other := by simp [s', list]
        rw [head, Option.map_some, same]
        simpa [s', emmc, list] using commands
    · simp [s']
    · obtain member | isNew := List.mem_append.mp member
      · exact inv.inside r member
      · obtain rfl := List.mem_singleton.mp isNew
        exact inside
    · rw [finishedSame]
      exact inv.executed
    · rw [finishedSame]
      exact inv.blocks
    · intro raised other isFirst read
      obtain ⟨head, rest, list⟩ := List.exists_cons_of_ne_nil (inv.interrupt raised)
      obtain rfl : head = other := by simpa [s', list] using isFirst
      have same := callsSame head (by simp [list])
      rw [same] at read ⊢
      exact inv.data raised head (by simp [list]) read

/-- The interrupt handler serves the first request. -/
theorem intr (inv : Inv card contents s handled) (raised : s.emmc.interrupt = true) :
    ∃ s' r, s.intr card = some s' ∧ Inv card contents s' (handled ++ [r]) := by
  obtain ⟨proc, rest, list⟩ := List.exists_cons_of_ne_nil (inv.interrupt raised)
  have member : proc ∈ s.buflist := by simp [list]
  obtain ⟨busy, pending, asked⟩ := inv.listed proc member
  obtain ⟨sem, posted, balanced, -, -⟩ := Semaphore.postSem_balanced (inv.balanced proc busy)
  have nodup := inv.nodup
  have lined := inv.lined
  rw [list] at nodup lined
  obtain ⟨absent, nodup⟩ := List.nodup_cons.mp nodup
  obtain ⟨before, lined⟩ := lined
  -- The buffer after the transfer.
  let data := if (s.bufs proc).dirty then (s.bufs proc).data else s.emmc.data
  let buf : Buf := { s.bufs proc with data, flags := bValid, bufsem := sem }
  let emmc : Emmc :=
    { s.emmc with
      commands := (rest.head?.map fun proc => card.command (s.calls proc).request).toList
      interrupt := false }
  let s' : State := { s with emmc, bufs := Function.update s.bufs proc buf, buflist := rest }
  have others : ∀ other ∈ rest, other ≠ proc := by
    rintro other inRest rfl
    exact absent inRest
  have finishedSame : finished s' (handled ++ [(s.calls proc).request]) = finished s handled := by
    simp [finished, s', emmc, raised, list]
  refine ⟨s', (s.calls proc).request, ?_, ?_⟩
  · have unread : (s.bufs proc).dirty = false → (s.bufs proc).flags &&& bValid = 0 := fun clean => by
      simpa [Buf.pending, clean] using pending
    have started : ({ s.setBuf proc buf with emmc := s.emmc.acknowledge, buflist := rest } :
        State).startFirst card = some s' := by
      have none : s.emmc.acknowledge.commands = [] := by
        rw [Emmc.acknowledge, inv.commands, first, list]
        rfl
      rw [State.startFirst_eq card (by rfl) (by exact none)]
      cases rest with
      | nil => rfl
      | cons next rest =>
        have isNext := others next (List.mem_cons_self ..)
        have same := (inv.listed next (by simp [list])).2.2
        simp [s', emmc, State.setBuf, Emmc.acknowledge, isNext, same]
    unfold State.intr
    rw [list]
    by_cases isDirty : (s.bufs proc).dirty = true
    · simpa [isDirty, posted, buf, data] using started
    · simp only [Bool.not_eq_true] at isDirty
      simpa [isDirty, unread isDirty, posted, buf, data] using started
  · refine ⟨inv.calm, lined, nodup, fun other inRest => ?_, fun other inside unlisted => ?_,
      fun other inside => ?_, rfl, nofun, inv.inside, ?_, ?_, nofun, fun entry told => ?_⟩
    · have isOther := others other inRest
      have listed := inv.listed other (list ▸ List.mem_cons_of_mem _ inRest)
      simpa [s', isOther] using listed
    · by_cases isProc : other = proc
      · subst isProc
        refine ⟨by rw [before], fun read => ?_⟩
        have clean : (s.bufs other).dirty = false := by
          rw [← asked, Buf.request] at read
          by_contra isDirty
          simp [isDirty] at read
        rw [before]
        simpa [s', buf, data, clean] using inv.data raised other (by simp [list]) read
      · have served := inv.served other inside (by simpa [list, isProc] using unlisted)
        simpa [s', isProc] using served.append _
    · by_cases isProc : other = proc
      · subst isProc
        simpa [s', buf] using balanced
      · simpa [s', isProc] using inv.balanced other inside
    · rw [finishedSame]
      exact inv.executed
    · rw [finishedSame]
      exact inv.blocks
    · exact (inv.returned entry told).append _

/-- Steps keep the invariant; the interrupt handler handles one request more. -/
theorem step {s' : State} {act : Act} (inv : Inv card contents s handled)
    (taken : s.step card act = some s') : ∃ handled, Inv card contents s' handled := by
  have calm : ¬ s.panic = true := by simp [inv.calm]
  unfold State.step at taken
  rw [if_neg calm] at taken
  cases act with
  | sdrw proc b =>
    simp only [Option.ite_none_right_eq_some, Option.some.injEq] at taken
    obtain ⟨⟨idle, pending, inside⟩, rfl⟩ := taken
    obtain ⟨queued, done, inv⟩ := inv.sdrw idle pending inside
    rw [done]
    exact ⟨handled, inv⟩
  | finish =>
    obtain ⟨⟨command, emmc⟩, done, rfl⟩ := Option.map_eq_some_iff.mp taken
    exact ⟨handled, inv.finish done⟩
  | intr =>
    simp only [Option.ite_none_right_eq_some, Option.some.injEq] at taken
    obtain ⟨raised, rfl⟩ := taken
    obtain ⟨served, r, done, inv⟩ := inv.intr raised
    rw [done]
    exact ⟨handled ++ [r], inv⟩
  | test proc =>
    simp only [Option.ite_none_right_eq_some] at taken
    obtain ⟨testing, taken⟩ := taken
    have busy : s.stages proc ≠ .idle := by simp [testing]
    split at taken
    · rename_i served
      obtain rfl := Option.some.inj taken
      exact ⟨handled, inv.leave busy served⟩
    · obtain rfl := Option.some.inj taken
      exact ⟨handled, inv.enter busy (by simp)⟩
  | wait proc =>
    simp only [Option.ite_none_right_eq_some, Option.some.injEq] at taken
    obtain ⟨waiting, rfl⟩ := taken
    have busy : s.stages proc ≠ .idle := by simp [waiting]
    exact ⟨handled, inv.wait busy (by split <;> simp)⟩
  | wake proc =>
    simp only [Option.ite_none_right_eq_some, Option.some.injEq] at taken
    obtain ⟨⟨asleep, -⟩, rfl⟩ := taken
    exact ⟨handled, inv.enter (by simp [asleep]) (by simp)⟩

theorem reach {guard : State → Act → Prop} (reached : (machine card contents).Reach guard s) :
    ∃ handled, Inv card contents s handled := by
  refine Machine.Reach.invariant (P := fun s => ∃ handled, Inv card contents s handled) reached
    (fun _ initial => ⟨[], init initial⟩) ?_
  rintro s act s' - ⟨handled, inv⟩ - taken
  exact inv.step taken

/-- As long as there is a request, the controller is busy or its interrupt is to be handled. -/
theorem goes_on (inv : Inv card contents s handled) (waiting : s.buflist ≠ []) :
    (s.step card .finish).isSome ∨ (s.step card .intr).isSome := by
  have calm : ¬ s.panic = true := by simp [inv.calm]
  rw [State.step, State.step, if_neg calm, if_neg calm]
  obtain ⟨proc, rest, list⟩ := List.exists_cons_of_ne_nil waiting
  by_cases raised : s.emmc.interrupt = true
  · simp [raised]
  · have commands := inv.commands
    rw [first, list] at commands
    left
    simp only [Emmc.finish, raised, Bool.false_eq_true, if_false, commands, Option.isSome_map,
      List.head?_cons, Option.map_some, Option.toList_some, Card.command]
    cases (s.calls proc).request.data <;> rfl

end Inv

/-- The requests that the controller has not finished. -/
def unfinished (s : State) : List Request :=
  (if s.emmc.interrupt then s.buflist.tail else s.buflist).map fun proc => (s.bufs proc).request

/-- At most one command is in flight, that of the first request of `buflist`, and one is as long as
there is a request. The controller executes the requests in the order in which they were queued,
each once. When `sdrw` returns its request was executed, and a read has what the last write queued
before it has written. -/
theorem sd_queue_in_order (card : Card) (contents : UInt32 → Block) (s : State)
    (reached : (machine card contents).Reach Machine.Any s) :
    s.panic = false ∧
    s.emmc.commands.length ≤ 1 ∧
    (∀ proc rest, s.buflist = proc :: rest →
      s.emmc.commands = [card.command (s.bufs proc).request] ∧
      ((s.step card .finish).isSome ∨ (s.step card .intr).isSome)) ∧
    s.executed ++ (unfinished s).map card.command = s.queued.map card.command ∧
    ∀ call data, (call, data) ∈ s.returned →
      call.before ++ [call.request] <+: s.queued ∧
      (call.before ++ [call.request]).map card.command <+: s.executed ∧
      (call.request.data = none →
        data = lastWrite (card.view contents) call.before call.request.blockno) := by
  obtain ⟨handled, inv⟩ := Inv.reach reached
  have requests : s.buflist.map (fun proc => (s.bufs proc).request) =
      s.buflist.map fun proc => (s.calls proc).request :=
    List.map_congr_left fun proc member => (inv.listed proc member).2.2
  have queued := inv.lined.queued_eq
  refine ⟨inv.calm, ?_, fun proc rest list => ⟨?_, inv.goes_on (by simp [list])⟩, ?_,
    fun call data told => ?_⟩
  · rw [inv.commands, first]
    cases s.buflist <;> simp
  · rw [inv.commands, first, list, (inv.listed proc (by simp [list])).2.2]
    rfl
  · rw [inv.executed, ← List.map_append, queued, ← requests]
    unfold finished unfinished
    cases list : s.buflist with
    | nil => simp
    | cons proc rest =>
      have same := (inv.listed proc (by simp [list])).2.2
      by_cases raised : s.emmc.interrupt = true <;> simp [raised, same]
  · obtain ⟨early, read⟩ := inv.returned (call, data) told
    refine ⟨?_, ?_, read⟩
    · rw [queued]
      exact early.trans (List.prefix_append ..)
    · rw [inv.executed]
      refine List.IsPrefix.map _ (early.trans ?_)
      unfold finished
      split
      · exact List.prefix_append ..
      · exact List.prefix_rfl

/-- A card, its blocks by number. -/
def exampleCard : Card := ⟨.type2Hc, 1000, nofun⟩

/-- Nobody is in `sdrw`, and the blocks of the card are zero. -/
def quietState : State where
  emmc := ⟨fun _ => .replicate 128 0, [], false, .replicate 128 0⟩
  bufs _ := ⟨0, 0, .replicate 128 0, .initSem 0⟩
  stages _ := .idle
  buflist := []
  panic := false
  calls _ := ⟨[], ⟨0, none⟩⟩
  queued := []
  executed := []
  returned := []

/-- A process writes a block, another reads it, and a third writes it again before the first request
is served. -/
def writeReadRun : List Act :=
  [.sdrw 0 ⟨bDirty ||| bValid, 5, .replicate 128 1, .initSem 0⟩, .test 0, .wait 0,
    .sdrw 1 ⟨0, 5, .replicate 128 7, .initSem 0⟩,
    .sdrw 2 ⟨bDirty, 5, .replicate 128 2, .initSem 0⟩, .finish, .intr, .finish, .wake 0, .test 0,
    .intr, .test 1]

/-- In that run the read returns what the first write has written. -/
theorem sd_queue_in_order_writeReadRun :
    ∃ s, (machine exampleCard fun _ => .replicate 128 0).Reach Machine.Any s ∧
      s.buflist = [2] ∧ s.emmc.commands = [⟨5, some (.replicate 128 2)⟩] ∧
      s.returned = [(⟨[⟨5, some (.replicate 128 1)⟩], ⟨5, none⟩⟩, .replicate 128 1),
        (⟨[], ⟨5, some (.replicate 128 1)⟩⟩, .replicate 128 1)] := by
  have shown : ((machine exampleCard fun _ => .replicate 128 0).exec Machine.Any quietState
      writeReadRun).map (fun s => (s.buflist, s.returned, (s.bufs 2).request)) =
        some ([2], [(⟨[⟨5, some (.replicate 128 1)⟩], ⟨5, none⟩⟩, .replicate 128 1),
          (⟨[], ⟨5, some (.replicate 128 1)⟩⟩, .replicate 128 1)],
          ⟨5, some (.replicate 128 2)⟩) := by
    decide +kernel
  obtain ⟨s, reached, observed⟩ := Machine.Reach.exec_map (by simp [machine, quietState]) shown
  simp only [Prod.mk.injEq] at observed
  obtain ⟨list, returned, request⟩ := observed
  obtain ⟨-, -, inFlight, -⟩ := sd_queue_in_order _ _ s reached
  obtain ⟨commands, -⟩ := inFlight 2 [] list
  rw [request] at commands
  exact ⟨s, reached, list, commands, returned⟩

end OsLab.Driver
