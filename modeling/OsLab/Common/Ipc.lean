import OsLab.Aarch64.Mmu
import OsLab.Common.Memory

/-!
# Messages

`load_msg`, `store_msg` and `free_msg` of `src/common/ipc.c`. A message is copied into one page
with a header of 32 bytes and, where it is longer, into a chain of pages with a header of 8
bytes. The two loops subtract a part from the remaining length before they advance their
pointer by the part that is left; how far a message gets is the subject of this module.

User memory is a function from positions, counted from the pointer passed in. The pages on the
free queue are a list, next page first; a call that finds the queue empty fails.
-/
namespace OsLab.Common.Ipc

open OsLab.Lib OsLab.Aarch64

/-- `sizeof(msg_msg)`. -/
def msgHeader : Nat := 32

/-- `sizeof(msg_msgseg)`. -/
def segHeader : Nat := 8

/-- `MSG_MSGSZ`: the bytes of a message in its first page. -/
def msgMsgsz : Nat := pageSize - msgHeader

/-- `MSG_MSGSEGSZ`: the bytes of a message in each further page. -/
def msgMsgsegsz : Nat := pageSize - segHeader

/-- The pages that hold the text of a message: its own and those of its segments, in order. -/
structure Chain where
  /-- The page of the `msg_msg`. -/
  page : Page
  /-- The pages of the `msg_msgseg`s that `nxt` leads through. -/
  segs : List Page

/-- `msg_msg`. -/
structure Msg where
  /-- The type a receiver selects by. -/
  mtype : Int
  size : Nat
  /-- Where the bytes are. -/
  chain : Chain

/-- `msgbuf`: a type and the text after it. -/
structure MsgBuf where
  mtype : Int
  data : Memory

/-- The loop of `load_msg`, reading from `src` at `offset`; the segments filled so far are
`filled`, latest first. Without a page for the next one the call gives up. -/
def loadLoop (src : Memory) : List Page → List Page → Nat → Nat → Option (List Page) × List Page
  | free, filled, _, 0 => (some filled.reverse, free)
  | [], filled, _, _ + 1 => (none, filled)
  | page :: free, filled, offset, len + 1 =>
    let part := min msgMsgsegsz (len + 1)
    let rest := len + 1 - part
    let page := page.blit segHeader part fun index => src (offset + index)
    loadLoop src free (page :: filled) (offset + min msgMsgsegsz rest) rest

/-- `load_msg`: the pages of the message, and the pages still free. -/
def loadMsg (free : List Page) (src : Memory) (len : Nat) : Option Chain × List Page :=
  match free with
  | [] => (none, [])
  | page :: free =>
    let part := min msgMsgsz len
    let rest := len - part
    let page := page.blit msgHeader part src
    match loadLoop src free [] (min msgMsgsz rest) rest with
    | (some segs, free) => (some ⟨page, segs⟩, free)
    | (none, free) => (none, page :: free)

/-- The loop of `store_msg`, writing to `dst` at `offset`; `none` where it follows a null
pointer. -/
def storeLoop : Memory → Nat → List Page → Nat → Option Memory
  | dst, _, _, 0 => some dst
  | _, _, [], _ + 1 => none
  | dst, offset, seg :: segs, msgsz + 1 =>
    let part := min (msgsz + 1) msgMsgsegsz
    let rest := msgsz + 1 - part
    let dst := copyTo dst offset part fun index => seg.get (segHeader + index)
    storeLoop dst (offset + min rest msgMsgsegsz) segs rest

/-- `store_msg`. -/
def storeMsg (dstg : MsgBuf) (msg : Msg) (msgsz : Nat) : Option MsgBuf :=
  let part := min msgsz msgMsgsz
  let rest := msgsz - part
  let dst := copyTo dstg.data 0 part fun index => msg.chain.page.get (msgHeader + index)
  (storeLoop dst (min msgMsgsz rest) msg.chain.segs rest).map fun data => ⟨msg.mtype, data⟩

/-- What `sys_msgrcv` does with the message it got: the number of bytes it returns and the
caller's buffer afterwards. -/
def deliver (msgp : MsgBuf) (msgsz : Nat) (msg : Msg) : Option (Nat × MsgBuf) :=
  let msgsz := min msgsz msg.size
  (storeMsg msgp msg msgsz).map fun msgp => (msgsz, msgp)

/-! ## How far the loops get -/

/-- The number of pages behind the first that a message needs with `len` bytes left. -/
def segCount (len : Nat) : Nat := (len + (msgMsgsegsz - 1)) / msgMsgsegsz

/-- How many bytes, counted from the pointer the loops start with, they carry over when `len`
bytes are left. -/
def reach : Nat → Nat
  | 0 => 0
  | len + 1 =>
    let part := min msgMsgsegsz (len + 1)
    let rest := len + 1 - part
    max part (min msgMsgsegsz rest + reach rest)
termination_by len => len
decreasing_by simp only [msgMsgsegsz, pageSize, segHeader]; omega

/-- Copying a part into a page and out again is copying the part. -/
theorem copyTo_blit (dst src : Memory) (page : Page) {offset header part : Nat}
    (fits : header + part ≤ pageSize) :
    copyTo dst offset part (fun index => (page.blit header part src).get (header + index)) =
      copyTo dst offset part src := by
  refine copyTo_congr fun index below => ?_
  rw [Bytes.get_blit (by omega), if_pos (by omega), Nat.add_sub_cancel_left]

/-- With pages for all segments the loop of `load_msg` succeeds, and the loop of `store_msg`
puts every segment back where it came from. -/
theorem storeLoop_loadLoop (src : Memory) (free filled : List Page) (offset len : Nat)
    (enough : segCount len ≤ free.length) :
    ∃ segs rest, loadLoop src free filled offset len = (some (filled.reverse ++ segs), rest) ∧
      ∀ dst, storeLoop dst offset segs len =
        some (copyTo dst offset (reach len) fun index => src (offset + index)) := by
  induction free generalizing filled offset len with
  | nil =>
    obtain rfl : len = 0 := by
      simp only [segCount, msgMsgsegsz, pageSize, segHeader, List.length_nil] at enough
      omega
    exact ⟨[], [], by simp [loadLoop], fun dst => by simp [storeLoop, reach]⟩
  | cons page free ih =>
    cases len with
    | zero => exact ⟨[], page :: free, by simp [loadLoop], fun dst => by simp [storeLoop, reach]⟩
    | succ len =>
      rw [loadLoop, reach]
      generalize partIs : min msgMsgsegsz (len + 1) = part
      generalize restIs : len + 1 - part = rest
      simp only [segCount, msgMsgsegsz, pageSize, segHeader, List.length_cons]
        at partIs enough
      have fits : segHeader + part ≤ pageSize := by
        simp only [segHeader, pageSize]
        omega
      have fewer : segCount rest ≤ free.length := by
        simp only [segCount, msgMsgsegsz, pageSize, segHeader]
        omega
      have joined : min msgMsgsegsz rest ≤ part := by
        simp only [msgMsgsegsz, pageSize, segHeader]
        omega
      obtain ⟨segs, left, loaded, stored⟩ := ih
        ((page.blit segHeader part fun index => src (offset + index)) :: filled)
        (offset + min msgMsgsegsz rest) rest fewer
      refine ⟨_ :: segs, left, by simpa using loaded, fun dst => ?_⟩
      have same : min (len + 1) msgMsgsegsz = part := by
        rw [Nat.min_comm]
        exact partIs
      rw [storeLoop]
      simp only [same, restIs, Nat.min_comm rest]
      rw [stored, copyTo_blit dst _ page fits, copyTo_copyTo dst src offset _ joined]

/-- One segment carries over whatever fits into it. -/
theorem reach_of_le {len : Nat} (short : len ≤ msgMsgsegsz) : reach len = len := by
  cases len with
  | zero => rw [reach]
  | succ len =>
    rw [reach, Nat.min_eq_right short, Nat.sub_self, reach]
    omega

/-- One round of the loops on a message that does not fit into one segment. -/
theorem reach_of_gt {len : Nat} (long : msgMsgsegsz < len) : reach len =
    max msgMsgsegsz (min msgMsgsegsz (len - msgMsgsegsz) + reach (len - msgMsgsegsz)) := by
  cases len with
  | zero => omega
  | succ len => rw [reach, Nat.min_eq_left (by omega)]

/-- The loops never carry over more than the message. -/
theorem reach_le (len : Nat) : reach len ≤ len := by
  induction len using Nat.strong_induction_on with
  | _ len ih =>
    by_cases short : len ≤ msgMsgsegsz
    · exact (reach_of_le short).le
    · rw [reach_of_gt (by omega)]
      have size : msgMsgsegsz = 4088 := rfl
      have later := ih (len - msgMsgsegsz) (by omega)
      omega

/-- The loops carry over everything exactly when the last segment is full or the only one. -/
theorem reach_eq_self {len : Nat} :
    reach len = len ↔ len ≤ msgMsgsegsz ∨ len % msgMsgsegsz = 0 := by
  induction len using Nat.strong_induction_on with
  | _ len ih =>
    have size : msgMsgsegsz = 4088 := rfl
    by_cases short : len ≤ msgMsgsegsz
    · simp [short, reach_of_le]
    · have later := ih (len - msgMsgsegsz) (by omega)
      have bounded := reach_le (len - msgMsgsegsz)
      rw [reach_of_gt (by omega)]
      rw [size] at *
      omega

/-- The lengths of messages that come through: one page; one segment behind the first page and
at least as long as it; or nothing but full segments behind the first page. -/
def Whole (len : Nat) : Prop :=
  len ≤ msgMsgsz ∨ (msgMsgsz ≤ len - msgMsgsz ∧ len - msgMsgsz ≤ msgMsgsegsz) ∨
    (len - msgMsgsz) % msgMsgsegsz = 0

instance (len : Nat) : Decidable (Whole len) := inferInstanceAs (Decidable (_ ∨ _))

/-- How many bytes of a message of `len` bytes come through. -/
def delivered (len : Nat) : Nat :=
  max (min msgMsgsz len) (min msgMsgsz (len - msgMsgsz) + reach (len - msgMsgsz))

/-- All of a message comes through exactly at the lengths above. -/
theorem delivered_eq_self {len : Nat} : delivered len = len ↔ Whole len := by
  have first : msgMsgsz = 4064 := rfl
  have size : msgMsgsegsz = 4088 := rfl
  have bounded := reach_le (len - msgMsgsz)
  have all := @reach_eq_self (len - msgMsgsz)
  simp only [delivered, Whole]
  rw [first, size] at *
  omega

theorem delivered_le {len : Nat} : delivered len ≤ len := by
  have bounded := reach_le (len - msgMsgsz)
  simp only [delivered]
  omega

/-- With enough pages a message can be loaded, and storing it again writes the bytes that come
through, each to its place, and nothing else. -/
theorem storeMsg_loadMsg (free : List Page) (src : Memory) (len : Nat)
    (enough : 1 + segCount (len - msgMsgsz) ≤ free.length) :
    ∃ chain rest, loadMsg free src len = (some chain, rest) ∧
      ∀ (mtype : Int) (dstg : MsgBuf), storeMsg dstg ⟨mtype, len, chain⟩ len =
        some ⟨mtype, copyTo dstg.data 0 (delivered len) src⟩ := by
  cases free with
  | nil => simp at enough
  | cons page free =>
    have first : msgMsgsz = 4064 := rfl
    have restIs : len - min msgMsgsz len = len - msgMsgsz := by omega
    obtain ⟨segs, left, loaded, stored⟩ := storeLoop_loadLoop src free []
      (min msgMsgsz (len - msgMsgsz)) (len - msgMsgsz) (by
        simp only [List.length_cons] at enough
        omega)
    refine ⟨⟨page.blit msgHeader (min msgMsgsz len) src, segs⟩, left, ?_, fun mtype dstg => ?_⟩
    · simp only [loadMsg, restIs, loaded]
      rfl
    · have fits : msgHeader + min msgMsgsz len ≤ pageSize := by
        simp only [msgHeader, pageSize]
        omega
      have joined : min msgMsgsz (len - msgMsgsz) ≤ min msgMsgsz len := by omega
      have extended := copyTo_copyTo dstg.data src 0 (reach (len - msgMsgsz)) joined
      simp only [Nat.zero_add] at extended
      simp only [storeMsg, Nat.min_comm len, restIs, stored, copyTo_blit dstg.data src page fits,
        extended, delivered, Option.map_some]

/-- A message is received as it was sent exactly at these lengths: `store_msg` writes its bytes, in
order, and nothing else, and `sys_msgrcv` returns its length, with any buffer that holds it. -/
theorem message_received_as_sent (free : List Page) (src : Memory) (len : Nat)
    (enough : 1 + segCount (len - msgMsgsz) ≤ free.length) :
    Whole len ↔ ∃ chain rest, loadMsg free src len = (some chain, rest) ∧
      ∀ (mtype : Int) (msgp : MsgBuf),
        let received : MsgBuf := ⟨mtype, fun index => if index < len then src index
          else msgp.data index⟩
        storeMsg msgp ⟨mtype, len, chain⟩ len = some received ∧
          ∀ msgsz, len ≤ msgsz → deliver msgp msgsz ⟨mtype, len, chain⟩ = some (len, received) := by
  obtain ⟨chain, rest, loaded, stored⟩ := storeMsg_loadMsg free src len enough
  constructor
  · intro whole
    refine ⟨chain, rest, loaded, fun mtype msgp => ?_⟩
    have whole_text : storeMsg msgp ⟨mtype, len, chain⟩ len =
        some ⟨mtype, fun index => if index < len then src index else msgp.data index⟩ := by
      rw [stored, delivered_eq_self.mpr whole]
      congr 2
      funext index
      simp [copyTo]
    refine ⟨whole_text, fun msgsz large => ?_⟩
    simp only [deliver, Nat.min_eq_right large, whole_text, Option.map_some]
  · -- the first byte that does not come through stays what it was in a buffer unlike the message
    rintro ⟨chain', rest', loaded', received⟩
    obtain rfl : chain = chain' := by simpa using congrArg Prod.fst (loaded.symm.trans loaded')
    have equal := (stored 0 ⟨0, fun index => src index + 1⟩).symm.trans (received 0 _).1
    by_contra short
    have less : delivered len < len := Nat.lt_of_le_of_ne delivered_le (mt delivered_eq_self.mp short)
    have byte := congrArg (fun buffer : MsgBuf => buffer.data (delivered len))
      (Option.some.inj equal)
    simp [copyTo, less] at byte

/-- A message that fills its first page and one segment, in a queue of two free pages. -/
theorem message_received_as_sent_fullSegment :
    ∃ chain rest, loadMsg [.zero, .zero] UInt8.ofNat 8152 = (some chain, rest) ∧
      ∀ (mtype : Int) (msgp : MsgBuf),
        let received : MsgBuf := ⟨mtype, fun index => if index < 8152 then UInt8.ofNat index
          else msgp.data index⟩
        storeMsg msgp ⟨mtype, 8152, chain⟩ 8152 = some received ∧
          ∀ msgsz, 8152 ≤ msgsz →
            deliver msgp msgsz ⟨mtype, 8152, chain⟩ = some (8152, received) :=
  (message_received_as_sent [.zero, .zero] UInt8.ofNat 8152 (by decide)).mp (by decide)

/-- One byte more than the first page holds: the last byte of the buffer stays 0 although the
message is all ones. -/
theorem last_byte_not_received :
    ((loadMsg [.zero, .zero] (fun _ => 1) 4065).1.bind fun chain =>
      (storeMsg ⟨0, fun _ => 0⟩ ⟨1, 4065, chain⟩ 4065).map fun received =>
        (received.data 4063, received.data 4064)) = some (1, 0) := by
  decide +kernel

end OsLab.Common.Ipc
