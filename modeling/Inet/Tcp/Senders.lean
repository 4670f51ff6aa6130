import Inet.Tcp.NextSeg
import Inet.Tcp.SackOption

/-!
# Sending data

`sendData` computes how many octets the windows allow and spends them on segments. After a
retransmission timeout `sendSegment` first moves `snd_nxt` over octets that are SACKed or
retransmitted.
-/
namespace Inet.Tcp

open Lib Lib.Serial

/-- A segment: its sequence number, the octets of data and the FIN. -/
structure Segment where
  sequenceNo : SeqNum
  length : BitVec 32
  fin : Bool
deriving DecidableEq, Repr

/-- The length is that of the data between the two ends. -/
def TcpSendQueue.createSegmentWithBytes (queue : TcpSendQueue) (fromSeq numBytes : BitVec 32) :
    Except String Unit := do
  assert (seqLE queue.begin_ fromSeq && seqLE (fromSeq + numBytes) queue.end_)
    "seqLE(begin, fromSeq) && seqLE(fromSeq + numBytes, end)"
  let length := (queue.end_ - queue.begin_).toNat
  let offset := (fromSeq - queue.begin_).toNat
  if length < offset then throw "offset is out of range"
  else if length < offset + numBytes.toNat then throw "length is invalid"
  else if numBytes = 0 then
    throw "Returning an empty chunk is not allowed according to the flags: 0"

/-- A connection with the variables that decide what it sends. -/
structure TcpSender extends TcpConnection where
  snd_nxt : SeqNum
  afterRto : Bool
  send_fin : Bool
  snd_fin_seq : SeqNum
  nagle_enabled : Bool
  /-- SACKs are to be sent, and `addSacks` adds options of so many octets. -/
  sacks : Option Nat
  sendQueue : TcpSendQueue
deriving DecidableEq, Repr

namespace TcpSender

/-- The states in which segments without a SYN carry options. -/
def writesOptions (s : TcpSender) : Bool :=
  s.fsm = .synSent || s.fsm = .synRcvd || s.fsm = .established || s.fsm = .finWait1 ||
    s.fsm = .finWait2 || s.fsm = .closeWait

/-- The length of the options of a segment without a SYN. SACKs are sent once, and too many options
are dropped. -/
def writeHeaderOptions (s : TcpSender) : BitVec 32 × TcpSender :=
  if s.writesOptions then
    let sacks := if s.state.sack_enabled then s.sacks else none
    let timestamp := if s.state.ts_enabled then if sacks.isSome then 10 else 12 else 0
    let options_len := timestamp + sacks.getD 0
    (if options_len ≤ 40 then BitVec.ofNat 32 options_len else 0,
      if s.state.sack_enabled then { s with sacks := none } else s)
  else (0, s)

/-- Where `sendSegment` sends from. -/
def forwarded (s : TcpSender) : Except String SeqNum :=
  if s.state.sack_enabled && s.afterRto then do
    let forward ← s.rexmitQueue.checkRexmitQueueForSackedOrRexmittedSegments s.snd_nxt
    return s.snd_nxt + forward
  else .ok s.snd_nxt

/-- The result is the number of octets of data that are sent. -/
def sendSegment (s : TcpSender) (bytes : BitVec 32) :
    Except String (BitVec 32 × Segment × TcpSender) := do
  let old_snd_nxt ← s.forwarded
  let buffered := s.sendQueue.getBytesAvailable old_snd_nxt
  let bytes := if buffered < bytes then buffered else bytes
  let (options_len, s) := s.writeHeaderOptions
  assert (options_len < s.state.snd_mss) "options_len < state->snd_mss"
  let bytes :=
    if s.state.snd_mss < bytes + options_len then s.state.snd_mss - options_len else bytes
  s.sendQueue.createSegmentWithBytes old_snd_nxt bytes
  let snd_nxt := old_snd_nxt + bytes
  let afterRto := s.afterRto && !seqGE snd_nxt s.state.snd_max
  let fin := s.send_fin && snd_nxt == s.snd_fin_seq
  let snd_nxt := if fin then s.snd_fin_seq + 1 else snd_nxt
  let rexmitQueue ←
    if s.state.sack_enabled then s.rexmitQueue.enqueueSentData old_snd_nxt snd_nxt
    else pure s.rexmitQueue
  let snd_max := if seqGreater snd_nxt s.state.snd_max then snd_nxt else s.state.snd_max
  return (bytes, ⟨old_snd_nxt, bytes, fin⟩,
    { s with snd_nxt, afterRto, rexmitQueue, state := { s.state with snd_max } })

/-- The loop over whole segments, for a number of rounds. What is left of the octets comes with the
segments. -/
def sendWhole (effectiveMss : BitVec 32) : Nat → BitVec 32 → TcpSender →
    Except String (BitVec 32 × List Segment × TcpSender)
  | 0, _, _ => .error "more rounds"
  | rounds + 1, bytesToSend, s =>
    if effectiveMss ≤ bytesToSend then do
      let (sentBytes, segment, s) ← s.sendSegment effectiveMss
      assert (sentBytes ≤ bytesToSend) "bytesToSend >= sentBytes"
      let (bytesToSend, segments, s) ← sendWhole effectiveMss rounds (bytesToSend - sentBytes) s
      return (bytesToSend, segment :: segments, s)
    else .ok (bytesToSend, [], s)

/-- The last segment is delayed while there is data that is not acknowledged. -/
def delays (s : TcpSender) (bytesToSend : BitVec 32) : Bool :=
  let unacknowledgedData := s.state.snd_una != s.state.snd_max
  let containsFin := s.send_fin && s.snd_nxt + bytesToSend == s.snd_fin_seq
  s.nagle_enabled && unacknowledgedData && !containsFin

def sendRest (s : TcpSender) (bytesToSend : BitVec 32) :
    Except String (List Segment × TcpSender) :=
  if 0 < bytesToSend then
    if s.delays bytesToSend then .ok ([], s)
    else do
      let (_, segment, s) ← s.sendSegment bytesToSend
      return ([segment], s)
  else .ok ([], s)

/-- The smaller one of the two windows. -/
def maxWindow (s : TcpSender) (congestionWindow : BitVec 32) : BitVec 32 :=
  if congestionWindow < s.state.snd_wnd then congestionWindow else s.state.snd_wnd

/-- Sending starts from `snd_max`, if not after a timeout. -/
def atStart (s : TcpSender) : TcpSender :=
  if s.afterRto then s else { s with snd_nxt := s.state.snd_max }

/-- The segments come with the result. Timers and the algorithm are told about them. -/
def sendData (s : TcpSender) (congestionWindow : BitVec 32) (rounds : Nat) :
    Except String (Bool × List Segment × TcpSender) :=
  let s := s.atStart
  let buffered := s.sendQueue.getBytesAvailable s.snd_nxt
  if buffered = 0 then .ok (false, [], s)
  else
    let effectiveWin : Int :=
      (s.maxWindow congestionWindow).toNat - (s.snd_nxt - s.state.snd_una).toNat
    if effectiveWin ≤ 0 then .ok (false, [], s)
    else do
      let window := BitVec.ofInt 32 effectiveWin
      let bytesToSend := if window < buffered then window else buffered
      let old_snd_nxt := s.snd_nxt
      let (options_len, s) := s.writeHeaderOptions
      assert (options_len < s.state.snd_mss) "options_len < state->snd_mss"
      let effectiveMss := s.state.snd_mss - options_len
      let (bytesToSend, whole, s) ← sendWhole effectiveMss rounds bytesToSend s
      let (rest, s) ← s.sendRest bytesToSend
      return (old_snd_nxt != s.snd_nxt, whole ++ rest, s)

end TcpSender
end Inet.Tcp

/-!
## The states of a sender

The variables of a sender are positions in the octets from `snd_una` on. A segment that is sent
moves them forward.
-/
namespace Inet.Tcp

open Lib Lib.Serial

variable {n : Nat}

/-- The octets from a position on that are SACKed or retransmitted without a gap. -/
def passed (flags : List Flags) (n : Nat) : Nat :=
  ((flags.drop n).takeWhile fun f => f.1 || f.2).length

theorem passed_le (flags : List Flags) (n : Nat) : passed flags n ≤ flags.length - n := by
  rw [← List.length_drop]
  exact (List.takeWhile_sublist _).length_le

theorem drop_enqueueFlags {a t : Nat} {flags : List Flags} (le : a ≤ t)
    (inside : a ≤ flags.length) : (enqueueFlags a t flags).drop t = flags.drop t := by
  refine List.ext_getElem? fun k => ?_
  rw [List.getElem?_drop, List.getElem?_drop, getElem?_enqueueFlags a t _ flags le inside]
  exact if_neg (by omega)

/-- The scoreboard has the octets from a number on, up to a position. -/
structure Board (q : TcpSackRexmitQueue) (snd_una : SeqNum) (size : Nat) : Prop where
  refines : Refines q q.byteMap
  begins : q.begin_ = snd_una
  ends : q.end_ = seqOf snd_una size

namespace Board

variable {q : TcpSackRexmitQueue} {snd_una : SeqNum} {size : Nat}

theorem fwd_eq (board : Board q snd_una size) (near : n < 2 ^ 31) :
    fwd q.begin_ (seqOf snd_una n) = n := by
  have start := fwd_seqOf snd_una (Nat.zero_le n) (by omega)
  rw [board.begins]
  rwa [seqOf_zero, Nat.sub_zero] at start

theorem length_eq (board : Board q snd_una size) (near : size < 2 ^ 31) :
    (flagsOf q.rexmitQueue).length = size := by
  rw [← board.refines.span, board.ends, board.fwd_eq near]

theorem above (board : Board q snd_una size) (near : n < 2 ^ 31) :
    seqLE q.begin_ (seqOf snd_una n) = true := by
  rw [seqLE_iff, board.fwd_eq near]
  exact near

theorem query (board : Board q snd_una size) (near : size < 2 ^ 31) (le : n ≤ size) :
    q.checkRexmitQueueForSackedOrRexmittedSegments (seqOf snd_una n) =
      .ok (BitVec.ofNat 32 (passed (flagsOf q.rexmitQueue) n)) := by
  have below : seqLE (seqOf snd_una n) q.end_ = true := by
    rw [board.ends]
    exact (seqLE_seqOf snd_una (by omega) (by omega)).mpr le
  obtain ⟨bytes, returned, count⟩ :=
    board.refines.segments (seqOf snd_una n) (board.above (by omega)) below
  rw [board.refines.takeWhile_bytes _ (by rw [board.fwd_eq (by omega), board.length_eq near]; omega),
    board.fwd_eq (by omega)] at count
  rw [returned, passed, ← count, BitVec.ofNat_toNat, BitVec.setWidth_eq]

theorem enqueue (board : Board q snd_una size) {a t : Nat} (inside : a ≤ size) (less : a < t)
    (near : size < 2 ^ 31) (short : t < 2 ^ 31) :
    ∃ q', q.enqueueSentData (seqOf snd_una a) (seqOf snd_una t) = .ok q' ∧
      Board q' snd_una (max size t) ∧
      ∀ n, t ≤ n → passed (flagsOf q'.rexmitQueue) n = passed (flagsOf q.rexmitQueue) n := by
  have length := board.length_eq near
  have start := board.fwd_eq (n := a) (by omega)
  have stop := board.fwd_eq short
  have finish := board.fwd_eq near
  obtain ⟨q', returned, refines, flags⟩ := board.refines.enqueueSentData_flags
    (seqOf snd_una a) (seqOf snd_una t)
    ⟨board.above (by omega), (by
      change seqLE _ q.end_ = true
      rw [board.ends]
      exact (seqLE_seqOf snd_una (by omega) (by omega)).mpr inside),
      (seqLess_seqOf snd_una (by omega) (by omega)).mpr less, (by
      change fwd q.begin_ _ < _
      rw [stop]
      exact short)⟩
  refine ⟨q', returned, ⟨refines.self, refines.begin_eq.symm.trans board.begins, ?_⟩, ?_⟩
  · rw [← refines.end_eq]
    change (if fwd q.begin_ q.end_ ≤ fwd q.begin_ (seqOf snd_una t) then seqOf snd_una t
      else q.end_) = _
    rw [board.ends, finish, stop]
    split
    · next le => rw [Nat.max_eq_right le]
    · next more => rw [Nat.max_eq_left (Nat.le_of_not_le more)]
  · intro n le
    rw [start, stop] at flags
    have kept : (enqueueFlags a t (flagsOf q.rexmitQueue)).drop t =
        (flagsOf q.rexmitQueue).drop t := drop_enqueueFlags less.le (by omega)
    rw [← flags] at kept
    obtain ⟨k, rfl⟩ := Nat.exists_eq_add_of_le le
    rw [passed, passed, ← List.drop_drop, ← List.drop_drop, kept]

end Board

namespace TcpSender

/-- The positions of `snd_nxt`, of `snd_max` and of the end of the data. A FIN comes behind the
data, and on the scoreboard it is only if it was sent with data. -/
structure Placed (s : TcpSender) (nxt sent data : Nat) : Prop where
  begins : s.sendQueue.begin_ = s.state.snd_una
  ends : s.sendQueue.end_ = seqOf s.state.snd_una data
  snd_nxt : s.snd_nxt = seqOf s.state.snd_una nxt
  snd_max : s.state.snd_max = seqOf s.state.snd_una sent
  nxt_le : nxt ≤ sent
  sent_le : sent ≤ data ∨ s.send_fin = true ∧ sent = data + 1
  short : data + 1 < 2 ^ 31
  snd_fin_seq : s.send_fin = true → s.snd_fin_seq = s.sendQueue.end_
  scoreboard : s.state.sack_enabled = true → ∃ size, Board s.rexmitQueue s.state.snd_una size ∧
    (size = sent ∨ size = data ∧ sent = data + 1)

/-- The octets that a segment's start is moved over. -/
def skip (s : TcpSender) (n : Nat) : Nat :=
  if s.state.sack_enabled then passed (flagsOf s.rexmitQueue.rexmitQueue) n else 0

/-- The length of options without SACKs. -/
def laterOptions (s : TcpSender) : BitVec 32 :=
  if s.writesOptions then if s.state.ts_enabled then 12 else 0 else 0

variable {s : TcpSender} {nxt sent data : Nat}

theorem writeHeaderOptions_snd (s : TcpSender) :
    ∃ sacks, s.writeHeaderOptions.2 = { s with sacks } := by
  unfold writeHeaderOptions
  split
  · dsimp only
    split
    · exact ⟨none, rfl⟩
    · exact ⟨s.sacks, rfl⟩
  · exact ⟨s.sacks, rfl⟩

theorem options_le (s : TcpSender) : s.writeHeaderOptions.1.toNat ≤ 40 := by
  have few (n : Nat) : (if n ≤ 40 then BitVec.ofNat 32 n else 0).toNat ≤ 40 := by
    split
    · next le =>
      rw [BitVec.toNat_ofNat]
      exact (Nat.mod_le _ _).trans le
    · exact Nat.zero_le _
  unfold writeHeaderOptions
  split
  · exact few _
  · exact Nat.zero_le _

/-- Where `sendSegment` sends from. -/
def start (s : TcpSender) (n : Nat) : Nat := if s.afterRto then n + s.skip n else n

/-- The octets of data of a segment. -/
def taken (s : TcpSender) (data n request : Nat) : Nat :=
  min (min request (data - s.start n)) (s.state.snd_mss - s.writeHeaderOptions.1).toNat

/-- A FIN is sent behind the data. -/
def finBehind (s : TcpSender) (data n : Nat) : Bool := s.send_fin && n == data

/-- A sender behind a segment. -/
def advance (s : TcpSender) (data sent stop : Nat) (rexmitQueue : TcpSackRexmitQueue) : TcpSender :=
  let nxt := if s.finBehind data stop then data + 1 else stop
  { s.writeHeaderOptions.2 with
    snd_nxt := seqOf s.state.snd_una nxt
    afterRto := s.afterRto && decide (stop < sent)
    rexmitQueue
    state := { s.state with snd_max := seqOf s.state.snd_una (max sent nxt) } }

theorem createSegmentWithBytes_zero (queue : TcpSendQueue) (fromSeq : SeqNum) :
    ∃ e, queue.createSegmentWithBytes fromSeq 0 = .error e := by
  unfold TcpSendQueue.createSegmentWithBytes assert
  split
  · rw [ok_bind]
    dsimp only
    split
    · exact ⟨_, rfl⟩
    · split
      · exact ⟨_, rfl⟩
      · exact ⟨_, rfl⟩
  · exact ⟨_, rfl⟩

/-- Without data the buffer stops a segment. -/
theorem sendSegment_of_empty {from_ : SeqNum} (forwarded : s.forwarded = .ok from_)
    (empty : s.sendQueue.getBytesAvailable from_ = 0) (request : BitVec 32) :
    ∃ e, s.sendSegment request = .error e := by
  obtain ⟨sacks, written⟩ := s.writeHeaderOptions_snd
  have nothing : (if (0 : BitVec 32) < request then 0 else request) = 0 := by
    split
    · rfl
    · next zero =>
      rw [BitVec.lt_def] at zero
      exact BitVec.eq_of_toNat_eq (Nat.le_zero.mp (Nat.not_lt.mp zero))
  unfold sendSegment
  rw [forwarded, ok_bind]
  dsimp only
  rw [empty, nothing, written]
  dsimp only
  by_cases fits : s.writeHeaderOptions.1 < s.state.snd_mss
  · have small : ¬s.state.snd_mss < 0 + s.writeHeaderOptions.1 := by
      rw [show 0 + s.writeHeaderOptions.1 = s.writeHeaderOptions.1 from BitVec.zero_add _]
      exact BitVec.not_lt.mpr (BitVec.le_of_lt fits)
    obtain ⟨e, failed⟩ := createSegmentWithBytes_zero s.sendQueue from_
    rw [assert, if_pos (decide_eq_true fits), ok_bind, if_neg small, failed]
    exact ⟨e, rfl⟩
  · rw [assert, if_neg (by rw [decide_eq_true_iff]; exact fits)]
    exact ⟨_, rfl⟩

namespace Placed

theorem available (placed : Placed s nxt sent data) (near : n ≤ data + 1) :
    s.sendQueue.getBytesAvailable (seqOf s.state.snd_una n) = BitVec.ofNat 32 (data - n) := by
  have short := placed.short
  have order := seqLess_seqOf s.state.snd_una (a := n) (b := data) (by omega) (by omega)
  unfold TcpSendQueue.getBytesAvailable
  rw [placed.ends]
  by_cases less : n < data
  · rw [if_pos (order.mpr less), sub_eq_ofNat, fwd_seqOf _ less.le (by omega)]
  · rw [if_neg (mt order.mp less), Nat.sub_eq_zero_of_le (Nat.le_of_not_lt less)]
    rfl

theorem create (placed : Placed s nxt sent data) {start length : Nat} (positive : 0 < length)
    (inside : start + length ≤ data) :
    s.sendQueue.createSegmentWithBytes (seqOf s.state.snd_una start) (BitVec.ofNat 32 length) =
      .ok () := by
  have short := placed.short
  have first := fwd_seqOf s.state.snd_una (Nat.zero_le start) (by omega)
  have whole := fwd_seqOf s.state.snd_una (Nat.zero_le data) (by omega)
  rw [seqOf_zero, fwd] at first whole
  have above : seqLE s.state.snd_una (seqOf s.state.snd_una start) = true := by
    rw [seqLE_iff, fwd]
    omega
  have below : seqLE (seqOf s.state.snd_una (start + length)) (seqOf s.state.snd_una data) = true :=
    (seqLE_seqOf _ (by omega) (by omega)).mpr inside
  have octets : (BitVec.ofNat 32 length).toNat = length := by
    rw [BitVec.toNat_ofNat, Nat.mod_eq_of_lt (by omega)]
  have some : BitVec.ofNat 32 length ≠ 0 := fun none => by
    rw [none] at octets
    exact absurd octets (by simp; omega)
  unfold TcpSendQueue.createSegmentWithBytes
  rw [placed.begins, placed.ends, ← seqOf_add, above, below, first, whole, octets]
  dsimp only
  rw [if_neg (show ¬data - 0 < start - 0 by omega),
    if_neg (show ¬data - 0 < start - 0 + length by omega), if_neg some]
  rfl

/-- Sending starts at a position of the scoreboard or at its end. -/
theorem on_board (placed : Placed s nxt sent data) (le : nxt ≤ data)
    (enabled : s.state.sack_enabled = true) :
    ∃ size, Board s.rexmitQueue s.state.snd_una size ∧ (size = sent ∨ size = data ∧ sent = data + 1) ∧
      size < 2 ^ 31 ∧ nxt ≤ size ∧ s.start nxt ≤ size := by
  have near := placed.sent_le
  have short := placed.short
  have inside := placed.nxt_le
  obtain ⟨size, board, ends⟩ := placed.scoreboard enabled
  have bound := passed_le (flagsOf s.rexmitQueue.rexmitQueue) nxt
  rw [board.length_eq (by omega)] at bound
  refine ⟨size, board, ends, by omega, by omega, ?_⟩
  unfold start skip
  rw [if_pos enabled]
  split <;> omega

theorem start_le (placed : Placed s nxt sent data) (le : nxt ≤ data) : s.start nxt ≤ data + 1 := by
  have near := placed.sent_le
  cases enabled : s.state.sack_enabled with
  | true =>
    obtain ⟨size, -, ends, -, -, inside⟩ := placed.on_board le enabled
    omega
  | false =>
    unfold start skip
    rw [enabled]
    split
    · rw [if_neg nofun]
      omega
    · omega

theorem forwarded (placed : Placed s nxt sent data) (le : nxt ≤ data) :
    s.forwarded = .ok (seqOf s.state.snd_una (s.start nxt)) := by
  unfold TcpSender.forwarded start skip
  rw [placed.snd_nxt]
  cases enabled : s.state.sack_enabled with
  | false =>
    cases s.afterRto <;> rfl
  | true =>
    cases s.afterRto with
    | false => rfl
    | true =>
      obtain ⟨size, board, -, near, inside, -⟩ := placed.on_board le enabled
      rw [board.query near inside]
      simp only [Bool.and_self, if_true]
      rw [seqOf_add]
      rfl

/-- The octets that are taken of a request. -/
theorem taken_eq (placed : Placed s nxt sent data)
    (fits : s.writeHeaderOptions.1 < s.state.snd_mss) (request : BitVec 32) :
    (let buffered := BitVec.ofNat 32 (data - s.start nxt)
      let bytes := if buffered < request then buffered else request
      if s.state.snd_mss < bytes + s.writeHeaderOptions.1
        then s.state.snd_mss - s.writeHeaderOptions.1 else bytes) =
      BitVec.ofNat 32 (s.taken data nxt request.toNat) := by
  have short := placed.short
  have few := s.options_le
  have buffered : (BitVec.ofNat 32 (data - s.start nxt)).toNat = data - s.start nxt := by
    rw [BitVec.toNat_ofNat, Nat.mod_eq_of_lt (by omega)]
  have room := s.state.snd_mss.isLt
  rw [BitVec.lt_def] at fits
  have left : (s.state.snd_mss - s.writeHeaderOptions.1).toNat =
      s.state.snd_mss.toNat - s.writeHeaderOptions.1.toNat := BitVec.toNat_sub_of_le (by
    rw [BitVec.le_def]
    omega)
  have bytes : (if BitVec.ofNat 32 (data - s.start nxt) < request
      then BitVec.ofNat 32 (data - s.start nxt) else request).toNat =
      min request.toNat (data - s.start nxt) := by
    split
    · next less =>
      rw [BitVec.lt_def] at less
      omega
    · next more =>
      rw [BitVec.lt_def] at more
      omega
  dsimp only
  generalize (if BitVec.ofNat 32 (data - s.start nxt) < request
    then BitVec.ofNat 32 (data - s.start nxt) else request) = b at bytes ⊢
  have added : (b + s.writeHeaderOptions.1).toNat = b.toNat + s.writeHeaderOptions.1.toNat := by
    rw [BitVec.toNat_add, Nat.mod_eq_of_lt (by omega)]
  refine BitVec.eq_of_toNat_eq ?_
  rw [BitVec.toNat_ofNat, taken, left, Nat.mod_eq_of_lt (by omega)]
  split
  · next large =>
    rw [BitVec.lt_def] at large
    omega
  · next small =>
    rw [BitVec.lt_def] at small
    omega

/-- A segment is sent where octets can be taken. -/
theorem sendSegment_ok (placed : Placed s nxt sent data) (le : nxt ≤ data) (request : BitVec 32)
    (fits : s.writeHeaderOptions.1 < s.state.snd_mss)
    (positive : 0 < s.taken data nxt request.toNat) :
    let length := s.taken data nxt request.toNat
    let stop := s.start nxt + length
    ∃ q', s.sendSegment request = .ok (BitVec.ofNat 32 length,
        ⟨seqOf s.state.snd_una (s.start nxt), BitVec.ofNat 32 length, s.finBehind data stop⟩,
        s.advance data sent stop q') ∧
      Placed (s.advance data sent stop q') (if s.finBehind data stop then data + 1 else stop)
        (max sent (if s.finBehind data stop then data + 1 else stop)) data ∧
      ∀ n, (if s.finBehind data stop then data + 1 else stop) ≤ n →
        (s.advance data sent stop q').skip n = s.skip n := by
  have short := placed.short
  have request_eq := placed.taken_eq fits request
  have inside : s.start nxt + s.taken data nxt request.toNat ≤ data := by
    unfold taken at positive ⊢
    omega
  dsimp only at request_eq ⊢
  generalize s.taken data nxt request.toNat = length at positive request_eq inside ⊢
  obtain ⟨sacks, written⟩ := s.writeHeaderOptions_snd
  have whole : s.writeHeaderOptions = (s.writeHeaderOptions.1, { s with sacks }) :=
    Prod.ext rfl written
  have created := placed.create positive inside
  unfold advance
  rw [written]
  generalize s.writeHeaderOptions.1 = options at whole fits request_eq
  have asserted : assert (options < s.state.snd_mss) "options_len < state->snd_mss" = .ok () :=
    if_pos (decide_eq_true fits)
  have moved : seqOf s.state.snd_una (s.start nxt) + BitVec.ofNat 32 length =
      seqOf s.state.snd_una (s.start nxt + length) := (seqOf_add _ _).symm
  have sent_short := placed.sent_le
  have after := seqGE_seqOf s.state.snd_una (a := s.start nxt + length) (b := sent)
    (by omega) (by omega)
  have running : (s.afterRto && !seqGE (seqOf s.state.snd_una (s.start nxt + length))
      s.state.snd_max) = (s.afterRto && decide (s.start nxt + length < sent)) := by
    rw [placed.snd_max]
    by_cases before : s.start nxt + length < sent
    · rw [decide_eq_true before, Bool.eq_false_of_not_eq_true (mt after.mp (by omega))]
      rfl
    · rw [decide_eq_false before, after.mpr (by omega)]
      rfl
  have fin : (s.send_fin && seqOf s.state.snd_una (s.start nxt + length) == s.snd_fin_seq) =
      s.finBehind data (s.start nxt + length) := by
    unfold finBehind
    cases closed : s.send_fin with
    | false => rfl
    | true =>
      have same := seqOf_inj s.state.snd_una (a := s.start nxt + length) (b := data)
        (by omega) (by omega)
      rw [placed.snd_fin_seq closed, placed.ends, Bool.eq_iff_iff, Bool.true_and, Bool.true_and,
        beq_iff_eq, beq_iff_eq, same]
  have next_eq : (if s.finBehind data (s.start nxt + length) then s.snd_fin_seq + 1
      else seqOf s.state.snd_una (s.start nxt + length)) = seqOf s.state.snd_una
        (if s.finBehind data (s.start nxt + length) then data + 1 else s.start nxt + length) := by
    split
    · next ends =>
      rw [placed.snd_fin_seq (Bool.and_eq_true_iff.mp ends).1, placed.ends, seqOf_succ]
    · rfl
  have nxt_near : (if s.finBehind data (s.start nxt + length) then data + 1
      else s.start nxt + length) ≤ data ∨ s.send_fin = true ∧
        (if s.finBehind data (s.start nxt + length) then data + 1
          else s.start nxt + length) = data + 1 := by
    split
    · next ends => exact .inr ⟨(Bool.and_eq_true_iff.mp ends).1, rfl⟩
    · exact .inl inside
  have ahead : s.start nxt < (if s.finBehind data (s.start nxt + length) then data + 1
      else s.start nxt + length) := by
    split <;> omega
  unfold sendSegment
  rw [placed.forwarded le, ok_bind]
  dsimp only
  rw [placed.available (placed.start_le le), whole]
  dsimp only
  rw [asserted, ok_bind, request_eq, created, ok_bind, moved, running, fin, next_eq]
  generalize (if s.finBehind data (s.start nxt + length) then data + 1
    else s.start nxt + length) = nxt' at nxt_near ahead ⊢
  have greater := seqGreater_seqOf s.state.snd_una (a := nxt') (b := sent) (by omega) (by omega)
  have max_eq : (if seqGreater (seqOf s.state.snd_una nxt') s.state.snd_max then
      seqOf s.state.snd_una nxt' else s.state.snd_max) =
        seqOf s.state.snd_una (max sent nxt') := by
    rw [placed.snd_max]
    by_cases more : sent < nxt'
    · rw [if_pos (greater.mpr more), Nat.max_eq_right more.le]
    · rw [if_neg (mt greater.mp more), Nat.max_eq_left (Nat.le_of_not_lt more)]
  have top_near : max sent nxt' ≤ data ∨ s.send_fin = true ∧ max sent nxt' = data + 1 := by
    rcases Nat.le_total sent nxt' with le | le
    · rw [Nat.max_eq_right le]
      exact nxt_near
    · rw [Nat.max_eq_left le]
      exact sent_short
  rw [max_eq]
  cases enabled : s.state.sack_enabled with
  | false =>
    refine ⟨s.rexmitQueue, rfl, ⟨placed.begins, placed.ends, rfl, rfl, Nat.le_max_right _ _, ?_,
      short, placed.snd_fin_seq, fun on => ?_⟩, fun n _ => ?_⟩
    · exact top_near
    · cases on
    · unfold skip
      rw [enabled]
  | true =>
    obtain ⟨size, board, ends, near, -, start_inside⟩ := placed.on_board le enabled
    obtain ⟨q', enqueued, board', kept⟩ := board.enqueue start_inside ahead near (by omega)
    rw [if_pos rfl, enqueued]
    refine ⟨q', rfl, ⟨placed.begins, placed.ends, rfl, rfl, Nat.le_max_right _ _, ?_,
      short, placed.snd_fin_seq, fun _ => ⟨_, board', ?_⟩⟩, fun n behind => ?_⟩
    · exact top_near
    · rcases Nat.le_total sent nxt' with le | le
      · rw [Nat.max_eq_right le]
        omega
      · rw [Nat.max_eq_left le]
        omega
    · unfold skip
      dsimp only
      rw [enabled, if_pos rfl, if_pos rfl, kept n behind]

/-- Behind a FIN nothing is found. -/
theorem forwarded_error_or (placed : Placed s nxt sent data) :
    (∃ e, s.forwarded = .error e) ∨
      s.forwarded = .ok (seqOf s.state.snd_una (s.start nxt)) ∧ s.start nxt ≤ data + 1 := by
  have near := placed.sent_le
  have short := placed.short
  have inside := placed.nxt_le
  by_cases le : nxt ≤ data
  · exact .inr ⟨placed.forwarded le, placed.start_le le⟩
  · have behind : nxt = data + 1 := by omega
    subst behind
    have still : s.skip (data + 1) = 0 := by
      unfold skip
      split
      · next enabled =>
        obtain ⟨size, board, ends⟩ := placed.scoreboard enabled
        have bound := passed_le (flagsOf s.rexmitQueue.rexmitQueue) (data + 1)
        rw [board.length_eq (by omega)] at bound
        omega
      · rfl
    have start : s.start (data + 1) = data + 1 := by
      unfold TcpSender.start
      rw [still]
      split <;> rfl
    rw [start]
    unfold TcpSender.forwarded
    rw [placed.snd_nxt]
    cases running : s.state.sack_enabled && s.afterRto with
    | false => exact .inr ⟨rfl, le_rfl⟩
    | true =>
      rw [if_pos rfl]
      cases queried : s.rexmitQueue.checkRexmitQueueForSackedOrRexmittedSegments
          (seqOf s.state.snd_una (data + 1)) with
      | error e => exact .inl ⟨e, rfl⟩
      | ok forward =>
        have enabled := (Bool.and_eq_true_iff.mp running).1
        obtain ⟨size, board, ends⟩ := placed.scoreboard enabled
        have opened := queried
        unfold TcpSackRexmitQueue.checkRexmitQueueForSackedOrRexmittedSegments at opened
        obtain ⟨_, asserted, -⟩ := bind_eq_ok.mp opened
        have below := (Bool.and_eq_true_iff.mp (of_assert asserted)).2
        rw [board.ends, seqLE_seqOf _ (by omega) (by omega)] at below
        rw [board.query (by omega) below] at queried
        have nothing : passed (flagsOf s.rexmitQueue.rexmitQueue) (data + 1) = 0 := by
          unfold skip at still
          rwa [if_pos enabled] at still
        rw [nothing] at queried
        cases queried
        exact .inr ⟨congrArg Except.ok (BitVec.add_zero _), le_rfl⟩

/-- Without octets that can be taken an assertion or the data buffer stops a segment. -/
theorem sendSegment_error (placed : Placed s nxt sent data) (request : BitVec 32)
    (fails : s.writeHeaderOptions.1 < s.state.snd_mss → s.taken data nxt request.toNat = 0) :
    ∃ e, s.sendSegment request = .error e := by
  unfold sendSegment
  rcases placed.forwarded_error_or with ⟨e, failed⟩ | ⟨forwarded, near⟩
  · rw [failed]
    exact ⟨e, rfl⟩
  · obtain ⟨sacks, written⟩ := s.writeHeaderOptions_snd
    have whole : s.writeHeaderOptions = (s.writeHeaderOptions.1, { s with sacks }) :=
      Prod.ext rfl written
    rw [forwarded, ok_bind]
    dsimp only
    rw [placed.available near, written]
    dsimp only
    by_cases fits : s.writeHeaderOptions.1 < s.state.snd_mss
    · have request_eq := placed.taken_eq fits request
      rw [fails fits] at request_eq
      dsimp only at request_eq
      rw [assert, if_pos (decide_eq_true fits), ok_bind, request_eq]
      obtain ⟨e, failed⟩ := createSegmentWithBytes_zero s.sendQueue
        (seqOf s.state.snd_una (s.start nxt))
      refine ⟨e, ?_⟩
      change (s.sendQueue.createSegmentWithBytes (seqOf s.state.snd_una (s.start nxt)) 0 >>= _) = _
      rw [failed]
      rfl
    · rw [assert, if_neg (by rw [decide_eq_true_iff]; exact fits)]
      exact ⟨_, rfl⟩

end Placed
end TcpSender
end Inet.Tcp
