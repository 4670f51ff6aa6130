import Inet.Tcp.SendWindows

/-!
# Runs of a sender

The steps of a sender keep its variables in place, so in every state that is reached data is sent
within the windows exactly when the skipped octets are made up for.
-/
namespace Inet.Tcp

open Lib Lib.Serial

namespace TcpSendQueue

def enqueueAppData (queue : TcpSendQueue) (length : Nat) : Except String TcpSendQueue :=
  let end_ := queue.end_ + BitVec.ofNat 32 length
  if seqLess end_ queue.begin_ then .error "Send queue is full" else .ok { queue with end_ }

def discardUpTo (queue : TcpSendQueue) (seqNum : SeqNum) : Except String TcpSendQueue := do
  assert (seqLE queue.begin_ seqNum && seqLE seqNum queue.end_)
    "seqLE(begin, seqNum) && seqLE(seqNum, end)"
  return { queue with begin_ := seqNum }

end TcpSendQueue

namespace TcpSender

/-- `process_CLOSE` of a connection that may send. A FIN that nothing goes before is sent at once,
and not put on the scoreboard. -/
def close (s : TcpSender) : TcpSender :=
  let s :=
    if s.state.snd_max == s.sendQueue.end_ then
      { s with
        snd_nxt := s.state.snd_max + 1
        state := { s.state with snd_max := s.state.snd_max + 1 } }
    else s
  { s with send_fin := true, snd_fin_seq := s.sendQueue.end_ }

/-- Without SACKs the scoreboard is not used. -/
def discardSent (s : TcpSender) (seqNum : SeqNum) : Except String TcpSackRexmitQueue :=
  if s.state.sack_enabled then s.rexmitQueue.discardUpTo seqNum else .ok s.rexmitQueue

/-- The part of `processAckInEstabEtc` for an acknowledgement in the window. -/
def acknowledge (s : TcpSender) (ackNo : SeqNum) : Except String TcpSender := do
  let snd_nxt := if seqLess s.snd_nxt ackNo then ackNo else s.snd_nxt
  let discardUpToSeq := if s.send_fin && ackNo == s.snd_fin_seq + 1 then ackNo - 1 else ackNo
  let sendQueue ← s.sendQueue.discardUpTo discardUpToSeq
  let rexmitQueue ← s.discardSent discardUpToSeq
  return { s with
    snd_nxt, sendQueue, rexmitQueue
    state := { s.state with snd_una := ackNo } }

/-- The retransmission timer clears the scoreboard. -/
def processRexmitTimer (s : TcpSender) : TcpSender :=
  { s with
    afterRto := true
    rexmitQueue :=
      if s.state.sack_enabled then s.rexmitQueue.resetSackedBit.resetRexmittedBit
      else s.rexmitQueue }

/-- The senders that are reached after the handshake. -/
inductive Reachable : TcpSender → Prop
  | established (s : TcpSender) (nxt : s.snd_nxt = s.state.snd_una)
      (max : s.state.snd_max = s.state.snd_una)
      (queue : s.sendQueue = ⟨s.state.snd_una, s.state.snd_una⟩)
      (board : s.rexmitQueue = TcpSackRexmitQueue.new.init s.state.snd_una)
      (opened : s.send_fin = false) : Reachable s
  /-- Windows, the segment size, options, the connection's state and other variables change. -/
  | vary {s : TcpSender} (before : Reachable s) (fsm : TcpState) (state : TcpStateVariables)
      (nagle_enabled : Bool) (sacks : Option Nat)
      (sack_enabled : state.sack_enabled = s.state.sack_enabled)
      (snd_una : state.snd_una = s.state.snd_una) (snd_max : state.snd_max = s.state.snd_max) :
      Reachable { s with fsm, state, nagle_enabled, sacks }
  /-- The socket sends nothing after it is closed, and never has half of the sequence numbers
  buffered. -/
  | enqueueAppData {s : TcpSender} (before : Reachable s) (length : Nat) {sendQueue : TcpSendQueue}
      (opened : s.send_fin = false)
      (short : fwd s.sendQueue.begin_ s.sendQueue.end_ + length + 1 < 2 ^ 31)
      (enqueued : s.sendQueue.enqueueAppData length = .ok sendQueue) :
      Reachable { s with sendQueue }
  | close {s : TcpSender} (before : Reachable s) (opened : s.send_fin = false) : Reachable s.close
  | acknowledge {s s' : TcpSender} (before : Reachable s) {ackNo : SeqNum}
      (newer : seqLess s.state.snd_una ackNo = true)
      (sent : seqLE ackNo s.state.snd_max = true)
      (returned : s.acknowledge ackNo = .ok s') : Reachable s'
  | processRexmitTimer {s : TcpSender} (before : Reachable s) : Reachable s.processRexmitTimer
  /-- A block of a SACK option. -/
  | setSackedBit {s : TcpSender} (before : Reachable s) {fromSeqNum toSeqNum : SeqNum}
      {rexmitQueue : TcpSackRexmitQueue} (enabled : s.state.sack_enabled = true)
      (returned : s.rexmitQueue.setSackedBit fromSeqNum toSeqNum = .ok rexmitQueue) :
      Reachable { s with rexmitQueue }
  /-- A retransmission goes back, and what was sent is restored. -/
  | moveNxt {s : TcpSender} (before : Reachable s) (snd_nxt : SeqNum)
      (above : seqLE s.state.snd_una snd_nxt = true)
      (below : seqLE snd_nxt s.state.snd_max = true) : Reachable { s with snd_nxt }
  | sendSegment {s s' : TcpSender} (before : Reachable s) {bytes sentBytes : BitVec 32}
      {segment : Segment} (returned : s.sendSegment bytes = .ok (sentBytes, segment, s')) :
      Reachable s'

/-- The FIN is acknowledged. It can be left on the scoreboard. -/
structure Finished (s : TcpSender) : Prop where
  closed : s.send_fin = true
  begins : s.sendQueue.begin_ = s.sendQueue.end_
  snd_una : s.state.snd_una = s.sendQueue.end_ + 1
  snd_nxt : s.snd_nxt = s.state.snd_una
  snd_max : s.state.snd_max = s.state.snd_una
  scoreboard : s.state.sack_enabled = true → ∃ size ≤ 1, Board s.rexmitQueue s.sendQueue.end_ size

def Sound (s : TcpSender) : Prop := (∃ nxt sent data, s.Placed nxt sent data) ∨ s.Finished

end TcpSender

/-! ### Scoreboards -/

namespace Board

variable {q q' : TcpSackRexmitQueue} {snd_una : SeqNum} {size : Nat}

theorem init (snd_una : SeqNum) : Board (TcpSackRexmitQueue.new.init snd_una) snd_una 0 :=
  ⟨(Refines.new.init snd_una rfl).self, rfl, (seqOf_zero _).symm⟩

theorem reset (board : Board q snd_una size) :
    Board q.resetSackedBit.resetRexmittedBit snd_una size := by
  obtain ⟨_, ⟨⟩, refines⟩ := board.refines.step .resetSackedBit trivial trivial
  obtain ⟨_, ⟨⟩, refines⟩ := refines.step .resetRexmittedBit trivial trivial
  exact ⟨refines.self, board.begins, board.ends⟩

theorem setSackedBit (board : Board q snd_una size) {fromSeqNum toSeqNum : SeqNum}
    (returned : q.setSackedBit fromSeqNum toSeqNum = .ok q') : Board q' snd_una size := by
  have takes := (TcpSackRexmitQueue.setSackedBit_returns_iff board.refines
    ⟨fromSeqNum, toSeqNum⟩).mp ⟨q', returned⟩
  obtain ⟨_, marked, refines⟩ := board.refines.setSackedBit _ _ (takes.admissible board.refines)
  cases marked.symm.trans returned
  exact ⟨refines.self, refines.begin_eq.symm.trans board.begins,
    refines.end_eq.symm.trans board.ends⟩

/-- What is discarded is on the scoreboard. -/
theorem discardUpTo (board : Board q snd_una size) (short : size < 2 ^ 31) {n : Nat}
    (near : n < 2 ^ 31) (returned : q.discardUpTo (seqOf snd_una n) = .ok q') :
    n ≤ size ∧ Board q' (seqOf snd_una n) (size - n) := by
  obtain ⟨-, below, refines, begins, ends⟩ := TcpConnection.discardUpTo_spec board.refines returned
  rw [board.ends, seqLE_seqOf _ (by omega) (by omega)] at below
  refine ⟨below, refines, begins, ?_⟩
  rw [ends, board.ends, seqOf, seqOf, seqOf, BitVec.add_assoc, ← BitVec.ofNat_add,
    Nat.add_sub_cancel' below]

end Board

/-! ### Steps -/

namespace TcpSender

variable {s s' : TcpSender} {nxt sent data : Nat}

theorem seqOf_seqOf (isn : SeqNum) (a b : Nat) : seqOf (seqOf isn a) b = seqOf isn (a + b) := by
  rw [seqOf_add, seqOf]

theorem Placed.enqueueAppData (placed : s.Placed nxt sent data) {length : Nat}
    {sendQueue : TcpSendQueue} (opened : s.send_fin = false)
    (short : fwd s.sendQueue.begin_ s.sendQueue.end_ + length + 1 < 2 ^ 31)
    (enqueued : s.sendQueue.enqueueAppData length = .ok sendQueue) :
    Placed { s with sendQueue } nxt sent (data + length) := by
  have inside : sent ≤ data := by
    rcases placed.sent_le with inside | ⟨closed, -⟩
    · exact inside
    · cases closed.symm.trans opened
  have ending := placed.ending_eq
  change fwd _ _ = _ at ending
  rw [placed.begins, ending] at short
  unfold TcpSendQueue.enqueueAppData at enqueued
  dsimp only at enqueued
  split at enqueued
  · cases enqueued
  · cases enqueued
    refine ⟨placed.begins, ?_, placed.snd_nxt, placed.snd_max, placed.nxt_le, .inl (by omega),
      short, fun closed => ?_, fun enabled => ?_⟩
    · dsimp only
      rw [placed.ends, ← seqOf_add]
    · cases closed.symm.trans opened
    · obtain ⟨size, board, ends⟩ := placed.scoreboard enabled
      exact ⟨size, board, .inl (by omega)⟩

theorem Placed.close (placed : s.Placed nxt sent data) (opened : s.send_fin = false) :
    ∃ nxt sent, s.close.Placed nxt sent data := by
  have short := placed.short
  have inside : sent ≤ data := by
    rcases placed.sent_le with inside | ⟨closed, -⟩
    · exact inside
    · cases closed.symm.trans opened
  have same := seqOf_inj s.state.snd_una (a := sent) (b := data) (by omega) (by omega)
  rw [← placed.snd_max, ← placed.ends] at same
  unfold TcpSender.close
  by_cases all : s.state.snd_max = s.sendQueue.end_
  · obtain rfl := same.mp all
    rw [if_pos (beq_iff_eq.mpr all)]
    have next_eq : s.state.snd_max + 1 = seqOf s.state.snd_una (sent + 1) := by
      rw [placed.snd_max, seqOf_succ]
    refine ⟨sent + 1, sent + 1, placed.begins, placed.ends, next_eq, next_eq, le_rfl,
      .inr ⟨rfl, rfl⟩, short, fun _ => rfl, fun enabled => ?_⟩
    obtain ⟨size, board, ends⟩ := placed.scoreboard enabled
    exact ⟨size, board, .inr ⟨by omega, rfl⟩⟩
  · rw [if_neg (mt beq_iff_eq.mp all)]
    exact ⟨nxt, sent, placed.begins, placed.ends, placed.snd_nxt, placed.snd_max, placed.nxt_le,
      .inl inside, short, fun _ => rfl, placed.scoreboard⟩

/-- New data is acknowledged, or all of it with the FIN. -/
theorem Placed.acknowledge (placed : s.Placed nxt sent data) {ackNo : SeqNum}
    (newer : seqLess s.state.snd_una ackNo = true) (below : seqLE ackNo s.state.snd_max = true)
    (returned : s.acknowledge ackNo = .ok s') : s'.Sound := by
  have short := placed.short
  have near := placed.sent_le
  have inside := placed.nxt_le
  obtain ⟨a, small, rfl⟩ : ∃ a, a < 2 ^ 31 ∧ ackNo = seqOf s.state.snd_una a :=
    ⟨_, ((seqLess_iff _ _).mp newer).2, (add_fwd _ _).symm⟩
  rw [placed.snd_max, seqLE_seqOf _ (by omega) (by omega)] at below
  have positive : 0 < a := by
    rw [seqLess_iff] at newer
    have distance := fwd_seqOf s.state.snd_una (Nat.zero_le a) (by omega)
    rw [seqOf_zero] at distance
    omega
  have moved : (if seqLess s.snd_nxt (seqOf s.state.snd_una a) then seqOf s.state.snd_una a
      else s.snd_nxt) = seqOf (seqOf s.state.snd_una a) (nxt - a) := by
    have order := seqLess_seqOf s.state.snd_una (a := nxt) (b := a) (by omega) (by omega)
    rw [placed.snd_nxt, seqOf_seqOf]
    by_cases behind : nxt < a
    · rw [if_pos (order.mpr behind), Nat.sub_eq_zero_of_le behind.le, Nat.add_zero]
    · rw [if_neg (mt order.mp behind), Nat.add_sub_cancel' (Nat.le_of_not_lt behind)]
  unfold TcpSender.acknowledge at returned
  dsimp only at returned
  rw [moved] at returned
  by_cases fin : a = data + 1
  · -- the FIN is acknowledged with everything before it
    subst fin
    have all : sent = data + 1 := by omega
    have closed : s.send_fin = true := by
      rcases near with inside | ⟨closed, -⟩
      · omega
      · exact closed
    have fin_seq : seqOf s.state.snd_una (data + 1) = s.snd_fin_seq + 1 := by
      rw [placed.snd_fin_seq closed, placed.ends, seqOf_succ]
    have back : seqOf s.state.snd_una (data + 1) - 1 = seqOf s.state.snd_una data := by
      rw [seqOf_succ, BitVec.add_sub_cancel]
    rw [if_pos (by rw [closed, fin_seq, beq_self_eq_true]; rfl), back] at returned
    obtain ⟨sendQueue, discarded, returned⟩ := bind_eq_ok.mp returned
    obtain ⟨rexmitQueue, cleared, returned⟩ := bind_eq_ok.mp returned
    cases returned
    obtain ⟨_, -, discarded⟩ := bind_eq_ok.mp discarded
    cases discarded
    refine .inr ⟨closed, placed.ends.symm, ?_, ?_, ?_, fun enabled => ?_⟩
    · dsimp only
      rw [seqOf_succ, placed.ends]
    · dsimp only
      rw [Nat.sub_eq_zero_of_le (by omega), seqOf_zero]
    · dsimp only
      rw [placed.snd_max, all]
    · dsimp only at enabled ⊢
      rw [discardSent, if_pos enabled] at cleared
      obtain ⟨size, board, ends⟩ := placed.scoreboard enabled
      obtain ⟨-, board'⟩ := board.discardUpTo (by omega) (by omega) cleared
      rw [placed.ends]
      exact ⟨size - data, by omega, board'⟩
  · have before : (s.send_fin && seqOf s.state.snd_una a == s.snd_fin_seq + 1) = false := by
      cases closed : s.send_fin with
      | false => rfl
      | true =>
        have same := seqOf_inj s.state.snd_una (a := a) (b := data + 1) (by omega) (by omega)
        rw [placed.snd_fin_seq closed, placed.ends, ← seqOf_succ, Bool.true_and,
          beq_eq_false_iff_ne]
        exact mt same.mp fin
    rw [before, if_neg nofun] at returned
    obtain ⟨sendQueue, discarded, returned⟩ := bind_eq_ok.mp returned
    obtain ⟨rexmitQueue, cleared, returned⟩ := bind_eq_ok.mp returned
    cases returned
    obtain ⟨_, -, discarded⟩ := bind_eq_ok.mp discarded
    cases discarded
    refine .inl ⟨nxt - a, sent - a, data - a, rfl, ?_, rfl, ?_, by omega, ?_, by omega,
      placed.snd_fin_seq, fun enabled => ?_⟩
    · dsimp only
      rw [placed.ends, seqOf_seqOf, Nat.add_sub_cancel' (by omega)]
    · dsimp only
      rw [placed.snd_max, seqOf_seqOf, Nat.add_sub_cancel' below]
    · rcases near with inside | ⟨closed, all⟩
      · exact .inl (by omega)
      · exact .inr ⟨closed, by omega⟩
    · dsimp only at enabled ⊢
      rw [discardSent, if_pos enabled] at cleared
      obtain ⟨size, board, ends⟩ := placed.scoreboard enabled
      obtain ⟨on_board, board'⟩ := board.discardUpTo (by omega) (by omega) cleared
      exact ⟨size - a, board', by omega⟩

theorem Finished.update (finished : s.Finished) (queue : s'.sendQueue = s.sendQueue)
    (snd_una : s'.state.snd_una = s.state.snd_una) (snd_max : s'.state.snd_max = s.state.snd_max)
    (snd_nxt : s'.snd_nxt = s.snd_nxt) (send_fin : s'.send_fin = s.send_fin)
    (scoreboard : s'.state.sack_enabled = true → s.state.sack_enabled = true ∧
      ∀ size snd_una, Board s.rexmitQueue snd_una size → Board s'.rexmitQueue snd_una size) :
    s'.Finished := by
  refine ⟨?_, ?_, ?_, ?_, ?_, fun enabled => ?_⟩
  · rw [send_fin, finished.closed]
  · rw [queue, finished.begins]
  · rw [queue, snd_una, finished.snd_una]
  · rw [snd_nxt, snd_una, finished.snd_nxt]
  · rw [snd_max, snd_una, finished.snd_max]
  · obtain ⟨enabled, kept⟩ := scoreboard enabled
    obtain ⟨size, le, board⟩ := finished.scoreboard enabled
    rw [queue]
    exact ⟨size, le, kept size _ board⟩

/-- The remaining steps leave the positions alone, or move `snd_nxt`. -/
theorem Placed.update (placed : s.Placed nxt sent data) {nxt' : Nat} (le : nxt' ≤ sent)
    (queue : s'.sendQueue = s.sendQueue) (snd_una : s'.state.snd_una = s.state.snd_una)
    (snd_max : s'.state.snd_max = s.state.snd_max)
    (snd_nxt : s'.snd_nxt = seqOf s.state.snd_una nxt') (send_fin : s'.send_fin = s.send_fin)
    (snd_fin_seq : s'.snd_fin_seq = s.snd_fin_seq)
    (scoreboard : s'.state.sack_enabled = true → s.state.sack_enabled = true ∧
      ∀ size snd_una, Board s.rexmitQueue snd_una size → Board s'.rexmitQueue snd_una size) :
    s'.Placed nxt' sent data := by
  refine ⟨?_, ?_, ?_, ?_, le, ?_, placed.short, ?_, fun enabled => ?_⟩
  · rw [queue, snd_una, placed.begins]
  · rw [queue, snd_una, placed.ends]
  · rw [snd_una, snd_nxt]
  · rw [snd_una, snd_max, placed.snd_max]
  · rw [send_fin]
    exact placed.sent_le
  · rw [send_fin, snd_fin_seq, queue]
    exact placed.snd_fin_seq
  · obtain ⟨enabled, kept⟩ := scoreboard enabled
    obtain ⟨size, board, ends⟩ := placed.scoreboard enabled
    rw [snd_una]
    exact ⟨size, kept size _ board, ends⟩

/-- A sender with its FIN acknowledged sends nothing. -/
theorem Finished.sendSegment_error (finished : s.Finished) (request : BitVec 32) :
    ∃ e, s.sendSegment request = .error e := by
  have nothing : s.sendQueue.getBytesAvailable s.snd_nxt = 0 := by
    refine if_neg ?_
    rw [finished.snd_nxt, finished.snd_una, seqLess_iff]
    unfold fwd
    bv_omega
  cases forwarded : s.forwarded with
  | error e =>
    refine ⟨e, ?_⟩
    unfold TcpSender.sendSegment
    rw [forwarded]
    rfl
  | ok start =>
    refine sendSegment_of_empty forwarded ?_ request
    unfold TcpSender.forwarded at forwarded
    split at forwarded
    · next running =>
      obtain ⟨forward, queried, ⟨⟩⟩ := bind_eq_ok.mp forwarded
      obtain ⟨size, le, board⟩ := finished.scoreboard (Bool.and_eq_true_iff.mp running).1
      have position : s.snd_nxt = seqOf s.sendQueue.end_ 1 := by
        rw [finished.snd_nxt, finished.snd_una]
        rfl
      have opened := queried
      unfold TcpSackRexmitQueue.checkRexmitQueueForSackedOrRexmittedSegments at opened
      obtain ⟨_, asserted, -⟩ := bind_eq_ok.mp opened
      have below := (Bool.and_eq_true_iff.mp (of_assert asserted)).2
      rw [board.ends, position, seqLE_seqOf _ (by omega) (by omega)] at below
      have bound := passed_le (flagsOf s.rexmitQueue.rexmitQueue) 1
      rw [board.length_eq (by omega)] at bound
      have none : passed (flagsOf s.rexmitQueue.rexmitQueue) 1 = 0 := by omega
      rw [position, board.query (by omega) below, none] at queried
      cases queried
      exact (congrArg _ (BitVec.add_zero _)).trans nothing
    · cases forwarded
      exact nothing

theorem Sound.update (sound : s.Sound) (queue : s'.sendQueue = s.sendQueue)
    (snd_una : s'.state.snd_una = s.state.snd_una) (snd_max : s'.state.snd_max = s.state.snd_max)
    (snd_nxt : s'.snd_nxt = s.snd_nxt) (send_fin : s'.send_fin = s.send_fin)
    (snd_fin_seq : s'.snd_fin_seq = s.snd_fin_seq)
    (scoreboard : s'.state.sack_enabled = true → s.state.sack_enabled = true ∧
      ∀ size snd_una, Board s.rexmitQueue snd_una size → Board s'.rexmitQueue snd_una size) :
    s'.Sound := by
  rcases sound with ⟨nxt, sent, data, placed⟩ | finished
  · exact .inl ⟨nxt, sent, data, placed.update placed.nxt_le queue snd_una snd_max
      (snd_nxt.trans placed.snd_nxt) send_fin snd_fin_seq scoreboard⟩
  · exact .inr (finished.update queue snd_una snd_max snd_nxt send_fin scoreboard)

theorem Sound.sendSegment (sound : s.Sound) {request sentBytes : BitVec 32} {segment : Segment}
    (returned : s.sendSegment request = .ok (sentBytes, segment, s')) : s'.Sound := by
  rcases sound with ⟨nxt, sent, data, placed⟩ | finished
  · by_cases sends : s.writeHeaderOptions.1 < s.state.snd_mss ∧ 0 < s.taken data nxt request.toNat
    · have le : nxt ≤ data := by
        have positive := sends.2
        have start : nxt ≤ s.start nxt := by
          unfold TcpSender.start
          split <;> omega
        unfold taken at positive
        omega
      obtain ⟨q', made, placed', -⟩ := placed.sendSegment_ok le request sends.1 sends.2
      cases returned.symm.trans made
      exact .inl ⟨_, _, _, placed'⟩
    · obtain ⟨e, failed⟩ := placed.sendSegment_error request fun fits => by
        by_contra some
        exact sends ⟨fits, Nat.pos_of_ne_zero some⟩
      cases returned.symm.trans failed
  · obtain ⟨e, failed⟩ := finished.sendSegment_error request
    cases returned.symm.trans failed

theorem Reachable.sound (reachable : Reachable s) : s.Sound := by
  induction reachable with
  | established s nxt max queue board opened =>
    refine .inl ⟨0, 0, 0, by rw [queue], ?_, ?_, ?_, le_rfl, .inl le_rfl, by decide, ?_, ?_⟩
    · rw [queue, seqOf_zero]
    · rw [nxt, seqOf_zero]
    · rw [max, seqOf_zero]
    · exact fun closed => absurd closed (by rw [opened]; decide)
    · exact fun _ => ⟨0, by rw [board]; exact Board.init _, .inl rfl⟩
  | @vary s before fsm state nagle_enabled sacks sack_enabled snd_una snd_max sound =>
    refine sound.update rfl snd_una snd_max rfl rfl rfl fun enabled => ?_
    exact ⟨sack_enabled.symm.trans enabled, fun _ _ board => board⟩
  | enqueueAppData before length opened short enqueued sound =>
    rcases sound with ⟨nxt, sent, data, placed⟩ | finished
    · exact .inl ⟨_, _, _, placed.enqueueAppData opened short enqueued⟩
    · cases finished.closed.symm.trans opened
  | close before opened sound =>
    rcases sound with ⟨nxt, sent, data, placed⟩ | finished
    · obtain ⟨nxt, sent, placed⟩ := placed.close opened
      exact .inl ⟨nxt, sent, data, placed⟩
    · cases finished.closed.symm.trans opened
  | acknowledge before newer sent returned sound =>
    rcases sound with ⟨nxt, sent, data, placed⟩ | finished
    · exact placed.acknowledge newer (by assumption) returned
    · rw [finished.snd_max] at sent
      rw [seqLess_iff] at newer
      rw [seqLE_iff] at sent
      unfold fwd at newer sent
      bv_omega
  | @processRexmitTimer s before sound =>
    refine sound.update rfl rfl rfl rfl rfl rfl fun enabled => ⟨enabled, fun _ _ board => ?_⟩
    have enabled : s.state.sack_enabled = true := enabled
    unfold TcpSender.processRexmitTimer
    dsimp only
    rw [if_pos enabled]
    exact board.reset
  | setSackedBit before enabled returned sound =>
    exact sound.update rfl rfl rfl rfl rfl rfl fun _ =>
      ⟨enabled, fun _ _ board => board.setSackedBit returned⟩
  | @moveNxt s before snd_nxt above below sound =>
    rcases sound with ⟨nxt, sent, data, placed⟩ | finished
    · have near := placed.short
      have inside := placed.sent_le
      have position : snd_nxt = seqOf s.state.snd_una (fwd s.state.snd_una snd_nxt) :=
        (add_fwd _ _).symm
      rw [seqLE_iff] at above
      rw [position, placed.snd_max, seqLE_seqOf _ (by omega) (by omega)] at below
      exact .inl ⟨_, sent, data, placed.update below rfl rfl rfl position rfl rfl
        fun enabled => ⟨enabled, fun _ _ board => board⟩⟩
    · refine .inr (finished.update rfl rfl rfl ?_ rfl fun enabled =>
        ⟨enabled, fun _ _ board => board⟩)
      rw [finished.snd_max] at below
      rw [seqLE_iff] at above below
      rw [finished.snd_nxt]
      unfold fwd at above below
      bv_omega
  | sendSegment before returned sound => exact sound.sendSegment returned

theorem Finished.empty (finished : s.Finished) :
    s.atStart.sendQueue.getBytesAvailable s.atStart.snd_nxt = 0 := by
  have nothing : s.sendQueue.getBytesAvailable s.state.snd_una = 0 := by
    refine if_neg ?_
    rw [finished.snd_una, seqLess_iff]
    unfold fwd
    bv_omega
  unfold TcpSender.atStart
  split
  · rw [finished.snd_nxt]
    exact nothing
  · rw [finished.snd_max]
    exact nothing

theorem Sound.inWindows_iff (sound : s.Sound) (congestionWindow : BitVec 32) :
    s.SendsInWindows congestionWindow ↔ s.atStart.SkipsAffordably congestionWindow := by
  rcases sound with ⟨nxt, sent, data, placed⟩ | finished
  · exact placed.inWindows_iff congestionWindow
  · exact iff_of_true (sendsInWindows_of_empty finished.empty congestionWindow)
      (.inl finished.empty)

/-- Whatever has happened, `sendData` stays in the windows and ends exactly when the octets that
segments are moved over after a timeout are made up for, and the options leave room for data. -/
theorem sendsInWindows_iff (s : TcpSender) (reachable : Reachable s)
    (congestionWindow : BitVec 32) :
    s.SendsInWindows congestionWindow ↔ s.atStart.SkipsAffordably congestionWindow :=
  reachable.sound.inWindows_iff congestionWindow

/-- A sender of segments of ten octets, with data up to 40. -/
def tens (snd_una snd_max snd_nxt : SeqNum) (afterRto : Bool) (regions : List Region) :
    TcpSender where
  fsm := .established
  state := { TcpStateVariables.wrappingState 3 with snd_una, snd_max }
  rexmitQueue := ⟨regions, snd_una, snd_max⟩
  snd_nxt
  afterRto
  send_fin := false
  snd_fin_seq := 0
  nagle_enabled := true
  sacks := none
  sendQueue := ⟨snd_una, 40⟩

/-- Three segments across the wrap were sent and timed out, and the first was sent again and
acknowledged. -/
theorem resumed_reachable :
    Reachable (tens 0 20 0 true [⟨0, 10, false, false⟩, ⟨10, 20, false, false⟩]) := by
  have opened : Reachable { tens 4294967286 4294967286 4294967286 false [] with
      sendQueue := ⟨4294967286, 4294967286⟩ } := .established _ rfl rfl rfl rfl rfl
  have filled : Reachable (tens 4294967286 4294967286 4294967286 false []) :=
    @Reachable.enqueueAppData _ opened 50 ⟨4294967286, 40⟩ rfl (by decide) rfl
  have first : Reachable (tens 4294967286 0 0 false [⟨4294967286, 0, false, false⟩]) :=
    @Reachable.sendSegment _ _ filled 10 10 ⟨4294967286, 10, false⟩ (by decide)
  have second : Reachable (tens 4294967286 10 10 false
      [⟨4294967286, 0, false, false⟩, ⟨0, 10, false, false⟩]) :=
    @Reachable.sendSegment _ _ first 10 10 ⟨0, 10, false⟩ (by decide)
  have third : Reachable (tens 4294967286 20 20 false
      [⟨4294967286, 0, false, false⟩, ⟨0, 10, false, false⟩, ⟨10, 20, false, false⟩]) :=
    @Reachable.sendSegment _ _ second 10 10 ⟨10, 10, false⟩ (by decide)
  have back : Reachable (tens 4294967286 20 4294967286 true
      [⟨4294967286, 0, false, false⟩, ⟨0, 10, false, false⟩, ⟨10, 20, false, false⟩]) :=
    third.processRexmitTimer.moveNxt 4294967286 (by decide) (by decide)
  have again : Reachable (tens 4294967286 20 0 true
      [⟨4294967286, 0, false, true⟩, ⟨0, 10, false, false⟩, ⟨10, 20, false, false⟩]) :=
    @Reachable.sendSegment _ _ back 10 10 ⟨4294967286, 10, false⟩ (by decide)
  exact @Reachable.acknowledge _ _ again 0 (by decide) (by decide) (by decide)

/-- The first three octets are SACKed, and the last segment of the window is held. -/
theorem resumed_in_windows :
    (tens 0 20 0 true [⟨0, 3, true, false⟩, ⟨3, 10, false, false⟩,
      ⟨10, 20, false, false⟩]).SendsInWindows 15 := by
  have sacked : Reachable (tens 0 20 0 true [⟨0, 3, true, false⟩, ⟨3, 10, false, false⟩,
      ⟨10, 20, false, false⟩]) :=
    @Reachable.setSackedBit _ resumed_reachable 0 3 ⟨[⟨0, 3, true, false⟩, ⟨3, 10, false, false⟩,
      ⟨10, 20, false, false⟩], 0, 20⟩ rfl (by decide)
  refine (sendsInWindows_iff _ sacked 15).mpr ?_
  unfold SkipsAffordably Outline.Affordable
  decide

/-- A window of two segments of which the first is SACKed lets two segments out behind it. -/
theorem not_in_windows : ¬∀ (s : TcpSender), Reachable s →
    ∀ congestionWindow : BitVec 32, s.SendsInWindows congestionWindow := by
  intro all
  have sacked : Reachable (tens 0 20 0 true [⟨0, 10, true, false⟩, ⟨10, 20, false, false⟩]) :=
    @Reachable.setSackedBit _ resumed_reachable 0 10 ⟨[⟨0, 10, true, false⟩,
      ⟨10, 20, false, false⟩], 0, 20⟩ rfl (by decide)
  have affordable := (sacked.sound.inWindows_iff 20).mp (all _ sacked 20)
  revert affordable
  unfold SkipsAffordably Outline.Affordable
  decide

end TcpSender
end Inet.Tcp
