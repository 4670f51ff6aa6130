import Inet.Tcp.SackPipe

/-!
# SACK options

`processSACKOption` marks the blocks of an option in the retransmission queue. Only the end of a
block is compared with anything before the queue is called, which asserts what it needs.
-/
namespace Inet.Tcp

open Lib Lib.Serial

variable {q' : TcpSackRexmitQueue} {ackNo : SeqNum}

inductive TcpState where
  | init | closed | listen | synSent | synRcvd | established | closeWait | lastAck | finWait1
  | finWait2 | closing | timeWait
deriving DecidableEq, Repr

structure Sack where
  start : SeqNum
  end_ : SeqNum
deriving DecidableEq, Repr

structure TcpOptionSack where
  length : Nat
  sackItem : List Sack
deriving DecidableEq, Repr

/-- The length counts the kind, the length and the blocks. -/
def TcpOptionSack.WellFormed (option : TcpOptionSack) : Prop :=
  option.length = 2 + option.sackItem.length * 8

structure TcpConnection where
  fsm : TcpState
  state : TcpStateVariables
  rexmitQueue : TcpSackRexmitQueue
deriving DecidableEq, Repr

namespace TcpConnection

/-- The states in which SACK options are expected. -/
def expectsSack (conn : TcpConnection) : Bool :=
  conn.fsm = .synRcvd || conn.fsm = .established || conn.fsm = .finWait1 || conn.fsm = .finWait2

/-- A round of the loop over the blocks. Duplicates are only logged. -/
def processSack (ackNo snd_una : SeqNum) (rexmitQueue : TcpSackRexmitQueue) (tmp : Sack) :
    Except String TcpSackRexmitQueue :=
  if seqGreater tmp.end_ ackNo && seqGreater tmp.end_ snd_una then
    rexmitQueue.setSackedBit tmp.start tmp.end_
  else .ok rexmitQueue

def processSACKOption (conn : TcpConnection) (ackNo : SeqNum) (option : TcpOptionSack) :
    Except String (Bool × TcpConnection) :=
  if option.length % 8 ≠ 2 then .ok (false, conn)
  else do
    let n := option.sackItem.length
    assert (option.length = 2 + n * 8) "option.getLength() == 2 + n * 8"
    if conn.state.sack_enabled = false then return (false, conn)
    else if conn.expectsSack = false then return (false, conn)
    else if n = 0 then return (true, conn)
    else
      let rexmitQueue ←
        option.sackItem.foldlM (processSack ackNo conn.state.snd_una) conn.rexmitQueue
      let state := { conn.state with
        rcv_sacks := conn.state.rcv_sacks + BitVec.ofNat 32 n
        sackedBytes_old := conn.state.sackedBytes
        sackedBytes := rexmitQueue.getTotalAmountOfSackedBytes }
      return (true, { conn with state, rexmitQueue })

end TcpConnection

/-! ### Blocks that the queue takes -/

theorem of_assert {condition : Bool} {text : String} {done : Unit}
    (returned : assert condition text = .ok done) : condition = true := by
  cases condition with
  | true => rfl
  | false => cases returned

theorem seqGreater_eq (a b : SeqNum) : seqGreater a b = seqLess b a := by
  unfold seqGreater seqLess
  rw [bne_comm]

theorem Refines.self {q : TcpSackRexmitQueue} {m : ByteMap} (refines : Refines q m) :
    Refines q q.byteMap :=
  ⟨refines.chained, refines.short, rfl, rfl, fun _ =>
    find_flags _ _ _ _ refines.chained refines.short⟩

variable {block : Sack}

namespace TcpSackRexmitQueue

variable {q : TcpSackRexmitQueue}

/-- A block ends in the queue and begins before its end, where what lies before the queue is left
out. -/
structure Takes (q : TcpSackRexmitQueue) (block : Sack) : Prop where
  above : seqLess q.begin_ block.end_ = true
  below : seqLE block.end_ q.end_ = true
  ordered : seqLess (clampFrom q.begin_ block.start) block.end_ = true

/-- What lies in front of the queue by less than half of the sequence numbers is left out. -/
theorem fwd_clampFrom_le (begin_ fromSeqNum : SeqNum) :
    fwd begin_ (clampFrom begin_ fromSeqNum) ≤ 2 ^ 31 := by
  unfold clampFrom
  split
  · rw [fwd_self]
    exact Nat.zero_le _
  · next above =>
    by_contra far
    have around := fwd_of_lt begin_ fromSeqNum begin_ (by rw [fwd_self]; omega)
    have bound := fwd_lt begin_ fromSeqNum
    rw [fwd_self] at around
    rw [seqLess_iff] at above
    omega

theorem byteMap_eq {m : ByteMap} (refines : Refines q m) (s : SeqNum) :
    q.byteMap.flags s = m.flags s := by
  rw [refines.flags_eq]
  exact find_flags _ _ _ _ refines.chained refines.short

theorem Takes.admissible (refines : Refines q q.byteMap) (takes : q.Takes block) :
    (RexmitCall.setSackedBit block.start block.end_).Admissible q.byteMap := by
  obtain ⟨above, below, ordered⟩ := takes
  refine ⟨?_, above, below, ordered⟩
  have span := refines.span
  have short := refines.short
  have near := fwd_clampFrom_le q.begin_ block.start
  have end_inside := refines.between block.end_
    ((seqLE_iff _ _).mpr ((seqLess_iff _ _).mp above).2) below
  have before := (seqLess_iff_from q.begin_ _ _ near (by omega)).mp ordered
  change seqLess (clampFrom q.begin_ block.start) q.end_ = true
  exact (seqLess_iff_from q.begin_ _ _ near (by omega)).mpr (by omega)

/-- The octets that a block marks are in it and in the queue. -/
theorem Takes.within (refines : Refines q q.byteMap) (takes : q.Takes block)
    {s : SeqNum} (inside : Within (clampFrom q.begin_ block.start) block.end_ s) :
    Within q.begin_ q.end_ s ∧ Within block.start block.end_ s := by
  obtain ⟨above, below, ordered⟩ := takes
  have span := refines.span
  have short := refines.short
  have near := fwd_clampFrom_le q.begin_ block.start
  have end_inside := refines.between block.end_
    ((seqLE_iff _ _).mpr ((seqLess_iff _ _).mp above).2) below
  have before := (seqLess_iff_from q.begin_ _ _ near (by omega)).mp ordered
  have rest := fwd_of_le _ _ _ before.le
  have there := fwd_trans q.begin_ (clampFrom q.begin_ block.start) s
  unfold Within at inside ⊢
  refine ⟨by omega, ?_⟩
  unfold clampFrom at inside there near rest
  split at inside
  · next front =>
    -- the block begins in front of the queue
    rw [seqLess_iff] at front
    have to_s := fwd_trans block.start q.begin_ s (by omega)
    have to_end := fwd_trans block.start q.begin_ block.end_ (by omega)
    omega
  · exact inside

/-- The assertions fail for every other block. -/
theorem setSackedBit_returns_iff (refines : Refines q q.byteMap) (block : Sack) :
    (∃ q', q.setSackedBit block.start block.end_ = .ok q') ↔ q.Takes block := by
  constructor
  · rintro ⟨q', returned⟩
    unfold setSackedBit at returned
    obtain ⟨_, _, returned⟩ := bind_eq_ok.mp returned
    obtain ⟨_, range, returned⟩ := bind_eq_ok.mp returned
    obtain ⟨_, ordered, -⟩ := bind_eq_ok.mp returned
    obtain ⟨above, below⟩ := Bool.and_eq_true_iff.mp (of_assert range)
    exact ⟨above, below, of_assert ordered⟩
  · intro takes
    obtain ⟨q', returned, -⟩ := refines.setSackedBit _ _ (takes.admissible refines)
    exact ⟨q', returned⟩

end TcpSackRexmitQueue

/-- Some flags of octets between two numbers that are in a block become sacked flags, and nothing
else changes. -/
structure OnlySacks (blocks : List Sack) (snd_una snd_max : SeqNum)
    (q q' : TcpSackRexmitQueue) : Prop where
  begins : q'.begin_ = q.begin_
  ends : q'.end_ = q.end_
  flags : ∀ s, q'.byteMap.flags s = q.byteMap.flags s ∨
    q'.byteMap.flags s = (q.byteMap.flags s).map (fun f => (true, f.2)) ∧
      Within snd_una snd_max s ∧ ∃ block ∈ blocks, Within block.start block.end_ s

theorem OnlySacks.refl (blocks : List Sack) (snd_una snd_max : SeqNum) (q : TcpSackRexmitQueue) :
    OnlySacks blocks snd_una snd_max q q := ⟨rfl, rfl, fun _ => .inl rfl⟩

variable {blocks : List Sack}

theorem OnlySacks.trans {snd_una snd_max : SeqNum} {blocks' : List Sack}
    {q q'' : TcpSackRexmitQueue} (first : OnlySacks blocks snd_una snd_max q q')
    (later : OnlySacks blocks' snd_una snd_max q' q'') :
    OnlySacks (blocks ++ blocks') snd_una snd_max q q'' := by
  refine ⟨later.begins.trans first.begins, later.ends.trans first.ends, fun s => ?_⟩
  rcases first.flags s, later.flags s with ⟨same | ⟨sacked, sent, block, member, inside⟩,
    same' | ⟨sacked', sent', block', member', inside'⟩⟩
  · exact .inl (same'.trans same)
  · exact .inr ⟨by rw [sacked', same], sent', block', List.mem_append_right _ member', inside'⟩
  · exact .inr ⟨by rw [same', sacked], sent, block, List.mem_append_left _ member, inside⟩
  · refine .inr ⟨?_, sent, block, List.mem_append_left _ member, inside⟩
    rw [sacked', sacked, Option.map_map]
    rfl

variable {conn : TcpConnection}

namespace TcpConnection

variable {q : TcpSackRexmitQueue} {snd_una snd_max ackNo : SeqNum}

/-- The scoreboard has the octets from `snd_una` up to `snd_max`. It is empty while the SYN is not
acknowledged, and has the FIN, which is acknowledged, in the end. -/
def Placed (q : TcpSackRexmitQueue) (snd_una snd_max : SeqNum) : Prop :=
  (q.begin_ = snd_una ∧ q.end_ = snd_max) ∨
    (q.begin_ = snd_una + 1 ∧ q.end_ = q.begin_ ∧ (snd_max = snd_una ∨ snd_max = snd_una + 1)) ∨
    (q.begin_ + 1 = snd_una ∧ q.end_ = snd_una ∧ snd_max = snd_una)

/-- The blocks that are not left out are taken. -/
def Fits (q : TcpSackRexmitQueue) (ackNo snd_una : SeqNum) (block : Sack) : Prop :=
  (seqGreater block.end_ ackNo && seqGreater block.end_ snd_una) = true → q.Takes block

/-- A queue that takes a block above `snd_una` is there for the octets that are not acknowledged. -/
theorem Placed.of_takes (placed : Placed q snd_una snd_max)
    (newer : seqGreater block.end_ snd_una = true) (takes : q.Takes block) :
    q.begin_ = snd_una ∧ q.end_ = snd_max := by
  obtain ⟨above, below, -⟩ := takes
  rw [seqLess_iff] at above
  rw [seqLE_iff] at below
  rcases placed with now | ⟨-, empty, -⟩ | ⟨-, acknowledged, -⟩
  · exact now
  · rw [empty] at below
    unfold fwd at above below
    bv_omega
  · rw [acknowledged] at below
    simp only [seqGreater, Bool.and_eq_true, bne_iff_ne, ne_eq, decide_eq_true_eq] at newer
    unfold fwd at below
    bv_omega

/-- The octets that a block marks are in it, and sent and not acknowledged. -/
theorem processSack_spec (refines : Refines q q.byteMap) (placed : Placed q snd_una snd_max)
    (fits : Fits q ackNo snd_una block) :
    ∃ q', processSack ackNo snd_una q block = .ok q' ∧ Refines q' q'.byteMap ∧
      OnlySacks [block] snd_una snd_max q q' := by
  unfold processSack
  by_cases newer : (seqGreater block.end_ ackNo && seqGreater block.end_ snd_una) = true
  · have takes := fits newer
    obtain ⟨begins, ends⟩ := placed.of_takes (Bool.and_eq_true_iff.mp newer).2 takes
    obtain ⟨q', returned, refines'⟩ := refines.setSackedBit _ _ (takes.admissible refines)
    rw [if_pos newer]
    refine ⟨q', returned, refines'.self, refines'.begin_eq.symm, refines'.end_eq.symm, fun s => ?_⟩
    rw [TcpSackRexmitQueue.byteMap_eq refines']
    by_cases inside : Within (clampFrom q.begin_ block.start) block.end_ s
    · obtain ⟨in_queue, in_block⟩ := takes.within refines inside
      rw [begins, ends] at in_queue
      exact .inr ⟨if_pos inside, in_queue, block, List.mem_singleton_self _, in_block⟩
    · exact .inl (if_neg inside)
  · rw [if_neg newer]
    exact ⟨q, rfl, refines, rfl, rfl, fun s => .inl rfl⟩

theorem processSacks_spec (refines : Refines q q.byteMap) (placed : Placed q snd_una snd_max)
    (fits : ∀ block ∈ blocks, Fits q ackNo snd_una block) :
    ∃ q', blocks.foldlM (processSack ackNo snd_una) q = .ok q' ∧ Refines q' q'.byteMap ∧
      OnlySacks blocks snd_una snd_max q q' := by
  induction blocks generalizing q with
  | nil => exact ⟨q, rfl, refines, .refl [] _ _ q⟩
  | cons block rest ih =>
    obtain ⟨q', returned, refines', first⟩ :=
      processSack_spec refines placed (fits block List.mem_cons_self)
    have placed' : Placed q' snd_una snd_max := by
      unfold Placed
      rw [first.begins, first.ends]
      exact placed
    obtain ⟨q'', looped, refines'', later⟩ := ih refines' placed' fun block member newer => by
      obtain ⟨above, below, ordered⟩ := fits block (List.mem_cons_of_mem _ member) newer
      exact ⟨by rw [first.begins]; exact above, by rw [first.ends]; exact below,
        by rw [first.begins]; exact ordered⟩
    refine ⟨q'', ?_, refines'', first.trans later⟩
    rw [List.foldlM_cons, returned, ok_bind, looped]

theorem processSack_fits (refines : Refines q q.byteMap)
    (returned : processSack ackNo snd_una q block = .ok q') : Fits q ackNo snd_una block := by
  intro newer
  unfold processSack at returned
  rw [if_pos newer] at returned
  exact (TcpSackRexmitQueue.setSackedBit_returns_iff refines block).mp ⟨q', returned⟩

/-- A loop that returns took all the blocks. -/
theorem processSacks_fit (refines : Refines q q.byteMap) (placed : Placed q snd_una snd_max) 
    (returned : blocks.foldlM (processSack ackNo snd_una) q = .ok q') :
    ∀ block ∈ blocks, Fits q ackNo snd_una block := by
  induction blocks generalizing q with
  | nil => exact fun block member => absurd member List.not_mem_nil
  | cons first rest ih =>
    rw [List.foldlM_cons] at returned
    obtain ⟨middle, marked, looped⟩ := bind_eq_ok.mp returned
    have fits := processSack_fits refines marked
    obtain ⟨_, marked', refines', kept⟩ := processSack_spec refines placed fits
    cases marked.symm.trans marked'
    have placed' : Placed middle snd_una snd_max := by
      unfold Placed
      rw [kept.begins, kept.ends]
      exact placed
    intro block member
    rcases List.mem_cons.mp member with rfl | member
    · exact fits
    · intro newer
      obtain ⟨above, below, ordered⟩ := ih refines' placed' looped block member newer
      rw [kept.begins] at above ordered
      rw [kept.ends] at below
      exact ⟨above, below, ordered⟩

/-! ### Senders -/

/-- The connections that sending, acknowledgements and timeouts lead to. -/
inductive Reachable : TcpConnection → Prop
  | selectInitialSeqNum (fsm : TcpState) (state : TcpStateVariables)
      (acknowledged : state.snd_max = state.snd_una) :
      Reachable ⟨fsm, state, TcpSackRexmitQueue.new.init (state.snd_una + 1)⟩
  | enter {conn : TcpConnection} (before : Reachable conn) (fsm : TcpState) :
      Reachable { conn with fsm }
  /-- Other variables change. -/
  | vary {conn : TcpConnection} (before : Reachable conn) (state : TcpStateVariables)
      (sack_enabled : state.sack_enabled = conn.state.sack_enabled)
      (snd_una : state.snd_una = conn.state.snd_una)
      (snd_max : state.snd_max = conn.state.snd_max) : Reachable { conn with state }
  /-- SACKs are negotiated before the SYN is acknowledged. -/
  | negotiate {conn : TcpConnection} (before : Reachable conn) (sack_enabled : Bool)
      (unacknowledged : conn.rexmitQueue.begin_ = conn.state.snd_una + 1)
      (handshake : conn.state.snd_max = conn.state.snd_una ∨
        conn.state.snd_max = conn.state.snd_una + 1) :
      Reachable { conn with state := { conn.state with sack_enabled } }
  | sendSyn {conn : TcpConnection} (before : Reachable conn)
      (unacknowledged : conn.rexmitQueue.begin_ = conn.state.snd_una + 1) :
      Reachable
        { conn with state := { conn.state with snd_max := conn.state.snd_una + 1 } }
  /-- Data or a FIN is sent, within less than half of the sequence numbers. -/
  | sendSegment {conn : TcpConnection} (before : Reachable conn) {old_snd_nxt snd_nxt : SeqNum}
      {rexmitQueue : TcpSackRexmitQueue}
      (enabled : conn.state.sack_enabled = true)
      (acknowledged : conn.rexmitQueue.begin_ = conn.state.snd_una)
      (near : fwd conn.state.snd_una snd_nxt < 2 ^ 31)
      (enqueued : conn.rexmitQueue.enqueueSentData old_snd_nxt snd_nxt = .ok rexmitQueue) :
      Reachable { conn with
        state := { conn.state with
          snd_max :=
            if seqGreater snd_nxt conn.state.snd_max then snd_nxt else conn.state.snd_max }
        rexmitQueue }
  /-- New data or the SYN is acknowledged, or the FIN, which stays in the queue. -/
  | acknowledge {conn : TcpConnection} (before : Reachable conn) {ackNo : SeqNum} (fin : Bool)
      {rexmitQueue : TcpSackRexmitQueue}
      (enabled : conn.state.sack_enabled = true)
      (newer : seqLess conn.state.snd_una ackNo = true)
      (sent : seqLE ackNo conn.state.snd_max = true)
      (last : fin = true → ackNo = conn.state.snd_max ∧
        conn.rexmitQueue.begin_ = conn.state.snd_una)
      (discarded : conn.rexmitQueue.discardUpTo (if fin then ackNo - 1 else ackNo) =
        .ok rexmitQueue) :
      Reachable { conn with state := { conn.state with snd_una := ackNo }, rexmitQueue }
  | timeout {conn : TcpConnection} (before : Reachable conn) : Reachable { conn with
      rexmitQueue := conn.rexmitQueue.resetSackedBit.resetRexmittedBit }
  /-- Without SACKs the queue is not used. -/
  | withoutSack {conn : TcpConnection} (before : Reachable conn) (snd_una snd_max : SeqNum)
      (disabled : conn.state.sack_enabled = false) :
      Reachable { conn with state := { conn.state with snd_una, snd_max } }
  | processSACKOption {conn after : TcpConnection} (before : Reachable conn) {ackNo : SeqNum}
      {option : TcpOptionSack} {accepted : Bool}
      (returned : conn.processSACKOption ackNo option = .ok (accepted, after)) : Reachable after

/-- What holds of every connection. -/
structure Sound (conn : TcpConnection) : Prop where
  refines : Refines conn.rexmitQueue conn.rexmitQueue.byteMap
  placed : conn.state.sack_enabled = true →
    Placed conn.rexmitQueue conn.state.snd_una conn.state.snd_max
  unused : conn.state.sack_enabled = false → conn.rexmitQueue.end_ = conn.rexmitQueue.begin_

theorem enqueueSentData_spec {old_snd_nxt snd_nxt : SeqNum}
    (refines : Refines q q.byteMap) (near : fwd q.begin_ snd_nxt < 2 ^ 31)
    (enqueued : q.enqueueSentData old_snd_nxt snd_nxt = .ok q') :
    Refines q' q'.byteMap ∧ q'.begin_ = q.begin_ ∧
      q'.end_ = if fwd q.begin_ q.end_ ≤ fwd q.begin_ snd_nxt then snd_nxt else q.end_ := by
  have opened := enqueued
  unfold TcpSackRexmitQueue.enqueueSentData at opened
  obtain ⟨_, range, opened⟩ := bind_eq_ok.mp opened
  obtain ⟨_, ordered, -⟩ := bind_eq_ok.mp opened
  obtain ⟨above, below⟩ := Bool.and_eq_true_iff.mp (of_assert range)
  obtain ⟨_, returned, refines'⟩ := refines.enqueueSentData old_snd_nxt snd_nxt
    ⟨above, below, of_assert ordered, near⟩
  cases enqueued.symm.trans returned
  exact ⟨refines'.self, refines'.begin_eq.symm, refines'.end_eq.symm⟩

theorem discardUpTo_spec {seqNum : SeqNum}
    (refines : Refines q q.byteMap) (discarded : q.discardUpTo seqNum = .ok q') :
    seqLE q.begin_ seqNum = true ∧ seqLE seqNum q.end_ = true ∧
      Refines q' q'.byteMap ∧ q'.begin_ = seqNum ∧ q'.end_ = q.end_ := by
  have opened := discarded
  unfold TcpSackRexmitQueue.discardUpTo at opened
  obtain ⟨_, range, -⟩ := bind_eq_ok.mp opened
  obtain ⟨above, below⟩ := Bool.and_eq_true_iff.mp (of_assert range)
  obtain ⟨_, returned, refines'⟩ := refines.discardUpTo seqNum ⟨above, below⟩
  cases discarded.symm.trans returned
  exact ⟨above, below, refines'.self, refines'.begin_eq.symm, refines'.end_eq.symm⟩

theorem Sound.sendSegment (sound : conn.Sound) {old_snd_nxt snd_nxt : SeqNum}
    {rexmitQueue : TcpSackRexmitQueue} (enabled : conn.state.sack_enabled = true)
    (acknowledged : conn.rexmitQueue.begin_ = conn.state.snd_una)
    (near : fwd conn.state.snd_una snd_nxt < 2 ^ 31)
    (enqueued : conn.rexmitQueue.enqueueSentData old_snd_nxt snd_nxt = .ok rexmitQueue) :
    Sound { conn with
      state := { conn.state with
        snd_max := if seqGreater snd_nxt conn.state.snd_max then snd_nxt else conn.state.snd_max }
      rexmitQueue } := by
  obtain ⟨refines', begins, ends⟩ :=
    enqueueSentData_spec sound.refines (by rw [acknowledged]; exact near) enqueued
  have short := sound.refines.short
  rw [← sound.refines.span] at short
  refine ⟨refines', fun _ => ?_, fun disabled => ?_⟩
  · rcases sound.placed enabled with ⟨-, ends_max⟩ | ⟨unacknowledged, -⟩ | ⟨fin, -⟩
    · refine .inl ⟨begins.trans acknowledged, ends.trans ?_⟩
      rw [ends_max, acknowledged] at short
      rw [ends_max, acknowledged]
      have order := seqLess_iff_from conn.state.snd_una conn.state.snd_max snd_nxt (by omega) near
      dsimp only
      rw [seqGreater_eq]
      by_cases new : fwd conn.state.snd_una conn.state.snd_max < fwd conn.state.snd_una snd_nxt
      · rw [if_pos new.le, if_pos (order.mpr new)]
      · rw [if_neg (mt order.mp new)]
        split
        · next le => exact (fwd_inj conn.state.snd_una _ _).mp (by omega)
        · rfl
    · rw [acknowledged] at unacknowledged
      bv_omega
    · rw [acknowledged] at fin
      bv_omega
  · dsimp only at disabled
    rw [enabled] at disabled
    cases disabled

theorem Sound.acknowledge (sound : conn.Sound) {fin : Bool}
    {rexmitQueue : TcpSackRexmitQueue} (enabled : conn.state.sack_enabled = true)
    (newer : seqLess conn.state.snd_una ackNo = true)
    (sent : seqLE ackNo conn.state.snd_max = true) (last : fin = true → ackNo = conn.state.snd_max ∧
      conn.rexmitQueue.begin_ = conn.state.snd_una)
    (discarded : conn.rexmitQueue.discardUpTo (if fin then ackNo - 1 else ackNo) =
      .ok rexmitQueue) :
    Sound { conn with state := { conn.state with snd_una := ackNo }, rexmitQueue } := by
  obtain ⟨above, below, refines', begins, ends⟩ := discardUpTo_spec sound.refines discarded
  rw [seqLess_iff] at newer
  rw [seqLE_iff] at sent above below
  refine ⟨refines', fun _ => ?_, fun disabled => ?_⟩
  · rcases sound.placed enabled with
      ⟨acknowledged, ends_max⟩ | ⟨unacknowledged, empty, handshake⟩ | ⟨-, -, finished⟩
    · cases fin with
      | false => exact .inl ⟨begins, ends.trans ends_max⟩
      | true =>
        obtain ⟨all, -⟩ := last rfl
        refine .inr (.inr ⟨?_, ends.trans (ends_max.trans all.symm), all.symm⟩)
        rw [begins]
        exact BitVec.sub_add_cancel _ _
    · cases fin with
      | false =>
        -- only the SYN can be acknowledged
        refine .inl ⟨begins, ?_⟩
        rw [ends, empty, unacknowledged]
        dsimp only
        rcases handshake with none | syn
        · rw [none] at sent
          unfold fwd at newer sent
          bv_omega
        · exact syn.symm
      | true =>
        obtain ⟨-, acknowledged⟩ := last rfl
        rw [acknowledged] at unacknowledged
        bv_omega
    · rw [finished] at sent
      unfold fwd at newer sent
      bv_omega
  · dsimp only at disabled
    rw [enabled] at disabled
    cases disabled

theorem Sound.timeout (sound : conn.Sound) :
    Sound { conn with rexmitQueue := conn.rexmitQueue.resetSackedBit.resetRexmittedBit } := by
  obtain ⟨_, ⟨⟩, refines⟩ := sound.refines.step .resetSackedBit trivial trivial
  obtain ⟨_, ⟨⟩, refines⟩ := refines.step .resetRexmittedBit trivial trivial
  exact ⟨refines.self, sound.placed, sound.unused⟩

/-- A call that goes through the blocks. -/
structure Marks (conn : TcpConnection) (ackNo : SeqNum) (option : TcpOptionSack)
    (after : TcpConnection) : Prop where
  enabled : conn.state.sack_enabled = true
  expected : conn.expectsSack = true
  looped : option.sackItem.foldlM (processSack ackNo conn.state.snd_una) conn.rexmitQueue =
    .ok after.rexmitQueue
  sack_enabled : after.state.sack_enabled = conn.state.sack_enabled
  snd_una : after.state.snd_una = conn.state.snd_una
  snd_max : after.state.snd_max = conn.state.snd_max

theorem processSACKOption_returns {after : TcpConnection} {option : TcpOptionSack} {accepted : Bool}
    (returned : conn.processSACKOption ackNo option = .ok (accepted, after)) :
    after = conn ∨ Marks conn ackNo option after := by
  unfold processSACKOption at returned
  split at returned
  · cases returned
    exact .inl rfl
  · obtain ⟨_, -, returned⟩ := bind_eq_ok.mp returned
    cases enabled : conn.state.sack_enabled with
    | false =>
      rw [if_pos enabled] at returned
      cases returned
      exact .inl rfl
    | true =>
      rw [if_neg (by rw [enabled]; decide)] at returned
      cases expected : conn.expectsSack with
      | false =>
        rw [if_pos expected] at returned
        cases returned
        exact .inl rfl
      | true =>
        rw [if_neg (by rw [expected]; decide)] at returned
        split at returned
        · cases returned
          exact .inl rfl
        · obtain ⟨rexmitQueue, looped, ⟨⟩⟩ := bind_eq_ok.mp returned
          exact .inr ⟨enabled, expected, looped, rfl, rfl, rfl⟩

theorem Sound.marks {after : TcpConnection} (sound : conn.Sound)
    {option : TcpOptionSack} (marks : Marks conn ackNo option after) :
    after.Sound ∧ OnlySacks option.sackItem conn.state.snd_una conn.state.snd_max
      conn.rexmitQueue after.rexmitQueue := by
  obtain ⟨enabled, -, looped, same, same_una, same_max⟩ := marks
  have placed := sound.placed enabled
  obtain ⟨_, looped', refines, kept⟩ :=
    processSacks_spec sound.refines placed (processSacks_fit sound.refines placed looped)
  cases looped.symm.trans looped'
  refine ⟨⟨refines, fun _ => ?_, fun disabled => ?_⟩, kept⟩
  · unfold Placed
    rw [kept.begins, kept.ends, same_una, same_max]
    exact placed
  · rw [same, enabled] at disabled
    cases disabled

theorem Reachable.sound (reachable : Reachable conn) : conn.Sound := by
  induction reachable with
  | selectInitialSeqNum fsm state acknowledged =>
    exact ⟨(Refines.new.init _ rfl).self, fun _ => .inr (.inl ⟨rfl, rfl, .inl acknowledged⟩),
      fun _ => rfl⟩
  | enter before fsm sound => exact ⟨sound.refines, sound.placed, sound.unused⟩
  | vary before state sack_enabled snd_una snd_max sound =>
    refine ⟨sound.refines, fun enabled => ?_, fun disabled => ?_⟩
    · dsimp only
      rw [snd_una, snd_max]
      exact sound.placed (sack_enabled.symm.trans enabled)
    · exact sound.unused (sack_enabled.symm.trans disabled)
  | @negotiate conn before sack_enabled unacknowledged handshake sound =>
    have empty : conn.rexmitQueue.end_ = conn.rexmitQueue.begin_ := by
      cases enabled : conn.state.sack_enabled with
      | false => exact sound.unused enabled
      | true =>
        rcases sound.placed enabled with ⟨acknowledged, -⟩ | ⟨-, empty, -⟩ | ⟨fin, -⟩
        · rw [acknowledged] at unacknowledged
          bv_omega
        · exact empty
        · rw [unacknowledged] at fin
          bv_omega
    exact ⟨sound.refines, fun _ => .inr (.inl ⟨unacknowledged, empty, handshake⟩), fun _ => empty⟩
  | @sendSyn conn before unacknowledged sound =>
    refine ⟨sound.refines, fun enabled => ?_, sound.unused⟩
    rcases sound.placed enabled with ⟨acknowledged, -⟩ | ⟨-, empty, -⟩ | ⟨fin, -⟩
    · rw [acknowledged] at unacknowledged
      bv_omega
    · exact .inr (.inl ⟨unacknowledged, empty, .inr rfl⟩)
    · rw [unacknowledged] at fin
      bv_omega
  | sendSegment before enabled acknowledged near enqueued sound =>
    exact sound.sendSegment enabled acknowledged near enqueued
  | acknowledge before fin enabled newer sent last discarded sound =>
    exact sound.acknowledge enabled newer sent last discarded
  | timeout before sound => exact sound.timeout
  | withoutSack before snd_una snd_max disabled sound =>
    refine ⟨sound.refines, fun enabled => ?_, sound.unused⟩
    dsimp only at enabled
    rw [disabled] at enabled
    cases enabled
  | processSACKOption before returned sound =>
    rcases processSACKOption_returns returned with rfl | marks
    · exact sound
    · exact (sound.marks marks).1

/-- The option fires no assertion, and leaves a valid queue in which nothing but sacked flags of
octets in the blocks that are sent and not acknowledged has changed. -/
def SackContained (conn : TcpConnection) (ackNo : SeqNum) (option : TcpOptionSack) : Prop :=
  ∃ accepted after, conn.processSACKOption ackNo option = .ok (accepted, after) ∧
    after.rexmitQueue.checkQueue = true ∧
    OnlySacks option.sackItem conn.state.snd_una conn.state.snd_max conn.rexmitQueue
      after.rexmitQueue

/-- A connection with three segments of ten octets across the wrap. -/
def wrapping : TcpConnection where
  fsm := .established
  state := { TcpStateVariables.wrappingState 3 with }
  rexmitQueue := ⟨[⟨4294967286, 20, false, false⟩], 4294967286, 20⟩

theorem wrapping_reachable : Reachable wrapping := by
  have opened := Reachable.selectInitialSeqNum .synSent
    { TcpStateVariables.wrappingState 3 with snd_una := 4294967285, snd_max := 4294967285 } rfl
  have syn := opened.sendSyn rfl
  have acknowledged := @Reachable.acknowledge _ syn 4294967286 false ⟨[], 4294967286, 4294967286⟩
    rfl (by decide) (by decide) nofun (by decide)
  have sent := @Reachable.sendSegment _ acknowledged 4294967286 20
    ⟨[⟨4294967286, 20, false, false⟩], 4294967286, 20⟩ rfl rfl (by decide) (by decide)
  exact sent.enter .established

end TcpConnection
end Inet.Tcp
