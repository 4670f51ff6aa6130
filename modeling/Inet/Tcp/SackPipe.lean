import Inet.Tcp.SackRexmitQueries

/-!
# The pipe

`setPipe` estimates the octets that are in the network block by block. What it computes is a sum
over the octets that are sent and not acknowledged.
-/
namespace Inet.Tcp

open Lib Lib.Serial

/-- The part of the connection's state that decides what is sent during loss recovery. -/
structure TcpStateVariables where
  sack_enabled : Bool
  ts_enabled : Bool
  snd_mss : BitVec 32
  snd_una : SeqNum
  snd_max : SeqNum
  snd_wnd : BitVec 32
  dupthresh : BitVec 32
  highRxt : SeqNum
  pipe : BitVec 32
  rcv_sacks : BitVec 32 := 0
  sackedBytes_old : BitVec 32 := 0
  sackedBytes : BitVec 32 := 0
deriving DecidableEq, Repr

/-- The length of the rest of a block from a sequence number on, and its flags. -/
def TcpSackRexmitQueue.checkSackBlock (q : TcpSackRexmitQueue) (fromSeqNum : SeqNum) :
    Except String (SeqNum × Bool × Bool) := do
  assert (seqLE q.begin_ fromSeqNum && seqLess fromSeqNum q.end_)
    "seqLE(begin, fromSeqNum) && seqLess(fromSeqNum, end)"
  match q.rexmitQueue.dropWhile fun i => seqLE i.endSeqNum fromSeqNum with
  | [] => .error "i != rexmitQueue.end()"
  | i :: _ =>
    assert (seqLE i.beginSeqNum fromSeqNum && seqLess fromSeqNum i.endSeqNum)
      "seqLE(i->beginSeqNum, fromSeqNum) && seqLess(fromSeqNum, i->endSeqNum)"
    return (i.endSeqNum - fromSeqNum, i.sacked, i.rexmitted)

namespace TcpStateVariables

variable (state : TcpStateVariables) (rexmitQueue : TcpSackRexmitQueue)

def isLost (seqNum : SeqNum) : Except String Bool := do
  assert state.sack_enabled "state->sack_enabled"
  assert (seqGE seqNum state.snd_una) "seqGE(seqNum, state->snd_una)"
  let sacks ← rexmitQueue.getNumOfDiscontiguousSacks seqNum
  if state.dupthresh ≤ sacks then return true
  else
    let bytes ← rexmitQueue.getAmountOfSackedBytes seqNum
    return decide (state.dupthresh * state.snd_mss ≤ bytes)

/-- A round of the loop of `setPipe` for a block that is not sacked. -/
def addBlock (s1 length : SeqNum) (pipe : BitVec 32) : Except String (BitVec 32) := do
  let lost ← state.isLost rexmitQueue s1
  let pipe := if lost then pipe else pipe + length
  return if seqLess s1 state.highRxt then pipe + length else pipe

/-- The loop of `setPipe`, for a number of rounds. -/
def pipeFrom : Nat → SeqNum → BitVec 32 → Except String (BitVec 32)
  | 0, _, _ => .error "more rounds"
  | rounds + 1, s1, pipe =>
    if seqLess s1 state.snd_max then do
      let (length, sacked, _) ← rexmitQueue.checkSackBlock s1
      let pipe ← if sacked then .ok pipe else state.addBlock rexmitQueue s1 length pipe
      pipeFrom rounds (s1 + length) pipe
    else .ok pipe

def setPipe (rounds : Nat) : Except String TcpStateVariables := do
  assert state.sack_enabled "state->sack_enabled"
  let state := { state with highRxt := rexmitQueue.getHighestRexmittedSeqNum, pipe := 0 }
  let pipe ← state.pipeFrom rexmitQueue rounds state.snd_una 0
  return { state with pipe }

/-- The scoreboard has exactly the octets from `snd_una` up to `snd_max`. -/
structure Covers : Prop where
  valid : rexmitQueue.checkQueue = true
  short : (flagsOf rexmitQueue.rexmitQueue).length < 2 ^ 31
  begins : rexmitQueue.begin_ = state.snd_una
  ends : rexmitQueue.end_ = state.snd_max

end TcpStateVariables

/-! ### Octets -/

namespace ByteMap

variable (m : ByteMap)

/-- At least `dupthresh` runs of sacked octets, or some number of them, are at or above an octet. -/
abbrev IsLost (dupthresh amount : Nat) (s1 : SeqNum) : Prop :=
  dupthresh ≤ (m.bytes s1).countP m.endsRun ∨ amount ≤ (m.bytes s1).countP m.sacked

/-- What an octet adds to the pipe. -/
def pipeOf (dupthresh amount : Nat) (highRxt s1 : SeqNum) : Nat :=
  if m.sacked s1 then 0
  else
    (if m.IsLost dupthresh amount s1 then 0 else 1) +
      if fwd m.begin_ s1 < fwd m.begin_ highRxt then 1 else 0

def pipe (dupthresh amount : Nat) (highRxt : SeqNum) : Nat :=
  ((m.bytes m.begin_).map (m.pipeOf dupthresh amount highRxt)).sum

variable {m} in
theorem pipeOf_unsacked {s1 : SeqNum} (unsacked : m.sacked s1 = false)
    (dupthresh amount : Nat) (highRxt : SeqNum) :
    m.pipeOf dupthresh amount highRxt s1 = (if m.IsLost dupthresh amount s1 then 0 else 1) +
      if fwd m.begin_ s1 < fwd m.begin_ highRxt then 1 else 0 :=
  if_neg (by rw [unsacked]; decide)

/-- The first octets from a sequence number on. -/
def firstBytes (s : SeqNum) (n : Nat) : List SeqNum :=
  (List.range n).map fun k => s + BitVec.ofNat 32 k

variable {m}

theorem bytes_split {s : SeqNum} {n : Nat} (inside : n ≤ fwd s m.end_) :
    m.bytes s = firstBytes s n ++ m.bytes (s + BitVec.ofNat 32 n) := by
  have below := fwd_lt s m.end_
  have distance : fwd s (s + BitVec.ofNat 32 n) = n := fwd_add s n (by omega)
  have rests := fwd_of_le s (s + BitVec.ofNat 32 n) m.end_ (by omega)
  obtain ⟨rest, whole⟩ := Nat.exists_eq_add_of_le inside
  rw [bytes, bytes, rests, whole, distance, Nat.add_sub_cancel_left, List.range_add,
    List.map_append, List.map_map, firstBytes]
  congr 1
  refine List.map_congr_left fun k _ => ?_
  rw [Function.comp_apply, BitVec.ofNat_add, BitVec.add_assoc]

theorem mem_firstBytes {s s' : SeqNum} {n : Nat} :
    s' ∈ firstBytes s n ↔ ∃ k < n, s' = s + BitVec.ofNat 32 k := by
  simp only [firstBytes, List.mem_map, List.mem_range, eq_comm]

theorem OnePastLast.le {flag : SeqNum → Bool} {s : SeqNum} (last : m.OnePastLast flag s)
    (bounded : ∀ s', flag s' = true → fwd m.begin_ s' < fwd m.begin_ m.end_) :
    fwd m.begin_ s ≤ fwd m.begin_ m.end_ := by
  rcases last with ⟨rfl, -⟩ | ⟨flagged, -⟩
  · rw [fwd_self]
    exact Nat.zero_le _
  · have inside := bounded _ flagged
    unfold fwd at inside ⊢
    bv_omega

/-- Octets with the same flags, one after the other. -/
structure Block (m : ByteMap) (s : SeqNum) (n : Nat) (flags : Flags) : Prop where
  positive : 0 < n
  inside : n ≤ fwd s m.end_
  same : ∀ s' ∈ firstBytes s n, m.flags s' = some flags

namespace Block

variable {s : SeqNum} {n : Nat} {flags : Flags} (block : Block m s n flags)
include block

variable {s' : SeqNum}

theorem first : s ∈ firstBytes s n :=
  mem_firstBytes.mpr ⟨0, block.positive, (BitVec.add_zero s).symm⟩

theorem sacked (member : s' ∈ firstBytes s n) : m.sacked s' = flags.1 := by
  rw [ByteMap.sacked, block.same s' member, Option.any_some]

theorem rexmitted (member : s' ∈ firstBytes s n) : m.rexmitted s' = flags.2 := by
  rw [ByteMap.rexmitted, block.same s' member, Option.any_some]

theorem tail {k : Nat} (less : k < n) : m.bytes s = firstBytes s k ++ m.bytes (s + BitVec.ofNat 32 k) :=
  bytes_split (Nat.le_trans (Nat.le_of_lt less) block.inside)

/-- Without sacked octets in between, as many are above. -/
theorem countP_tail (test : SeqNum → Bool) (fails : ∀ s' ∈ firstBytes s n, test s' = false)
    (member : s' ∈ firstBytes s n) :
    (m.bytes s').countP test = (m.bytes s).countP test := by
  obtain ⟨k, less, rfl⟩ := mem_firstBytes.mp member
  have none : (firstBytes s k).countP test = 0 := by
    apply List.countP_eq_zero.mpr
    intro s' member
    obtain ⟨j, before, rfl⟩ := mem_firstBytes.mp member
    rw [fails _ (mem_firstBytes.mpr ⟨j, by omega, rfl⟩)]
    decide
  rw [block.tail less, List.countP_append, none, Nat.zero_add]

theorem isLost_iff (unsacked : flags.1 = false) (dupthresh amount : Nat)
    (member : s' ∈ firstBytes s n) :
    m.IsLost dupthresh amount s' ↔ m.IsLost dupthresh amount s := by
  have fails : ∀ s' ∈ firstBytes s n, m.sacked s' = false := fun s' member =>
    (block.sacked member).trans unsacked
  have runs : ∀ s' ∈ firstBytes s n, m.endsRun s' = false := fun s' member => by
    rw [endsRun, fails s' member, Bool.false_and]
  rw [IsLost, IsLost, block.countP_tail _ runs member, block.countP_tail _ fails member]

theorem position (within : fwd m.begin_ s ≤ fwd m.begin_ m.end_) {k : Nat} (less : k ≤ n) :
    fwd m.begin_ (s + BitVec.ofNat 32 k) = fwd m.begin_ s + k := by
  have inside := block.inside
  have rests := fwd_of_le m.begin_ s m.end_ within
  have below := fwd_lt m.begin_ m.end_
  have distance : fwd s (s + BitVec.ofNat 32 k) = k := fwd_add s k (by omega)
  rw [fwd_trans m.begin_ s _ (by omega), distance]

/-- One past the last retransmitted octet is not in the middle of a block. -/
theorem below_iff (within : fwd m.begin_ s ≤ fwd m.begin_ m.end_) {highRxt : SeqNum}
    (highest : m.OnePastLast m.rexmitted highRxt)
    (bounded : ∀ s', m.rexmitted s' = true → fwd m.begin_ s' < fwd m.begin_ m.end_)
    (member : s' ∈ firstBytes s n) :
    fwd m.begin_ s' < fwd m.begin_ highRxt ↔ fwd m.begin_ s < fwd m.begin_ highRxt := by
  have rexmitted := block.rexmitted member
  obtain ⟨k, less, rfl⟩ := mem_firstBytes.mp member
  have there := block.position within (Nat.le_of_lt less)
  rcases highest with ⟨rfl, -⟩ | ⟨flagged, last⟩
  · rw [fwd_self]
    exact iff_of_false (Nat.not_lt_zero _) (Nat.not_lt_zero _)
  · have inside := bounded _ flagged
    have below := fwd_lt m.begin_ m.end_
    have apart : 0 < fwd m.begin_ highRxt := by
      rw [Nat.pos_iff_ne_zero, ne_eq, fwd_eq_zero_iff]
      rintro rfl
      have wrapped : fwd m.begin_ (m.begin_ - 1) = 2 ^ 32 - 1 := by
        unfold fwd
        bv_omega
      omega
    have before := fwd_sub_one _ _ apart
    constructor
    · omega
    · intro starts
      by_contra behind
      -- the last retransmitted octet would be in the block, and so the block retransmitted
      have reached : highRxt - 1 = s + BitVec.ofNat 32 (fwd m.begin_ highRxt - 1 - fwd m.begin_ s) := by
        rw [← fwd_inj m.begin_, block.position within (by omega)]
        omega
      have same := block.rexmitted (mem_firstBytes.mpr ⟨_, by omega, reached⟩)
      rw [flagged] at same
      have later := last _ (rexmitted.trans same.symm)
      omega

theorem pipeOf_eq (within : fwd m.begin_ s ≤ fwd m.begin_ m.end_) {highRxt : SeqNum}
    (highest : m.OnePastLast m.rexmitted highRxt)
    (bounded : ∀ s', m.rexmitted s' = true → fwd m.begin_ s' < fwd m.begin_ m.end_)
    (dupthresh amount : Nat) (member : s' ∈ firstBytes s n) :
    m.pipeOf dupthresh amount highRxt s' = m.pipeOf dupthresh amount highRxt s := by
  have first := block.first
  have below := block.below_iff within highest bounded member
  unfold pipeOf
  rw [block.sacked member, block.sacked first]
  cases unsacked : flags.1 with
  | true => rfl
  | false =>
    have lost := block.isLost_iff unsacked dupthresh amount member
    simp only [Bool.false_eq_true, if_false, lost, below]

/-- What a block adds to the pipe is a multiple of what its first octet adds. -/
theorem sum_pipeOf (within : fwd m.begin_ s ≤ fwd m.begin_ m.end_) {highRxt : SeqNum}
    (highest : m.OnePastLast m.rexmitted highRxt)
    (bounded : ∀ s', m.rexmitted s' = true → fwd m.begin_ s' < fwd m.begin_ m.end_)
    (dupthresh amount : Nat) :
    ((m.bytes s).map (m.pipeOf dupthresh amount highRxt)).sum =
      n * m.pipeOf dupthresh amount highRxt s +
        ((m.bytes (s + BitVec.ofNat 32 n)).map (m.pipeOf dupthresh amount highRxt)).sum := by
  have same : (firstBytes s n).map (m.pipeOf dupthresh amount highRxt) =
      List.replicate n (m.pipeOf dupthresh amount highRxt s) := by
    rw [List.eq_replicate_iff]
    refine ⟨by simp [firstBytes], fun octets member => ?_⟩
    obtain ⟨s', inside, rfl⟩ := List.mem_map.mp member
    exact block.pipeOf_eq within highest bounded dupthresh amount inside
  rw [bytes_split block.inside, List.map_append, List.sum_append, same, List.sum_replicate_nat]

end Block
end ByteMap

/-! ### The queries on octets -/

namespace Refines

variable {q : TcpSackRexmitQueue} {m : ByteMap} (refines : Refines q m)
include refines

theorem length_eq : (flagsOf q.rexmitQueue).length = fwd m.begin_ m.end_ := by
  rw [refines.begin_eq, refines.end_eq, refines.span]

/-- Octets outside of the scoreboard have no flags. -/
theorem bounded {s : SeqNum} {flags : Flags} (found : m.flags s = some flags) :
    fwd m.begin_ s < fwd m.begin_ m.end_ := by
  rw [refines.flags_eq, lookup] at found
  rw [← refines.length_eq, refines.begin_eq]
  exact (List.getElem?_eq_some_iff.mp found).1

theorem bounded_sacked (s : SeqNum) (sacked : m.sacked s = true) :
    fwd m.begin_ s < fwd m.begin_ m.end_ := by
  obtain ⟨flags, found, -⟩ := (Option.any_eq_true _ _).mp sacked
  exact refines.bounded found

theorem bounded_rexmitted (s : SeqNum) (rexmitted : m.rexmitted s = true) :
    fwd m.begin_ s < fwd m.begin_ m.end_ := by
  obtain ⟨flags, found, -⟩ := (Option.any_eq_true _ _).mp rexmitted
  exact refines.bounded found

theorem checkSackBlock {s : SeqNum} (inside : fwd m.begin_ s < fwd m.begin_ m.end_) :
    ∃ n flags, q.checkSackBlock s = .ok (BitVec.ofNat 32 n, flags.1, flags.2) ∧
      m.Block s n flags := by
  have short := refines.short
  have length := refines.length_eq
  have rests := fwd_of_le m.begin_ s m.end_ (Nat.le_of_lt inside)
  rw [refines.begin_eq] at inside length rests
  obtain ⟨i, rest, found, within, -, near, flags⟩ := dropWhile_chain q.begin_ q.end_ s q.rexmitQueue
    refines.chained short (by omega)
  have block := fwd_of_le i.beginSeqNum s i.endSeqNum (Nat.le_of_lt within)
  have lengths := congrArg List.length flags
  rw [List.length_drop, List.length_append, List.length_replicate] at lengths
  refine ⟨fwd s i.endSeqNum, (i.sacked, i.rexmitted), ?_, by omega, by omega, ?_⟩
  · have inside' : (seqLE q.begin_ s && seqLess s q.end_) = true := by
      rw [← refines.end_eq, Bool.and_eq_true, seqLE_iff, seqLess_iff]
      omega
    have here : (seqLE i.beginSeqNum s && seqLess s i.endSeqNum) = true := by
      rw [Bool.and_eq_true, seqLE_iff, seqLess_iff]
      omega
    unfold TcpSackRexmitQueue.checkSackBlock
    rw [inside', found]
    dsimp only
    rw [here, sub_eq_ofNat]
    rfl
  · intro s' member
    obtain ⟨k, less, rfl⟩ := ByteMap.mem_firstBytes.mp member
    rw [refines.flags_add s k (by omega), flags, List.getElem?_append_left (by simpa using less),
      List.getElem?_replicate, if_pos less]

end Refines

namespace TcpStateVariables

variable {state : TcpStateVariables} {q : TcpSackRexmitQueue} {m : ByteMap}

theorem Covers.refines (covers : state.Covers q) : Refines q q.byteMap where
  chained := (checkRegions_iff _ _ _ covers.short).mp covers.valid
  short := covers.short
  begin_eq := rfl
  end_eq := rfl
  flags_eq _ := find_flags _ _ _ _ ((checkRegions_iff _ _ _ covers.short).mp covers.valid) covers.short

/-- The threshold as the code computes it. -/
def lostAmount (state : TcpStateVariables) : Nat := (state.dupthresh * state.snd_mss).toNat

theorem isLost_eq (refines : Refines q m) (enabled : state.sack_enabled = true)
    (begins : m.begin_ = state.snd_una) {s : SeqNum}
    (inside : fwd m.begin_ s ≤ fwd m.begin_ m.end_) :
    state.isLost q s = .ok (decide (m.IsLost state.dupthresh.toNat state.lostAmount s)) := by
  have short := refines.short
  have length := refines.length_eq
  have rests := fwd_of_le m.begin_ s m.end_ inside
  have above : seqLE m.begin_ s = true := (seqLE_iff _ _).mpr (by omega)
  have below : seqLE s m.end_ = true := (seqLE_iff _ _).mpr (by omega)
  have acknowledged : seqGE s state.snd_una = true := by
    rw [seqGE_iff, ← begins]
    omega
  obtain ⟨sacks, counted, sacks_eq⟩ := refines.answers.discontiguous s above below
  obtain ⟨bytes, summed, bytes_eq⟩ := refines.answers.amount s above below
  unfold isLost ByteMap.IsLost
  rw [enabled, acknowledged, counted, summed, ← sacks_eq, ← bytes_eq]
  change (if state.dupthresh ≤ sacks then _ else _) = _
  split
  · next enough => rw [decide_eq_true (.inl (BitVec.le_def.mp enough))]; rfl
  · next few =>
    rw [BitVec.le_def] at few
    simp only [few, false_or]
    rfl

theorem addBlock_eq (refines : Refines q m) (enabled : state.sack_enabled = true)
    (begins : m.begin_ = state.snd_una) {s : SeqNum}
    (inside : fwd m.begin_ s < fwd m.begin_ m.end_) (unsacked : m.sacked s = false)
    (highest : fwd m.begin_ state.highRxt ≤ fwd m.begin_ m.end_) (n : Nat) (pipe : BitVec 32) :
    state.addBlock q s (BitVec.ofNat 32 n) pipe = .ok (pipe + BitVec.ofNat 32
      (n * m.pipeOf state.dupthresh.toNat state.lostAmount state.highRxt s)) := by
  have short := refines.short
  have length := refines.length_eq
  have below := seqLess_iff_from m.begin_ s state.highRxt (by omega) (by omega)
  have value := ByteMap.pipeOf_unsacked unsacked state.dupthresh.toNat state.lostAmount state.highRxt
  unfold addBlock
  rw [isLost_eq refines enabled begins (Nat.le_of_lt inside), ok_bind, value]
  by_cases lost : m.IsLost state.dupthresh.toNat state.lostAmount s <;>
    by_cases before : fwd m.begin_ s < fwd m.begin_ state.highRxt
  · rw [if_pos lost, if_pos before, decide_eq_true lost, below.mpr before, Nat.zero_add, Nat.mul_one]
    rfl
  · rw [if_pos lost, if_neg before, decide_eq_true lost, Bool.eq_false_iff.mpr (mt below.mp before),
      Nat.mul_zero, BitVec.add_zero]
    rfl
  · rw [if_neg lost, if_pos before, decide_eq_false lost, below.mpr before, Nat.mul_two,
      BitVec.ofNat_add, ← BitVec.add_assoc]
    rfl
  · rw [if_neg lost, if_neg before, decide_eq_false lost,
      Bool.eq_false_iff.mpr (mt below.mp before), Nat.mul_one]
    rfl

/-- The loop adds the rest of the octets, one block after the other. -/
theorem pipeFrom_eq (refines : Refines q m) (enabled : state.sack_enabled = true)
    (begins : m.begin_ = state.snd_una) (ends : m.end_ = state.snd_max)
    (highest : m.OnePastLast m.rexmitted state.highRxt) (rounds : Nat) {s : SeqNum}
    (inside : fwd m.begin_ s ≤ fwd m.begin_ m.end_) (enough : fwd s m.end_ < rounds)
    (pipe : BitVec 32) :
    state.pipeFrom q rounds s pipe = .ok (pipe + BitVec.ofNat 32 ((m.bytes s).map
      (m.pipeOf state.dupthresh.toNat state.lostAmount state.highRxt)).sum) := by
  induction rounds generalizing s pipe with
  | zero => exact absurd enough (Nat.not_lt_zero _)
  | succ rounds ih =>
    have short := refines.short
    have length := refines.length_eq
    have rests := fwd_of_le m.begin_ s m.end_ inside
    have below := seqLess_iff_from m.begin_ s m.end_ (by omega) (by omega)
    unfold pipeFrom
    rw [← ends]
    by_cases left : fwd m.begin_ s < fwd m.begin_ m.end_
    · obtain ⟨n, flags, checked, block⟩ := refines.checkSackBlock left
      have size := block.inside
      have positive := block.positive
      have there := block.position inside (Nat.le_refl n)
      have rests' := fwd_of_le m.begin_ (s + BitVec.ofNat 32 n) m.end_ (by omega)
      have later := ih (s := s + BitVec.ofNat 32 n) (by omega) (by omega)
      rw [if_pos (below.mpr left), checked, ok_bind,
        block.sum_pipeOf inside highest refines.bounded_rexmitted]
      dsimp only
      have sacked := block.sacked block.first
      cases flag : flags.1 with
      | true =>
        have nothing : m.pipeOf state.dupthresh.toNat state.lostAmount state.highRxt s = 0 :=
          if_pos (sacked.trans flag)
        rw [if_pos rfl, ok_bind, later, nothing, Nat.mul_zero, Nat.zero_add]
      | false =>
        rw [if_neg (by decide), addBlock_eq refines enabled begins left (sacked.trans flag)
          (highest.le refines.bounded_rexmitted), ok_bind, later, BitVec.ofNat_add, BitVec.add_assoc]
    · have ended : s = m.end_ := by
        rw [← fwd_inj m.begin_]
        omega
      rw [if_neg (mt below.mp left), ended, ByteMap.bytes, fwd_self]
      simp

/-- What the octets add up to is at most twice their number. -/
theorem pipe_small (refines : Refines q m) (dupthresh amount : Nat) (highRxt : SeqNum) :
    m.pipe dupthresh amount highRxt < 2 ^ 32 := by
  have short := refines.short
  rw [refines.length_eq] at short
  have bound : ∀ s1 ∈ m.bytes m.begin_, m.pipeOf dupthresh amount highRxt s1 ≤ 2 := by
    intro s1 _
    unfold ByteMap.pipeOf
    split_ifs <;> omega
  have sum := List.sum_le_card_nsmul ((m.bytes m.begin_).map (m.pipeOf dupthresh amount highRxt)) 2
    (by simpa using bound)
  rw [List.length_map, ByteMap.bytes, List.length_map, List.length_range, Nat.nsmul_eq_mul] at sum
  unfold ByteMap.pipe ByteMap.bytes
  omega

theorem setPipe_eq (covers : state.Covers q) (enabled : state.sack_enabled = true) {rounds : Nat}
    (enough : fwd state.snd_una state.snd_max < rounds) :
    ∃ after, state.setPipe q rounds = .ok after ∧
      q.byteMap.OnePastLast q.byteMap.rexmitted after.highRxt ∧
      after.pipe.toNat =
        q.byteMap.pipe state.dupthresh.toNat state.lostAmount after.highRxt := by
  have refines := covers.refines
  have highest := refines.answers.highestRexmitted
  have begins : q.byteMap.begin_ = state.snd_una := covers.begins
  have ends : q.byteMap.end_ = state.snd_max := covers.ends
  have looped := @pipeFrom_eq { state with highRxt := q.getHighestRexmittedSeqNum, pipe := 0 } q
    q.byteMap refines enabled begins ends highest rounds q.byteMap.begin_
    (by rw [fwd_self]; exact Nat.zero_le _)
    (by rw [begins, ends]; exact enough) 0#32
  rw [BitVec.zero_add, begins] at looped
  refine ⟨{ state with
      highRxt := q.getHighestRexmittedSeqNum
      pipe := BitVec.ofNat 32 (q.byteMap.pipe state.dupthresh.toNat state.lostAmount
        q.getHighestRexmittedSeqNum) }, ?_, highest, ?_⟩
  · unfold setPipe assert
    rw [if_pos enabled]
    change (pipeFrom _ q rounds state.snd_una 0#32 >>= _) = _
    rw [looped, ok_bind, ByteMap.pipe, begins]
    rfl
  · exact (BitVec.toNat_ofNat _ _).trans (Nat.mod_eq_of_lt (pipe_small refines _ _ _))

/-- The pipe is the sum over the octets, with losses by the product of the threshold and the segment
size. -/
def PipeByOctets (state : TcpStateVariables) (q : TcpSackRexmitQueue) (rounds : Nat) : Prop :=
  ∃ after, state.setPipe q rounds = .ok after ∧
    q.byteMap.OnePastLast q.byteMap.rexmitted after.highRxt ∧
    after.pipe.toNat = q.byteMap.pipe state.dupthresh.toNat
      (state.dupthresh.toNat * state.snd_mss.toNat) after.highRxt

/-- No octet is lost just because the product does not fit into 32 bits. -/
def ProductFits (state : TcpStateVariables) (q : TcpSackRexmitQueue) : Prop :=
  ∀ s1 ∈ q.byteMap.bytes state.snd_una, q.byteMap.sacked s1 = false →
    q.byteMap.IsLost state.dupthresh.toNat state.lostAmount s1 →
    q.byteMap.IsLost state.dupthresh.toNat (state.dupthresh.toNat * state.snd_mss.toNat) s1

theorem lostAmount_le (state : TcpStateVariables) :
    state.lostAmount ≤ state.dupthresh.toNat * state.snd_mss.toNat := by
  rw [lostAmount, BitVec.toNat_mul]
  exact Nat.mod_le _ _

theorem sum_map_eq_iff {l : List SeqNum} {f g : SeqNum → Nat} (le : ∀ a ∈ l, f a ≤ g a) :
    (l.map f).sum = (l.map g).sum ↔ ∀ a ∈ l, f a = g a := by
  induction l with
  | nil => simp
  | cons a rest ih =>
    have here := le a List.mem_cons_self
    have later : ∀ b ∈ rest, f b ≤ g b := fun b member => le b (List.mem_cons_of_mem _ member)
    have sums : (rest.map f).sum ≤ (rest.map g).sum := List.sum_le_sum later
    rw [List.map_cons, List.map_cons, List.sum_cons, List.sum_cons, List.forall_mem_cons,
      ← ih later]
    omega

/-- The estimate is right exactly when the product fits, or makes no octet lost. -/
theorem setPipe_iff (state : TcpStateVariables) (q : TcpSackRexmitQueue)
    (enabled : state.sack_enabled = true) (covers : state.Covers q) (rounds : Nat)
    (enough : fwd state.snd_una state.snd_max < rounds) :
    state.PipeByOctets q rounds ↔ state.ProductFits q := by
  obtain ⟨after, returned, highest, pipe⟩ := setPipe_eq covers enabled enough
  have begins : q.byteMap.begin_ = state.snd_una := covers.begins
  have same : state.PipeByOctets q rounds ↔
      q.byteMap.pipe state.dupthresh.toNat state.lostAmount after.highRxt =
        q.byteMap.pipe state.dupthresh.toNat (state.dupthresh.toNat * state.snd_mss.toNat)
          after.highRxt := by
    constructor
    · rintro ⟨_, returned', -, pipe'⟩
      cases returned.symm.trans returned'
      exact pipe.symm.trans pipe'
    · exact fun equal => ⟨after, returned, highest, pipe.trans equal⟩
  have lost_of_lost : ∀ s1, q.byteMap.IsLost state.dupthresh.toNat
      (state.dupthresh.toNat * state.snd_mss.toNat) s1 →
      q.byteMap.IsLost state.dupthresh.toNat state.lostAmount s1 := fun s1 lost =>
    lost.imp_right (Nat.le_trans state.lostAmount_le)
  rw [same, ByteMap.pipe, ByteMap.pipe, sum_map_eq_iff fun s1 _ => ?_, begins]
  · refine forall₂_congr fun s1 _ => ?_
    cases sacked : q.byteMap.sacked s1 with
    | true => simp [ByteMap.pipeOf, sacked]
    | false =>
      rw [ByteMap.pipeOf_unsacked sacked, ByteMap.pipeOf_unsacked sacked, Nat.add_right_cancel_iff]
      have back := lost_of_lost s1
      split_ifs with lost lost' lost'
      · exact iff_of_true rfl fun _ _ => lost'
      · exact iff_of_false nofun fun all => lost' (all rfl lost)
      · exact absurd (back lost') lost
      · exact iff_of_true rfl fun _ now => absurd now lost
  · -- a smaller threshold makes more octets lost
    cases sacked : q.byteMap.sacked s1 with
    | true => simp [ByteMap.pipeOf, sacked]
    | false =>
      rw [ByteMap.pipeOf_unsacked sacked, ByteMap.pipeOf_unsacked sacked]
      refine Nat.add_le_add_right ?_ _
      split_ifs with lost lost'
      · exact Nat.le_refl _
      · exact Nat.zero_le _
      · exact absurd (lost_of_lost s1 ‹_›) lost
      · exact Nat.le_refl _

/-- Three segments of ten octets across the wrap, of which the second is sacked. -/
def wrappingQueue : TcpSackRexmitQueue where
  rexmitQueue := [⟨4294967286, 0, false, true⟩, ⟨0, 10, true, false⟩, ⟨10, 20, false, false⟩]
  begin_ := 4294967286
  end_ := 20

/-- The state with a threshold of losses. -/
def wrappingState (dupthresh : BitVec 32) : TcpStateVariables where
  sack_enabled := true
  ts_enabled := false
  snd_mss := 10
  snd_una := 4294967286
  snd_max := 20
  snd_wnd := 100
  dupthresh
  highRxt := 0
  pipe := 0

theorem wrapping_covers (dupthresh : BitVec 32) : (wrappingState dupthresh).Covers wrappingQueue :=
  ⟨by decide, by decide, rfl, rfl⟩

/-- With one run as the threshold, the first segment is lost, but was sent again. -/
theorem wrapping_pipe : (wrappingState 1).PipeByOctets wrappingQueue 31 :=
  (setPipe_iff (wrappingState 1) wrappingQueue rfl (wrapping_covers 1) 31 (by decide)).mpr
    fun _ _ _ lost => lost

/-- The product of this threshold and the segment size is four more than `2 ^ 32`. -/
theorem pipe_not_by_octets : ¬∀ (state : TcpStateVariables) (q : TcpSackRexmitQueue),
    state.sack_enabled = true → state.Covers q →
      ∀ rounds, fwd state.snd_una state.snd_max < rounds → state.PipeByOctets q rounds := by
  intro all
  obtain ⟨after, returned, -, pipe⟩ :=
    all (wrappingState 429496730) wrappingQueue rfl (wrapping_covers _) 31 (by decide)
  have computed : (wrappingState 429496730).setPipe wrappingQueue 31 =
      .ok { wrappingState 429496730 with highRxt := 0, pipe := 20 } := by decide +kernel
  cases returned.symm.trans computed
  -- the first segment counts once for its retransmission, and once more as it is not lost
  exact absurd pipe (by decide +kernel)

example : ((wrappingState 1).setPipe wrappingQueue 31).map (·.pipe) = .ok 20 := by decide +kernel

end TcpStateVariables
end Inet.Tcp
