import Inet.Tcp.SackPipe

/-!
# The next segment

`nextSeg` chooses what to send during loss recovery: the first hole that is lost, new data, or the
first hole.
-/
namespace Inet.Tcp

open Lib Lib.Serial

structure TcpSendQueue where
  begin_ : SeqNum
  end_ : SeqNum
deriving DecidableEq, Repr

def TcpSendQueue.getBytesAvailable (queue : TcpSendQueue) (fromSeq : SeqNum) : BitVec 32 :=
  if seqLess fromSeq queue.end_ then queue.end_ - fromSeq else 0

namespace TcpStateVariables

variable (state : TcpStateVariables) (rexmitQueue : TcpSackRexmitQueue)

/-- The loop of rule (1), for a number of rounds. It goes on behind a sacked block and ends at the
first block that is not sacked. -/
def findLost (highestSackedSeqNum : SeqNum) : Nat → SeqNum → Except String (Option SeqNum)
  | 0, _ => .error "more rounds"
  | rounds + 1, s2 =>
    if seqLess s2 state.snd_max && seqLess s2 highestSackedSeqNum then do
      let (shift, sacked, _) ← rexmitQueue.checkSackBlock s2
      if sacked then findLost highestSackedSeqNum rounds (s2 + shift)
      else
        let lost ← state.isLost rexmitQueue s2
        return if lost then some s2 else none
    else .ok none

/-- The loop of rule (3). -/
def findUnsacked (highestSackedSeqNum : SeqNum) : Nat → SeqNum → Except String (Option SeqNum)
  | 0, _ => .error "more rounds"
  | rounds + 1, s3 =>
    if seqLess s3 state.snd_max && seqLess s3 highestSackedSeqNum then do
      let (shift, sacked, _) ← rexmitQueue.checkSackBlock s3
      if sacked then findUnsacked highestSackedSeqNum rounds (s3 + shift)
      else return some s3
    else .ok none

/-- The window lets one more segment of unsent data out. -/
def windowAllows (sendQueue : TcpSendQueue) : Bool :=
  let buffered := sendQueue.getBytesAvailable state.snd_max
  let effectiveWin := state.snd_wnd - state.pipe
  decide (0 < buffered ∧ state.snd_mss ≤ effectiveWin)

/-- The state, the sequence number and the result. The step that the loops begin with, `snd_mss`
less the timestamp option, is replaced by the length of a block before it is used. -/
def nextSeg (sendQueue : TcpSendQueue) (rounds : Nat) :
    Except String (TcpStateVariables × SeqNum × Bool) := do
  assert state.sack_enabled "state->sack_enabled"
  let state := { state with highRxt := rexmitQueue.getHighestRexmittedSeqNum }
  let highestSackedSeqNum := rexmitQueue.getHighestSackedSeqNum
  match ← state.findLost rexmitQueue highestSackedSeqNum rounds state.highRxt with
  | some s2 => return (state, s2, true)
  | none =>
    if state.windowAllows sendQueue then return (state, state.snd_max, true)
    else
      match ← state.findUnsacked rexmitQueue highestSackedSeqNum rounds state.highRxt with
      | some s3 => return (state, s3, true)
      | none => return (state, 0, false)

end TcpStateVariables

/-! ### Holes -/

namespace ByteMap

variable {m : ByteMap}

theorem mem_bytes {s : SeqNum} (inside : fwd m.begin_ s ≤ fwd m.begin_ m.end_) {s' : SeqNum} :
    s' ∈ m.bytes s ↔ fwd m.begin_ s ≤ fwd m.begin_ s' ∧ fwd m.begin_ s' < fwd m.begin_ m.end_ := by
  have below := fwd_lt m.begin_ m.end_
  have rests := fwd_of_le m.begin_ s m.end_ inside
  constructor
  · intro member
    obtain ⟨k, less, rfl⟩ := mem_firstBytes.mp member
    have distance : fwd s (s + BitVec.ofNat 32 k) = k := fwd_add s k (by omega)
    have there := fwd_trans m.begin_ s (s + BitVec.ofNat 32 k) (by omega)
    omega
  · rintro ⟨behind, before⟩
    have distance := fwd_of_le m.begin_ s s' behind
    exact mem_firstBytes.mpr ⟨fwd s s', by omega, (add_fwd s s').symm⟩

theorem bytes_eq_cons {s : SeqNum} (left : 0 < fwd s m.end_) :
    ∃ rest, m.bytes s = s :: rest := by
  obtain ⟨n, length⟩ := Nat.exists_eq_succ_of_ne_zero (Nat.pos_iff_ne_zero.mp left)
  rw [bytes, length, List.range_succ_eq_map, List.map_cons]
  exact ⟨_, by rw [BitVec.add_zero]⟩

/-- Fewer octets are above a higher one. -/
theorem IsLost.of_le {s s' : SeqNum} (inside : fwd m.begin_ s' ≤ fwd m.begin_ m.end_)
    (le : fwd m.begin_ s ≤ fwd m.begin_ s') {dupthresh amount : Nat}
    (lost : m.IsLost dupthresh amount s') : m.IsLost dupthresh amount s := by
  have between := fwd_of_le m.begin_ s s' le
  have whole := fwd_of_le m.begin_ s m.end_ (Nat.le_trans le inside)
  have split := bytes_split (m := m) (s := s) (n := fwd s s') (by omega)
  rw [add_fwd] at split
  have more (test : SeqNum → Bool) : (m.bytes s').countP test ≤ (m.bytes s).countP test := by
    rw [split, List.countP_append]
    exact Nat.le_add_left _ _
  exact lost.imp (fun runs => Nat.le_trans runs (more _)) fun octets => Nat.le_trans octets (more _)

/-- A hole that may be filled: an octet that is not sacked, not below one past the last
retransmitted one, and below a sacked one. -/
structure Hole (m : ByteMap) (highRxt s : SeqNum) : Prop where
  sent : s ∈ m.bytes highRxt
  unsacked : m.sacked s = false
  below : ∃ s', m.sacked s' = true ∧ fwd m.begin_ s < fwd m.begin_ s'

/-- A hole that is lost. -/
def LostHole (m : ByteMap) (dupthresh amount : Nat) (highRxt s : SeqNum) : Prop :=
  m.Hole highRxt s ∧ m.IsLost dupthresh amount s

/-- The smallest sequence number with a property. -/
def Smallest (m : ByteMap) (holds : SeqNum → Prop) (s : SeqNum) : Prop :=
  holds s ∧ ∀ s', holds s' → fwd m.begin_ s ≤ fwd m.begin_ s'

/-- What is to be sent next: the first hole that is lost. If there is none, new data if there is room
for it, and otherwise the first hole. -/
def NextSeg (m : ByteMap) (dupthresh amount : Nat) (highRxt : SeqNum) (room : Prop) :
    Option SeqNum → Prop
  | some s => m.Smallest (m.LostHole dupthresh amount highRxt) s ∨
      (∀ s', ¬m.LostHole dupthresh amount highRxt s') ∧
        (room ∧ s = m.end_ ∨ ¬room ∧ m.Smallest (m.Hole highRxt) s)
  | none => (∀ s', ¬m.LostHole dupthresh amount highRxt s') ∧ ¬room ∧ ∀ s', ¬m.Hole highRxt s'

theorem Smallest.unique {holds : SeqNum → Prop} {s s' : SeqNum} (smallest : m.Smallest holds s)
    (smallest' : m.Smallest holds s') : s = s' :=
  (fwd_inj m.begin_ s s').mp
    (Nat.le_antisymm (smallest.2 s' smallest'.1) (smallest'.2 s smallest.1))

/-- The octets are in order. -/
theorem pairwise_bytes {s : SeqNum} (inside : fwd m.begin_ s ≤ fwd m.begin_ m.end_) :
    (m.bytes s).Pairwise fun a b => fwd m.begin_ a < fwd m.begin_ b := by
  have below := fwd_lt m.begin_ m.end_
  have rests := fwd_of_le m.begin_ s m.end_ inside
  have position (k : Nat) (less : k < fwd s m.end_) :
      fwd m.begin_ (s + BitVec.ofNat 32 k) = fwd m.begin_ s + k := by
    have distance : fwd s (s + BitVec.ofNat 32 k) = k := fwd_add s k (by omega)
    have there := fwd_trans m.begin_ s (s + BitVec.ofNat 32 k) (by omega)
    omega
  rw [bytes, List.pairwise_map]
  refine List.Pairwise.imp_of_mem ?_ List.pairwise_lt_range
  intro j k first second less
  rw [position j (List.mem_range.mp first), position k (List.mem_range.mp second)]
  omega

theorem find?_eq_some_iff {s0 : SeqNum} (inside : fwd m.begin_ s0 ≤ fwd m.begin_ m.end_)
    {test : SeqNum → Bool} {s : SeqNum} :
    (m.bytes s0).find? test = some s ↔
      m.Smallest (fun s => s ∈ m.bytes s0 ∧ test s = true) s := by
  have smallest {s : SeqNum} (found : (m.bytes s0).find? test = some s) :
      m.Smallest (fun s => s ∈ m.bytes s0 ∧ test s = true) s := by
    obtain ⟨holds, front, back, split, fails⟩ := List.find?_eq_some_iff_append.mp found
    have order := pairwise_bytes inside
    rw [split] at order
    refine ⟨⟨List.mem_of_find?_eq_some found, holds⟩, ?_⟩
    rintro s' ⟨member, holds'⟩
    rw [split] at member
    rcases List.mem_append.mp member with before | behind
    · exact absurd holds' (by simpa using fails s' before)
    · rcases List.mem_cons.mp behind with rfl | later
      · exact Nat.le_refl _
      · exact Nat.le_of_lt ((List.pairwise_cons.mp (List.pairwise_append.mp order).2.1).1 s' later)
  refine ⟨smallest, fun least => ?_⟩
  cases found : (m.bytes s0).find? test with
  | none =>
    exact absurd least.1.2 (List.find?_eq_none.mp found s least.1.1)
  | some s' => rw [(smallest found).unique least]

/-- The test of a hole against one past the last sacked octet. -/
def isHole (m : ByteMap) (highest s : SeqNum) : Bool :=
  !m.sacked s && decide (fwd m.begin_ s < fwd m.begin_ highest)

def firstHole (m : ByteMap) (highest s : SeqNum) : Option SeqNum :=
  (m.bytes s).find? (m.isHole highest)

theorem firstHole_none {highest s : SeqNum} (inside : fwd m.begin_ s ≤ fwd m.begin_ m.end_)
    (ended : fwd m.begin_ highest ≤ fwd m.begin_ s) : m.firstHole highest s = none := by
  apply List.find?_eq_none.mpr
  intro s' member
  have behind := (mem_bytes inside).mp member
  rw [isHole, decide_eq_false (by omega), Bool.and_false]
  decide

namespace Block

variable {s : SeqNum} {n : Nat} {flags : Flags} (block : Block m s n flags)
include block

theorem firstHole_sacked (sacked : flags.1 = true) (highest : SeqNum) :
    m.firstHole highest s = m.firstHole highest (s + BitVec.ofNat 32 n) := by
  have none : (firstBytes s n).find? (m.isHole highest) = none := by
    apply List.find?_eq_none.mpr
    intro s' member
    simp [isHole, block.sacked member, sacked]
  rw [firstHole, bytes_split block.inside, List.find?_append, none, Option.none_or]
  rfl

theorem firstHole_unsacked (unsacked : flags.1 = false) {highest : SeqNum}
    (below : fwd m.begin_ s < fwd m.begin_ highest) : m.firstHole highest s = some s := by
  have positive := block.positive
  have inside := block.inside
  obtain ⟨rest, whole⟩ := bytes_eq_cons (m := m) (s := s) (by omega)
  have hole : m.isHole highest s = true := by
    rw [isHole, block.sacked block.first, unsacked, decide_eq_true below]
    rfl
  rw [firstHole, whole, List.find?_cons_of_pos hole]

end Block
end ByteMap

namespace Refines

variable {q : TcpSackRexmitQueue} {m : ByteMap}

/-- Below one past the last sacked octet, what is not sacked is below a sacked octet. -/
theorem below_sacked_iff (refines : Refines q m) {highest s : SeqNum}
    (last : m.OnePastLast m.sacked highest) (unsacked : m.sacked s = false) :
    (∃ s', m.sacked s' = true ∧ fwd m.begin_ s < fwd m.begin_ s') ↔
      fwd m.begin_ s < fwd m.begin_ highest := by
  rcases last with ⟨rfl, none⟩ | ⟨sacked, most⟩
  · rw [fwd_self]
    refine iff_of_false ?_ (Nat.not_lt_zero _)
    rintro ⟨s', sacked, -⟩
    rw [none s'] at sacked
    cases sacked
  · obtain ⟨flags, found, -⟩ := (Option.any_eq_true _ _).mp sacked
    have inside := refines.bounded found
    have before : fwd m.begin_ (highest - 1) + 1 = fwd m.begin_ highest := by
      unfold fwd at inside ⊢
      bv_omega
    constructor
    · rintro ⟨s', sacked', less⟩
      have le := most s' sacked'
      omega
    · intro less
      refine ⟨highest - 1, sacked, lt_of_le_of_ne (by omega) fun same => ?_⟩
      rw [(fwd_inj m.begin_ s _).mp same, sacked] at unsacked
      cases unsacked

end Refines

/-! ### The choice -/

/-- The choice by the first hole. -/
def chosen (lost : SeqNum → Bool) (room : Bool) (first : Option SeqNum) (sndMax : SeqNum) :
    Option SeqNum :=
  match first.filter lost with
  | some s => some s
  | none => if room then some sndMax else first

/-- A choice changes with what counts as lost and as room only where the first hole decides. -/
theorem chosen_eq_iff {lost lost' : SeqNum → Bool} {room room' : Bool} {first : Option SeqNum}
    {sndMax : SeqNum} (sent : first ≠ some sndMax) (more : ∀ s, lost s = true → lost' s = true)
    (larger : room = true → room' = true) :
    chosen lost' room' first sndMax = chosen lost room first sndMax ↔
      (∃ s, first = some s ∧ lost s = true) ∨
      (∃ s, first = some s ∧ lost' s = true) ∧ room = false ∨
      (¬∃ s, first = some s ∧ lost' s = true) ∧ (room' = true → room = true) := by
  cases first with
  | none =>
    cases room <;> cases room' <;> simp_all [chosen]
  | some s =>
    have apart : sndMax ≠ s := fun same => sent (by rw [same])
    have now := more s
    cases here : lost s <;> cases here' : lost' s <;> cases room <;> cases room' <;>
      simp_all [chosen, Option.filter]

namespace Refines

variable {q : TcpSackRexmitQueue} {m : ByteMap} (refines : Refines q m) {highest highRxt : SeqNum}
  (last : m.OnePastLast m.sacked highest) (start : fwd m.begin_ highRxt ≤ fwd m.begin_ m.end_)
include refines last

theorem hole_iff (s : SeqNum) :
    m.Hole highRxt s ↔ s ∈ m.bytes highRxt ∧ m.isHole highest s = true := by
  unfold ByteMap.isHole
  constructor
  · rintro ⟨sent, unsacked, below⟩
    rw [unsacked, decide_eq_true ((refines.below_sacked_iff last unsacked).mp below)]
    exact ⟨sent, rfl⟩
  · rintro ⟨sent, hole⟩
    obtain ⟨unsacked, below⟩ := Bool.and_eq_true_iff.mp hole
    rw [Bool.not_eq_true'] at unsacked
    exact ⟨sent, unsacked, (refines.below_sacked_iff last unsacked).mpr (of_decide_eq_true below)⟩

include start

theorem firstHole_eq_some_iff (s : SeqNum) :
    m.firstHole highest highRxt = some s ↔ m.Smallest (m.Hole highRxt) s := by
  unfold ByteMap.firstHole ByteMap.Smallest
  rw [ByteMap.find?_eq_some_iff start]
  simp only [ByteMap.Smallest, refines.hole_iff last]

theorem firstHole_ne_end : m.firstHole highest highRxt ≠ some m.end_ := by
  intro found
  have hole := (refines.firstHole_eq_some_iff last start _).mp found
  have inside := (ByteMap.mem_bytes start).mp hole.1.sent
  omega

/-- Some hole is lost if the first one is. -/
theorem exists_lostHole_iff (dupthresh amount : Nat) :
    (∃ s, m.LostHole dupthresh amount highRxt s) ↔
      ∃ s, m.Smallest (m.Hole highRxt) s ∧ m.IsLost dupthresh amount s := by
  constructor
  · rintro ⟨s', hole, lost⟩
    cases found : m.firstHole highest highRxt with
    | none =>
      have holds := (refines.hole_iff last s').mp hole
      exact absurd holds.2 (List.find?_eq_none.mp found s' holds.1)
    | some s =>
      have least := (refines.firstHole_eq_some_iff last start s).mp found
      have sent := (ByteMap.mem_bytes start).mp hole.sent
      exact ⟨s, least, lost.of_le (Nat.le_of_lt sent.2) (least.2 s' hole)⟩
  · exact fun ⟨s, least, lost⟩ => ⟨s, least.1, lost⟩

/-- The first hole decides what is to be sent next: if it is not lost, no hole is. -/
theorem nextSeg_chosen_iff (dupthresh amount : Nat) (room : Prop) [Decidable room]
    (result : Option SeqNum) :
    m.NextSeg dupthresh amount highRxt room result ↔
      result = chosen (fun s => decide (m.IsLost dupthresh amount s)) (decide room)
        (m.firstHole highest highRxt) m.end_ := by
  have firsts := refines.firstHole_eq_some_iff last start
  cases found : m.firstHole highest highRxt with
  | none =>
    have no_hole : ∀ s', ¬m.Hole highRxt s' := by
      intro s' hole
      rw [refines.hole_iff last] at hole
      exact List.find?_eq_none.mp found s' hole.1 hole.2
    have no_lost : ∀ s', ¬m.LostHole dupthresh amount highRxt s' := fun s' lost => no_hole s' lost.1
    by_cases free : room
    · rw [decide_eq_true free]
      cases result with
      | none => exact iff_of_false (fun next => next.2.1 free) nofun
      | some s =>
        refine ⟨?_, ?_⟩
        · rintro (⟨lost, -⟩ | ⟨-, ⟨-, rfl⟩ | ⟨full, -⟩⟩)
          · exact absurd lost (no_lost s)
          · rfl
          · exact absurd free full
        · rintro ⟨⟩
          exact .inr ⟨no_lost, .inl ⟨free, rfl⟩⟩
    · rw [decide_eq_false free]
      cases result with
      | none => exact iff_of_true ⟨no_lost, free, no_hole⟩ rfl
      | some s =>
        refine iff_of_false ?_ nofun
        rintro (⟨lost, -⟩ | ⟨-, ⟨now, -⟩ | ⟨-, hole, -⟩⟩)
        · exact no_lost s lost
        · exact free now
        · exact no_hole s hole
  | some s0 =>
    have least := (firsts s0).mp found
    by_cases lost : m.IsLost dupthresh amount s0
    · have least_lost : m.Smallest (m.LostHole dupthresh amount highRxt) s0 :=
        ⟨⟨least.1, lost⟩, fun s' hole => least.2 s' hole.1⟩
      have choice : chosen (fun s => decide (m.IsLost dupthresh amount s)) (decide room) (some s0)
          m.end_ = some s0 := by
        simp [chosen, Option.filter, lost]
      rw [choice]
      cases result with
      | none => exact iff_of_false (fun next => next.1 s0 least_lost.1) nofun
      | some s =>
        refine ⟨?_, ?_⟩
        · rintro (smallest | ⟨none, -⟩)
          · rw [smallest.unique least_lost]
          · exact absurd least_lost.1 (none s0)
        · rintro ⟨⟩
          exact .inl least_lost
    · have no_lost : ∀ s', ¬m.LostHole dupthresh amount highRxt s' := by
        intro s' hole
        obtain ⟨s, first, now⟩ :=
          (refines.exists_lostHole_iff last start dupthresh amount).mp ⟨s', hole⟩
        rw [first.unique least] at now
        exact lost now
      have choice : chosen (fun s => decide (m.IsLost dupthresh amount s)) (decide room) (some s0)
          m.end_ = if room then some m.end_ else some s0 := by
        simp [chosen, Option.filter, lost]
      rw [choice]
      cases result with
      | none =>
        refine iff_of_false (fun next => next.2.2 s0 least.1) ?_
        split_ifs <;> exact nofun
      | some s =>
        by_cases free : room
        · rw [if_pos free]
          refine ⟨?_, ?_⟩
          · rintro (⟨now, -⟩ | ⟨-, ⟨-, rfl⟩ | ⟨full, -⟩⟩)
            · exact absurd now (no_lost s)
            · rfl
            · exact absurd free full
          · rintro ⟨⟩
            exact .inr ⟨no_lost, .inl ⟨free, rfl⟩⟩
        · rw [if_neg free]
          refine ⟨?_, ?_⟩
          · rintro (⟨now, -⟩ | ⟨-, ⟨now, -⟩ | ⟨-, smallest⟩⟩)
            · exact absurd now (no_lost s)
            · exact absurd now free
            · rw [smallest.unique least]
          · rintro ⟨⟩
            exact .inr ⟨no_lost, .inr ⟨free, least⟩⟩

end Refines

/-! ### The loops -/

namespace TcpStateVariables

variable {state : TcpStateVariables} {q : TcpSackRexmitQueue} {m : ByteMap}

/-- What a search from an octet on finds in a round, when it goes on behind sacked blocks only. -/
theorem searchRound (refines : Refines q m) (ends : m.end_ = state.snd_max) {highest s : SeqNum}
    (last : fwd m.begin_ highest ≤ fwd m.begin_ m.end_)
    (inside : fwd m.begin_ s ≤ fwd m.begin_ m.end_) :
    ((seqLess s state.snd_max && seqLess s highest) = false ∧ m.firstHole highest s = none) ∨
      (seqLess s state.snd_max && seqLess s highest) = true ∧
        ∃ n flags, q.checkSackBlock s = .ok (BitVec.ofNat 32 n, flags.1, flags.2) ∧
          m.Block s n flags ∧
          m.firstHole highest s = if flags.1 then m.firstHole highest (s + BitVec.ofNat 32 n)
            else some s := by
  have short := refines.short
  have length := refines.length_eq
  have sent := seqLess_iff_from m.begin_ s m.end_ (by omega) (by omega)
  have below := seqLess_iff_from m.begin_ s highest (by omega) (by omega)
  rw [← ends]
  by_cases left : fwd m.begin_ s < fwd m.begin_ highest
  · obtain ⟨n, flags, checked, block⟩ := refines.checkSackBlock (s := s) (by omega)
    refine .inr ⟨by rw [sent.mpr (by omega), below.mpr left]; rfl, n, flags, checked, block, ?_⟩
    cases sacked : flags.1 with
    | true => exact block.firstHole_sacked sacked highest
    | false => exact block.firstHole_unsacked sacked left
  · refine .inl ⟨?_, ByteMap.firstHole_none inside (Nat.le_of_not_lt left)⟩
    rw [Bool.eq_false_iff.mpr (mt below.mp left), Bool.and_false]

theorem findUnsacked_eq (refines : Refines q m) (ends : m.end_ = state.snd_max) {highest : SeqNum}
    (last : fwd m.begin_ highest ≤ fwd m.begin_ m.end_) (rounds : Nat) {s : SeqNum}
    (inside : fwd m.begin_ s ≤ fwd m.begin_ m.end_) (enough : fwd s m.end_ < rounds) :
    state.findUnsacked q highest rounds s = .ok (m.firstHole highest s) := by
  induction rounds generalizing s with
  | zero => exact absurd enough (Nat.not_lt_zero _)
  | succ rounds ih =>
    unfold findUnsacked
    rcases searchRound refines ends last inside with
      ⟨ended, none⟩ | ⟨going, n, flags, checked, block, found⟩
    · rw [ended, none, if_neg (by decide)]
    · have rests := fwd_of_le m.begin_ s m.end_ inside
      have size := block.inside
      have positive := block.positive
      have there := block.position inside (Nat.le_refl n)
      have rests' := fwd_of_le m.begin_ (s + BitVec.ofNat 32 n) m.end_ (by omega)
      have later := ih (s := s + BitVec.ofNat 32 n) (by omega) (by omega)
      rw [going, if_pos rfl, checked, ok_bind, found]
      dsimp only
      cases flags.1 with
      | true => rw [if_pos rfl, if_pos rfl, later]
      | false => rw [if_neg (by decide), if_neg (by decide)]; rfl

theorem findLost_eq (refines : Refines q m) (enabled : state.sack_enabled = true)
    (begins : m.begin_ = state.snd_una) (ends : m.end_ = state.snd_max) {highest : SeqNum}
    (last : fwd m.begin_ highest ≤ fwd m.begin_ m.end_) (rounds : Nat) {s : SeqNum}
    (inside : fwd m.begin_ s ≤ fwd m.begin_ m.end_) (enough : fwd s m.end_ < rounds) :
    state.findLost q highest rounds s = .ok ((m.firstHole highest s).filter fun s =>
      decide (m.IsLost state.dupthresh.toNat state.lostAmount s)) := by
  induction rounds generalizing s with
  | zero => exact absurd enough (Nat.not_lt_zero _)
  | succ rounds ih =>
    unfold findLost
    rcases searchRound refines ends last inside with
      ⟨ended, none⟩ | ⟨going, n, flags, checked, block, found⟩
    · rw [ended, none, if_neg (by decide)]
      rfl
    · have rests := fwd_of_le m.begin_ s m.end_ inside
      have size := block.inside
      have positive := block.positive
      have there := block.position inside (Nat.le_refl n)
      have rests' := fwd_of_le m.begin_ (s + BitVec.ofNat 32 n) m.end_ (by omega)
      have later := ih (s := s + BitVec.ofNat 32 n) (by omega) (by omega)
      rw [going, if_pos rfl, checked, ok_bind, found]
      dsimp only
      cases flags.1 with
      | true => rw [if_pos rfl, if_pos rfl, later]
      | false =>
        rw [if_neg (by decide), if_neg (by decide), isLost_eq refines enabled begins inside, ok_bind]
        rfl

/-- The window has room for one more segment beside what is outstanding. -/
def HasRoom (state : TcpStateVariables) (sendQueue : TcpSendQueue) : Prop :=
  0 < sendQueue.getBytesAvailable state.snd_max ∧
    state.pipe.toNat + state.snd_mss.toNat ≤ state.snd_wnd.toNat

instance (state : TcpStateVariables) (sendQueue : TcpSendQueue) :
    Decidable (state.HasRoom sendQueue) :=
  inferInstanceAs (Decidable (_ ∧ _))

theorem HasRoom.windowAllows {sendQueue : TcpSendQueue} (room : state.HasRoom sendQueue) :
    state.windowAllows sendQueue = true := by
  obtain ⟨unsent, fits⟩ := room
  refine decide_eq_true ⟨unsent, ?_⟩
  bv_omega

theorem nextSeg_eq (covers : state.Covers q) (enabled : state.sack_enabled = true)
    (sendQueue : TcpSendQueue) {rounds : Nat}
    (enough : fwd state.snd_una state.snd_max < rounds) :
    ∃ seqNum returned, state.nextSeg q sendQueue rounds =
        .ok ({ state with highRxt := q.getHighestRexmittedSeqNum }, seqNum, returned) ∧
      (if returned then some seqNum else none) =
        chosen (fun s => decide (q.byteMap.IsLost state.dupthresh.toNat state.lostAmount s))
          (state.windowAllows sendQueue)
          (q.byteMap.firstHole q.getHighestSackedSeqNum q.getHighestRexmittedSeqNum)
          state.snd_max := by
  have refines := covers.refines
  have begins : q.byteMap.begin_ = state.snd_una := covers.begins
  have ends : q.byteMap.end_ = state.snd_max := covers.ends
  have last := refines.answers.highestSacked.le refines.bounded_sacked
  have start := refines.answers.highestRexmitted.le refines.bounded_rexmitted
  have rests := fwd_of_le _ _ _ start
  rw [begins, ends] at rests
  let after := { state with highRxt := q.getHighestRexmittedSeqNum }
  have lost : after.findLost q q.getHighestSackedSeqNum rounds q.getHighestRexmittedSeqNum =
      .ok ((q.byteMap.firstHole q.getHighestSackedSeqNum q.getHighestRexmittedSeqNum).filter
        fun s => decide (q.byteMap.IsLost state.dupthresh.toNat state.lostAmount s)) :=
    @findLost_eq after q q.byteMap refines enabled begins ends _ last rounds _ start
      (by rw [ends]; omega)
  have unsacked : after.findUnsacked q q.getHighestSackedSeqNum rounds q.getHighestRexmittedSeqNum =
      .ok (q.byteMap.firstHole q.getHighestSackedSeqNum q.getHighestRexmittedSeqNum) :=
    @findUnsacked_eq after q q.byteMap refines ends _ last rounds _ start (by rw [ends]; omega)
  have opened : state.nextSeg q sendQueue rounds = (do
      match ← after.findLost q q.getHighestSackedSeqNum rounds q.getHighestRexmittedSeqNum with
      | some s2 => return (after, s2, true)
      | none =>
        if state.windowAllows sendQueue then return (after, state.snd_max, true)
        else
          match ← after.findUnsacked q q.getHighestSackedSeqNum rounds
            q.getHighestRexmittedSeqNum with
          | some s3 => return (after, s3, true)
          | none => return (after, 0, false)) := by
    unfold nextSeg assert
    rw [if_pos enabled]
    rfl
  rw [opened, lost, ok_bind]
  unfold chosen
  cases ((q.byteMap.firstHole q.getHighestSackedSeqNum q.getHighestRexmittedSeqNum).filter
      fun s => decide (q.byteMap.IsLost state.dupthresh.toNat state.lostAmount s)) with
  | some s2 => exact ⟨s2, true, rfl, rfl⟩
  | none =>
    cases state.windowAllows sendQueue with
    | true => exact ⟨state.snd_max, true, rfl, rfl⟩
    | false =>
      dsimp only
      rw [if_neg (by decide), unsacked, ok_bind]
      cases q.byteMap.firstHole q.getHighestSackedSeqNum q.getHighestRexmittedSeqNum with
      | some s3 => exact ⟨s3, true, rfl, rfl⟩
      | none => exact ⟨0, false, rfl, rfl⟩

/-- What is chosen follows the rules. -/
def ByRules (state : TcpStateVariables) (q : TcpSackRexmitQueue) (sendQueue : TcpSendQueue)
    (rounds : Nat) : Prop :=
  ∃ after seqNum returned, state.nextSeg q sendQueue rounds = .ok (after, seqNum, returned) ∧
    q.byteMap.OnePastLast q.byteMap.rexmitted after.highRxt ∧
    q.byteMap.NextSeg state.dupthresh.toNat (state.dupthresh.toNat * state.snd_mss.toNat)
      after.highRxt (state.HasRoom sendQueue) (if returned then some seqNum else none)

/-- Where the rules decide as the code does: a hole is lost, or the first one counts as lost because
of the product that does not fit into 32 bits and there is no room for new data, or it does not and
the subtraction from the window does not pass for room. -/
def Decided (state : TcpStateVariables) (q : TcpSackRexmitQueue) (sendQueue : TcpSendQueue) : Prop :=
  let m := q.byteMap
  let highRxt := q.getHighestRexmittedSeqNum
  let amount := state.dupthresh.toNat * state.snd_mss.toNat
  let firstLost := ∃ s, m.Smallest (m.Hole highRxt) s ∧
    m.IsLost state.dupthresh.toNat state.lostAmount s
  (∃ s, m.LostHole state.dupthresh.toNat amount highRxt s) ∨
    firstLost ∧ ¬state.HasRoom sendQueue ∨
    ¬firstLost ∧ (state.windowAllows sendQueue = true → state.HasRoom sendQueue)

theorem nextSeg_iff (state : TcpStateVariables) (q : TcpSackRexmitQueue)
    (sendQueue : TcpSendQueue) (enabled : state.sack_enabled = true) (covers : state.Covers q)
    (rounds : Nat) (enough : fwd state.snd_una state.snd_max < rounds) :
    state.ByRules q sendQueue rounds ↔ state.Decided q sendQueue := by
  have refines := covers.refines
  have ends : q.byteMap.end_ = state.snd_max := covers.ends
  have last := refines.answers.highestSacked
  have start := refines.answers.highestRexmitted.le refines.bounded_rexmitted
  obtain ⟨seqNum, returned, computed, choice⟩ := nextSeg_eq covers enabled sendQueue enough
  have firsts := refines.firstHole_eq_some_iff last start
  have same : state.ByRules q sendQueue rounds ↔
      q.byteMap.NextSeg state.dupthresh.toNat (state.dupthresh.toNat * state.snd_mss.toNat)
        q.getHighestRexmittedSeqNum (state.HasRoom sendQueue)
        (if returned then some seqNum else none) := by
    constructor
    · rintro ⟨after, seqNum', returned', computed', -, next⟩
      cases computed.symm.trans computed'
      exact next
    · exact fun next => ⟨_, seqNum, returned, computed, refines.answers.highestRexmitted, next⟩
  have first_lost (amount : Nat) : (∃ s, q.byteMap.firstHole q.getHighestSackedSeqNum
        q.getHighestRexmittedSeqNum = some s ∧
          decide (q.byteMap.IsLost state.dupthresh.toNat amount s) = true) ↔
      ∃ s, q.byteMap.Smallest (q.byteMap.Hole q.getHighestRexmittedSeqNum) s ∧
        q.byteMap.IsLost state.dupthresh.toNat amount s := by
    simp only [firsts, decide_eq_true_eq]
  rw [same, refines.nextSeg_chosen_iff last start, choice, ends, chosen_eq_iff]
  · unfold Decided
    dsimp only
    rw [first_lost, first_lost, refines.exists_lostHole_iff last start, decide_eq_false_iff_not,
      decide_eq_true_eq]
  · rw [← ends]
    exact refines.firstHole_ne_end last start
  · intro s lost
    exact decide_eq_true ((of_decide_eq_true lost).imp_right (Nat.le_trans state.lostAmount_le))
  · exact fun room => (of_decide_eq_true room).windowAllows

/-- Three segments of which the second is sacked, and none was sent again. -/
def holeQueue : TcpSackRexmitQueue where
  rexmitQueue := [⟨4294967286, 0, false, false⟩, ⟨0, 10, true, false⟩, ⟨10, 20, false, false⟩]
  begin_ := 4294967286
  end_ := 20

/-- With one run as the threshold, the first segment is a lost hole. -/
theorem hole_by_rules : (wrappingState 1).ByRules holeQueue ⟨4294967286, 120⟩ 31 := by
  have covers : (wrappingState 1).Covers holeQueue := ⟨by decide, by decide, rfl, rfl⟩
  refine (nextSeg_iff (wrappingState 1) holeQueue ⟨4294967286, 120⟩ rfl covers 31 (by decide)).mpr ?_
  exact .inl ⟨4294967286, ⟨by decide +kernel, by decide, 0, by decide, by decide⟩,
    .inl (by decide +kernel)⟩

/-- The window has become smaller than what is outstanding. -/
def shrunkState : TcpStateVariables := { wrappingState 3 with snd_wnd := 25, pipe := 30 }

/-- New data is sent beyond the window. -/
theorem not_by_rules : ¬∀ (state : TcpStateVariables) (q : TcpSackRexmitQueue)
    (sendQueue : TcpSendQueue), state.sack_enabled = true → state.Covers q →
      ∀ rounds, fwd state.snd_una state.snd_max < rounds → state.ByRules q sendQueue rounds := by
  intro all
  obtain ⟨after, seqNum, returned, computed, -, next⟩ := all shrunkState wrappingQueue
    ⟨4294967286, 120⟩ rfl ⟨by decide, by decide, rfl, rfl⟩ 31 (by decide)
  have sent : shrunkState.nextSeg wrappingQueue ⟨4294967286, 120⟩ 31 =
      .ok ({ shrunkState with highRxt := 0 }, 20, true) := by decide +kernel
  cases computed.symm.trans sent
  -- what is sent is behind all that was sent, which only rule (2) allows
  have full : ¬shrunkState.HasRoom ⟨4294967286, 120⟩ := by decide
  have unsent : (20 : SeqNum) ∉ wrappingQueue.byteMap.bytes 0 := by decide +kernel
  rcases next with ⟨lost, -⟩ | ⟨-, ⟨room, -⟩ | ⟨-, hole, -⟩⟩
  · exact unsent lost.1.sent
  · exact full room
  · exact unsent hole.sent

end TcpStateVariables
end Inet.Tcp
