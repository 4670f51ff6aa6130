import Inet.Sctp.GapListKinds

/-!
# Abandoned messages

A FORWARD-TSN chunk tells a receiver up to which TSN it shall not wait any more, and which messages
are abandoned. The receiver forwards its gap lists, and the numbers that its streams expect.
Notifications of the application and the number of bytes in the receive buffer are left out.
-/
namespace Inet.Sctp.ForwardTsn

/-- A stream sequence number. -/
abbrev Ssn := BitVec 16

def ssnGt (a b : Ssn) : Bool :=
  (decide (a < b) && decide (2 ^ 15 < (b - a).toNat)) ||
    (decide (b < a) && decide ((a - b).toNat < 2 ^ 15))

/-- What the receiver reads of a chunk. -/
structure SctpDataVariables where
  ssn : Ssn
  bbit : Bool
  ebit : Bool
deriving DecidableEq

/-- Chunks by their TSNs, in the order of a `std::map`. -/
structure SctpQueue where
  payloadQueue : List (Tsn × SctpDataVariables)
  ordered : payloadQueue.Pairwise fun a b => a.1 < b.1
deriving DecidableEq

namespace SctpQueue

variable (queue : SctpQueue)

/-- The code looks for the first chunk of a queue that is not empty. -/
def getFirstSsnInQueue : Option Ssn := queue.payloadQueue.head?.map fun entry => entry.2.ssn

/-- The entry is a message with the number. -/
def isMessage (ssn : Ssn) (entry : Tsn × SctpDataVariables) : Bool :=
  entry.2.ssn == ssn && entry.2.bbit && entry.2.ebit

def dequeueChunkBySSN (ssn : Ssn) : Option (SctpDataVariables × SctpQueue) :=
  (queue.payloadQueue.find? (isMessage ssn)).map fun entry =>
    (entry.2, ⟨queue.payloadQueue.eraseP (isMessage ssn), queue.ordered.sublist List.eraseP_sublist⟩)

end SctpQueue

/-- A stream expects a number with 16 bits, which it keeps as an `int32_t`. -/
structure SctpReceiveStream where
  expectedStreamSeqNum : Int
  orderedQ : SctpQueue
  inRange : 0 ≤ expectedStreamSeqNum ∧ expectedStreamSeqNum ≤ 65535
deriving DecidableEq

namespace SctpReceiveStream

variable (stream : SctpReceiveStream)

def getExpectedStreamSeqNum : Ssn := BitVec.ofInt 16 stream.expectedStreamSeqNum

/-- The number that is set for an abandoned message. The chunk carries a `short`. -/
def skipped (ssn : Ssn) : Int :=
  match stream.orderedQ.getFirstSsnInQueue with
  | some first => first.toNat
  | none =>
    if stream.expectedStreamSeqNum ≤ ssn.toInt then ssn.toInt + 1
    else stream.expectedStreamSeqNum

theorem skipped_inRange (ssn : Ssn) : 0 ≤ stream.skipped ssn ∧ stream.skipped ssn ≤ 65535 := by
  have range := stream.inRange
  rw [skipped]
  split
  next first _ =>
    have := first.isLt
    omega
  · have := @BitVec.toInt_lt 16 ssn
    split <;> omega

/-- The stream skips an abandoned message. -/
def skip (ssn : Ssn) : SctpReceiveStream where
  expectedStreamSeqNum := if stream.skipped ssn > 65535 then 0 else stream.skipped ssn
  orderedQ := stream.orderedQ
  inRange := by
    have := stream.skipped_inRange ssn
    split <;> omega

end SctpReceiveStream

/-- What a FORWARD-TSN chunk changes. -/
structure SctpAssociation where
  gapList : SctpGapList
  receiveStreams : BitVec 16 → Option SctpReceiveStream

/-- The arrays of streams and numbers have the same size. -/
structure SctpForwardTsnChunk where
  newCumTsn : Tsn
  entries : List (BitVec 16 × Ssn)

/-- A message that the sender gives up. It has a number if its stream delivers it in order. -/
structure AbandonedMessage where
  sid : BitVec 16
  ssn : Option Ssn
deriving DecidableEq

/-- The number is set to -1 in case of unordered delivery. -/
def AbandonedMessage.entry (message : AbandonedMessage) : BitVec 16 × Ssn :=
  (message.sid, message.ssn.getD (-1))

def forwardTsnChunk (newCumTsn : Tsn) (abandoned : List AbandonedMessage) : SctpForwardTsnChunk where
  newCumTsn := newCumTsn
  entries := abandoned.map AbandonedMessage.entry

inductive ForwardError where
  | gap (error : GapError)
  | noStream
  | outOfRounds
deriving DecidableEq

/-- The loop over the streams of the chunk. A stream that does not exist is not looked for. -/
def skipEntries : List (BitVec 16 × Ssn) → (streams : BitVec 16 → Option SctpReceiveStream) →
    Except ForwardError (BitVec 16 → Option SctpReceiveStream)
  | [], streams => .ok streams
  | (sid, ssn) :: rest, streams =>
    if ssn.toInt ≠ -1 then
      match streams sid with
      | some stream =>
        skipEntries rest fun other => if other = sid then some (stream.skip ssn) else streams other
      | none => .error .noStream
    else skipEntries rest streams

/-- A TSN is put into the gap lists, unless it is in there or not greater than the cumulative one. -/
def forwardRound (i : Tsn) (list : SctpGapList) : Except GapError SctpGapList :=
  if i > list.CumAckTsn then do
    let known ← list.tsnInGapList i
    if known then return list
    else
      let updated ← list.updateGapList i false
      let (list, _) ← updated.list.tryToAdvanceCumAckTsn
      return list
  else .ok list

/-- The loop over the TSNs, with a number of rounds that it does not get beyond. -/
def forwardLoop (newCumTsn : Tsn) : (rounds : Nat) → (i : Tsn) → (list : SctpGapList) →
    Except ForwardError SctpGapList
  | 0, _, _ => .error .outOfRounds
  | rounds + 1, i, list =>
    if i ≤ newCumTsn then do
      let list ← (forwardRound i list).mapError .gap
      forwardLoop newCumTsn rounds (i + 1) list
    else .ok list

def processForwardTsnArrived (rounds : Nat) (fwChunk : SctpForwardTsnChunk)
    (assoc : SctpAssociation) : Except ForwardError SctpAssociation :=
  if assoc.gapList.CumAckTsn ≥ fwChunk.newCumTsn then .ok assoc
  else do
    let streams ← skipEntries fwChunk.entries assoc.receiveStreams
    let gapList ← forwardLoop fwChunk.newCumTsn rounds (assoc.gapList.CumAckTsn + 1) assoc.gapList
    return ⟨gapList, streams⟩

end Inet.Sctp.ForwardTsn

/-!
## Safety of FORWARD-TSN chunks

The loop over the TSNs forwards the gap lists as it should, as long as it does not wrap around. The
numbers that the streams expect go where they should only under a condition on the first entry of
each queue, or on the distances of the numbers.
-/
namespace Inet.Sctp.ForwardTsn

open Lib SpanList

/-! ### Forwarding the gap lists -/

/-- From one chunk number to another one the TSNs do not wrap around. -/
structure Ahead (cum newCum : Nat) : Prop where
  beyond : cum < newCum
  near : newCum < cum + 2 ^ 31
  unwrapped : cum % 2 ^ 32 + (newCum - cum) < 2 ^ 32 - 1

/-- The gap lists were forwarded. The combined one keeps what is behind the cumulative TSN. -/
structure Forwarded (before kinds : GapKinds) (list : SctpGapList) : Prop where
  represents : RepresentsKinds list kinds
  contained : Contained kinds
  more : before.cum ≤ kinds.cum
  near : kinds.cum < before.cum + 2 ^ 31
  held : ∀ n, Holds kinds.combined n ↔ kinds.cum < n ∧ Holds before.combined n

variable {before kinds : GapKinds} {list : SctpGapList} {newCum p : Nat}

theorem Ahead.toNat_tsn (ahead : Ahead before.cum newCum) (from_ : before.cum ≤ p)
    (upTo : p ≤ newCum + 1) : (tsn p).toNat = before.cum % 2 ^ 32 + (p - before.cum) := by
  have := ahead.unwrapped
  have := ahead.beyond
  rw [Sctp.toNat_tsn]
  omega

theorem forwardRound_ok (contained : Contained before) (ahead : Ahead before.cum newCum)
    (forwarded : Forwarded before kinds list) (from_ : before.cum < p) (upTo : p ≤ newCum)
    (reached : p ≤ kinds.cum + 1) :
    ∃ next nextKinds, forwardRound (tsn p) list = .ok next ∧ Forwarded before nextKinds next ∧
      p ≤ nextKinds.cum := by
  obtain ⟨represents, sound, more, near, held⟩ := forwarded
  have close : Near kinds.cum p := ⟨by omega, by omega⟩
  have outside : ¬ Holds kinds.combined p := fun inside => by
    have := (sound.combined.holds_beyond inside).1
    omega
  have unknown : list.tsnInGapList (tsn p) = .ok false := by
    rw [SctpGapList.tsnInGapList, tsnInGapList_ok represents.combined sound.combined close.inReach]
    simp [outside]
  rw [forwardRound, unknown]
  rcases Nat.lt_or_eq_of_le reached with behind | rfl
  · -- the cumulative TSN is there already, and nothing changes even if its TSN wrapped around
    refine ⟨list, kinds, ?_, ⟨represents, sound, more, near, held⟩, by omega⟩
    split
    · simp only [ok_bind, Bool.false_eq_true, if_false,
        represents.updateBehind close (Nat.le_of_lt_succ behind), represents.tryToAdvance
        sound.combined]
      rfl
    · rfl
  · have here := ahead.toNat_tsn more (by omega)
    have next := ahead.toNat_tsn (p := kinds.cum + 1) (by omega) (by omega)
    have afterNext := ahead.toNat_tsn (p := kinds.cum + 2) (by omega) (by omega)
    have greater : tsn (kinds.cum + 1) > list.CumAckTsn := by
      rw [represents.cum, gt_iff_lt, BitVec.lt_def]
      omega
    have nonzero : tsn (kinds.cum + 2) ≠ 0 := fun zero => by
      have : (tsn (kinds.cum + 2)).toNat = 0 := by rw [zero]; rfl
      omega
    obtain ⟨updated, updatedOk, follows⟩ := represents.updateNext sound false
      (update_next represents.nonRevokable sound.nonRevokable nonzero)
      (update_next represents.combined sound.combined nonzero)
    obtain ⟨further, nextSound, _, _, combinedHeld, covered⟩ :=
      sound.updateNext represents false rfl
    rw [if_pos greater]
    simp only [ok_bind, Bool.false_eq_true, if_false, updatedOk,
      follows.tryToAdvance nextSound.combined]
    refine ⟨_, _, rfl, ⟨follows, nextSound, by omega, ?_, fun n => ?_⟩, further⟩
    · rcases covered _ (Nat.le_refl _) with low | old
      · have := ahead.near
        omega
      · exact (contained.combined.holds_beyond ((held _).mp old).2).2
    · rw [combinedHeld, held]
      constructor
      · rintro ⟨beyond, _, old⟩
        exact ⟨beyond, old⟩
      · rintro ⟨beyond, old⟩
        exact ⟨beyond, by omega, old⟩

/-- The loop reaches the new cumulative TSN. -/
theorem forwardLoop_ok (contained : Contained before) (ahead : Ahead before.cum newCum)
    (rounds : Nat) (forwarded : Forwarded before kinds list) (from_ : before.cum < p)
    (upTo : p ≤ newCum + 1) (reached : p ≤ kinds.cum + 1) (enough : newCum + 1 < p + rounds) :
    ∃ next nextKinds, forwardLoop (tsn newCum) rounds (tsn p) list = .ok next ∧
      Forwarded before nextKinds next ∧ newCum ≤ nextKinds.cum := by
  induction rounds generalizing kinds list p with
  | zero => omega
  | succ rounds ih =>
    have here := ahead.toNat_tsn (Nat.le_of_lt from_) upTo
    have last := ahead.toNat_tsn (p := newCum) (Nat.le_of_lt ahead.beyond) (Nat.le_succ _)
    rw [forwardLoop]
    by_cases more : p ≤ newCum
    · obtain ⟨next, nextKinds, roundOk, forwarded, reached⟩ :=
        forwardRound_ok contained ahead forwarded from_ more reached
      rw [if_pos (by rw [BitVec.le_def]; omega), roundOk, Except.mapError, ok_bind, tsn_succ]
      exact ih forwarded (by omega) (by omega) (by omega) (by omega)
    · rw [if_neg (by rw [BitVec.le_def]; omega)]
      exact ⟨list, kinds, rfl, forwarded, by omega⟩

/-- No TSN is greater than the greatest one, and the loop does not end. -/
theorem forwardLoop_endless (rounds : Nat) (i : Tsn) (list next : SctpGapList) :
    forwardLoop (BitVec.allOnes 32) rounds i list ≠ .ok next := by
  induction rounds generalizing i list with
  | zero => exact nofun
  | succ rounds ih =>
    rw [forwardLoop, if_pos (BitVec.le_def.mpr (by
      have := i.isLt
      rw [BitVec.toNat_allOnes]
      omega))]
    intro returned
    obtain ⟨_, _, returned⟩ := bind_eq_ok.mp returned
    exact ih _ _ returned

/-! ### TSNs of the gap lists -/

/-- The checks of the three lists succeed, no list reaches further than half of the sequence space,
and the combined list has what the others have. -/
def Consistent (list : SctpGapList) : Prop :=
  ∃ kinds, RepresentsKinds list kinds ∧ Contained kinds

theorem consistent_of_reached {initial : Nat} {fixed passed : Set Nat}
    (reached : KindsReached initial list kinds fixed passed) : Consistent list :=
  ⟨kinds, reached.parted.1, reached.parted.2.contained⟩

def InGapLists (list : SctpGapList) (t : Tsn) : Prop :=
  list.tsnInGapList t = .ok true ∨ list.tsnIsRevokable t = .ok true ∨
    list.tsnIsNonRevokable t = .ok true

/-- A SACK acknowledges the TSN. -/
def Acknowledged (list : SctpGapList) (t : Tsn) : Prop :=
  tsnLe t list.CumAckTsn = true ∨ list.tsnInGapList t = .ok true

variable {t : Tsn}

theorem Forwarded.acknowledges (forwarded : Forwarded before kinds list)
    {initial : SctpGapList} (represents : RepresentsKinds initial before)
    (contained : Contained before) (known : InGapLists initial t) : Acknowledged list t := by
  obtain ⟨n, rfl, held⟩ : ∃ n, tsn n = t ∧ Holds before.combined n := by
    rcases known with found | found | found
    · exact found_holds represents.combined contained.combined found
    · obtain ⟨n, same, held⟩ := found_holds represents.revokable contained.revokable found
      exact ⟨n, same, contained.inside n (.inl held)⟩
    · obtain ⟨n, same, held⟩ := found_holds represents.nonRevokable contained.nonRevokable found
      exact ⟨n, same, contained.inside n (.inr held)⟩
  have beyond := contained.combined.holds_beyond held
  have more := forwarded.more
  have near := forwarded.near
  rw [Acknowledged, forwarded.represents.cum]
  by_cases behind : n ≤ kinds.cum
  · refine .inl ?_
    rw [tsnLe_tsn (by omega) (by omega)]
    simpa using behind
  · have inside := (forwarded.held n).mpr ⟨by omega, held⟩
    refine .inr ?_
    rw [SctpGapList.tsnInGapList, tsnInGapList_ok forwarded.represents.combined
      forwarded.contained.combined ⟨by omega, by omega⟩]
    simp [inside]

/-! ### Numbers of the streams -/

/-- The numbers of the messages of a stream that are abandoned. -/
def ssnsOf (sid : BitVec 16) (abandoned : List AbandonedMessage) : List Ssn :=
  abandoned.filterMap fun message => if message.sid = sid then message.ssn else none

/-- A message with the number waits in the queue. -/
def SctpQueue.Waits (queue : SctpQueue) (ssn : Ssn) : Prop :=
  (queue.dequeueChunkBySSN ssn).isSome = true

/-- The expected number moves only forward, past the numbers of the messages that are abandoned, and
past none of a message that waits. -/
structure MovesSafely (queue : SctpQueue) (ssns : List Ssn) (expected next : Ssn) : Prop where
  forward : next = expected ∨ ssnGt next expected = true
  past : ∀ ssn ∈ ssns, ssnGt next ssn = true
  waiting : ∀ ssn, queue.Waits ssn → ssnGt next ssn = true → ssnGt expected ssn = true

/-- If messages wait, then the first number in the queue is expected next. Otherwise the numbers are
less than half of the sequence space apart from each other and from the expected number, where those
from 2¹⁵ on are negative. -/
def SctpReceiveStream.SkipsSafely (stream : SctpReceiveStream) (ssns : List Ssn) : Prop :=
  match stream.orderedQ.getFirstSsnInQueue with
  | some first =>
    MovesSafely stream.orderedQ ssns stream.getExpectedStreamSeqNum
      (if ssns.any (· != -1) then first else stream.getExpectedStreamSeqNum)
  | none =>
    (∀ ssn ∈ ssns, ssn.toInt < stream.expectedStreamSeqNum →
      ssnGt stream.getExpectedStreamSeqNum ssn = true) ∧
    ∀ last ∈ ssns, stream.expectedStreamSeqNum ≤ last.toInt →
      ssnGt (last + 1) stream.getExpectedStreamSeqNum = true ∧
      ∀ ssn ∈ ssns, ssn.toInt ≤ last.toInt → ssnGt (last + 1) ssn = true

variable {stream : SctpReceiveStream} {ssns : List Ssn} {first : Ssn}

theorem ssnGt_ofInt (a b : Int) : ssnGt (BitVec.ofInt 16 a) (BitVec.ofInt 16 b) = true ↔
    0 < (a - b) % 65536 ∧ (a - b) % 65536 < 32768 := by
  simp only [ssnGt, Bool.or_eq_true, Bool.and_eq_true, decide_eq_true_eq, BitVec.lt_def,
    BitVec.toNat_sub, BitVec.toNat_ofInt]
  omega

theorem ssnGt_toInt (a : Int) (ssn : Ssn) : ssnGt (BitVec.ofInt 16 a) ssn = true ↔
    0 < (a - ssn.toInt) % 65536 ∧ (a - ssn.toInt) % 65536 < 32768 := by
  rw [← ssnGt_ofInt, BitVec.ofInt_toInt]

theorem ssnGt_succ (last : Ssn) (b : Int) : ssnGt (last + 1) (BitVec.ofInt 16 b) = true ↔
    0 < (last.toInt + 1 - b) % 65536 ∧ (last.toInt + 1 - b) % 65536 < 32768 := by
  rw [← ssnGt_ofInt, BitVec.ofInt_add, BitVec.ofInt_toInt]
  rfl

/-- All numbers but -1 are skipped. -/
def SctpReceiveStream.skipAll (stream : SctpReceiveStream) (ssns : List Ssn) : SctpReceiveStream :=
  (ssns.filter (· != -1)).foldl SctpReceiveStream.skip stream

theorem skip_expected (ssn : Ssn) :
    (stream.skip ssn).expectedStreamSeqNum = stream.skipped ssn := by
  have := (stream.skipped_inRange ssn).2
  exact if_neg (by omega)

theorem foldl_skip_orderedQ (ssns : List Ssn) :
    (ssns.foldl SctpReceiveStream.skip stream).orderedQ = stream.orderedQ := by
  induction ssns generalizing stream with
  | nil => rfl
  | cons ssn rest ih => exact ih

/-- The first number in the queue is expected, whichever messages are abandoned. -/
theorem foldl_skip_queued (queued : stream.orderedQ.getFirstSsnInQueue = some first)
    (ssns : List Ssn) : (ssns.foldl SctpReceiveStream.skip stream).getExpectedStreamSeqNum =
      if ssns = [] then stream.getExpectedStreamSeqNum else first := by
  induction ssns generalizing stream with
  | nil => rfl
  | cons ssn rest ih =>
    have skipped : (stream.skip ssn).getExpectedStreamSeqNum = first := by
      rw [SctpReceiveStream.getExpectedStreamSeqNum, skip_expected, SctpReceiveStream.skipped,
        queued]
      simp
    rw [List.foldl_cons, @ih (stream.skip ssn) queued, skipped, if_neg (List.cons_ne_nil _ _)]
    split <;> rfl

/-- Without a queue the expected number is the greatest one that comes after an abandoned one. -/
theorem foldl_skip_empty (none : stream.orderedQ.getFirstSsnInQueue = none) (ssns : List Ssn) :
    let next := (ssns.foldl SctpReceiveStream.skip stream).expectedStreamSeqNum
    stream.expectedStreamSeqNum ≤ next ∧ (∀ ssn ∈ ssns, ssn.toInt < next) ∧
      (next = stream.expectedStreamSeqNum ∨ ∃ last ∈ ssns, next = last.toInt + 1) := by
  induction ssns generalizing stream with
  | nil => exact ⟨Int.le_refl _, nofun, .inl rfl⟩
  | cons ssn rest ih =>
    obtain ⟨more, past, last⟩ := @ih (stream.skip ssn) none
    simp only [List.foldl_cons]
    have skipped : (stream.skip ssn).expectedStreamSeqNum =
        if stream.expectedStreamSeqNum ≤ ssn.toInt then ssn.toInt + 1
        else stream.expectedStreamSeqNum := by
      rw [skip_expected, SctpReceiveStream.skipped, none]
    rw [skipped] at more last
    refine ⟨by split at more <;> omega, fun other member => ?_, ?_⟩
    · rcases List.mem_cons.mp member with rfl | later
      · split at more <;> omega
      · exact past other later
    · rcases last with same | ⟨last, member, same⟩
      · split at same
        · exact .inr ⟨ssn, List.mem_cons_self, same⟩
        · exact .inl same
      · exact .inr ⟨last, .tail _ member, same⟩

/-- The queue is empty if it has no first entry, and then no message waits. -/
theorem not_waits {queue : SctpQueue} (none : queue.getFirstSsnInQueue = none) (ssn : Ssn) :
    ¬ queue.Waits ssn := by
  rw [SctpQueue.getFirstSsnInQueue, Option.map_eq_none_iff, List.head?_eq_none_iff] at none
  simp [SctpQueue.Waits, SctpQueue.dequeueChunkBySSN, none]

theorem skipAll_queued (queued : stream.orderedQ.getFirstSsnInQueue = some first) :
    (stream.skipAll ssns).getExpectedStreamSeqNum =
      if ssns.any (· != -1) then first else stream.getExpectedStreamSeqNum := by
  rw [SctpReceiveStream.skipAll, foldl_skip_queued queued]
  by_cases some : ssns.any (· != -1) = true
  · rw [if_pos some, if_neg]
    obtain ⟨ssn, member, other⟩ := List.any_eq_true.mp some
    exact List.ne_nil_of_mem (List.mem_filter.mpr ⟨member, other⟩)
  · rw [if_neg some, if_pos]
    rw [List.filter_eq_nil_iff]
    exact fun ssn member other => some (List.any_eq_true.mpr ⟨ssn, member, other⟩)

/-- What the stream expects in the end moves safely exactly under the condition. -/
theorem skipAll_safe_iff : MovesSafely stream.orderedQ ssns stream.getExpectedStreamSeqNum
      (stream.skipAll ssns).getExpectedStreamSeqNum ↔ stream.SkipsSafely ssns := by
  rw [SctpReceiveStream.SkipsSafely]
  cases queued : stream.orderedQ.getFirstSsnInQueue with
  | some first => rw [skipAll_queued queued]
  | none =>
    have range := stream.inRange
    have nextRange := (stream.skipAll ssns).inRange
    obtain ⟨more, past, last⟩ := foldl_skip_empty queued (ssns.filter (· != -1))
    rw [← SctpReceiveStream.skipAll] at more past last
    simp only [SctpReceiveStream.getExpectedStreamSeqNum]
    generalize (stream.skipAll ssns).expectedStreamSeqNum = next at *
    generalize stream.expectedStreamSeqNum = expected at *
    -- an abandoned number is before the next one, or it is -1
    have before (ssn : Ssn) (member : ssn ∈ ssns) : ssn.toInt < next := by
      by_cases unordered : ssn = -1
      · have : ssn.toInt = -1 := by rw [unordered]; rfl
        omega
      · exact past ssn (List.mem_filter.mpr ⟨member, by simpa using unordered⟩)
    have low (ssn : Ssn) : -32768 ≤ ssn.toInt ∧ ssn.toInt < 32768 :=
      ⟨BitVec.le_toInt ssn, BitVec.toInt_lt⟩
    constructor
    · rintro ⟨forward, past, _⟩
      have forward : next = expected ∨ 0 < (next - expected) % 65536 ∧
          (next - expected) % 65536 < 32768 := by
        rw [ssnGt_ofInt] at forward
        refine forward.imp_left fun same => ?_
        have := congrArg BitVec.toNat same
        rw [BitVec.toNat_ofInt, BitVec.toNat_ofInt] at this
        omega
      refine ⟨fun ssn member less => ?_, fun final member le => ⟨?_, fun ssn other le => ?_⟩⟩
      · have := (ssnGt_toInt _ _).mp (past ssn member)
        have := low ssn
        rw [ssnGt_toInt]
        rcases last with same | ⟨final, member, same⟩
        · omega
        · have := low final
          omega
      · have := before final member
        have := low final
        rw [ssnGt_succ]
        rcases last with same | ⟨final, member, same⟩
        · omega
        · have := low final
          omega
      · have := before final member
        have := (ssnGt_toInt _ _).mp (past ssn other)
        have := low ssn
        have := low final
        rw [← BitVec.ofInt_toInt (x := ssn), ssnGt_succ]
        rcases last with same | ⟨final, member, same⟩
        · omega
        · have := low final
          omega
    · rintro ⟨behind, ahead⟩
      rcases last with rfl | ⟨final, member, rfl⟩
      · exact ⟨.inl rfl, fun ssn member => behind ssn member (before ssn member),
          fun ssn waits => absurd waits (not_waits queued ssn)⟩
      · have succ : BitVec.ofInt 16 (final.toInt + 1) = final + 1 := by
          rw [BitVec.ofInt_add, BitVec.ofInt_toInt]
          rfl
        rw [succ]
        by_cases same : final.toInt + 1 = expected
        · subst same
          rw [succ] at behind ⊢
          exact ⟨.inl rfl, fun ssn member => behind ssn member (before ssn member),
            fun ssn waits => absurd waits (not_waits queued ssn)⟩
        · obtain ⟨forward, past⟩ := ahead final (List.mem_of_mem_filter member) (by omega)
          refine ⟨.inr forward, fun ssn other => past ssn other ?_,
            fun ssn waits => absurd waits (not_waits queued ssn)⟩
          have := before ssn other
          omega

/-- An abandoned message is skipped if it is ordered and its number is not -1. -/
theorem entry_skipped (message : AbandonedMessage) : message.entry.2.toInt ≠ -1 ↔
    ∃ ssn, message.ssn = some ssn ∧ ssn ≠ -1 := by
  have negative (ssn : Ssn) : ssn.toInt = -1 ↔ ssn = -1 := by
    rw [← BitVec.toInt_inj]
    exact Iff.rfl
  rw [AbandonedMessage.entry, ne_eq, negative]
  cases message.ssn with
  | none => simp
  | some ssn => simp

theorem ssnsOf_cons_self {message : AbandonedMessage} {rest : List AbandonedMessage} {ssn : Ssn}
    (ordered : message.ssn = some ssn) :
    ssnsOf message.sid (message :: rest) = ssn :: ssnsOf message.sid rest := by
  rw [ssnsOf, List.filterMap_cons, if_pos rfl, ordered]
  rfl

theorem ssnsOf_cons_other {message : AbandonedMessage} {rest : List AbandonedMessage}
    {sid : BitVec 16} (other : message.sid ≠ sid) :
    ssnsOf sid (message :: rest) = ssnsOf sid rest := by
  rw [ssnsOf, List.filterMap_cons, if_neg other]
  rfl

/-- The loop over the streams returns if those exist whose messages are skipped. Each stream skips
its own messages. -/
theorem skipEntries_iff (abandoned : List AbandonedMessage)
    (streams next : BitVec 16 → Option SctpReceiveStream) :
    skipEntries (abandoned.map AbandonedMessage.entry) streams = .ok next ↔
      (∀ message ∈ abandoned, ∀ ssn, message.ssn = some ssn → ssn ≠ -1 →
        (streams message.sid).isSome = true) ∧
      ∀ sid, next sid = (streams sid).map fun stream => stream.skipAll (ssnsOf sid abandoned) := by
  induction abandoned generalizing streams with
  | nil =>
    simp only [List.map_nil, skipEntries, Except.ok.injEq]
    constructor
    · rintro rfl
      refine ⟨nofun, fun sid => ?_⟩
      cases streams sid <;> rfl
    · rintro ⟨_, same⟩
      funext sid
      rw [same]
      cases streams sid <;> rfl
  | cons message rest ih =>
    rw [List.map_cons, skipEntries]
    by_cases skipped : message.entry.2.toInt ≠ -1
    · obtain ⟨ssn, ordered, other⟩ := (entry_skipped message).mp skipped
      have carried : message.entry.2 = ssn := by rw [AbandonedMessage.entry, ordered]; rfl
      rw [if_pos skipped, show message.entry.1 = message.sid from rfl]
      cases found : streams message.sid with
      | none =>
        refine ⟨nofun, fun ⟨exist, _⟩ => ?_⟩
        have := exist message List.mem_cons_self ssn ordered other
        rw [found] at this
        cases this
      | some stream =>
        simp only [ih, carried]
        -- the first message is skipped before those of the rest
        have alike (sid : BitVec 16) :
            ((if sid = message.sid then some (stream.skip ssn) else streams sid).map
                fun stream => stream.skipAll (ssnsOf sid rest)) =
              (streams sid).map fun stream => stream.skipAll (ssnsOf sid (message :: rest)) := by
          by_cases same : sid = message.sid
          · subst same
            rw [if_pos rfl, found, ssnsOf_cons_self ordered]
            simp only [Option.map_some, SctpReceiveStream.skipAll]
            rw [List.filter_cons_of_pos (by simpa using other)]
            rfl
          · rw [if_neg same, ssnsOf_cons_other (Ne.symm same)]
        have exists_ (other : AbandonedMessage) :
            (if other.sid = message.sid then some (stream.skip ssn)
              else streams other.sid).isSome = (streams other.sid).isSome := by
          by_cases same : other.sid = message.sid
          · rw [if_pos same, same, found]
            rfl
          · rw [if_neg same]
        simp only [alike, exists_, List.mem_cons, forall_eq_or_imp, found, Option.isSome_some,
          implies_true, true_and]
    · have unordered (ssn : Ssn) (ordered : message.ssn = some ssn) : ssn = -1 := by
        by_contra other
        exact skipped ((entry_skipped message).mpr ⟨ssn, ordered, other⟩)
      have same (sid : BitVec 16) (stream : SctpReceiveStream) :
          stream.skipAll (ssnsOf sid (message :: rest)) = stream.skipAll (ssnsOf sid rest) := by
        rw [ssnsOf, ssnsOf, List.filterMap_cons]
        split
        · rfl
        next ssn found =>
          split at found
          · rw [SctpReceiveStream.skipAll, List.filter_cons_of_neg (by simp [unordered ssn found])]
            rfl
          · cases found
      rw [if_neg skipped, ih]
      simp only [same, List.mem_cons, forall_eq_or_imp]
      exact and_congr_left fun _ => ⟨fun rest => ⟨fun ssn ordered other =>
        absurd (unordered ssn ordered) other, rest⟩, fun all => all.2⟩

/-! ### The whole chunk -/

/-- The cumulative TSN reaches the new one, every TSN of the gap lists stays acknowledged, and the
expected number of each stream moves safely. -/
structure Safe (newCumTsn : Tsn) (abandoned : List AbandonedMessage)
    (assoc next : SctpAssociation) : Prop where
  reaches : tsnGe next.gapList.CumAckTsn newCumTsn = true
  keeps : ∀ t, InGapLists assoc.gapList t → Acknowledged next.gapList t
  streams : ∀ sid stream, assoc.receiveStreams sid = some stream →
    ∃ nextStream, next.receiveStreams sid = some nextStream ∧
      MovesSafely nextStream.orderedQ (ssnsOf sid abandoned) stream.getExpectedStreamSeqNum
        nextStream.getExpectedStreamSeqNum

/-- Processing of the chunk terminates, and is safe. -/
def ForwardsSafely (newCumTsn : Tsn) (abandoned : List AbandonedMessage) (assoc : SctpAssociation) :
    Prop :=
  ∃ rounds next, processForwardTsnArrived rounds (forwardTsnChunk newCumTsn abandoned) assoc =
    .ok next ∧ Safe newCumTsn abandoned assoc next

theorem skipAll_orderedQ (stream : SctpReceiveStream) (ssns : List Ssn) :
    (stream.skipAll ssns).orderedQ = stream.orderedQ := foldl_skip_orderedQ _

/-- The chunks between the cumulative TSNs, if the greater one is greater as a number, too. -/
theorem exists_ahead {cum : Nat} {newCumTsn : Tsn} (ahead : tsnGt newCumTsn (tsn cum) = true)
    (greater : tsn cum < newCumTsn) (last : newCumTsn ≠ BitVec.allOnes 32) :
    ∃ newCum, newCumTsn = tsn newCum ∧ Ahead cum newCum := by
  have close := newCumTsn.isLt
  have notLast : newCumTsn.toNat ≠ 2 ^ 32 - 1 := fun same => last (by
    rw [← BitVec.toNat_inj, same]
    rfl)
  rw [BitVec.lt_def, toNat_tsn] at greater
  simp only [tsnGt, Bool.or_eq_true, Bool.and_eq_true, decide_eq_true_eq, BitVec.lt_def,
    BitVec.toNat_sub, toNat_tsn] at ahead
  refine ⟨cum + (newCumTsn.toNat - cum % 2 ^ 32), ?_, by omega, by omega, by omega⟩
  rw [← BitVec.toNat_inj, toNat_tsn]
  omega

/-- A FORWARD-TSN chunk with a new cumulative TSN ahead of the receiver's is processed safely exactly
if the TSNs do not wrap around and the new one is not the greatest one, the streams of ordered
messages exist, and each stream skips its messages safely. -/
theorem forwardsSafely_iff {assoc : SctpAssociation} {newCumTsn : Tsn}
    (abandoned : List AbandonedMessage) (consistent : Consistent assoc.gapList)
    (ahead : tsnGt newCumTsn assoc.gapList.CumAckTsn = true) :
    ForwardsSafely newCumTsn abandoned assoc ↔
      assoc.gapList.CumAckTsn < newCumTsn ∧ newCumTsn ≠ BitVec.allOnes 32 ∧
      (∀ message ∈ abandoned, ∀ ssn, message.ssn = some ssn → ssn ≠ -1 →
        (assoc.receiveStreams message.sid).isSome = true) ∧
      ∀ sid stream, assoc.receiveStreams sid = some stream →
        stream.SkipsSafely (ssnsOf sid abandoned) := by
  obtain ⟨kinds, represents, contained⟩ := consistent
  constructor
  · rintro ⟨rounds, next, processed, reaches, _, safe⟩
    rw [processForwardTsnArrived] at processed
    split at processed
    next stale =>
      -- the chunk is taken for an old one
      cases processed
      exfalso
      simp only [tsnGe, tsnGt, Bool.or_eq_true, Bool.and_eq_true, decide_eq_true_eq, beq_iff_eq,
        BitVec.lt_def, BitVec.toNat_sub, ← BitVec.toNat_inj] at ahead reaches
      have := newCumTsn.isLt
      have := assoc.gapList.CumAckTsn.isLt
      omega
    next fresh =>
      obtain ⟨streams, skipped, processed⟩ := bind_eq_ok.mp processed
      obtain ⟨gapList, forwarded, processed⟩ := bind_eq_ok.mp processed
      cases processed
      obtain ⟨exist, skipped⟩ := (skipEntries_iff abandoned _ _).mp skipped
      refine ⟨BitVec.not_le.mp fresh, ?_, exist, fun sid stream found => ?_⟩
      · intro last
        rw [show (forwardTsnChunk newCumTsn abandoned).newCumTsn = BitVec.allOnes 32 from last]
          at forwarded
        exact forwardLoop_endless _ _ _ _ forwarded
      · obtain ⟨nextStream, nextFound, moves⟩ := safe sid stream found
        have nextFound := (skipped sid).symm.trans nextFound
        rw [found] at nextFound
        cases nextFound
        rw [skipAll_orderedQ] at moves
        exact skipAll_safe_iff.mp moves
  · rintro ⟨greater, last, exist, safe⟩
    have cum := represents.cum
    rw [cum] at ahead greater
    obtain ⟨newCum, rfl, unwrapped⟩ := exists_ahead ahead greater last
    have unmoved : Forwarded kinds kinds assoc.gapList :=
      ⟨represents, contained, Nat.le_refl _, by omega, fun n =>
        ⟨fun held => ⟨by have := (contained.combined.holds_beyond held).1; omega, held⟩,
          fun held => held.2⟩⟩
    have beyond := unwrapped.beyond
    obtain ⟨gapList, nextKinds, looped, forwarded, reached⟩ :=
      forwardLoop_ok contained unwrapped (newCum + 1) unmoved
        (show kinds.cum < kinds.cum + 1 from Nat.lt_succ_self _)
        (by omega) (Nat.le_refl _) (by omega)
    have skipped := (skipEntries_iff abandoned assoc.receiveStreams _).mpr ⟨exist, fun _ => rfl⟩
    refine ⟨newCum + 1, ⟨gapList, fun sid => (assoc.receiveStreams sid).map fun stream =>
      stream.skipAll (ssnsOf sid abandoned)⟩, ?_, ?_, fun t known => ?_,
      fun sid stream found => ?_⟩
    · rw [processForwardTsnArrived, if_neg (BitVec.not_le.mpr (by rw [cum]; exact greater))]
      simp only [forwardTsnChunk, skipped, ok_bind, cum, tsn_succ, looped]
      rfl
    · have near := forwarded.near
      have := unwrapped.near
      rw [forwarded.represents.cum, tsnGe_tsn (by omega) (by omega)]
      simpa using reached
    · exact forwarded.acknowledges represents contained known
    · refine ⟨stream.skipAll (ssnsOf sid abandoned), by simp only [found, Option.map_some], ?_⟩
      rw [skipAll_orderedQ]
      exact skipAll_safe_iff.mpr (safe sid stream found)

/-- Nothing is received behind the cumulative TSN. -/
def upTo (cum : Nat) : SctpGapList := { SctpGapList.new with CumAckTsn := tsn cum }

theorem upTo_consistent (cum : Nat) : Consistent (upTo cum) := by
  have empty : Sound cum [] := ⟨spaced_nil, nofun, nofun⟩
  refine ⟨⟨cum, [], [], []⟩, ⟨rfl, .new, .new, .new⟩, empty, empty, empty, fun n held => ?_⟩
  rcases held with held | held
  · exact absurd held holds_nil
  · exact absurd held holds_nil

/-- The stream expects the message 3, and the message 5 waits. -/
def fifthWaits : SctpReceiveStream where
  expectedStreamSeqNum := 3
  orderedQ := ⟨[(14, ⟨5, true, true⟩)], List.pairwise_singleton _ _⟩
  inRange := by decide

theorem fifthWaits_waits {ssn : Ssn} (waits : fifthWaits.orderedQ.Waits ssn) : 5 = ssn := by
  simpa [fifthWaits, SctpQueue.Waits, SctpQueue.dequeueChunkBySSN, SctpQueue.isMessage] using waits

theorem fifthWaits_skipsSafely : fifthWaits.SkipsSafely [3, 4] := by
  refine skipAll_safe_iff.mp ⟨.inr (by decide), fun ssn member => ?_, fun ssn waits => ?_⟩
  · simp only [List.mem_cons, List.not_mem_nil, or_false] at member
    rcases member with rfl | rfl
    · decide
    · decide
  · obtain rfl := fifthWaits_waits waits
    exact fun past => absurd past (by decide)

/-- There is only the stream 0. -/
def waiting : SctpAssociation where
  gapList := upTo 10
  receiveStreams sid := if sid = 0 then some fifthWaits else none

/-- The messages 3 and 4 are abandoned, and an unordered one of another stream. -/
theorem forwardsSafely_waiting :
    ForwardsSafely 13 [⟨0, some 3⟩, ⟨1, none⟩, ⟨0, some 4⟩] waiting := by
  refine (forwardsSafely_iff _ (upTo_consistent 10) (by decide)).mpr
    ⟨by decide, by decide, fun message member ssn ordered _ => ?_, fun sid stream found => ?_⟩
  · simp only [List.mem_cons, List.not_mem_nil, or_false] at member
    rcases member with rfl | rfl | rfl
    · rfl
    · cases ordered
    · rfl
  · simp only [waiting] at found
    split at found
    next same =>
      cases found
      subst same
      exact fifthWaits_skipsSafely
    next => cases found

/-- The cumulative TSN is about to wrap around. -/
def wrapping : SctpAssociation where
  gapList := upTo 0xfffffff0
  receiveStreams _ := none

/-- A new cumulative TSN behind the wrap is taken for an old one. -/
theorem wrapping_ignored : Consistent wrapping.gapList ∧
    tsnGt 5 wrapping.gapList.CumAckTsn = true ∧ ¬ ForwardsSafely 5 [] wrapping := by
  refine ⟨upTo_consistent _, by decide, ?_⟩
  rintro ⟨rounds, next, processed, reaches, _⟩
  rw [processForwardTsnArrived, if_pos (by decide)] at processed
  cases processed
  exact absurd reaches (by decide)

end Inet.Sctp.ForwardTsn
