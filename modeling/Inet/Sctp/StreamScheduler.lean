import Inet.Sctp.OutboundData

/-!
# The stream schedulers of SCTP

Which stream the next data chunk is taken from. A scheduler is also asked only to see whether the next
chunk fits into a packet, which is a peek. The random schedulers and those that are aware of paths
are left out.
-/
namespace Inet.Sctp.StreamScheduler

/-- What the schedulers read of a message. -/
structure SctpDataMsg where
  byteLength : Nat
  enqueuingTime : Int

structure SctpSendStream where
  unorderedStreamQ : List SctpDataMsg := []
  streamQ : List SctpDataMsg := []

namespace SctpSendStream

def hasData (stream : SctpSendStream) : Bool :=
  decide (stream.unorderedStreamQ.length > 0) || decide (stream.streamQ.length > 0)

/-- The message that is sent next. Unordered messages come first. -/
def front (stream : SctpSendStream) : Option SctpDataMsg :=
  match stream.unorderedStreamQ, stream.streamQ with
  | msg :: _, _ => some msg
  | [], msg :: _ => some msg
  | [], [] => none

/-- The length of the message that is sent next, as an unsigned number of 32 bits. -/
def packetsize (stream : SctpSendStream) : BitVec 32 :=
  match stream.front with
  | some msg => msg.byteLength
  | none => 0

end SctpSendStream

/-- What the schedulers keep from call to call. -/
structure SctpStateVariables (outboundStreams : Nat) where
  lastStreamScheduled : Fin outboundStreams
  ssNextStream : Bool := true
  ssLastDataChunkSizeSet : Bool := false
  /-- Zero for a stream that has no entry. -/
  ssPriorityMap : Fin outboundStreams → Nat := fun _ => 0
  /-- Signed numbers of 32 bits. -/
  ssFairBandwidthMap : Fin outboundStreams → Option (BitVec 32) := fun _ => none
  streamsPending : List Nat := []
  resetOutStreams : List Nat := []
  resetPending : Bool := false

/-- There is a send stream for each identifier below the number of outbound streams. -/
structure SctpAssociation (outboundStreams : Nat) where
  sendStreams : Fin outboundStreams → SctpSendStream
  state : SctpStateVariables outboundStreams

variable {n : Nat}

/-! ### Streams in the order of a search -/

/-- The values of `testsid` in a loop with the step `testsid = (testsid + 1) % outboundStreams`. -/
def visited (last : Fin n) (first count : Nat) : List (Fin n) :=
  (List.range count).map fun i => ⟨(first + i) % n, Nat.mod_lt _ last.pos⟩

/-- The loop starts at the stream scheduled last, and ends when it is there again. -/
def streamsAfter (last : Fin n) : List (Fin n) := visited last (last + 1) n

/-- The loop starts before the first stream. -/
def streamsUpTo (last : Fin n) : List (Fin n) := visited last 0 (last + 1)

theorem mem_streamsAfter (last sid : Fin n) : sid ∈ streamsAfter last := by
  rw [streamsAfter, visited, List.mem_map]
  by_cases before : sid.val ≤ last
  · refine ⟨sid + n - (last + 1), List.mem_range.mpr (by omega), Fin.ext ?_⟩
    have around : last.val + 1 + (sid + n - (last + 1)) = sid + n := by omega
    change (last.val + 1 + (sid + n - (last + 1))) % n = sid
    rw [around, Nat.add_mod_right, Nat.mod_eq_of_lt sid.isLt]
  · refine ⟨sid - (last + 1), List.mem_range.mpr (by omega), Fin.ext ?_⟩
    have ahead : last.val + 1 + (sid - (last + 1)) = sid := by omega
    change (last.val + 1 + (sid - (last + 1))) % n = sid
    rw [ahead, Nat.mod_eq_of_lt sid.isLt]

namespace SctpAssociation

variable (assoc : SctpAssociation n)

def hasData (sid : Fin n) : Bool := (assoc.sendStreams sid).hasData

/-- The stream waits to be reset. -/
def streamIsPending (sid : Fin n) : Bool :=
  let state := assoc.state
  if state.streamsPending.length > 0 ∨ (state.resetOutStreams.length > 0 ∧ state.resetPending) then
    state.streamsPending.contains sid.val || state.resetOutStreams.contains sid.val
  else false

/-! ### Round robin -/

def mayTakeTurn (sid : Fin n) : Bool := !assoc.streamIsPending sid && assoc.hasData sid

/-- Called `streamScheduler` in the source. -/
def streamSchedulerRoundRobin (peek : Bool) : Option (Fin n) × SctpStateVariables n :=
  let state := assoc.state
  let last := state.lastStreamScheduled
  if (!state.ssLastDataChunkSizeSet || !state.ssNextStream) && assoc.hasData last then
    let state := { state with ssNextStream := true }
    (some last, if peek then state else { state with ssLastDataChunkSizeSet := false })
  else
    match (streamsAfter last).find? assoc.mayTakeTurn with
    | some sid =>
      (some sid, if peek then state else
        { state with lastStreamScheduled := sid, ssLastDataChunkSizeSet := false })
    | none => (none, state)

def streamSchedulerRoundRobinPacket (peek : Bool) : Option (Fin n) × SctpStateVariables n :=
  let state := assoc.state
  let last := state.lastStreamScheduled
  if state.ssNextStream then
    match (streamsAfter last).find? assoc.mayTakeTurn with
    | some sid =>
      (some sid, if peek then state else
        { state with lastStreamScheduled := sid, ssNextStream := false })
    | none => (none, state)
  else if assoc.hasData last then
    (some last, if peek then state else { state with ssNextStream := false })
  else (none, state)

/-! ### Priorities and times -/

/-- A stream with data is chosen if none is or if its priority is smaller. -/
def choosePriority (sid : Option (Fin n)) (testsid : Fin n) : Option (Fin n) :=
  if assoc.hasData testsid then
    match sid with
    | none => some testsid
    | some chosen =>
      if assoc.state.ssPriorityMap testsid < assoc.state.ssPriorityMap chosen then some testsid
      else some chosen
  else sid

/-- The streams that a search goes over. -/
def searched : List (Fin n) :=
  if !assoc.state.ssNextStream then streamsUpTo assoc.state.lastStreamScheduled
  else streamsAfter assoc.state.lastStreamScheduled

def streamSchedulerPriority (peek : Bool) : Option (Fin n) × SctpStateVariables n :=
  let state := assoc.state
  let last := state.lastStreamScheduled
  if (!state.ssLastDataChunkSizeSet && state.ssNextStream) && assoc.hasData last then
    (some last, state)
  else
    -- the flag is set where it was not, and the search begins at the first stream then
    let state := { state with ssNextStream := true }
    match assoc.searched.foldl assoc.choosePriority none with
    | some sid =>
      (some sid, if peek then state else
        { state with lastStreamScheduled := sid, ssLastDataChunkSizeSet := false })
    | none => (none, state)

/-- The stream and the time of the message at the front of a queue are chosen if there are none or if
the time is earlier. -/
def chooseOldest (testsid : Fin n) (queue : List SctpDataMsg) (oldest : Option (Fin n × Int)) :
    Option (Fin n × Int) :=
  match queue, oldest with
  | [], _ => oldest
  | msg :: _, none => some (testsid, msg.enqueuingTime)
  | msg :: _, some (sid, oldestEnqueuing) =>
    if oldestEnqueuing > msg.enqueuingTime then some (testsid, msg.enqueuingTime)
    else some (sid, oldestEnqueuing)

def chooseFront (oldest : Option (Fin n × Int)) (testsid : Fin n) : Option (Fin n × Int) :=
  let stream := assoc.sendStreams testsid
  chooseOldest testsid stream.streamQ (chooseOldest testsid stream.unorderedStreamQ oldest)

def streamSchedulerFCFS (peek : Bool) : Option (Fin n) × SctpStateVariables n :=
  -- the flag is set where it was not, and the search begins at the first stream then
  let state := { assoc.state with ssNextStream := true }
  match assoc.searched.foldl assoc.chooseFront none with
  | some (sid, _) => (some sid, if peek then state else { state with lastStreamScheduled := sid })
  | none => (none, state)

/-! ### Fair bandwidth -/

/-- The map of the state, which is filled first if it is empty. -/
def filledMap : Fin n → Option (BitVec 32) :=
  if ∀ sid, assoc.state.ssFairBandwidthMap sid = none then fun _ => some (-1)
  else assoc.state.ssFairBandwidthMap

/-- What `map[sid]` is, which is made where there is no entry. -/
def entry (sid : Fin n) : BitVec 32 := (assoc.filledMap sid).getD 0

/-- The entry of a stream after its round in the loop over the streams. -/
def updatedEntry (sid : Fin n) : BitVec 32 :=
  let state := assoc.state
  let packetsize := (assoc.sendStreams sid).packetsize
  if assoc.hasData sid then
    -- this stream is new to the map, so add it
    if (assoc.entry sid).toInt < 0 then if packetsize > 0 then packetsize else assoc.entry sid
    else if state.ssLastDataChunkSizeSet then
      -- subtract the size of the last scheduled chunk
      let rest := assoc.entry sid - assoc.entry state.lastStreamScheduled
      let rest := if rest.toInt < 0 then 0 else rest
      if sid = state.lastStreamScheduled then rest + packetsize else rest
    else assoc.entry sid
  -- there is no data in this stream, so delete it from the map
  else -1

/-- The first of the smallest entries that are not negative. -/
def chooseSmallest (sid : Option (Fin n)) (testsid : Fin n) : Option (Fin n) :=
  match sid with
  | none => if 0 ≤ (assoc.updatedEntry testsid).toInt then some testsid else none
  | some chosen =>
    if assoc.updatedEntry testsid < assoc.updatedEntry chosen ∧
        0 ≤ (assoc.updatedEntry testsid).toInt then some testsid
    else some chosen

def streamSchedulerFairBandwidthPacket (peek : Bool) : Option (Fin n) × SctpStateVariables n :=
  let last := assoc.state.lastStreamScheduled
  let state := if peek then { assoc.state with ssFairBandwidthMap := assoc.filledMap }
    else { assoc.state with
      ssFairBandwidthMap := fun sid => some (assoc.updatedEntry sid)
      ssLastDataChunkSizeSet := false }
  let sid := if state.ssNextStream then (List.finRange n).foldl assoc.chooseSmallest none
    else if assoc.hasData last then some last else none
  match sid with
  | some sid =>
    (some sid, if peek then state else
      { state with lastStreamScheduled := sid, ssNextStream := false })
  | none => (none, state)

def streamSchedulerFairBandwidth (peek : Bool) : Option (Fin n) × SctpStateVariables n :=
  { assoc with state := { assoc.state with ssNextStream := true }
    }.streamSchedulerFairBandwidthPacket peek

end SctpAssociation

/-- The schedulers that no random number decides. -/
inductive SctpStreamSchedulers
  | ROUND_ROBIN | ROUND_ROBIN_PACKET | FAIR_BANDWITH | FAIR_BANDWITH_PACKET | PRIORITY | FCFS
  deriving DecidableEq

/-- The stream that the scheduler returns, if any, and the state that it leaves. -/
def ssGetNextSid (scheduler : SctpStreamSchedulers) (assoc : SctpAssociation n) (peek : Bool) :
    Option (Fin n) × SctpStateVariables n :=
  match scheduler with
  | .ROUND_ROBIN => assoc.streamSchedulerRoundRobin peek
  | .ROUND_ROBIN_PACKET => assoc.streamSchedulerRoundRobinPacket peek
  | .FAIR_BANDWITH => assoc.streamSchedulerFairBandwidth peek
  | .FAIR_BANDWITH_PACKET => assoc.streamSchedulerFairBandwidthPacket peek
  | .PRIORITY => assoc.streamSchedulerPriority peek
  | .FCFS => assoc.streamSchedulerFCFS peek

end Inet.Sctp.StreamScheduler

/-!
## Peeking at the stream schedulers

A peek returns what the call would return that takes the chunk. It should also leave the scheduler as
it is, and streams with data should not be missed.
-/
namespace Inet.Sctp.StreamScheduler

variable {n : Nat}
variable (l : List (Fin n))

/-- What the schedulers write is the same. -/
structure SameSchedule (state next : SctpStateVariables n) : Prop where
  last : next.lastStreamScheduled = state.lastStreamScheduled
  nextStream : next.ssNextStream = state.ssNextStream
  sizeSet : next.ssLastDataChunkSizeSet = state.ssLastDataChunkSizeSet
  bandwidth : next.ssFairBandwidthMap = state.ssFairBandwidthMap

/-- The scheduler may choose the stream if it has data. The round robin schedulers pass over streams
that wait to be reset, and the schedulers for packets stay at one stream until the packet is sent,
which sets `ssNextStream`. -/
def Eligible (scheduler : SctpStreamSchedulers) (assoc : SctpAssociation n) (sid : Fin n) : Prop :=
  match scheduler with
  | .ROUND_ROBIN => assoc.streamIsPending sid = false
  | .ROUND_ROBIN_PACKET =>
    if assoc.state.ssNextStream then assoc.streamIsPending sid = false
    else sid = assoc.state.lastStreamScheduled
  | .FAIR_BANDWITH_PACKET =>
    assoc.state.ssNextStream = false → sid = assoc.state.lastStreamScheduled
  | .FAIR_BANDWITH | .PRIORITY | .FCFS => True

/-- A peek shows what the scheduler does next and has no effect. -/
structure DryRun (scheduler : SctpStreamSchedulers) (assoc : SctpAssociation n) : Prop where
  keeps : SameSchedule assoc.state (ssGetNextSid scheduler assoc true).2
  same : (ssGetNextSid scheduler assoc true).1 = (ssGetNextSid scheduler assoc false).1
  finds : (ssGetNextSid scheduler assoc false).1 = none →
    ∀ sid, Eligible scheduler assoc sid → assoc.hasData sid = false

theorem SameSchedule.refl (state : SctpStateVariables n) : SameSchedule state state :=
  ⟨rfl, rfl, rfl, rfl⟩

/-! ### Searches -/

/-- A choice that starts with the first candidate and then only changes has no result if there is no
candidate. -/
theorem foldl_eq_none {α β : Type} {choose : Option β → α → Option β} {candidate : α → Prop}
    (first : ∀ a, choose none a = none ↔ ¬candidate a) (later : ∀ b a, choose (some b) a ≠ none)
    (l : List α) : l.foldl choose none = none ↔ ∀ a ∈ l, ¬candidate a := by
  have kept : ∀ (l : List α) (b : β), l.foldl choose (some b) ≠ none := by
    intro l
    induction l with
    | nil => exact fun b => Option.some_ne_none b
    | cons a l ih =>
      intro b
      rw [List.foldl_cons]
      cases chosen : choose (some b) a with
      | none => exact absurd chosen (later b a)
      | some b' => exact ih b'
  induction l with
  | nil => exact ⟨fun _ => nofun, fun _ => rfl⟩
  | cons a l ih =>
    rw [List.foldl_cons, List.forall_mem_cons, ← first]
    cases chosen : choose none a with
    | none => exact ⟨fun none => ⟨rfl, ih.mp none⟩, fun both => ih.mpr both.2⟩
    | some b => exact ⟨fun none => absurd none (kept l b), fun both => nomatch both.1⟩

namespace SctpAssociation

variable (assoc : SctpAssociation n)

theorem foldl_choosePriority :
    l.foldl assoc.choosePriority none = none ↔ ∀ sid ∈ l, ¬assoc.hasData sid = true := by
  refine foldl_eq_none (fun sid => ?_) (fun chosen sid => ?_) l
  · unfold choosePriority
    split
    · next data => exact ⟨nofun, fun none => absurd data none⟩
    · next none => exact ⟨fun _ => none, fun _ => rfl⟩
  · unfold choosePriority
    split
    · split
      · exact Option.some_ne_none _
      · split <;> exact Option.some_ne_none _
    · exact Option.some_ne_none _

theorem chooseOldest_some (testsid : Fin n) (queue : List SctpDataMsg) (oldest : Fin n × Int) :
    chooseOldest testsid queue (some oldest) ≠ none := by
  unfold chooseOldest
  split
  · exact Option.some_ne_none _
  · next same => cases same
  · split <;> exact Option.some_ne_none _

theorem foldl_chooseFront :
    l.foldl assoc.chooseFront none = none ↔ ∀ sid ∈ l, ¬assoc.hasData sid = true := by
  refine foldl_eq_none (fun sid => ?_) (fun oldest sid => ?_) l
  · unfold chooseFront hasData SctpSendStream.hasData
    dsimp only
    cases (assoc.sendStreams sid).unorderedStreamQ with
    | nil =>
      cases (assoc.sendStreams sid).streamQ with
      | nil => exact ⟨fun _ => nofun, fun _ => rfl⟩
      | cons msg rest => exact ⟨nofun, fun none => absurd rfl none⟩
    | cons msg rest =>
      exact ⟨fun chosen => absurd chosen (chooseOldest_some sid _ _), fun none => absurd rfl none⟩
  · unfold chooseFront
    dsimp only
    cases chosen : chooseOldest sid (assoc.sendStreams sid).unorderedStreamQ (some oldest) with
    | none => exact absurd chosen (chooseOldest_some sid _ oldest)
    | some oldest => exact chooseOldest_some sid _ oldest

theorem foldl_chooseSmallest :
    l.foldl assoc.chooseSmallest none = none ↔
      ∀ sid ∈ l, ¬0 ≤ (assoc.updatedEntry sid).toInt := by
  refine foldl_eq_none (fun sid => ?_) (fun chosen sid => ?_) l
  · unfold chooseSmallest
    dsimp only
    split
    · next counts => exact ⟨nofun, fun none => absurd counts none⟩
    · next none => exact ⟨fun _ => none, fun _ => rfl⟩
  · unfold chooseSmallest
    dsimp only
    split <;> exact Option.some_ne_none _

/-- The stream has data that its entry counts: that of a new stream counts a message with a length
that is a positive number of 32 bits. -/
def Counted (sid : Fin n) : Prop :=
  assoc.hasData sid = true ∧
    if (assoc.entry sid).toInt < 0 then 0 < (assoc.sendStreams sid).packetsize.toInt
    else assoc.state.ssLastDataChunkSizeSet = true → sid = assoc.state.lastStreamScheduled →
      0 ≤ (assoc.sendStreams sid).packetsize.toInt

/-- The entries of these streams are those that are not negative. -/
theorem updatedEntry_nonneg (sid : Fin n) :
    0 ≤ (assoc.updatedEntry sid).toInt ↔ assoc.Counted sid := by
  unfold updatedEntry Counted
  by_cases data : assoc.hasData sid = true
  · rw [if_pos data, and_iff_right data]
    dsimp only
    by_cases new : (assoc.entry sid).toInt < 0
    · rw [if_pos new, if_pos new]
      by_cases zero : (assoc.sendStreams sid).packetsize = 0
      · rw [zero, if_neg (by decide), iff_false_left new.not_ge]
        decide
      · have some : (assoc.sendStreams sid).packetsize > 0 :=
          (BitVec.pos_iff_ne_zero _).mpr zero
        rw [if_pos some]
        have positive : (assoc.sendStreams sid).packetsize.toInt ≠ 0 := fun same =>
          zero (BitVec.eq_of_toInt_eq same)
        omega
    · rw [if_neg new, if_neg new]
      by_cases sizeSet : assoc.state.ssLastDataChunkSizeSet = true
      · rw [if_pos sizeSet]
        by_cases last : sid = assoc.state.lastStreamScheduled
        · -- its own entry is subtracted, and only the new message counts
          rw [if_pos last, ← last, BitVec.sub_self, if_neg (by decide), BitVec.zero_add]
          exact ⟨fun counts _ _ => counts, fun counts => counts sizeSet rfl⟩
        · rw [if_neg last]
          refine iff_of_true ?_ fun _ same => absurd same last
          split
          · decide
          · next large => exact not_lt.mp large
      · rw [if_neg sizeSet]
        exact iff_of_true (not_lt.mp new) fun set => absurd set sizeSet
  · rw [if_neg data]
    exact iff_of_false (by decide) fun counted => data counted.1

end SctpAssociation

/-! ### What each scheduler does -/

/-- When a peek is a dry run. Where the flag `ssNextStream` is not set, it is set by a peek, too, and
the search does not go beyond the stream that was scheduled last. A map that is empty is filled by a
peek. A stream whose message is empty is not found at a fair bandwidth. -/
def Safe (scheduler : SctpStreamSchedulers) (assoc : SctpAssociation n) : Prop :=
  let state := assoc.state
  let filled := ∃ sid, state.ssFairBandwidthMap sid ≠ none
  let counted := (∃ sid, assoc.hasData sid = true) → ∃ sid, assoc.Counted sid
  match scheduler with
  | .ROUND_ROBIN =>
    state.ssNextStream = true ∨ assoc.hasData state.lastStreamScheduled = false
  | .ROUND_ROBIN_PACKET => True
  | .PRIORITY | .FCFS => state.ssNextStream = true
  | .FAIR_BANDWITH => state.ssNextStream = true ∧ filled ∧ counted
  | .FAIR_BANDWITH_PACKET => filled ∧ (state.ssNextStream = true → counted)

section
variable (assoc : SctpAssociation n)

theorem find_mayTakeTurn (none : (streamsAfter assoc.state.lastStreamScheduled).find?
      assoc.mayTakeTurn = none) {sid : Fin n} (eligible : assoc.streamIsPending sid = false) :
    assoc.hasData sid = false := by
  have fails := List.find?_eq_none.mp none sid (mem_streamsAfter _ sid)
  rw [SctpAssociation.mayTakeTurn, eligible] at fails
  simpa using fails

theorem fairBandwidthPacket_sid (peek : Bool) :
    (assoc.streamSchedulerFairBandwidthPacket peek).1 =
      if assoc.state.ssNextStream then (List.finRange n).foldl assoc.chooseSmallest none
      else if assoc.hasData assoc.state.lastStreamScheduled then
        some assoc.state.lastStreamScheduled
      else none := by
  cases peek with
  | true =>
    dsimp only [SctpAssociation.streamSchedulerFairBandwidthPacket]
    split
    · next found => exact found.symm
    · next none => exact none.symm
  | false =>
    dsimp only [SctpAssociation.streamSchedulerFairBandwidthPacket]
    split
    · next found => exact found.symm
    · next none => exact none.symm

/-- A peek returns what the other call returns. -/
theorem ssGetNextSid_same (scheduler : SctpStreamSchedulers) :
    (ssGetNextSid scheduler assoc true).1 = (ssGetNextSid scheduler assoc false).1 := by
  cases scheduler with
  | ROUND_ROBIN =>
    dsimp only [ssGetNextSid, SctpAssociation.streamSchedulerRoundRobin]
    split
    · rfl
    · split <;> rfl
  | ROUND_ROBIN_PACKET =>
    dsimp only [ssGetNextSid, SctpAssociation.streamSchedulerRoundRobinPacket]
    split
    · split <;> rfl
    · split <;> rfl
  | FAIR_BANDWITH =>
    exact (fairBandwidthPacket_sid _ true).trans (fairBandwidthPacket_sid _ false).symm
  | FAIR_BANDWITH_PACKET =>
    exact (fairBandwidthPacket_sid _ true).trans (fairBandwidthPacket_sid _ false).symm
  | PRIORITY =>
    dsimp only [ssGetNextSid, SctpAssociation.streamSchedulerPriority]
    split
    · rfl
    · split <;> rfl
  | FCFS =>
    dsimp only [ssGetNextSid, SctpAssociation.streamSchedulerFCFS]
    split <;> rfl

/-! ### Round robin -/

theorem roundRobin_keeps :
    SameSchedule assoc.state (assoc.streamSchedulerRoundRobin true).2 ↔
      assoc.state.ssNextStream = true ∨
        assoc.hasData assoc.state.lastStreamScheduled = false := by
  dsimp only [SctpAssociation.streamSchedulerRoundRobin]
  split
  · next again =>
    have data := (Bool.and_eq_true _ _ ▸ again).2
    rw [or_iff_left (Bool.not_eq_false _ ▸ data)]
    refine ⟨fun same => same.nextStream.symm, fun next => ⟨rfl, ?_, rfl, rfl⟩⟩
    exact next.symm
  · next other =>
    have unchanged : SameSchedule assoc.state assoc.state := .refl _
    refine iff_of_true (by split <;> exact unchanged) ?_
    by_contra neither
    rw [not_or, Bool.not_eq_true, Bool.not_eq_false] at neither
    rw [neither.1, neither.2] at other
    simp at other

theorem roundRobin_finds (none : (assoc.streamSchedulerRoundRobin false).1 = none) {sid : Fin n}
    (eligible : assoc.streamIsPending sid = false) : assoc.hasData sid = false := by
  dsimp only [SctpAssociation.streamSchedulerRoundRobin] at none
  split at none
  · cases none
  · split at none
    · cases none
    · next fails => exact find_mayTakeTurn assoc fails eligible

theorem roundRobinPacket_keeps :
    SameSchedule assoc.state (assoc.streamSchedulerRoundRobinPacket true).2 := by
  have unchanged : SameSchedule assoc.state assoc.state := .refl _
  dsimp only [SctpAssociation.streamSchedulerRoundRobinPacket]
  split
  · split <;> exact unchanged
  · split <;> exact unchanged

theorem roundRobinPacket_finds (none : (assoc.streamSchedulerRoundRobinPacket false).1 = none)
    {sid : Fin n} (eligible : Eligible .ROUND_ROBIN_PACKET assoc sid) :
    assoc.hasData sid = false := by
  dsimp only [SctpAssociation.streamSchedulerRoundRobinPacket] at none
  unfold Eligible at eligible
  split at none
  · next next =>
    rw [if_pos next] at eligible
    split at none
    · cases none
    · next fails => exact find_mayTakeTurn assoc fails eligible
  · next stays =>
    rw [if_neg stays] at eligible
    split at none
    · cases none
    · next noData =>
      rw [eligible]
      exact Bool.not_eq_true _ ▸ noData

/-! ### Priorities and times -/

theorem searched_of_next (next : assoc.state.ssNextStream = true) (sid : Fin n) :
    sid ∈ assoc.searched := by
  rw [SctpAssociation.searched, next]
  exact mem_streamsAfter _ sid

theorem priority_keeps :
    SameSchedule assoc.state (assoc.streamSchedulerPriority true).2 ↔
      assoc.state.ssNextStream = true := by
  dsimp only [SctpAssociation.streamSchedulerPriority]
  split
  · next again =>
    refine iff_of_true (.refl _) ?_
    simp only [Bool.and_eq_true] at again
    exact again.1.2
  · split <;> exact ⟨fun same => same.nextStream.symm, fun next => ⟨rfl, next.symm, rfl, rfl⟩⟩

theorem priority_finds (next : assoc.state.ssNextStream = true)
    (none : (assoc.streamSchedulerPriority false).1 = none) (sid : Fin n) :
    assoc.hasData sid = false := by
  dsimp only [SctpAssociation.streamSchedulerPriority] at none
  split at none
  · cases none
  · split at none
    · cases none
    · next fails =>
      exact Bool.not_eq_true _ ▸
        (assoc.foldl_choosePriority _).mp fails sid (searched_of_next assoc next sid)

theorem fcfs_keeps :
    SameSchedule assoc.state (assoc.streamSchedulerFCFS true).2 ↔
      assoc.state.ssNextStream = true := by
  dsimp only [SctpAssociation.streamSchedulerFCFS]
  split <;> exact ⟨fun same => same.nextStream.symm, fun next => ⟨rfl, next.symm, rfl, rfl⟩⟩

theorem fcfs_finds (next : assoc.state.ssNextStream = true)
    (none : (assoc.streamSchedulerFCFS false).1 = none) (sid : Fin n) :
    assoc.hasData sid = false := by
  dsimp only [SctpAssociation.streamSchedulerFCFS] at none
  split at none
  · cases none
  · next fails =>
    exact Bool.not_eq_true _ ▸
      (assoc.foldl_chooseFront _).mp fails sid (searched_of_next assoc next sid)

/-! ### Fair bandwidth -/

theorem filledMap_eq : assoc.filledMap = assoc.state.ssFairBandwidthMap ↔
    ∃ sid, assoc.state.ssFairBandwidthMap sid ≠ none := by
  unfold SctpAssociation.filledMap
  split
  · next empty =>
    refine iff_of_false (fun same => ?_) fun ⟨sid, filled⟩ => filled (empty sid)
    have here := congrFun same assoc.state.lastStreamScheduled
    rw [empty] at here
    cases here
  · next filled =>
    rw [not_forall] at filled
    exact iff_of_true rfl filled

theorem fairBandwidthPacket_keeps :
    SameSchedule assoc.state (assoc.streamSchedulerFairBandwidthPacket true).2 ↔
      ∃ sid, assoc.state.ssFairBandwidthMap sid ≠ none := by
  rw [← filledMap_eq]
  dsimp only [SctpAssociation.streamSchedulerFairBandwidthPacket]
  split <;> exact ⟨fun same => same.bandwidth, fun same => ⟨rfl, rfl, rfl, same⟩⟩

theorem chooseSmallest_finds :
    ((List.finRange n).foldl assoc.chooseSmallest none = none →
        ∀ sid, assoc.hasData sid = false) ↔
      ((∃ sid, assoc.hasData sid = true) → ∃ sid, assoc.Counted sid) := by
  have fails : (List.finRange n).foldl assoc.chooseSmallest none = none ↔
      ¬∃ sid, assoc.Counted sid := by
    rw [assoc.foldl_chooseSmallest, not_exists]
    refine forall_congr' fun sid => ?_
    rw [assoc.updatedEntry_nonneg]
    exact ⟨fun fails => fails (List.mem_finRange sid), fun fails _ => fails⟩
  rw [fails, not_imp_comm]
  refine imp_congr_left ?_
  simp

theorem fairBandwidthPacket_finds :
    ((assoc.streamSchedulerFairBandwidthPacket false).1 = none →
        ∀ sid, Eligible .FAIR_BANDWITH_PACKET assoc sid → assoc.hasData sid = false) ↔
      (assoc.state.ssNextStream = true → (∃ sid, assoc.hasData sid = true) →
        ∃ sid, assoc.Counted sid) := by
  rw [fairBandwidthPacket_sid]
  unfold Eligible
  by_cases next : assoc.state.ssNextStream = true
  · rw [if_pos next, ← chooseSmallest_finds]
    constructor
    · exact fun finds _ none sid => finds none sid fun stays => absurd (next.symm.trans stays) nofun
    · exact fun finds none sid _ => finds next none sid
  · rw [if_neg next]
    refine iff_of_true (fun none sid eligible => ?_) fun set => absurd set next
    rw [eligible (Bool.not_eq_true _ ▸ next)]
    split at none
    · cases none
    · next noData => exact Bool.not_eq_true _ ▸ noData

/-- The other scheduler sets the flag before, also for a peek. -/
theorem fairBandwidth_keeps :
    SameSchedule assoc.state (assoc.streamSchedulerFairBandwidth true).2 ↔
      assoc.state.ssNextStream = true ∧ ∃ sid, assoc.state.ssFairBandwidthMap sid ≠ none := by
  rw [← filledMap_eq]
  dsimp only [SctpAssociation.streamSchedulerFairBandwidth,
    SctpAssociation.streamSchedulerFairBandwidthPacket]
  split <;>
    exact ⟨fun same => ⟨same.nextStream.symm, same.bandwidth⟩,
      fun both => ⟨rfl, both.1.symm, rfl, both.2⟩⟩

theorem fairBandwidth_finds :
    ((assoc.streamSchedulerFairBandwidth false).1 = none →
        ∀ sid, Eligible .FAIR_BANDWITH assoc sid → assoc.hasData sid = false) ↔
      ((∃ sid, assoc.hasData sid = true) → ∃ sid, assoc.Counted sid) := by
  rw [SctpAssociation.streamSchedulerFairBandwidth, fairBandwidthPacket_sid, if_pos rfl]
  refine Iff.trans ?_ (chooseSmallest_finds assoc)
  exact ⟨fun finds none sid => finds none sid trivial, fun finds none sid _ => finds none sid⟩

end

/-- A peek at a stream scheduler is a dry run exactly in these states. -/
theorem dryRun_iff (scheduler : SctpStreamSchedulers) (assoc : SctpAssociation n) :
    DryRun scheduler assoc ↔ Safe scheduler assoc := by
  have split : DryRun scheduler assoc ↔
      SameSchedule assoc.state (ssGetNextSid scheduler assoc true).2 ∧
        ((ssGetNextSid scheduler assoc false).1 = none →
          ∀ sid, Eligible scheduler assoc sid → assoc.hasData sid = false) :=
    ⟨fun dry => ⟨dry.keeps, dry.finds⟩,
      fun both => ⟨both.1, ssGetNextSid_same assoc scheduler, both.2⟩⟩
  rw [split]
  cases scheduler with
  | ROUND_ROBIN =>
    exact (and_iff_left (roundRobin_finds assoc)).trans (roundRobin_keeps assoc)
  | ROUND_ROBIN_PACKET =>
    exact iff_of_true ⟨roundRobinPacket_keeps assoc, roundRobinPacket_finds assoc⟩ trivial
  | FAIR_BANDWITH =>
    exact (and_congr (fairBandwidth_keeps assoc) (fairBandwidth_finds assoc)).trans and_assoc
  | FAIR_BANDWITH_PACKET =>
    exact and_congr (fairBandwidthPacket_keeps assoc) (fairBandwidthPacket_finds assoc)
  | PRIORITY =>
    refine ⟨fun both => (priority_keeps assoc).mp both.1, fun next => ?_⟩
    exact ⟨(priority_keeps assoc).mpr next, fun none sid _ => priority_finds assoc next none sid⟩
  | FCFS =>
    refine ⟨fun both => (fcfs_keeps assoc).mp both.1, fun next => ?_⟩
    exact ⟨(fcfs_keeps assoc).mpr next, fun none sid _ => fcfs_finds assoc next none sid⟩

/-- One stream with a message, before the first call. -/
def oneMessage : SctpAssociation 1 :=
  { sendStreams := fun _ => { streamQ := [{ byteLength := 100, enqueuingTime := 0 }] }
    state := { lastStreamScheduled := 0 } }

/-- The first peek fills the map for fair bandwidth. -/
theorem oneMessage_filled :
    ¬∀ (n : Nat) (scheduler : SctpStreamSchedulers) (assoc : SctpAssociation n),
      DryRun scheduler assoc := by
  intro claim
  have kept := congrFun (claim 1 .FAIR_BANDWITH_PACKET oneMessage).keeps.bandwidth 0
  have filled : (ssGetNextSid .FAIR_BANDWITH_PACKET oneMessage true).2.ssFairBandwidthMap 0 =
      some (-1) := by decide
  cases filled.symm.trans kept

end Inet.Sctp.StreamScheduler
