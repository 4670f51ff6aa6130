import Inet.Sctp.OutboundData

/-!
# The fragments of a message stay together

The data chunks that are sent are those of whole messages, one message after the other, as long as
a dequeue takes no message of another queue while a message is half sent and cuts no fragment.
-/
namespace Inet.Sctp

open Lib

/-- What a data message and a data chunk have in common. -/
structure Piece where
  sid : Nat
  ordered : Bool
  userData : List UInt8
  bbit : Bool
  ebit : Bool

def SctpDataMsg.piece (msg : SctpDataMsg) : Piece :=
  ⟨msg.sid, msg.ordered, msg.userData, msg.bBit, msg.eBit⟩

def SctpDataVariables.piece (datVar : SctpDataVariables) : Piece :=
  ⟨datVar.sid, datVar.ordered, datVar.userData, datVar.bbit, datVar.ebit⟩

/-- The pieces are those of one message, in order. -/
structure Carries (fragPoint : Nat) (message : Message) (pieces : List Piece) : Prop where
  nonempty : pieces ≠ []
  ofStream : ∀ p ∈ pieces, p.sid = message.sid ∧ p.ordered = message.ordered
  payload : (pieces.map (·.userData)).flatten = message.data
  fits : ∀ p ∈ pieces, p.userData.length ≤ fragPoint
  begins : ∀ i (inside : i < pieces.length), pieces[i].bbit = decide (i = 0)
  ends : ∀ i (inside : i < pieces.length), pieces[i].ebit = decide (i + 1 = pieces.length)

/-- The message was sent on that stream and in that mode. -/
def Message.On (sid : Nat) (ordered : Bool) (message : Message) : Bool :=
  message.sid = sid && message.ordered = ordered

@[simp] theorem Message.on_iff {sid : Nat} {ordered : Bool} {message : Message} :
    message.On sid ordered = true ↔ message.sid = sid ∧ message.ordered = ordered := by
  simp [Message.On]

/-- The SSN of a message, from the messages that were sent before it. -/
def ssnAfter (earlier : List Message) (message : Message) : Nat :=
  if message.ordered then (earlier.countP (Message.On message.sid true)) % 65536 else 0

/-- The data chunks are those of whole messages, one after the other. -/
inductive Sends (fragPoint : Nat) : List Message → List SctpDataVariables → Prop where
  | nil : Sends fragPoint [] []
  | snoc {messages sent message chunks} (earlier : Sends fragPoint messages sent)
      (carries : Carries fragPoint message (chunks.map (·.piece)))
      (ssn : ∀ c ∈ chunks, c.ssn = ssnAfter messages message) :
      Sends fragPoint (messages ++ [message]) (sent ++ chunks)

/-- The messages of each stream and mode are the first ones that were queued for it. -/
def InOrder (queued messages : List Message) : Prop :=
  ∀ sid ordered, messages.filter (Message.On sid ordered) <+:
    queued.filter (Message.On sid ordered)

/-- What was sent are whole messages and at last the first pieces of one more message. -/
structure Contiguous (fragPoint : Nat) (initialTsn : UInt32) (assoc : SctpAssociation) : Prop where
  tsn : ∀ i (inside : i < assoc.sent.length), assoc.sent[i].tsn = initialTsn + UInt32.ofNat i
  messages : ∃ whole sent, Sends fragPoint whole sent ∧
    ((assoc.sent = sent ∧ InOrder assoc.queued whole) ∨
      ∃ message half rest, assoc.sent = sent ++ half ∧ half ≠ [] ∧ rest ≠ [] ∧
        Carries fragPoint message (half.map (·.piece) ++ rest) ∧
        (∀ c ∈ half, c.ssn = ssnAfter whole message) ∧
        InOrder assoc.queued (whole ++ [message]))

variable (parameters : SctpParameters)

/-- What the application and the lower layers ask for. -/
inductive Call where
  | send (message : Message)
  | sendOnPath (scheduled : SctpAssociation.Scheduled) (availableSpace availableCwnd : Int)

def apply (assoc : SctpAssociation) : Call → Except SctpError SctpAssociation
  | .send message => assoc.process_SEND parameters message
  | .sendOnPath scheduled availableSpace availableCwnd =>
    assoc.sendOnPath parameters scheduled availableSpace availableCwnd

/-- The message fits into one chunk, or its length and padding into an `int32_t`. -/
def Small (message : Message) : Prop :=
  message.data.length ≤ parameters.fragPoint.toNat ∨
    0 < parameters.fragPoint.toNat ∧ message.data.length + 19 < 2 ^ 31

/-- The message takes more than one chunk. -/
def TakesMore (msg : SctpDataMsg) : Prop :=
  if msg.fragment then msg.eBit = false
  else parameters.fragPoint.toNat < msg.userData.length

/-- The front of the queue that the next message of a stream is taken from. -/
def SctpSendStream.Front (stream : SctpSendStream) (msg : SctpDataMsg) : Prop :=
  stream.chosenQ.head? = some msg

/-- When the next message can be dequeued. -/
structure Undisturbed (scheduled : SctpAssociation.Scheduled) (assoc : SctpAssociation) : Prop where
  /-- No fragment of several is cut once more. -/
  uncut : ∀ stream ∈ assoc.sendStreams, ∀ msg, stream.Front msg → msg.fragment = true →
    ¬ (msg.bBit = true ∧ msg.eBit = true) →
    SctpParameters.chunkBytes msg ≤ parameters.largestChunk
  /-- No unordered message waits in front of the rest of an ordered one. -/
  uninterrupted : ∀ stream ∈ assoc.sendStreams, ∀ msg, stream.streamQ.head? = some msg →
    msg.fragment = true → msg.bBit = false → stream.unorderedStreamQ = []
  /-- The scheduler remembers the stream of a message that takes more than one chunk. -/
  remembered : assoc.lastMsgWasFragment = false → ∀ sid, scheduled.nextSid = some sid →
    sid ≠ scheduled.lastStreamScheduled → ∀ stream, assoc.sendStreams[sid]? = some stream →
    ∀ msg, stream.Front msg → ¬ TakesMore parameters msg

/-- Which calls keep the pieces of messages together. -/
def Meets (assoc : SctpAssociation) : Call → Prop
  | .send message => Small parameters message
  | .sendOnPath scheduled _ _ => Undisturbed parameters scheduled assoc

inductive Reached (outStreams : Nat) (initialTsn : UInt32) : SctpAssociation → Prop where
  | init : Reached outStreams initialTsn (initStreams outStreams initialTsn)
  | step {assoc next} (earlier : Reached outStreams initialTsn assoc) (call : Call)
      (meets : Meets parameters assoc call) (returned : apply parameters assoc call = .ok next) :
      Reached outStreams initialTsn next

/-! ### Fragments -/

theorem ADD_PADDING_eq (x : Nat) : ADD_PADDING x = (x + 3) / 4 * 4 := by
  rw [ADD_PADDING, Nat.shiftLeft_eq, Nat.shiftRight_eq_div_pow]

/-- The pieces of what is left of a message: all but the first one are no first pieces, and the
last one is the last piece. -/
structure CutFrom (msg : SctpDataMsg) (first : Bool) (data : List UInt8)
    (fragments : List SctpDataMsg) : Prop where
  nonempty : fragments ≠ []
  ofMsg : ∀ f ∈ fragments, f.sid = msg.sid ∧ f.ordered = msg.ordered ∧ f.fragment = true ∧
    f.userData.length ≤ parameters.fragPoint.toNat
  payload : (fragments.map (·.userData)).flatten = data
  begins : ∀ i (inside : i < fragments.length), fragments[i].bBit = (first && decide (i = 0))
  ends : ∀ i (inside : i < fragments.length),
    fragments[i].eBit = decide (i + 1 = fragments.length)

variable {parameters}

theorem fragments_cut (positive : 0 < parameters.fragPoint.toNat) (msg : SctpDataMsg) (rounds : Nat)
    (first : Bool) (data : List UInt8) (enough : data.length < rounds) :
    CutFrom parameters msg first data (parameters.fragments msg rounds first data) := by
  induction rounds generalizing first data with
  | zero => omega
  | succ rounds ih =>
    rw [SctpParameters.fragments]
    split
    next last =>
      -- the last fragment takes all that is left
      have all : data.take (min parameters.fragPoint.toNat data.length) = data :=
        List.take_of_length_le (by omega)
      refine ⟨List.cons_ne_nil _ _, ?_, ?_, ?_, ?_⟩
      · intro f member
        obtain rfl := List.mem_singleton.mp member
        simp only [all, true_and]
        omega
      · simp [all]
      · intro i inside
        obtain rfl : i = 0 := by simpa using inside
        simp
      · intro i inside
        obtain rfl : i = 0 := by simpa using inside
        simp
    next more =>
      obtain ⟨nonempty, ofMsg, payload, begins, ends⟩ :=
        ih false (data.drop (min parameters.fragPoint.toNat data.length))
          (by rw [List.length_drop]; omega)
      refine ⟨List.cons_ne_nil _ _, ?_, ?_, ?_, ?_⟩
      · intro f member
        rcases List.mem_cons.mp member with rfl | later
        · refine ⟨rfl, rfl, rfl, ?_⟩
          rw [List.length_take]
          omega
        · exact ofMsg f later
      · rw [List.map_cons, List.flatten_cons, payload]
        exact List.take_append_drop _ _
      · intro i inside
        cases i with
        | zero => simp
        | succ i => simp [begins i (by simpa using inside)]
      · intro i inside
        cases i with
        | zero => simpa using nonempty
        | succ i => simp [ends i (by simpa using inside)]

/-- The fragments of a message are its pieces. -/
theorem CutFrom.carries {message : Message} {msg : SctpDataMsg} {fragments : List SctpDataMsg}
    (sid : msg.sid = message.sid) (ordered : msg.ordered = message.ordered)
    (cut : CutFrom parameters msg true message.data fragments) :
    Carries parameters.fragPoint.toNat message (fragments.map (·.piece)) where
  nonempty := by simpa using cut.nonempty
  ofStream := by
    intro p member
    obtain ⟨f, mine, rfl⟩ := List.mem_map.mp member
    obtain ⟨sameSid, sameMode, _⟩ := cut.ofMsg f mine
    exact ⟨sameSid.trans sid, sameMode.trans ordered⟩
  payload := by
    rw [List.map_map]
    exact cut.payload
  fits := by
    intro p member
    obtain ⟨f, mine, rfl⟩ := List.mem_map.mp member
    exact (cut.ofMsg f mine).2.2.2
  begins := by
    intro i inside
    have bit := cut.begins i (by simpa using inside)
    simpa [SctpDataMsg.piece] using bit
  ends := by
    intro i inside
    have bit := cut.ends i (by simpa using inside)
    simpa [SctpDataMsg.piece] using bit

/-- A piece that is the first and the last one is the message. -/
theorem carries_single {fragPoint : Nat} {message : Message} {p : Piece} (sid : p.sid = message.sid)
    (ordered : p.ordered = message.ordered) (payload : p.userData = message.data)
    (fits : p.userData.length ≤ fragPoint) (bbit : p.bbit = true) (ebit : p.ebit = true) :
    Carries fragPoint message [p] where
  nonempty := List.cons_ne_nil _ _
  ofStream := by simpa using ⟨sid, ordered⟩
  payload := by simpa using payload
  fits := by simpa using fits
  begins := by
    intro i inside
    obtain rfl : i = 0 := by simpa using inside
    simpa using bbit
  ends := by
    intro i inside
    obtain rfl : i = 0 := by simpa using inside
    simpa using ebit

/-- Where a piece stands in the message, from its bits. -/
theorem Carries.bits {fragPoint : Nat} {message : Message} {half rest : List Piece} {p : Piece}
    (carries : Carries fragPoint message (half ++ p :: rest)) :
    p.bbit = decide (half = []) ∧ p.ebit = decide (rest = []) := by
  have begins := carries.begins half.length (by simp)
  have ends := carries.ends half.length (by simp)
  simp only [List.getElem_append_right (Nat.le_refl _), Nat.sub_self, List.getElem_cons_zero,
    List.length_append, List.length_cons] at begins ends
  rw [begins, ends]
  refine ⟨?_, ?_⟩
  · simp
  · apply decide_eq_decide.mpr
    rw [← List.length_eq_zero_iff]
    omega

theorem fragments_single (msg : SctpDataMsg) (rounds : Nat) (first : Bool) (data : List UInt8)
    (fits : data.length ≤ parameters.fragPoint.toNat) :
    ∃ f : SctpDataMsg, parameters.fragments msg (rounds + 1) first data = [f] ∧
      f.fragment = true ∧ f.eBit = true := by
  rw [SctpParameters.fragments, if_pos (Nat.min_eq_right fits).symm]
  exact ⟨_, rfl, rfl, rfl⟩

/-- What happens to the message at the front of a queue. -/
theorem fragmentFront_cases {queue next : List SctpDataMsg}
    (returned : parameters.fragmentFront queue = .ok next) :
    (queue = [] ∧ next = []) ∨ ∃ msg rest, queue = msg :: rest ∧
      ((SctpParameters.chunkBytes msg ≤ parameters.largestChunk ∧ next = msg :: rest) ∨
        (parameters.largestChunk < SctpParameters.chunkBytes msg ∧
          0 < parameters.fragPoint.toNat ∧
          next =
            parameters.fragments msg (msg.userData.length + 1) true msg.userData ++ rest)) := by
  cases queue with
  | nil =>
    cases returned
    exact .inl ⟨rfl, rfl⟩
  | cons msg rest =>
    refine .inr ⟨msg, rest, rfl, ?_⟩
    rw [SctpParameters.fragmentFront] at returned
    split at returned
    · cases returned
    split at returned
    next large =>
      split at returned
      · cases returned
      next nonzero =>
        cases returned
        have positive : parameters.fragPoint.toNat ≠ 0 :=
          fun zero => nonzero (UInt32.toNat_inj.mp zero)
        exact .inr ⟨large, Nat.pos_of_ne_zero positive, rfl⟩
    next small =>
      cases returned
      exact .inl ⟨Int.not_lt.mp small, rfl⟩

/-- A message that stays as it is fits into one chunk. -/
theorem Small.fits {message : Message} (small : Small parameters message)
    (stays : SctpParameters.chunkBytes (parameters.dataMsg message) ≤ parameters.largestChunk) :
    message.data.length ≤ parameters.fragPoint.toNat := by
  rcases small with fits | ⟨_, small⟩
  · exact fits
  have bound := parameters.fragPoint.toNat_lt
  simp only [SctpParameters.chunkBytes, SctpParameters.largestChunk, SctpParameters.dataMsg,
    ADD_PADDING_eq, toInt32, SCTP_DATA_CHUNK_LENGTH, Int.bmod] at stays
  -- the padded length does not wrap, and neither does a fragmentation point below `2 ^ 31`
  omega

/-! ### Queues -/

/-- What waits in a queue: messages, the first of which may have been cut and sent in part. -/
inductive QueueHolds (parameters : SctpParameters) :
    List Piece → List Message → List SctpDataMsg → Prop where
  | untouched (messages : List Message) :
      QueueHolds parameters [] messages (messages.map parameters.dataMsg)
  | cut {half message} (msg : SctpDataMsg) (rest : List SctpDataMsg) (later : List Message)
      (fragments : ∀ f ∈ msg :: rest, f.fragment = true)
      (carries : Carries parameters.fragPoint.toNat message
        (half ++ (msg :: rest).map (·.piece))) :
      QueueHolds parameters half (message :: later)
        (msg :: rest ++ later.map parameters.dataMsg)

theorem QueueHolds.of_cut {message : Message} {half : List Piece} {fragments : List SctpDataMsg}
    (nonempty : fragments ≠ []) (later : List Message) (allCut : ∀ f ∈ fragments, f.fragment = true)
    (carries : Carries parameters.fragPoint.toNat message (half ++ fragments.map (·.piece))) :
    QueueHolds parameters half (message :: later)
      (fragments ++ later.map parameters.dataMsg) := by
  cases fragments with
  | nil => exact absurd rfl nonempty
  | cons msg rest => exact .cut msg rest later allCut carries

theorem QueueHolds.append {half : List Piece} {waiting : List Message} {queue : List SctpDataMsg}
    (holds : QueueHolds parameters half waiting queue) (message : Message) :
    QueueHolds parameters half (waiting ++ [message]) (queue ++ [parameters.dataMsg message]) := by
  cases holds with
  | untouched =>
    have all : QueueHolds parameters [] (waiting ++ [message]) _ := .untouched _
    rwa [List.map_append] at all
  | @cut half first msg rest later fragments carries =>
    have all := QueueHolds.cut msg rest (later ++ [message]) fragments carries
    rwa [List.map_append, ← List.append_assoc] at all

/-- Cutting the message at the front keeps what the queue holds. -/
theorem QueueHolds.fragmentFront {half : List Piece} {waiting : List Message}
    {queue next : List SctpDataMsg} (holds : QueueHolds parameters half waiting queue)
    (uncut : ∀ msg, queue.head? = some msg → msg.fragment = true →
      ¬ (msg.bBit = true ∧ msg.eBit = true) →
      SctpParameters.chunkBytes msg ≤ parameters.largestChunk)
    (returned : parameters.fragmentFront queue = .ok next) :
    QueueHolds parameters half waiting next := by
  rcases fragmentFront_cases returned with ⟨rfl, rfl⟩ | ⟨front, others, rfl, stays | cut⟩
  · exact holds
  · obtain ⟨_, rfl⟩ := stays
    exact holds
  obtain ⟨large, positive, rfl⟩ := cut
  have cut := fragments_cut positive front (front.userData.length + 1) true front.userData
    (Nat.lt_succ_self _)
  generalize parameters.fragments front (front.userData.length + 1) true front.userData = all
    at cut
  have allCut : ∀ f ∈ all, f.fragment = true := fun f member => (cut.ofMsg f member).2.2.1
  generalize same : front :: others = queue at holds
  cases holds with
  | untouched =>
    cases waiting with
    | nil => cases same
    | cons message later =>
      obtain ⟨rfl, rfl⟩ := List.cons.inj same
      exact .of_cut cut.nonempty later allCut (cut.carries rfl rfl)
  | @cut half message msg rest later fragments carries =>
    obtain ⟨rfl, rfl⟩ := List.cons.inj same
    -- only a piece that is a whole message is cut once more
    have whole : front.bBit = true ∧ front.eBit = true := by
      by_contra part
      have := uncut front rfl (fragments front List.mem_cons_self) part
      omega
    obtain ⟨bbit, ebit⟩ := carries.bits
    obtain rfl : half = [] := by simpa [SctpDataMsg.piece, whole.1] using bbit
    obtain rfl : rest = [] := by simpa [SctpDataMsg.piece, whole.2] using ebit
    obtain ⟨sid, ordered⟩ := carries.ofStream front.piece (by simp)
    have payload : front.userData = message.data := by
      simpa [SctpDataMsg.piece] using carries.payload
    rw [payload] at cut
    exact .of_cut cut.nonempty later allCut (cut.carries sid ordered)

/-- Once the front of a queue is cut, a message that is no fragment fits into one chunk. -/
theorem QueueHolds.front_fits {half : List Piece} {waiting : List Message}
    {queue next : List SctpDataMsg} (holds : QueueHolds parameters half waiting queue)
    (small : ∀ m ∈ waiting, Small parameters m)
    (returned : parameters.fragmentFront queue = .ok next) (msg : SctpDataMsg)
    (found : next.head? = some msg) (whole : msg.fragment = false) :
    msg.userData.length ≤ parameters.fragPoint.toNat := by
  rcases fragmentFront_cases returned with ⟨rfl, rfl⟩ | ⟨front, others, rfl, stays | cut⟩
  · cases found
  · obtain ⟨fits, rfl⟩ := stays
    cases found
    generalize same : msg :: others = queue at holds
    cases holds with
    | untouched =>
      cases waiting with
      | nil => cases same
      | cons message later =>
        obtain ⟨rfl, rfl⟩ := List.cons.inj same
        exact (small message List.mem_cons_self).fits fits
    | cut first rest later fragments carries =>
      obtain ⟨rfl, rfl⟩ := List.cons.inj same
      rw [fragments msg List.mem_cons_self] at whole
      cases whole
  · obtain ⟨_, positive, rfl⟩ := cut
    have cut := fragments_cut positive front (front.userData.length + 1) true front.userData
      (Nat.lt_succ_self _)
    rw [List.head?_append_of_ne_nil _ cut.nonempty] at found
    exact (cut.ofMsg msg (List.mem_of_mem_head? found)).2.2.2

/-- A fragment fits into one chunk. -/
theorem QueueHolds.fragment_fits {half : List Piece} {waiting : List Message}
    {queue : List SctpDataMsg} (holds : QueueHolds parameters half waiting queue)
    (msg : SctpDataMsg) (found : queue.head? = some msg) (fragment : msg.fragment = true) :
    msg.userData.length ≤ parameters.fragPoint.toNat := by
  cases holds with
  | untouched =>
    cases waiting with
    | nil => cases found
    | cons message later =>
      cases found
      cases fragment
  | cut first rest later fragments carries =>
    cases found
    exact carries.fits msg.piece (by simp)

/-- A message that takes one chunk still takes one once it is cut. -/
theorem takesMore_of_fragmentFront {queue next : List SctpDataMsg}
    (returned : parameters.fragmentFront queue = .ok next)
    (fits : ∀ msg, queue.head? = some msg → msg.fragment = true →
      msg.userData.length ≤ parameters.fragPoint.toNat)
    (before : ∀ msg, queue.head? = some msg → ¬ TakesMore parameters msg) (msg : SctpDataMsg)
    (found : next.head? = some msg) : ¬ TakesMore parameters msg := by
  rcases fragmentFront_cases returned with ⟨rfl, rfl⟩ | ⟨front, others, rfl, stays | cut⟩
  · cases found
  · obtain ⟨_, rfl⟩ := stays
    exact before msg found
  · obtain ⟨_, _, rfl⟩ := cut
    have whole : front.userData.length ≤ parameters.fragPoint.toNat := by
      have one := before front rfl
      rw [TakesMore] at one
      split at one
      next fragment => exact fits front rfl fragment
      next => exact Nat.not_lt.mp one
    obtain ⟨f, single, fragment, last⟩ := fragments_single front front.userData.length true
      front.userData whole
    rw [single] at found
    cases found
    simp [TakesMore, fragment, last]

/-! ### Taking a message -/

/-- A message that is taken from a queue is a whole message, or the next piece of one. -/
theorem QueueHolds.take {half : List Piece} {waiting : List Message} {msg : SctpDataMsg}
    {others : List SctpDataMsg} (holds : QueueHolds parameters half waiting (msg :: others))
    (fits : msg.fragment = false → msg.userData.length ≤ parameters.fragPoint.toNat) :
    ∃ message later rest, waiting = message :: later ∧
      Carries parameters.fragPoint.toNat message
        (half ++ (SctpAssociation.finish msg).1.piece :: rest) ∧
      (SctpAssociation.finish msg).2 = !rest.isEmpty ∧
      (rest = [] → QueueHolds parameters [] later others) ∧
      (rest ≠ [] → QueueHolds parameters (half ++ [(SctpAssociation.finish msg).1.piece])
        waiting others) := by
  generalize same : msg :: others = queue at holds
  cases holds with
  | untouched =>
    cases waiting with
    | nil => cases same
    | cons message later =>
      obtain ⟨rfl, rfl⟩ := List.cons.inj same
      refine ⟨message, later, [], rfl, ?_, rfl, fun _ => .untouched later, fun h => absurd rfl h⟩
      exact carries_single rfl rfl rfl (fits rfl) rfl rfl
  | @cut half message first rest later fragments carries =>
    obtain ⟨rfl, rfl⟩ := List.cons.inj same
    have fragment := fragments msg List.mem_cons_self
    have ebit : msg.eBit = decide (rest = []) := by
      simpa [SctpDataMsg.piece] using carries.bits.2
    have finished : SctpAssociation.finish msg = (msg, !rest.isEmpty) := by
      cases rest <;> simp_all [SctpAssociation.finish]
    rw [finished]
    refine ⟨message, later, rest.map SctpDataMsg.piece, rfl, carries, by simp, ?_, ?_⟩
    · intro none
      obtain rfl : rest = [] := by simpa using none
      exact .untouched later
    · intro some
      have nonempty : rest ≠ [] := by simpa using some
      refine .of_cut nonempty later (fun f member => fragments f (List.mem_cons_of_mem _ member)) ?_
      simpa using carries

/-! ### The association -/

/-- The queue of a mode. -/
def SctpSendStream.queue (stream : SctpSendStream) (ordered : Bool) : List SctpDataMsg :=
  if ordered then stream.streamQ else stream.unorderedStreamQ

def SctpSendStream.setQueue (stream : SctpSendStream) (ordered : Bool)
    (queue : List SctpDataMsg) : SctpSendStream :=
  if ordered then { stream with streamQ := queue } else { stream with unorderedStreamQ := queue }

theorem SctpSendStream.chosenQ_eq (stream : SctpSendStream) :
    stream.chosenQ = stream.queue stream.unorderedStreamQ.isEmpty := rfl

theorem SctpSendStream.setChosenQ_eq (stream : SctpSendStream) (queue : List SctpDataMsg) :
    stream.setChosenQ queue = stream.setQueue stream.unorderedStreamQ.isEmpty queue := rfl

@[simp] theorem SctpSendStream.queue_setQueue (stream : SctpSendStream) (ordered mode : Bool)
    (queue : List SctpDataMsg) : (stream.setQueue ordered queue).queue mode =
      if mode = ordered then queue else stream.queue mode := by
  cases ordered <;> cases mode <;> rfl

@[simp] theorem SctpSendStream.nextStreamSeqNum_setQueue (stream : SctpSendStream) (ordered : Bool)
    (queue : List SctpDataMsg) :
    (stream.setQueue ordered queue).nextStreamSeqNum = stream.nextStreamSeqNum := by
  cases ordered <;> rfl

/-- What was sent and what waits: whole messages, the chunks of them, the chunks of a message that
is half sent with its mode, and the messages that wait on each stream in each mode. -/
structure Progress where
  whole : List Message
  sent : List SctpDataVariables
  half : List SctpDataVariables
  mode : Bool
  waiting : Nat → Bool → List Message

def Progress.setWaiting (progress : Progress) (sid : Nat) (ordered : Bool)
    (messages : List Message) : Progress :=
  { progress with
    waiting := fun s o => if s = sid ∧ o = ordered then messages else progress.waiting s o }

theorem Progress.waiting_setWaiting (progress : Progress) (sid s : Nat) (ordered o : Bool)
    (messages : List Message) : (progress.setWaiting sid ordered messages).waiting s o =
      if s = sid ∧ o = ordered then messages else progress.waiting s o := rfl

/-- The pieces that were sent of the first message that waits on a stream. -/
def Progress.halfOf (progress : Progress) (assoc : SctpAssociation) (sid : Nat) (ordered : Bool) :
    List Piece :=
  if sid = assoc.lastStreamScheduled ∧ ordered = progress.mode then
    progress.half.map SctpDataVariables.piece
  else []

variable (parameters) in
structure Progress.Holds (initialTsn : UInt32) (progress : Progress) (assoc : SctpAssociation) :
    Prop where
  queues : ∀ sid stream, assoc.sendStreams[sid]? = some stream → ∀ ordered,
    QueueHolds parameters (progress.halfOf assoc sid ordered) (progress.waiting sid ordered)
      (stream.queue ordered)
  ssn : ∀ sid stream, assoc.sendStreams[sid]? = some stream →
    stream.nextStreamSeqNum = progress.whole.countP (Message.On sid true) % 65536
  order : ∀ sid ordered, assoc.queued.filter (Message.On sid ordered) =
    progress.whole.filter (Message.On sid ordered) ++ progress.waiting sid ordered
  small : ∀ m ∈ assoc.queued, Small parameters m
  sends : Sends parameters.fragPoint.toNat progress.whole progress.sent
  log : assoc.sent = progress.sent ++ progress.half
  fragment : assoc.lastMsgWasFragment = !progress.half.isEmpty
  begun : progress.half ≠ [] → assoc.lastStreamScheduled < assoc.sendStreams.length ∧
    ∀ message ∈ (progress.waiting assoc.lastStreamScheduled progress.mode).head?,
      ∀ c ∈ progress.half, c.ssn = ssnAfter progress.whole message
  tsn : ∀ i (inside : i < assoc.sent.length), assoc.sent[i].tsn = initialTsn + UInt32.ofNat i
  nextTsn : assoc.nextTsn = initialTsn + UInt32.ofNat assoc.sent.length

variable {initialTsn : UInt32} {progress : Progress} {assoc next : SctpAssociation}

namespace Progress.Holds

/-- Messages that wait on a stream were queued for it. -/
theorem waits (holds : progress.Holds parameters initialTsn assoc) {sid : Nat} {ordered : Bool}
    {message : Message} (member : message ∈ progress.waiting sid ordered) :
    message ∈ assoc.queued ∧ message.sid = sid ∧ message.ordered = ordered := by
  have queued : message ∈ assoc.queued.filter (Message.On sid ordered) := by
    rw [holds.order]
    exact List.mem_append_right _ member
  obtain ⟨queued, on⟩ := List.mem_filter.mp queued
  exact ⟨queued, Message.on_iff.mp on⟩

theorem init (outStreams : Nat) :
    Progress.Holds parameters initialTsn ⟨[], [], [], false, fun _ _ => []⟩
      (initStreams outStreams initialTsn) where
  queues := by
    intro sid stream found ordered
    obtain ⟨_, rfl⟩ : sid < outStreams ∧ ({} : SctpSendStream) = stream := by
      simpa [initStreams, List.getElem?_replicate] using found
    have half : Progress.halfOf ⟨[], [], [], false, fun _ _ => []⟩
        (initStreams outStreams initialTsn) sid ordered = [] := by simp [Progress.halfOf]
    rw [half]
    cases ordered <;> exact .untouched []
  ssn := by
    intro sid stream found
    obtain ⟨_, rfl⟩ : sid < outStreams ∧ ({} : SctpSendStream) = stream := by
      simpa [initStreams, List.getElem?_replicate] using found
    rfl
  order := fun _ _ => rfl
  small := nofun
  sends := .nil
  log := rfl
  fragment := rfl
  begun := fun begun => absurd rfl begun
  tsn := nofun
  nextTsn := by simp [initStreams]

/-- What is half sent is at the front of its queue. -/
theorem front (holds : progress.Holds parameters initialTsn assoc) (begun : progress.half ≠ []) :
    ∃ stream message later rest, assoc.sendStreams[assoc.lastStreamScheduled]? = some stream ∧
      progress.waiting assoc.lastStreamScheduled progress.mode = message :: later ∧ rest ≠ [] ∧
      Carries parameters.fragPoint.toNat message
        (progress.half.map SctpDataVariables.piece ++ rest) ∧
      ∃ front, (stream.queue progress.mode).head? = some front ∧ front.fragment = true ∧
        front.bBit = false := by
  obtain ⟨inside, _⟩ := holds.begun begun
  have queue := holds.queues _ _ (List.getElem?_eq_getElem inside) progress.mode
  rw [Progress.halfOf, if_pos ⟨rfl, rfl⟩] at queue
  generalize waits : progress.waiting assoc.lastStreamScheduled progress.mode = waiting at queue
  generalize is : assoc.sendStreams[assoc.lastStreamScheduled].queue progress.mode = msgs at queue
  generalize was : progress.half.map SctpDataVariables.piece = half at queue
  have nonempty : half ≠ [] := by
    rw [← was]
    simpa using begun
  cases queue with
  | untouched => exact absurd rfl nonempty
  | @cut half message msg rest later fragments carries =>
    refine ⟨_, message, later, (msg :: rest).map SctpDataMsg.piece,
      List.getElem?_eq_getElem inside, rfl, by simp, carries, msg, ?_,
      fragments msg List.mem_cons_self, ?_⟩
    · rw [is]
      rfl
    · simpa [SctpDataMsg.piece, nonempty] using carries.bits.1

theorem contiguous (holds : progress.Holds parameters initialTsn assoc) :
    Contiguous parameters.fragPoint.toNat initialTsn assoc where
  tsn := holds.tsn
  messages := by
    refine ⟨progress.whole, progress.sent, holds.sends, ?_⟩
    by_cases begun : progress.half = []
    · refine .inl ⟨by rw [holds.log, begun, List.append_nil], fun sid ordered => ?_⟩
      rw [holds.order]
      exact List.prefix_append _ _
    · obtain ⟨stream, message, later, rest, _, waiting, more, carries, _⟩ := holds.front begun
      refine .inr ⟨message, progress.half, rest, holds.log, begun, more, carries, ?_, ?_⟩
      · exact (holds.begun begun).2 message (by rw [waiting]; rfl)
      · intro sid ordered
        rw [holds.order, List.filter_append]
        -- the message is the first one that waits on its stream
        have first : message ∈ progress.waiting assoc.lastStreamScheduled progress.mode := by
          rw [waiting]
          exact List.mem_cons_self
        obtain ⟨_, onSid, inMode⟩ := holds.waits first
        by_cases on : Message.On sid ordered message = true
        · have same : assoc.lastStreamScheduled = sid ∧ progress.mode = ordered := by
            simpa [onSid, inMode] using on
          rw [List.filter_cons_of_pos on, List.filter_nil, ← same.1, ← same.2, waiting]
          exact ⟨later, by simp⟩
        · rw [List.filter_cons_of_neg on, List.filter_nil, List.append_nil]
          exact List.prefix_append _ _

end Progress.Holds

/-! ### Sending a message -/

theorem SctpAssociation.sendStreams_setStream {sid k : Nat} {stream found : SctpSendStream}
    (located : (assoc.setStream sid stream).sendStreams[k]? = some found) :
    (k = sid ∧ found = stream) ∨ (k ≠ sid ∧ assoc.sendStreams[k]? = some found) := by
  rw [SctpAssociation.setStream] at located
  by_cases same : k = sid
  · subst same
    rw [List.getElem?_set_self'] at located
    cases h : assoc.sendStreams[k]? with
    | none => rw [h] at located; cases located
    | some old =>
      rw [h] at located
      exact .inl ⟨rfl, (Option.some.inj located).symm⟩
  · rw [List.getElem?_set_ne (Ne.symm same)] at located
    exact .inr ⟨same, located⟩

theorem process_SEND_ok {message : Message}
    (returned : assoc.process_SEND parameters message = .ok next) :
    ∃ stream, assoc.sendStreams[message.sid]? = some stream ∧
      next = { assoc.setStream message.sid (stream.setQueue message.ordered
          (stream.queue message.ordered ++ [parameters.dataMsg message])) with
        queued := assoc.queued ++ [message] } := by
  rw [SctpAssociation.process_SEND] at returned
  cases found : assoc.sendStreams[message.sid]? with
  | none => rw [found] at returned; cases returned
  | some stream =>
    rw [found] at returned
    refine ⟨stream, rfl, ?_⟩
    cases returned
    cases message.ordered <;> rfl

theorem Progress.Holds.send (holds : progress.Holds parameters initialTsn assoc) {message : Message}
    (small : Small parameters message)
    (returned : assoc.process_SEND parameters message = .ok next) :
    ∃ progress : Progress, progress.Holds parameters initialTsn next := by
  obtain ⟨stream, found, rfl⟩ := process_SEND_ok returned
  refine ⟨progress.setWaiting message.sid message.ordered
    (progress.waiting message.sid message.ordered ++ [message]), ?_, ?_, ?_, ?_, holds.sends,
    holds.log, holds.fragment, ?_, holds.tsn, holds.nextTsn⟩
  · intro sid other located ordered
    rcases SctpAssociation.sendStreams_setStream located with ⟨rfl, rfl⟩ | ⟨ne, located⟩
    · have queue := holds.queues _ _ found ordered
      rw [SctpSendStream.queue_setQueue]
      by_cases same : ordered = message.ordered
      · subst same
        rw [Progress.waiting_setWaiting, if_pos ⟨rfl, rfl⟩, if_pos rfl]
        exact queue.append message
      · rw [Progress.waiting_setWaiting, if_neg (fun h => same h.2), if_neg same]
        exact queue
    · rw [Progress.waiting_setWaiting, if_neg (fun h => ne h.1)]
      exact holds.queues _ _ located ordered
  · intro sid other located
    rcases SctpAssociation.sendStreams_setStream located with ⟨rfl, rfl⟩ | ⟨_, located⟩
    · rw [SctpSendStream.nextStreamSeqNum_setQueue]
      exact holds.ssn _ _ found
    · exact holds.ssn _ _ located
  · intro sid ordered
    simp only [List.filter_append, holds.order, List.append_assoc, Progress.waiting_setWaiting]
    congr 1
    by_cases on : Message.On sid ordered message = true
    · obtain ⟨rfl, rfl⟩ := Message.on_iff.mp on
      rw [if_pos ⟨rfl, rfl⟩, List.filter_cons_of_pos on, List.filter_nil]
    · have other : ¬ (sid = message.sid ∧ ordered = message.ordered) :=
        fun same => on (Message.on_iff.mpr ⟨same.1.symm, same.2.symm⟩)
      rw [if_neg other, List.filter_cons_of_neg on, List.filter_nil, List.append_nil]
  · intro m member
    rcases List.mem_append.mp member with earlier | last
    · exact holds.small m earlier
    · obtain rfl := List.mem_singleton.mp last
      exact small
  · intro begun
    obtain ⟨inside, ssn⟩ := holds.begun begun
    refine ⟨by simpa [SctpAssociation.setStream] using inside, fun first waits => ?_⟩
    obtain ⟨_, other, later, _, _, waiting, _⟩ := holds.front begun
    -- the message that is half sent stays the first one that waits
    apply ssn first
    simp only [Progress.waiting_setWaiting] at waits
    split at waits
    next same =>
      have same : assoc.lastStreamScheduled = message.sid ∧ progress.mode = message.ordered := same
      rw [← same.1, ← same.2, waiting] at waits
      rw [waiting]
      exact waits
    next => exact waits

/-! ### Cutting the messages at the front -/

theorem fragmentStream_ok {stream cut : SctpSendStream}
    (returned : parameters.fragmentStream stream = .ok cut) :
    ∃ queue, parameters.fragmentFront stream.chosenQ = .ok queue ∧
      cut = stream.setChosenQ queue ∧
      cut.unorderedStreamQ.isEmpty = stream.unorderedStreamQ.isEmpty ∧ cut.chosenQ = queue := by
  obtain ⟨queue, front, ⟨⟩⟩ := bind_eq_ok.mp returned
  refine ⟨queue, front, rfl, ?_⟩
  have kept : queue = [] ↔ stream.chosenQ = [] := by
    rcases fragmentFront_cases front with ⟨none, rfl⟩ | ⟨msg, rest, some, ⟨_, rfl⟩ | ⟨_, pos, rfl⟩⟩
    · simp [none]
    · simp [some]
    · have cut := fragments_cut pos msg (msg.userData.length + 1) true msg.userData
        (Nat.lt_succ_self _)
      simp [some, cut.nonempty]
  cases empty : stream.unorderedStreamQ.isEmpty with
  | true => simp [SctpSendStream.setChosenQ, SctpSendStream.chosenQ, empty]
  | false =>
    have chosen : stream.chosenQ = stream.unorderedStreamQ := by
      simp [SctpSendStream.chosenQ, empty]
    have some : queue.isEmpty = false := by
      rw [chosen] at kept
      rw [← empty, Bool.eq_iff_iff, List.isEmpty_iff, List.isEmpty_iff]
      exact kept
    simp [SctpSendStream.setChosenQ, SctpSendStream.chosenQ, empty, some]

theorem fragmentOutboundDataMsgs_ok {cut : SctpAssociation}
    (returned : assoc.fragmentOutboundDataMsgs parameters = .ok cut) :
    ∃ streams, cut = { assoc with sendStreams := streams } ∧
      List.Forall₂ (fun stream cut => parameters.fragmentStream stream = .ok cut)
        assoc.sendStreams streams := by
  obtain ⟨streams, all, ⟨⟩⟩ := bind_eq_ok.mp returned
  exact ⟨streams, rfl, mapM_eq_ok.mp all⟩

/-- Each stream comes from one that was there before. -/
theorem stream_before {streams cut : List SctpSendStream}
    (all : List.Forall₂ (fun stream cut => parameters.fragmentStream stream = .ok cut) streams cut)
    {sid : Nat} {found : SctpSendStream} (located : cut[sid]? = some found) :
    ∃ stream, streams[sid]? = some stream ∧ parameters.fragmentStream stream = .ok found := by
  obtain ⟨inside, rfl⟩ := List.getElem?_eq_some_iff.mp located
  have inside' : sid < streams.length := by rwa [all.length_eq]
  exact ⟨streams[sid], List.getElem?_eq_getElem inside', all.get inside' inside⟩

variable {scheduled : SctpAssociation.Scheduled}

theorem Progress.Holds.cut (holds : progress.Holds parameters initialTsn assoc)
    (undisturbed : Undisturbed parameters scheduled assoc) {cut : SctpAssociation}
    (returned : assoc.fragmentOutboundDataMsgs parameters = .ok cut) :
    progress.Holds parameters initialTsn cut := by
  obtain ⟨streams, rfl, all⟩ := fragmentOutboundDataMsgs_ok returned
  refine ⟨?_, ?_, holds.order, holds.small, holds.sends, holds.log, holds.fragment, ?_, holds.tsn,
    holds.nextTsn⟩
  · intro sid found located ordered
    obtain ⟨stream, before, was⟩ := stream_before all located
    obtain ⟨queue, front, rfl, _⟩ := fragmentStream_ok was
    have queues := holds.queues _ _ before
    rw [SctpSendStream.setChosenQ_eq, SctpSendStream.queue_setQueue]
    split
    next chosen =>
      subst chosen
      exact (queues _).fragmentFront (undisturbed.uncut stream (List.mem_of_getElem? before)) front
    next => exact queues ordered
  · intro sid found located
    obtain ⟨stream, before, was⟩ := stream_before all located
    obtain ⟨queue, front, rfl, _⟩ := fragmentStream_ok was
    rw [SctpSendStream.setChosenQ_eq, SctpSendStream.nextStreamSeqNum_setQueue]
    exact holds.ssn _ _ before
  · intro begun
    obtain ⟨inside, ssn⟩ := holds.begun begun
    exact ⟨by rwa [← all.length_eq], ssn⟩

/-! ### Dequeuing -/

/-- What is half sent is in the queue that the next message is taken from. -/
theorem Progress.Holds.chosen_mode (holds : progress.Holds parameters initialTsn assoc)
    (undisturbed : Undisturbed parameters scheduled assoc) (begun : progress.half ≠ [])
    {stream : SctpSendStream}
    (found : assoc.sendStreams[assoc.lastStreamScheduled]? = some stream) :
    stream.unorderedStreamQ.isEmpty = progress.mode := by
  obtain ⟨other, message, later, rest, found', _, _, _, front, first, fragment, bBit⟩ :=
    holds.front begun
  obtain rfl := Option.some.inj (found'.symm.trans found)
  cases mode : progress.mode with
  | true =>
    rw [mode] at first
    rw [undisturbed.uninterrupted other (List.mem_of_getElem? found) front first fragment bBit]
    rfl
  | false =>
    rw [mode] at first
    rw [List.isEmpty_eq_false_iff]
    intro empty
    rw [SctpSendStream.queue, if_neg Bool.false_ne_true, empty] at first
    cases first

/-- A chunk keeps what the message says of it, and the SSN of an ordered stream moves after its
last piece. -/
theorem makeDataVarFromDataMsg_ok {datMsg : SctpDataMsg} {stream : SctpSendStream}
    {datVar : SctpDataVariables}
    (found : assoc.sendStreams[datMsg.sid]? = some stream)
    (small : stream.nextStreamSeqNum < 65536)
    (returned : assoc.makeDataVarFromDataMsg datMsg = .ok (datVar, next)) :
    datVar.piece = datMsg.piece ∧
      datVar.ssn = (if datMsg.ordered then stream.nextStreamSeqNum else 0) ∧
      next = assoc.setStream datMsg.sid { stream with
        nextStreamSeqNum := if datMsg.ordered && datMsg.eBit then
          (stream.nextStreamSeqNum + 1) % 65536 else stream.nextStreamSeqNum } := by
  rw [SctpAssociation.makeDataVarFromDataMsg, SctpAssociation.sendStream, found, ok_bind]
    at returned
  cases ordered : datMsg.ordered with
  | true =>
    simp only [ordered, if_true] at returned
    cases returned
    refine ⟨by rw [SctpDataMsg.piece, ordered]; rfl, rfl, ?_⟩
    congr 2
    cases datMsg.eBit with
    | true =>
      simp only [Bool.and_self, if_true]
      split <;> omega
    | false =>
      simp only [Bool.and_false, Bool.false_eq_true, if_false]
      split <;> omega
  | false =>
    simp only [ordered, Bool.false_eq_true, if_false] at returned
    cases returned
    refine ⟨by rw [SctpDataMsg.piece, ordered]; rfl, rfl, ?_⟩
    obtain ⟨inside, rfl⟩ := List.getElem?_eq_some_iff.mp found
    rw [Bool.false_and, if_neg Bool.false_ne_true, SctpAssociation.setStream,
      List.set_getElem_self]

/-- A call either takes nothing, or the message at the front of the queue of a stream. -/
theorem sendOnPath_cases {availableSpace availableCwnd : Int}
    (returned : assoc.sendOnPath parameters scheduled availableSpace availableCwnd = .ok next) :
    ∃ cut, assoc.fragmentOutboundDataMsgs parameters = .ok cut ∧
      (next = (cut.nextStream scheduled).2 ∨
        ∃ sid stream msg rest datVar after, (cut.nextStream scheduled).1 = some sid ∧
          cut.sendStreams[sid]? = some stream ∧ stream.chosenQ = msg :: rest ∧
          SctpAssociation.makeDataVarFromDataMsg (SctpAssociation.finish msg).1
            { (cut.nextStream scheduled).2.setStream sid (stream.setChosenQ rest) with
              lastMsgWasFragment := (SctpAssociation.finish msg).2 } = .ok (datVar, after) ∧
          next = { after with
            sent := after.sent ++ [{ datVar with tsn := after.nextTsn }]
            nextTsn := after.nextTsn + 1 }) := by
  rw [SctpAssociation.sendOnPath] at returned
  obtain ⟨⟨taken, after⟩, dequeued, returned⟩ := bind_eq_ok.mp returned
  rw [SctpAssociation.dequeueOutboundDataMsg] at dequeued
  obtain ⟨cut, cutOk, dequeued⟩ := bind_eq_ok.mp dequeued
  refine ⟨cut, cutOk, ?_⟩
  have streams : (cut.nextStream scheduled).2.sendStreams = cut.sendStreams := by
    rw [SctpAssociation.nextStream]
    split <;> rfl
  generalize cut.nextStream scheduled = chosen at dequeued streams ⊢
  obtain ⟨sid | sid, assoc⟩ := chosen
  · cases dequeued
    cases returned
    exact .inl rfl
  simp only at dequeued streams
  obtain ⟨stream, found, dequeued⟩ := bind_eq_ok.mp dequeued
  have found : cut.sendStreams[sid]? = some stream := by
    rw [SctpAssociation.sendStream, streams] at found
    split at found
    next h => rw [h, Except.ok.inj found]
    next => cases found
  cases queue : stream.chosenQ with
  | nil =>
    rw [queue] at dequeued
    cases dequeued
    cases returned
    exact .inl rfl
  | cons msg rest =>
    rw [queue] at dequeued
    simp only at dequeued
    split at dequeued
    · cases dequeued
      obtain ⟨⟨datVar, after⟩, made, returned⟩ := bind_eq_ok.mp returned
      cases returned
      exact .inr ⟨sid, stream, msg, rest, datVar, after, rfl, found, queue, made, rfl⟩
    · cases dequeued
      cases returned
      exact .inl rfl

theorem Progress.Holds.nextStream (holds : progress.Holds parameters initialTsn assoc)
    (scheduled : SctpAssociation.Scheduled) :
    progress.Holds parameters initialTsn (assoc.nextStream scheduled).2 := by
  rw [SctpAssociation.nextStream]
  split
  · exact holds
  next whole =>
    -- nothing is half sent, so that the stream that was scheduled does not matter
    have none : progress.half = [] := by
      simpa [holds.fragment] using whole
    refine ⟨?_, holds.ssn, holds.order, holds.small, holds.sends, holds.log, holds.fragment, ?_,
      holds.tsn, holds.nextTsn⟩
    · intro sid stream found ordered
      have queue := holds.queues sid stream found ordered
      simp only [Progress.halfOf, none, List.map_nil, ite_self] at queue ⊢
      exact queue
    · exact fun begun => absurd none begun

/-- A message that was taken: the log grows by its chunk, and only its own queue and the SSN of its
stream change. -/
theorem Progress.Holds.take (holds : progress.Holds parameters initialTsn assoc) {sid : Nat}
    {stream : SctpSendStream} {mode : Bool} {msg : SctpDataMsg} {rest : List SctpDataMsg}
    (found : assoc.sendStreams[sid]? = some stream) (queue : stream.queue mode = msg :: rest)
    (fits : msg.fragment = false → msg.userData.length ≤ parameters.fragPoint.toNat)
    (same : progress.half ≠ [] → sid = assoc.lastStreamScheduled ∧ mode = progress.mode)
    (remembered : (SctpAssociation.finish msg).2 = true → sid = assoc.lastStreamScheduled)
    {datVar : SctpDataVariables}
    (made : SctpAssociation.makeDataVarFromDataMsg (SctpAssociation.finish msg).1
      { assoc.setStream sid (stream.setQueue mode rest) with
        lastMsgWasFragment := (SctpAssociation.finish msg).2 } = .ok (datVar, next)) :
    ∃ progress : Progress, progress.Holds parameters initialTsn { next with
      sent := next.sent ++ [{ datVar with tsn := next.nextTsn }]
      nextTsn := next.nextTsn + 1 } := by
  have ours : progress.halfOf assoc sid mode = progress.half.map SctpDataVariables.piece := by
    rw [Progress.halfOf]
    by_cases none : progress.half = []
    · simp [none]
    · rw [if_pos (same none)]
  have theirs (s : Nat) (o : Bool) (other : ¬ (s = sid ∧ o = mode)) :
      progress.halfOf assoc s o = [] := by
    rw [Progress.halfOf]
    by_cases none : progress.half = []
    · simp [none]
    · obtain ⟨rfl, rfl⟩ := same none
      rw [if_neg other]
  have held := holds.queues sid stream found mode
  rw [queue, ours] at held
  obtain ⟨message, later, pieces, waiting, carries, more, done, goesOn⟩ := held.take fits
  have member : message ∈ progress.waiting sid mode := by
    rw [waiting]
    exact List.mem_cons_self
  obtain ⟨_, onSid, inMode⟩ := holds.waits member
  generalize SctpAssociation.finish msg = finished at *
  obtain ⟨datMsg, unfinished⟩ := finished
  simp only at carries more done goesOn made remembered
  obtain ⟨pieceSid, pieceMode⟩ : datMsg.sid = sid ∧ datMsg.ordered = mode := by
    obtain ⟨sameSid, sameMode⟩ := carries.ofStream datMsg.piece (by simp)
    exact ⟨sameSid.trans onSid, sameMode.trans inMode⟩
  have ebit : datMsg.eBit = pieces.isEmpty := by
    rw [show datMsg.eBit = datMsg.piece.ebit from rfl, carries.bits.2]
    cases pieces <;> rfl
  have inside : sid < assoc.sendStreams.length := (List.getElem?_eq_some_iff.mp found).1
  have edited : { assoc.setStream sid (stream.setQueue mode rest) with
      lastMsgWasFragment := unfinished }.sendStreams[datMsg.sid]? =
        some (stream.setQueue mode rest) := by
    simp [pieceSid, SctpAssociation.setStream, inside]
  obtain ⟨piece, ssn, rfl⟩ := makeDataVarFromDataMsg_ok edited
    (by rw [SctpSendStream.nextStreamSeqNum_setQueue, holds.ssn _ _ found]; omega) made
  simp only [SctpSendStream.nextStreamSeqNum_setQueue, holds.ssn _ _ found] at ssn ⊢
  let chunk := { datVar with tsn := assoc.nextTsn }
  have chunkSsn : ∀ c ∈ progress.half ++ [chunk], c.ssn = ssnAfter progress.whole message := by
    intro c member
    rcases List.mem_append.mp member with earlier | last
    · have begun : progress.half ≠ [] := List.ne_nil_of_mem earlier
      obtain ⟨rfl, rfl⟩ := same begun
      exact (holds.begun begun).2 message (by rw [waiting]; rfl) c earlier
    · obtain rfl := List.mem_singleton.mp last
      rw [ssnAfter, inMode, onSid, ← pieceMode]
      exact ssn
  have streams : ∀ k t, ((assoc.setStream sid (stream.setQueue mode rest)).setStream datMsg.sid
      { stream.setQueue mode rest with
        nextStreamSeqNum := if datMsg.ordered && datMsg.eBit then
          (progress.whole.countP (Message.On sid true) % 65536 + 1) % 65536
          else progress.whole.countP (Message.On sid true) % 65536 }).sendStreams[k]? = some t →
      (k = sid ∧ (∀ o, t.queue o = if o = mode then rest else stream.queue o) ∧
        t.nextStreamSeqNum = if mode && pieces.isEmpty then
          (progress.whole.countP (Message.On sid true) % 65536 + 1) % 65536
          else progress.whole.countP (Message.On sid true) % 65536) ∨
      (k ≠ sid ∧ assoc.sendStreams[k]? = some t) := by
    intro k t located
    rw [pieceSid, pieceMode, ebit] at located
    rcases SctpAssociation.sendStreams_setStream located with ⟨rfl, rfl⟩ | ⟨ne, located⟩
    · exact .inl ⟨rfl, fun o => SctpSendStream.queue_setQueue stream mode o rest, rfl⟩
    rcases SctpAssociation.sendStreams_setStream located with ⟨rfl, rfl⟩ | ⟨ne, located⟩
    · exact absurd rfl ne
    · exact .inr ⟨ne, located⟩
  have tsn : ∀ i (inside : i < (assoc.sent ++ [chunk]).length),
      (assoc.sent ++ [chunk])[i].tsn = initialTsn + UInt32.ofNat i := by
    intro i inside
    by_cases earlier : i < assoc.sent.length
    · rw [List.getElem_append_left earlier]
      exact holds.tsn i earlier
    · obtain rfl : i = assoc.sent.length := by
        simp only [List.length_append, List.length_singleton] at inside
        omega
      simpa using holds.nextTsn
  have nextTsn : assoc.nextTsn + 1 =
      initialTsn + UInt32.ofNat (assoc.sent ++ [chunk]).length := by
    rw [holds.nextTsn, List.length_append, List.length_singleton, UInt32.ofNat_add,
      UInt32.add_assoc]
    rfl
  have log : assoc.sent ++ [chunk] = progress.sent ++ (progress.half ++ [chunk]) := by
    rw [holds.log, List.append_assoc]
  cases pieces with
  | nil =>
    -- the message is whole
    refine ⟨{ progress.setWaiting sid mode later with
      whole := progress.whole ++ [message], sent := progress.sent ++ (progress.half ++ [chunk])
      half := [] }, ?_, ?_, ?_, holds.small, .snoc holds.sends ?_ chunkSsn, ?_, more, ?_, tsn,
      nextTsn⟩
    · intro k t located o
      rcases streams k t located with ⟨rfl, queues, _⟩ | ⟨ne, located⟩
      · rw [queues]
        by_cases chosen : o = mode
        · rw [if_pos chosen, chosen]
          simpa [Progress.halfOf, Progress.waiting_setWaiting] using done rfl
        · have kept := holds.queues k stream found o
          rw [theirs k o (fun h => chosen h.2)] at kept
          rw [if_neg chosen]
          simpa [Progress.halfOf, Progress.waiting_setWaiting, chosen] using kept
      · have kept := holds.queues k t located o
        rw [theirs k o (fun h => ne h.1)] at kept
        simpa [Progress.halfOf, Progress.waiting_setWaiting, ne] using kept
    · intro k t located
      rw [List.countP_append, List.countP_singleton]
      rcases streams k t located with ⟨rfl, _, ssn⟩ | ⟨ne, located⟩
      · rw [ssn]
        cases mode <;> simp [onSid, inMode]
      · rw [holds.ssn k t located]
        simp [onSid, Ne.symm ne]
    · intro s o
      rw [List.filter_append, Progress.waiting_setWaiting]
      change assoc.queued.filter (Message.On s o) = _
      rw [holds.order, List.append_assoc]
      by_cases here : s = sid ∧ o = mode
      · obtain ⟨rfl, rfl⟩ := here
        rw [if_pos ⟨rfl, rfl⟩, waiting,
          List.filter_cons_of_pos (Message.on_iff.mpr ⟨onSid, inMode⟩)]
        rfl
      · rw [if_neg here, List.filter_cons_of_neg]
        · rfl
        · intro on
          obtain ⟨rfl, rfl⟩ := Message.on_iff.mp on
          exact here ⟨onSid, inMode⟩
    · rw [List.map_append, List.map_singleton, show chunk.piece = datMsg.piece from piece]
      exact carries
    · change assoc.sent ++ [chunk] = _ ++ []
      rw [log, List.append_nil]
    · exact fun begun => absurd rfl begun
  | cons p ps =>
    refine ⟨{ progress with half := progress.half ++ [chunk], mode := mode }, ?_, ?_, holds.order,
      holds.small, holds.sends, log, ?_, ?_, tsn, nextTsn⟩
    · intro k t located o
      have here := remembered more
      rcases streams k t located with ⟨rfl, queues, _⟩ | ⟨ne, located⟩
      · rw [queues]
        by_cases chosen : o = mode
        · have now := goesOn (List.cons_ne_nil _ _)
          subst chosen
          rw [if_pos rfl, Progress.halfOf, if_pos ⟨here, rfl⟩, List.map_append, List.map_singleton]
          exact piece ▸ now
        · have kept := holds.queues k stream found o
          rw [theirs k o (fun h => chosen h.2)] at kept
          rw [if_neg chosen, Progress.halfOf, if_neg (fun h => chosen h.2)]
          exact kept
      · have kept := holds.queues k t located o
        rw [theirs k o (fun h => ne h.1)] at kept
        rw [Progress.halfOf, if_neg (fun h => ne (h.1.trans here.symm))]
        exact kept
    · intro k t located
      rcases streams k t located with ⟨rfl, _, ssn⟩ | ⟨ne, located⟩
      · rw [ssn, List.isEmpty_cons, Bool.and_false, if_neg Bool.false_ne_true]
      · exact holds.ssn k t located
    · change unfinished = _
      rw [more]
      simp
    · intro _
      have here := remembered more
      refine ⟨?_, ?_⟩
      · change assoc.lastStreamScheduled < _
        simpa [SctpAssociation.setStream, ← here] using inside
      · intro first waits
        change first ∈ (progress.waiting assoc.lastStreamScheduled mode).head? at waits
        rw [← here, waiting] at waits
        obtain rfl := Option.some.inj waits
        exact chunkSsn

theorem Progress.Holds.sendOnPath (holds : progress.Holds parameters initialTsn assoc)
    {availableSpace availableCwnd : Int} (undisturbed : Undisturbed parameters scheduled assoc)
    (returned : assoc.sendOnPath parameters scheduled availableSpace availableCwnd = .ok next) :
    ∃ progress : Progress, progress.Holds parameters initialTsn next := by
  obtain ⟨cut, cutOk, rfl | taken⟩ := sendOnPath_cases returned
  · exact ⟨progress, (holds.cut undisturbed cutOk).nextStream scheduled⟩
  obtain ⟨sid, stream, msg, rest, datVar, after, chosen, found, queue, made, rfl⟩ := taken
  have cutHolds := holds.cut undisturbed cutOk
  obtain ⟨streams, rfl, all⟩ := fragmentOutboundDataMsgs_ok cutOk
  obtain ⟨before, beforeFound, was⟩ := stream_before all found
  obtain ⟨front, frontOk, _, kept, nowChosen⟩ := fragmentStream_ok was
  rw [queue] at nowChosen
  subst nowChosen
  have beforeQueue := holds.queues sid before beforeFound before.unorderedStreamQ.isEmpty
  have streamsSame : (SctpAssociation.nextStream scheduled
      { assoc with sendStreams := streams }).2.sendStreams = streams := by
    rw [SctpAssociation.nextStream]
    split <;> rfl
  have fits : ∀ m ∈ progress.waiting sid before.unorderedStreamQ.isEmpty, Small parameters m :=
    fun m waits => holds.small m (holds.waits waits).1
  rw [SctpSendStream.chosenQ_eq] at queue
  apply (cutHolds.nextStream scheduled).take (by rw [streamsSame]; exact found) queue
    (fun whole => beforeQueue.front_fits fits frontOk msg rfl whole) ?_ ?_ made
  · intro begun
    have unfinished : assoc.lastMsgWasFragment = true := by
      rw [holds.fragment]
      simpa using begun
    rw [SctpAssociation.nextStream, if_pos unfinished] at chosen ⊢
    obtain rfl := Option.some.inj chosen
    refine ⟨rfl, ?_⟩
    rw [kept]
    exact holds.chosen_mode undisturbed begun beforeFound
  · intro more
    rw [SctpAssociation.nextStream] at chosen ⊢
    split at chosen
    next unfinished =>
      rw [if_pos unfinished]
      exact (Option.some.inj chosen).symm
    next finished =>
      rw [if_neg finished]
      by_contra other
      -- a message that takes one chunk is not unfinished
      have one := undisturbed.remembered (Bool.eq_false_iff.mpr finished) sid chosen other before
        beforeFound
      have still := takesMore_of_fragmentFront frontOk beforeQueue.fragment_fits one msg rfl
      rw [TakesMore] at still
      rw [SctpAssociation.finish] at more
      cases fragment : msg.fragment <;> cases ebit : msg.eBit <;> simp_all

/-! ### Calls return -/

/-- The stream exists, and the fragmentation point does not overflow. -/
def Possible (parameters : SctpParameters) (assoc : SctpAssociation) : Call → Prop
  | .send message => message.sid < assoc.sendStreams.length
  | .sendOnPath scheduled _ _ => parameters.largestChunk < 2 ^ 31 ∧
    ∀ sid, scheduled.nextSid = some sid → sid < assoc.sendStreams.length

/-- With the fragmentation point 0 only empty messages wait, and they are not cut. -/
theorem QueueHolds.fragmentFront_returns {half : List Piece} {waiting : List Message}
    {queue : List SctpDataMsg} (holds : QueueHolds parameters half waiting queue)
    (small : ∀ m ∈ waiting, Small parameters m) (inside : parameters.largestChunk < 2 ^ 31) :
    ∃ next, parameters.fragmentFront queue = .ok next := by
  cases h : queue with
  | nil => exact ⟨[], rfl⟩
  | cons msg rest =>
    rw [SctpParameters.fragmentFront, if_neg (by omega)]
    split
    next large =>
      rw [if_neg]
      · exact ⟨_, rfl⟩
      · intro zero
        have empty : msg.userData.length = 0 := by
          cases fragment : msg.fragment with
          | true =>
            have fits := holds.fragment_fits msg (by rw [h]; rfl) fragment
            rw [zero] at fits
            exact Nat.le_zero.mp fits
          | false =>
            rw [h] at holds
            obtain ⟨message, later, first, rfl⟩ : ∃ message later, waiting = message :: later ∧
                msg = parameters.dataMsg message := by
              generalize same : msg :: rest = queue at holds
              cases holds with
              | untouched =>
                cases waiting with
                | nil => cases same
                | cons message later => exact ⟨message, later, rfl, (List.cons.inj same).1⟩
              | cut first rest later fragments carries =>
                obtain ⟨rfl, rfl⟩ := List.cons.inj same
                rw [fragments msg List.mem_cons_self] at fragment
                cases fragment
            rcases small message (by rw [first]; exact List.mem_cons_self) with fits | positive
            · rw [zero] at fits
              exact Nat.le_zero.mp fits
            · rw [zero] at positive
              exact absurd positive.1 (Nat.lt_irrefl 0)
        rw [SctpParameters.chunkBytes, SctpParameters.largestChunk, empty, zero] at large
        exact absurd large (by decide)
    next => exact ⟨_, rfl⟩

/-- A message waits on the stream that it was sent on. -/
theorem QueueHolds.sid {half : List Piece} {waiting : List Message} {msg : SctpDataMsg}
    {rest : List SctpDataMsg} (holds : QueueHolds parameters half waiting (msg :: rest)) {sid : Nat}
    (all : ∀ m ∈ waiting, m.sid = sid) : msg.sid = sid := by
  generalize same : msg :: rest = queue at holds
  cases holds with
  | untouched =>
    cases waiting with
    | nil => cases same
    | cons message later =>
      obtain ⟨rfl, rfl⟩ := List.cons.inj same
      exact all message List.mem_cons_self
  | @cut _ message first rest later fragments carries =>
    obtain ⟨rfl, rfl⟩ := List.cons.inj same
    obtain ⟨sid, _⟩ := carries.ofStream msg.piece (by simp)
    exact sid.trans (all message List.mem_cons_self)

theorem SctpAssociation.sendStream_ok {sid : Nat} (inside : sid < assoc.sendStreams.length) :
    ∃ stream, assoc.sendStream sid = .ok stream ∧ assoc.sendStreams[sid]? = some stream := by
  rw [SctpAssociation.sendStream, List.getElem?_eq_getElem inside]
  exact ⟨_, rfl, rfl⟩

theorem makeDataVarFromDataMsg_returns (datMsg : SctpDataMsg)
    (inside : datMsg.sid < assoc.sendStreams.length) :
    ∃ made, assoc.makeDataVarFromDataMsg datMsg = .ok made := by
  obtain ⟨stream, found, _⟩ := SctpAssociation.sendStream_ok inside
  rw [SctpAssociation.makeDataVarFromDataMsg, found, ok_bind]
  cases datMsg.ordered with
  | true => exact ⟨_, rfl⟩
  | false => exact ⟨_, rfl⟩

theorem Progress.Holds.returns (holds : progress.Holds parameters initialTsn assoc) (call : Call)
    (meets : Meets parameters assoc call) (possible : Possible parameters assoc call) :
    ∃ next, apply parameters assoc call = .ok next := by
  cases call with
  | send message =>
    rw [apply, SctpAssociation.process_SEND, List.getElem?_eq_getElem possible]
    exact ⟨_, rfl⟩
  | sendOnPath scheduled availableSpace availableCwnd =>
    obtain ⟨inside, known⟩ := possible
    have each : ∀ stream ∈ assoc.sendStreams,
        ∃ cut, parameters.fragmentStream stream = .ok cut := by
      intro stream member
      obtain ⟨sid, found⟩ := List.mem_iff_getElem?.mp member
      have queue := holds.queues sid stream found stream.unorderedStreamQ.isEmpty
      obtain ⟨next, front⟩ := queue.fragmentFront_returns
        (fun m waits => holds.small m (holds.waits waits).1) inside
      rw [SctpParameters.fragmentStream, SctpSendStream.chosenQ_eq, front, ok_bind]
      exact ⟨_, rfl⟩
    obtain ⟨streams, all⟩ := mapM_returns each
    have cutOk : assoc.fragmentOutboundDataMsgs parameters =
        .ok { assoc with sendStreams := streams } := by
      rw [SctpAssociation.fragmentOutboundDataMsgs, all, ok_bind]
      rfl
    have cutHolds := (holds.cut meets cutOk).nextStream scheduled
    have same : streams.length = assoc.sendStreams.length := (mapM_eq_ok.mp all).length_eq.symm
    rw [apply, SctpAssociation.sendOnPath, SctpAssociation.dequeueOutboundDataMsg, cutOk, ok_bind]
    -- the stream that is looked up exists
    have looked : ∀ sid, (SctpAssociation.nextStream scheduled
        { assoc with sendStreams := streams }).1 = some sid → sid < streams.length := by
      intro sid chosen
      rw [SctpAssociation.nextStream] at chosen
      rw [same]
      split at chosen
      next unfinished =>
        obtain rfl := Option.some.inj chosen
        refine (holds.begun ?_).1
        intro none
        have fragment := holds.fragment
        rw [none] at fragment
        exact Bool.false_ne_true (fragment.symm.trans unfinished)
      next => exact known sid chosen
    have streamsSame : (SctpAssociation.nextStream scheduled
        { assoc with sendStreams := streams }).2.sendStreams = streams := by
      rw [SctpAssociation.nextStream]
      split <;> rfl
    generalize SctpAssociation.nextStream scheduled { assoc with sendStreams := streams } = chosen
      at cutHolds looked streamsSame
    obtain ⟨_ | sid, chosenAssoc⟩ := chosen
    · exact ⟨_, rfl⟩
    simp only at cutHolds looked streamsSame ⊢
    have inside : sid < chosenAssoc.sendStreams.length := by
      rw [streamsSame]
      exact looked sid rfl
    obtain ⟨stream, found, located⟩ := SctpAssociation.sendStream_ok inside
    rw [found, ok_bind]
    have queue := cutHolds.queues sid stream located stream.unorderedStreamQ.isEmpty
    rw [← SctpSendStream.chosenQ_eq] at queue
    cases h : stream.chosenQ with
    | nil => exact ⟨_, rfl⟩
    | cons msg rest =>
      rw [h] at queue
      have msgSid := queue.sid fun m waits => (cutHolds.waits waits).2.1
      simp only
      split
      · rw [pure_bind]
        have finished : (SctpAssociation.finish msg).1.sid = sid := by
          rw [SctpAssociation.finish]
          split
          · exact msgSid
          · split <;> exact msgSid
        have stillInside : (SctpAssociation.finish msg).1.sid < { chosenAssoc.setStream sid
            (stream.setChosenQ rest) with
              lastMsgWasFragment := (SctpAssociation.finish msg).2 }.sendStreams.length := by
          rw [finished]
          simpa [SctpAssociation.setStream] using inside
        obtain ⟨made, madeOk⟩ := makeDataVarFromDataMsg_returns _ stillInside
        simp only [madeOk, ok_bind]
        exact ⟨_, rfl⟩
      · exact ⟨_, rfl⟩

/-! ### Runs -/

variable {outStreams : Nat}

theorem Reached.holds (reached : Reached parameters outStreams initialTsn assoc) :
    ∃ progress : Progress, progress.Holds parameters initialTsn assoc := by
  induction reached with
  | init => exact ⟨_, .init outStreams⟩
  | step earlier call meets returned ih =>
    obtain ⟨progress, holds⟩ := ih
    cases call with
    | send message => exact holds.send meets returned
    | sendOnPath scheduled availableSpace availableCwnd => exact holds.sendOnPath meets returned

/-- As long as messages are small, and each is taken while nothing disturbs it, what is sent are the
pieces of whole messages, and the last one may be half sent. Every such call returns. -/
theorem reached_contiguous (reached : Reached parameters outStreams initialTsn assoc) :
    Contiguous parameters.fragPoint.toNat initialTsn assoc ∧
      ∀ call, Meets parameters assoc call → Possible parameters assoc call →
        ∃ next, apply parameters assoc call = .ok next := by
  obtain ⟨progress, holds⟩ := reached.holds
  exact ⟨holds.contiguous, fun call => holds.returns call⟩

/-- An ordered message of six bytes is sent in two pieces. -/
def inTwoPieces (sent : List SctpDataVariables) (waits : List SctpDataMsg) : SctpAssociation where
  sendStreams := [{ streamQ := waits, nextStreamSeqNum := if waits = [] then 1 else 0 }]
  lastMsgWasFragment := sent.length = 1
  nextTsn := UInt32.ofNat (4294967295 + sent.length)
  queued := [⟨0, true, [1, 2, 3, 4, 5, 6]⟩]
  sent := sent

theorem reached_contiguous_twoPieces : ∃ assoc : SctpAssociation,
    assoc.sent.map (fun c => (c.tsn, c.bbit, c.ebit)) =
      [(4294967295, true, false), (0, false, true)] ∧
    Contiguous 4 4294967295 assoc := by
  let parameters : SctpParameters := { fragPoint := 4, padding := false, header := 0 }
  let first : SctpDataVariables :=
    { sid := 0, ordered := true, userData := [1, 2, 3, 4], booksize := 4, bbit := true
      ebit := false, ssn := 0, tsn := 4294967295 }
  let last : SctpDataVariables :=
    { sid := 0, ordered := true, userData := [5, 6], booksize := 2, bbit := false
      ebit := true, ssn := 0, tsn := 0 }
  let waits : SctpDataMsg :=
    { sid := 0, ordered := true, userData := [5, 6], booksize := 2, fragment := true, eBit := true }
  have queued : Reached parameters 1 4294967295
      (inTwoPieces [] [parameters.dataMsg ⟨0, true, [1, 2, 3, 4, 5, 6]⟩]) :=
    .step .init (.send ⟨0, true, [1, 2, 3, 4, 5, 6]⟩) (.inr ⟨by decide, by decide⟩) rfl
  have half : Reached parameters 1 4294967295 (inTwoPieces [first] [waits]) := by
    refine .step queued (.sendOnPath ⟨some 0, 0⟩ 1000 1000) ⟨?_, ?_, ?_⟩
      (by decide +kernel)
    · intro stream member msg front fragment
      obtain rfl := List.mem_singleton.mp member
      cases front
      cases fragment
    · intro stream member msg front fragment
      obtain rfl := List.mem_singleton.mp member
      cases front
      cases fragment
    · rintro _ _ ⟨⟩ other
      exact absurd rfl other
  have whole : Reached parameters 1 4294967295 (inTwoPieces [first, last] []) := by
    refine .step half (.sendOnPath ⟨some 0, 0⟩ 1000 1000) ⟨?_, ?_, nofun⟩
      (by decide +kernel)
    · intro stream member msg front _ _
      obtain rfl := List.mem_singleton.mp member
      cases front
      decide
    · intro stream member _ _ _ _
      obtain rfl := List.mem_singleton.mp member
      rfl
  exact ⟨_, rfl, (reached_contiguous whole).1⟩

/-! ### A message in between -/

/-- After a piece that is not the last one there is no first piece. -/
def GoesOn (before after : SctpDataVariables) : Prop := before.ebit = false → after.bbit = false

theorem Carries.goesOn {fragPoint : Nat} {message : Message} {chunks : List SctpDataVariables}
    {rest : List Piece} (carries : Carries fragPoint message (chunks.map (·.piece) ++ rest)) :
    chunks.IsChain GoesOn := by
  rw [List.isChain_iff_getElem]
  intro i inside _
  have begins := carries.begins (i + 1) (by simp; omega)
  rw [List.getElem_append_left (by simpa using inside)] at begins
  simpa [SctpDataVariables.piece] using begins

theorem Carries.last {fragPoint : Nat} {message : Message} {chunks : List SctpDataVariables}
    (carries : Carries fragPoint message (chunks.map (·.piece))) :
    ∀ c ∈ chunks.getLast?, c.ebit = true := by
  intro c found
  rw [List.getLast?_eq_getElem?] at found
  obtain ⟨inside, rfl⟩ := List.getElem?_eq_some_iff.mp found
  have ends := carries.ends (chunks.length - 1) (by simpa using inside)
  have last : chunks.length - 1 + 1 = chunks.length := by omega
  simpa [SctpDataVariables.piece, last] using ends

theorem Sends.goesOn {fragPoint : Nat} {messages : List Message} {sent : List SctpDataVariables}
    (sends : Sends fragPoint messages sent) :
    sent.IsChain GoesOn ∧ ∀ c ∈ sent.getLast?, c.ebit = true := by
  induction sends with
  | nil => exact ⟨.nil, nofun⟩
  | @snoc messages sent message chunks earlier carries ssn ih =>
    have ends := carries.last
    rw [← List.append_nil (chunks.map _)] at carries
    refine ⟨List.isChain_append.mpr ⟨ih.1, carries.goesOn, ?_⟩, ?_⟩
    · intro before found after _ more
      rw [ih.2 before found] at more
      cases more
    · intro c found
      rw [List.getLast?_append] at found
      cases h : chunks.getLast? with
      | none =>
        rw [List.getLast?_eq_none_iff] at h
        exact absurd (by rw [h]; rfl) carries.nonempty
      | some last =>
        rw [h] at found
        obtain rfl := Option.some.inj found
        exact ends last h

theorem Contiguous.goesOn {fragPoint : Nat} (contiguous : Contiguous fragPoint initialTsn assoc) :
    assoc.sent.IsChain GoesOn := by
  obtain ⟨whole, sent, sends, ⟨log, _⟩ | ⟨message, half, rest, log, _, _, carries, _⟩⟩ :=
    contiguous.messages
  · rw [log]
    exact sends.goesOn.1
  · rw [log]
    refine List.isChain_append.mpr ⟨sends.goesOn.1, carries.goesOn, ?_⟩
    intro before found after _ more
    rw [sends.goesOn.2 before found] at more
    cases more

/-- An ordered message of six bytes is cut in two. Before its second piece is taken, an unordered
message is sent on the same stream. -/
def interruption : List Call :=
  [.send ⟨0, true, [1, 2, 3, 4, 5, 6]⟩, .sendOnPath ⟨some 0, 0⟩ 1000 1000,
    .send ⟨0, false, [7]⟩, .sendOnPath ⟨some 0, 0⟩ 1000 1000, .sendOnPath ⟨some 0, 0⟩ 1000 1000]

theorem interrupted : ∃ assoc, interruption.foldlM
    (apply { fragPoint := 4, padding := false, header := 0 }) (initStreams 1 0) = .ok assoc ∧
    ¬ Contiguous 4 0 assoc := by
  refine ⟨_, rfl, fun contiguous => ?_⟩
  have chain := contiguous.goesOn
  have between := (List.isChain_cons_cons.mp chain).1 rfl
  cases between

end Inet.Sctp
