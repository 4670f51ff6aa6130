import Inet.Ethernet.EthernetCRC
import Inet.Lib.Except

/-!
# Frame preemption

A sender may stop a frame at any time to send another one between its fragments. Streamer, trailer and
preamble are those of the sender of such frames; the receiver checks preamble and trailer and puts the
fragments together.
-/
namespace Inet.Ethernet

open Lib

/-- A packet with its `FragmentTag`. -/
structure TaggedPacket where
  data : Bytes
  firstFragment : Bool
  lastFragment : Bool
  fragmentNumber : Nat

/-- A fragment on the wire: preamble, data and trailer. -/
structure EthernetFragment where
  smdNumber : Nat
  fragmentNumber : Nat
  data : Bytes
  fcs : BitVec 32
  mCrc : Bool

/-! ### The sender -/

structure Sender where
  remainingPacket : Option TaggedPacket := none
  lastFragmentCompleteFcs : BitVec 32 := 0
  smdNumber : Nat := 0
  fragmentNumber : Nat := 0

/-- `PreemptableStreamer::pullPacketEnd`: the part that has been pulled by now, and the remaining one
unless a part would be too short. Lengths are in bytes, the pulled one is in bits. -/
def pullPacketEnd (roundingLength minPacketLength pulledLength : Nat) (packet : TaggedPacket) :
    TaggedPacket × Option TaggedPacket :=
  let rounded := roundingLength * ((pulledLength + 8 * roundingLength - 1) / (8 * roundingLength))
  let preemptedLength := max rounded minPacketLength
  if preemptedLength + minPacketLength ≤ packet.data.length then
    ({ packet with data := packet.data.take preemptedLength, lastFragment := false },
      some {
        data := packet.data.drop preemptedLength
        firstFragment := false
        lastFragment := true
        fragmentNumber := packet.fragmentNumber + 1 })
  else (packet, none)

/-- `EthernetFragmentFcsInserter::computeComputedFcs`, and the sequence of the frame so far. -/
def Sender.computeComputedFcs (sender : Sender) (packet : TaggedPacket) : BitVec 32 × BitVec 32 :=
  let complete := ethernetCRC packet.data
    (if packet.firstFragment then 0 else sender.lastFragmentCompleteFcs)
  (if packet.lastFragment then complete else ethernetCRC packet.data 0 ^^^ 0xFFFF0000, complete)

/-- The trailer and the preamble of a fragment, and what the inserters keep. The number of a fragment is
a byte. -/
def Sender.insertHeaders (sender : Sender) (packet : TaggedPacket) : EthernetFragment × Sender :=
  let (fcs, complete) := sender.computeComputedFcs packet
  let next := if packet.firstFragment then sender.fragmentNumber else (sender.fragmentNumber + 1) % 256
  ({ smdNumber := sender.smdNumber
     fragmentNumber := sender.fragmentNumber % 4
     data := packet.data
     fcs
     mCrc := !packet.lastFragment },
   { sender with
     lastFragmentCompleteFcs := complete
     fragmentNumber := if packet.lastFragment then 0 else next
     smdNumber := if packet.lastFragment then (sender.smdNumber + 1) % 4 else sender.smdNumber })

/-! ### The receiver -/

structure Receiver where
  smdNumber : Int := -1
  fragmentNumber : Nat := 0
  lastFragmentCompleteFcs : BitVec 32 := 0
  expectedFragmentNumber : Nat := 0
  defragmentedPacket : Option Bytes := none
  delivered : List Bytes := []

/-- `EthernetFragmentPhyHeaderChecker`: the tag, if the preamble matches. -/
def Receiver.checkPhyHeader (receiver : Receiver) (fragment : EthernetFragment) :
    Option (Bool × Nat × Receiver) :=
  if (fragment.smdNumber : Int) = receiver.smdNumber then
    if fragment.fragmentNumber = receiver.fragmentNumber % 4 then
      some (false, receiver.fragmentNumber + 1,
        { receiver with fragmentNumber := receiver.fragmentNumber + 1 })
    else none
  else if fragment.fragmentNumber = 0 then
    some (true, 0, { receiver with smdNumber := fragment.smdNumber, fragmentNumber := 0 })
  else none

/-- `EthernetFragmentFcsChecker`: what is kept of a fragment that passes. -/
def Receiver.checkFcs (receiver : Receiver) (firstFragment : Bool) (fragment : EthernetFragment) :
    Option Receiver :=
  let fragmentFcs := ethernetCRC fragment.data 0
  let complete := ethernetCRC fragment.data
    (if firstFragment then 0 else receiver.lastFragmentCompleteFcs)
  let lastFragment := fragment.fcs != fragmentFcs ^^^ 0xFFFF0000
  if !lastFragment || fragment.fcs == complete then
    some { receiver with lastFragmentCompleteFcs := complete }
  else none

def Receiver.endDefragmentation (receiver : Receiver) : Receiver :=
  { receiver with defragmentedPacket := none, expectedFragmentNumber := 0 }

/-- `FragmentTagBasedDefragmenter::pushPacket`. -/
def Receiver.defragmentPacket (receiver : Receiver) (packet : TaggedPacket) : Except String Receiver :=
  if packet.fragmentNumber ≠ receiver.expectedFragmentNumber then
    return if receiver.defragmentedPacket.isSome then receiver.endDefragmentation else receiver
  else do
    if packet.firstFragment && receiver.defragmentedPacket.isSome then
      throw "ASSERT(defragmentedPacket == nullptr)"
    let started := if packet.firstFragment then some [] else receiver.defragmentedPacket
    match started with
    | none => throw "defragmentedPacket is null"
    | some content =>
      let whole := content ++ packet.data
      if packet.lastFragment then
        return { receiver with delivered := receiver.delivered ++ [whole] }.endDefragmentation
      else
        return { receiver with
          defragmentedPacket := some whole
          expectedFragmentNumber := receiver.expectedFragmentNumber + 1 }

/-- A fragment goes up as far as it passes the checks. -/
def Receiver.receive (receiver : Receiver) (fragment : EthernetFragment) : Except String Receiver :=
  match receiver.checkPhyHeader fragment with
  | none => return receiver
  | some (firstFragment, fragmentNumber, checked) =>
    match checked.checkFcs firstFragment fragment with
    | none => return checked
    | some passed =>
      passed.defragmentPacket
        { data := fragment.data, firstFragment, lastFragment := !fragment.mCrc, fragmentNumber }

/-! ### The link -/

/-- The two ends of a link, and the frames that wait. -/
structure Link where
  queue : List Bytes := []
  sender : Sender := {}
  receiver : Receiver := {}

inductive Event
  | enqueue (frame : Bytes)
  /-- A fragment is sent until so many bits have been pulled. -/
  | transmit (pulledLength : Nat)

/-- The packet that is streamed next. -/
def Link.pullPacketStart (link : Link) : Option (TaggedPacket × List Bytes) :=
  match link.sender.remainingPacket, link.queue with
  | some packet, queue => some (packet, queue)
  | none, frame :: queue =>
    some ({ data := frame, firstFragment := true, lastFragment := true, fragmentNumber := 0 }, queue)
  | none, [] => none

def Link.step (roundingLength minPacketLength : Nat) (link : Link) : Event → Except String Link
  | .enqueue frame => return { link with queue := link.queue ++ [frame] }
  | .transmit pulledLength =>
    match link.pullPacketStart with
    | none => return link
    | some (packet, queue) => do
      let (sent, remainingPacket) := pullPacketEnd roundingLength minPacketLength pulledLength packet
      let (fragment, sender) := link.sender.insertHeaders sent
      let receiver ← link.receiver.receive fragment
      return { queue, sender := { sender with remainingPacket }, receiver }

def Event.enqueued : Event → List Bytes
  | .enqueue frame => [frame]
  | .transmit _ => []

/-- The frame of which a part has been sent. -/
def Link.begun (link : Link) : List Bytes :=
  match link.sender.remainingPacket, link.receiver.defragmentedPacket with
  | some packet, some content => [content ++ packet.data]
  | _, _ => []

/-! ### The sequence of a frame -/

theorem ethernetCRC_append (first second : Bytes) :
    ethernetCRC (first ++ second) 0#32 = ethernetCRC second (ethernetCRC first 0#32) := by
  simp only [ethernetCRC, List.foldl_append, swapByteOrder_swapByteOrder, BitVec.xor_assoc,
    BitVec.xor_self, BitVec.xor_zero]

/-! ### In step -/

variable {sender : Sender} {receiver : Receiver} {packet : TaggedPacket} {link : Link}
  {content : Bytes}

/-- The packet is the next one that the receiver expects, which has the content before it. -/
inductive Expected (sender : Sender) (receiver : Receiver) (packet : TaggedPacket) :
    Bytes → Prop
  | first : packet.firstFragment = true → packet.fragmentNumber = 0 → sender.fragmentNumber = 0 →
      receiver.smdNumber ≠ sender.smdNumber → receiver.defragmentedPacket = none →
      receiver.expectedFragmentNumber = 0 → Expected sender receiver packet []
  | next {number : Nat} {content : Bytes} : packet.firstFragment = false →
      packet.fragmentNumber = number + 1 → sender.fragmentNumber = number % 256 →
      receiver.smdNumber = sender.smdNumber → receiver.fragmentNumber = number →
      sender.lastFragmentCompleteFcs = ethernetCRC content 0 →
      receiver.lastFragmentCompleteFcs = ethernetCRC content 0 →
      receiver.defragmentedPacket = some content →
      receiver.expectedFragmentNumber = number + 1 → Expected sender receiver packet content

/-- What the receiver has after a fragment that it expects. -/
def Receiver.continued (receiver : Receiver) (sender : Sender) (packet : TaggedPacket)
    (content : Bytes) : Receiver :=
  { smdNumber := sender.smdNumber
    fragmentNumber := packet.fragmentNumber
    lastFragmentCompleteFcs := ethernetCRC (content ++ packet.data) 0
    expectedFragmentNumber := if packet.lastFragment then 0 else packet.fragmentNumber + 1
    defragmentedPacket := if packet.lastFragment then none else some (content ++ packet.data)
    delivered := receiver.delivered ++ if packet.lastFragment then [content ++ packet.data] else [] }

theorem Expected.of_tag (expected : Expected sender receiver packet content) {other : TaggedPacket}
    (first : other.firstFragment = packet.firstFragment)
    (number : other.fragmentNumber = packet.fragmentNumber) :
    Expected sender receiver other content := by
  cases expected with
  | first tag zero sends smd empty expects =>
    exact .first (first.trans tag) (number.trans zero) sends smd empty expects
  | next behind tag sends smd receives sent received begun expects =>
    exact .next (first.trans behind) (number.trans tag) sends smd receives sent received begun expects

/-- The sequence of the frame up to a fragment is the same at both ends. -/
theorem Expected.complete (expected : Expected sender receiver packet content) :
    (sender.computeComputedFcs packet).2 = ethernetCRC (content ++ packet.data) 0 ∧
      ethernetCRC packet.data (if packet.firstFragment then 0 else receiver.lastFragmentCompleteFcs) =
        ethernetCRC (content ++ packet.data) 0 := by
  unfold Sender.computeComputedFcs
  cases expected with
  | first first _ _ _ _ _ => simp [first]
  | next behind _ _ _ _ sent received _ _ => simp [behind, sent, received, ethernetCRC_append]

theorem Expected.checkPhyHeader (expected : Expected sender receiver packet content) :
    receiver.checkPhyHeader (sender.insertHeaders packet).1 = some (packet.firstFragment,
      packet.fragmentNumber, { receiver with
        smdNumber := sender.smdNumber, fragmentNumber := packet.fragmentNumber }) := by
  unfold Receiver.checkPhyHeader Sender.insertHeaders
  cases expected with
  | first first number sends other _ _ =>
    simp [first, number, sends, other.symm]
  | @next number _ behind tag sends same receives _ _ _ _ =>
    have numbers : sender.fragmentNumber % 4 = receiver.fragmentNumber % 4 := by omega
    simp [behind, tag, ← same, numbers, receives]

theorem Expected.checkFcs (expected : Expected sender receiver packet content) {checked : Receiver}
    (same : checked.lastFragmentCompleteFcs = receiver.lastFragmentCompleteFcs) :
    checked.checkFcs packet.firstFragment (sender.insertHeaders packet).1 = some { checked with
      lastFragmentCompleteFcs := ethernetCRC (content ++ packet.data) 0 } := by
  obtain ⟨sends, receives⟩ := expected.complete
  have trailer : (sender.insertHeaders packet).1.fcs =
      if packet.lastFragment then ethernetCRC (content ++ packet.data) 0
      else ethernetCRC packet.data 0 ^^^ 0xFFFF0000 := by rw [← sends]; rfl
  have data : (sender.insertHeaders packet).1.data = packet.data := rfl
  unfold Receiver.checkFcs
  rw [trailer, data, same, receives]
  cases packet.lastFragment <;> simp

/-- A fragment that is expected passes both checks and is put behind the content. -/
theorem Expected.receive (expected : Expected sender receiver packet content) :
    receiver.receive (sender.insertHeaders packet).1 =
      .ok (receiver.continued sender packet content) := by
  have trailer : (sender.insertHeaders packet).1.mCrc = !packet.lastFragment := rfl
  have data : (sender.insertHeaders packet).1.data = packet.data := rfl
  unfold Receiver.receive
  rw [expected.checkPhyHeader]
  dsimp only
  rw [@Expected.checkFcs _ _ _ _ expected { receiver with
    smdNumber := sender.smdNumber, fragmentNumber := packet.fragmentNumber } rfl, trailer, data]
  unfold Receiver.defragmentPacket Receiver.continued Receiver.endDefragmentation
  cases expected with
  | first first number _ _ empty expects =>
    cases last : packet.lastFragment <;> simp [first, number, empty, expects] <;> rfl
  | next behind tag _ _ _ _ _ begun expects =>
    cases last : packet.lastFragment <;> simp [behind, tag, begun, expects] <;> rfl

/-- Between two fragments: a frame of which a part has been sent, or the next one, is expected. -/
structure Link.InStep (link : Link) : Prop where
  small : link.sender.smdNumber < 4
  expects : match link.sender.remainingPacket with
    | some packet => packet.lastFragment = true ∧ packet.firstFragment = false ∧
      ∃ content, link.receiver.defragmentedPacket = some content ∧
        Expected link.sender link.receiver packet content
    | none => ∀ packet : TaggedPacket, packet.firstFragment = true → packet.fragmentNumber = 0 →
      Expected link.sender link.receiver packet []

theorem pullPacketEnd_cases (roundingLength minPacketLength pulledLength : Nat)
    (packet : TaggedPacket) :
    pullPacketEnd roundingLength minPacketLength pulledLength packet = (packet, none) ∨
    ∃ front rest, packet.data = front ++ rest ∧
      pullPacketEnd roundingLength minPacketLength pulledLength packet =
        ({ packet with data := front, lastFragment := false },
          some ⟨rest, false, true, packet.fragmentNumber + 1⟩) := by
  unfold pullPacketEnd
  dsimp only
  split
  · exact .inr ⟨_, _, (List.take_append_drop _ _).symm, rfl⟩
  · exact .inl rfl

/-- One more fragment is sent: its frame is delivered, or the receiver has its part of it. -/
theorem Link.InStep.transmit (inStep : link.InStep) {queue : List Bytes}
    (roundingLength minPacketLength pulledLength : Nat)
    (started : link.pullPacketStart = some (packet, queue)) :
    ∃ next, link.step roundingLength minPacketLength (.transmit pulledLength) = .ok next ∧
      next.InStep ∧ next.receiver.delivered ++ next.begun ++ next.queue =
        link.receiver.delivered ++ link.begun ++ link.queue := by
  obtain ⟨content, expected, last, waits⟩ : ∃ content,
      Expected link.sender link.receiver packet content ∧ packet.lastFragment = true ∧
        link.begun ++ link.queue = (content ++ packet.data) :: queue := by
    have expects := inStep.expects
    unfold Link.pullPacketStart at started
    unfold Link.begun
    cases remains : link.sender.remainingPacket with
    | some remaining =>
      rw [remains] at expects started
      cases started
      obtain ⟨last, behind, content, begun, expected⟩ := expects
      exact ⟨content, expected, last, by rw [begun]; rfl⟩
    | none =>
      rw [remains] at expects started
      cases waiting : link.queue with
      | nil =>
        rw [waiting] at started
        cases started
      | cons frame rest =>
        rw [waiting] at started
        cases started
        exact ⟨[], expects _ rfl rfl, rfl, rfl⟩
  have small := inStep.small
  unfold Link.step
  rw [started]
  dsimp only
  rcases pullPacketEnd_cases roundingLength minPacketLength pulledLength packet with
    whole | ⟨front, rest, split, cut⟩
  · rw [whole, expected.receive, ok_bind]
    refine ⟨_, rfl, ⟨?_, fun other first number => ?_⟩, ?_⟩
    · simp only [Sender.insertHeaders, last, if_true]
      omega
    · refine .first first number (by simp [Sender.insertHeaders, last]) ?_
        (by simp [Receiver.continued, last]) (by simp [Receiver.continued, last])
      simp only [Receiver.continued, Sender.insertHeaders, last, if_true]
      omega
    · rw [List.append_assoc _ link.begun, waits]
      simp [Link.begun, Receiver.continued, last]
  · -- the front goes, and the rest is the packet that is expected after it
    have front_expected := expected.of_tag
      (show TaggedPacket.firstFragment { packet with data := front, lastFragment := false } = _ from rfl)
      rfl
    rw [cut, front_expected.receive, ok_bind]
    refine ⟨_, rfl,
      ⟨by simpa [Sender.insertHeaders] using small, rfl, rfl, content ++ front, ?_, ?_⟩, ?_⟩
    · simp [Receiver.continued]
    · refine @Expected.next _ _ _ packet.fragmentNumber _ rfl rfl ?_ rfl rfl
        front_expected.complete.1 rfl (by simp [Receiver.continued]) (by simp [Receiver.continued])
      simp only [Sender.insertHeaders]
      cases expected with
      | first first number sends _ _ _ => simp [first, number, sends]
      | next behind tag sends _ _ _ _ _ _ =>
        simp only [behind, tag, sends, Bool.false_eq_true, if_false]
        omega
    · rw [List.append_assoc _ link.begun, waits, split]
      simp [Link.begun, Receiver.continued]

/-- Frames may be stopped at any time and as often as one likes: no assertion fails, and the frames that
have been delivered, the one that has been begun and the ones that wait are those that were sent, in
order. -/
theorem preempted_delivered (roundingLength minPacketLength : Nat) (events : List Event) :
    ∃ link, events.foldlM (Link.step roundingLength minPacketLength) {} = .ok link ∧
      link.receiver.delivered ++ link.begun ++ link.queue = events.flatMap Event.enqueued := by
  suffices run : ∀ link : Link, link.InStep →
      ∃ last, events.foldlM (Link.step roundingLength minPacketLength) link = .ok last ∧
        last.receiver.delivered ++ last.begun ++ last.queue =
          link.receiver.delivered ++ link.begun ++ link.queue ++ events.flatMap Event.enqueued from
    run {} ⟨by decide, fun packet first number => .first first number rfl (by decide) rfl rfl⟩
  intro link inStep
  induction events generalizing link with
  | nil => exact ⟨link, rfl, by simp⟩
  | cons event rest ih =>
    obtain ⟨next, stepped, after, same⟩ : ∃ next,
        link.step roundingLength minPacketLength event = .ok next ∧ next.InStep ∧
          next.receiver.delivered ++ next.begun ++ next.queue =
            link.receiver.delivered ++ link.begun ++ link.queue ++ event.enqueued := by
      cases event with
      | enqueue frame =>
        exact ⟨_, rfl, ⟨inStep.small, inStep.expects⟩, by simp [Link.begun, Event.enqueued]⟩
      | transmit pulledLength =>
        cases started : link.pullPacketStart with
        | none => exact ⟨link, by simp [Link.step, started]; rfl, inStep, by simp [Event.enqueued]⟩
        | some start =>
          obtain ⟨next, stepped, after, same⟩ :=
            inStep.transmit roundingLength minPacketLength pulledLength started
          exact ⟨next, stepped, after, by simpa [Event.enqueued] using same⟩
    obtain ⟨last, ran, total⟩ := ih next after
    refine ⟨last, ?_, ?_⟩
    · rw [List.foldlM_cons, stepped, ok_bind, ran]
    · rw [total, same, List.flatMap_cons, List.append_assoc]

end Inet.Ethernet
