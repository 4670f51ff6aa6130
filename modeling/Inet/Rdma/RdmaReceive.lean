import Inet.Rdma.RdmaCrc

/-!
# Receiving RDMA packets

Headers count lengths in bytes, packets count them in bits. The marks of incorrect chunks are
given with a packet, its tags as far as they are read.
-/
namespace Inet.Rdma

open Lib Packet Chunk

/-- Kinds of `FieldsChunk`s among which RDMA headers are recognized. -/
class RdmaHeaderFields (F : Type) extends RdmaFields F where
  toHeader : F → Option RdmaHeader
  toHeader_ofHeader : ∀ header, toHeader (ofHeader header) = some header

instance {G : Type} [Fields G] : RdmaHeaderFields (RdmaHeader ⊕ G) where
  toHeader
    | .inl rdmaHeader => some rdmaHeader
    | .inr _ => none
  toHeader_ofHeader _ := rfl

/-- The whole bytes at the start of some bits. -/
def bytesOf : List Bool → List UInt8
  | a :: b :: c :: d :: e :: f :: g :: h :: rest =>
    UInt8.ofNat ([a, b, c, d, e, f, g, h].foldl (fun value bit => 2 * value + bit.toNat) 0) ::
      bytesOf rest
  | _ => []

variable {F : Type} [RdmaHeaderFields F]

/-- A chunk that is no header is serialized and read as one. -/
def headerOf (chunk : Chunk F) : RdmaHeader :=
  let parsed := (RdmaHeaderSerializer.deserialize (bytesOf chunk.bits)).1
  match chunk with
  | .fields content => (RdmaHeaderFields.toHeader content).getD parsed
  | _ => parsed

/-- A packet from the network layer: the tags with its protocol and addresses, and whether the
header and the peeked data are marked as correct. -/
structure Received (F : Type) where
  packet : Packet F
  networkProtocol : Protocol
  srcAddress : L3Address
  destAddress : L3Address
  isCorrect : Bool := true

/-- What the application gets. -/
structure Indication (F : Type) where
  packet : Packet F
  transportProtocolHeader : RdmaHeader
  srcPort : UInt16
  destPort : UInt16

structure ReceiveCounters where
  numPassedUp : Int := 0
  numDroppedBadChecksum : Int := 0
deriving DecidableEq, Repr

/-- The counters, and what is sent up if a packet is not dropped. -/
abbrev Outcome (F : Type) := ReceiveCounters × Option (Indication F)

section Receive

variable (sharing : Sharing F)

/-- `popAtFront<RdmaHeader>(b(-1), PF_ALLOW_INCORRECT)` -/
def popRdmaHeader (packet : Packet F) : Except ChunkError (RdmaHeader × Packet F) :=
  if packet.getDataLength = 0 then
    .error (.error "Returning an empty chunk (nullptr) is not allowed according to the flags: 8")
  else if packet.getDataLength < 8 * RDMA_HEADER_LENGTH then
    .error (.error "Returning an incomplete chunk is not allowed according to the flags: 8")
  else do
    match ← packet.popAtFront sharing (8 * RDMA_HEADER_LENGTH) {} with
    | (none, _) => throw .undefinedBehaviour
    | (some chunk, popped) => return (headerOf chunk, popped)

/-- `packet` is what is left behind the header. -/
def hasIncorrectLength (rdmaHeader : RdmaHeader) (packet : Packet F) : Bool :=
  rdmaHeader.totalLengthField < RDMA_HEADER_LENGTH ∨
    8 * RDMA_HEADER_LENGTH + packet.getDataLength < 8 * rdmaHeader.totalLengthField

/-- The lower layer paddings are removed. -/
def removePadding (rdmaHeader : RdmaHeader) (popPosition : Nat) (packet : Packet F) :
    Except ChunkError (Packet F) :=
  if 8 * rdmaHeader.totalLengthField < packet.getDataLength then
    packet.setBackOffset (popPosition + 8 * rdmaHeader.totalLengthField).toNat
  else .ok packet

def sendUp (counters : ReceiveCounters) (header : RdmaHeader) (payload : Packet F) : Outcome F :=
  ({ counters with numPassedUp := counters.numPassedUp + 1 },
    some ⟨payload, header, header.srcPort, header.destPort⟩)

def drop (counters : ReceiveCounters) : Outcome F :=
  ({ counters with numDroppedBadChecksum := counters.numDroppedBadChecksum + 1 }, none)

namespace Received

variable (received : Received F) (counters : ReceiveCounters)

/-- The checksum test of what is left behind the header. -/
def verifies (rdmaHeader : RdmaHeader) (packet : Packet F) : Except ChunkError Bool :=
  verifyCrc received.networkProtocol received.srcAddress received.destAddress rdmaHeader
    (bytesOf packet.dataBits) received.isCorrect

def processRdmaPacket : Except ChunkError (Outcome F) := do
  let rdmaHeaderPopPosition := received.packet.getFrontOffset
  let (rdmaHeader, rdmaPacket) ← popRdmaHeader sharing received.packet
  if hasIncorrectLength rdmaHeader rdmaPacket then return drop counters
  if ← received.verifies rdmaHeader rdmaPacket then
    let rdmaPacket ← removePadding rdmaHeader rdmaHeaderPopPosition rdmaPacket
    return sendUp counters rdmaHeader rdmaPacket
  else return drop counters

end Received

/-! ### Which data is sent up -/

/-- The packet sent up has the data that the header counts, and a packet that does not pass the
tests is counted. -/
def Received.LengthHandled (received : Received F) (counters : ReceiveCounters) : Prop :=
  ∀ rdmaHeader rdmaPacket, popRdmaHeader sharing received.packet = .ok (rdmaHeader, rdmaPacket) →
    (hasIncorrectLength rdmaHeader rdmaPacket = true ∨
        received.verifies rdmaHeader rdmaPacket = .ok false →
      received.processRdmaPacket sharing counters = .ok
        ({ counters with numDroppedBadChecksum := counters.numDroppedBadChecksum + 1 }, none)) ∧
    (hasIncorrectLength rdmaHeader rdmaPacket = false →
      received.verifies rdmaHeader rdmaPacket = .ok true →
      let length := 8 * (rdmaHeader.totalLengthField - RDMA_HEADER_LENGTH)
      ∃ indication, received.processRdmaPacket sharing counters = .ok
          ({ counters with numPassedUp := counters.numPassedUp + 1 }, some indication) ∧
        indication.packet.getDataLength = length ∧
        indication.packet.dataBits = rdmaPacket.dataBits.take length.toNat)

/-- What popping the header leaves of a packet. -/
structure HeaderPopped (packet popped : Packet F) : Prop where
  content : popped.content = packet.content
  total : popped.totalLength = packet.totalLength
  back : popped.backIterator = packet.backIterator
  front : popped.frontIterator.position = packet.frontIterator.position + 64
  separated : popped.frontIterator.position + popped.backIterator.position ≤ popped.totalLength

variable {sharing} {packet popped : Packet F} {rdmaHeader : RdmaHeader}

/-- A part of the data is popped. -/
theorem popAtFront_moves (consistent : packet.IsConsistent) {length : Nat} (flags : PeekFlags)
    (positive : 0 < length) (inside : length ≤ packet.getDataLength) :
    ∃ chunk frontIterator, packet.popAtFront sharing length flags =
        .ok (some chunk, { packet with frontIterator }) ∧
      frontIterator.position = packet.frontIterator.position + length := by
  have total := consistent.total
  have separated := consistent.separated
  have within : packet.frontIterator.position + packet.backIterator.position + length ≤
      packet.totalLength := by
    unfold Packet.getDataLength at inside
    omega
  have pointed := IndexConsistent.of_check consistent.wf (by omega) consistent.front
  obtain ⟨chunk, peeks, peeked, _⟩ := peek_peeked sharing packet.content packet.frontIterator length
    flags consistent.wf positive (by omega) pointed.inRange
  have peeks_front : packet.peekAtFront sharing length flags = .ok (some chunk) := by
    unfold Packet.peekAtFront
    simp only
    rw [if_neg (by omega), if_neg (by omega), peeks]
  obtain ⟨frontIterator, moves⟩ := (moveIterator_returns_iff packet.content packet.frontIterator
    chunk.getChunkLength).mpr pointed.inRange
  refine ⟨chunk, frontIterator, ?_, ?_⟩
  · unfold Packet.popAtFront
    rw [peeks_front, ok_bind]
    simp only [moves, ok_bind]
    rfl
  · rw [moveIterator_position moves, peeked.length_eq]
    rfl

theorem popRdmaHeader_popped (consistent : packet.IsConsistent)
    (pops : popRdmaHeader sharing packet = .ok (rdmaHeader, popped)) :
    HeaderPopped packet popped := by
  unfold popRdmaHeader at pops
  split at pops
  next => cases pops
  split at pops
  next => cases pops
  next long =>
    have inside : ((64 : Nat) : Int) ≤ packet.getDataLength := Int.not_lt.mp long
    obtain ⟨chunk, frontIterator, pop_eq, position⟩ : ∃ chunk frontIterator,
        packet.popAtFront sharing (8 * RDMA_HEADER_LENGTH) {} =
          .ok (some chunk, { packet with frontIterator }) ∧
        frontIterator.position = packet.frontIterator.position + (64 : Nat) :=
      popAtFront_moves consistent {} (by decide) inside
    rw [pop_eq] at pops
    cases pops
    refine ⟨rfl, rfl, rfl, position, ?_⟩
    unfold Packet.getDataLength at inside
    simp only at position ⊢
    omega

omit [RdmaHeaderFields F] in
theorem HeaderPopped.dataLength (pop : HeaderPopped packet popped) :
    popped.getDataLength = packet.getDataLength - 64 := by
  unfold Packet.getDataLength
  rw [pop.total, pop.back, pop.front]
  omega

/-- The separator is set where the data that the header counts ends. -/
theorem removePadding_removes (consistent : packet.IsConsistent)
    (pop : HeaderPopped packet popped) (counted : RDMA_HEADER_LENGTH ≤ rdmaHeader.totalLengthField)
    (padded : 8 * rdmaHeader.totalLengthField < popped.getDataLength) :
    ∃ trimmed, removePadding rdmaHeader packet.getFrontOffset popped = .ok trimmed ∧
      trimmed.getDataLength = 8 * (rdmaHeader.totalLengthField - RDMA_HEADER_LENGTH) ∧
      trimmed.dataBits = popped.dataBits.take
        (8 * (rdmaHeader.totalLengthField - RDMA_HEADER_LENGTH)).toNat := by
  have total := consistent.total
  have front := pop.front
  have separated := pop.separated
  have total_eq := pop.total
  have data := padded
  unfold Packet.getDataLength at data
  simp only [RDMA_HEADER_LENGTH] at counted ⊢
  obtain ⟨length, length_eq⟩ : ∃ length : Nat, rdmaHeader.totalLengthField = length :=
    ⟨rdmaHeader.totalLengthField.toNat, by omega⟩
  rw [length_eq] at data counted ⊢
  let offset := packet.frontIterator.position + 8 * length
  obtain ⟨index, sought, _⟩ := seekIterator_ok popped.content popped.backIterator
    (popped.totalLength - offset) (by rw [pop.content]; exact consistent.wf)
    (by rw [pop.content]; omega)
  refine ⟨{ popped with backIterator := ⟨popped.backIterator.isForward,
    popped.totalLength - offset, index⟩ }, ?_, ?_, ?_⟩
  · unfold removePadding
    rw [if_pos padded, length_eq]
    have offset_eq : ((packet.getFrontOffset : Int) + 8 * length).toNat = offset := by
      unfold Packet.getFrontOffset
      omega
    rw [offset_eq, Packet.setBackOffset, if_neg (by omega), sought]
    rfl
  · unfold Packet.getDataLength
    simp only
    omega
  · unfold Packet.dataBits Packet.getDataLength
    simp only [part, List.take_take]
    congr 1
    omega

theorem removePadding_keeps (unpadded : ¬ 8 * rdmaHeader.totalLengthField < popped.getDataLength)
    (popPosition : Nat) : removePadding rdmaHeader popPosition popped = .ok popped := by
  rw [removePadding, if_neg unpadded]

namespace Received

variable {received : Received F} {counters : ReceiveCounters} {rdmaPacket : Packet F}

/-- A packet that fails a test is dropped. -/
theorem processRdmaPacket_drops
    (pops : popRdmaHeader sharing received.packet = .ok (rdmaHeader, rdmaPacket))
    (fails : hasIncorrectLength rdmaHeader rdmaPacket = true ∨
      received.verifies rdmaHeader rdmaPacket = .ok false) :
    received.processRdmaPacket sharing counters = .ok (drop counters) := by
  unfold processRdmaPacket
  simp only [pops, ok_bind]
  cases length : hasIncorrectLength rdmaHeader rdmaPacket with
  | true => rfl
  | false =>
    have unverified := fails.resolve_left (by rw [length]; decide)
    rw [unverified]
    rfl

/-- A packet that passes the tests is sent up without its padding. -/
theorem processRdmaPacket_sends {trimmed : Packet F}
    (pops : popRdmaHeader sharing received.packet = .ok (rdmaHeader, rdmaPacket))
    (correct : hasIncorrectLength rdmaHeader rdmaPacket = false)
    (verified : received.verifies rdmaHeader rdmaPacket = .ok true)
    (removes : removePadding rdmaHeader received.packet.getFrontOffset rdmaPacket = .ok trimmed) :
    received.processRdmaPacket sharing counters = .ok (sendUp counters rdmaHeader trimmed) := by
  unfold processRdmaPacket
  simp only [pops, ok_bind, correct, verified, removes]
  rfl

/-- The data that is sent up is what the header counts exactly if the packet has no padding, or
more padding than the length of a header: the length with the header is compared with the one
without. -/
theorem lengthHandled_iff (sharing : Sharing F) (received : Received F)
    (counters : ReceiveCounters) (consistent : received.packet.IsConsistent)
    (rdmaHeader : RdmaHeader) (rdmaPacket : Packet F)
    (pops : popRdmaHeader sharing received.packet = .ok (rdmaHeader, rdmaPacket)) :
    received.LengthHandled sharing counters ↔
      (hasIncorrectLength rdmaHeader rdmaPacket = false →
        received.verifies rdmaHeader rdmaPacket = .ok true →
        let padding := received.packet.getDataLength - 8 * rdmaHeader.totalLengthField
        padding = 0 ∨ 8 * RDMA_HEADER_LENGTH < padding) := by
  have pop := popRdmaHeader_popped consistent pops
  have dataLength := pop.dataLength
  constructor
  · intro handled correct verified padding
    obtain ⟨indication, returned, length_eq, _⟩ :=
      (handled rdmaHeader rdmaPacket pops).2 correct verified
    by_contra other
    simp only [padding, RDMA_HEADER_LENGTH] at other
    have unpadded : ¬ 8 * rdmaHeader.totalLengthField < rdmaPacket.getDataLength := by omega
    rw [processRdmaPacket_sends pops correct verified (removePadding_keeps unpadded _)] at returned
    cases returned
    simp only [RDMA_HEADER_LENGTH] at length_eq
    omega
  · intro padding header packet pops'
    rw [pops] at pops'
    cases pops'
    refine ⟨fun fails => processRdmaPacket_drops pops fails, ?_⟩
    intro correct verified length
    have lengths := correct
    simp only [hasIncorrectLength, decide_eq_false_iff_not, not_or, Int.not_lt] at lengths
    rcases padding correct verified with none | more
    · -- nothing is removed, the whole data is counted
      have length_eq : rdmaPacket.getDataLength = length := by
        simp only [length, RDMA_HEADER_LENGTH]
        omega
      have unpadded : ¬ 8 * rdmaHeader.totalLengthField < rdmaPacket.getDataLength := by omega
      refine ⟨_, processRdmaPacket_sends pops correct verified (removePadding_keeps unpadded _),
        length_eq, ?_⟩
      simp only
      rw [List.take_of_length_le]
      rw [← length_eq]
      exact List.length_take_le _ _
    · simp only [RDMA_HEADER_LENGTH] at more
      obtain ⟨trimmed, removes, length_eq, data_eq⟩ := removePadding_removes consistent pop
        lengths.1 (by omega)
      exact ⟨_, processRdmaPacket_sends pops correct verified removes, length_eq, data_eq⟩

end Received
end Receive

/-! ### Examples -/

def messageHeader : RdmaHeader where
  srcPort := 1000
  destPort := 2000
  totalLengthField := 10
  crcMode := .CRC_DISABLED

/-- A message of two bytes without a checksum, and its padding. -/
def paddedMessage (padding : Nat) : Received (RdmaHeader ⊕ List Bool) where
  packet := .ofContent (.sequence [.fields (.inl messageHeader), .bytes [1, 2], .byteCount padding 0])
  networkProtocol := .ipv4
  srcAddress := .ipv4 0x0a000001
  destAddress := .ipv4 0x0a000002

theorem paddedMessage_consistent (padding : Nat) (positive : 0 < padding) :
    (paddedMessage padding).packet.IsConsistent := by
  apply Packet.ofContent_consistent
  refine .sequence ?_ ?_ <;> intro chunk member <;>
    simp only [List.mem_cons, List.not_mem_nil, or_false] at member
  · rcases member with rfl | rfl | rfl <;> constructor
  · rcases member with rfl | rfl | rfl
    · decide
    · decide
    · rw [Chunk.getChunkLength]
      omega

/-- The message when its header is popped. -/
def poppedMessage (padding : Nat) : Packet (RdmaHeader ⊕ List Bool) :=
  { (paddedMessage padding).packet with frontIterator := ⟨true, 64, some 1⟩ }

theorem paddedMessage_pops : popRdmaHeader (.never _) (paddedMessage 20).packet =
    .ok (messageHeader, poppedMessage 20) := by
  rfl

/-- With 20 bytes of padding, the two bytes are sent up. -/
theorem twentyBytes_removed : (paddedMessage 20).LengthHandled (.never _) {} := by
  apply (Received.lengthHandled_iff (.never _) (paddedMessage 20) {}
    (paddedMessage_consistent 20 (by decide)) messageHeader (poppedMessage 20)
    paddedMessage_pops).mpr
  intro correct verified padding
  exact .inr (by decide)

/-- With four bytes of padding, six bytes are sent up. -/
theorem fourBytes_kept : ¬ ∀ (received : Received (RdmaHeader ⊕ List Bool)),
    received.packet.IsConsistent → received.LengthHandled (.never _) {} := by
  intro all
  have handled := all (paddedMessage 4) (paddedMessage_consistent 4 (by decide))
  obtain ⟨indication, returned, length_eq, _⟩ :=
    (handled messageHeader (poppedMessage 4) rfl).2 rfl rfl
  have sent : (paddedMessage 4).processRdmaPacket (.never _) {} =
      .ok (sendUp {} messageHeader (poppedMessage 4)) := rfl
  rw [sent] at returned
  cases returned
  exact absurd length_eq (by decide)

end Inet.Rdma
