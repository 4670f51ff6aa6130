import Inet.Rdma.Rdma

/-!
# Fragmentation and reassembly of RDMA messages

The sender leaves out the length of a header of a packet that has no header yet, and it gives
each fragment two headers, one of which the receiver takes for data.
-/
set_option linter.dupNamespace false

namespace Inet.Rdma

open Lib Packet

variable {F : Type} [RdmaFields F]

namespace Rdma

variable {sharing : Sharing F} {rdma after : Rdma} {request : Request F}
  {fragments : List (Datagram RdmaHeader F)} {bits : List Bool}

omit [RdmaFields F] in
theorem setCrc_fields {rdmaHeader inserted : RdmaHeader}
    (returned : rdma.setCrc request rdmaHeader = .ok inserted) :
    ∃ crc crcMode, inserted = { rdmaHeader with crc, crcMode } := by
  unfold setCrc at returned
  split at returned
  next =>
    cases returned
    exact ⟨_, _, rfl⟩
  next =>
    unfold insertCrc at returned
    split at returned
    next => cases returned; exact ⟨_, _, rfl⟩
    next => cases returned; exact ⟨_, _, rfl⟩
    next => cases returned; exact ⟨_, _, rfl⟩
    next =>
      obtain ⟨crc, _, ⟨⟩⟩ := bind_eq_ok.mp returned
      exact ⟨_, _, rfl⟩
    next => cases returned

/-- A header as a chunk. -/
theorem insertable_header (rdmaHeader : RdmaHeader) :
    (Chunk.fields (RdmaFields.ofHeader rdmaHeader : F)).Insertable := by
  refine ⟨.fields _, ?_, .fields _⟩
  rw [Chunk.getChunkLength, length_serialize]
  decide

/-- The bits of a header. -/
def headerBits (F : Type) [RdmaFields F] (rdmaHeader : RdmaHeader) : List Bool :=
  Fields.serialize (RdmaFields.ofHeader rdmaHeader : F)

@[simp] theorem length_headerBits (rdmaHeader : RdmaHeader) :
    (headerBits F rdmaHeader).length = 64 :=
  length_serialize rdmaHeader

/-- A fragment of a message, as the receiver sees it. -/
structure SentOf (bits : List Bool) (payloadLength fragmentLength : Int)
    (fragment : Datagram RdmaHeader F) : Prop where
  carries : fragment.packet.Carries (headerBits F fragment.header ++ (headerBits F fragment.header ++
    part bits (64 + (RdmaAppFragBuf.format F).start fragment)
      ((RdmaAppFragBuf.format F).length fragment)))
  aligned : ((RdmaAppFragBuf.format F).start fragment : Int) % (8 * fragmentLength) = 0
  last : fragment.header.moreFragments = false →
    ((RdmaAppFragBuf.format F).stop fragment : Int) = 8 * payloadLength

theorem fragmentAt_sent {payloadLength fragmentLength length : Int} {offset : Nat}
    {fragment : Datagram RdmaHeader F} (carries : request.packet.Carries bits)
    (before : offset < payloadLength) (positive : 0 < fragmentLength)
    (aligned : (offset : Int) % fragmentLength = 0)
    (returned : rdma.fragmentAt sharing request payloadLength fragmentLength offset =
      .ok (fragment, length)) :
    SentOf bits payloadLength fragmentLength fragment ∧
      length = min fragmentLength (payloadLength - offset) := by
  unfold fragmentAt at returned
  simp only at returned
  split at returned
  next => cases returned
  next fits =>
    generalize this_eq : (if decide (payloadLength ≤ offset + fragmentLength) = true then
      payloadLength - (offset : Int) else fragmentLength) = this at returned
    have this_positive : 0 < this := by
      rw [← this_eq]
      split <;> omega
    have this_min : this = min fragmentLength (payloadLength - offset) := by
      rw [← this_eq]
      simp only [decide_eq_true_eq]
      split <;> omega
    obtain ⟨length, rfl⟩ := Int.eq_ofNat_of_zero_le (Int.le_of_lt this_positive)
    obtain ⟨peeked, peeked_eq, returned⟩ := bind_eq_ok.mp returned
    cases peeked with
    | none => cases returned
    | some fragData =>
      simp only at returned
      split at returned
      next => cases returned
      next =>
        obtain ⟨started, started_eq, returned⟩ := bind_eq_ok.mp returned
        obtain ⟨fraghdr, fraghdr_eq, returned⟩ := bind_eq_ok.mp returned
        obtain ⟨headed, headed_eq, returned⟩ := bind_eq_ok.mp returned
        obtain ⟨twice, twice_eq, ⟨⟩⟩ := bind_eq_ok.mp returned
        have positive : 0 < 8 * length := by omega
        obtain ⟨insertable, _, data_bits⟩ := carries.peekedDataAt positive peeked_eq
        obtain ⟨unpopped, carried⟩ := Packet.empty_carries.insertedAtBack Packet.empty_unpopped
          insertable started_eq
        obtain ⟨unpopped, carried⟩ := carried.insertedAtFront unpopped (insertable_header _) headed_eq
        obtain ⟨unpopped, carried⟩ := carried.insertedAtFront unpopped (insertable_header _) twice_eq
        obtain ⟨crc, crcMode, rfl⟩ := setCrc_fields fraghdr_eq
        have start_eq : (8 * (offset : Int)).toNat = 8 * offset := by omega
        have length_eq : (8 * ((RDMA_HEADER_LENGTH : Int) + length - RDMA_HEADER_LENGTH)).toNat =
            8 * length := by omega
        refine ⟨⟨?_, ?_, ?_⟩, this_min⟩
        · simp only [FragmentFormat.start, FragmentFormat.length, RdmaAppFragBuf.format, start_eq,
            length_eq]
          rw [List.nil_append, data_bits, RDMA_HEADER_LENGTH, Nat.mul_add] at carried
          exact carried
        · simp only [FragmentFormat.start, RdmaAppFragBuf.format, start_eq]
          rw [show ((8 * offset : Nat) : Int) = 8 * offset by omega,
            Int.mul_emod_mul_of_pos _ _ (by decide), aligned]
          rfl
        · intro last
          simp only [FragmentFormat.stop, FragmentFormat.start, FragmentFormat.length,
            RdmaAppFragBuf.format, start_eq, length_eq] at last ⊢
          split at last
          next ends =>
            rw [if_pos ends] at this_eq
            omega
          next => cases last

theorem fragmentsFrom_sent {payloadLength fragmentLength : Int} {bound offset : Nat}
    (carries : request.packet.Carries bits) (positive : 0 < fragmentLength)
    (aligned : offset < payloadLength → (offset : Int) % fragmentLength = 0)
    (returned : rdma.fragmentsFrom sharing request payloadLength fragmentLength bound offset =
      .ok fragments) : ∀ fragment ∈ fragments, SentOf bits payloadLength fragmentLength fragment := by
  induction bound generalizing offset fragments with
  | zero =>
    unfold fragmentsFrom at returned
    split at returned
    next => cases returned
    next => cases returned; simp
  | succ bound ih =>
    unfold fragmentsFrom at returned
    split at returned
    next before =>
      obtain ⟨⟨fragment, length⟩, made, returned⟩ := bind_eq_ok.mp returned
      obtain ⟨rest, rest_eq, ⟨⟩⟩ := bind_eq_ok.mp returned
      obtain ⟨sent, rfl⟩ := fragmentAt_sent carries before positive (aligned before) made
      refine List.forall_mem_cons.mpr ⟨sent, ih (fun more => ?_) rest_eq⟩
      -- there is another fragment only behind one of the full length
      have next_eq : ((offset + min fragmentLength (payloadLength - offset)).toNat : Int) =
          offset + fragmentLength := by omega
      rw [next_eq, Int.add_emod_right, aligned before]
    next => cases returned; simp

/-- A message is sent whole, or in fragments if it is too long. -/
theorem handleUpperPacket_cases
    (returned : rdma.handleUpperPacket sharing request = .ok (fragments, after)) :
    after = { rdma with numSent := rdma.numSent + 1 } ∧ ∃ totalLength,
      (request.packet.totalLength : Int) = 8 * totalLength ∧
      (RDMA_HEADER_LENGTH + totalLength ≤ RDMA_MAX_MESSAGE_SIZE ∧ (∃ header packet,
        header.totalLengthField = RDMA_HEADER_LENGTH + totalLength ∧ header.fragmentOffset = 0 ∧
          request.packet.insertAtFront sharing (.fields (RdmaFields.ofHeader header)) = .ok packet ∧
            fragments = [⟨header, packet⟩]) ∨
      RDMA_MAX_MESSAGE_SIZE < RDMA_HEADER_LENGTH + totalLength ∧ ∃ dataLength,
        request.packet.getDataLength = 8 * dataLength ∧
          rdma.fragmentsFrom sharing request (payloadLength dataLength) fragmentLength
            (payloadLength dataLength).toNat 0 = .ok fragments) := by
  unfold handleUpperPacket at returned
  simp only at returned
  split at returned
  next => cases returned
  split at returned
  next => cases returned
  obtain ⟨totalLength, total_eq, returned⟩ := bind_eq_ok.mp returned
  split at returned
  next short =>
    obtain ⟨header, header_eq, returned⟩ := bind_eq_ok.mp returned
    obtain ⟨packet, packet_eq, ⟨⟩⟩ := bind_eq_ok.mp returned
    obtain ⟨crc, crcMode, rfl⟩ := setCrc_fields header_eq
    exact ⟨rfl, totalLength, toBytes_eq total_eq,
      .inl ⟨short, _, packet, rfl, rfl, packet_eq, rfl⟩⟩
  next long =>
    obtain ⟨dataLength, data_eq, returned⟩ := bind_eq_ok.mp returned
    obtain ⟨sent, sent_eq, ⟨⟩⟩ := bind_eq_ok.mp returned
    exact ⟨rfl, totalLength, toBytes_eq total_eq,
      .inr ⟨by omega, dataLength, toBytes_eq data_eq, sent_eq⟩⟩

end Rdma

/-! ### Round trips -/

/-- A message that is not a fragment: a header and some data. -/
structure Delivers (bits : List Bool) (whole : Datagram RdmaHeader F) : Prop where
  offset : whole.header.fragmentOffset = 0
  more : whole.header.moreFragments = false
  data : whole.packet.dataBits =
    Fields.serialize (RdmaFields.ofHeader whole.header : F) ++ bits

/-- Something is sent for a message, and however it is delivered, the data of the message is
returned exactly when the last missing fragment arrives. -/
def RoundTrips (sharing : Sharing F) (rdma : Rdma) (request : Request F) : Prop :=
  ∃ fragments after, rdma.handleUpperPacket sharing request = .ok (fragments, after) ∧
    fragments ≠ [] ∧
    ∀ deliveries : List (Datagram RdmaHeader F), (∀ fragment ∈ deliveries, fragment ∈ fragments) →
      ∃ results bufs, (RdmaAppFragBuf.format F).addFragments sharing (fun _ => none) deliveries =
          .ok (results, bufs) ∧
        Reassembles fragments (Delivers request.packet.dataBits) [] deliveries results

theorem payloadLength_le {dataLength : Int} (long : RDMA_HEADER_LENGTH ≤ dataLength) :
    Rdma.payloadLength dataLength ≤ dataLength - RDMA_HEADER_LENGTH := by
  rw [RDMA_HEADER_LENGTH] at long
  rw [Rdma.payloadLength, RDMA_HEADER_LENGTH, Int.bmod]
  split <;> omega

/-- What is returned of fragments of a message is shorter than the message. -/
theorem returned_not_delivers {sharing : Sharing F} {rdma after : Rdma} {request : Request F}
    {bits : List Bool} {fragments deliveries : List (Datagram RdmaHeader F)}
    {results : List (Option (Datagram RdmaHeader F))} {bufs : Buffers RdmaHeader RdmaAppFragBuf.Key F}
    (carries : request.packet.Carries bits) (unpopped : request.packet.Unpopped)
    (long : RDMA_MAX_MESSAGE_SIZE < RDMA_HEADER_LENGTH + bits.length / 8)
    (sent : rdma.handleUpperPacket sharing request = .ok (fragments, after))
    (from_fragments : ∀ fragment ∈ deliveries, fragment ∈ fragments)
    (returned : (RdmaAppFragBuf.format F).addFragments sharing (fun _ => none) deliveries =
      .ok (results, bufs))
    (whole : Datagram RdmaHeader F) (member : some whole ∈ results) : ¬Delivers bits whole := by
  intro delivers
  have length_eq := carries.getDataLength
  have total_eq : (request.packet.totalLength : Int) = bits.length := by
    rw [← length_eq]
    unfold Packet.getDataLength
    rw [unpopped.front, unpopped.back]
    omega
  rw [RDMA_MAX_MESSAGE_SIZE, RDMA_HEADER_LENGTH] at long
  obtain ⟨_, totalLength, total, ⟨short, _⟩ | ⟨_, dataLength, data_eq, sent⟩⟩ :=
    Rdma.handleUpperPacket_cases sent
  · rw [RDMA_MAX_MESSAGE_SIZE, RDMA_HEADER_LENGTH] at short
    omega
  · have each := Rdma.fragmentsFrom_sent carries (by decide) (fun _ => rfl) sent
    obtain ⟨first, last, payload, _, among_last, no_more, payload_length, _, carries_whole, _⟩ :=
      FragmentFormat.addFragments_madeOf (fun fragment => fragment ∈ fragments) deliveries
        (fun fragment given => ⟨from_fragments fragment given,
          _, (each fragment (from_fragments fragment given)).carries⟩)
        (fun _ => FragmentFormat.new_sources _) returned whole member
    -- what is returned ends where the last fragment ends, and that is too early
    have ends := (each last among_last).last no_more
    have same := carries_whole.data.symm.trans delivers.data
    have payload_eq := congrArg List.length (List.append_cancel_left same)
    have long : (RDMA_HEADER_LENGTH : Int) ≤ dataLength := by rw [RDMA_HEADER_LENGTH]; omega
    have shorter := payloadLength_le long
    rw [RDMA_HEADER_LENGTH] at shorter
    omega

/-- No message that is fragmented is returned. -/
theorem fragmented_never_roundTrips (sharing : Sharing F) (rdma : Rdma) (request : Request F)
    (bits : List Bool) (carries : request.packet.Carries bits) (unpopped : request.packet.Unpopped)
    (long : RDMA_MAX_MESSAGE_SIZE < RDMA_HEADER_LENGTH + bits.length / 8) :
    ¬RoundTrips sharing rdma request := by
  rintro ⟨fragments, after, sent, some_sent, delivered⟩
  obtain ⟨results, bufs, returned, reassembles⟩ := delivered fragments fun _ member => member
  obtain ⟨whole, member, delivers⟩ := reassembles.completes some_sent fun _ member => .inr member
  rw [carries.data] at delivers
  exact returned_not_delivers carries unpopped long sent (fun _ member => member) returned whole
    member delivers

/-! ### Examples -/

/-- A message that is filled with a number of bytes. -/
def filled (length : Nat) : Request (RdmaHeader ⊕ List Bool) where
  packet := .ofContent (.byteCount length '?'.toUInt8)
  destAddr := .ipv4 0x0a000002
  portsReq := some (1000, 2000)

theorem filled_carries (length : Nat) :
    (filled length).packet.Carries (fillBits length '?'.toUInt8) :=
  Packet.carries_of_content (.byteCount _ _) (.byteCount _) rfl ⟨rfl, rfl⟩ rfl

theorem filled_unpopped (length : Nat) : (filled length).packet.Unpopped := ⟨rfl, rfl⟩

/-- One that is one byte too long to be sent whole. -/
theorem fragmented_never_roundTrips_filled :
    ¬RoundTrips (.never _) ⟨3, .CRC_DISABLED, 0⟩ (filled 4089) :=
  fragmented_never_roundTrips (.never _) _ _ _ (filled_carries 4089) (filled_unpopped 4089)
    (by rw [Chunk.length_fillBits]; decide)

/-- The first 8 bytes of the message are never sent, and its header is returned as data. -/
theorem fragmented_loses_data :
    ¬ ∀ (request : Request (RdmaHeader ⊕ List Bool)) (bits : List Bool),
      request.packet.Carries bits → request.packet.Unpopped →
      RDMA_MAX_MESSAGE_SIZE < RDMA_HEADER_LENGTH + bits.length / 8 →
      RoundTrips (.never _) ⟨3, .CRC_DISABLED, 0⟩ request := by
  intro all
  have long : RDMA_MAX_MESSAGE_SIZE < RDMA_HEADER_LENGTH + (fillBits 4089 '?'.toUInt8).length / 8 := by
    rw [Chunk.length_fillBits]
    decide
  obtain ⟨fragments, after, sent, some_sent, delivered⟩ := all (filled 4089) _ (filled_carries 4089)
    (filled_unpopped 4089) long
  obtain ⟨results, bufs, returned, reassembles⟩ := delivered fragments fun _ member => member
  obtain ⟨whole, member, delivers⟩ := reassembles.completes some_sent fun _ member => .inr member
  rw [(filled_carries 4089).data] at delivers
  exact returned_not_delivers (filled_carries 4089) (filled_unpopped 4089) long sent
    (fun _ member => member) returned whole member delivers

end Inet.Rdma

/-!
## Fragments of several RDMA hosts

The key of a buffer has no addresses, the identifications of different hosts overlap, and the
copies of a header that the fragments get have no identification at all.
-/
set_option linter.dupNamespace false

namespace Inet.Rdma

open Lib Packet

variable {F : Type} [RdmaFields F]
variable {i : Nat}

/-- A host that sends some messages. -/
structure Host (F : Type) where
  moduleId : Int
  crcMode : CrcMode
  requests : List (Request F)

def Host.rdma (host : Host F) : Rdma := { moduleId := host.moduleId, crcMode := host.crcMode }

variable {ι : Type} {sharing : Sharing F}

/-- The fragments of the message of a host, by the number of messages before it. -/
def Sent (sharing : Sharing F) (hosts : ι → Host F) (origin : ι × Nat)
    (fragment : Datagram RdmaHeader F) : Prop :=
  ∃ lists after fragments, (hosts origin.1).rdma.handleUpperPackets sharing (hosts origin.1).requests =
      .ok (lists, after) ∧ lists[origin.2]? = some fragments ∧ fragment ∈ fragments

/-- Each message is sent by the module that has sent the ones before it. -/
theorem Rdma.handleUpperPackets_getElem {rdma after : Rdma} {requests : List (Request F)}
    {lists : List (List (Datagram RdmaHeader F))} {fragments : List (Datagram RdmaHeader F)} {k : Nat}
    (returned : rdma.handleUpperPackets sharing requests = .ok (lists, after))
    (found : lists[k]? = some fragments) :
    ∃ request, requests[k]? = some request ∧ ∃ next,
      ({ rdma with numSent := rdma.numSent + k } : Rdma).handleUpperPacket sharing request =
        .ok (fragments, next) := by
  induction requests generalizing rdma lists k with
  | nil =>
    cases returned
    cases found
  | cons request rest ih =>
    obtain ⟨⟨first, middle⟩, first_eq, returned⟩ := bind_eq_ok.mp returned
    obtain ⟨⟨others, last⟩, others_eq, ⟨⟩⟩ := bind_eq_ok.mp returned
    cases k with
    | zero =>
      cases found
      exact ⟨request, rfl, middle, by simpa using first_eq⟩
    | succ k =>
      obtain ⟨other, other_eq, next, sent⟩ := ih others_eq found
      obtain ⟨rfl, _⟩ := handleUpperPacket_cases first_eq
      refine ⟨other, other_eq, next, ?_⟩
      have count : rdma.numSent + ((k + 1 : Nat) : Int) = rdma.numSent + 1 + k := by omega
      rw [count]
      exact sent

/-- Packets as applications send them. -/
def Fresh (packet : Packet F) : Prop := packet.Unpopped ∧ ∃ bits, packet.Carries bits

theorem handleUpperPacket_carries {rdma after : Rdma} {request : Request F}
    {fragments : List (Datagram RdmaHeader F)} (fresh : Fresh request.packet)
    (returned : rdma.handleUpperPacket sharing request = .ok (fragments, after)) :
    ∀ fragment ∈ fragments, ∃ data, fragment.packet.Carries data := by
  obtain ⟨unpopped, bits, carries⟩ := fresh
  obtain ⟨_, _, _, ⟨_, header, packet, _, _, headed, rfl⟩ | ⟨_, dataLength, _, sent⟩⟩ :=
    Rdma.handleUpperPacket_cases returned
  · have carried := (carries.insertedAtFront unpopped (Rdma.insertable_header header) headed).2
    simpa using ⟨_, carried⟩
  · intro fragment member
    exact ⟨_, (Rdma.fragmentsFrom_sent carries (by decide) (fun _ => rfl) sent fragment member).carries⟩

theorem Sent.carries {hosts : ι → Host F} {origin : ι × Nat} {fragment : Datagram RdmaHeader F}
    (fresh : ∀ host, ∀ request ∈ (hosts host).requests, Fresh request.packet)
    (sent : Sent sharing hosts origin fragment) : ∃ data, fragment.packet.Carries data := by
  obtain ⟨lists, after, fragments, returned, found, member⟩ := sent
  obtain ⟨request, request_eq, next, sent⟩ := Rdma.handleUpperPackets_getElem returned found
  exact handleUpperPacket_carries (fresh _ request (List.mem_of_getElem? request_eq)) sent fragment
    member

/-- As long as no fragment meets fragments of another message in its buffer, everything that is
returned is made of the fragments of one message. -/
theorem reassembly_unmixed (sharing : Sharing F) (hosts : ι → Host F)
    (fresh : ∀ host, ∀ request ∈ (hosts host).requests, Fresh request.packet)
    (bufs : Buffers RdmaHeader RdmaAppFragBuf.Key F) (held : RdmaAppFragBuf.Key → List (ι × Nat))
    (wholes : List (Datagram RdmaHeader F))
    (run : (RdmaAppFragBuf.format F).Arrivals sharing (Sent sharing hosts) FragmentFormat.Unmixed
      bufs held wholes) :
    ∀ whole ∈ wholes, ∃ origin, (RdmaAppFragBuf.format F).MadeOf (Sent sharing hosts origin) whole :=
  (run.madeOf fun _ _ sent => sent.carries fresh).2

/-! ### Examples -/

/-- A bit of a fragment behind its two headers is the bit of the message at the same offset. -/
theorem Rdma.SentOf.supplies {bits : List Bool} {payloadLength : Int} {fragment : Datagram RdmaHeader F}
    (sent : Rdma.SentOf bits payloadLength Rdma.fragmentLength fragment) {bit : Bool}
    (supplies : (RdmaAppFragBuf.format F).Supplies fragment i bit) (behind : 64 ≤ i % 32704) :
    bits[i]? = some bit := by
  obtain ⟨started, inside, found⟩ := supplies
  have aligned : (RdmaAppFragBuf.format F).start fragment % 32704 = 0 := by
    have whole : 8 * Rdma.fragmentLength = 32704 := rfl
    have aligned := sent.aligned
    rw [whole] at aligned
    omega
  have skipped : 64 ≤ i - (RdmaAppFragBuf.format F).start fragment := by omega
  rw [FragmentFormat.stop] at inside
  rw [sent.carries.data] at found
  have offset_eq : (RdmaAppFragBuf.format F).dataOffset fragment.header = 8 := rfl
  rw [offset_eq, List.getElem?_append_right (by rw [Rdma.length_headerBits]; omega),
    Rdma.length_headerBits,
    List.getElem?_append_right (by rw [Rdma.length_headerBits]; omega),
    Rdma.length_headerBits, part, List.getElem?_take, if_pos (by omega), List.getElem?_drop] at found
  have index : 64 + (RdmaAppFragBuf.format F).start fragment +
      (8 * 8 + (i - (RdmaAppFragBuf.format F).start fragment) - 64 - 64) = i := by omega
  rw [index] at found
  exact found

/-- A message of a number of equal bytes. -/
def message (length : Nat) (byte : UInt8) : Request (RdmaHeader ⊕ List Bool) where
  packet := .ofContent (.bytes (List.replicate length byte))
  destAddr := .ipv4 0x0a000002
  portsReq := some (1000, 2000)

/-- The eleventh message of one host and the first message of the next host. -/
def neighbours : Bool → Host (RdmaHeader ⊕ List Bool)
  | false => ⟨1, .CRC_DISABLED, List.replicate 10 (message 1 0) ++ [message 4200 0]⟩
  | true => ⟨2, .CRC_DISABLED, [message 4200 0xFF]⟩

/-- A fragment of a message of one of the neighbours. -/
def fragmentOf (host : Bool) (k i : Nat) : Option (Datagram RdmaHeader (RdmaHeader ⊕ List Bool)) :=
  match (neighbours host).rdma.handleUpperPackets (.never _) (neighbours host).requests with
  | .ok (lists, _) => lists[k]?.bind (·[i]?)
  | .error _ => none

/-- The first fragment of one message and the last fragment of the other one, where they start and
stop, and whether they return something. -/
def crossed : Option (List (Nat × Nat × Bool) × List Bool) :=
  match fragmentOf false 10 0, fragmentOf true 0 1 with
  | some first, some last =>
    match (RdmaAppFragBuf.format _).addFragments (.never _) (fun _ => none) [first, last] with
    | .ok (results, _) => some ([first, last].map fun fragment =>
        ((RdmaAppFragBuf.format _).start fragment, (RdmaAppFragBuf.format _).stop fragment,
          fragment.header.moreFragments), results.map Option.isSome)
    | .error _ => none
  | _, _ => none

theorem crossed_eq :
    crossed = some ([(0, 32704, true), (32704, 33536, false)], [false, true]) := by
  decide +kernel

theorem neighbours_fresh (host : Bool) :
    ∀ request ∈ (neighbours host).requests, Fresh request.packet := by
  have message_fresh (length : Nat) (byte : UInt8) : Fresh (message length byte).packet :=
    ⟨⟨rfl, rfl⟩, _, Packet.carries_of_content (.bytes _) (.bytes _) rfl ⟨rfl, rfl⟩ rfl⟩
  cases host with
  | false =>
    intro request member
    rcases List.mem_append.mp member with short | long
    · obtain ⟨_, rfl⟩ := List.mem_replicate.mp short
      exact message_fresh _ _
    · obtain rfl := List.mem_singleton.mp long
      exact message_fresh _ _
  | true =>
    intro request member
    obtain rfl := List.mem_singleton.mp member
    exact message_fresh _ _

theorem fragmentOf_sent {host : Bool} {k : Nat}
    {fragment : Datagram RdmaHeader (RdmaHeader ⊕ List Bool)}
    (found : fragmentOf host k i = some fragment) :
    Sent (.never _) neighbours (host, k) fragment := by
  unfold fragmentOf at found
  split at found
  next lists after returned =>
    obtain ⟨fragments, fragments_eq, found⟩ := Option.bind_eq_some_iff.mp found
    exact ⟨lists, after, fragments, returned, fragments_eq, List.mem_of_getElem? found⟩
  next => cases found

/-- The bits of the long messages tell which of the neighbours sent them. -/
theorem neighbours_supplies {origin : Bool × Nat}
    {fragment : Datagram RdmaHeader (RdmaHeader ⊕ List Bool)} {bit : Bool}
    (sent : Sent (.never _) neighbours origin fragment)
    (supplies : (RdmaAppFragBuf.format _).Supplies fragment i bit) (behind : 64 ≤ i % 32704) :
    bit = origin.1 := by
  obtain ⟨host, k⟩ := origin
  obtain ⟨lists, after, fragments, returned, found, member⟩ := sent
  obtain ⟨request, request_eq, next, sent⟩ := Rdma.handleUpperPackets_getElem returned found
  have long_or_short : request = message 1 0 ∨
      request = message 4200 (if host then 0xFF else 0) := by
    have member := List.mem_of_getElem? request_eq
    cases host with
    | false =>
      rcases List.mem_append.mp member with short | long
      · exact .inl (List.eq_of_mem_replicate short)
      · exact .inr (List.mem_singleton.mp long)
    | true => exact .inr (List.mem_singleton.mp member)
  have carries (length : Nat) (byte : UInt8) :
      (message length byte).packet.Carries (fillBits length byte) :=
    Packet.carries_of_content (.bytes _) (.bytes _) rfl ⟨rfl, rfl⟩ rfl
  have total (length : Nat) (byte : UInt8) : (message length byte).packet.totalLength = 8 * length := by
    simp [message, Packet.ofContent, Chunk.getChunkLength]
  obtain ⟨_, totalLength, total_eq, ⟨fits, header, packet, length_eq, offset_eq, _, rfl⟩ |
    ⟨_, dataLength, _, sent⟩⟩ := Rdma.handleUpperPacket_cases sent
  · -- a message that is sent whole is too short to reach the offset
    obtain rfl := List.mem_singleton.mp member
    have inside := supplies.2.1
    rw [RDMA_MAX_MESSAGE_SIZE] at fits
    rcases long_or_short with rfl | rfl
    · rw [total] at total_eq
      simp only [FragmentFormat.stop, FragmentFormat.start, FragmentFormat.length,
        RdmaAppFragBuf.format, length_eq, offset_eq] at inside
      omega
    · rw [total] at total_eq
      omega
  · rcases long_or_short with rfl | rfl
    · rw [total] at total_eq
      rw [RDMA_HEADER_LENGTH, RDMA_MAX_MESSAGE_SIZE] at *
      omega
    · have from_message := (Rdma.fragmentsFrom_sent (carries _ _) (by decide) (fun _ => rfl) sent
        fragment member).supplies supplies behind
      obtain ⟨byte, byte_mem, bit_mem⟩ := List.mem_flatMap.mp (List.mem_of_getElem? from_message)
      rw [List.eq_of_mem_replicate byte_mem] at bit_mem
      have told : ∀ host, ∀ other ∈ byteBits (if host then 0xFF else 0), other = host := by decide
      exact told host bit bit_mem

/-- The two messages have the same key, and what is returned has bits of both. -/
theorem reassembly_mixes :
    ¬ ∀ hosts : Bool → Host (RdmaHeader ⊕ List Bool),
      (∀ host, ∀ request ∈ (hosts host).requests, Fresh request.packet) →
      ∀ bufs held wholes, (RdmaAppFragBuf.format _).Arrivals (.never _) (Sent (.never _) hosts)
        (fun _ _ => True) bufs held wholes →
      ∀ whole ∈ wholes, ∃ origin,
        (RdmaAppFragBuf.format _).MadeOf (Sent (.never _) hosts origin) whole := by
  intro all
  have facts := crossed_eq
  unfold crossed at facts
  split at facts
  next first last first_eq last_eq =>
    split at facts
    next results bufs returned =>
      have both := returned
      obtain ⟨⟨result, next⟩, kept, returned⟩ := bind_eq_ok.mp returned
      obtain ⟨⟨others, after⟩, others_eq, ⟨⟩⟩ := bind_eq_ok.mp returned
      obtain ⟨⟨result', after'⟩, complete, others_eq⟩ := bind_eq_ok.mp others_eq
      cases others_eq
      simp only [List.map_cons, List.map_nil, Option.some.injEq, Prod.mk.injEq, List.cons.injEq,
        and_true] at facts
      obtain ⟨⟨⟨start_eq, stop_eq, more⟩, start_eq', stop_eq', no_more⟩, nothing, something⟩ := facts
      obtain rfl := Option.not_isSome_iff_eq_none.mp (Bool.eq_false_iff.mp nothing)
      obtain ⟨whole, rfl⟩ := Option.isSome_iff_exists.mp something
      have sent_first := fragmentOf_sent first_eq
      have sent_last := fragmentOf_sent last_eq
      have run : (RdmaAppFragBuf.format _).Arrivals (.never _) (Sent (.never _) neighbours)
          (fun _ _ => True) _ _ _ :=
        .complete (.kept .empty sent_first trivial kept) sent_last trivial complete
      obtain ⟨origin, _, _, payload', _, _, _, _, _, carries', from_origin⟩ :=
        all neighbours neighbours_fresh _ _ _ run whole List.mem_cons_self
      obtain ⟨_, end_fragment, payload, _, end_eq, ends, length_eq, _, carries, from_both⟩ :=
        FragmentFormat.addFragments_madeOf
          (fun fragment => fragment = first ∨ fragment = last) [first, last]
          (by simpa using ⟨sent_first.carries neighbours_fresh, sent_last.carries neighbours_fresh⟩)
          (fun _ => FragmentFormat.new_sources _) both whole (by simp)
      obtain rfl : payload = payload' :=
        List.append_cancel_left (carries.data.symm.trans carries'.data)
      have length_eq : payload.length = 33536 := by
        rcases end_eq with rfl | rfl
        · exact absurd (more.symm.trans ends) (by decide)
        · omega
      -- a bit from the first fragment and a bit from the last fragment
      have before := List.getElem?_eq_getElem (l := payload) (i := 100) (by omega)
      have behind := List.getElem?_eq_getElem (l := payload) (i := 32804) (by omega)
      obtain ⟨one, sent_one, supplies_one⟩ := from_origin _ _ before
      obtain ⟨other, sent_other, supplies_other⟩ := from_origin _ _ behind
      have one_eq := neighbours_supplies sent_one supplies_one (by decide)
      have other_eq := neighbours_supplies sent_other supplies_other (by decide)
      obtain ⟨fragment, rfl | rfl, supplies⟩ := from_both _ _ before
      · have first_bit := neighbours_supplies sent_first supplies (by decide)
        obtain ⟨fragment, rfl | rfl, supplies⟩ := from_both _ _ behind
        · have := supplies.2.1
          omega
        · have last_bit := neighbours_supplies sent_last supplies (by decide)
          rw [one_eq] at first_bit
          rw [other_eq, first_bit] at last_bit
          cases last_bit
      · have := supplies.1
        omega
    next => cases facts
  next => cases facts

/-- The first message of the second neighbour, which of its fragments return something. -/
def straight : Option (List Bool) :=
  match fragmentOf true 0 0, fragmentOf true 0 1 with
  | some first, some last =>
    match (RdmaAppFragBuf.format _).addFragments (.never _) (fun _ => none) [first, last] with
    | .ok (results, _) => some (results.map Option.isSome)
    | .error _ => none
  | _, _ => none

/-- Undisturbed, the message of the second neighbour is made of its fragments. -/
theorem reassembly_unmixed_straight : ∃ bufs held wholes,
    (RdmaAppFragBuf.format _).Arrivals (.never _) (Sent (.never _) neighbours)
      FragmentFormat.Unmixed bufs held wholes ∧ wholes ≠ [] ∧
    ∀ whole ∈ wholes, ∃ origin,
      (RdmaAppFragBuf.format _).MadeOf (Sent (.never _) neighbours origin) whole := by
  have facts : straight = some [false, true] := by decide +kernel
  unfold straight at facts
  split at facts
  next first last first_eq last_eq =>
    split at facts
    next results bufs returned =>
      obtain ⟨⟨result, next⟩, kept, returned⟩ := bind_eq_ok.mp returned
      obtain ⟨⟨others, after⟩, others_eq, ⟨⟩⟩ := bind_eq_ok.mp returned
      obtain ⟨⟨result', after'⟩, complete, others_eq⟩ := bind_eq_ok.mp others_eq
      cases others_eq
      simp only [List.map_cons, List.map_nil, Option.some.injEq, List.cons.injEq, and_true] at facts
      obtain rfl := Option.not_isSome_iff_eq_none.mp (Bool.eq_false_iff.mp facts.1)
      obtain ⟨whole, rfl⟩ := Option.isSome_iff_exists.mp facts.2
      have run_first : (RdmaAppFragBuf.format _).Arrivals (.never _) (Sent (.never _) neighbours)
          FragmentFormat.Unmixed _ _ _ :=
        .kept .empty (fragmentOf_sent first_eq) (by simp [FragmentFormat.Unmixed]) kept
      have run : (RdmaAppFragBuf.format _).Arrivals (.never _) (Sent (.never _) neighbours)
          FragmentFormat.Unmixed _ _ _ :=
        run_first.complete (fragmentOf_sent last_eq) (by
          intro other
          by_cases same : (RdmaAppFragBuf.format (RdmaHeader ⊕ List Bool)).key last.header =
            (RdmaAppFragBuf.format (RdmaHeader ⊕ List Bool)).key first.header <;>
              simp [same]) complete
      exact ⟨_, _, _, run, by simp,
        reassembly_unmixed (.never _) neighbours neighbours_fresh _ _ _ run⟩
    next => cases facts
  next => cases facts

end Inet.Rdma
