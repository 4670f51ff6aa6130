import Inet.Packet.Stream
import Inet.Ipv6.Ipv6FragBuf

/-!
# The bytes of IPv6 headers
-/
namespace Inet.Ipv6

open Packet

def writeIpv6Address (address : Ipv6Address) : List UInt8 :=
  (List.range 16).map fun i => UInt8.ofNat (address.toNat >>> (8 * (15 - i)))

namespace Ipv6ExtensionHeader

/-- What follows the next header field. -/
def serialize (extHdr : Ipv6ExtensionHeader) : List UInt8 :=
  ((extHdr.byteLength - 8) / 8).toUInt8 :: match extHdr with
    | fragment hdr =>
      writeUint16Be ((hdr.fragmentOffset >>> 3) <<< 3 ||| (if hdr.moreFragments then 1 else 0)) ++
        writeUint32Be hdr.identification
    | other _ byteLength fields => (fields ++ List.replicate byteLength 0).take (byteLength - 2)

end Ipv6ExtensionHeader

namespace Ipv6Header

/-- Each extension header starts with the type of the next one, the last one with the protocol. -/
def serializeExtensions (protocolId : UInt8) : List Ipv6ExtensionHeader → List UInt8
  | [] => []
  | extHdr :: rest =>
    (match rest with
      | [] => protocolId
      | next :: _ => next.extensionType) :: extHdr.serialize ++ serializeExtensions protocolId rest

/-- The bytes, filled up to the length of the header. -/
def serialize (ipv6Header : Ipv6Header) : List UInt8 :=
  let first := ipv6Header.version.toUInt32 <<< 28 |||
    ipv6Header.trafficClass.toInt.toNat.toUInt32 <<< 20 ||| ipv6Header.flowLabel &&& 0xfffff
  let protocolId := ipv6Header.protocolId.toUInt8
  let written := writeUint32Be first ++ writeUint16Be (toUint16 ipv6Header.payloadLength) ++
    [match ipv6Header.extensionHeader with
      | [] => protocolId
      | extHdr :: _ => extHdr.extensionType,
      ipv6Header.hopLimit.toInt.toNat.toUInt8] ++
    writeIpv6Address ipv6Header.srcAddress ++ writeIpv6Address ipv6Header.destAddress ++
    serializeExtensions protocolId ipv6Header.extensionHeader
  (written ++ List.replicate ipv6Header.chunkLength 0).take ipv6Header.chunkLength

theorem length_serialize (ipv6Header : Ipv6Header) :
    ipv6Header.serialize.length = ipv6Header.chunkLength := by
  simp only [serialize, List.length_take, List.length_append, List.length_replicate]
  omega

end Ipv6Header

/-- IPv6 headers among other fields. -/
instance {G : Type} [Fields G] : Ipv6Fields (Ipv6Header ⊕ G) where
  serialize
    | .inl ipv6Header => bytesBits ipv6Header.serialize
    | .inr content => Fields.serialize content
  ofHeader := .inl
  length_serialize ipv6Header := by
    rw [Chunk.length_bytesBits, ipv6Header.length_serialize]

end Inet.Ipv6

/-!
## When fragmentation and reassembly are inverse

Whatever the fragment buffers return has the length that the last fragment tells, at most that of a
payload length field, and only the unfragmentable part counts as its header.
-/
namespace Inet.Ipv6

open Lib Packet ChunkBuffer Ipv6FragBuf

variable {F : Type} [Ipv6Fields F] {original : Ipv6Header} {last : Int}
  {copy : Datagram Ipv6Header F} {bufs after : Buffers Ipv6Header Key F}
variable {sharing : Sharing F}

/-! ### What buffers can hold -/

/-- A buffer of fragments of one datagram, the last of which all stop at one offset. -/
structure BufferBounded (original : Ipv6Header) (last : Int)
    (buffer : DatagramBuffer Ipv6Header F) : Prop where
  regions : ConsistentFill buffer.buf.regions
  expected : buffer.buf.expectedLength = -1 ∨ buffer.buf.expectedLength = last
  first : ∀ first, buffer.packet = some first → ∃ fh, IsHeaderOf original fh first.header

def Bounded (original : Ipv6Header) (last : Int) (bufs : Buffers Ipv6Header Key F) : Prop :=
  ∀ key buffer, bufs key = some buffer → BufferBounded original last buffer

/-- A fragment that, if it is a last one, stops at the offset or is discarded. -/
structure Bounding (original : Ipv6Header) (last : Int) (copy : Datagram Ipv6Header F) : Prop where
  header : ∃ fh, IsHeaderOf original fh copy.header
  data : ∃ data, copy.packet.Carries (headerBits F copy.header ++ data) ∧ 0 < data.length ∧
    8 ∣ data.length ∧ ((fragmentHeader copy.header).moreFragments = false →
      (8 * (fragmentHeader copy.header).fragmentOffset.toNat + data.length : Int) = last ∨
      8 * 65535 < 8 * (fragmentHeader copy.header).fragmentOffset.toNat + data.length)

/-- What is returned of such fragments. -/
structure Returned (original : Ipv6Header) (last : Int) (whole : Datagram Ipv6Header F) :
    Prop where
  chunkLength : whole.header.chunkLength = original.calculateUnfragmentableHeaderByteLength
  payload : ∃ data : List Bool, whole.packet.Carries (headerBits F whole.header ++ data) ∧
    (data.length : Int) = last

theorem new_bounded (original : Ipv6Header) (last : Int) :
    BufferBounded original last (.new Ipv6Header F) where
  regions := consistentFill_nil
  expected := .inl rfl
  first := nofun

theorem Bounded.update {key : Key} {buffer : Option (DatagramBuffer Ipv6Header F)}
    (bounded : Bounded original last bufs)
    (here : ∀ some_buffer, buffer = some some_buffer → BufferBounded original last some_buffer) :
    Bounded original last (Function.update bufs key buffer) := by
  intro other found held
  by_cases same : other = key
  · rw [same, Function.update_self] at held
    exact here found held
  · rw [Function.update_of_ne same] at held
    exact bounded other found held

theorem restore_returned {first whole : Datagram Ipv6Header F}
    {fh : Ipv6FragmentHeader} {payload : Chunk F} (isHeader : IsHeaderOf original fh first.header)
    (insertable : payload.Insertable) (length_eq : (payload.getChunkLength : Int) = last)
    (returned : (format F).restore sharing first.header payload = .ok whole) :
    Returned original last whole := by
  obtain ⟨hopLimit, restored⟩ := isHeader.restoredHeader
  obtain ⟨started, front_eq, returned⟩ := bind_eq_ok.mp returned
  obtain ⟨ended, back_eq, ⟨⟩⟩ := bind_eq_ok.mp returned
  have headed : (Chunk.fields (Ipv6Fields.ofHeader (restoredHeader first.header) : F)).Insertable := by
    refine ⟨.fields _, ?_, .fields _⟩
    rw [Chunk.getChunkLength, Ipv6Fields.length_serialize, restored]
    unfold Ipv6Header.calculateUnfragmentableHeaderByteLength Ipv6Header.lengthWith IPv6_HEADER_BYTES
    dsimp only
    omega
  obtain ⟨unpopped, carries⟩ := Packet.empty_carries.insertedAtFront Packet.empty_unpopped headed
    front_eq
  obtain ⟨_, carries⟩ := carries.insertedAtBack unpopped insertable back_eq
  rw [List.append_nil] at carries
  refine ⟨?_, payload.bits, carries, by rw [insertable.wf.length_bits, length_eq]⟩
  simp only [format, restored]

theorem addFragment_bounded {fh : Ipv6FragmentHeader}
    {result : Option (Datagram Ipv6Header F)} (bounding : Bounding original last copy)
    (bounded : Bounded original last bufs) (here : fragmentHeader copy.header = fh)
    (returned : addFragment sharing bufs copy fh = .ok (result, after)) :
    Bounded original last after ∧ ∀ whole, result = some whole → Returned original last whole := by
  obtain ⟨data, carries, positive, bytes, ends⟩ := bounding.data
  rw [here] at ends
  have data_length : getByteLength copy.packet - copy.header.chunkLength =
      (data.length / 8 : Nat) := by
    unfold getByteLength
    rw [carries.getDataLength, List.length_append, length_headerBits]
    omega
  unfold addFragment at returned
  dsimp only at returned
  rw [data_length] at returned
  generalize Key.mk fh.identification copy.header.srcAddress copy.header.destAddress = key
    at returned
  have held : BufferBounded original last ((bufs key).getD (.new Ipv6Header F)) := by
    cases held : bufs key with
    | none => exact new_bounded original last
    | some buffer => exact bounded key buffer held
  have discarded : Bounded original last
      (Function.update bufs key (some ((bufs key).getD (.new Ipv6Header F)))) :=
    bounded.update fun _ same => Option.some.inj same ▸ held
  generalize (bufs key).getD (.new Ipv6Header F) = curBuf at returned held discarded
  split at returned
  next =>
    cases returned
    exact ⟨discarded, fun _ same => by cases same⟩
  split at returned
  next =>
    cases returned
    exact ⟨discarded, fun _ same => by cases same⟩
  next short =>
    obtain ⟨peeked, peeked_eq, returned⟩ := bind_eq_ok.mp returned
    cases peeked with
    | none => cases returned
    | some chunk =>
      obtain ⟨replaced, replaced_eq, returned⟩ := bind_eq_ok.mp returned
      have long : (8 * ((data.length / 8 : Nat) : Int)) = (data.length : Nat) := by omega
      rw [long] at peeked_eq
      obtain ⟨insertable, _, _⟩ := carries.peekedDataAt positive peeked_eq
      obtain ⟨_, same, regions, _⟩ := ReassemblyBuffer.replace_written held.regions insertable
        replaced_eq
      -- the buffer after the fragment is written
      generalize collected_eq : (if fh.moreFragments = true then replaced
        else replaced.setExpectedLength
          (8 * ((fh.fragmentOffset.toNat : Int) + (data.length / 8 : Nat)))) = collected at returned
      generalize packet_eq : (if ((fh.fragmentOffset.toNat : Nat) : Int) = 0 then some copy
        else curBuf.packet) = packet at returned
      have written : BufferBounded original last ⟨collected, packet⟩ := by
        refine ⟨?_, ?_, ?_⟩
        · rw [← collected_eq]
          dsimp only
          split
          · exact regions
          · exact regions
        · rw [← collected_eq]
          dsimp only
          split
          next =>
            rw [same]
            exact held.expected
          next final =>
            simp only [ReassemblyBuffer.setExpectedLength]
            have := ends (by simpa using final)
            omega
        · rw [← packet_eq]
          dsimp only
          split
          · rintro first ⟨⟩
            exact bounding.header
          · exact held.first
      split at returned
      next =>
        split at returned
        next => cases returned
        next first =>
          obtain ⟨payload, payload_eq, returned⟩ := bind_eq_ok.mp returned
          obtain ⟨whole, restored, returned⟩ := bind_eq_ok.mp returned
          split at returned
          next => cases returned
          next =>
            cases returned
            refine ⟨bounded.update fun _ same => (by cases same), ?_⟩
            rintro _ ⟨⟩
            obtain ⟨fh', isHeader⟩ := written.first first rfl
            have payload_length := ReassemblyBuffer.getReassembledData_length payload_eq
            have expected := written.expected
            dsimp only at expected
            exact restore_returned isHeader
              (ReassemblyBuffer.getReassembledData_stored written.regions payload_eq).2 (by omega)
              restored
      next =>
        cases returned
        exact ⟨bounded.update fun _ same => Option.some.inj same ▸ written,
          fun _ same => by cases same⟩

/-- Whatever is returned of fragments of one datagram. -/
theorem localDeliverAll_bounded {copies : List (Datagram Ipv6Header F)}
    {results : List (Option (Datagram Ipv6Header F))}
    (bounding : ∀ copy ∈ copies, Bounding original last copy) (bounded : Bounded original last bufs)
    (returned : localDeliverAll sharing bufs copies = .ok (results, after)) :
    ∀ whole, some whole ∈ results → Returned original last whole := by
  induction copies generalizing bufs results with
  | nil =>
    cases returned
    simp
  | cons copy rest ih =>
    obtain ⟨here, later⟩ := List.forall_mem_cons.mp bounding
    obtain ⟨⟨result, middle⟩, delivered, returned⟩ := bind_eq_ok.mp returned
    obtain ⟨⟨others, final⟩, rest_eq, ⟨⟩⟩ := bind_eq_ok.mp returned
    obtain ⟨fh, isHeader⟩ := here.header
    unfold localDeliver at delivered
    rw [isHeader.added.findFragmentHeader] at delivered
    obtain ⟨bounded_after, first⟩ := addFragment_bounded here bounded isHeader.fragmentHeader
      delivered
    intro whole member
    rcases List.mem_cons.mp member with same | behind
    · exact first whole same.symm
    · exact ih later bounded_after rest_eq whole behind

/-! ### When they are not inverse -/

variable {datagram fragment : Datagram Ipv6Header F} {payload pad : List Bool}
  {identification : UInt32} {length offset padding : Nat}

theorem Arrives.mono (arrives : Arrives 0 fragment copy) : Arrives padding fragment copy := by
  obtain ⟨pad, bytes, short, carries⟩ := arrives.carries
  exact ⟨arrives.header, pad, bytes, by omega, carries⟩

/-- A padding behind a fragment. -/
theorem FragmentOf.padded
    (fragmentOf : FragmentOf original payload identification length offset fragment)
    (sharing : Sharing F) : ∃ copy : Datagram Ipv6Header F, copy.header = fragment.header ∧
      Arrives 1 fragment copy ∧ copy.packet.Carries (headerBits F copy.header ++
        (part payload (8 * offset) (min (8 * length) (payload.length - 8 * offset)) ++
          fillBits 1 '?'.toUInt8)) := by
  have insertable : (Chunk.byteCount 1 '?'.toUInt8 : Chunk F).Insertable :=
    ⟨.byteCount _ _, by simp [Chunk.getChunkLength], .byteCount _⟩
  obtain ⟨packet, _, _, carries⟩ := fragmentOf.carries.insertAtBack fragmentOf.unpopped sharing
    insertable
  have bits_eq : (Chunk.byteCount 1 '?'.toUInt8 : Chunk F).bits = fillBits 1 '?'.toUInt8 := rfl
  rw [bits_eq, List.append_assoc] at carries
  refine ⟨⟨fragment.header, packet⟩, rfl, ⟨⟨_, rfl⟩, fillBits 1 '?'.toUInt8, ?_, ?_, ?_⟩, carries⟩
  · rw [Chunk.length_fillBits]
  · rw [Chunk.length_fillBits]
  · intro bits same
    have := List.append_cancel_left (same.data.symm.trans fragmentOf.carries.data)
    rw [this]
    exact carries

/-- Where a fragment stops, if it is not discarded. -/
def stopAt (offset length : Nat) : Nat :=
  if 8 * (offset % 65536) + length ≤ 8 * 65535 then 8 * (offset % 65536) + length else 0

/-- A fragment is bounding if it is not the last one, or else by where it stops. -/
theorem FragmentOf.bounding (last : Int) (pad : List Bool)
    (fragmentOf : FragmentOf original payload identification length offset fragment)
    (bytes : 8 ∣ payload.length) (same : copy.header = fragment.header)
    (carries : copy.packet.Carries (headerBits F copy.header ++
      (part payload (8 * offset) (min (8 * length) (payload.length - 8 * offset)) ++ pad)))
    (pad_bytes : 8 ∣ pad.length) (positive : 0 < length)
    (ends : payload.length ≤ 8 * (offset + length) →
      last = stopAt offset (payload.length - 8 * offset + pad.length)) :
    Bounding original last copy := by
  have before := fragmentOf.before
  have this_length := length_part payload (8 * offset)
    (min (8 * length) (payload.length - 8 * offset)) (by omega)
  refine ⟨⟨_, same ▸ fragmentOf.header⟩, _, carries, ?_, ?_, ?_⟩
  · rw [List.length_append, this_length]
    omega
  · rw [List.length_append, this_length]
    omega
  · rw [same, fragmentOf.header.fragmentHeader, List.length_append, this_length]
    simp only [fragmentHeaderAt, decide_eq_false_iff_not, UInt16.toNat_ofNat']
    intro done
    have ends := ends (by omega)
    unfold stopAt at ends
    split at ends <;> omega

/-- What is returned shows how long the payload and the header are. -/
theorem lengths_of_reassembles {fragments : List (Datagram Ipv6Header F)}
    {deliveries : List (Datagram Ipv6Header F × Datagram Ipv6Header F)}
    {results : List (Option (Datagram Ipv6Header F))} (some_made : fragments ≠ [])
    (complete : ∀ fragment ∈ fragments, fragment ∈ deliveries.map (·.1))
    (bounding : ∀ delivery ∈ deliveries, Bounding datagram.header last delivery.2)
    (returned : localDeliverAll sharing (fun _ => none) (deliveries.map (·.2)) =
      .ok (results, after))
    (reassembles : Reassembles fragments (SameAs datagram payload) [] (deliveries.map (·.1))
      results) : (payload.length : Int) = last ∧
      datagram.header.calculateUnfragmentableHeaderByteLength = datagram.header.chunkLength := by
  obtain ⟨fragment, member⟩ := List.exists_mem_of_ne_nil _ some_made
  obtain ⟨whole, whole_member, same⟩ := reassembles.completes
    (List.ne_nil_of_mem (complete fragment member)) fun fragment member =>
      .inr (complete fragment member)
  obtain ⟨chunkLength, data, carries, length_eq⟩ := localDeliverAll_bounded
    (List.forall_mem_map.mpr bounding) (fun _ _ held => absurd held (by simp)) returned whole
    whole_member
  have data_eq : payload = data :=
    List.append_cancel_left (same.carries.data.symm.trans carries.data)
  exact ⟨data_eq ▸ length_eq, chunkLength.symm.trans same.chunkLength⟩

/-- A fragment that is the only one is taken out of a buffer that it has just created. -/
theorem FragmentOf.only_fails
    (fragmentOf : FragmentOf original payload identification length 0 fragment)
    (bytes : 8 ∣ payload.length) (positive : 0 < length) (aligned : 8 ∣ length)
    (fits : payload.length ≤ 8 * 65535) (only : payload.length ≤ 8 * length) (sharing : Sharing F) :
    localDeliver sharing (fun _ => none) fragment = .error .undefinedBehaviour := by
  obtain ⟨_, start_eq, length_eq⟩ := fragmentOf.isFragment (.refl fragment) bytes positive fits
  have accepted := fragmentOf.accepted (.refl fragment) bytes positive aligned fits
  rw [accepted.delivered]
  refine (accepted.completes (kept_nil payload _) sharing ?_).1 rfl
  intro i inside
  refine ⟨fragment, List.mem_singleton_self _, by omega, ?_⟩
  unfold FragmentFormat.stop
  omega

/-- Only then is every datagram returned. -/
theorem Composes.reassemblable {mtu : Int}
    (composes : Composes sharing identification datagram payload mtu padding)
    (holds : Holds datagram payload) (legal : datagram.header.Legal)
    (positive : 0 < fragmentLength datagram.header mtu) :
    Reassemblable datagram.header payload (fragmentLength datagram.header mtu) padding := by
  obtain ⟨length, length_eq⟩ := Int.eq_ofNat_of_zero_le (Int.le_of_lt positive)
  have aligned : 8 ∣ length := by
    unfold fragmentLength at length_eq
    omega
  have bytes := holds.bytes
  rw [length_eq] at positive ⊢
  obtain ⟨fragments, created, fragmentsOf⟩ := createFragments_fragments sharing holds legal
    identification length_eq (by omega)
  obtain ⟨fragments', created', some_made, all⟩ := composes
  rw [created] at created'
  cases created'
  have nonempty : 8 * 0 < payload.length := by
    by_contra empty
    cases fragmentsOf with
    | nil => exact some_made rfl
    | cons here => exact empty here.before
  have several (fits : payload.length ≤ 8 * 65535) : 8 * length < payload.length := by
    by_contra only
    cases fragmentsOf with
    | nil => exact some_made rfl
    | @cons _ first rest here later =>
      cases later with
      | cons behind => exact only (by have := behind.before; omega)
      | nil =>
        obtain ⟨results, after, returned, _⟩ := all [(first, first)] (by
          simpa using (Arrives.refl first).mono)
        have fails := here.only_fails bytes (by omega) aligned fits (by omega) sharing
        rw [List.map_singleton, localDeliverAll, fails] at returned
        cases returned
  obtain ⟨front, final, start, rfl, finalOf, ends, others⟩ := fragmentsOf.split_last bytes nonempty
  have before := finalOf.before
  -- a fragment that is not the last one does not tell any length
  have front_bounding (last : Int) : ∀ fragment ∈ front, Bounding datagram.header last fragment := by
    intro fragment member
    obtain ⟨start', fragmentOf, more⟩ := others fragment member
    have carries := fragmentOf.carries
    rw [← List.append_nil (part _ _ _)] at carries
    exact fragmentOf.bounding last [] bytes rfl carries (by simp) (by omega) (by omega)
  have final_bounding := finalOf.bounding (stopAt start (payload.length - 8 * start)) [] bytes rfl
    (by rw [List.append_nil]; exact finalOf.carries) (by simp) (by omega) fun _ => rfl
  obtain ⟨results, after, returned, reassembles, _⟩ := all ((front ++ [final]).map fun f => (f, f))
    (List.forall_mem_map.mpr fun f member => ⟨member, (Arrives.refl f).mono⟩)
  obtain ⟨stops, shortened⟩ := lengths_of_reassembles some_made
    (by simp only [List.map_map]; simp)
    (List.forall_mem_map.mpr (List.forall_mem_append.mpr
      ⟨front_bounding _, by simpa using final_bounding⟩)) returned reassembles
  have fits : payload.length ≤ 8 * 65535 := by
    unfold stopAt at stops
    split at stops <;> omega
  refine ⟨fits, legal.allUnfragmentable_iff.mpr shortened, by have := several fits; omega, ?_⟩
  -- one byte behind the last fragment makes the payload longer
  by_contra some_padding
  obtain ⟨padded, same, arrives, carries⟩ := finalOf.padded sharing
  have padded_bounding := finalOf.bounding
    (stopAt start (payload.length - 8 * start + (fillBits 1 '?'.toUInt8).length)) _ bytes same carries
    (by rw [Chunk.length_fillBits]) (by omega) fun _ => rfl
  have arrives : Arrives padding final padded := by
    obtain ⟨pad, whole_bytes, short, carries⟩ := arrives.carries
    exact ⟨arrives.header, pad, whole_bytes, by omega, carries⟩
  obtain ⟨results, after, returned, reassembles, _⟩ := all
    (front.map (fun f => (f, f)) ++ [(final, padded)]) (List.forall_mem_append.mpr
      ⟨List.forall_mem_map.mpr fun f member => ⟨List.mem_append_left _ member, (Arrives.refl f).mono⟩,
        by simpa using arrives⟩)
  obtain ⟨stops, _⟩ := lengths_of_reassembles some_made
    (by simp only [List.map_append, List.map_map]; simp)
    (List.forall_mem_append.mpr ⟨List.forall_mem_map.mpr (front_bounding _),
      by simpa using padded_bounding⟩) returned reassembles
  unfold stopAt at stops
  split at stops <;> omega

/-- Fragmentation and reassembly are inverse if and only if there are several fragments, without
padding, of a datagram with no fragmentable extension header. -/
theorem fragmentation_composes_iff (sharing : Sharing F) (identification : UInt32)
    (datagram : Datagram Ipv6Header F) (payload : List Bool) (holds : Holds datagram payload)
    (legal : datagram.header.Legal) (mtu : Int) (positive : 0 < fragmentLength datagram.header mtu)
    (padding : Nat) :
    Composes sharing identification datagram payload mtu padding ↔
      Reassemblable datagram.header payload (fragmentLength datagram.header mtu) padding := by
  refine ⟨fun composes => composes.reassemblable holds legal positive, ?_⟩
  rintro ⟨fits, unfragmentable, several, rfl⟩
  obtain ⟨length, length_eq⟩ := Int.eq_ofNat_of_zero_le (Int.le_of_lt positive)
  have aligned : 8 ∣ length := by
    unfold fragmentLength at length_eq
    omega
  rw [length_eq] at positive several
  obtain ⟨fragments, created, fragmentsOf⟩ := createFragments_fragments sharing holds legal
    identification length_eq (by omega)
  refine ⟨fragments, created, ?_, ?_⟩
  · rintro rfl
    cases fragmentsOf with
    | nil done => omega
  · intro deliveries each
    exact localDeliverAll_reassembles sharing holds legal unfragmentable fragmentsOf (by omega)
      aligned fits (by omega) each [] (by simp) _ (kept_nil payload _)

/-! ### Examples -/

/-- A header with some extension headers. -/
def sourceHeader (extensionHeader : List Ipv6ExtensionHeader) : Ipv6Header where
  chunkLength := Ipv6Header.lengthWith extensionHeader
  srcAddress := 1
  destAddress := 2
  trafficClass := 0
  flowLabel := 0
  hopLimit := 32
  protocolId := 17
  extensionHeader := extensionHeader

/-- A datagram with a header and a payload of equal bytes. -/
def filled (header : Ipv6Header) (payloadLength : Nat) :
    Datagram Ipv6Header (Ipv6Header ⊕ List Bool) :=
  ⟨header, .ofContent (.sequence [.fields (.inl header), .byteCount payloadLength '?'.toUInt8])⟩

theorem filled_holds (header : Ipv6Header) (headed : 0 < header.chunkLength) (payloadLength : Nat)
    (positive : 0 < payloadLength) :
    Holds (filled header payloadLength) (fillBits payloadLength '?'.toUInt8) where
  carries := by
    have long : 0 < (Chunk.fields (.inl header) :
        Chunk (Ipv6Header ⊕ List Bool)).getChunkLength := by
      rw [Chunk.getChunkLength]
      exact Nat.lt_of_lt_of_eq (by omega) (length_headerBits header).symm
    refine Packet.carries_of_content ?_ ?_ rfl ⟨rfl, rfl⟩ ?_
    · refine .sequence ?_ ?_
      · simpa using ⟨.fields _, .byteCount _ _⟩
      · simpa [Chunk.getChunkLength] using ⟨long, positive⟩
    · exact .sequence (by simpa using ⟨.fields _, .byteCount _⟩)
    · simp only [filled, Packet.ofContent, Chunk.bits, Chunk.bitsOfAll, List.append_nil]
      rfl
  bytes := by
    rw [Chunk.length_fillBits]
    exact Nat.dvd_mul_right 8 _

theorem filled_totalLength (header : Ipv6Header) (payloadLength : Nat) :
    (filled header payloadLength).packet.totalLength = 8 * (header.chunkLength + payloadLength) := by
  simp only [filled, Packet.ofContent, Chunk.getChunkLength, Chunk.lengthOfAll]
  rw [show (Fields.serialize (.inl header : Ipv6Header ⊕ List Bool)).length =
    8 * header.chunkLength from length_headerBits header]
  omega

/-- A datagram of 48 bytes that is sent in three fragments. -/
theorem fragmentation_composes_three :
    fragmentAndSend (.never _) 7 (filled (sourceHeader []) 48) 64 true =
        createFragments (.never _) 7 (filled (sourceHeader []) 48) 64 ∧
      Composes (.never _) 7 (filled (sourceHeader []) 48) (fillBits 48 '?'.toUInt8) 64 0 := by
  have holds := filled_holds (sourceHeader []) (by decide) 48 (by decide)
  have legal : (sourceHeader []).Legal :=
    ⟨⟨sourceHeader [], sourceHeader [], [], rfl, by simp, rfl, rfl⟩, rfl⟩
  constructor
  · unfold fragmentAndSend
    rw [if_neg (by decide), filled_totalLength, if_neg (by decide), if_neg (by decide)]
  · refine (fragmentation_composes_iff (.never _) 7 _ _ holds legal 64 (by decide) 0).mpr ?_
    refine ⟨?_, by decide, ?_, rfl⟩
    · rw [Chunk.length_fillBits]
      decide
    · rw [Chunk.length_fillBits]
      decide

/-- A header with destination options, which are not in the unfragmentable part. -/
def optionsHeader : Ipv6Header := sourceHeader [.other IP_PROT_IPv6EXT_DEST 8 []]

/-- Destination options are not counted in the length of the header that is restored. -/
theorem fragmentation_shortens_header :
    ¬ ∀ (datagram : Datagram Ipv6Header (Ipv6Header ⊕ List Bool)) (payload : List Bool),
      Holds datagram payload → datagram.header.Legal → ∀ mtu,
      0 < fragmentLength datagram.header mtu → ∀ padding,
      Composes (.never _) 7 datagram payload mtu padding := by
  intro all
  have holds := filled_holds optionsHeader (by decide) 24 (by decide)
  have legal : optionsHeader.Legal :=
    ⟨⟨sourceHeader [], { sourceHeader [] with extensionHeader := optionsHeader.extensionHeader },
      optionsHeader.extensionHeader, rfl, by decide, rfl, rfl⟩, rfl⟩
  have reassemblable := (all (filled optionsHeader 24) _ holds legal 64 (by decide) 0).reassemblable
    holds legal (by decide)
  exact absurd reassemblable.unfragmentable (by decide)

end Inet.Ipv6
