import Inet.Lib.Tiling
import Inet.Packet.FragmentBuffer

/-!
# Fragmentation of IPv4 datagrams

Lengths and offsets in headers are in bytes, those in packets in bits.
-/
namespace Inet.Ipv4

open Lib Packet

def IPv4_MIN_HEADER_LENGTH : Nat := 20

/-- An IPv4 header without its checksum, which changes at every hop. -/
structure Ipv4Header where
  version : Int16 := 4
  headerLength : Nat := IPv4_MIN_HEADER_LENGTH
  typeOfService : Int16 := 0
  totalLengthField : Int
  identification : UInt16
  reservedBit : Bool := false
  moreFragments : Bool := false
  dontFragment : Bool := false
  fragmentOffset : UInt16 := 0
  timeToLive : Int16
  protocolId : Nat
  srcAddress : UInt32
  destAddress : UInt32
  options : List UInt8 := []
  minimal : IPv4_MIN_HEADER_LENGTH ≤ headerLength := by decide
deriving DecidableEq

/-- Kinds of `FieldsChunk`s among which IPv4 headers are. -/
class Ipv4Fields (F : Type) extends Fields F where
  ofHeader : Ipv4Header → F
  length_serialize : ∀ header, (serialize (ofHeader header)).length = 8 * header.headerLength

variable {F : Type} [Ipv4Fields F]

section Code

variable (sharing : Sharing F)

/-- The fragment that `fragmentAndSend` makes of a datagram at an offset, with the length of
its payload. -/
def fragmentAt (datagram : Datagram Ipv4Header F) (payloadLength fragmentLength : Int)
    (offset : Nat) : Except ChunkError (Datagram Ipv4Header F × Int) := do
  let ipv4Header := datagram.header
  let headerLength := ipv4Header.headerLength
  let offsetBase := ipv4Header.fragmentOffset
  let lastFragment : Bool := payloadLength ≤ offset + fragmentLength
  -- length equal to fragmentLength, except for last fragment
  let thisFragmentLength := if lastFragment then payloadLength - offset else fragmentLength
  match ← datagram.packet.peekDataAt sharing (8 * (headerLength + offset)) (8 * thisFragmentLength)
      {} with
  | none => throw .undefinedBehaviour
  | some fragData =>
    if fragData.getChunkLength ≠ 8 * thisFragmentLength then
      throw (.error "ASSERT: Condition does not hold")
    let fragment ← (Packet.ofContent .empty).insertAtBack sharing fragData
    -- "more fragments" bit is unchanged in the last fragment, otherwise true
    let fraghdr := { ipv4Header with
      moreFragments := if lastFragment then ipv4Header.moreFragments else true
      fragmentOffset := UInt16.ofNat (offsetBase.toNat + offset)
      totalLengthField := headerLength + thisFragmentLength }
    let fragment ← fragment.insertAtFront sharing (.fields (Ipv4Fields.ofHeader fraghdr))
    return (⟨fraghdr, fragment⟩, thisFragmentLength)

/-- The fragments from an offset on. The first argument bounds how many there are. -/
def fragmentsFrom (datagram : Datagram Ipv4Header F) (payloadLength fragmentLength : Int) :
    Nat → Nat → Except ChunkError (List (Datagram Ipv4Header F))
  | 0, offset => if offset < payloadLength then .error .undefinedBehaviour else .ok []
  | bound + 1, offset =>
    if offset < payloadLength then do
      let (fragment, thisFragmentLength) ← fragmentAt sharing datagram payloadLength fragmentLength
        offset
      let fragments ← fragmentsFrom datagram payloadLength fragmentLength bound
        (offset + thisFragmentLength).toNat
      return fragment :: fragments
    else .ok []

/-- `payloadLength` of a datagram that is fragmented. -/
def payloadLength (datagram : Datagram Ipv4Header F) : Int :=
  datagram.packet.getDataLength / 8 - datagram.header.headerLength

/-- `fragmentLength` of a datagram that is fragmented: payload only, without header. -/
def fragmentLength (datagram : Datagram Ipv4Header F) (mtu : Int) : Int :=
  (mtu - datagram.header.headerLength).tdiv 8 * 8

/-- What a router makes of one datagram: nothing if it is dropped, else the datagram itself or its
fragments. -/
def fragmentDatagram (datagram : Datagram Ipv4Header F) (mtu : Int) :
    Except ChunkError (List (Datagram Ipv4Header F)) :=
  if datagram.header.timeToLive ≤ 0 then .ok []
  -- mtu==0 means infinite mtu
  else if mtu = 0 ∨ getByteLength datagram.packet ≤ mtu then .ok [datagram]
  else if datagram.header.dontFragment then .ok []
  else if fragmentLength datagram mtu ≤ 0 then
    .error (.error "Cannot fragment datagram: MTU too small for header size")
  else
    fragmentsFrom sharing datagram (payloadLength datagram) (fragmentLength datagram mtu)
      (payloadLength datagram).toNat 0

end Code

/-! ### Parts of a datagram -/

/-- The bits of a header. -/
def headerBits (F : Type) [Ipv4Fields F] (header : Ipv4Header) : List Bool :=
  Fields.serialize (Ipv4Fields.ofHeader header : F)

@[simp] theorem length_headerBits (header : Ipv4Header) :
    (headerBits F header).length = 8 * header.headerLength :=
  Ipv4Fields.length_serialize header

/-- A datagram and its payload. -/
structure Holds (datagram : Datagram Ipv4Header F) (payload : List Bool) : Prop where
  carries : datagram.packet.Carries (headerBits F datagram.header ++ payload)
  total : 8 * datagram.header.totalLengthField = 8 * datagram.header.headerLength + payload.length

/-- Where the payload of a fragment starts, in bits. -/
def start (datagram : Datagram Ipv4Header F) : Nat := 8 * datagram.header.fragmentOffset.toNat

/-- Where the payload of a fragment stops, in bits. -/
def stop (datagram : Datagram Ipv4Header F) : Nat :=
  start datagram + (8 * (datagram.header.totalLengthField - datagram.header.headerLength)).toNat

/-- A header without the fields that are changed hop by hop or set by fragmentation. -/
def core (header : Ipv4Header) : Ipv4Header :=
  { header with totalLengthField := 0, moreFragments := false, fragmentOffset := 0,
                timeToLive := 0 }

/-- A datagram that carries a part of the payload of another one. -/
structure PartOf (original : Ipv4Header) (payload : List Bool) (datagram : Datagram Ipv4Header F) :
    Prop where
  core : core datagram.header = core original
  nonempty : start datagram < stop datagram
  inside : stop datagram ≤ payload.length
  more : datagram.header.moreFragments = true ↔ stop datagram ≠ payload.length
  holds : Holds datagram (part payload (start datagram) (stop datagram - start datagram))

/-- Datagrams that carry consecutive parts of a payload. -/
structure Parts (original : Ipv4Header) (payload : List Bool) (first : Nat)
    (datagrams : List (Datagram Ipv4Header F)) (last : Nat) : Prop where
  tiles : Tiles start stop first datagrams last
  each : ∀ datagram ∈ datagrams, PartOf original payload datagram

variable {original : Ipv4Header} {payload : List Bool}

theorem Holds.getDataLength {datagram : Datagram Ipv4Header F} (holds : Holds datagram payload) :
    datagram.packet.getDataLength = 8 * datagram.header.headerLength + payload.length := by
  rw [holds.carries.getDataLength, List.length_append, length_headerBits]
  omega

theorem core_headerLength {header other : Ipv4Header} (same : core header = core other) :
    header.headerLength = other.headerLength := by
  have := congrArg Ipv4Header.headerLength same
  exact this

theorem PartOf.payloadLength {datagram : Datagram Ipv4Header F}
    (partOf : PartOf original payload datagram) :
    8 * payloadLength datagram = (stop datagram - start datagram : Nat) := by
  have length_eq := partOf.holds.getDataLength
  have total := partOf.holds.total
  have inside := partOf.inside
  have nonempty := partOf.nonempty
  rw [length_part _ _ _ (by omega)] at length_eq total
  unfold Ipv4.payloadLength
  omega

/-- The fragment of a datagram with the part of its payload from one offset to another, in
bytes. -/
structure CutOf (datagram : Datagram Ipv4Header F) (payload : List Bool) (first last : Nat)
    (fragment : Datagram Ipv4Header F) : Prop where
  header : fragment.header = { datagram.header with
    moreFragments := if 8 * last = payload.length then datagram.header.moreFragments else true
    fragmentOffset := fragment.header.fragmentOffset
    totalLengthField := datagram.header.headerLength + (last - first : Nat) }
  offset : fragment.header.fragmentOffset.toNat = datagram.header.fragmentOffset.toNat + first
  holds : Holds fragment (part payload (8 * first) (8 * (last - first)))

theorem Holds.payloadLength {datagram : Datagram Ipv4Header F} (holds : Holds datagram payload) :
    8 * payloadLength datagram = payload.length := by
  have length_eq := holds.getDataLength
  have total := holds.total
  unfold Ipv4.payloadLength
  omega

/-- A fragment that is made at an offset before the end of the payload. -/
theorem fragmentAt_cut (sharing : Sharing F) {datagram : Datagram Ipv4Header F}
    (holds : Holds datagram payload)
    (fits : 8 * datagram.header.fragmentOffset.toNat + payload.length ≤ 8 * 65536)
    (fragmentLength : Int) (positive : 0 < fragmentLength) (offset : Nat)
    (before : offset < payloadLength datagram) :
    ∃ fragment, fragmentAt sharing datagram (payloadLength datagram) fragmentLength offset =
        .ok (fragment, min fragmentLength (payloadLength datagram - offset)) ∧
      CutOf datagram payload offset
        (offset + (min fragmentLength (payloadLength datagram - offset)).toNat) fragment := by
  have long := holds.payloadLength
  -- the length of the fragment
  obtain ⟨thisLength, this_eq⟩ := Int.eq_ofNat_of_zero_le
    (a := min fragmentLength (payloadLength datagram - offset)) (by omega)
  have this_length : (if (decide (payloadLength datagram ≤ offset + fragmentLength)) = true then
      payloadLength datagram - offset else fragmentLength) = thisLength := by
    split
    next last =>
      have := of_decide_eq_true last
      omega
    next more =>
      have := of_decide_eq_false (Bool.eq_false_iff.mpr more)
      omega
  obtain ⟨fragData, peeked, insertable, data_length, data_bits⟩ := holds.carries.peekDataAt sharing
    (8 * (datagram.header.headerLength + offset)) (8 * thisLength) (by omega)
    (by rw [List.length_append, length_headerBits]; omega)
  rw [part_append_right _ _ _ _ (by rw [length_headerBits]; omega), length_headerBits,
    Nat.mul_add, Nat.add_sub_cancel_left] at data_bits
  let fraghdr : Ipv4Header := { datagram.header with
    moreFragments := if (decide (payloadLength datagram ≤ offset + fragmentLength)) = true then
      datagram.header.moreFragments else true
    fragmentOffset := UInt16.ofNat (datagram.header.fragmentOffset.toNat + offset)
    totalLengthField := datagram.header.headerLength + (thisLength : Int) }
  obtain ⟨fragment, back_eq, unpopped, carries⟩ := Packet.empty_carries.insertAtBack
    Packet.empty_unpopped sharing insertable
  have headed : (Chunk.fields (Ipv4Fields.ofHeader fraghdr : F)).Insertable := by
    refine ⟨.fields _, ?_, .fields _⟩
    have minimal := datagram.header.minimal
    rw [Chunk.getChunkLength, Ipv4Fields.length_serialize]
    unfold IPv4_MIN_HEADER_LENGTH at minimal
    simp only [fraghdr]
    omega
  obtain ⟨fragment, front_eq, unpopped, carries⟩ := carries.insertAtFront unpopped sharing _ headed
  have this_nat : (min fragmentLength (payloadLength datagram - offset)).toNat = thisLength := by
    omega
  refine ⟨⟨fraghdr, fragment⟩, ?_, ?_⟩
  · unfold fragmentAt
    simp only [this_length]
    rw [show (8 * (thisLength : Int)) = ((8 * thisLength : Nat) : Int) by omega, peeked, ok_bind]
    simp only
    rw [if_neg (by rw [data_length]; simp), back_eq, ok_bind, front_eq, ok_bind, this_eq]
    rfl
  · rw [this_nat]
    refine ⟨?_, ?_, ?_, ?_⟩
    · have same_more : (if (decide (payloadLength datagram ≤ offset + fragmentLength)) = true then
          datagram.header.moreFragments else true) =
          if 8 * (offset + thisLength) = payload.length then datagram.header.moreFragments
            else true := by
        simp only [decide_eq_true_eq]
        congr 1
        exact propext ⟨by omega, by omega⟩
      simp only [fraghdr, same_more, Nat.add_sub_cancel_left]
    · have small : datagram.header.fragmentOffset.toNat + offset < 65536 := by omega
      simp only [fraghdr, UInt16.toNat_ofNat', Nat.mod_eq_of_lt small]
    · rw [List.nil_append, data_bits] at carries
      rw [Nat.add_sub_cancel_left]
      exact carries
    · rw [Nat.add_sub_cancel_left, length_part _ _ _ (by omega)]
      simp only [fraghdr]
      omega

/-- A fragment of a part of a payload is a part of the payload. -/
theorem fragmentAt_part (sharing : Sharing F) {datagram : Datagram Ipv4Header F}
    (partOf : PartOf original payload datagram) (fits : payload.length ≤ 8 * 65536)
    {fragmentLength : Int} (positive : 0 < fragmentLength) {offset : Nat}
    (before : offset < payloadLength datagram) :
    ∃ fragment, fragmentAt sharing datagram (payloadLength datagram) fragmentLength offset =
        .ok (fragment, min fragmentLength (payloadLength datagram - offset)) ∧
      start fragment = start datagram + 8 * offset ∧
      (stop fragment : Int) =
        start fragment + 8 * min fragmentLength (payloadLength datagram - offset) ∧
      PartOf original payload fragment := by
  have long := partOf.payloadLength
  have inside := partOf.inside
  have length_part_eq := length_part payload (start datagram) (stop datagram - start datagram)
    (by omega)
  have start_datagram : start datagram = 8 * datagram.header.fragmentOffset.toNat := rfl
  obtain ⟨fragment, made, cut⟩ := fragmentAt_cut sharing partOf.holds (by omega) fragmentLength
    positive offset before
  obtain ⟨thisLength, this_eq⟩ := Int.eq_ofNat_of_zero_le
    (a := min fragmentLength (payloadLength datagram - offset)) (by omega)
  rw [this_eq, Int.toNat_natCast] at cut
  have header_eq := cut.header
  have offset_eq := cut.offset
  have holds := cut.holds
  have start_eq : start fragment = start datagram + 8 * offset := by
    rw [start, offset_eq, start_datagram]
    omega
  have stop_eq : stop fragment = start datagram + 8 * offset + 8 * thisLength := by
    rw [stop, start_eq, header_eq]
    simp only
    omega
  refine ⟨fragment, made, start_eq, by rw [stop_eq, start_eq, this_eq]; omega, ?_⟩
  refine ⟨?_, by omega, by omega, ?_, ?_⟩
  · rw [header_eq, ← partOf.core]
    rfl
  · rw [header_eq, stop_eq]
    simp only
    split
    next last =>
      rw [partOf.more]
      omega
    next => simp only [true_iff]; omega
  · rw [start_eq, stop_eq, Nat.add_sub_cancel_left]
    rw [Nat.add_sub_cancel_left, part_part _ _ _ _ _ (by omega)] at holds
    exact holds

/-- The fragments from an offset on are consecutive. -/
theorem fragmentsFrom_parts (sharing : Sharing F) {datagram : Datagram Ipv4Header F}
    (partOf : PartOf original payload datagram) (fits : payload.length ≤ 8 * 65536)
    (fragmentLength : Int) (positive : 0 < fragmentLength) (bound offset : Nat)
    (inside : offset ≤ payloadLength datagram) (enough : payloadLength datagram ≤ offset + bound) :
    ∃ fragments, fragmentsFrom sharing datagram (payloadLength datagram) fragmentLength bound
        offset = .ok fragments ∧
      Parts original payload (start datagram + 8 * offset) fragments (stop datagram) := by
  have long := partOf.payloadLength
  have nonempty := partOf.nonempty
  induction bound generalizing offset with
  | zero =>
    have ends : start datagram + 8 * offset = stop datagram := by omega
    refine ⟨[], ?_, ?_, by simp⟩
    · rw [fragmentsFrom, if_neg (by omega)]
    · rw [ends]
      exact .nil _
  | succ bound ih =>
    by_cases before : offset < payloadLength datagram
    · obtain ⟨fragment, made, start_eq, stop_eq, partOf_fragment⟩ := fragmentAt_part sharing partOf
        fits positive before
      obtain ⟨this, this_eq⟩ := Int.eq_ofNat_of_zero_le
        (a := min fragmentLength (payloadLength datagram - offset)) (by omega)
      rw [this_eq] at made stop_eq
      obtain ⟨fragments, rest_eq, parts⟩ := ih (offset + this) (by omega) (by omega)
      refine ⟨fragment :: fragments, ?_, ?_, ?_⟩
      · rw [fragmentsFrom, if_pos before, made, ok_bind]
        have next : ((offset : Int) + this).toNat = offset + this := by omega
        simp only [next]
        rw [rest_eq]
        rfl
      · rw [← start_eq]
        have next : start datagram + 8 * (offset + this) = stop fragment := by omega
        rw [next] at parts
        exact .cons partOf_fragment.nonempty parts.tiles
      · exact List.forall_mem_cons.mpr ⟨partOf_fragment, parts.each⟩
    · have ends : start datagram + 8 * offset = stop datagram := by omega
      refine ⟨[], ?_, ?_, by simp⟩
      · rw [fragmentsFrom, if_neg before]
      · rw [ends]
        exact .nil _

/-- What a router makes of a part of a datagram, unless it drops it or has no room for it. -/
theorem fragmentDatagram_parts {sharing : Sharing F} {datagram : Datagram Ipv4Header F}
    {fragments : List (Datagram Ipv4Header F)} {mtu : Int}
    (partOf : PartOf original payload datagram) (fits : payload.length ≤ 8 * 65536)
    (sent : fragmentDatagram sharing datagram mtu = .ok fragments) (some_sent : fragments ≠ []) :
    Parts original payload (start datagram) fragments (stop datagram) := by
  have long := partOf.payloadLength
  unfold fragmentDatagram at sent
  split at sent
  next =>
    cases sent
    exact absurd rfl some_sent
  split at sent
  next =>
    cases sent
    exact ⟨.singleton partOf.nonempty, by simpa using partOf⟩
  split at sent
  next =>
    cases sent
    exact absurd rfl some_sent
  split at sent
  next => cases sent
  next room =>
    obtain ⟨fragments', returned, parts⟩ := fragmentsFrom_parts sharing partOf fits
      (fragmentLength datagram mtu) (by omega) (payloadLength datagram).toNat 0 (by omega)
      (by omega)
    rw [sent] at returned
    cases returned
    exact parts

theorem Parts.append {front back : List (Datagram Ipv4Header F)} {first middle last : Nat}
    (parts : Parts original payload first front middle)
    (others : Parts original payload middle back last) :
    Parts original payload first (front ++ back) last where
  tiles := parts.tiles.append others.tiles
  each := List.forall_mem_append.mpr ⟨parts.each, others.each⟩

/-! ### Successive routers -/

/-- A datagram before and after a hop, which changes its time to live and may change how its
packet is represented. -/
structure Hop (datagram next : Datagram Ipv4Header F) : Prop where
  header : ∃ timeToLive, next.header = { datagram.header with timeToLive }
  payload : ∀ payload, Holds datagram payload → Holds next payload

/-- Datagrams and the fragments of them that arrive after any number of routers. -/
inductive Routed (sharing : Sharing F) :
    List (Datagram Ipv4Header F) → List (Datagram Ipv4Header F) → Prop
  | nil : Routed sharing [] []
  | arrives (datagram : Datagram Ipv4Header F) {rest finals : List (Datagram Ipv4Header F)}
      (routed : Routed sharing rest finals) : Routed sharing (datagram :: rest) (datagram :: finals)
  | router (mtu : Int) {datagram next : Datagram Ipv4Header F}
      {fragments rest finals : List (Datagram Ipv4Header F)} (hop : Hop datagram next)
      (sent : fragmentDatagram sharing next mtu = .ok fragments) (some_sent : fragments ≠ [])
      (routed : Routed sharing (fragments ++ rest) finals) : Routed sharing (datagram :: rest) finals

theorem Hop.spans {datagram next : Datagram Ipv4Header F} (hop : Hop datagram next) :
    start next = start datagram ∧ stop next = stop datagram := by
  obtain ⟨timeToLive, header_eq⟩ := hop.header
  constructor
  · rw [start, header_eq, start]
  · rw [stop, stop, start, header_eq, start]

theorem Hop.partOf {datagram next : Datagram Ipv4Header F} (hop : Hop datagram next)
    (partOf : PartOf original payload datagram) : PartOf original payload next := by
  obtain ⟨same_start, same_stop⟩ := hop.spans
  obtain ⟨timeToLive, header_eq⟩ := hop.header
  refine ⟨?_, ?_, ?_, ?_, ?_⟩
  · rw [← partOf.core, header_eq]
    rfl
  · rw [same_start, same_stop]
    exact partOf.nonempty
  · rw [same_stop]
    exact partOf.inside
  · rw [same_stop, ← partOf.more, header_eq]
  · rw [same_start, same_stop]
    exact hop.payload _ partOf.holds

/-- What arrives of the parts of a datagram are parts of it. -/
theorem Routed.parts {sharing : Sharing F} {datagrams finals : List (Datagram Ipv4Header F)}
    (routed : Routed sharing datagrams finals) (fits : payload.length ≤ 8 * 65536)
    {first last : Nat} (parts : Parts original payload first datagrams last) :
    Parts original payload first finals last := by
  induction routed generalizing first with
  | nil => exact parts
  | @arrives datagram rest finals routed ih =>
    obtain ⟨tiles, each⟩ := parts
    cases tiles with
    | cons nonempty tiles =>
      obtain ⟨here, later⟩ := List.forall_mem_cons.mp each
      have rest_parts := ih ⟨tiles, later⟩
      exact ⟨.cons nonempty rest_parts.tiles, List.forall_mem_cons.mpr ⟨here, rest_parts.each⟩⟩
  | @router mtu datagram next fragments rest finals hop sent some_sent routed ih =>
    obtain ⟨tiles, each⟩ := parts
    cases tiles with
    | cons nonempty tiles =>
      obtain ⟨here, later⟩ := List.forall_mem_cons.mp each
      obtain ⟨same_start, same_stop⟩ := hop.spans
      have split := fragmentDatagram_parts (hop.partOf here) fits sent some_sent
      rw [same_start, same_stop] at split
      exact ih (split.append ⟨tiles, later⟩)

end Inet.Ipv4
