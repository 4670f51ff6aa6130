import Inet.Ipv4.Fragmentation
import Inet.Packet.Stream

/-!
# The bytes of IPv4 headers
-/
namespace Inet.Ipv4

open Packet

def IP_OFFMASK : UInt16 := 0x1fff

def IP_RF : UInt16 := 0x8000

def IP_DF : UInt16 := 0x4000

def IP_MF : UInt16 := 0x2000

namespace Ipv4Header

/-- The fixed part of a header, with 0 for the checksum. -/
def serializeFixed (ipv4Header : Ipv4Header) : List UInt8 :=
  let ip_off := ipv4Header.fragmentOffset / 8 &&& IP_OFFMASK
  let ip_off := if ipv4Header.reservedBit then ip_off ||| IP_RF else ip_off
  let ip_off := if ipv4Header.moreFragments then ip_off ||| IP_MF else ip_off
  let ip_off := if ipv4Header.dontFragment then ip_off ||| IP_DF else ip_off
  [ipv4Header.version.toInt.toNat.toUInt8 <<< 4 ||| (ipv4Header.headerLength >>> 2).toUInt8,
    ipv4Header.typeOfService.toInt.toNat.toUInt8] ++
    writeUint16Be (toUint16 ipv4Header.totalLengthField) ++
    writeUint16Be ipv4Header.identification ++ writeUint16Be ip_off ++
    [ipv4Header.timeToLive.toInt.toNat.toUInt8, ipv4Header.protocolId.toUInt8] ++
    writeUint16Be 0 ++ writeUint32Be ipv4Header.srcAddress ++ writeUint32Be ipv4Header.destAddress

/-- The options are filled up to the length of the header. -/
def serialize (ipv4Header : Ipv4Header) : List UInt8 :=
  let optionsLength := ipv4Header.headerLength - IPv4_MIN_HEADER_LENGTH
  ipv4Header.serializeFixed ++
    (ipv4Header.options ++ List.replicate optionsLength 0).take optionsLength

theorem length_serialize (ipv4Header : Ipv4Header) :
    ipv4Header.serialize.length = ipv4Header.headerLength := by
  have minimal := ipv4Header.minimal
  unfold IPv4_MIN_HEADER_LENGTH at minimal
  simp only [serialize, serializeFixed, IPv4_MIN_HEADER_LENGTH, List.length_append, List.length_cons,
    List.length_nil, length_writeUint16Be, length_writeUint32Be, List.length_take,
    List.length_replicate]
  omega

end Ipv4Header

/-- IPv4 headers among other fields. -/
instance {G : Type} [Fields G] : Ipv4Fields (Ipv4Header ⊕ G) where
  serialize
    | .inl ipv4Header => bytesBits ipv4Header.serialize
    | .inr content => Fields.serialize content
  ofHeader := .inl
  length_serialize ipv4Header := by
    rw [Chunk.length_bytesBits, ipv4Header.length_serialize]

end Inet.Ipv4

/-!
## Reassembly of IPv4 datagrams

Whatever routers make of a datagram, the fragment buffer makes the datagram of it again.
-/
namespace Inet.Ipv4

open Lib Packet

variable {F : Type} [Ipv4Fields F]
variable {datagram : Datagram Ipv4Header F} {finals : List (Datagram Ipv4Header F)}

namespace Ipv4FragBuf

structure Key where
  id : UInt16
  src : UInt32
  dest : UInt32
deriving DecidableEq

def format (F : Type) [Ipv4Fields F] : FragmentFormat Ipv4Header Key F where
  key header := ⟨header.identification, header.srcAddress, header.destAddress⟩
  getFragmentOffset header := header.fragmentOffset.toNat
  getMoreFragments := Ipv4Header.moreFragments
  dataOffset := Ipv4Header.headerLength
  dataLength header _ := header.totalLengthField - header.headerLength
  restored header payloadLength := { header with
    totalLengthField := header.headerLength + payloadLength
    fragmentOffset := 0
    moreFragments := false }
  toFields := Ipv4Fields.ofHeader

def addFragment (sharing : Sharing F) (bufs : Buffers Ipv4Header Key F)
    (datagram : Datagram Ipv4Header F) :
    Except ChunkError (Option (Datagram Ipv4Header F) × Buffers Ipv4Header Key F) :=
  (format F).addFragment sharing bufs datagram

/-- What the buffer returns of one fragment after the other. -/
def addFragments (sharing : Sharing F) (bufs : Buffers Ipv4Header Key F) :
    List (Datagram Ipv4Header F) →
      Except ChunkError (List (Option (Datagram Ipv4Header F)) × Buffers Ipv4Header Key F)
  | [] => .ok ([], bufs)
  | datagram :: rest => do
    let (returned, bufs) ← addFragment sharing bufs datagram
    let (others, bufs) ← addFragments sharing bufs rest
    return (returned :: others, bufs)

end Ipv4FragBuf

open Ipv4FragBuf

/-! ### Delivering fragments -/

/-- A datagram that is not a fragment. -/
structure Unfragmented (datagram : Datagram Ipv4Header F) : Prop where
  offset : datagram.header.fragmentOffset = 0
  more : datagram.header.moreFragments = false

/-- A datagram with the payload of another one, and its header but for the time to live. -/
structure SameAs (original : Datagram Ipv4Header F) (payload : List Bool)
    (datagram : Datagram Ipv4Header F) : Prop where
  header : ∃ timeToLive, datagram.header = { original.header with timeToLive }
  payload : Holds datagram payload

variable {original : Ipv4Header} {payload : List Bool}

/-- A part of a datagram is a fragment of its payload. -/
theorem PartOf.isFragment (partOf : PartOf original payload datagram) :
    (format F).IsFragment payload datagram ∧ (format F).start datagram = start datagram ∧
      (format F).stop datagram = stop datagram := by
  have start_eq : (format F).start datagram = start datagram := by
    simp only [FragmentFormat.start, format, start]
    omega
  have stop_eq : (format F).stop datagram = stop datagram := by
    rw [FragmentFormat.stop, start_eq]
    rfl
  have length_eq : (format F).length datagram = stop datagram - start datagram := by
    rw [← stop_eq, FragmentFormat.stop, start_eq, Nat.add_sub_cancel_left]
  have nonempty := partOf.nonempty
  have inside := partOf.inside
  refine ⟨⟨?_, ?_, ?_, ?_, ?_, ?_⟩, start_eq, stop_eq⟩
  · exact Int.natCast_nonneg _
  · omega
  · rw [stop_eq]
    exact inside
  · have whole := length_part payload (start datagram) (stop datagram - start datagram) (by omega)
    have behind : (headerBits F datagram.header).length =
        8 * (format F).dataOffset datagram.header := length_headerBits datagram.header
    refine ⟨_, partOf.holds.carries, ?_, ?_⟩
    · rw [length_eq, List.length_append, behind, whole]
    · rw [length_eq, start_eq, part_append_right _ _ _ _ (Nat.le_of_eq behind), behind, Nat.sub_self]
      exact part_of_length _ _ whole.symm
  · rw [stop_eq]
    exact partOf.more
  · have minimal := datagram.header.minimal
    unfold IPv4_MIN_HEADER_LENGTH at minimal
    simp only [format, Ipv4Fields.length_serialize]
    omega

/-- Everything is covered once all of the fragments have arrived. -/
theorem Parts.coverAll_iff {arrived : List (Datagram Ipv4Header F)}
    (parts : Parts original payload 0 finals payload.length)
    (among : ∀ datagram ∈ arrived, datagram ∈ finals) :
    (format F).CoverAll payload arrived ↔ ∀ datagram ∈ finals, datagram ∈ arrived := by
  rw [← parts.tiles.coverAll_iff among, FragmentFormat.CoverAll]
  refine forall_congr' fun i => ?_
  simp only [Nat.zero_le, true_imp_iff]
  refine imp_congr_right fun _ => exists_congr fun datagram => and_congr_right fun member => ?_
  obtain ⟨_, start_eq, stop_eq⟩ := (parts.each datagram (among datagram member)).isFragment
  rw [start_eq, stop_eq]

/-- What is made of the fragments is the original datagram. -/
theorem Parts.sameAs {whole : Datagram Ipv4Header F} {arrived : List (Datagram Ipv4Header F)}
    (parts : Parts datagram.header payload 0 finals payload.length)
    (among : ∀ fragment ∈ arrived, fragment ∈ finals)
    (holds : Holds datagram payload) (unfragmented : Unfragmented datagram)
    (restores : (format F).Restores payload arrived whole) : SameAs datagram payload whole := by
  obtain ⟨first, member, header_eq⟩ := restores.header
  have total := holds.total
  have core_eq := (parts.each first (among first member)).core
  have length_eq := core_headerLength core_eq
  have restored_eq : whole.header =
      { core datagram.header with
        totalLengthField := datagram.header.totalLengthField
        timeToLive := first.header.timeToLive } := by
    have total_eq : (first.header.headerLength + payload.length / 8 : Int) =
        datagram.header.totalLengthField := by omega
    rw [header_eq, ← core_eq]
    simp only [format, core, total_eq]
  have header_eq : whole.header =
      { datagram.header with timeToLive := first.header.timeToLive } := by
    rw [restored_eq]
    simp only [core, ← unfragmented.offset, ← unfragmented.more]
  refine ⟨⟨_, header_eq⟩, restores.carries, ?_⟩
  rw [header_eq]
  exact total

/-- One fragment after the other. -/
theorem addFragments_reassembles (sharing : Sharing F)
    (parts : Parts datagram.header payload 0 finals payload.length)
    (holds : Holds datagram payload) (unfragmented : Unfragmented datagram)
    (deliveries : List (Datagram Ipv4Header F)) (from_finals : ∀ d ∈ deliveries, d ∈ finals)
    (arrived : List (Datagram Ipv4Header F)) (among : ∀ d ∈ arrived, d ∈ finals)
    (bufs : Buffers Ipv4Header Key F) (collects : (format F).Collects payload arrived
      ((bufs ((format F).key datagram.header)).getD (.new Ipv4Header F))) :
    ∃ results after, addFragments sharing bufs deliveries = .ok (results, after) ∧
      Reassembles finals (SameAs datagram payload) arrived deliveries results := by
  induction deliveries generalizing arrived bufs with
  | nil => exact ⟨[], bufs, rfl, .nil arrived⟩
  | cons fragment rest ih =>
    obtain ⟨member, later⟩ := List.forall_mem_cons.mp from_finals
    have partOf := parts.each fragment member
    have key_eq : (format F).key fragment.header = (format F).key datagram.header := by
      have identification := congrArg Ipv4Header.identification partOf.core
      have src := congrArg Ipv4Header.srcAddress partOf.core
      have dest := congrArg Ipv4Header.destAddress partOf.core
      simp only [core] at identification src dest
      simp only [format, identification, src, dest]
    have among_after : ∀ d ∈ fragment :: arrived, d ∈ finals :=
      List.forall_mem_cons.mpr ⟨member, among⟩
    obtain ⟨completes, collected⟩ := FragmentFormat.addFragment_collects sharing bufs fragment
      (by rw [key_eq]; exact collects) partOf.isFragment.1
    rw [parts.coverAll_iff among_after] at completes collected
    by_cases all : ∀ d ∈ finals, d ∈ fragment :: arrived
    · obtain ⟨whole, added, restores⟩ := completes all
      obtain ⟨results, after, rest_eq, reassembles⟩ := ih later [] (by simp)
        (Function.update bufs ((format F).key fragment.header) none) (by
          rw [key_eq, Function.update_self]
          exact FragmentFormat.new_collects)
      refine ⟨some whole :: results, after, ?_, .complete all
        (parts.sameAs among_after holds unfragmented restores) reassembles⟩
      rw [Ipv4FragBuf.addFragments, Ipv4FragBuf.addFragment, added, ok_bind]
      simp only
      rw [rest_eq]
      rfl
    · obtain ⟨buffer, added, collects_after⟩ := collected all
      obtain ⟨results, after, rest_eq, reassembles⟩ := ih later (fragment :: arrived) among_after
        (Function.update bufs ((format F).key fragment.header) (some buffer)) (by
          rw [key_eq, Function.update_self]
          exact collects_after)
      refine ⟨none :: results, after, ?_, .missing (by simpa using all) reassembles⟩
      rw [Ipv4FragBuf.addFragments, Ipv4FragBuf.addFragment, added, ok_bind]
      simp only
      rw [rest_eq]
      rfl

/-- The fragments of a datagram, delivered in any order and any number of times, return it
exactly when the last missing one arrives. -/
theorem fragmentation_reassembles (sharing : Sharing F) (datagram : Datagram Ipv4Header F)
    (payload : List Bool) (holds : Holds datagram payload) (unfragmented : Unfragmented datagram)
    (nonempty : payload ≠ []) (fits : payload.length ≤ 8 * 65536)
    (finals : List (Datagram Ipv4Header F)) (routed : Routed sharing [datagram] finals)
    (deliveries : List (Datagram Ipv4Header F)) (from_finals : ∀ d ∈ deliveries, d ∈ finals) :
    ∃ results after, addFragments sharing (fun _ => none) deliveries = .ok (results, after) ∧
      Reassembles finals (SameAs datagram payload) [] deliveries results := by
  have positive := List.length_pos_of_ne_nil nonempty
  have start_eq : start datagram = 0 := by
    rw [start, unfragmented.offset]
    rfl
  have stop_eq : stop datagram = payload.length := by
    have total := holds.total
    rw [stop, start_eq]
    omega
  have partOf : PartOf datagram.header payload datagram := by
    refine ⟨rfl, by omega, by omega, ?_, ?_⟩
    · rw [unfragmented.more, stop_eq]
      simp
    · rw [start_eq, stop_eq, Nat.sub_zero, part_all]
      exact holds
  have whole : Parts datagram.header payload 0 [datagram] payload.length := by
    refine ⟨?_, by simpa using partOf⟩
    rw [← start_eq, ← stop_eq]
    exact .singleton partOf.nonempty
  exact addFragments_reassembles sharing (routed.parts fits whole) holds unfragmented deliveries
    from_finals [] (by simp) _ FragmentFormat.new_collects

/-! ### Examples -/

/-- A header without options. -/
def plainHeader (payloadLength : Nat) : Ipv4Header where
  totalLengthField := 20 + payloadLength
  identification := 7
  timeToLive := 32
  protocolId := 17
  srcAddress := 0x0a000001
  destAddress := 0x0a000002

/-- A datagram that is filled with a number of bytes. -/
def filled (payloadLength : Nat) : Datagram Ipv4Header (Ipv4Header ⊕ List Bool) :=
  ⟨plainHeader payloadLength, .ofContent (.sequence [.fields (.inl (plainHeader payloadLength)),
    .byteCount payloadLength '?'.toUInt8])⟩

theorem filled_holds (payloadLength : Nat) (positive : 0 < payloadLength) :
    Holds (filled payloadLength) (fillBits payloadLength '?'.toUInt8) where
  carries := by
    have headed : 0 < (Chunk.fields (.inl (plainHeader payloadLength) :
        Ipv4Header ⊕ List Bool)).getChunkLength := by
      rw [Chunk.getChunkLength]
      exact Nat.lt_of_lt_of_eq (Nat.zero_lt_succ 159)
        (length_headerBits (plainHeader payloadLength)).symm
    refine Packet.carries_of_content ?_ ?_ rfl ⟨rfl, rfl⟩ ?_
    · refine .sequence ?_ ?_
      · simpa using ⟨.fields _, .byteCount _ _⟩
      · simpa [Chunk.getChunkLength] using ⟨headed, positive⟩
    · exact .sequence (by simpa using ⟨.fields _, .byteCount _⟩)
    · simp only [filled, Packet.ofContent, Chunk.bits, Chunk.bitsOfAll, List.append_nil]
      rfl
  total := by
    rw [Chunk.length_fillBits]
    simp only [filled, plainHeader, IPv4_MIN_HEADER_LENGTH]
    omega

theorem filled_unfragmented (payloadLength : Nat) : Unfragmented (filled payloadLength) := ⟨rfl, rfl⟩

/-- A hop that changes nothing. -/
theorem Hop.rfl (datagram : Datagram Ipv4Header F) : Hop datagram datagram :=
  ⟨⟨_, Eq.refl _⟩, fun _ holds => holds⟩

/-- A datagram of 16 bytes is returned with its second fragment. -/
theorem fragmentation_reassembles_two : ∃ finals, Routed (.never _) [filled 16] finals ∧
    finals.length = 2 ∧
    ∃ results after, addFragments (.never _) (fun _ => none) finals = .ok (results, after) ∧
      Reassembles finals (SameAs (filled 16) (fillBits 16 '?'.toUInt8)) [] finals results := by
  have two : (fragmentDatagram (.never _) (filled 16) 28).toOption.map List.length = some 2 := by
    decide +kernel
  match sent : fragmentDatagram (.never _) (filled 16) 28, two with
  | .ok [first, second], _ =>
    have routed : Routed (.never _) [filled 16] [first, second] :=
      .router 28 (.rfl _) sent (by simp) (.arrives _ (.arrives _ .nil))
    exact ⟨_, routed, rfl, fragmentation_reassembles (.never _) (filled 16) _
      (filled_holds 16 (by decide)) (filled_unfragmented 16) (by decide +kernel)
      (by rw [Chunk.length_fillBits]; decide) _ routed _ fun _ member => member⟩

/-- The fragments of a datagram behind one router, if there are two, and which of them return
something when they are delivered in order. -/
def deliverBoth (payloadLength : Nat) (mtu : Int) : Option (List Bool) :=
  match fragmentDatagram (.never _) (filled payloadLength) mtu with
  | .ok [first, second] =>
    match addFragments (.never _) (fun _ => none) [first, second] with
    | .ok (results, _) => some (results.map Option.isSome)
    | .error _ => none
  | _ => none

/-- The offset of a fragment behind 65536 bytes does not fit its field, and the datagram is never
returned. -/
theorem fragmentation_truncates :
    ¬ ∀ (datagram : Datagram Ipv4Header (Ipv4Header ⊕ List Bool)) (payload : List Bool),
      Holds datagram payload → Unfragmented datagram → payload ≠ [] →
      ∀ finals, Routed (.never _) [datagram] finals →
      ∀ deliveries : List (Datagram Ipv4Header (Ipv4Header ⊕ List Bool)),
        (∀ d ∈ deliveries, d ∈ finals) →
        ∃ results after, addFragments (.never _) (fun _ => none) deliveries = .ok (results, after) ∧
          Reassembles finals (SameAs datagram payload) [] deliveries results := by
  intro all
  have nothing : deliverBoth 65544 65556 = some [false, false] := by decide +kernel
  unfold deliverBoth at nothing
  split at nothing
  next first second sent =>
    have routed : Routed (.never _) [filled 65544] [first, second] :=
      .router 65556 (.rfl _) sent (by simp) (.arrives _ (.arrives _ .nil))
    obtain ⟨results, after, returned, reassembles⟩ := all (filled 65544) _
      (filled_holds 65544 (by decide)) (filled_unfragmented 65544)
      (List.ne_nil_of_length_pos (by rw [Chunk.length_fillBits]; decide)) _ routed [first, second]
      fun _ member => member
    rw [returned] at nothing
    cases reassembles with
    | complete => cases nothing
    | missing some_missing later =>
      cases later with
      | complete => cases nothing
      | missing some_missing later =>
        obtain ⟨other, member, missing⟩ := some_missing
        simp only [List.mem_cons, List.not_mem_nil, or_false] at member missing
        exact missing member.symm
  next => cases nothing

end Inet.Ipv4
