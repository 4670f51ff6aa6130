import Inet.Ipv6.Ipv6Header
import Inet.Lib.Tiling

/-!
# Fragmentation of IPv6 datagrams

Only sources fragment. The header of a fragment has all of the extension headers, but its length is
that of the unfragmentable part and of the fragment header.
-/
namespace Inet.Ipv6

open Lib Packet

/-- Kinds of `FieldsChunk`s among which IPv6 headers are. -/
class Ipv6Fields (F : Type) extends Fields F where
  ofHeader : Ipv6Header → F
  length_serialize : ∀ header, (serialize (ofHeader header)).length = 8 * header.chunkLength

variable {F : Type} [Ipv6Fields F]

section Code

variable (sharing : Sharing F)

/-- `fragmentLength` of a datagram that is fragmented. -/
def fragmentLength (header : Ipv6Header) (mtu : Int) : Int :=
  (mtu - header.calculateUnfragmentableHeaderByteLength - IPv6_FRAGMENT_HEADER_LENGTH).tdiv 8 * 8

/-- The fragment of a datagram at an offset. -/
def fragmentAt (datagram : Datagram Ipv6Header F) (payloadLength fragmentLength : Int)
    (identification : UInt32) (offset : Nat) : Except ChunkError (Datagram Ipv6Header F) := do
  let ipv6Header := datagram.header
  let headerLength := ipv6Header.calculateUnfragmentableHeaderByteLength
  let lastFragment : Bool := payloadLength ≤ offset + fragmentLength
  let thisFragmentLength := if lastFragment then payloadLength - offset else fragmentLength
  let extended ← ipv6Header.addExtensionHeader
    (.fragment ⟨identification, UInt16.ofNat offset, !lastFragment⟩)
  let fragHdr := { extended with chunkLength := headerLength + IPv6_FRAGMENT_HEADER_LENGTH }
  let fragPk ← (Packet.ofContent .empty).insertAtFront sharing (.fields (Ipv6Fields.ofHeader fragHdr))
  -- the header of the datagram is popped, so that its data starts behind the header
  match ← datagram.packet.peekDataAt sharing (8 * (ipv6Header.chunkLength + offset))
      (8 * thisFragmentLength) {} with
  | none => throw .undefinedBehaviour
  | some data =>
    let fragPk ← fragPk.insertAtBack sharing data
    if fragPk.getDataLength ≠
        8 * (headerLength + IPv6_FRAGMENT_HEADER_LENGTH + thisFragmentLength) then
      throw (.error "ASSERT: Condition does not hold")
    return ⟨fragHdr, fragPk⟩

/-- The fragments from an offset on. The first argument bounds how many there are. -/
def fragmentsFrom (datagram : Datagram Ipv6Header F) (payloadLength fragmentLength : Int)
    (identification : UInt32) : Nat → Nat → Except ChunkError (List (Datagram Ipv6Header F))
  | 0, offset => if offset < payloadLength then .error .undefinedBehaviour else .ok []
  | bound + 1, offset =>
    if offset < payloadLength then do
      let fragment ← fragmentAt sharing datagram payloadLength fragmentLength identification offset
      let fragments ← fragmentsFrom datagram payloadLength fragmentLength identification bound
        (offset + fragmentLength).toNat
      return fragment :: fragments
    else .ok []

/-- The part of `fragmentAndSend` that makes fragments. -/
def createFragments (identification : UInt32) (datagram : Datagram Ipv6Header F) (mtu : Int) :
    Except ChunkError (List (Datagram Ipv6Header F)) := do
  let payloadLength ← toBytes (datagram.packet.getDataLength - 8 * datagram.header.chunkLength)
  if fragmentLength datagram.header mtu ≤ 0 then
    throw (.error "ASSERT: Condition does not hold")
  fragmentsFrom sharing datagram payloadLength (fragmentLength datagram.header mtu) identification
    payloadLength.toNat 0

/-- What is sent of a datagram whose source address is known. -/
def fragmentAndSend (identification : UInt32) (datagram : Datagram Ipv6Header F) (mtu : Int)
    (fromHL : Bool) : Except ChunkError (List (Datagram Ipv6Header F)) :=
  if datagram.header.hopLimit ≤ 0 then .ok []
  else if datagram.packet.totalLength ≤ 8 * mtu then .ok [datagram]
  -- routed datagrams are not fragmented
  else if !fromHL then .ok []
  else createFragments sharing identification datagram mtu

end Code

/-! ### Fragments of a payload -/

/-- The bits of a header. -/
def headerBits (F : Type) [Ipv6Fields F] (header : Ipv6Header) : List Bool :=
  Fields.serialize (Ipv6Fields.ofHeader header : F)

@[simp] theorem length_headerBits (header : Ipv6Header) :
    (headerBits F header).length = 8 * header.chunkLength :=
  Ipv6Fields.length_serialize header

/-- A datagram and its payload of some bytes. -/
structure Holds (datagram : Datagram Ipv6Header F) (payload : List Bool) : Prop where
  carries : datagram.packet.Carries (headerBits F datagram.header ++ payload)
  bytes : 8 ∣ payload.length

/-- The header of a fragment, which may have been sent over some hops. -/
structure IsHeaderOf (original : Ipv6Header) (fh : Ipv6FragmentHeader) (header : Ipv6Header) :
    Prop where
  same : ∃ hopLimit, header = { original with
    chunkLength := original.calculateUnfragmentableHeaderByteLength + IPv6_FRAGMENT_HEADER_LENGTH
    hopLimit
    extensionHeader := header.extensionHeader }
  added : Ipv6Header.AddedFragment original.extensionHeader fh header.extensionHeader

/-- The fragment header at an offset. Lengths and offsets are in bytes. -/
def fragmentHeaderAt (identification : UInt32) (payloadLength length offset : Nat) :
    Ipv6FragmentHeader where
  identification := identification
  fragmentOffset := UInt16.ofNat offset
  moreFragments := offset + length < payloadLength

/-- The fragment of a payload at an offset, of some length unless it is the last one. -/
structure FragmentOf (original : Ipv6Header) (payload : List Bool) (identification : UInt32)
    (length offset : Nat) (fragment : Datagram Ipv6Header F) : Prop where
  before : 8 * offset < payload.length
  header : IsHeaderOf original
    (fragmentHeaderAt identification (payload.length / 8) length offset) fragment.header
  carries : fragment.packet.Carries (headerBits F fragment.header ++
    part payload (8 * offset) (min (8 * length) (payload.length - 8 * offset)))
  unpopped : fragment.packet.Unpopped

/-- Consecutive fragments from an offset on. -/
inductive FragmentsOf (original : Ipv6Header) (payload : List Bool) (identification : UInt32)
    (length : Nat) : Nat → List (Datagram Ipv6Header F) → Prop
  | nil {offset : Nat} (done : payload.length ≤ 8 * offset) :
    FragmentsOf original payload identification length offset []
  | cons {offset : Nat} {fragment : Datagram Ipv6Header F} {rest : List (Datagram Ipv6Header F)}
    (here : FragmentOf original payload identification length offset fragment)
    (later : FragmentsOf original payload identification length (offset + length) rest) :
    FragmentsOf original payload identification length offset (fragment :: rest)

variable {datagram : Datagram Ipv6Header F} {payload : List Bool}

theorem Holds.payloadLength (holds : Holds datagram payload) :
    toBytes (datagram.packet.getDataLength - 8 * datagram.header.chunkLength) =
      .ok ((payload.length / 8 : Nat) : Int) := by
  have bytes := holds.bytes
  rw [holds.carries.getDataLength, List.length_append, length_headerBits, ← toBytes_bytes]
  congr 1
  omega

theorem fragmentAt_fragment (sharing : Sharing F) (holds : Holds datagram payload)
    (legal : datagram.header.Legal) (identification : UInt32) {length offset : Nat}
    (positive : 0 < length) (before : 8 * offset < payload.length) :
    ∃ fragment, fragmentAt sharing datagram (payload.length / 8 : Nat) length identification
        offset = .ok fragment ∧
      FragmentOf datagram.header payload identification length offset fragment := by
  have bytes := holds.bytes
  -- the length of the fragment
  obtain ⟨this, this_eq⟩ : ∃ this, this = min length (payload.length / 8 - offset) := ⟨_, rfl⟩
  have this_length : (if (decide (((payload.length / 8 : Nat) : Int) ≤ (offset : Int) + length)) =
      true then ((payload.length / 8 : Nat) : Int) - offset else length) = this := by
    simp only [decide_eq_true_eq]
    split <;> omega
  have more : (!(decide (((payload.length / 8 : Nat) : Int) ≤ (offset : Int) + length))) =
      decide (offset + length < payload.length / 8) := by
    rw [← decide_not]
    exact decide_eq_decide.mpr (by omega)
  obtain ⟨extended, added_eq, added⟩ := legal.addFragmentHeader
    (fragmentHeaderAt identification (payload.length / 8) length offset)
  let fragHdr : Ipv6Header := { datagram.header with
    chunkLength := datagram.header.calculateUnfragmentableHeaderByteLength +
      IPv6_FRAGMENT_HEADER_LENGTH
    extensionHeader := extended }
  have headed : (Chunk.fields (Ipv6Fields.ofHeader fragHdr : F)).Insertable := by
    refine ⟨.fields _, ?_, .fields _⟩
    rw [Chunk.getChunkLength, Ipv6Fields.length_serialize]
    simp only [fragHdr, IPv6_FRAGMENT_HEADER_LENGTH]
    omega
  obtain ⟨fragPk, front_eq, unpopped, carries⟩ := Packet.empty_carries.insertAtFront
    Packet.empty_unpopped sharing _ headed
  obtain ⟨data, peeked, insertable, data_length, data_bits⟩ := holds.carries.peekDataAt sharing
    (8 * (datagram.header.chunkLength + offset)) (8 * this) (by omega)
    (by rw [List.length_append, length_headerBits]; omega)
  rw [part_append_right _ _ _ _ (by rw [length_headerBits]; omega), length_headerBits,
    Nat.mul_add, Nat.add_sub_cancel_left] at data_bits
  obtain ⟨fragPk', back_eq, unpopped, carries⟩ := carries.insertAtBack unpopped sharing insertable
  have front : (Chunk.fields (Ipv6Fields.ofHeader fragHdr : F)).bits = headerBits F fragHdr := rfl
  rw [List.append_nil, front, data_bits] at carries
  have this_bits : 8 * this = min (8 * length) (payload.length - 8 * offset) := by omega
  refine ⟨⟨fragHdr, fragPk'⟩, ?_, before, ⟨⟨_, rfl⟩, added⟩, ?_, unpopped⟩
  · unfold fragmentAt
    simp only [this_length, more]
    rw [show (⟨identification, UInt16.ofNat offset, decide (offset + length < payload.length / 8)⟩ :
      Ipv6FragmentHeader) = fragmentHeaderAt identification (payload.length / 8) length offset from
      rfl, added_eq, ok_bind]
    simp only
    rw [front_eq, ok_bind, show (8 * (this : Int)) = ((8 * this : Nat) : Int) by omega, peeked,
      ok_bind]
    simp only
    rw [back_eq, ok_bind, if_neg ?_]
    · rfl
    · rw [carries.getDataLength, List.length_append, length_headerBits,
        length_part _ _ _ (by omega), not_ne_iff]
      simp only [fragHdr]
      omega
  · rw [this_bits] at carries
    exact carries

theorem fragmentsFrom_fragments (sharing : Sharing F) (holds : Holds datagram payload)
    (legal : datagram.header.Legal) (identification : UInt32) {length : Nat} (positive : 0 < length)
    (bound offset : Nat) (enough : payload.length ≤ 8 * (offset + bound)) :
    ∃ fragments, fragmentsFrom sharing datagram (payload.length / 8 : Nat) length identification
        bound offset = .ok fragments ∧
      FragmentsOf datagram.header payload identification length offset fragments := by
  have bytes := holds.bytes
  induction bound generalizing offset with
  | zero =>
    refine ⟨[], ?_, .nil enough⟩
    rw [fragmentsFrom, if_neg (by omega)]
  | succ bound ih =>
    rw [fragmentsFrom]
    by_cases before : 8 * offset < payload.length
    · obtain ⟨fragment, made, here⟩ := fragmentAt_fragment sharing holds legal identification
        positive before
      obtain ⟨rest, rest_eq, later⟩ := ih (offset + length) (by omega)
      refine ⟨fragment :: rest, ?_, .cons here later⟩
      have next : ((offset : Int) + length).toNat = offset + length := by omega
      rw [if_pos (by omega), made, ok_bind, next, rest_eq]
      rfl
    · refine ⟨[], ?_, .nil (by omega)⟩
      rw [if_neg (by omega)]

/-- The fragments of a datagram. -/
theorem createFragments_fragments (sharing : Sharing F) (holds : Holds datagram payload)
    (legal : datagram.header.Legal) (identification : UInt32) {mtu : Int} {length : Nat}
    (length_eq : fragmentLength datagram.header mtu = length) (positive : 0 < length) :
    ∃ fragments, createFragments sharing identification datagram mtu = .ok fragments ∧
      FragmentsOf datagram.header payload identification length 0 fragments := by
  obtain ⟨fragments, returned, fragmentsOf⟩ := fragmentsFrom_fragments sharing holds legal
    identification positive (payload.length / 8) 0 (by have := holds.bytes; omega)
  refine ⟨fragments, ?_, fragmentsOf⟩
  unfold createFragments
  rw [holds.payloadLength, ok_bind, length_eq, if_neg (by omega), Int.toNat_natCast]
  exact returned

namespace FragmentsOf

variable {original : Ipv6Header} {identification : UInt32} {length offset : Nat}
  {fragments : List (Datagram Ipv6Header F)}

theorem each (fragmentsOf : FragmentsOf original payload identification length offset fragments) :
    ∀ fragment ∈ fragments, ∃ start, offset ≤ start ∧ length ∣ start - offset ∧
      FragmentOf original payload identification length start fragment := by
  induction fragmentsOf with
  | nil => simp
  | @cons offset first rest here later ih =>
    intro fragment member
    rcases List.mem_cons.mp member with rfl | behind
    · exact ⟨offset, Nat.le_refl _, by simp, here⟩
    · obtain ⟨start, started, multiple, fragmentOf⟩ := ih fragment behind
      refine ⟨start, by omega, ?_, fragmentOf⟩
      have same : start - offset = start - (offset + length) + length := by omega
      rw [same]
      exact Nat.dvd_add_self_right.mpr multiple

/-- Only the last fragment has no more behind it. -/
theorem split_last (fragmentsOf : FragmentsOf original payload identification length offset fragments)
    (bytes : 8 ∣ payload.length) (some_left : 8 * offset < payload.length) :
    ∃ front last start, fragments = front ++ [last] ∧
      FragmentOf original payload identification length start last ∧
      payload.length ≤ 8 * (start + length) ∧
      ∀ fragment ∈ front, ∃ start, FragmentOf original payload identification length start fragment ∧
        8 * (start + length) < payload.length := by
  induction fragmentsOf with
  | nil => omega
  | @cons offset first rest here later ih =>
    by_cases more : 8 * (offset + length) < payload.length
    · obtain ⟨front, last, start, rfl, fragmentOf, ends, others⟩ := ih more
      exact ⟨first :: front, last, start, rfl, fragmentOf, ends,
        List.forall_mem_cons.mpr ⟨⟨offset, here, more⟩, others⟩⟩
    · cases later with
      | nil done => exact ⟨[], first, offset, rfl, here, done, by simp⟩
      | cons here' later => exact absurd here'.before more

end FragmentsOf

end Inet.Ipv6
