import Inet.Packet.FragmentBuffer
import Inet.Packet.Stream

/-!
# RDMA headers
-/
namespace Inet.Rdma

open Packet

inductive CrcMode where
  | CRC_MODE_UNDEFINED
  | CRC_DISABLED
  | CRC_DECLARED_CORRECT
  | CRC_DECLARED_INCORRECT
  | CRC_COMPUTED
deriving DecidableEq, Repr

/-- In bytes. -/
def RDMA_HEADER_LENGTH : Nat := 8

structure RdmaHeader where
  srcPort : UInt16 := 0
  destPort : UInt16 := 0
  totalLengthField : Int := -1
  crc : UInt16 := 0
  crcMode : CrcMode := .CRC_MODE_UNDEFINED
  moreFragments : Bool := false
  fragmentOffset : Int := 0
  identification : UInt16 := 0
deriving DecidableEq, Repr

namespace RdmaHeader

/-- The bytes that stand for a header, whatever its checksum mode. -/
def bytes (rdmaHeader : RdmaHeader) : List UInt8 :=
  writeUint16Be rdmaHeader.srcPort ++ writeUint16Be rdmaHeader.destPort ++
    writeUint16Be (toUint16 rdmaHeader.totalLengthField) ++ writeUint16Be rdmaHeader.crc

/-- What is copied of a header: not the fragmentation fields. -/
def dup (rdmaHeader : RdmaHeader) : RdmaHeader :=
  { rdmaHeader with moreFragments := false, fragmentOffset := 0, identification := 0 }

@[simp] theorem length_bytes (rdmaHeader : RdmaHeader) : rdmaHeader.bytes.length = 8 := rfl

end RdmaHeader

/-- Kinds of `FieldsChunk`s among which RDMA headers are. -/
class RdmaFields (F : Type) extends Fields F where
  ofHeader : RdmaHeader → F
  serialize_ofHeader : ∀ header, serialize (ofHeader header) = bytesBits header.bytes

/-- RDMA headers among other fields. -/
instance {G : Type} [Fields G] : RdmaFields (RdmaHeader ⊕ G) where
  serialize
    | .inl rdmaHeader => bytesBits rdmaHeader.bytes
    | .inr content => Fields.serialize content
  ofHeader := .inl
  serialize_ofHeader _ := rfl

theorem length_serialize {F : Type} [RdmaFields F] (header : RdmaHeader) :
    (Fields.serialize (RdmaFields.ofHeader header : F)).length = 64 := by
  rw [RdmaFields.serialize_ofHeader, Chunk.length_bytesBits, RdmaHeader.length_bytes]

end Inet.Rdma

/-!
## The serializer of RDMA headers

It writes the ports, the total length and the checksum. The fragmentation fields are not among
the bytes of a header.
-/
namespace Inet.Rdma

open Packet

namespace RdmaHeaderSerializer

def serialize (rdmaHeader : RdmaHeader) : Except ChunkError (List UInt8) :=
  if rdmaHeader.crcMode ≠ .CRC_DISABLED ∧ rdmaHeader.crcMode ≠ .CRC_COMPUTED then
    .error (.error ("Cannot serialize RDMA header without turned off or properly computed CRC, " ++
      "try changing the value of crcMode parameter for Rdma"))
  else .ok rdmaHeader.bytes

/-- The header that is read, and what is left of the stream. -/
def deserialize (stream : List UInt8) : RdmaHeader × List UInt8 :=
  let (srcPort, stream) := readUint16Be stream
  let (destPort, stream) := readUint16Be stream
  let (totalLength, stream) := readUint16Be stream
  let (crc, stream) := readUint16Be stream
  ({ srcPort, destPort, totalLengthField := totalLength.toNat, crc
     crcMode := if crc = 0 then .CRC_DISABLED else .CRC_COMPUTED }, stream)

/-- A header that has bytes: its length fits, and its checksum mode is the one that its checksum
stands for. -/
structure Serializable (rdmaHeader : RdmaHeader) : Prop where
  nonneg : 0 ≤ rdmaHeader.totalLengthField
  fits : rdmaHeader.totalLengthField < 65536
  mode : rdmaHeader.crcMode = if rdmaHeader.crc = 0 then .CRC_DISABLED else .CRC_COMPUTED

/-- Reading the bytes of a header, with others behind them, leaves the others and returns an equal
header. A fragment is then at the same position of the same datagram. -/
def RoundTrips (rdmaHeader : RdmaHeader) (rest : List UInt8) : Prop :=
  ∃ bytes, serialize rdmaHeader = .ok bytes ∧ bytes.length = RDMA_HEADER_LENGTH ∧
    deserialize (bytes ++ rest) = (rdmaHeader, rest)

/-- What is read of the bytes of a header. -/
theorem deserialize_bytes {rdmaHeader : RdmaHeader} (serializable : Serializable rdmaHeader)
    (rest : List UInt8) :
    deserialize (rdmaHeader.bytes ++ rest) =
      ({ rdmaHeader with moreFragments := false, fragmentOffset := 0, identification := 0 },
        rest) := by
  have length_eq := toNat_toUint16_of_lt serializable.nonneg serializable.fits
  simp only [deserialize, RdmaHeader.bytes, List.append_assoc, readUint16Be_write, length_eq,
    ← serializable.mode]

theorem serialize_eq {rdmaHeader : RdmaHeader} (serializable : Serializable rdmaHeader) :
    serialize rdmaHeader = .ok rdmaHeader.bytes := by
  have mode := serializable.mode
  unfold serialize
  split
  next other =>
    split at mode
    next => exact absurd mode other.1
    next => exact absurd mode other.2
  next => rfl

end RdmaHeaderSerializer
end Inet.Rdma
