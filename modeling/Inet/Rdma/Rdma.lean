import Inet.Packet.FragmentSources
import Inet.Rdma.RdmaCrc

/-!
# The fragment buffer of the RDMA application
-/
namespace Inet.Rdma.RdmaAppFragBuf

open Packet

structure Key where
  id : UInt16
  localPort : UInt16
  remotePort : UInt16
deriving DecidableEq

def format (F : Type) [RdmaFields F] : FragmentFormat RdmaHeader Key F where
  key header := ⟨header.identification, header.srcPort, header.destPort⟩
  getFragmentOffset := RdmaHeader.fragmentOffset
  getMoreFragments := RdmaHeader.moreFragments
  dataOffset _ := RDMA_HEADER_LENGTH
  dataLength header _ := header.totalLengthField - RDMA_HEADER_LENGTH
  restored header payloadLength := { header.dup with
    totalLengthField := RDMA_HEADER_LENGTH + payloadLength
    fragmentOffset := 0
    moreFragments := false }
  toFields := RdmaFields.ofHeader

end Inet.Rdma.RdmaAppFragBuf

/-!
## Sending RDMA messages

Lengths and offsets in headers are in bytes, those in packets in bits. Tags and names of packets
are left out.
-/
set_option linter.dupNamespace false

namespace Inet.Rdma

open Lib Packet

variable {F : Type} [RdmaFields F]

/-- In bytes. -/
def RDMA_MAX_MESSAGE_SIZE : Int := 4096

def L3Address.isUnspecified : L3Address → Bool
  | none => true
  | ipv4 address => address = 0
  | ipv6 words => words = Vector.replicate 4 0
  | other => false

/-- The module that sends messages; its parent module has the number `moduleId`. -/
structure Rdma where
  moduleId : Int
  crcMode : CrcMode
  numSent : Int := 0

/-- A packet from an application with its tags, and the numbers that `rand` returns. -/
structure Request (F : Type) where
  packet : Packet F
  destAddr : L3Address
  portsReq : Option (Int × Int) := none
  rand : Nat × Nat := (0, 0)

namespace Request

def srcPort (request : Request F) : Int :=
  match request.portsReq with
  | some (port, _) => if port = -1 then request.rand.1 % 65535 else port
  | none => request.rand.1 % 65535

def destPort (request : Request F) : Int :=
  match request.portsReq with
  | some (_, port) => if port = -1 then request.rand.2 % 65535 else port
  | none => request.rand.2 % 65535

def l3Protocol (request : Request F) : Protocol :=
  match request.destAddr with
  | .ipv4 _ => .ipv4
  | .ipv6 _ => .ipv6
  | _ => .other "nextHopForwarding"

end Request

namespace Rdma

variable (sharing : Sharing F) (rdma : Rdma) (request : Request F)

/-- The header of a message, before its length and checksum are set. -/
def rdmaHeader : RdmaHeader where
  srcPort := toUint16 request.srcPort
  destPort := toUint16 request.destPort
  identification := toUint16 (rdma.moduleId * 10 + rdma.numSent)

/-- Computed checksums are inserted by a hook, and other ones do not depend on the data. -/
def setCrc (rdmaHeader : RdmaHeader) : Except ChunkError RdmaHeader :=
  if rdma.crcMode = .CRC_COMPUTED then
    .ok { rdmaHeader with crcMode := .CRC_COMPUTED, crc := 0 }
  else
    insertCrc request.l3Protocol .none request.destAddr { rdmaHeader with crcMode := rdma.crcMode } []

/-- The fragment of a message at an offset, with the length of its payload. -/
def fragmentAt (payloadLength fragmentLength : Int) (offset : Nat) :
    Except ChunkError (Datagram RdmaHeader F × Int) := do
  if 2 ^ 31 ≤ offset + fragmentLength then throw .undefinedBehaviour
  let lastFragment : Bool := payloadLength ≤ offset + fragmentLength
  -- length equal to fragmentLength, except for last fragment
  let thisFragmentLength := if lastFragment then payloadLength - offset else fragmentLength
  match ← request.packet.peekDataAt sharing (8 * (RDMA_HEADER_LENGTH + offset))
      (8 * thisFragmentLength) {} with
  | none => throw .undefinedBehaviour
  | some fragData =>
    if fragData.getChunkLength ≠ 8 * thisFragmentLength then
      throw (.error "ASSERT: Condition does not hold")
    let fragment ← (Packet.ofContent .empty).insertAtBack sharing fragData
    -- "more fragments" bit is unchanged in the last fragment, otherwise true
    let fraghdr ← rdma.setCrc request { (rdma.rdmaHeader request).dup with
      moreFragments := if lastFragment then false else true
      fragmentOffset := offset
      totalLengthField := RDMA_HEADER_LENGTH + thisFragmentLength }
    -- the header is inserted twice
    let fragment ← fragment.insertAtFront sharing (.fields (RdmaFields.ofHeader fraghdr))
    let fragment ← fragment.insertAtFront sharing (.fields (RdmaFields.ofHeader fraghdr))
    return (⟨fraghdr, fragment⟩, thisFragmentLength)

/-- The fragments from an offset on. The first argument bounds how many there are. -/
def fragmentsFrom (payloadLength fragmentLength : Int) :
    Nat → Nat → Except ChunkError (List (Datagram RdmaHeader F))
  | 0, offset => if offset < payloadLength then .error .undefinedBehaviour else .ok []
  | bound + 1, offset =>
    if offset < payloadLength then do
      let (fragment, thisFragmentLength) ← rdma.fragmentAt sharing request payloadLength
        fragmentLength offset
      let fragments ← fragmentsFrom payloadLength fragmentLength bound
        (offset + thisFragmentLength).toNat
      return fragment :: fragments
    else .ok []

/-- The length of what is fragmented, as an `int`. -/
def payloadLength (dataLength : Int) : Int := (dataLength - RDMA_HEADER_LENGTH).bmod (2 ^ 32)

/-- Payload only, without header. -/
def fragmentLength : Int := (RDMA_MAX_MESSAGE_SIZE - RDMA_HEADER_LENGTH) / 8 * 8

def handleUpperPacket : Except ChunkError (List (Datagram RdmaHeader F) × Rdma) := do
  let packet := request.packet
  if request.destAddr.isUnspecified then
    throw (.error "send: unspecified destination address")
  if request.destPort ≤ 0 ∨ 65535 < request.destPort then
    throw (.error ("send: invalid remote port number " ++ toString request.destPort))
  let packetLength ← toBytes packet.totalLength
  let totalLength := RDMA_HEADER_LENGTH + packetLength
  if totalLength ≤ RDMA_MAX_MESSAGE_SIZE then
    let rdmaHeader ← rdma.setCrc request { rdma.rdmaHeader request with
      totalLengthField := totalLength }
    let packet ← packet.insertAtFront sharing (.fields (RdmaFields.ofHeader rdmaHeader))
    return ([⟨rdmaHeader, packet⟩], { rdma with numSent := rdma.numSent + 1 })
  else
    let dataLength ← toBytes packet.getDataLength
    let payloadLength := payloadLength dataLength
    let fragments ← rdma.fragmentsFrom sharing request payloadLength fragmentLength
      payloadLength.toNat 0
    return (fragments, { rdma with numSent := rdma.numSent + 1 })

/-- What is sent for one message after the other. -/
def handleUpperPackets : Rdma → List (Request F) →
    Except ChunkError (List (List (Datagram RdmaHeader F)) × Rdma)
  | rdma, [] => .ok ([], rdma)
  | rdma, request :: rest => do
    let (fragments, rdma) ← rdma.handleUpperPacket sharing request
    let (others, rdma) ← handleUpperPackets rdma rest
    return (fragments :: others, rdma)

end Rdma
end Inet.Rdma
