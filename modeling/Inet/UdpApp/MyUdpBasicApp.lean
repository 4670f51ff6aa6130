import Inet.Packet.FragmentSources
import Inet.Packet.Stream

/-!
# Application packets
-/
namespace Inet.UdpApp

open Packet

/-- An application packet; its length, in bytes, is one of its fields. -/
structure ApplicationPacket where
  chunkLength : Nat
  sequenceNumber : UInt32 := 0
  moreFragments : Bool := false
  fragmentOffset : UInt32 := 0
  firstFragment : Bool := true
  id : Int
  totalLengthField : Int := -1
deriving DecidableEq, Repr

namespace ApplicationPacket

/-- What is copied of an application packet; the other fields are as in a new one, whose `id` is
not initialized. -/
def dup (unset : Int) (applicationPacket : ApplicationPacket) : ApplicationPacket where
  chunkLength := applicationPacket.chunkLength
  sequenceNumber := applicationPacket.sequenceNumber
  id := unset

/-- The length, the sequence number and filler bytes. -/
def serialize (applicationPacket : ApplicationPacket) : List UInt8 :=
  (writeUint32Be (UInt32.ofNat applicationPacket.chunkLength) ++
    writeUint32Be applicationPacket.sequenceNumber ++
    List.replicate applicationPacket.chunkLength '?'.toUInt8).take applicationPacket.chunkLength

theorem length_serialize (applicationPacket : ApplicationPacket) :
    applicationPacket.serialize.length = applicationPacket.chunkLength := by
  simp only [serialize, List.length_take, List.length_append, List.length_replicate]
  omega

end ApplicationPacket

/-- Kinds of `FieldsChunk`s among which application packets are. -/
class ApplicationFields (F : Type) extends Fields F where
  ofPacket : ApplicationPacket → F
  length_serialize : ∀ applicationPacket,
    (serialize (ofPacket applicationPacket)).length = 8 * applicationPacket.chunkLength

/-- Application packets among other fields. -/
instance {G : Type} [Fields G] : ApplicationFields (ApplicationPacket ⊕ G) where
  serialize
    | .inl applicationPacket => bytesBits applicationPacket.serialize
    | .inr content => Fields.serialize content
  ofPacket := .inl
  length_serialize applicationPacket := by
    rw [Chunk.length_bytesBits, applicationPacket.length_serialize]

namespace UdpAppFragBuf

/-- The ports of a key are never set. -/
structure Key where
  id : UInt16
deriving DecidableEq

/-- The fragment buffer takes all of a packet for data. -/
def format (F : Type) [ApplicationFields F] (unset : Int) : FragmentFormat ApplicationPacket Key F where
  key header := ⟨toUint16 header.id⟩
  getFragmentOffset header := header.fragmentOffset.toNat
  getMoreFragments := ApplicationPacket.moreFragments
  dataOffset _ := 0
  dataLength _ packet := getByteLength packet
  restored header payloadLength := { header.dup unset with
    totalLengthField := payloadLength
    fragmentOffset := 0
    moreFragments := false }
  toFields := ApplicationFields.ofPacket

end UdpAppFragBuf
end Inet.UdpApp

/-!
## Sending and receiving messages of the UDP application

Lengths are in bytes, those of packets in bits. Times, statistics and names are left out.
-/
namespace Inet.UdpApp

open Lib Packet

def UDP_MAX_MESSAGE_SIZE : Int := 65535

def UDP_HEADER_LENGTH : Int := 8

/-- The application of the module `moduleId`, with parameters that `initialize` accepts. -/
structure MyUdpBasicApp where
  moduleId : Int
  packetsToSend : Int := 2 ^ 31 - 1
  fragmentSize : Int
  /-- Whether there is a transmission channel between the application and UDP. -/
  transmissionChannel : Bool := false
  numSent : Int := 0
  positive : 0 < fragmentSize
  fits : fragmentSize ≤ UDP_MAX_MESSAGE_SIZE - UDP_HEADER_LENGTH

namespace MyUdpBasicApp

variable {F : Type} [ApplicationFields F] (sharing : Sharing F) (unset : Int) (app : MyUdpBasicApp)
  (messageLength : Int)

/-- The application packet of a message. -/
def payload : ApplicationPacket where
  chunkLength := messageLength.toNat
  sequenceNumber := UInt32.ofInt app.numSent
  id := app.moduleId * 10 + app.numSent

/-- A packet that is an application packet. -/
def packetOf (header : ApplicationPacket) : Except ChunkError (Datagram ApplicationPacket F) := do
  let packet ← (Packet.ofContent .empty).insertAtFront sharing
    (.fields (ApplicationFields.ofPacket header))
  return ⟨header, packet⟩

/-- The fragment of a message at an offset, with its length. -/
def fragmentAt (offset : Nat) : Except ChunkError (Datagram ApplicationPacket F × Int) := do
  let lastFragment : Bool := messageLength ≤ offset + app.fragmentSize
  let thisFragmentLength := if lastFragment then messageLength - offset else app.fragmentSize
  let fraghdr := { (app.payload messageLength).dup unset with
    chunkLength := thisFragmentLength.toNat
    fragmentOffset := UInt32.ofNat offset
    totalLengthField := thisFragmentLength
    id := app.moduleId * 10 + app.numSent
    moreFragments := if lastFragment then false else true
    firstFragment := if offset = 0 then true else false }
  let fragment ← packetOf sharing fraghdr
  return (fragment, thisFragmentLength)

/-- The fragments from an offset on. The first argument bounds how many there are. -/
def fragmentsFrom : Nat → Nat → Except ChunkError (List (Datagram ApplicationPacket F))
  | 0, offset => if offset < messageLength then .error .undefinedBehaviour else .ok []
  | bound + 1, offset =>
    if offset < messageLength then do
      let (fragment, thisFragmentLength) ← app.fragmentAt sharing unset messageLength offset
      let fragments ← fragmentsFrom bound (offset + thisFragmentLength).toNat
      return fragment :: fragments
    else .ok []

def sendPacket : Except ChunkError (List (Datagram ApplicationPacket F) × MyUdpBasicApp) :=
  if app.packetsToSend > app.numSent then do
    let packet ← packetOf sharing (app.payload messageLength)
    if messageLength ≤ app.fragmentSize then
      return ([packet], { app with numSent := app.numSent + 1 })
    -- the application packet is changed after it is inserted
    else if app.transmissionChannel then throw (.error "chunk is immutable")
    else
      let fragments ← app.fragmentsFrom sharing unset messageLength messageLength.toNat 0
      return (fragments, { app with numSent := app.numSent + 1 })
  else return ([], app)

/-- What is sent for messages of some lengths, one after the other. -/
def sendPackets : MyUdpBasicApp → List Int →
    Except ChunkError (List (List (Datagram ApplicationPacket F)) × MyUdpBasicApp)
  | app, [] => .ok ([], app)
  | app, messageLength :: rest => do
    let (packets, app) ← app.sendPacket sharing unset messageLength
    let (others, app) ← sendPackets app rest
    return (packets :: others, app)

/-- What the application receives with a packet: only fragments go to the fragment buffer. -/
def processPacket (bufs : Buffers ApplicationPacket UdpAppFragBuf.Key F)
    (packet : Datagram ApplicationPacket F) :
    Except ChunkError (Option (Datagram ApplicationPacket F) ×
      Buffers ApplicationPacket UdpAppFragBuf.Key F) :=
  if packet.header.fragmentOffset ≠ 0 ∨ packet.header.moreFragments then
    (UdpAppFragBuf.format F unset).addFragment sharing bufs packet
  else .ok (some packet, bufs)

def processPackets (bufs : Buffers ApplicationPacket UdpAppFragBuf.Key F) :
    List (Datagram ApplicationPacket F) →
      Except ChunkError (List (Option (Datagram ApplicationPacket F)) ×
        Buffers ApplicationPacket UdpAppFragBuf.Key F)
  | [] => .ok ([], bufs)
  | packet :: rest => do
    let (received, bufs) ← processPacket sharing unset bufs packet
    let (others, bufs) ← processPackets bufs rest
    return (received :: others, bufs)

end MyUdpBasicApp
end Inet.UdpApp
