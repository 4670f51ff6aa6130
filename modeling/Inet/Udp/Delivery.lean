import Inet.Udp.SocketCoherence

/-!
# Delivery of UDP datagrams

A received datagram is dropped, sent up to sockets of its port, or undeliverable. The sockets of a port are
searched from the last one on, and the first one with a fitting address of its own is taken.
-/
namespace Inet.Udp.Tables

open Lib

def UDP_HEADER_LENGTH : Nat := 8

inductive CrcMode
  | CRC_MODE_UNDEFINED
  | CRC_DISABLED
  | CRC_DECLARED_CORRECT
  | CRC_DECLARED_INCORRECT
  | CRC_COMPUTED
deriving DecidableEq

open CrcMode

/-- A datagram whose header has been popped, with the addresses that the network layer tells. -/
structure Datagram (A β : Type) where
  sourcePort : Nat
  destinationPort : Nat
  totalLengthField : Int
  crcMode : CrcMode := CRC_DISABLED
  crc : Nat := 0
  headerIsCorrect : Bool := true
  srcAddress : L3Address A
  destAddress : L3Address A
  data : List β

/-- The checksum over the pseudo header, the header and data, and the correctness of chunks of data. -/
structure Checks (A β : Type) where
  computeCrc : Datagram A β → List β → Nat
  isCorrect : List β → Bool

structure AddressKinds (A : Type) where
  isMulticast : L3Address A → Bool
  isBroadcast : L3Address A → Bool

inductive Verdict (A β : Type) where
  | dropped
  | undeliverable
  | sentUp (receivers : List (SockDesc A)) (payload : List β)

variable {A β : Type}

/-! ### Checksums -/

/-- An empty part of a packet cannot be peeked at without a flag. -/
def peekDataAt (data : List β) (length : Nat) : Except String (List β) :=
  if length = 0 then .error "Returning an empty chunk is not allowed according to the flags"
  else .ok (data.take length)

namespace Datagram

def hasIncorrectLength (d : Datagram A β) : Prop :=
  d.totalLengthField < UDP_HEADER_LENGTH ∨
    (UDP_HEADER_LENGTH : Int) + d.data.length < d.totalLengthField

instance (d : Datagram A β) : Decidable d.hasIncorrectLength := by
  unfold hasIncorrectLength
  infer_instance

/-- The data that the header announces. -/
def announced (d : Datagram A β) : List β :=
  d.data.take (d.totalLengthField - UDP_HEADER_LENGTH).toNat

def verifyCrc (checks : Checks A β) (d : Datagram A β) : Except String Bool :=
  match d.crcMode with
  | CRC_DISABLED => .ok (d.crc = 0)
  | CRC_DECLARED_CORRECT => do
    let udpDataBytes ← peekDataAt d.data (d.totalLengthField - UDP_HEADER_LENGTH).toNat
    return d.headerIsCorrect && checks.isCorrect udpDataBytes
  | CRC_DECLARED_INCORRECT => .ok false
  | CRC_COMPUTED =>
    if d.crc = 0 then .ok true
    else do
      let udpData ← peekDataAt d.data (d.totalLengthField - UDP_HEADER_LENGTH).toNat
      return decide (checks.computeCrc d udpData = 0xFFFF) && d.headerIsCorrect &&
        checks.isCorrect udpData
  | CRC_MODE_UNDEFINED => .error "Unknown CRC mode"

/-- The checksum verifies, whether or not there is data. -/
def verifies (checks : Checks A β) (d : Datagram A β) : Bool :=
  match d.crcMode with
  | CRC_DISABLED => d.crc = 0
  | CRC_DECLARED_CORRECT => d.headerIsCorrect && checks.isCorrect d.announced
  | CRC_COMPUTED => d.crc = 0 || decide (checks.computeCrc d d.announced = 0xFFFF) &&
      d.headerIsCorrect && checks.isCorrect d.announced
  | _ => false

end Datagram

/-! ### The sockets for a datagram -/

section
variable [DecidableEq A]

/-- The tests of a socket for a unicast packet. -/
def SockDesc.accepts (sd : SockDesc A) (localAddr remoteAddr : L3Address A) (remotePort : Nat) : Bool :=
  sd.onlyLocalPortIsSet ||
    (decide (sd.remotePort = -1 ∨ sd.remotePort = remotePort) &&
      (sd.localAddr.isNone || decide (sd.localAddr = localAddr)) &&
      (sd.remoteAddr.isNone || decide (sd.remoteAddr = remoteAddr)))

omit [DecidableEq A] in
/-- The loop of `findSocketForUnicastPacket`. -/
def searchUnicast (accepts : SockDesc A → Bool) :
    List (SockDesc A) → Option (SockDesc A) → Option (SockDesc A)
  | [], socketBoundToAnyAddress => socketBoundToAnyAddress
  | sd :: rest, socketBoundToAnyAddress =>
    if accepts sd then
      if sd.localAddr.isNone then searchUnicast accepts rest (some sd) else some sd
    else searchUnicast accepts rest socketBoundToAnyAddress

/-- The list is searched from its end. -/
def findSocketForUnicastPacket (localAddr : L3Address A) (localPort : Nat)
    (remoteAddr : L3Address A) (remotePort : Nat) (state : State A) : Option (SockDesc A) :=
  searchUnicast (·.accepts localAddr remoteAddr remotePort) (state.socketsAt localPort).reverse none

def MulticastMembership.isSourceAllowed (membership : MulticastMembership A)
    (sourceAddr : L3Address A) : Bool :=
  let listed := membership.sourceList.any fun source => sourceAddr = some source
  match membership.filterMode with
  | .UDP_INCLUDE_MCAST_SOURCES => listed
  | .UDP_EXCLUDE_MCAST_SOURCES => !listed

/-- The tests of a socket for a multicast or broadcast packet. -/
def SockDesc.acceptsCopy (sd : SockDesc A) (localAddr remoteAddr : L3Address A) (remotePort : Nat)
    (isBroadcast : Bool) : Bool :=
  let remote := decide (sd.remotePort = -1 ∨ sd.remotePort = remotePort) &&
    (sd.remoteAddr.isNone || decide (sd.remoteAddr = remoteAddr))
  if isBroadcast then sd.isBroadcast && remote
  else match sd.multicastMembershipTable.find? (localAddr = some ·.multicastAddress) with
    | none => false
    | some membership => remote && membership.isSourceAllowed remoteAddr

def findSocketsForMcastBcastPacket (localAddr : L3Address A) (localPort : Nat)
    (remoteAddr : L3Address A) (remotePort : Nat) (isBroadcast : Bool) (state : State A) :
    List (SockDesc A) :=
  (state.socketsAt localPort).filter (·.acceptsCopy localAddr remoteAddr remotePort isBroadcast)

/-! ### Datagrams -/

omit [DecidableEq A] in
def AddressKinds.isUnicast (kinds : AddressKinds A) (destAddr : L3Address A) : Bool :=
  !kinds.isMulticast destAddr && !kinds.isBroadcast destAddr

/-- The data without paddings of lower layers. -/
def Datagram.trimmed (d : Datagram A β) : List β :=
  if d.totalLengthField < d.data.length then d.announced else d.data

/-- The sockets that the datagram is sent up to. -/
def dispatch (kinds : AddressKinds A) (d : Datagram A β) (state : State A) : Verdict A β :=
  if kinds.isUnicast d.destAddress then
    match findSocketForUnicastPacket d.destAddress d.destinationPort d.srcAddress d.sourcePort state with
    | none => .undeliverable
    | some sd => .sentUp [sd] d.trimmed
  else
    match findSocketsForMcastBcastPacket d.destAddress d.destinationPort d.srcAddress d.sourcePort
      (kinds.isBroadcast d.destAddress) state with
    | [] => .undeliverable
    | sd :: sds => .sentUp (sd :: sds) d.trimmed

def processUDPPacket (kinds : AddressKinds A) (checks : Checks A β) (d : Datagram A β)
    (state : State A) : Except String (Verdict A β) :=
  if d.hasIncorrectLength then .ok .dropped
  else do
    let verified ← d.verifyCrc checks
    return if verified then dispatch kinds d state else .dropped

/-! ### What delivery should be -/

/-- The port and all addresses that are set match. -/
structure SockDesc.Matches (sd : SockDesc A) (d : Datagram A β) : Prop where
  localPort : sd.localPort = d.destinationPort
  localAddr : sd.localAddr ≠ none → sd.localAddr = d.destAddress
  remoteAddr : sd.remoteAddr ≠ none → sd.remoteAddr = d.srcAddress
  remotePort : sd.remotePort ≠ -1 → sd.remotePort = d.sourcePort

def State.IsOpen (state : State A) (sd : SockDesc A) : Prop :=
  ∃ sockId, state.socketsByIdMap sockId = some sd

/-- A socket that matches, with an address of its own if any matching one has that. -/
structure Chosen (state : State A) (d : Datagram A β) (sd : SockDesc A) : Prop where
  isOpen : state.IsOpen sd
  fits : sd.Matches d
  preferred : sd.localAddr = none → ∀ other, state.IsOpen other → other.Matches d →
    other.localAddr = none

/-- The datagram becomes what it should. -/
structure Delivered (kinds : AddressKinds A) (d : Datagram A β) (state : State A)
    (verdict : Verdict A β) : Prop where
  dropped : verdict = .dropped ↔ d.totalLengthField < UDP_HEADER_LENGTH ∨
    (UDP_HEADER_LENGTH : Int) + d.data.length < d.totalLengthField
  data : ∀ receivers payload, verdict = .sentUp receivers payload →
    payload = d.data.take (d.totalLengthField - UDP_HEADER_LENGTH).toNat
  single : kinds.isUnicast d.destAddress = true → ∀ receivers payload,
    verdict = .sentUp receivers payload → ∃ sd, receivers = [sd] ∧ Chosen state d sd
  undeliverable : kinds.isUnicast d.destAddress = true → ¬d.hasIncorrectLength →
    (verdict = .undeliverable ↔ ∀ sd, state.IsOpen sd → ¬sd.Matches d)

/-! ### When it is -/

/-- A socket with another address that is still marked as having nothing but its port. -/
def SockDesc.Stale (sd : SockDesc A) (d : Datagram A β) : Prop :=
  sd.onlyLocalPortIsSet = true ∧ sd.localAddr ≠ none ∧ sd.localAddr ≠ d.destAddress

/-- There is such a socket on the port, and no matching one with an address comes before it. -/
def StaleFirst (state : State A) (d : Datagram A β) : Prop :=
  ∃ before sd behind, state.socketsAt d.destinationPort = before ++ sd :: behind ∧ sd.Stale d ∧
    ∀ other ∈ behind, other.localAddr ≠ none → ¬other.Matches d

/-- The checksum can be verified: there is data, or it is not needed. -/
def Datagram.Checkable (d : Datagram A β) : Prop :=
  d.totalLengthField = UDP_HEADER_LENGTH →
    d.crcMode = CRC_DISABLED ∨ d.crcMode = CRC_COMPUTED ∧ d.crc = 0

/-- Some socket of the port is to have the datagram. -/
def Wanted (kinds : AddressKinds A) (state : State A) (d : Datagram A β) : Prop :=
  ∃ sd ∈ state.socketsAt d.destinationPort,
    if kinds.isUnicast d.destAddress then sd.Matches d
    else sd.acceptsCopy d.destAddress d.srcAddress d.sourcePort
      (kinds.isBroadcast d.destAddress) = true

/-- There is no padding, or more of it than the length of a header. -/
def Datagram.Trimmable (d : Datagram A β) : Prop :=
  d.totalLengthField = UDP_HEADER_LENGTH + d.data.length ∨ d.totalLengthField < d.data.length

end

end Inet.Udp.Tables
