import Inet.Ipv4.Fragmentation
import Inet.Ipv4.LocalIn

/-!
# The paced sender

Datagrams wait in a queue while one is sent. Each packet that is passed to the network interface
schedules a timer, and the next packet is sent when the timer expires. There is a transmission
channel. Checksums, tags and names are left out, and packets stay as they are when they are passed
to lower layers.
-/
namespace Inet.Ipv4

open Lib Packet

/-- A pointer to a packet, which dangles once the packet is deleted. -/
inductive Pointer (α : Type) where
  | null
  | to (packet : α)
  | dangling

/-- A datagram with what its tags say of it: the next hop and the MTU of the interface. -/
structure Outgoing (F : Type) where
  id : Nat
  datagram : Datagram Ipv4Header F
  nextHop : UInt32
  mtu : Int

/-- A packet for the network interface, and the number of the datagram that it is of. -/
structure Handed (F : Type) where
  id : Nat
  datagram : Datagram Ipv4Header F

/-- How the link layer address of a next hop is found: without ARP, in the ARP table, or not
yet. -/
inductive Resolution where
  | direct
  | resolved
  | unresolved
deriving DecidableEq

inductive SendError where
  | chunk (error : ChunkError)
  | error (message : String)
  /-- A timer is scheduled that is scheduled already. -/
  | alreadyScheduled
  | undefinedBehaviour
deriving DecidableEq

def Pointer.deref {α : Type} : Pointer α → Except SendError α
  | .to packet => .ok packet
  | _ => .error .undefinedBehaviour

/-- The send side. The last two fields record what happened so far. -/
structure Sender (F : Type) where
  queue : List (Outgoing F) := []
  packet : Pointer (Outgoing F) := .null
  currentFragment : Pointer (Outgoing F) := .null
  offset : Nat := 0
  payloadLength : Int
  mtu : Int
  endTxTimer : Bool := false
  pendingPackets : UInt32 → List (Handed F) := fun _ => []
  isRdma : Bool := false
  queuedDatagramsForHooks : List (Outgoing F) := []
  arrived : List (Outgoing F) := []
  handed : List (Handed F) := []

namespace Sender

variable {F : Type} [Ipv4Fields F] (sharing : Sharing F) (resolution : Resolution)

/-- Pointers to a deleted packet dangle. -/
def delete (p : Outgoing F) (sender : Sender F) : Sender F :=
  let invalidate : Pointer (Outgoing F) → Pointer (Outgoing F)
    | .to other => if other.id = p.id then .dangling else .to other
    | pointer => pointer
  { sender with
    packet := invalidate sender.packet
    currentFragment := invalidate sender.currentFragment }

/-- No datagram is sent any more. -/
def release (sender : Sender F) : Sender F :=
  { sender with offset := 0, packet := .null, currentFragment := .null }

def sendPacketToNIC (sender : Sender F) : Except SendError (Sender F) :=
  if sender.endTxTimer then .error .alreadyScheduled else .ok { sender with endTxTimer := true }

def sendDatagramToOutput (nextHop : UInt32) (packet : Handed F) (sender : Sender F) :
    Except SendError (Sender F) :=
  let sender := { sender with handed := sender.handed ++ [packet] }
  match resolution with
  | .direct => sender.sendPacketToNIC
  | .resolved =>
    if (sender.pendingPackets nextHop).isEmpty then sender.sendPacketToNIC
    else .error (.error ("Ipv4-ARP error: nextHopAddr found in ARP table, but Ipv4 queue for " ++
      "nextHopAddr not empty"))
  | .unresolved => .ok { sender with
      pendingPackets := Function.update sender.pendingPackets nextHop
        (sender.pendingPackets nextHop ++ [packet]) }

/-- The fragment at the offset is sent, and the offset is moved. -/
def sendFragment (p : Outgoing F) (fragmentLength : Int) (sender : Sender F) :
    Except SendError (Sender F) := do
  let (fragment, thisFragmentLength) ←
    (fragmentAt sharing p.datagram sender.payloadLength fragmentLength sender.offset).mapError .chunk
  let sender ← sender.sendDatagramToOutput resolution p.nextHop ⟨p.id, fragment⟩
  return { sender with offset := (sender.offset + thisFragmentLength).toNat }

/-- The loop for RDMA. The first argument bounds how many fragments there are. -/
def sendFragments (p : Outgoing F) (fragmentLength : Int) :
    Nat → Sender F → Except SendError (Sender F)
  | 0, sender => if sender.offset < sender.payloadLength then .error .undefinedBehaviour else .ok sender
  | bound + 1, sender =>
    if sender.offset < sender.payloadLength then do
      let sender ← sender.sendFragment sharing resolution p fragmentLength
      sendFragments p fragmentLength bound sender
    else .ok sender

def fragmentAndSend (p : Outgoing F) (sender : Sender F) : Except SendError (Sender F) :=
  let sender := { sender with currentFragment := .to p }
  -- hop counter check
  if p.datagram.header.timeToLive ≤ 0 then .ok (sender.delete p)
  else
    let sender := { sender with mtu := p.mtu }
    -- note: mtu==0 means infinite mtu
    if p.mtu = 0 ∨ getByteLength p.datagram.packet ≤ p.mtu then do
      let sender ← sender.sendDatagramToOutput resolution p.nextHop ⟨p.id, p.datagram⟩
      return if sender.isRdma then sender.release else sender
    else if p.datagram.header.dontFragment then .ok (sender.delete p)
    else
      let sender := { sender with payloadLength := Ipv4.payloadLength p.datagram }
      let fragmentLength := fragmentLength p.datagram p.mtu
      if fragmentLength ≤ 0 then
        .error (.error "Cannot fragment datagram: MTU too small for header size")
      else if sender.isRdma then do
        let sender ← sender.sendFragments sharing resolution p fragmentLength
          (sender.payloadLength - sender.offset).toNat
        return sender.release
      else sender.sendFragment sharing resolution p fragmentLength

/-- The first datagram of the queue is the next one to send. -/
def sendNext (sender : Sender F) : Except SendError (Sender F) :=
  match sender.queue with
  | [] => .ok sender
  | p :: rest =>
    { sender with queue := rest, packet := .to p }.fragmentAndSend sharing resolution p

/-- The source address is filled in before. The hooks answer as given. -/
def fragmentPostRouting (answers : List Result) (p : Outgoing F) (sender : Sender F) :
    Except SendError (Sender F) :=
  let sender := { sender with arrived := sender.arrived ++ [p] }
  match verdict answers with
  | .ACCEPT =>
    let sender := { sender with queue := sender.queue ++ [p] }
    match sender.packet with
    | .null => sender.sendNext sharing resolution
    | _ => .ok sender
  | .QUEUE => .ok { sender with queuedDatagramsForHooks := sender.queuedDatagramsForHooks ++ [p] }
  | _ => .ok sender

/-- A datagram that a hook has queued. -/
def reinjectQueuedDatagram (id : Nat) (sender : Sender F) : Except SendError (Sender F) :=
  match sender.queuedDatagramsForHooks.find? (·.id = id) with
  | none => .ok sender
  | some p => do
    let sender ← sender.fragmentAndSend sharing resolution p
    return { sender with queuedDatagramsForHooks :=
      sender.queuedDatagramsForHooks.filter (·.id ≠ id) }

/-- The timer expires. -/
def handleEndTxPeriod (sender : Sender F) : Except SendError (Sender F) := do
  let sender := { sender with endTxTimer := false }
  let unfinished ←
    if (sender.offset : Int) < sender.payloadLength then do
      let currentFragment ← sender.currentFragment.deref
      pure (decide (sender.mtu < getByteLength currentFragment.datagram.packet))
    else pure false
  if unfinished then
    let packet ← sender.packet.deref
    sender.fragmentAndSend sharing resolution packet
  else sender.release.sendNext sharing resolution

/-- The packets that wait for a next hop are sent. -/
def sendPending : List (Handed F) → Sender F → Except SendError (Sender F)
  | [], sender => .ok sender
  | _ :: rest, sender => do
    let sender ← sender.sendPacketToNIC
    sendPending rest sender

def arpResolutionCompleted (nextHop : UInt32) (sender : Sender F) : Except SendError (Sender F) := do
  let sender ← sendPending (sender.pendingPackets nextHop) sender
  return { sender with pendingPackets := Function.update sender.pendingPackets nextHop [] }

def arpResolutionTimedOut (nextHop : UInt32) (sender : Sender F) : Sender F :=
  { sender with pendingPackets := Function.update sender.pendingPackets nextHop [] }

end Sender

/-- What the sender reacts to. -/
inductive Event (F : Type) where
  | fragmentPostRouting (p : Outgoing F) (answers : List Result) (resolution : Resolution)
  | reinjectQueuedDatagram (id : Nat) (resolution : Resolution)
  | endTx (resolution : Resolution)
  | arpResolutionCompleted (nextHop : UInt32)
  | arpResolutionTimedOut (nextHop : UInt32)
  /-- A packet arrives from RDMA. -/
  | rdma

variable {F : Type} [Ipv4Fields F]

/-- Datagrams are new, and timers expire that are scheduled. -/
def Event.Enabled (sender : Sender F) : Event F → Prop
  | .fragmentPostRouting p _ _ => ∀ other ∈ sender.arrived, other.id ≠ p.id
  | .endTx _ => sender.endTxTimer = true
  | _ => True

def Sender.step (sharing : Sharing F) (sender : Sender F) : Event F → Except SendError (Sender F)
  | .fragmentPostRouting p answers resolution =>
    sender.fragmentPostRouting sharing resolution answers p
  | .reinjectQueuedDatagram id resolution => sender.reinjectQueuedDatagram sharing resolution id
  | .endTx resolution => sender.handleEndTxPeriod sharing resolution
  | .arpResolutionCompleted nextHop => sender.arpResolutionCompleted nextHop
  | .arpResolutionTimedOut nextHop => .ok (sender.arpResolutionTimedOut nextHop)
  | .rdma => .ok { sender with isRdma := true }

/-- The states that are reached by events that are allowed. Some fields are not initialized. -/
inductive Reached (sharing : Sharing F) (Allowed : Sender F → Event F → Prop) : Sender F → Prop
  | start (payloadLength mtu : Int) : Reached sharing Allowed { payloadLength, mtu }
  | step {sender after : Sender F} (event : Event F) (reached : Reached sharing Allowed sender)
      (enabled : event.Enabled sender) (allowed : Allowed sender event)
      (stepped : sender.step sharing event = .ok after) : Reached sharing Allowed after

end Inet.Ipv4
