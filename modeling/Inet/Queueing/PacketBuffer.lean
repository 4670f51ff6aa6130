import Mathlib
import Inet.Lib.Except

/-!
# A packet buffer shared by packet queues

Queues keep the order of their packets, the buffer they share keeps all of the packets and limits
them. Each packet has an owner, through which the buffer finds the queue to tell when it drops or
gives up a packet.
-/
namespace Inet.Queueing

open Lib

/-- Who owns a packet: the storage of a queue, the module of a queue, or anyone else. -/
inductive Owner (Q : Type) where
  | storage (queue : Q)
  | module (queue : Q)
  | other
  deriving DecidableEq, Repr

/-- What happened to a packet. -/
inductive Event (Q P : Type) where
  | pushed (queue : Q) (packet : P)
  | dropped (packet : P)
  | pulled (queue : Q) (packet : P)
  | removed (queue : Q) (packet : P)
  deriving DecidableEq, Repr

/-- A buffer and the queues that are attached to it, with the record of what happened so far. -/
structure State (Q P : Type) where
  packets : List P := []
  queues : Q → List P := fun _ => []
  owner : P → Owner Q := fun _ => .other
  log : List (Event Q P) := []

/-- A dropper function, which may look at everything, selects one of the packets of the buffer. -/
structure Dropper (Q P : Type) where
  selectPacket : State Q P → P
  selects : ∀ state : State Q P, state.packets ≠ [] → selectPacket state ∈ state.packets

/-- The parameters of the buffer and of its queues. -/
structure Parameters (Q P : Type) where
  packetCapacity : Int := -1
  dataCapacity : Int := -1
  packetDropperFunction : Option (Dropper Q P) := none
  packetComparatorFunction : Q → Option (P → P → Bool) := fun _ => none
  totalLength : P → Nat

/-- `cQueue::insert`: with a comparator, from the back past all that the packet is less than. -/
def insert {P : Type} (comparator : Option (P → P → Bool)) (packet : P) (queue : List P) : List P :=
  match comparator with
  | none => queue ++ [packet]
  | some less => queue.rdropWhile (less packet) ++ packet :: queue.rtakeWhile (less packet)

variable {Q P : Type} [DecidableEq Q] [DecidableEq P]

namespace State

/-- `cQueue::remove` of a queue's storage, while the module of that queue is in context. -/
def removeFromQueue (queue : Q) (packet : P) (state : State Q P) : State Q P :=
  if packet ∈ state.queues queue then
    { state with
      queues := Function.update state.queues queue ((state.queues queue).erase packet)
      owner := if state.owner packet = .storage queue then
        Function.update state.owner packet (.module queue) else state.owner }
  else state

def handlePacketRemoved (queue : Q) (packet : P) (state : State Q P) : State Q P :=
  if packet ∈ state.queues queue then state.removeFromQueue queue packet else state

/-- The callback of the buffer to the queue in whose storage the packet is, if it is in one. -/
def notifyOwner (packet : P) (state : State Q P) : State Q P :=
  match state.owner packet with
  | .storage queue => state.handlePacketRemoved queue packet
  | _ => state

def record (event : Event Q P) (state : State Q P) : State Q P :=
  { state with log := state.log ++ [event] }

end State

namespace Parameters

def getTotalLength (parameters : Parameters Q P) (packets : List P) : Nat :=
  (packets.map parameters.totalLength).sum

def isOverloaded (parameters : Parameters Q P) (state : State Q P) : Bool :=
  (parameters.packetCapacity != -1 && (state.packets.length : Int) > parameters.packetCapacity) ||
  (parameters.dataCapacity != -1 &&
    (parameters.getTotalLength state.packets : Int) > parameters.dataCapacity)

/-- `dropPacket` for the packet that the dropper function selects. -/
def dropPacket (packet : P) (state : State Q P) : State Q P :=
  (({ state with packets := state.packets.erase packet }).notifyOwner packet).record
    (.dropped packet)

/-- The loop of `addPacket`, which takes a packet out of the buffer each time. -/
def dropPackets (parameters : Parameters Q P) (dropper : Dropper Q P) :
    Nat → State Q P → State Q P
  | 0, state => state
  | fuel + 1, state =>
    if !state.packets.isEmpty && parameters.isOverloaded state then
      parameters.dropPackets dropper fuel (dropPacket (dropper.selectPacket state) state)
    else state

def addPacket (parameters : Parameters Q P) (packet : P) (state : State Q P) :
    Except String (State Q P) :=
  let added := { state with packets := state.packets ++ [packet] }
  if parameters.isOverloaded added then
    match parameters.packetDropperFunction with
    | some dropper => .ok (parameters.dropPackets dropper added.packets.length added)
    | none => .error "Buffer is overloaded but packet dropper function is not specified"
  else .ok added

/-- `PacketBuffer::removePacket`: the erasure of what is not there has no defined meaning. -/
def removeFromBuffer (packet : P) (state : State Q P) : Except String (State Q P) :=
  if packet ∈ state.packets then
    .ok (({ state with packets := state.packets.erase packet }).notifyOwner packet)
  else .error "undefined behaviour: erase of the end of a vector"

def pushPacket (parameters : Parameters Q P) (queue : Q) (packet : P) (state : State Q P) :
    Except String (State Q P) :=
  parameters.addPacket packet
    (({ state with
        queues := Function.update state.queues queue
          (insert (parameters.packetComparatorFunction queue) packet (state.queues queue))
        owner := Function.update state.owner packet (.storage queue) }).record
      (.pushed queue packet))

def pullPacket (queue : Q) (state : State Q P) : Except String (State Q P) :=
  match (state.queues queue).head? with
  | none => .error "check_and_cast(): Cannot cast nullptr to type 'inet::Packet *'"
  | some packet => do
    let state ← removeFromBuffer packet (state.removeFromQueue queue packet)
    return state.record (.pulled queue packet)

def removePacket (queue : Q) (packet : P) (state : State Q P) : Except String (State Q P) := do
  let state ← removeFromBuffer packet (state.removeFromQueue queue packet)
  return state.record (.removed queue packet)

/-! ### Runs -/

inductive Operation (Q P : Type) where
  | pushPacket (queue : Q) (packet : P)
  | pullPacket (queue : Q)
  | removePacket (queue : Q) (packet : P)

def perform (parameters : Parameters Q P) : Operation Q P → State Q P → Except String (State Q P)
  | .pushPacket queue packet => parameters.pushPacket queue packet
  | .pullPacket queue => pullPacket queue
  | .removePacket queue packet => removePacket queue packet

/-- What can be asked for: a new packet in, a packet out of a queue that has some, a packet out
that is there. -/
def Possible (state : State Q P) : Operation Q P → Prop
  | .pushPacket _ packet => packet ∉ state.packets
  | .pullPacket queue => state.queues queue ≠ []
  | .removePacket _ packet => packet ∈ state.packets

instance (state : State Q P) : (operation : Operation Q P) → Decidable (Possible state operation)
  | .pushPacket _ packet => inferInstanceAs (Decidable (packet ∉ state.packets))
  | .pullPacket queue => inferInstanceAs (Decidable (state.queues queue ≠ []))
  | .removePacket _ packet => inferInstanceAs (Decidable (packet ∈ state.packets))

/-- The states after a run of operations that starts with an empty buffer and empty queues. -/
inductive Reachable (parameters : Parameters Q P) : State Q P → Prop
  | empty : Reachable parameters {}
  | after {state next : State Q P} (operation : Operation Q P) :
      Reachable parameters state → Possible state operation →
      parameters.perform operation state = .ok next → Reachable parameters next

end Parameters

end Inet.Queueing
