import Mathlib
import Inet.Lib.Except

/-!
# Route discovery

A node that has no route for a datagram delays the datagram and looks for its destination with route
requests of growing range. What the routing table knows of a destination is part of the event. The
contents of messages, times, and the routes that replies bring are left out.
-/
namespace Inet.Aodv

open Lib

/-- The parameters that route discovery depends on. -/
structure Parameters where
  netDiameter : Nat
  rreqRetries : Nat
  rreqRatelimit : Nat
  ttlStart : Nat
  ttlIncrement : Nat
  ttlThreshold : Nat

/-- A timer for one destination. -/
structure WaitForRrep where
  lastTTL : Nat
  fromInvalidEntry : Bool
  isScheduled : Bool
deriving DecidableEq

/-- What is known of a route. -/
structure Route where
  /-- Routes of other protocols have no data of this one. -/
  isActive : Option Bool
  nextHopUnspecified : Bool
  metric : Nat

/-- There is an active route with a next hop. -/
def HasRoute (route : Option Route) : Prop :=
  route.bind (·.isActive) = some true ∧ (route.all fun route => !route.nextHopUnspecified) = true

instance (route : Option Route) : Decidable (HasRoute route) := inferInstanceAs (Decidable (_ ∧ _))

inductive Output (Address Packet : Type) where
  | accept
  | queue
  | rreq (target : Address) (timeToLive : Nat)
  | reinjectQueuedDatagram (datagram : Packet)
  | dropQueuedDatagram (datagram : Packet)
deriving DecidableEq

inductive AodvError where
  | assertion
  | notScheduled
deriving DecidableEq

def assert (condition : Bool) : Except AodvError Unit :=
  if condition then .ok () else .error .assertion

/-- Delayed packets are in the order in which they came. -/
structure Node (Address Packet : Type) where
  params : Parameters
  waitForRREPTimers : Address → Option WaitForRrep
  addressToRreqRetries : Address → Option Nat
  targetAddressToDelayedPackets : List (Address × Packet)
  rreqCount : Nat

variable {Address Packet : Type} [DecidableEq Address]

namespace Node

variable (aodv : Node Address Packet)

def hasOngoingRouteDiscovery (target : Address) : Bool := (aodv.waitForRREPTimers target).isSome

def setTimer (target : Address) (timer : Option WaitForRrep) : Node Address Packet :=
  { aodv with waitForRREPTimers := Function.update aodv.waitForRREPTimers target timer }

def setRetries (target : Address) (retries : Nat) : Node Address Packet :=
  { aodv with addressToRreqRetries :=
    Function.update aodv.addressToRreqRetries target (some retries) }

def delayDatagram (target : Address) (datagram : Packet) : Node Address Packet :=
  { aodv with targetAddressToDelayedPackets :=
    aodv.targetAddressToDelayedPackets ++ [(target, datagram)] }

def delayedPackets (target : Address) : List Packet :=
  (aodv.targetAddressToDelayedPackets.filter fun entry => entry.1 = target).map (·.2)

def eraseDelayedPackets (target : Address) : Node Address Packet :=
  { aodv with targetAddressToDelayedPackets :=
    aodv.targetAddressToDelayedPackets.filter fun entry => entry.1 ≠ target }

/-- The timer for the next request, not scheduled yet. Its TTL is that of the request. -/
def nextTimer (timer : Option WaitForRrep) (timeToLive : Nat) : Except AodvError WaitForRrep :=
  match timer with
  | some timer =>
    if timeToLive ≠ 0 then
      return { timer with lastTTL := timeToLive, fromInvalidEntry := true, isScheduled := false }
    else if (timer.lastTTL + aodv.params.ttlIncrement) % 2 ^ 32 < aodv.params.ttlThreshold then do
      assert (!timer.isScheduled)
      return { timer with lastTTL := (timer.lastTTL + aodv.params.ttlIncrement) % 2 ^ 32 }
    else do
      assert (!timer.isScheduled)
      return { timer with lastTTL := aodv.params.netDiameter }
  | none =>
    return { lastTTL := aodv.params.ttlStart, fromInvalidEntry := false, isScheduled := false }

def sendRREQ (target : Address) (timeToLive : Nat) :
    Except AodvError (Node Address Packet × List (Output Address Packet)) :=
  if aodv.rreqCount ≥ aodv.params.rreqRatelimit then return (aodv, [])
  else do
    let timer ← aodv.nextTimer (aodv.waitForRREPTimers target) timeToLive
    let aodv := aodv.setTimer target (some { timer with isScheduled := true })
    return ({ aodv with rreqCount := aodv.rreqCount + 1 }, [.rreq target timer.lastTTL])

def startRouteDiscovery (target : Address) (timeToLive : Nat) :
    Except AodvError (Node Address Packet × List (Output Address Packet)) := do
  assert (!aodv.hasOngoingRouteDiscovery target)
  (aodv.setRetries target 0).sendRREQ target timeToLive

/-- Datagrams to local, broadcast and multicast addresses are exempt. -/
def ensureRouteForDatagram (exempt : Bool) (destAddr : Address) (datagram : Packet)
    (route : Option Route) :
    Except AodvError (Node Address Packet × List (Output Address Packet)) :=
  if exempt then return (aodv, [.accept])
  else
    if HasRoute route then return (aodv, [.accept])
    else
      let isInactive := route.bind (·.isActive) = some false
      let aodv := aodv.delayDatagram destAddr datagram
      if !aodv.hasOngoingRouteDiscovery destAddr then
        let timeToLive :=
          if isInactive then
            ((route.map (·.metric)).getD 0 + aodv.params.ttlIncrement) % 2 ^ 32
          else 0
        (aodv.startRouteDiscovery destAddr timeToLive).map fun (aodv, sent) =>
          (aodv, sent ++ [.queue])
      else return (aodv, [.queue])

def completeRouteDiscovery (target : Address) :
    Except AodvError (Node Address Packet × List (Output Address Packet)) := do
  assert (aodv.hasOngoingRouteDiscovery target)
  return ((aodv.eraseDelayedPackets target).setTimer target none,
    (aodv.delayedPackets target).map .reinjectQueuedDatagram)

def cancelRouteDiscovery (destAddr : Address) :
    Except AodvError (Node Address Packet × List (Output Address Packet)) := do
  assert (aodv.hasOngoingRouteDiscovery destAddr)
  return ((aodv.eraseDelayedPackets destAddr).setTimer destAddr none,
    (aodv.delayedPackets destAddr).map .dropQueuedDatagram)

def handleWaitForRREP (destAddr : Address) (rrepTimer : WaitForRrep) :
    Except AodvError (Node Address Packet × List (Output Address Packet)) := do
  match aodv.addressToRreqRetries destAddr with
  | none => .error .assertion
  | some retries =>
    if retries = aodv.params.rreqRetries then aodv.cancelRouteDiscovery destAddr
    else if rrepTimer.lastTTL = aodv.params.netDiameter then
      (aodv.setRetries destAddr (retries + 1)).sendRREQ destAddr 0
    else aodv.sendRREQ destAddr 0

/-- The end of `handleRREP`. -/
def handleRREP (originatorIsSelf : Bool) (destAddr : Address) :
    Except AodvError (Node Address Packet × List (Output Address Packet)) :=
  if originatorIsSelf ∧ aodv.hasOngoingRouteDiscovery destAddr then
    aodv.completeRouteDiscovery destAddr
  else return (aodv, [])

end Node

/-! ### Runs -/

inductive Event (Address Packet : Type) where
  | datagram (exempt : Bool) (destAddr : Address) (datagram : Packet) (route : Option Route)
  | rrep (originatorIsSelf : Bool) (destAddr : Address)
  | waitForRREP (target : Address)
  | counterTimer

namespace Node

variable (aodv : Node Address Packet)

/-- A timer runs out only if it is scheduled, and then it is not scheduled any more. -/
def handle : Event Address Packet →
    Except AodvError (Node Address Packet × List (Output Address Packet))
  | .datagram exempt destAddr datagram route =>
    aodv.ensureRouteForDatagram exempt destAddr datagram route
  | .rrep originatorIsSelf destAddr => aodv.handleRREP originatorIsSelf destAddr
  | .waitForRREP target =>
    match aodv.waitForRREPTimers target with
    | some timer =>
      if timer.isScheduled then
        let timer := { timer with isScheduled := false }
        (aodv.setTimer target (some timer)).handleWaitForRREP target timer
      else .error .notScheduled
    | none => .error .notScheduled
  | .counterTimer => return ({ aodv with rreqCount := 0 }, [])

end Node

/-- A node at the start. -/
def Node.new (params : Parameters) : Node Address Packet where
  params := params
  waitForRREPTimers _ := none
  addressToRreqRetries _ := none
  targetAddressToDelayedPackets := []
  rreqCount := 0

/-- A node with the number of requests that were sent in each discovery that is going on. -/
structure Counted (Address Packet : Type) where
  aodv : Node Address Packet
  sent : Address → Nat

/-- How many requests for a target were sent. -/
def rreqs (outputs : List (Output Address Packet)) (target : Address) : Nat :=
  outputs.countP fun
    | .rreq address _ => address = target
    | _ => false

/-- A discovery goes on as long as there is a timer. -/
def Counted.handle (counted : Counted Address Packet) (event : Event Address Packet) :
    Except AodvError (Counted Address Packet) := do
  let (aodv, outputs) ← counted.aodv.handle event
  return ⟨aodv, fun target =>
    if aodv.hasOngoingRouteDiscovery target then counted.sent target + rreqs outputs target else 0⟩

def run (params : Parameters) (events : List (Event Address Packet)) :
    Except AodvError (Counted Address Packet) :=
  events.foldlM Counted.handle ⟨.new params, fun _ => 0⟩

end Inet.Aodv
