import Inet.Eigrp.EigrpIpv4Pdm

/-!
# DUAL

The finite state machine of a route. The query origin is its state, which is passive as long as the
origin is 1 and no reply is awaited. Sources are given as they are when the event happens: what the
machine reads of them stays the same until it has read it.
-/
namespace Inet.Eigrp

inductive DualEvent
  | RECV_UPDATE | RECV_QUERY | RECV_REPLY | NEIGHBOR_DOWN | INTERFACE_DOWN | INTERFACE_UP
  | LOST_ROUTE
  deriving DecidableEq

namespace EigrpDual

open EigrpIpv4Pdm (UNSPEC_RECEIVER)

/-- The neighbor of a connected route. -/
def CONNECTED_ROUTE : Nat := UNSPEC_ID

def setQueryOrigin (pdm : EigrpIpv4Pdm) (queryOrigin : Nat) : EigrpIpv4Pdm :=
  { pdm with route := { pdm.route with queryOrigin } }

def setFd (pdm : EigrpIpv4Pdm) (fd : Nat) : EigrpIpv4Pdm :=
  { pdm with route := { pdm.route with fd } }

/-- An unreachable source is invalidated at once where no reply is sent. -/
def invalidateIfUnreachable (pdm : EigrpIpv4Pdm) (source : EigrpRouteSource) : EigrpIpv4Pdm :=
  if source.isUnreachable then pdm.invalidateRoute source else pdm

/-- Where a reply is sent, an unreachable source is removed after the Ack of the neighbor. -/
def removeIfUnreachable (pdm : EigrpIpv4Pdm) (neighborId : Nat) (source : EigrpRouteSource) :
    Except String EigrpIpv4Pdm :=
  if source.isUnreachable then pdm.setDelayedRemove neighborId source else return pdm

/-- The neighbors are told of a new successor or of a changed distance. -/
def sendUpdateAboutChange (pdm : EigrpIpv4Pdm) (rtableChanged : Bool) (oldDij : Nat)
    (successor : Option EigrpRouteSource) : Except String EigrpIpv4Pdm :=
  match successor with
  | none => return pdm
  | some successor =>
    if pdm.hasNeighborForUpdate then
      if rtableChanged then pdm.sendUpdate UNSPEC_RECEIVER successor true
      else if pdm.route.Dij ≠ oldDij then
        pdm.sendUpdate UNSPEC_RECEIVER successor (successor.nextHopId == CONNECTED_ROUTE)
      else return pdm
    else return pdm

section

variable (event : DualEvent) (source : EigrpRouteSource) (dmin neighborId : Nat)
  (pdm : EigrpIpv4Pdm)

/-- The reply to the old successor, which is the originator of the query. -/
def replyToOldSuccessor (successor oldSuccessor : Option EigrpRouteSource) :
    Except String EigrpIpv4Pdm :=
  match oldSuccessor, successor with
  | none, _ => return pdm
  | some oldSuccessor, some successor =>
    pdm.sendReply oldSuccessor.nextHopId successor true false
  | some oldSuccessor, none => do
    let pdm ← removeIfUnreachable pdm oldSuccessor.nextHopId oldSuccessor
    pdm.sendReply oldSuccessor.nextHopId oldSuccessor true false

def processTransition13 : Except String EigrpIpv4Pdm := do
  let oldSuccessor := pdm.getBestSuccessor
  let oldDij := pdm.route.Dij
  let pdm := setFd (setQueryOrigin pdm 1) METRIC_INF
  let dmin := pdm.routeVec.findRouteDMin pdm.route
  let (rtableChanged, successor, pdm) ← pdm.updateRoute dmin true
  let pdm ← replyToOldSuccessor (invalidateIfUnreachable pdm source) successor oldSuccessor
  let pdm ← sendUpdateAboutChange pdm rtableChanged oldDij successor
  pdm.sendUpdateToStubs successor oldSuccessor

def processTransition15 : Except String EigrpIpv4Pdm := do
  let oldDij := pdm.route.Dij
  let pdm := setFd pdm METRIC_INF
  match pdm.getBestSuccessor with
  -- could happen due to different order of signals
  | none => return pdm
  | some oldSuccessor =>
    let dmin := pdm.routeVec.findRouteDMin pdm.route
    let (rtableChanged, successor, pdm) ← pdm.updateRoute dmin true
    let pdm ← sendUpdateAboutChange (invalidateIfUnreachable pdm source) rtableChanged oldDij
      successor
    pdm.sendUpdateToStubs successor (some oldSuccessor)

/-! ### Transitions that start a diffusing computation -/

/-- The reply status table is set, and a query is sent if it is not empty. -/
def startDiffusion (tablePoisonRev : Bool) (querySource : EigrpRouteSource)
    (queryPoisonRev : Bool) (otherwise : EigrpIpv4Pdm → Except String EigrpIpv4Pdm) :
    Except String EigrpIpv4Pdm :=
  match pdm.setReplyStatusTable source tablePoisonRev with
  | (true, pdm) => pdm.sendQuery UNSPEC_RECEIVER querySource queryPoisonRev
  | (false, pdm) => otherwise pdm

def processTransition3 : Except String EigrpIpv4Pdm :=
  let route := { pdm.route with
    queryOrigin := 3, rd := source.metricParams, fd := pdm.route.Dij }
  startDiffusion source { pdm with route } false source false (processTransition13 source)

/-- The distance of the route through its old successor, or none if the route has been lost. -/
def actualizeDistance (oldSuccessor : EigrpRouteSource) : EigrpRoute :=
  if event = .LOST_ROUTE then pdm.route.setUnreachable
  else { pdm.route with Dij := oldSuccessor.metric, rd := oldSuccessor.metricParams }

/-- The old successor may not be null. -/
def oldSuccessorOr : EigrpRouteSource := pdm.getBestSuccessor.getD source

/-- The reply to a query, with the distance through the old successor. -/
def replyWithOld (oldSuccessor : EigrpRouteSource) : Except String EigrpIpv4Pdm :=
  if event = .RECV_QUERY then pdm.sendReply neighborId oldSuccessor false false else return pdm

def processTransition4 : Except String EigrpIpv4Pdm := do
  let pdm := setQueryOrigin pdm 1
  let oldSuccessor := oldSuccessorOr source pdm
  let route := actualizeDistance event pdm oldSuccessor
  let pdm := { pdm with route := { route with fd := route.Dij } }
  let pdm ← replyWithOld event neighborId pdm oldSuccessor
  startDiffusion source pdm true oldSuccessor true (processTransition15 source)

/-- The query is given the sender where it has its flag for poison reverse. -/
def processTransition11 : Except String EigrpIpv4Pdm :=
  let srcNeighbor := neighborId
  startDiffusion source (setQueryOrigin pdm 1) false source (srcNeighbor != 0)
    (processTransition15 source)

def processTransition12 : Except String EigrpIpv4Pdm :=
  startDiffusion source (setQueryOrigin pdm 3) false source false (processTransition13 source)

/-! ### States -/

end

end EigrpDual

end Inet.Eigrp
