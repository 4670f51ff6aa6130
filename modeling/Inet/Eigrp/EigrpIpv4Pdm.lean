import Inet.Ipv4.Ipv4RoutingTable

/-!
# The EIGRP tables

The topology table keeps the sources of every route, and the route itself has the state of DUAL for
the destination. Neighbors and interfaces are kept in tables of their own, with counters.
-/
namespace Inet.Eigrp

open Ipv4 (Ipv4Address)

/-! ### Constants -/

def DELAY_INF : Nat := 0xFFFFFFFFFFFF

def BANDWIDTH_INF : Nat := 0xFFFFFFFFFFFF

def METRIC_INF : Nat := 0xFFFFFFFFFFFFFF

/-- The identifier of no neighbor: a connected route, all neighbors, no sender. -/
def UNSPEC_ID : Nat := 0

/-! ### Records -/

structure EigrpWideMetricPar where
  offset : Nat := 0
  priority : Nat := 0
  reliability : Nat := 0
  load : Nat := 0
  mtu : Nat := 0
  hopCount : Nat := 0
  delay : Nat := 0
  bandwidth : Nat := 0
  deriving DecidableEq

structure EigrpStub where
  connectedRt : Bool := false
  staticRt : Bool := false
  summaryRt : Bool := false
  redistributedRt : Bool := false
  leakMapRt : Bool := false
  recvOnlyRt : Bool := false
  deriving DecidableEq

structure EigrpNeighbor where
  neighborId : Nat
  ifaceId : Nat
  stubEnabled : Bool := false
  /-- After an Ack of the neighbor, unreachable routes are removed from the topology table. -/
  routesForDeletion : Bool := false
  deriving DecidableEq

structure EigrpInterface where
  interfaceId : Nat
  /-- What `isMulticast` of the network interface returns. -/
  multicast : Bool := true
  splitHorizon : Bool := true
  neighborCount : Int := 0
  stubCount : Int := 0
  deriving DecidableEq

/-- A source of a route: what one neighbor, or the router itself, offers for it. -/
structure EigrpRouteSource where
  sourceId : Nat
  routeId : Nat
  originator : Ipv4Address := 0
  /-- The neighbor, or `UNSPEC_ID` if the route is connected. -/
  nextHopId : Nat
  nextHop : Ipv4Address := 0
  interfaceId : Nat
  internal : Bool := true
  /-- The distance that the neighbor reported. -/
  rd : Nat := 0
  /-- The distance over the neighbor. -/
  metric : Nat := METRIC_INF
  metricParams : EigrpWideMetricPar := {}
  rdParams : EigrpWideMetricPar := {}
  successor : Bool := false
  summary : Bool := false
  redistributed : Bool := false
  valid : Bool := true
  delayedRemoveNID : Nat := UNSPEC_ID
  deriving DecidableEq

namespace EigrpRouteSource

def isUnreachable (source : EigrpRouteSource) : Bool := source.metric == METRIC_INF

end EigrpRouteSource

structure EigrpRoute where
  routeId : Nat
  routeAddress : Ipv4Address
  routeMask : Ipv4Address
  queryOrigin : Nat := 1
  /-- The neighbors whose replies are still to come. -/
  replyStatusTable : List Nat := []
  fd : Nat := METRIC_INF
  /-- The parameters of the distance that the router reports. -/
  rd : EigrpWideMetricPar := { delay := METRIC_INF }
  Dij : Nat := METRIC_INF
  /-- The source that is reported to the neighbors. -/
  successor : Option Nat := none
  numSuccessors : Nat := 0
  updateSent : Bool := false
  numOfMsgsSent : Nat := 0
  deriving DecidableEq

namespace EigrpRoute

def isActive (route : EigrpRoute) : Bool := !route.replyStatusTable.isEmpty

def setReplyStatus (route : EigrpRoute) (neighborId : Nat) : EigrpRoute :=
  { route with replyStatusTable := route.replyStatusTable ++ [neighborId] }

def setUnreachable (route : EigrpRoute) : EigrpRoute :=
  { route with
    Dij := METRIC_INF
    rd := { route.rd with delay := DELAY_INF, bandwidth := BANDWIDTH_INF } }

end EigrpRoute

/-! ### The topology table -/

/-- The sources of all routes, those of one route in the order in which they came. -/
abbrev RouteVector := List EigrpRouteSource

namespace RouteVector

/-- The sources of a route that are not to be deleted. -/
def ofRoute (routeVec : RouteVector) (routeId : Nat) : RouteVector :=
  routeVec.filter fun source => source.routeId == routeId && source.valid

/-- Changes the source with the given identifier. -/
def modify (routeVec : RouteVector) (sourceId : Nat)
    (change : EigrpRouteSource → EigrpRouteSource) : RouteVector :=
  routeVec.map fun source => if source.sourceId = sourceId then change source else source

def findRouteDMin (routeVec : RouteVector) (route : EigrpRoute) : Nat :=
  (routeVec.ofRoute route.routeId).foldl
    (fun dmin source => if source.metric < dmin then source.metric else dmin) METRIC_INF

/-- The successor with minimal metric, second key is minimal next hop IP. -/
def getBestSuccessor (routeVec : RouteVector) (route : EigrpRoute) : Option EigrpRouteSource :=
  ((routeVec.ofRoute route.routeId).filter (·.successor)).foldl
    (fun tempSrc source =>
      match tempSrc with
      | none => some source
      | some best =>
        if source.metric < best.metric then some source
        else if source.metric = best.metric ∧ source.nextHop.toNat < best.nextHop.toNat then
          some source
        else some best)
    none

/-- The successor on the interface with metric equal to Dij. -/
def getBestSuccessorByIf (routeVec : RouteVector) (route : EigrpRoute) (ifaceId : Nat) :
    Option EigrpRouteSource :=
  (routeVec.ofRoute route.routeId).find? fun source =>
    source.successor && source.metric == route.Dij && source.interfaceId == ifaceId

end RouteVector

end Inet.Eigrp

/-!
## The protocol-dependent module of EIGRP

What DUAL asks of the module for IPv4: the choice of successors, their routes in the routing table,
and the messages to neighbors, which wait in a queue of requests.
-/
namespace Inet.Eigrp

open Ipv4 (Ipv4Address Ipv4Route Ipv4RoutingTable RouteId SourceType)

inductive HeaderOpcode
  | EIGRP_UPDATE_MSG | EIGRP_QUERY_MSG | EIGRP_REPLY_MSG
  deriving DecidableEq

structure EigrpMsgRoute where
  sourceId : Nat
  routeId : Nat
  originator : Ipv4Address
  unreachable : Bool := false
  invalid : Bool := false
  deriving DecidableEq

structure EigrpMsgReq where
  opcode : HeaderOpcode
  /-- A neighbor, or `UNSPEC_RECEIVER` for all neighbors of the interface. -/
  destNeighbor : Nat
  destInterface : Nat
  routes : List EigrpMsgRoute
  deriving DecidableEq

structure EigrpIpv4Pdm where
  eigrpIft : List EigrpInterface := []
  neighborVec : List EigrpNeighbor := []
  /-- The number of stub neighbors that the neighbor table counts. -/
  stubCount : Int := 0
  routeVec : RouteVector := []
  /-- The route that DUAL works on. -/
  route : EigrpRoute
  rt : Ipv4RoutingTable
  /-- The address of the next route object for the routing table. -/
  nextEntry : RouteId := 0
  reqQueue : List EigrpMsgReq := []
  eigrpStubEnabled : Bool := false
  eigrpStub : EigrpStub := {}
  maximumPath : Nat := 4
  variance : Nat := 1
  adminDistInt : Nat := 90
  useClassicMetric : Bool := true
  ribScale : Nat := 128

namespace EigrpIpv4Pdm

/-- All neighbors. -/
def UNSPEC_RECEIVER : Int := 0

/-- All stub neighbors. -/
def STUB_RECEIVER : Int := -1

/-! ### Tables -/

def findInterfaceById (pdm : EigrpIpv4Pdm) (ifaceId : Nat) : Option EigrpInterface :=
  pdm.eigrpIft.find? (·.interfaceId == ifaceId)

def findNeighborById (pdm : EigrpIpv4Pdm) (id : Nat) : Option EigrpNeighbor :=
  pdm.neighborVec.find? (·.neighborId == id)

def getFirstNeighborOnIf (pdm : EigrpIpv4Pdm) (ifaceId : Nat) : Option EigrpNeighbor :=
  pdm.neighborVec.find? (·.ifaceId == ifaceId)

def getBestSuccessor (pdm : EigrpIpv4Pdm) : Option EigrpRouteSource :=
  pdm.routeVec.getBestSuccessor pdm.route

def modifySource (pdm : EigrpIpv4Pdm) (sourceId : Nat)
    (change : EigrpRouteSource → EigrpRouteSource) : EigrpIpv4Pdm :=
  { pdm with routeVec := pdm.routeVec.modify sourceId change }

def setSuccessor (pdm : EigrpIpv4Pdm) (source : EigrpRouteSource) (successor : Bool) :
    EigrpIpv4Pdm :=
  pdm.modifySource source.sourceId fun source => { source with successor }

def invalidateRoute (pdm : EigrpIpv4Pdm) (source : EigrpRouteSource) : EigrpIpv4Pdm :=
  pdm.modifySource source.sourceId fun source => { source with valid := false }

/-! ### Requests for messages -/

def applySplitHorizon (pdm : EigrpIpv4Pdm) (destInterface : EigrpInterface)
    (source : EigrpRouteSource) : Bool :=
  -- only 1 successor, check its interface ID (source is always successor)
  if pdm.route.numSuccessors ≤ 1 then destInterface.interfaceId == source.interfaceId
  else (pdm.routeVec.getBestSuccessorByIf pdm.route destInterface.interfaceId).isSome

def applyStubToQuery (pdm : EigrpIpv4Pdm) (eigrpIface : EigrpInterface) (numOfNeigh : Int) : Bool :=
  if pdm.eigrpStubEnabled then false else numOfNeigh == eigrpIface.stubCount

def applyStubToUpdate (pdm : EigrpIpv4Pdm) (src : EigrpRouteSource) : Bool :=
  if pdm.eigrpStub.recvOnlyRt then true
  else if pdm.eigrpStub.connectedRt && src.nextHopId == UNSPEC_ID then false
  else if pdm.eigrpStub.redistributedRt && src.redistributed then false
  else if pdm.eigrpStub.summaryRt && src.summary then false
  else if pdm.eigrpStub.staticRt && src.redistributed then false
  else true

/-- The routes of a request with one more, unless the request has the route. -/
def addMsgRoute (msgRt : EigrpMsgRoute) : List EigrpMsgRoute → List EigrpMsgRoute
  | [] => [msgRt]
  | rt :: rest =>
    if rt.routeId = msgRt.routeId then
      (if msgRt.unreachable then { rt with unreachable := true } else rt) :: rest
    else rt :: addMsgRoute msgRt rest

/-- The first request for the interface takes the route, or a new one does. -/
def pushMsgRoute (msgType : HeaderOpcode) (ifaceId neighId : Nat) (msgRt : EigrpMsgRoute) :
    List EigrpMsgReq → List EigrpMsgReq
  | [] =>
    [{ opcode := msgType, destNeighbor := neighId, destInterface := ifaceId, routes := [msgRt] }]
  | request :: rest =>
    if request.destInterface = ifaceId ∧ request.opcode = msgType then
      { request with routes := addMsgRoute msgRt request.routes } :: rest
    else request :: pushMsgRoute msgType ifaceId neighId msgRt rest

def pushMsgRouteToQueue (pdm : EigrpIpv4Pdm) (msgType : HeaderOpcode) (ifaceId neighId : Nat)
    (msgRt : EigrpMsgRoute) : EigrpIpv4Pdm :=
  { pdm with reqQueue := pushMsgRoute msgType ifaceId neighId msgRt pdm.reqQueue }

/-- The neighbor that a message on the interface is addressed to. -/
def destNeigh (pdm : EigrpIpv4Pdm) (eigrpIface : EigrpInterface) : Except String Nat :=
  if eigrpIface.multicast then return UNSPEC_ID
  else
    match pdm.getFirstNeighborOnIf eigrpIface.interfaceId with
    | some neigh => return neigh.neighborId
    | none => throw "neigh is a null pointer"

/-- The route is not sent to the interface unless poison reverse is forced. -/
def splitHorizonApplies (pdm : EigrpIpv4Pdm) (eigrpIface : EigrpInterface)
    (source : EigrpRouteSource) : Bool :=
  eigrpIface.splitHorizon && pdm.applySplitHorizon eigrpIface source

def msgToIface (pdm : EigrpIpv4Pdm) (msgType : HeaderOpcode) (source : EigrpRouteSource)
    (eigrpIface : EigrpInterface) (forcePoisonRev : Bool) : Except String EigrpIpv4Pdm :=
  if pdm.splitHorizonApplies eigrpIface source && !forcePoisonRev then return pdm
  else do
    let destNeigh ← pdm.destNeigh eigrpIface
    return pdm.pushMsgRouteToQueue msgType eigrpIface.interfaceId destNeigh
      { sourceId := source.sourceId, routeId := source.routeId, originator := source.originator
        -- poison reverse takes the place of split horizon
        unreachable := pdm.splitHorizonApplies eigrpIface source }

/-- What `msgToAllIfaces` does for one interface. An argument for unreachable routes is passed on in
the source, where `msgToIface` does not read it. -/
def msgToEachIface (destination : Int) (msgType : HeaderOpcode) (source : EigrpRouteSource)
    (forcePoisonRev : Bool) (pdm : EigrpIpv4Pdm) (eigrpIface : EigrpInterface) :
    Except String EigrpIpv4Pdm :=
  if destination = STUB_RECEIVER ∧ eigrpIface.stubCount = 0 then return pdm
  else if eigrpIface.neighborCount > 0 then
    if msgType = .EIGRP_QUERY_MSG ∧ pdm.applyStubToQuery eigrpIface eigrpIface.neighborCount then
      return pdm
    else pdm.msgToIface msgType source eigrpIface forcePoisonRev
  else return pdm

def msgToAllIfaces (pdm : EigrpIpv4Pdm) (destination : Int) (msgType : HeaderOpcode)
    (source : EigrpRouteSource) (forcePoisonRev : Bool) : Except String EigrpIpv4Pdm :=
  pdm.eigrpIft.foldlM (msgToEachIface destination msgType source forcePoisonRev) pdm

/-- Returns the requests that are sent, queries first. Those for other interfaces are discarded. -/
def flushMsgRequests (pdm : EigrpIpv4Pdm) : List EigrpMsgReq × EigrpIpv4Pdm :=
  let known := pdm.reqQueue.filter fun request =>
    (pdm.findInterfaceById request.destInterface).isSome
  (known.filter (·.opcode == .EIGRP_QUERY_MSG) ++ known.filter (·.opcode != .EIGRP_QUERY_MSG),
    { pdm with reqQueue := [] })

def sendUpdate (pdm : EigrpIpv4Pdm) (destNeighbor : Int) (source : EigrpRouteSource)
    (forcePoisonRev : Bool) : Except String EigrpIpv4Pdm :=
  if pdm.eigrpStubEnabled && pdm.applyStubToUpdate source then return pdm
  else pdm.msgToAllIfaces destNeighbor .EIGRP_UPDATE_MSG source forcePoisonRev

def sendQuery (pdm : EigrpIpv4Pdm) (destNeighbor : Int) (source : EigrpRouteSource)
    (forcePoisonRev : Bool) : Except String EigrpIpv4Pdm :=
  pdm.msgToAllIfaces destNeighbor .EIGRP_QUERY_MSG source
    (forcePoisonRev || !pdm.eigrpStubEnabled && decide (pdm.stubCount > 0))

/-- Poison reverse is applied to a reply, instead of split horizon. -/
def poisonReverseTo (pdm : EigrpIpv4Pdm) (neigh : EigrpNeighbor)
    (forcePoisonRev isUnreachable : Bool) : Except String Bool :=
  if isUnreachable then return false
  else
    match pdm.findInterfaceById neigh.ifaceId with
    | some eigrpIface => return eigrpIface.splitHorizon && forcePoisonRev
    | none => throw "findInterfaceById returned a null pointer"

def sendReply (pdm : EigrpIpv4Pdm) (destNeighbor : Nat) (source : EigrpRouteSource)
    (forcePoisonRev isUnreachable : Bool) : Except String EigrpIpv4Pdm :=
  match pdm.findNeighborById destNeighbor with
  | none => return pdm
  | some neigh => do
    let poisonRev ← pdm.poisonReverseTo neigh forcePoisonRev isUnreachable
    return pdm.pushMsgRouteToQueue .EIGRP_REPLY_MSG neigh.ifaceId neigh.neighborId
      { sourceId := source.sourceId, routeId := source.routeId, originator := source.originator
        unreachable := isUnreachable || pdm.eigrpStubEnabled || poisonRev }

def hasNeighborForUpdate (pdm : EigrpIpv4Pdm) : Bool :=
  pdm.eigrpIft.any fun eigrpIface => decide (eigrpIface.neighborCount > 0)

/-! ### The reply status table -/

/-- The table while the neighbors are gone through. -/
structure ReplyStatusLoop where
  route : EigrpRoute
  forcePoisonRev : Bool
  neighCount : Nat := 0
  stubCount : Nat := 0

/-- What `setReplyStatusTable` does for one neighbor. -/
def setReplyStatusOf (pdm : EigrpIpv4Pdm) (source : EigrpRouteSource) (loop : ReplyStatusLoop)
    (neigh : EigrpNeighbor) : ReplyStatusLoop :=
  match pdm.findInterfaceById neigh.ifaceId with
  | none => loop
  | some eigrpIface =>
    if !pdm.eigrpStubEnabled && neigh.stubEnabled then
      { loop with stubCount := loop.stubCount + 1, neighCount := loop.neighCount + 1 }
    else
      -- poison reverse takes the place of split horizon from here on
      let forcePoisonRev :=
        loop.forcePoisonRev || !pdm.eigrpStubEnabled && decide (pdm.stubCount > 0)
      if pdm.splitHorizonApplies eigrpIface source && !forcePoisonRev then
        { loop with forcePoisonRev }
      else
        { loop with forcePoisonRev, route := loop.route.setReplyStatus neigh.neighborId
                    neighCount := loop.neighCount + 1 }

/-- Also returns whether a reply is awaited. -/
def setReplyStatusTable (pdm : EigrpIpv4Pdm) (source : EigrpRouteSource) (forcePoisonRev : Bool) :
    Bool × EigrpIpv4Pdm :=
  let loop := pdm.neighborVec.foldl (pdm.setReplyStatusOf source)
    { route := pdm.route, forcePoisonRev }
  (loop.route.isActive, { pdm with route := loop.route })

/-! ### Routes in the routing table -/

/-- The first of some routes with a property. -/
def findEntry (rt : Ipv4RoutingTable) (matching : Ipv4Route → Bool) :
    List RouteId → Except String (Option (RouteId × Ipv4Route))
  | [] => return none
  | i :: rest => do
    let it ← rt.deref i
    if matching it then return some (i, it) else findEntry rt matching rest

/-- The entry for the destination of the route over a next hop. -/
def findRoute (pdm : EigrpIpv4Pdm) (nexthop : Ipv4Address) :
    Except String (Option (RouteId × Ipv4Route)) :=
  findEntry pdm.rt (fun it => it.dest == pdm.route.routeAddress &&
    it.netmask == pdm.route.routeMask && it.gateway == nexthop) pdm.rt.routes

def isRTSafeForAdd (pdm : EigrpIpv4Pdm) (eigrpAd : Nat) : Except String Bool := do
  let found ← findEntry pdm.rt (fun it => it.dest == pdm.route.routeAddress &&
    it.netmask == pdm.route.routeMask) pdm.rt.routes
  match found with
  | none => return true
  | some (_, routeInTable) => return !decide (routeInTable.adminDist < eigrpAd)

/-- The metric as the routing table has it, which is a signed number of 32 bits. -/
def rtMetric (pdm : EigrpIpv4Pdm) (metric : Nat) : Int :=
  Int.bmod (if pdm.useClassicMetric then metric else metric / pdm.ribScale) (2 ^ 32)

def dEIGRPInternal : Nat := 90

def dEIGRPExternal : Nat := 170

def createRTRoute (pdm : EigrpIpv4Pdm) (successor : EigrpRouteSource) : Ipv4Route :=
  { dest := pdm.route.routeAddress
    netmask := pdm.route.routeMask
    sourceType := .EIGRP
    interfacePtr := some successor.interfaceId
    gateway := successor.nextHop
    metric := pdm.rtMetric successor.metric
    adminDist := if successor.internal then dEIGRPInternal else dEIGRPExternal }

/-- Also returns whether the routing table has changed. -/
def installRouteToRT (pdm : EigrpIpv4Pdm) (source : EigrpRouteSource)
    (rtEntry : Option (RouteId × Ipv4Route)) : Except String (Bool × EigrpIpv4Pdm) :=
  match rtEntry with
  | some (entry, route) =>
    if route.sourceType = .EIGRP ∧ route.metric % 2 ^ 32 ≠ source.metric then do
      let rt ← pdm.rt.change entry (Ipv4Route.setMetric (pdm.rtMetric source.metric))
      return (false, { pdm with rt })
    else return (false, pdm)
  | none => do
    let rt ← pdm.rt.new pdm.nextEntry (pdm.createRTRoute source)
    let rt ← rt.addRoute pdm.nextEntry
    return (true, { pdm with rt, nextEntry := pdm.nextEntry + 1 })

/-- Returns the source type of the entry that was found. Only a route of EIGRP is removed. -/
def removeRouteFromRT (pdm : EigrpIpv4Pdm) (source : EigrpRouteSource) :
    Except String (Option SourceType × EigrpIpv4Pdm) := do
  match ← pdm.findRoute source.nextHop with
  | none => return (none, pdm)
  | some (entry, rtEntry) =>
    if rtEntry.sourceType = .EIGRP then
      -- the module hears of the removal, but the source is no longer a successor by now
      let (_, rt) ← pdm.rt.removeRoute entry
      return (some rtEntry.sourceType, { pdm with rt := rt.store entry none })
    else return (some rtEntry.sourceType, pdm)

/-- Also returns whether the routing table has changed. -/
def removeOldSuccessor (pdm : EigrpIpv4Pdm) (source : EigrpRouteSource) :
    Except String (Bool × EigrpIpv4Pdm) := do
  let (srcProto, pdm) ← (pdm.setSuccessor source false).removeRouteFromRT source
  if srcProto = none ∨ srcProto = some .EIGRP then
    if pdm.route.successor = some source.sourceId then
      return (true, { pdm with route := { pdm.route with successor := none } })
    else return (true, pdm)
  -- route from other sources can not be removed, do not change successor's record
  else return (false, pdm.setSuccessor source true)

/-! ### The choice of successors -/

structure UpdateLoop where
  pdm : EigrpIpv4Pdm
  rtableChanged : Bool := false
  pathsInRT : Nat := 0
  sourceCounter : Nat := 0

/-- There is an entry for the next hop, or no other route is in the way of a new one. -/
def mayInstall (pdm : EigrpIpv4Pdm) (rtEntry : Option (RouteId × Ipv4Route)) :
    Except String Bool :=
  if rtEntry.isNone then pdm.isRTSafeForAdd pdm.adminDistInt else return true

/-- The source is marked as a successor, unless there is a route with smaller administrative
distance. -/
def markSuccessor (loop : UpdateLoop) (source : EigrpRouteSource) :
    Except String (Bool × UpdateLoop) := do
  let rtEntry ← loop.pdm.findRoute source.nextHop
  let isSafe ← loop.pdm.mayInstall rtEntry
  if isSafe then
    let (changed, pdm) ← loop.pdm.installRouteToRT source rtEntry
    return (true, { loop with
      pdm := pdm.setSuccessor source true
      rtableChanged := loop.rtableChanged || changed
      pathsInRT := loop.pathsInRT + 1 })
  else return (false, { loop with pdm := loop.pdm.setSuccessor source false })

/-- An unreachable source that no Ack is awaited for is invalidated. -/
def invalidateUnreachable (removeUnreach : Bool) (source : EigrpRouteSource) (loop : UpdateLoop) :
    UpdateLoop :=
  if removeUnreach && source.isUnreachable && source.delayedRemoveNID == UNSPEC_ID then
    { loop with pdm := loop.pdm.invalidateRoute source }
  else loop

/-- What `updateRoute` does for one source. -/
def updateSource (dmin : Nat) (removeUnreach : Bool) (routeFd : Nat) (loop : UpdateLoop)
    (source : EigrpRouteSource) : Except String UpdateLoop :=
  if source.routeId ≠ loop.pdm.route.routeId ∨ source.valid = false then return loop
  else
    let counted := { loop with sourceCounter := loop.sourceCounter + 1 }
    -- the feasibility condition uses this FD (not dmin)
    if source.rd < routeFd ∧ source.metric ≤ dmin * loop.pdm.variance % 2 ^ 64 ∧
        loop.pathsInRT < loop.pdm.maximumPath then do
      let (marked, next) ← markSuccessor counted source
      return if marked then invalidateUnreachable removeUnreach source next else next
    else if source.successor then do
      let (changed, pdm) ← loop.pdm.removeOldSuccessor source
      return invalidateUnreachable removeUnreach source
        { counted with pdm, rtableChanged := loop.rtableChanged || changed }
    else return invalidateUnreachable removeUnreach source counted

/-- The route takes over the distance of its best successor. -/
def adoptSuccessor (route : EigrpRoute) (dmin sourceCounter : Nat) (best : EigrpRouteSource) :
    EigrpRoute :=
  { route with
    -- FD of a single source is the successor's metric (according to Cisco EIGRP implementation)
    fd := if sourceCounter = 1 then best.metric else if dmin < route.fd then dmin else route.fd
    Dij := dmin
    rd := best.metricParams
    successor := some best.sourceId }

/-- Returns whether the routing table has changed and the best successor. -/
def updateRoute (pdm : EigrpIpv4Pdm) (dmin : Nat) (removeUnreach : Bool) :
    Except String (Bool × Option EigrpRouteSource × EigrpIpv4Pdm) := do
  let loop ← pdm.routeVec.foldlM (updateSource dmin removeUnreach pdm.route.fd) { pdm }
  let pdm := { loop.pdm with
    route := { loop.pdm.route with numSuccessors := loop.pathsInRT } }
  match pdm.getBestSuccessor with
  | some best =>
    return (loop.rtableChanged, some best,
      { pdm with route := adoptSuccessor pdm.route dmin loop.sourceCounter best })
  | none =>
    return (loop.rtableChanged, none, { pdm with route := { pdm.route with successor := none } })

def setDelayedRemove (pdm : EigrpIpv4Pdm) (neighId : Nat) (src : EigrpRouteSource) :
    Except String EigrpIpv4Pdm :=
  match pdm.findNeighborById neighId with
  | none => throw "ASSERT(neigh != nullptr)"
  | some neigh =>
    return { pdm with
      neighborVec := pdm.neighborVec.map fun other =>
        if other = neigh then { other with routesForDeletion := true } else other
    }.modifySource src.sourceId fun src => { src with delayedRemoveNID := neighId, valid := true }

def sendUpdateToStubs (pdm : EigrpIpv4Pdm) (succ oldSucc : Option EigrpRouteSource) :
    Except String EigrpIpv4Pdm :=
  if !pdm.eigrpStubEnabled && decide (pdm.stubCount > 0) then
    match succ, oldSucc with
    | some succ, _ => pdm.sendUpdate STUB_RECEIVER succ true
    | none, none => throw "oldSucc is a null pointer"
    | none, some oldSucc =>
      let pdm := if oldSucc.isUnreachable then
        { pdm with route := { pdm.route with
            updateSent := true, numOfMsgsSent := pdm.route.numOfMsgsSent + 1 } } else pdm
      pdm.sendUpdate STUB_RECEIVER oldSucc true
  else return pdm

end EigrpIpv4Pdm

end Inet.Eigrp
