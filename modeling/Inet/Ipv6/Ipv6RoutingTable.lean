import Mathlib.Data.List.Sort
import Mathlib.Logic.Function.Basic
import Inet.Ipv6.Ipv6Address

/-!
# The IPv6 routing table and its destination cache

Routes are sorted, so that the first one that matches an address is the best one. Next hops that
have been found are kept in a cache, which is cleared when a route is added.
-/
namespace Inet.Ipv6

inductive SourceType
  | MANUAL | ROUTER_ADVERTISEMENT | OWN_ADV_PREFIX | other
  deriving DecidableEq

def dDirectlyConnected : Nat := 0

def dStatic : Nat := 1

/-- The id tells route objects apart. An expiry time of 0 is none. -/
structure Ipv6Route where
  id : Nat
  destPrefix : Ipv6Address
  prefixLength : Nat
  sourceType : SourceType
  interfaceId : Option Nat := none
  nextHop : Ipv6Address := 0
  expiryTime : Int := 0
  metric : Int := 0
  adminDist : Nat := 255
  deriving DecidableEq

namespace Ipv6Route

def fits (dest : Ipv6Address) (route : Ipv6Route) : Bool :=
  dest.matchesPrefix route.destPrefix route.prefixLength

def expired (now : Nat) (route : Ipv6Route) : Bool :=
  decide ((now : Int) > route.expiryTime) && route.expiryTime != 0

end Ipv6Route

structure DestCacheEntry where
  interfaceId : Option Nat
  nextHopAddr : Ipv6Address
  expiryTime : Int
  deriving DecidableEq

structure Ipv6RoutingTable where
  useAdminDist : Bool
  routeList : List Ipv6Route := []
  destCache : Ipv6Address → Option DestCacheEntry := fun _ => none
  simTime : Nat := 0

namespace Ipv6RoutingTable

variable (table : Ipv6RoutingTable)

/-! ### Routes -/

def routeLessThan (a b : Ipv6Route) : Bool :=
  if a.prefixLength ≠ b.prefixLength then decide (a.prefixLength > b.prefixLength)
  else if table.useAdminDist && a.adminDist != b.adminDist then decide (a.adminDist < b.adminDist)
  else decide (a.metric < b.metric)

/-- Keeps the order of routes that are not better than each other. -/
def stableSort (routes : List Ipv6Route) : List Ipv6Route :=
  routes.insertionSort fun a b => ¬ table.routeLessThan b a

def purgeDestCache : Ipv6RoutingTable := { table with destCache := fun _ => none }

/-- Removes the cache entries with a property. -/
def purgeWhere (purged : DestCacheEntry → Bool) : Ipv6RoutingTable :=
  { table with destCache := fun dest => (table.destCache dest).filter fun entry => !purged entry }

def purgeDestCacheEntriesToNeighbour (nextHopAddr : Ipv6Address) (interfaceId : Option Nat) :
    Ipv6RoutingTable :=
  table.purgeWhere fun entry => entry.interfaceId == interfaceId && entry.nextHopAddr == nextHopAddr

def purgeDestCacheForInterfaceId (interfaceId : Option Nat) : Ipv6RoutingTable :=
  table.purgeWhere fun entry => entry.interfaceId == interfaceId

def internalAddRoute (route : Ipv6Route) : Ipv6RoutingTable :=
  { table with routeList := table.stableSort (table.routeList ++ [route]) }

def addRoute (route : Ipv6Route) : Ipv6RoutingTable :=
  (table.internalAddRoute route).purgeDestCache

/-- Removes the routes with a property. -/
def eraseWhere (erased : Ipv6Route → Bool) : Ipv6RoutingTable :=
  { table with routeList := table.routeList.filter fun route => !erased route }

/-- Removes the first route with a property. -/
def eraseFirst (erased : Ipv6Route → Bool) : Ipv6RoutingTable :=
  { table with routeList := table.routeList.eraseP erased }

def removeRoute (id : Nat) : Ipv6RoutingTable := table.eraseFirst (·.id == id)

def deleteRoute (id : Nat) : Ipv6RoutingTable := table.eraseFirst (·.id == id)

def deleteOnLinkPrefix (destPrefix : Ipv6Address) (prefixLength : Nat) : Ipv6RoutingTable :=
  table.eraseFirst fun route => route.sourceType == .ROUTER_ADVERTISEMENT &&
    route.destPrefix == destPrefix && route.prefixLength == prefixLength

def deleteDefaultRoutes (interfaceId : Nat) : Ipv6RoutingTable :=
  table.eraseWhere fun route => route.interfaceId == some interfaceId && route.prefixLength == 0

def deleteAllRoutes : Ipv6RoutingTable := table.eraseWhere fun _ => true

def deletePrefixes (interfaceId : Nat) : Ipv6RoutingTable :=
  table.eraseWhere fun route =>
    route.interfaceId == some interfaceId && decide (route.prefixLength > 0)

def deleteInterfaceRoutes (interfaceId : Nat) : Ipv6RoutingTable :=
  table.eraseWhere (·.interfaceId == some interfaceId)

/-- The interface is no longer up. -/
def interfaceDown (interfaceId : Nat) : Ipv6RoutingTable :=
  (table.deleteInterfaceRoutes interfaceId).purgeDestCacheForInterfaceId (some interfaceId)

/-! ### Changes of routes -/

/-- Changes a route where it is in the list. -/
def changeInPlace (id : Nat) (change : Ipv6Route → Ipv6Route) : Ipv6RoutingTable :=
  { table with routeList := table.routeList.map fun route =>
      if route.id = id then change route else route }

/-- Changes a route by which the list is sorted. -/
def changeSorted (id : Nat) (change : Ipv6Route → Ipv6Route) : Ipv6RoutingTable :=
  match table.routeList.find? (·.id == id) with
  | none => table
  | some route =>
    if change route = route then table
    else
      { table with routeList :=
          table.stableSort (table.routeList.eraseP (·.id == id) ++ [change route]) }

def setNextHop (id : Nat) (nextHop : Ipv6Address) : Ipv6RoutingTable :=
  table.changeInPlace id fun route => { route with nextHop }

def setInterface (id : Nat) (interfaceId : Option Nat) : Ipv6RoutingTable :=
  table.changeInPlace id fun route => { route with interfaceId }

def setExpiryTime (id : Nat) (expiryTime : Int) : Ipv6RoutingTable :=
  table.changeInPlace id fun route => { route with expiryTime }

def setAdminDist (id : Nat) (adminDist : Nat) : Ipv6RoutingTable :=
  table.changeInPlace id fun route => { route with adminDist }

def setSourceType (id : Nat) (sourceType : SourceType) : Ipv6RoutingTable :=
  table.changeInPlace id fun route => { route with sourceType }

def setDestination (id : Nat) (destPrefix : Ipv6Address) : Ipv6RoutingTable :=
  table.changeSorted id fun route => { route with destPrefix }

def setPrefixLength (id : Nat) (prefixLength : Nat) : Ipv6RoutingTable :=
  table.changeSorted id fun route => { route with prefixLength }

def setMetric (id : Nat) (metric : Int) : Ipv6RoutingTable :=
  table.changeSorted id fun route => { route with metric }

/-! ### Advertised prefixes -/

/-- A route of a source type to a prefix is added, or it gets another interface and expiry time. -/
def addOrUpdate (sourceType : SourceType) (newId : Nat) (destPrefix : Ipv6Address)
    (prefixLength : Nat) (interfaceId : Option Nat) (expiryTime : Int) : Ipv6RoutingTable :=
  match table.routeList.find? fun route => route.sourceType == sourceType &&
      route.destPrefix == destPrefix && route.prefixLength == prefixLength with
  | none =>
    table.addRoute
      { id := newId, destPrefix, prefixLength, sourceType, interfaceId, expiryTime
        adminDist := dDirectlyConnected }
  | some route => (table.setInterface route.id interfaceId).setExpiryTime route.id expiryTime

def addOrUpdateOnLinkPrefix := table.addOrUpdate .ROUTER_ADVERTISEMENT

def addOrUpdateOwnAdvPrefix := table.addOrUpdate .OWN_ADV_PREFIX

def addStaticRoute (newId : Nat) (destPrefix : Ipv6Address) (prefixLength : Nat)
    (interfaceId : Option Nat) (nextHop : Ipv6Address) (metric : Int) : Ipv6RoutingTable :=
  table.addRoute
    { id := newId, destPrefix, prefixLength, sourceType := .MANUAL, interfaceId, nextHop
      metric := if metric = 0 then 10 else metric
      adminDist := dStatic }

def addDefaultRoute (newId : Nat) (nextHop : Ipv6Address) (interfaceId : Option Nat)
    (routerLifetime : Int) : Ipv6RoutingTable :=
  table.addRoute
    { id := newId, destPrefix := 0, prefixLength := 0, sourceType := .ROUTER_ADVERTISEMENT
      interfaceId, nextHop, metric := 10, adminDist := dStatic, expiryTime := routerLifetime }

/-! ### Lookup -/

/-- The entry for a destination, unless it has expired. -/
def liveEntry (dest : Ipv6Address) : Option DestCacheEntry :=
  (table.destCache dest).filter fun entry =>
    !(decide (entry.expiryTime > 0) && decide ((table.simTime : Int) > entry.expiryTime))

/-- An entry that has expired is removed. -/
def lookupDestCache (dest : Ipv6Address) : Ipv6RoutingTable × Option DestCacheEntry :=
  ({ table with destCache := Function.update table.destCache dest (table.liveEntry dest) },
    table.liveEntry dest)

/-- The first route that matches and has not expired, in the list without the expired ones that are
removed. The loop does not end at an expired route that has not been advertised by a router. -/
def firstMatch (now : Nat) (dest : Ipv6Address) :
    List Ipv6Route → Option (List Ipv6Route × Option Ipv6Route)
  | [] => some ([], none)
  | route :: routes =>
    if route.fits dest then
      if route.expired now then
        if route.sourceType = .ROUTER_ADVERTISEMENT then firstMatch now dest routes else none
      else some (route :: routes, some route)
    else (firstMatch now dest routes).map fun found => (route :: found.1, found.2)

def doLongestPrefixMatch (dest : Ipv6Address) : Option (Ipv6RoutingTable × Option Ipv6Route) :=
  (firstMatch table.simTime dest table.routeList).map fun found =>
    ({ table with routeList := found.1 }, found.2)

def updateDestCache (dest : Ipv6Address) (entry : DestCacheEntry) : Ipv6RoutingTable :=
  { table with destCache := Function.update table.destCache dest (some entry) }

/-- Where packets for a destination go by a route. -/
def outputOf (dest : Ipv6Address) (route : Ipv6Route) : Ipv6Address × Option Nat :=
  (if route.nextHop.isUnspecified then dest else route.nextHop, route.interfaceId)

/-- The next hop and the interface, if there is a route. An absent interface is -1, so that an entry
with it is not used. -/
def determineOutputInterface (dest : Ipv6Address) :
    Option (Ipv6RoutingTable × Option (Ipv6Address × Option Nat)) :=
  match table.lookupDestCache dest with
  | (table, some { interfaceId := some interfaceId, nextHopAddr, .. }) =>
    some (table, some (nextHopAddr, some interfaceId))
  | (table, _) =>
    match table.doLongestPrefixMatch dest with
    | none => none
    | some (table, none) => some (table, none)
    | some (table, some route) =>
      some (table.updateDestCache dest
        { interfaceId := route.interfaceId, nextHopAddr := (outputOf dest route).1
          expiryTime := route.expiryTime }, some (outputOf dest route))

/-! ### Operations -/

inductive Operation
  | addRoute (route : Ipv6Route)
  | addOrUpdateOnLinkPrefix (newId : Nat) (destPrefix : Ipv6Address) (prefixLength : Nat)
      (interfaceId : Option Nat) (expiryTime : Int)
  | addOrUpdateOwnAdvPrefix (newId : Nat) (destPrefix : Ipv6Address) (prefixLength : Nat)
      (interfaceId : Option Nat) (expiryTime : Int)
  | addStaticRoute (newId : Nat) (destPrefix : Ipv6Address) (prefixLength : Nat)
      (interfaceId : Option Nat) (nextHop : Ipv6Address) (metric : Int)
  | addDefaultRoute (newId : Nat) (nextHop : Ipv6Address) (interfaceId : Option Nat)
      (routerLifetime : Int)
  | removeRoute (id : Nat)
  | deleteRoute (id : Nat)
  | deleteOnLinkPrefix (destPrefix : Ipv6Address) (prefixLength : Nat)
  | deleteDefaultRoutes (interfaceId : Nat)
  | deleteAllRoutes
  | deletePrefixes (interfaceId : Nat)
  | deleteInterfaceRoutes (interfaceId : Nat)
  | interfaceDown (interfaceId : Nat)
  | setNextHop (id : Nat) (nextHop : Ipv6Address)
  | setInterface (id : Nat) (interfaceId : Option Nat)
  | setExpiryTime (id : Nat) (expiryTime : Int)
  | setAdminDist (id : Nat) (adminDist : Nat)
  | setSourceType (id : Nat) (sourceType : SourceType)
  | setDestination (id : Nat) (destPrefix : Ipv6Address)
  | setPrefixLength (id : Nat) (prefixLength : Nat)
  | setMetric (id : Nat) (metric : Int)
  | purgeDestCache
  | purgeDestCacheEntriesToNeighbour (nextHopAddr : Ipv6Address) (interfaceId : Option Nat)
  | purgeDestCacheForInterfaceId (interfaceId : Option Nat)
  | elapse (duration : Nat)
  | determineOutputInterface (dest : Ipv6Address)

/-- Operations end, except for a lookup that meets an expired route it does not remove. -/
def step : Operation → Option Ipv6RoutingTable
  | .addRoute route => some (table.addRoute route)
  | .addOrUpdateOnLinkPrefix newId destPrefix prefixLength interfaceId expiryTime =>
    some (table.addOrUpdateOnLinkPrefix newId destPrefix prefixLength interfaceId expiryTime)
  | .addOrUpdateOwnAdvPrefix newId destPrefix prefixLength interfaceId expiryTime =>
    some (table.addOrUpdateOwnAdvPrefix newId destPrefix prefixLength interfaceId expiryTime)
  | .addStaticRoute newId destPrefix prefixLength interfaceId nextHop metric =>
    some (table.addStaticRoute newId destPrefix prefixLength interfaceId nextHop metric)
  | .addDefaultRoute newId nextHop interfaceId routerLifetime =>
    some (table.addDefaultRoute newId nextHop interfaceId routerLifetime)
  | .removeRoute id => some (table.removeRoute id)
  | .deleteRoute id => some (table.deleteRoute id)
  | .deleteOnLinkPrefix destPrefix prefixLength =>
    some (table.deleteOnLinkPrefix destPrefix prefixLength)
  | .deleteDefaultRoutes interfaceId => some (table.deleteDefaultRoutes interfaceId)
  | .deleteAllRoutes => some table.deleteAllRoutes
  | .deletePrefixes interfaceId => some (table.deletePrefixes interfaceId)
  | .deleteInterfaceRoutes interfaceId => some (table.deleteInterfaceRoutes interfaceId)
  | .interfaceDown interfaceId => some (table.interfaceDown interfaceId)
  | .setNextHop id nextHop => some (table.setNextHop id nextHop)
  | .setInterface id interfaceId => some (table.setInterface id interfaceId)
  | .setExpiryTime id expiryTime => some (table.setExpiryTime id expiryTime)
  | .setAdminDist id adminDist => some (table.setAdminDist id adminDist)
  | .setSourceType id sourceType => some (table.setSourceType id sourceType)
  | .setDestination id destPrefix => some (table.setDestination id destPrefix)
  | .setPrefixLength id prefixLength => some (table.setPrefixLength id prefixLength)
  | .setMetric id metric => some (table.setMetric id metric)
  | .purgeDestCache => some table.purgeDestCache
  | .purgeDestCacheEntriesToNeighbour nextHopAddr interfaceId =>
    some (table.purgeDestCacheEntriesToNeighbour nextHopAddr interfaceId)
  | .purgeDestCacheForInterfaceId interfaceId =>
    some (table.purgeDestCacheForInterfaceId interfaceId)
  | .elapse duration => some { table with simTime := table.simTime + duration }
  | .determineOutputInterface dest => (table.determineOutputInterface dest).map (·.1)

end Ipv6RoutingTable

end Inet.Ipv6
