import Inet.Ipv4.Ipv4Address
import Inet.Lib.UpperBound

/-!
# The IPv4 routing table

Routes are objects that others may hold and change. The table keeps pointers to its routes, the
best one of any two that match the same address first, and remembers the answers of lookups. A
route tells the table it is in of the changes of its fields, but not of its validity.
-/
namespace Inet.Ipv4

open Lib

/-! ### Routes -/

/-- The address of a route object. -/
abbrev RouteId := Nat

inductive SourceType
  | MANUAL | IFACENETMASK | ROUTER_ADVERTISEMENT | OWN_ADV_PREFIX | ICMP_REDIRECT | RIP | OSPF
  | BGP | ZEBRA | MANET | MANET2 | DYMO | AODV | EIGRP | LISP | BABEL | ODR | UNKNOWN | ISIS
  deriving DecidableEq

inductive ChangeCodes
  | F_DESTINATION | F_PREFIX_LENGTH | F_NEXTHOP | F_IFACE | F_SOURCE | F_TYPE | F_ADMINDIST
  | F_METRIC | F_EXPIRYTIME
  deriving DecidableEq

def dDirectlyConnected : Nat := 0

def dUnknown : Nat := 255

structure Ipv4Route where
  /-- The route is in the table. -/
  rt : Bool := false
  dest : Ipv4Address := 0
  netmask : Ipv4Address := 0
  gateway : Ipv4Address := 0
  interfacePtr : Option Nat := none
  sourceType : SourceType := .MANUAL
  adminDist : Nat := dUnknown
  metric : Int := 0
  source : Option Nat := none
  /-- What `isValid` returns, as its subclass decides. -/
  isValid : Bool := true
  deriving DecidableEq

namespace Ipv4Route

/-- A route after a setter, and the code of the field that has changed. -/
abbrev Changed := Ipv4Route × Option ChangeCodes

/-- A field is set, which is a change only if it had another value. -/
def setField {α : Type} [DecidableEq α] (get : Ipv4Route → α)
    (put : α → Ipv4Route → Ipv4Route) (fieldCode : ChangeCodes) (value : α) (route : Ipv4Route) :
    Changed :=
  if get route ≠ value then (put value route, some fieldCode) else (route, none)

def setDestination : Ipv4Address → Ipv4Route → Changed :=
  setField (·.dest) (fun dest route => { route with dest }) .F_DESTINATION

def setNetmask : Ipv4Address → Ipv4Route → Changed :=
  setField (·.netmask) (fun netmask route => { route with netmask }) .F_PREFIX_LENGTH

def setGateway : Ipv4Address → Ipv4Route → Changed :=
  setField (·.gateway) (fun gateway route => { route with gateway }) .F_NEXTHOP

def setInterface : Option Nat → Ipv4Route → Changed :=
  setField (·.interfacePtr) (fun interfacePtr route => { route with interfacePtr }) .F_IFACE

def setSourceType : SourceType → Ipv4Route → Changed :=
  setField (·.sourceType) (fun sourceType route => { route with sourceType }) .F_SOURCE

def setAdminDist : Nat → Ipv4Route → Changed :=
  setField (·.adminDist) (fun adminDist route => { route with adminDist }) .F_ADMINDIST

def setMetric : Int → Ipv4Route → Changed :=
  setField (·.metric) (fun metric route => { route with metric }) .F_METRIC

def setSource : Option Nat → Ipv4Route → Changed :=
  setField (·.source) (fun source route => { route with source }) .F_SOURCE

/-- The route is valid and its destination is that of an address. -/
def usable (dest : Ipv4Address) (route : Ipv4Route) : Bool :=
  route.isValid && Ipv4Address.maskedAddrAreEqual dest route.dest route.netmask

/-- The checks of `internalAddRoute`. -/
def check (entry : Ipv4Route) : Except String Unit :=
  if !entry.netmask.isValidNetmask then
    .error s!"addRoute(): wrong netmask {entry.netmask.str} in route"
  else if entry.netmask != 0 && entry.dest &&& entry.netmask == 0 then
    .error (s!"addRoute(): all bits of destination address {entry.dest.str} is 0 " ++
      s!"inside non zero netmask {entry.netmask.str}")
  else if entry.dest &&& ~~~entry.netmask != 0 then
    .error (s!"addRoute(): suspicious route: destination IP address {entry.dest.str} " ++
      s!"has bits set outside netmask {entry.netmask.str}")
  else if entry.interfacePtr = none then .error "addRoute(): interface cannot be nullptr"
  else .ok ()

end Ipv4Route

/-- What `updateNetmaskRoutes` reads of an interface. -/
structure NetworkInterface where
  pointer : Nat
  isUp : Bool
  /-- The name matches the pattern `netmaskRoutes`. -/
  matchesNetmaskRoutes : Bool
  /-- Address, netmask and metric of the `Ipv4InterfaceData`, if there is one. -/
  ipv4Data : Option (Ipv4Address × Ipv4Address × Int)
  deriving DecidableEq

/-- The route to the network of the interface, if it has one. -/
def NetworkInterface.netmaskRoute (ie : NetworkInterface) : Option Ipv4Route :=
  if ie.isUp && ie.matchesNetmaskRoutes then
    match ie.ipv4Data with
    | some (ipAddress, netmask, metric) =>
      if netmask ≠ 0xffffffff#32 then
        some { sourceType := .IFACENETMASK, source := some ie.pointer, dest := ipAddress &&& netmask
               netmask, gateway := 0, adminDist := dDirectlyConnected, metric
               interfacePtr := some ie.pointer, rt := true }
      else none
    | none => none
  else none

/-! ### The table -/

structure Ipv4RoutingTable where
  useAdminDist : Bool
  /-- The route objects that exist, in this table or not. -/
  heap : RouteId → Option Ipv4Route := fun _ => none
  routes : List RouteId := []
  /-- The answers of lookups since the table has changed. -/
  routingCache : Ipv4Address → Option (Option RouteId) := fun _ => none

namespace Ipv4RoutingTable

def deref (table : Ipv4RoutingTable) (route : RouteId) : Except String Ipv4Route :=
  match table.heap route with
  | some object => .ok object
  | none => .error "the route does not exist"

def store (table : Ipv4RoutingTable) (route : RouteId) (object : Option Ipv4Route) :
    Ipv4RoutingTable :=
  { table with heap := Function.update table.heap route object }

/-- A new object, at an address where there is none. -/
def new (table : Ipv4RoutingTable) (route : RouteId) (object : Ipv4Route) :
    Except String Ipv4RoutingTable :=
  match table.heap route with
  | some _ => .error "the address is in use"
  | none => .ok (table.store route object)

def invalidateCache (table : Ipv4RoutingTable) : Ipv4RoutingTable :=
  { table with routingCache := fun _ => none }

/-- The first of two routes is better. -/
def routeLessThan (useAdminDist : Bool) (a b : Ipv4Route) : Bool :=
  -- longer prefixes are better, because they are more specific
  if a.netmask ≠ b.netmask then decide (a.netmask.toNat > b.netmask.toNat)
  else if a.dest ≠ b.dest then decide (a.dest.toNat < b.dest.toNat)
  -- for the same destination/netmask:
  else if useAdminDist ∧ a.adminDist ≠ b.adminDist then decide (a.adminDist < b.adminDist)
  else decide (a.metric < b.metric)

/-! ### Lookup -/

/-- The first route of a list that is valid and matches. -/
def firstMatch (table : Ipv4RoutingTable) (dest : Ipv4Address) :
    List RouteId → Except String (Option RouteId)
  | [] => return none
  | e :: rest => do
    let route ← table.deref e
    if route.usable dest then return some e else table.firstMatch dest rest

/-- The scan of the routes, whose answer is remembered. -/
def scan (table : Ipv4RoutingTable) (dest : Ipv4Address) :
    Except String (Option RouteId × Ipv4RoutingTable) := do
  let bestRoute ← table.firstMatch dest table.routes
  return (bestRoute,
    { table with routingCache := Function.update table.routingCache dest (some bestRoute) })

def findBestMatchingRoute (table : Ipv4RoutingTable) (dest : Ipv4Address) :
    Except String (Option RouteId × Ipv4RoutingTable) :=
  match table.routingCache dest with
  | some none => return (none, table)
  | some (some cached) => do
    let route ← table.deref cached
    if route.isValid then return (some cached, table) else table.scan dest
  | none => table.scan dest

/-- The first valid route of a list, as long as they are default routes. -/
def firstDefault (table : Ipv4RoutingTable) : List RouteId → Except String (Option RouteId)
  | [] => return none
  | i :: rest => do
    let route ← table.deref i
    if !route.netmask.isUnspecified then return none
    else if route.isValid then return some i
    else table.firstDefault rest

/-- If a default route exists, it is the last valid entry. -/
def getDefaultRoute (table : Ipv4RoutingTable) : Except String (Option RouteId) :=
  table.firstDefault table.routes.reverse

/-! ### Addition and removal -/

/-- The table without one of its routes. The object stays. -/
def erase (table : Ipv4RoutingTable) (entry : RouteId) : Ipv4RoutingTable :=
  { table with routes := table.routes.erase entry }.invalidateCache

def internalRemoveRoute (table : Ipv4RoutingTable) (entry : RouteId) : Option Ipv4RoutingTable :=
  if entry ∈ table.routes then some (table.erase entry) else none

/-- A route that has been taken out still points to the table. -/
def removed (table : Ipv4RoutingTable) (entry : RouteId) : Except String Ipv4Route := do
  let route ← table.deref entry
  if !route.rt then throw "ASSERT(entry->getRoutingTable() == this)"
  return route

/-- Returns whether the route was in the table. -/
def removeRoute (table : Ipv4RoutingTable) (entry : RouteId) :
    Except String (Bool × Ipv4RoutingTable) :=
  match table.internalRemoveRoute entry with
  | none => return (false, table)
  | some table => do
    let route ← table.removed entry
    return (true, table.store entry (some { route with rt := false }))

/-- Returns whether the route was in the table. -/
def deleteRoute (table : Ipv4RoutingTable) (entry : RouteId) :
    Except String (Bool × Ipv4RoutingTable) :=
  match table.internalRemoveRoute entry with
  | none => return (false, table)
  | some table => do
    let _ ← table.removed entry
    return (true, table.store entry none)

/-- The route is put behind those that are not worse, and points to the table. -/
def insertRoute (table : Ipv4RoutingTable) (entry : RouteId) : Except String Ipv4RoutingTable := do
  let route ← table.deref entry
  let range ← table.routes.mapM table.deref
  let pos ← upperBound "the routes are not in order" (routeLessThan table.useAdminDist) route range
  let table := { table with routes := table.routes.insertIdx pos entry }.invalidateCache
  return table.store entry (some { route with rt := true })

/-- The old default route gives way to a new one. -/
def replaceDefaultRoute (table : Ipv4RoutingTable) (route : Ipv4Route) :
    Except String Ipv4RoutingTable :=
  if route.netmask.isUnspecified then do
    match ← table.getDefaultRoute with
    | none => return table
    | some oldDefaultRoute => return (← table.deleteRoute oldDefaultRoute).2
  else return table

def internalAddRoute (table : Ipv4RoutingTable) (entry : RouteId) :
    Except String Ipv4RoutingTable := do
  let route ← table.deref entry
  route.check
  let table ← table.replaceDefaultRoute route
  table.insertRoute entry

def addRoute (table : Ipv4RoutingTable) (entry : RouteId) : Except String Ipv4RoutingTable :=
  table.internalAddRoute entry

/-! ### Changes of routes -/

/-- The fields by which the routes are sorted put the route at another place. -/
def routeChanged (table : Ipv4RoutingTable) (entry : RouteId) (fieldCode : ChangeCodes) :
    Except String Ipv4RoutingTable :=
  if fieldCode = .F_DESTINATION ∨ fieldCode = .F_PREFIX_LENGTH ∨ fieldCode = .F_METRIC then
    match table.internalRemoveRoute entry with
    | none => .error "ASSERT(entry != nullptr)"
    | some table => table.internalAddRoute entry
  else return table

/-- A setter of a route, which tells the table of a change. -/
def change (table : Ipv4RoutingTable) (entry : RouteId)
    (setter : Ipv4Route → Ipv4Route.Changed) : Except String Ipv4RoutingTable := do
  let route ← table.deref entry
  let changed := setter route
  let table := table.store entry (some changed.1)
  match changed.2 with
  | none => return table
  | some fieldCode => if changed.1.rt then table.routeChanged entry fieldCode else return table

/-- A route becomes valid or expires. -/
def setValid (table : Ipv4RoutingTable) (entry : RouteId) (isValid : Bool) :
    Except String Ipv4RoutingTable := do
  let route ← table.deref entry
  return table.store entry (some { route with isValid })

/-- A route of the table is deleted if the condition holds. -/
def deleteIf (condition : Ipv4Route → Bool) (table : Ipv4RoutingTable) (entry : RouteId) :
    Except String Ipv4RoutingTable := do
  let route ← table.deref entry
  if condition route then
    let table := table.erase entry
    let _ ← table.removed entry
    return table.store entry none
  else return table

/-- Deletes the routes that are not valid. -/
def purge (table : Ipv4RoutingTable) : Except String Ipv4RoutingTable :=
  table.routes.foldlM (deleteIf fun route => !route.isValid) table

/-- Adds the route to the network of an interface, at the address of a new object. -/
def addNetmaskRoute (table : Ipv4RoutingTable) (ie : NetworkInterface × RouteId) :
    Except String Ipv4RoutingTable :=
  match ie.1.netmaskRoute with
  | none => return table
  | some route => do
    let table ← table.new ie.2 route
    table.insertRoute ie.2

/-- Deletes the routes of the interfaces and adds them again as the interfaces are now. -/
def updateNetmaskRoutes (table : Ipv4RoutingTable)
    (interfaces : List (NetworkInterface × RouteId)) :
    Except String Ipv4RoutingTable := do
  let table ← table.routes.foldlM (deleteIf fun route => route.sourceType = .IFACENETMASK) table
  interfaces.foldlM addNetmaskRoute table

end Ipv4RoutingTable

end Inet.Ipv4
