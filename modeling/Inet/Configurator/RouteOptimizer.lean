import Inet.Ipv4.Ipv4RoutingTable

/-!
# Optimization of a table of routes

Routes of the same color, which lead packets the same way, are merged to one with their longest
common prefix as long as the original routes are not interrupted. All asserts are checked.
-/
namespace Inet.Configurator

open Inet.Ipv4 Lib

/-! ### Tables -/

structure OriginalRouteInfo where
  /-- An index into the different actions of routes. -/
  color : Nat
  destination : Ipv4Address
  netmask : Ipv4Address
  deriving DecidableEq

structure RouteInfo extends OriginalRouteInfo where
  enabled : Bool := true
  /-- Routes of the original table that are routed by this one. -/
  originalRouteInfos : List OriginalRouteInfo := []
  deriving DecidableEq

abbrev RoutingTableInfo := List RouteInfo

def RouteInfo.routes (routeInfo : RouteInfo) (destination : Ipv4Address) : Bool :=
  routeInfo.enabled && ((destination ^^^ routeInfo.destination) &&& routeInfo.netmask == 0)

/-- The index of the first route in a range that matches. The range starts at the beginning of the
table, whatever the second parameter is. -/
def findBestMatchingRouteInfo (routeInfos : RoutingTableInfo) (destination : Ipv4Address)
    (_begin finish : Nat) : Option Nat :=
  (routeInfos.take finish).findIdx? (·.routes destination)

def routeInfoLessThan (a b : RouteInfo) : Bool :=
  if a.netmask ≠ b.netmask then decide (a.netmask > b.netmask)
  else decide (a.destination < b.destination)

/-- The table with another route, and its index. -/
def addRouteInfo (routeInfos : RoutingTableInfo) (routeInfo : RouteInfo) :
    Except String (RoutingTableInfo × Nat) := do
  let index ← upperBound "the range is not sorted" routeInfoLessThan routeInfo routeInfos
  .ok (routeInfos.insertIdx index routeInfo, index)

/-! ### Conditions of a merge -/

/-- Two adjacent routes. -/
def routesCanBeSwapped (routeInfo1 routeInfo2 : RouteInfo) : Bool :=
  routeInfo1.color == routeInfo2.color ||
    routeInfo1.destination &&& (routeInfo1.netmask &&& routeInfo2.netmask) !=
      routeInfo2.destination &&& (routeInfo1.netmask &&& routeInfo2.netmask)

/-- The first of two routes can be moved to the second. -/
def routesCanBeNeighbors (routeInfos : RoutingTableInfo) (i j : Nat) : Bool :=
  match routeInfos[min i j]? with
  | some beginRouteInfo =>
    ((routeInfos.take (max i j)).drop (min i j + 1)).all (routesCanBeSwapped beginRouteInfo)
  | none => true

def interruptsOriginalRoute (routeInfos : RoutingTableInfo) (start finish : Nat)
    (originalRouteInfo : OriginalRouteInfo) : Bool :=
  match findBestMatchingRouteInfo routeInfos originalRouteInfo.destination start finish with
  | some index => routeInfos[index]?.any (·.color != originalRouteInfo.color)
  | none => false

def interruptsAnyOriginalRoute (routeInfos : RoutingTableInfo) (start finish : Nat)
    (originalRouteInfos : List OriginalRouteInfo) : Bool :=
  decide (start < finish) &&
    originalRouteInfos.any (interruptsOriginalRoute routeInfos start finish)

/-- The route at an index interrupts an original route that a later one routes. -/
def interruptsSubsequentOriginalRoutes (routeInfos : RoutingTableInfo) (index : Nat) : Bool :=
  (routeInfos.drop (index + 1)).any fun routeInfo =>
    interruptsAnyOriginalRoute routeInfos index (index + 1) routeInfo.originalRouteInfos

/-! ### Merging -/

/-- Destination and netmask with the bits above a number of them, and all that follow as long as
they agree. -/
def commonPrefix (destination1 netmask1 destination2 netmask2 : Ipv4Address) :
    Nat → Ipv4Address × Ipv4Address → Ipv4Address × Ipv4Address
  | 0, out => out
  | bitIndex + 1, (destinationOut, netmaskOut) =>
    let mask := 1#32 <<< bitIndex
    if destination1 &&& mask = destination2 &&& mask ∧ netmask1 &&& mask ≠ 0 ∧
        netmask2 &&& mask ≠ 0 then
      commonPrefix destination1 netmask1 destination2 netmask2 bitIndex
        (destinationOut ||| destination1 &&& mask, netmaskOut ||| mask)
    else (destinationOut, netmaskOut)

def findLongestCommonDestinationPrefix
    (destination1 netmask1 destination2 netmask2 : Ipv4Address) : Ipv4Address × Ipv4Address :=
  commonPrefix destination1 netmask1 destination2 netmask2 32 (0, 0)

def RouteInfo.attach (originalRouteInfo : OriginalRouteInfo) (routeInfo : RouteInfo) : RouteInfo :=
  { routeInfo with
    originalRouteInfos := routeInfo.originalRouteInfos ++ [originalRouteInfo] }

/-- The assert that a route takes over original routes of its own color. -/
def attachedError : String := "ASSERT: matchingRouteInfo->color == originalRouteInfo->color"

def addOriginalRouteInfo (start finish : Nat) (routeInfos : RoutingTableInfo)
    (originalRouteInfo : OriginalRouteInfo) : Except String RoutingTableInfo :=
  match findBestMatchingRouteInfo routeInfos originalRouteInfo.destination start finish with
  | some index =>
    if routeInfos[index]?.any (·.color == originalRouteInfo.color) then
      .ok (routeInfos.modify index (·.attach originalRouteInfo))
    else .error attachedError
  | none => .error "ASSERT: matchingRouteInfo"

def addOriginalRouteInfos (routeInfos : RoutingTableInfo) (start finish : Nat)
    (originalRouteInfos : List OriginalRouteInfo) : Except String RoutingTableInfo :=
  originalRouteInfos.foldlM (addOriginalRouteInfo start finish) routeInfos

/-- The prefix of the route contains the destination. -/
def RouteInfo.captures (mergedRouteInfo : RouteInfo) (originalRouteInfo : OriginalRouteInfo) :
    Bool :=
  (originalRouteInfo.destination ^^^ mergedRouteInfo.destination) &&& mergedRouteInfo.netmask == 0

/-- The assert that original routes of later routes have the color of the merged route. -/
def capturedError : String := "ASSERT: mergedRouteInfo->color == originalRouteInfo->color"

/-- The original routes that the merged route takes from routes that follow it. -/
def capturedFrom (mergedRouteInfo : RouteInfo) (followingRouteInfos : RoutingTableInfo) :
    List OriginalRouteInfo :=
  followingRouteInfos.flatMap fun followingRouteInfo =>
    followingRouteInfo.originalRouteInfos.filter mergedRouteInfo.captures

/-- What a following route keeps. -/
def RouteInfo.release (mergedRouteInfo followingRouteInfo : RouteInfo) : RouteInfo :=
  { followingRouteInfo with
    originalRouteInfos :=
      followingRouteInfo.originalRouteInfos.filter (!mergedRouteInfo.captures ·) }

def RouteInfo.attachAll (originalRouteInfos : List OriginalRouteInfo) (routeInfo : RouteInfo) :
    RouteInfo :=
  { routeInfo with originalRouteInfos := routeInfo.originalRouteInfos ++ originalRouteInfos }

/-- Moves original routes to the merged route, which is at an index, from those that follow. -/
def captureFollowing (routeInfos : RoutingTableInfo) (m : Nat) (mergedRouteInfo : RouteInfo) :
    Except String RoutingTableInfo :=
  if (capturedFrom mergedRouteInfo (routeInfos.drop (m + 1))).all
      (·.color == mergedRouteInfo.color) then
    .ok <| (routeInfos.take (m + 1)).modify m
        (·.attachAll (capturedFrom mergedRouteInfo (routeInfos.drop (m + 1)))) ++
      (routeInfos.drop (m + 1)).map mergedRouteInfo.release
  else .error capturedError

def mergeRoutes (routeInfoI routeInfoJ : RouteInfo) : RouteInfo where
  color := routeInfoI.color
  destination := (findLongestCommonDestinationPrefix routeInfoI.destination routeInfoI.netmask
    routeInfoJ.destination routeInfoJ.netmask).1
  netmask := (findLongestCommonDestinationPrefix routeInfoI.destination routeInfoI.netmask
    routeInfoJ.destination routeInfoJ.netmask).2

def disable (routeInfo : RouteInfo) : RouteInfo := { routeInfo with enabled := false }

def enable (routeInfo : RouteInfo) : RouteInfo := { routeInfo with enabled := true }

/-- The merged route, which is at an index behind those of the two routes, does not conflict with
any route. The routes in between must not interrupt what the two routes routed, and the merged route
must not interrupt what later routes route. -/
def mergeable (merged : RoutingTableInfo) (i j m : Nat) (routeInfoI routeInfoJ : RouteInfo) : Bool :=
  !interruptsAnyOriginalRoute merged (j + 1) i routeInfoJ.originalRouteInfos &&
    !interruptsAnyOriginalRoute merged (i + 1) m routeInfoJ.originalRouteInfos &&
    !interruptsAnyOriginalRoute merged (i + 1) m routeInfoI.originalRouteInfos &&
    !interruptsSubsequentOriginalRoutes merged m

/-- Moves the original routes of the two routes, and of routes after the merged one, to the routes
that capture them. The two routes are removed. -/
def moveOriginalRouteInfos (merged : RoutingTableInfo) (i j m : Nat)
    (routeInfoI routeInfoJ mergedRouteInfo : RouteInfo) : Except String RoutingTableInfo := do
  let merged ← addOriginalRouteInfos merged (i + 1) (m + 1) routeInfoI.originalRouteInfos
  let merged ← addOriginalRouteInfos merged (j + 1) (m + 1) routeInfoJ.originalRouteInfos
  let merged ← captureFollowing merged m mergedRouteInfo
  .ok ((merged.eraseIdx i).eraseIdx j)

/-- Whether the routes at two indexes are merged, and the table after that. -/
def tryToMergeTwoRoutes (routeInfos : RoutingTableInfo) (i j : Nat)
    (routeInfoI routeInfoJ : RouteInfo) : Except String (Bool × RoutingTableInfo) := do
  if routeInfoI.color ≠ routeInfoJ.color then
    .error "ASSERT: routeInfoI->color == routeInfoJ->color"
  else
    let mergedRouteInfo := mergeRoutes routeInfoI routeInfoJ
    let (merged, m) ← addRouteInfo ((routeInfos.modify i disable).modify j disable) mergedRouteInfo
    if ¬(m > i ∧ m > j) then .error "ASSERT: m > i && m > j"
    else if mergeable merged i j m routeInfoI routeInfoJ then
      let merged ← moveOriginalRouteInfos merged i j m routeInfoI routeInfoJ mergedRouteInfo
      .ok (true, merged)
    else .ok (false, ((merged.modify i enable).modify j enable).eraseIdx m)

/-- Later routes first, and for each the routes before it backward. -/
def indexPairs (size : Nat) : List (Nat × Nat) :=
  (List.range size).flatMap fun i => (List.range i).reverse.map fun j => (i, j)

/-- Goes on until two routes are merged. -/
def tryToMergePairs (routeInfos : RoutingTableInfo) :
    List (Nat × Nat) → Except String (Bool × RoutingTableInfo)
  | [] => .ok (false, routeInfos)
  | (i, j) :: rest =>
    match routeInfos[i]?, routeInfos[j]? with
    | some routeInfoI, some routeInfoJ =>
      if routeInfoI.color = routeInfoJ.color ∧ routesCanBeNeighbors routeInfos i j then
        match tryToMergeTwoRoutes routeInfos i j routeInfoI routeInfoJ with
        | .error e => .error e
        | .ok (true, merged) => .ok (true, merged)
        | .ok (false, restored) => tryToMergePairs restored rest
      else tryToMergePairs routeInfos rest
    | _, _ => tryToMergePairs routeInfos rest

def tryToMergeAnyTwoRoutes (routeInfos : RoutingTableInfo) :
    Except String (Bool × RoutingTableInfo) :=
  tryToMergePairs routeInfos (indexPairs routeInfos.length)

/-- The main loop, with the number of merges that it may still make. -/
def mergeRoutesRepeatedly : Nat → RoutingTableInfo → Except String RoutingTableInfo
  | fuel, routeInfos =>
    match tryToMergeAnyTwoRoutes routeInfos, fuel with
    | .error e, _ => .error e
    | .ok (false, unmerged), _ => .ok unmerged
    | .ok (true, _), 0 => .error "the loop does not end"
    | .ok (true, merged), fuel + 1 => mergeRoutesRepeatedly fuel merged

/-! ### The optimizer -/

def routesHaveSameColor (route1 route2 : Ipv4Route) : Bool :=
  route1.sourceType == route2.sourceType && route1.metric == route2.metric &&
    route1.gateway == route2.gateway && route1.interfacePtr == route2.interfacePtr

structure Optimizer where
  colorToRoute : List Ipv4Route := []
  originalRoutingTableInfo : RoutingTableInfo := []
  routingTableInfo : RoutingTableInfo := []

/-- The color of a route, after the actions got that of the route if it is new. -/
def colorOf (colorToRoute : List Ipv4Route) (route : Ipv4Route) : List Ipv4Route × Nat :=
  match colorToRoute.findIdx? (routesHaveSameColor · route) with
  | some color => (colorToRoute, color)
  | none => (colorToRoute ++ [route], colorToRoute.length)

def Optimizer.addOriginalRoute (optimizer : Optimizer) (originalRoute : Ipv4Route) :
    Except String Optimizer := do
  let (colorToRoute, color) := colorOf optimizer.colorToRoute originalRoute
  let originalRouteInfo : OriginalRouteInfo :=
    { color, destination := originalRoute.dest, netmask := originalRoute.netmask }
  let (originalRoutingTableInfo, _) ←
    addRouteInfo optimizer.originalRoutingTableInfo { originalRouteInfo with }
  let (routingTableInfo, _) ← addRouteInfo optimizer.routingTableInfo
    { originalRouteInfo with originalRouteInfos := [originalRouteInfo] }
  .ok { colorToRoute, originalRoutingTableInfo, routingTableInfo }

def matchingColor (routeInfos : RoutingTableInfo) (destination : Ipv4Address) : Option Nat :=
  (findBestMatchingRouteInfo routeInfos destination 0 routeInfos.length).bind fun index =>
    routeInfos[index]?.map (·.color)

def checkOriginalRoutes (routingTableInfo originalRoutingTableInfo : RoutingTableInfo) :
    Except String PUnit :=
  originalRoutingTableInfo.forM fun originalRouteInfo =>
    if (matchingColor routingTableInfo originalRouteInfo.destination).isSome ∧
        matchingColor routingTableInfo originalRouteInfo.destination =
          matchingColor originalRoutingTableInfo originalRouteInfo.destination then .ok ⟨⟩
    else .error
      "ASSERT: matchingRouteInfo && matchingRouteInfo->color == matchingOriginalRouteInfo->color"

/-- A route with the prefix of a route of the optimizer and the action of its color. -/
def optimizedRoute (colorToRoute : List Ipv4Route) (routeInfo : RouteInfo) :
    Except String Ipv4Route :=
  match colorToRoute[routeInfo.color]? with
  | some routeColor => .ok
    { dest := routeInfo.destination
      netmask := routeInfo.netmask
      interfacePtr := routeColor.interfacePtr
      gateway := routeColor.gateway
      sourceType := routeColor.sourceType
      metric := routeColor.metric }
  | none => .error "the color is out of range"

def optimizeRoutes (originalRoutes : List Ipv4Route) : Except String (List Ipv4Route) := do
  let optimizer ← originalRoutes.foldlM Optimizer.addOriginalRoute {}
  checkOriginalRoutes optimizer.routingTableInfo optimizer.originalRoutingTableInfo
  let routingTableInfo ←
    mergeRoutesRepeatedly optimizer.routingTableInfo.length optimizer.routingTableInfo
  checkOriginalRoutes routingTableInfo optimizer.originalRoutingTableInfo
  routingTableInfo.mapM (optimizedRoute optimizer.colorToRoute)

end Inet.Configurator
