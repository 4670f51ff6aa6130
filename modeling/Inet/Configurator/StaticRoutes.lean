import Inet.Ipv4.Ipv4RoutingTable
import Inet.Common.ShortestPaths

/-!
# Static routes to all interfaces of a network

Every node gets a route to each address of the nodes that have a path to it, over the last link of
that path. The selectors of the configuration match every node and interface, there are no manual
routes, and default routes, subnet routes and the optimization of the table are switched off.
-/
namespace Inet.Configurator

open Inet.Common Inet.Ipv4

structure InterfaceInfo where
  networkInterface : Nat
  isLoopback : Bool := false
  address : Ipv4Address
  addStaticRoute : Bool := true
  deriving DecidableEq

/-- The interfaces of a link, for nodes that have an interface table. -/
structure LinkInterfaces where
  sourceInterfaceInfo : Option InterfaceInfo
  destinationInterfaceInfo : Option InterfaceInfo
  deriving DecidableEq

/-- A node without a routing table or an interface table is a bridge. -/
structure Network (n : Nat) where
  topology : Topology n LinkInterfaces
  isBridgeNode : Fin n → Bool
  interfaceInfos : Fin n → List InterfaceInfo

/-- All that is compared, which leaves out the administrative distance. -/
def routesEqual (rt route : Ipv4Route) : Bool :=
  rt.rt == route.rt && rt.dest == route.dest && rt.netmask == route.netmask &&
    rt.gateway == route.gateway && rt.interfacePtr == route.interfacePtr &&
    rt.sourceType == route.sourceType && rt.metric == route.metric

def containsRoute (routes : List Ipv4Route) (route : Ipv4Route) : Bool :=
  routes.any fun rt => routesEqual rt route

/-- The route to an interface. Interfaces of the next hop itself have no gateway. -/
def hostRoute (sourceInterfaceInfo nextHopInterfaceInfo destinationInterfaceInfo : InterfaceInfo) :
    Ipv4Route where
  dest := destinationInterfaceInfo.address
  netmask := 0xffffffff#32
  interfacePtr := some sourceInterfaceInfo.networkInterface
  gateway :=
    if nextHopInterfaceInfo.address ≠ destinationInterfaceInfo.address then
      nextHopInterfaceInfo.address
    else 0
  sourceType := .MANUAL

def addRoute (addDirectRoutes : Bool) (routes : List Ipv4Route) (route : Ipv4Route) :
    List Ipv4Route :=
  if containsRoute routes route then routes
  else if !addDirectRoutes && route.gateway.isUnspecified then routes
  else routes ++ [route]

namespace Network
variable {n : Nat}

/-- Interfaces that get routes. -/
def destinations (network : Network n) (destinationNode : Fin n) : List InterfaceInfo :=
  (network.interfaceInfos destinationNode).filter fun destinationInterfaceInfo =>
    !destinationInterfaceInfo.isLoopback && !destinationInterfaceInfo.address.isUnspecified

/-- Follows the path from the destination to the source node, which has fewer links than there are
nodes, for its last link and the last interface on it that is not in the source node. -/
def findNextHop (network : Network n) (s : Topology.Search n LinkInterfaces) (sourceNode : Fin n) :
    Nat → Fin n → Option (Link (Fin n) LinkInterfaces) → Option InterfaceInfo →
    Except String (Option (Link (Fin n) LinkInterfaces) × Option InterfaceInfo)
  | fuel, node, link, nextHopInterfaceInfo =>
    if node = sourceNode then .ok (link, nextHopInterfaceInfo)
    else
      match fuel, s.outPath node with
      | 0, _ => .error "the path does not end"
      | _ + 1, none => .error "getPath(0) is a nullptr"
      | fuel + 1, some link =>
        network.findNextHop s sourceNode fuel link.destNode (some link) <|
          if network.isBridgeNode node then nextHopInterfaceInfo
          else link.info.sourceInterfaceInfo.or nextHopInterfaceInfo

/-- All routes to a node leave through the same interface. -/
def addRoutesThrough (network : Network n) (addDirectRoutes : Bool) (destinationNode : Fin n)
    (routes : List Ipv4Route) (sourceInterfaceInfo nextHopInterfaceInfo : InterfaceInfo) :
    List Ipv4Route :=
  if sourceInterfaceInfo.addStaticRoute then
    (network.destinations destinationNode).foldl (fun routes destinationInterfaceInfo =>
      addRoute addDirectRoutes routes
        (hostRoute sourceInterfaceInfo nextHopInterfaceInfo destinationInterfaceInfo)) routes
  else routes

def addRoutesTo (network : Network n) (addDirectRoutes : Bool)
    (s : Topology.Search n LinkInterfaces) (sourceNode : Fin n) (routes : List Ipv4Route)
    (destinationNode : Fin n) : Except String (List Ipv4Route) :=
  if sourceNode = destinationNode ∨ s.outPath destinationNode = none ∨
      network.isBridgeNode destinationNode then .ok routes
  else
    match network.findNextHop s sourceNode n destinationNode none none with
    | .error e => .error e
    | .ok (some link, some nextHopInterfaceInfo) =>
      match link.info.destinationInterfaceInfo with
      | some sourceInterfaceInfo =>
        .ok (network.addRoutesThrough addDirectRoutes destinationNode routes sourceInterfaceInfo
          nextHopInterfaceInfo)
      | none => .ok routes
    | .ok _ => .ok routes

/-- The routes of one node. -/
def addStaticRoutes (network : Network n) (addDirectRoutes : Bool) (sourceNode : Fin n) :
    Except String (List Ipv4Route) :=
  if network.isBridgeNode sourceNode then .ok []
  else do
    let s ← network.topology.calculateWeightedSingleShortestPathsTo sourceNode
    (List.finRange n).foldlM (network.addRoutesTo addDirectRoutes s sourceNode) []

end Network

end Inet.Configurator

/-!
## The next hop of a path

The path from a destination to a node is also one to every other node on it, and a shorter one. So
the next hop, which is on the path, is nearer to the destination in its own search. Frames get to
it over the bridges at the end of the path.
-/
namespace Inet.Configurator

open Inet.Common Inet.Ipv4 Topology

namespace Network
variable {n : Nat}
variable {v : Fin n}

/-! ### Networks -/

/-- A frame that is sent over a link may get to an interface, through bridges only. -/
inductive Carries (network : Network n) :
    Link (Fin n) LinkInterfaces → Fin n → InterfaceInfo → Prop
  | arrives {link interfaceInfo} : network.isBridgeNode link.destNode = false →
      link.info.destinationInterfaceInfo = some interfaceInfo →
      Carries network link link.destNode interfaceInfo
  | forwards {link next v interfaceInfo} : network.isBridgeNode link.destNode = true →
      next ∈ network.topology.inLinks next.destNode → next.srcNode = link.destNode →
      Carries network next v interfaceInfo → Carries network link v interfaceInfo

/-- A frame that a node sends through one of its interfaces may get to an interface. -/
def Adjacent (network : Network n) (u : Fin n) (interfacePtr : Option Nat) (v : Fin n)
    (interfaceInfo : InterfaceInfo) : Prop :=
  ∃ link ∈ network.topology.inLinks link.destNode, link.srcNode = u ∧
    (∃ own, link.info.sourceInterfaceInfo = some own ∧
      interfacePtr = some own.networkInterface) ∧
    network.Carries link v interfaceInfo

/-- The node has an interface with the address. -/
def Owns (network : Network n) (v : Fin n) (address : Ipv4Address) : Prop :=
  network.isBridgeNode v = false ∧
    ∃ interfaceInfo ∈ network.interfaceInfos v, interfaceInfo.isLoopback = false ∧
      interfaceInfo.address = address

/-- What the extraction of a topology and the assignment of addresses provide: weights that pass
the checks of the search, links in both directions between interfaces, and addresses of interfaces
that are specified and unique. -/
structure WellFormed (network : Network n) : Prop where
  weighted : network.topology.Weighted
  back : ∀ v, ∀ link ∈ network.topology.inLinks v,
    ∃ back ∈ network.topology.inLinks link.srcNode, back.srcNode = v ∧
      back.weight = link.weight ∧
      back.info.sourceInterfaceInfo = link.info.destinationInterfaceInfo ∧
      back.info.destinationInterfaceInfo = link.info.sourceInterfaceInfo
  attached : ∀ v, ∀ link ∈ network.topology.inLinks v, network.isBridgeNode v = false →
    ∃ interfaceInfo ∈ network.interfaceInfos v, interfaceInfo.isLoopback = false ∧
      link.info.destinationInterfaceInfo = some interfaceInfo
  specified : ∀ v, network.isBridgeNode v = false → ∀ interfaceInfo ∈ network.interfaceInfos v,
    interfaceInfo.isLoopback = false → interfaceInfo.address ≠ 0
  unique : ∀ u v address, network.Owns u address → network.Owns v address → u = v

/-! ### The path from a destination -/

theorem findNextHop_arrived (network : Network n) (s : Search n LinkInterfaces)
    (source : Fin n) (fuel : Nat)
    (link : Option (Link (Fin n) LinkInterfaces)) (next : Option InterfaceInfo) :
    network.findNextHop s source fuel source link next = .ok (link, next) := by
  rw [findNextHop.eq_def]
  exact if_pos rfl

variable {after : Link (Fin n) LinkInterfaces}

theorem findNextHop_step (network : Network n) {s : Search n LinkInterfaces}
    {source node : Fin n} (apart : node ≠ source) (found : s.outPath node = some after) (fuel : Nat)
    (link : Option (Link (Fin n) LinkInterfaces)) (next : Option InterfaceInfo) :
    network.findNextHop s source (fuel + 1) node link next =
      network.findNextHop s source fuel after.destNode (some after)
        (if network.isBridgeNode node then next
          else after.info.sourceInterfaceInfo.or next) := by
  rw [findNextHop.eq_def]
  dsimp only
  rw [if_neg apart, found]

variable {link : Link (Fin n) LinkInterfaces} {next : InterfaceInfo}

section
variable {network : Network n} {s : Search n LinkInterfaces} {source d : Fin n}
  (wellFormed : network.WellFormed) (shortest : Shortest network.topology source s)

/-- The link from the first to the second node is on the paths that the search has found. -/
def OnPath (s : Search n LinkInterfaces) (v w : Fin n) : Prop :=
  ∃ link, s.outPath v = some link ∧ link.destNode = w

/-- The same link, in the other direction. -/
structure Back (link back : Link (Fin n) LinkInterfaces) : Prop where
  source : back.srcNode = link.destNode
  destination : back.destNode = link.srcNode
  sourceInterface : back.info.sourceInterfaceInfo = link.info.destinationInterfaceInfo
  destinationInterface : back.info.destinationInterfaceInfo = link.info.sourceInterfaceInfo

include wellFormed in
theorem WellFormed.exists_back (member : link ∈ network.topology.inLinks link.destNode) :
    ∃ back ∈ network.topology.inLinks back.destNode, Back link back := by
  obtain ⟨back, inside, source, _, first, last⟩ := wellFormed.back _ link member
  have ends := network.topology.ends _ back inside
  exact ⟨back, ends.symm ▸ inside, source, ends, first, last⟩

/-- The path from the destination has come to the end of a link. The next hop so far is the last
node before that is not a bridge, and frames that come back over the link get to it. -/
structure Walked (network : Network n) (s : Search n LinkInterfaces) (source d : Fin n)
    (link : Link (Fin n) LinkInterfaces) (next : InterfaceInfo) (v : Fin n) : Prop where
  listed : link ∈ network.topology.inLinks link.destNode
  onward : Relation.ReflTransGen (OnPath s) d link.destNode
  passed : Relation.ReflTransGen (OnPath s) d v
  apart : v ≠ source
  routes : network.isBridgeNode v = false
  member : next ∈ network.interfaceInfos v
  external : next.isLoopback = false
  carries : ∀ back, Back link back → network.Carries back v next

include wellFormed shortest in
/-- A node with interfaces is the next hop, if no other one follows. -/
theorem walked_node {w : Fin n}
    (onward : Relation.ReflTransGen (OnPath s) d w) (routes : network.isBridgeNode w = false)
    (apart : w ≠ source) (found : s.outPath w = some link) :
    ∃ next, link.info.sourceInterfaceInfo = some next ∧
      Walked network s source d link next w := by
  obtain ⟨rfl, listed, _⟩ := shortest.tight w link found
  obtain ⟨back, inside, same⟩ := wellFormed.exists_back listed
  obtain ⟨next, member, external, at'⟩ :=
    wellFormed.attached _ back inside (same.destination ▸ routes)
  rw [same.destinationInterface] at at'
  rw [same.destination] at member
  refine ⟨next, at', listed, onward.tail ⟨link, found, rfl⟩, onward, apart, routes, member,
    external, fun back same => ?_⟩
  rw [← same.destination] at routes ⊢
  exact .arrives routes (same.destinationInterface.trans at')

include wellFormed shortest in
/-- A bridge only carries frames. -/
theorem Walked.bridge (walked : Walked network s source d link next v)
    (bridge : network.isBridgeNode link.destNode = true)
    (found : s.outPath link.destNode = some after) :
    Walked network s source d after next v := by
  obtain ⟨sourceNode, listed, _⟩ := shortest.tight _ after found
  refine { walked with
    listed, onward := walked.onward.tail ⟨after, found, rfl⟩, carries := fun back same => ?_ }
  obtain ⟨earlier, inside, before⟩ := wellFormed.exists_back walked.listed
  have here : back.destNode = link.destNode := same.destination.trans sourceNode
  exact .forwards (here.symm ▸ bridge) inside (before.source.trans here.symm)
    (walked.carries earlier before)

include wellFormed shortest in
theorem Walked.step
    (walked : Walked network s source d link next v) (apart : link.destNode ≠ source)
    (found : s.outPath link.destNode = some after) :
    ∃ next' v', (if network.isBridgeNode link.destNode then some next
        else after.info.sourceInterfaceInfo.or (some next)) = some next' ∧
      Walked network s source d after next' v' := by
  cases bridge : network.isBridgeNode link.destNode with
  | true => exact ⟨next, v, if_pos rfl, walked.bridge wellFormed shortest bridge found⟩
  | false =>
    obtain ⟨next', at', walked'⟩ :=
      walked_node wellFormed shortest walked.onward bridge apart found
    refine ⟨next', _, ?_, walked'⟩
    rw [if_neg Bool.false_ne_true, at', Option.some_or]

include wellFormed shortest in
/-- The walk gets to the source node. -/
theorem Walked.findNextHop (fuel : Nat) :
    ∀ {link : Link (Fin n) LinkInterfaces} {next : InterfaceInfo} {v : Fin n},
      Walked network s source d link next v → s.dist link.destNode ≠ ⊤ →
      (nearer s.dist link.destNode).card ≤ fuel →
      ∃ last next' v', network.findNextHop s source fuel link.destNode (some link) (some next) =
          .ok (some last, some next') ∧ last.destNode = source ∧
        Walked network s source d last next' v' := by
  induction fuel with
  | zero =>
    intro link next v walked near enough
    have arrived : link.destNode = source := by
      by_contra apart
      obtain ⟨after, found⟩ := shortest.reached _ near apart
      have less := nearer_card_lt (shortest.descends wellFormed.weighted found)
      omega
    subst arrived
    exact ⟨link, next, v, network.findNextHop_arrived _ _ _ _ _, rfl, walked⟩
  | succ fuel ih =>
    intro link next v walked near enough
    by_cases arrived : link.destNode = source
    · subst arrived
      exact ⟨link, next, v, network.findNextHop_arrived _ _ _ _ _, rfl, walked⟩
    · obtain ⟨after, found⟩ := shortest.reached _ near arrived
      have descends := shortest.descends wellFormed.weighted found
      have less := nearer_card_lt descends
      obtain ⟨next', v', same, walked'⟩ := walked.step wellFormed shortest arrived found
      obtain ⟨last, final, w, result, ends, walked''⟩ :=
        ih walked' (descends.trans_le le_top).ne (by omega)
      refine ⟨last, final, w, ?_, ends, walked''⟩
      rw [network.findNextHop_step arrived found, same]
      exact result

/-- The interface that routes to a destination leave through, and the interface of the next hop. -/
def Through (network : Network n) (s : Search n LinkInterfaces) (source d : Fin n)
    (own next : InterfaceInfo) : Prop :=
  source ≠ d ∧ s.outPath d ≠ none ∧ network.isBridgeNode d = false ∧
    ∃ link, network.findNextHop s source n d none none = .ok (some link, some next) ∧
      link.info.destinationInterfaceInfo = some own

theorem Through.unique {own own' next' : InterfaceInfo}
    (through : Through network s source d own next)
    (through' : Through network s source d own' next') : own = own' ∧ next = next' := by
  obtain ⟨_, _, _, link, found, at'⟩ := through
  obtain ⟨_, _, _, link', found', at''⟩ := through'
  rw [found] at found'
  cases found'
  rw [at'] at at''
  exact ⟨Option.some_inj.mp at'', rfl⟩

include wellFormed shortest in
theorem exists_through (routes : network.isBridgeNode source = false) (apart : source ≠ d)
    (known : s.outPath d ≠ none) (node : network.isBridgeNode d = false) :
    ∃ own next v, Through network s source d own next ∧
      own ∈ network.interfaceInfos source ∧
      network.Adjacent source (some own.networkInterface) v next ∧
      Relation.ReflTransGen (OnPath s) d v ∧ v ≠ source ∧ network.isBridgeNode v = false ∧
      next ∈ network.interfaceInfos v ∧ next.isLoopback = false := by
  obtain ⟨first, found⟩ := Option.ne_none_iff_exists'.mp known
  obtain ⟨next, at', walked⟩ := walked_node wellFormed shortest .refl node apart.symm found
  have descends := shortest.descends wellFormed.weighted found
  have bound := nearer_card_lt_n s.dist d
  obtain ⟨last, next', v, result, ends, walked'⟩ :=
    walked.findNextHop wellFormed shortest (n - 1) (descends.trans_le le_top).ne
      (by have := nearer_card_lt descends; omega)
  subst ends
  obtain ⟨own, member, _, there⟩ := wellFormed.attached _ last walked'.listed routes
  obtain ⟨back, inside, same⟩ := wellFormed.exists_back walked'.listed
  refine ⟨own, next', v, ⟨apart, known, node, last, ?_, there⟩, member,
    ⟨back, inside, same.source, ⟨own, same.sourceInterface.trans there, rfl⟩,
      walked'.carries back same⟩,
    walked'.passed, walked'.apart, walked'.routes, walked'.member, walked'.external⟩
  obtain ⟨fuel, rfl⟩ : ∃ fuel, n = fuel + 1 := ⟨n - 1, by omega⟩
  rw [network.findNextHop_step apart.symm found, node, at']
  exact result

/-! ### The next hop is nearer to the destination -/

include wellFormed shortest in
theorem dist_split {s' : Search n LinkInterfaces} {w : Fin n}
    (shortest' : Shortest network.topology v s') (apart : v ≠ source)
    (onward : Relation.ReflTransGen (OnPath s) w v) : s'.dist w + s.dist v ≤ s.dist w := by
  induction onward using Relation.ReflTransGen.head_induction_on with
  | refl => rw [shortest'.start, zero_add]
  | @head w x hop _ ih =>
    obtain ⟨link, found, rfl⟩ := hop
    obtain ⟨rfl, listed, tight, _⟩ := shortest.tight w link found
    -- The path ends at the source, and it has not come to the next hop yet.
    have between : link.destNode ≠ source := by
      intro ends
      rw [ends, shortest.start] at ih
      have further := shortest.positive wellFormed.weighted apart
      exact absurd (le_add_of_nonneg_left (shortest'.nonneg source)) (ih.trans_lt further).not_ge
    calc s'.dist link.srcNode + s.dist v
        ≤ s'.dist link.destNode + link.weight + network.topology.weight link.destNode +
            s.dist v := by
          gcongr
          exact (shortest'.feasible _ link listed).trans (newdist_le (wellFormed.weighted.node _))
      _ = s'.dist link.destNode + s.dist v + link.weight +
            network.topology.weight link.destNode := by ac_rfl
      _ ≤ s.dist link.destNode + link.weight + network.topology.weight link.destNode := by
          gcongr
      _ = s.dist link.srcNode := by rw [tight, newdist_apart between]

include wellFormed shortest in
theorem dist_nextHop_lt {s' : Search n LinkInterfaces}
    (shortest' : Shortest network.topology v s') (apart : v ≠ source)
    (onward : Relation.ReflTransGen (OnPath s) d v) (near : s.dist d ≠ ⊤) :
    s'.dist d < s.dist d := by
  have split := dist_split wellFormed shortest shortest' apart onward
  have finite : s'.dist d ≠ ⊤ :=
    ((le_add_of_nonneg_right (shortest.nonneg v)).trans split |>.trans_lt
      (lt_top_iff_ne_top.mpr near)).ne
  exact (lt_add_of_positive finite (shortest.positive wellFormed.weighted apart)).trans_le split

include shortest in
/-- Nodes between both ends of a path forward. -/
theorem weight_ne_top (onward : Relation.ReflTransGen (OnPath s) d v)
    (apart : v ≠ source) (between : v ≠ d) : network.topology.weight v ≠ ⊤ := by
  rcases onward.cases_tail with rfl | ⟨w, _, link, found, rfl⟩
  · exact absurd rfl between
  · obtain ⟨_, _, tight, near⟩ := shortest.tight w link found
    rw [tight, newdist_apart apart] at near
    exact fun infinite => near (by rw [infinite, WithTop.add_top])

end

end Network

end Inet.Configurator
