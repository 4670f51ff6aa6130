import Inet.Configurator.StaticRoutes
import Inet.Lib.Descent

/-!
# Forwarding over static routes

Each node sends packets to a node whose path to the destination is shorter, so that forwarding ends
at the destination and does not come back.
-/
namespace Inet.Configurator

open Inet.Common Inet.Ipv4 Topology Lib

/-! ### Forwarding -/

/-- A route that matches an address, with a longest netmask of those that do. -/
structure BestRoute (routes : List Ipv4Route) (address : Ipv4Address) (route : Ipv4Route) :
    Prop where
  member : route ∈ routes
  usable : route.usable address = true
  longest : ∀ other ∈ routes, other.usable address = true →
    other.netmask.getNetmaskLength ≤ route.netmask.getNetmaskLength

/-- The gateway, or the destination itself if the route has none. -/
def nextHop (route : Ipv4Route) (address : Ipv4Address) : Ipv4Address :=
  if route.gateway.isUnspecified then address else route.gateway

namespace Network
variable {n : Nat}
variable {address : Ipv4Address} {d u : Fin n} {destination next : InterfaceInfo}

/-- A node sends packets for an address to another node. -/
def Hop (network : Network n) (routes : Fin n → List Ipv4Route) (address : Ipv4Address)
    (u v : Fin n) : Prop :=
  ∃ route interfaceInfo, BestRoute (routes u) address route ∧
    network.Adjacent u route.interfacePtr v interfaceInfo ∧
    interfaceInfo.address = nextHop route address

/-- There is a path whose links and nodes can be used. -/
def Reaches (network : Network n) (u v : Fin n) : Prop :=
  ∃ weight, weight ≠ ⊤ ∧ Path network.topology u v weight

/-- Every interface allows static routes. -/
def AllowsRoutes (network : Network n) : Prop :=
  ∀ v, ∀ interfaceInfo ∈ network.interfaceInfos v, interfaceInfo.addStaticRoute = true

/-- All nodes have routes. From each node that reaches the owner of an address, packets for it get
to the owner, over nodes that forward, without visiting a node twice, and they can go no other way.
A route to an address is one to an owner that can be reached. -/
def Delivers (network : Network n) (addDirectRoutes : Bool) : Prop :=
  ∃ routes : Fin n → List Ipv4Route,
    (∀ v, network.addStaticRoutes addDirectRoutes v = .ok (routes v)) ∧
    (∀ u v address, network.isBridgeNode u = false → network.Owns v address →
      u = v ∨ network.Reaches u v →
      ∃ path : List (Fin n), path.head? = some u ∧ path.getLast? = some v ∧ path.Nodup ∧
        path.IsChain (network.Hop routes address) ∧
        ∀ w ∈ path, w ≠ u → w ≠ v → network.topology.weight w ≠ ⊤) ∧
    (∀ u v w address, network.Hop routes address u v → network.Hop routes address u w → v = w) ∧
    (∀ u route address, route ∈ routes u → route.usable address = true →
      ∃ v, v ≠ u ∧ network.Owns v address ∧ network.Reaches u v)

/-! ### The table -/

/-- The routes that the configurator makes are equal if they compare as equal. -/
def Plain (route : Ipv4Route) : Prop :=
  route.adminDist = dUnknown ∧ route.source = none ∧ route.isValid = true

theorem plain_hostRoute (source next destination : InterfaceInfo) :
    Plain (hostRoute source next destination) := ⟨rfl, rfl, rfl⟩

theorem eq_of_routesEqual {rt route : Ipv4Route} (plain : Plain rt) (plain' : Plain route)
    (equal : routesEqual rt route = true) : rt = route := by
  obtain ⟨adminDist, source, valid⟩ := plain
  obtain ⟨adminDist', source', valid'⟩ := plain'
  simp only [routesEqual, Bool.and_eq_true, beq_iff_eq] at equal
  obtain ⟨⟨⟨⟨⟨⟨_, _⟩, _⟩, _⟩, _⟩, _⟩, _⟩ := equal
  cases rt
  cases route
  simp_all

theorem mem_addRoute {routes : List Ipv4Route} {route : Ipv4Route}
    (plain : ∀ rt ∈ routes, Plain rt) (plain' : Plain route) (rt : Ipv4Route) :
    rt ∈ addRoute true routes route ↔ rt ∈ routes ∨ rt = route := by
  unfold addRoute
  split
  next contained =>
    obtain ⟨found, member, equal⟩ := List.any_eq_true.mp contained
    have same := eq_of_routesEqual (plain found member) plain' equal
    exact ⟨.inl, fun either => either.elim id fun new => new ▸ same ▸ member⟩
  next =>
    simp only [Bool.not_true, Bool.false_and, Bool.false_eq_true, if_false, List.mem_append,
      List.mem_singleton]

theorem mem_addRoutes (source next : InterfaceInfo) (destinations : List InterfaceInfo)
    {routes : List Ipv4Route} (plain : ∀ rt ∈ routes, Plain rt) (rt : Ipv4Route) :
    rt ∈ destinations.foldl
        (fun routes destination => addRoute true routes (hostRoute source next destination))
        routes ↔
      rt ∈ routes ∨ ∃ destination ∈ destinations, rt = hostRoute source next destination := by
  induction destinations generalizing routes with
  | nil => simp only [List.foldl_nil, List.not_mem_nil, false_and, exists_false, or_false]
  | cons destination destinations ih =>
    have added := mem_addRoute plain (plain_hostRoute source next destination)
    have plain' : ∀ rt ∈ addRoute true routes (hostRoute source next destination), Plain rt := by
      intro rt member
      rcases (added rt).mp member with old | rfl
      · exact plain rt old
      · exact plain_hostRoute _ _ _
    rw [List.foldl_cons, ih plain', added, List.exists_mem_cons_iff, or_assoc]

/-! ### The routes of a node -/

section
variable {network : Network n} {s : Search n LinkInterfaces} {source d : Fin n}
  (wellFormed : network.WellFormed) (shortest : Shortest network.topology source s)

/-- A route to an interface of a node is in the table. -/
def RouteTo (network : Network n) (s : Search n LinkInterfaces) (source d : Fin n)
    (route : Ipv4Route) : Prop :=
  ∃ own next, Through network s source d own next ∧
    ∃ destination ∈ network.destinations d, route = hostRoute own next destination

include wellFormed shortest in
theorem addRoutesTo_returns (allowed : network.AllowsRoutes)
    (routes : network.isBridgeNode source = false) {table : List Ipv4Route}
    (plain : ∀ route ∈ table, Plain route) :
    ∃ table', network.addRoutesTo true s source table d = .ok table' ∧
      (∀ route ∈ table', Plain route) ∧
      ∀ route, route ∈ table' ↔ route ∈ table ∨ RouteTo network s source d route := by
  by_cases skipped : source = d ∨ s.outPath d = none ∨ network.isBridgeNode d = true
  · refine ⟨table, if_pos skipped, plain, fun route => ⟨.inl, fun either => either.elim id ?_⟩⟩
    rintro ⟨own, next, ⟨apart, known, node, _⟩, _⟩
    rcases skipped with same | unknown | bridge
    · exact absurd same apart
    · exact absurd unknown known
    · rw [node] at bridge
      cases bridge
  · have others := skipped
    rw [not_or, not_or, Bool.not_eq_true] at others
    obtain ⟨own, next, _, through, member, _⟩ :=
      exists_through wellFormed shortest routes others.1 others.2.1 others.2.2
    obtain ⟨_, _, _, link, found, at'⟩ := id through
    have added : network.addRoutesTo true s source table d =
        .ok (network.addRoutesThrough true d table own next) := by
      rw [addRoutesTo, if_neg skipped, found]
      dsimp only
      rw [at']
    have listed := mem_addRoutes own next (network.destinations d) plain
    refine ⟨_, added, fun route member' => ?_, fun route => ?_⟩
    all_goals rw [addRoutesThrough, if_pos (allowed _ own member)] at *
    · rcases (listed route).mp member' with old | ⟨destination, _, rfl⟩
      · exact plain route old
      · exact plain_hostRoute own next destination
    · rw [listed]
      refine or_congr_right ⟨fun new => ⟨own, next, through, new⟩, ?_⟩
      rintro ⟨own', next', through', new⟩
      obtain ⟨rfl, rfl⟩ := through.unique through'
      exact new

include wellFormed shortest in
theorem addRoutesToAll_returns (allowed : network.AllowsRoutes)
    (routes : network.isBridgeNode source = false) (nodes : List (Fin n)) :
    ∀ {table : List Ipv4Route}, (∀ route ∈ table, Plain route) →
      ∃ table', nodes.foldlM (network.addRoutesTo true s source) table = .ok table' ∧
        ∀ route, route ∈ table' ↔
          route ∈ table ∨ ∃ d ∈ nodes, RouteTo network s source d route := by
  induction nodes with
  | nil =>
    exact fun {table} _ => ⟨table, rfl, fun route => by simp only [List.not_mem_nil, false_and,
      exists_false, or_false]⟩
  | cons d nodes ih =>
    intro table plain
    obtain ⟨table', first, plain', added⟩ :=
      addRoutesTo_returns (d := d) wellFormed shortest allowed routes plain
    obtain ⟨table'', others, added'⟩ := ih plain'
    refine ⟨table'', ?_, fun route => ?_⟩
    · rw [List.foldlM_cons, first, ok_bind, others]
    · rw [added', added, List.exists_mem_cons_iff, or_assoc]

end

section
variable {network : Network n} (wellFormed : network.WellFormed)

/-- A node has exactly the routes that a search for it leads to. -/
structure Routed (network : Network n) (source : Fin n) (s : Search n LinkInterfaces)
    (table : List Ipv4Route) : Prop where
  shortest : Shortest network.topology source s
  routes : ∀ route, route ∈ table ↔
    network.isBridgeNode source = false ∧ ∃ d, RouteTo network s source d route

include wellFormed in
theorem addStaticRoutes_returns (allowed : network.AllowsRoutes) (source : Fin n) :
    ∃ s table, network.addStaticRoutes true source = .ok table ∧
      Routed network source s table := by
  obtain ⟨s, found, shortest⟩ :=
    calculateWeightedSingleShortestPathsTo_shortest wellFormed.weighted source
  cases routes : network.isBridgeNode source with
  | true =>
    refine ⟨s, [], if_pos routes, shortest, fun route => ?_⟩
    rw [routes]
    exact ⟨nofun, fun both => nomatch both.1⟩
  | false =>
    obtain ⟨table, added, listed⟩ := addRoutesToAll_returns wellFormed shortest allowed routes
      (List.finRange n) fun (_ : Ipv4Route) member => absurd member List.not_mem_nil
    refine ⟨s, table, ?_, shortest, fun route => ?_⟩
    · rw [addStaticRoutes, routes, if_neg Bool.false_ne_true, found, ok_bind, added]
    · rw [listed]
      simp only [List.not_mem_nil, false_or, List.mem_finRange, true_and, routes]

/-! ### Forwarding follows the paths -/

theorem usable_hostRoute {own : InterfaceInfo} :
    (hostRoute own next destination).usable address = true ↔ destination.address = address := by
  simp only [Ipv4Route.usable, hostRoute, Ipv4Address.maskedAddrAreEqual, Bool.true_and, beq_iff_eq]
  rw [show (0xffffffff#32) = BitVec.allOnes 32 from rfl, BitVec.and_allOnes]
  exact BitVec.xor_eq_zero_iff.trans eq_comm

theorem nextHop_hostRoute {own : InterfaceInfo} (specified : next.address ≠ 0) :
    nextHop (hostRoute own next destination) destination.address = next.address := by
  unfold nextHop hostRoute
  dsimp only
  by_cases same : next.address = destination.address
  · rw [if_neg (not_not.mpr same)]
    exact same.symm
  · rw [if_pos same]
    exact if_neg fun unspecified => specified (beq_iff_eq.mp unspecified)

theorem owns_of_mem_destinations
    (routes : network.isBridgeNode d = false) (member : destination ∈ network.destinations d) :
    network.Owns d destination.address := by
  obtain ⟨listed, external⟩ := List.mem_filter.mp member
  rw [Bool.and_eq_true, Bool.not_eq_true'] at external
  exact ⟨routes, destination, listed, external.1, rfl⟩

include wellFormed in
theorem Carries.owns {link : Link (Fin n) LinkInterfaces} {v : Fin n}
    (carries : network.Carries link v next)
    (listed : link ∈ network.topology.inLinks link.destNode) : network.Owns v next.address := by
  induction carries with
  | arrives routes there =>
    obtain ⟨found, member, external, there'⟩ := wellFormed.attached _ _ listed routes
    rw [there] at there'
    cases there'
    exact ⟨routes, _, member, external, rfl⟩
  | forwards _ listed' _ _ ih => exact ih listed'

include wellFormed in
theorem reaches_iff {s : Search n LinkInterfaces}
    (shortest : Shortest network.topology u s) (apart : d ≠ u) :
    network.Reaches u d ↔ s.dist d ≠ ⊤ := by
  have symmetric : network.topology.Symmetric := fun v link member =>
    have ⟨back, inside, source, same, _⟩ := wellFormed.back v link member
    ⟨back, inside, source, same⟩
  rw [shortest.dist_ne_top_iff wellFormed.weighted apart]
  exact ⟨fun ⟨cost, finite, path⟩ => ⟨cost, finite, path.reverse symmetric⟩,
    fun ⟨cost, finite, path⟩ => ⟨cost, finite, path.reverse symmetric⟩⟩

variable {routes : Fin n → List Ipv4Route} {search : Fin n → Search n LinkInterfaces}
  (routed : ∀ v, Routed network v (search v) (routes v))

include wellFormed routed in
/-- A node that is not the owner of an address, but has a path from it, sends packets for it to a
node whose path is shorter. -/
theorem exists_hop (node : network.isBridgeNode u = false)
    (owner : network.Owns d address) (apart : u ≠ d) (near : (search u).dist d ≠ ⊤) :
    ∃ v, network.Hop routes address u v ∧ network.isBridgeNode v = false ∧
      (search v).dist d < (search u).dist d ∧ (v ≠ d → network.topology.weight v ≠ ⊤) := by
  have shortest := (routed u).shortest
  obtain ⟨there, destination, listed, external, rfl⟩ := owner
  obtain ⟨out, found⟩ := shortest.reached d near apart.symm
  obtain ⟨own, next, v, through, _, adjacent, onward, other, node', member, external'⟩ :=
    exists_through wellFormed shortest node apart (found ▸ Option.some_ne_none out) there
  have specified := wellFormed.specified d there destination listed external
  have inside : destination ∈ network.destinations d := by
    refine List.mem_filter.mpr ⟨listed, ?_⟩
    rw [external]
    exact (Bool.not_eq_true' _).mpr (beq_eq_false_iff_ne.mpr specified)
  have route : hostRoute own next destination ∈ routes u :=
    ((routed u).routes _).mpr ⟨node, d, own, next, through, destination, inside, rfl⟩
  refine ⟨v, ⟨hostRoute own next destination, next, ⟨route, usable_hostRoute.mpr rfl, ?_⟩, adjacent,
    (nextHop_hostRoute (wellFormed.specified v node' next member external')).symm⟩, node',
    dist_nextHop_lt wellFormed shortest (routed v).shortest other onward near,
    weight_ne_top shortest onward other⟩
  -- All routes are host routes.
  intro route listed _
  obtain ⟨_, _, own', next', _, destination', _, rfl⟩ := ((routed u).routes route).mp listed
  exact le_rfl

include wellFormed routed in
theorem hop_unique {v w : Fin n}
    (first : network.Hop routes address u v) (second : network.Hop routes address u w) : v = w := by
  obtain ⟨route, next, best, ⟨link, listed, _, _, carries⟩, gateway⟩ := first
  obtain ⟨route', next', best', ⟨link', listed', _, _, carries'⟩, gateway'⟩ := second
  obtain ⟨_, d, own, hop, through, destination, member, rfl⟩ :=
    ((routed u).routes route).mp best.member
  obtain ⟨_, d', own', hop', through', destination', member', rfl⟩ :=
    ((routed u).routes route').mp best'.member
  have here := usable_hostRoute.mp best.usable
  have here' := usable_hostRoute.mp best'.usable
  have same : d = d' := by
    refine wellFormed.unique d d' address ?_ ?_
    · exact here ▸ owns_of_mem_destinations through.2.2.1 member
    · exact here' ▸ owns_of_mem_destinations through'.2.2.1 member'
  subst same
  obtain ⟨rfl, rfl⟩ := through.unique through'
  have equal : next.address = next'.address := by
    rw [gateway, gateway']
    simp only [nextHop, hostRoute, here, here']
  exact wellFormed.unique v w next.address (carries.owns wellFormed listed)
    (equal ▸ carries'.owns wellFormed listed')

end

/-! ### Two hosts on a switch -/

/-- For the numerals of nodes. -/
local instance neZero_nodes : NeZero 3 := ⟨by decide⟩

/-- The interface of one of the hosts, which are the nodes 0 and 2. -/
def host (addStaticRoute : Bool) (node : Fin 3) : InterfaceInfo where
  networkInterface := node
  address := 0x0a000001#32 + BitVec.ofNat 32 node
  addStaticRoute

/-- A link between the switch and a host, which is its other end. -/
def cable (addStaticRoute : Bool) (srcNode destNode : Fin 3) : Link (Fin 3) LinkInterfaces where
  srcNode
  destNode
  weight := 1
  info :=
    { sourceInterfaceInfo := if srcNode = 1 then none else some (host addStaticRoute srcNode)
      destinationInterfaceInfo :=
        if destNode = 1 then none else some (host addStaticRoute destNode) }

def switched (addStaticRoute : Bool) : Network 3 where
  topology :=
    { inLinks := fun v =>
        if v = 1 then [cable addStaticRoute 0 1, cable addStaticRoute 2 1]
        else [cable addStaticRoute 1 v]
      weight := fun _ => 0
      ends := by cases addStaticRoute <;> decide }
  isBridgeNode := fun v => v = 1
  interfaceInfos := fun v => if v = 1 then [] else [host addStaticRoute v]

theorem switched_wellFormed (addStaticRoute : Bool) : (switched addStaticRoute).WellFormed where
  weighted := ⟨by cases addStaticRoute <;> decide +kernel,
    by cases addStaticRoute <;> decide +kernel⟩
  back := by cases addStaticRoute <;> decide +kernel
  attached := by cases addStaticRoute <;> decide +kernel
  specified := by cases addStaticRoute <;> decide +kernel
  unique := by
    have apart : ∀ u v : Fin 3, ∀ first ∈ (switched addStaticRoute).interfaceInfos u,
        ∀ second ∈ (switched addStaticRoute).interfaceInfos v,
        first.address = second.address → u = v := by
      cases addStaticRoute <;> decide +kernel
    rintro u v address ⟨_, first, member, _, rfl⟩ ⟨_, second, member', _, same⟩
    exact apart u v first member second member' same.symm

theorem switched_reaches (addStaticRoute : Bool) : (switched addStaticRoute).Reaches 0 2 := by
  have first : Path (switched addStaticRoute).topology 0 1 1 :=
    @Path.link _ _ _ (cable addStaticRoute 0 1) List.mem_cons_self
  have second : Path (switched addStaticRoute).topology 1 2 1 :=
    @Path.link _ _ _ (cable addStaticRoute 1 2) List.mem_cons_self
  exact ⟨1 + 0 + 1, by decide +kernel, first.append second⟩

theorem switched_allowsRoutes : (switched true).AllowsRoutes := by
  unfold AllowsRoutes
  decide

theorem Delivers.exists_route {network : Network n} {addDirectRoutes : Bool}
    (holds : network.Delivers addDirectRoutes)
    (node : network.isBridgeNode u = false) (owner : network.Owns d address)
    (reaches : network.Reaches u d) (apart : u ≠ d) :
    ∃ table route, network.addStaticRoutes addDirectRoutes u = .ok table ∧ route ∈ table := by
  obtain ⟨routes, returned, ends, _⟩ := holds
  obtain ⟨path, head, last, _, chain, _⟩ := ends u d address node owner (.inr reaches)
  match path, head, last, chain with
  | [v], head, last, _ => exact absurd (Option.some_inj.mp (head.symm.trans last)) apart
  | v :: w :: _, head, _, chain =>
    obtain ⟨route, _, best, _⟩ := (List.isChain_cons_cons.mp chain).1
    cases head
    exact ⟨routes u, route, returned u, best.member⟩

end Network

end Inet.Configurator
