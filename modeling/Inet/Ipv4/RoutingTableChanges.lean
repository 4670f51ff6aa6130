import Inet.Ipv4.Ipv4RoutingTable

/-!
# The order of the routing table

What holds between the operations: the routes exist and stand by their rank, and a remembered
answer is the one a scan would give as long as its route is valid.
-/
namespace Inet.Ipv4

open Lib

variable {id : RouteId}

/-- The netmask is one, and the destination has no bits outside it. -/
structure Ipv4Route.Sound (route : Ipv4Route) : Prop where
  netmask : route.netmask.isValidNetmask = true
  dest : route.dest &&& ~~~route.netmask = 0

theorem Ipv4Route.sound_of_check {route : Ipv4Route} (checked : route.check = .ok ()) :
    route.Sound := by
  unfold Ipv4Route.check at checked
  split at checked
  · cases checked
  next netmask =>
    split at checked
    · cases checked
    · split at checked
      · cases checked
      next dest => exact ⟨by simpa using netmask, by simpa using dest⟩

namespace Ipv4RoutingTable

/-- The better of two routes has the smaller rank. -/
def rank (useAdminDist : Bool) (route : Ipv4Route) : ℤ ×ₗ ℕ ×ₗ ℕ ×ₗ ℤ :=
  toLex (-(route.netmask.toNat : ℤ), toLex (route.dest.toNat,
    toLex (if useAdminDist then route.adminDist else 0, route.metric)))

theorem routeLessThan_rank (useAdminDist : Bool) (a b : Ipv4Route) :
    routeLessThan useAdminDist a b = decide (rank useAdminDist a < rank useAdminDist b) := by
  unfold routeLessThan rank
  simp only [Prod.Lex.toLex_lt_toLex]
  by_cases netmask : a.netmask = b.netmask
  · by_cases dest : a.dest = b.dest
    · cases useAdminDist
      · simp [netmask, dest]
      · by_cases adminDist : a.adminDist = b.adminDist
        · simp [netmask, dest, adminDist]
        · simp [netmask, dest, adminDist]
    · have apart : a.dest.toNat ≠ b.dest.toNat := fun same => dest (BitVec.eq_of_toNat_eq same)
      simp [netmask, dest, apart]
  · have apart : a.netmask.toNat ≠ b.netmask.toNat := fun same =>
      netmask (BitVec.eq_of_toNat_eq same)
    simp [netmask, apart]

/-! ### Routes of the table -/

/-- The object of a route. -/
def route (table : Ipv4RoutingTable) (id : RouteId) : Ipv4Route := (table.heap id).getD {}

/-- The route of the table that a scan finds for a destination. -/
def best (table : Ipv4RoutingTable) (dest : Ipv4Address) : Option RouteId :=
  table.routes.find? fun id => (table.route id).usable dest

/-- A remembered answer. That of a route which is not valid is not used. -/
def Trusted (table : Ipv4RoutingTable) (dest : Ipv4Address) : Option RouteId → Prop
  | none => table.best dest = none
  | some id => id ∈ table.routes ∧
    Ipv4Address.maskedAddrAreEqual dest (table.route id).dest (table.route id).netmask = true ∧
    ((table.route id).isValid = true → table.best dest = some id)

structure Indexed (table : Ipv4RoutingTable) : Prop where
  nodup : table.routes.Nodup
  live : ∀ id ∈ table.routes, ∃ route, table.heap id = some route ∧ route.rt = true ∧ route.Sound
  sorted : Ranked (fun id => rank table.useAdminDist (table.route id)) table.routes
  cached : ∀ dest answer, table.routingCache dest = some answer → table.Trusted dest answer

variable {table after : Ipv4RoutingTable} {entry : RouteId} {object : Ipv4Route}

theorem route_eq (found : table.heap entry = some object) : table.route entry = object := by
  rw [route, found, Option.getD_some]

theorem deref_eq_ok : table.deref entry = .ok object ↔ table.heap entry = some object := by
  unfold deref
  cases table.heap entry <;> simp

theorem store_heap_other {object : Option Ipv4Route} (other : id ≠ entry) :
    (table.store entry object).heap id = table.heap id :=
  Function.update_of_ne other _ _

theorem store_heap_same (object : Option Ipv4Route) :
    (table.store entry object).heap entry = object := Function.update_self _ _ _

namespace Indexed

theorem start (useAdminDist : Bool) : Indexed { useAdminDist } where
  nodup := .nil
  live := by simp
  sorted := .nil
  cached := nofun

theorem heap_eq (indexed : Indexed table) (member : id ∈ table.routes) :
    table.heap id = some (table.route id) := by
  obtain ⟨route, found, _⟩ := indexed.live id member
  rw [found, route_eq found]

theorem deref_ok (indexed : Indexed table) (member : id ∈ table.routes) :
    table.deref id = .ok (table.route id) := deref_eq_ok.mpr (indexed.heap_eq member)

theorem sound (indexed : Indexed table) (member : id ∈ table.routes) :
    (table.route id).Sound := by
  obtain ⟨route, found, _, sound⟩ := indexed.live id member
  rw [route_eq found]
  exact sound

end Indexed

/-! ### The scan -/

theorem firstMatch_ok (dest : Ipv4Address) {ids : List RouteId}
    (live : ∀ id ∈ ids, table.deref id = .ok (table.route id)) :
    table.firstMatch dest ids = .ok (ids.find? fun id => (table.route id).usable dest) := by
  induction ids with
  | nil => rfl
  | cons id rest ih =>
    rw [firstMatch, live id List.mem_cons_self, ok_bind, List.find?_cons]
    cases (table.route id).usable dest with
    | true => rfl
    | false => exact ih fun other member => live other (.tail _ member)

/-- A remembered answer is right. -/
theorem trusted_best (table : Ipv4RoutingTable) (dest : Ipv4Address) :
    table.Trusted dest (table.best dest) := by
  cases found : table.best dest with
  | none => exact found
  | some id =>
    have usable := List.find?_some found
    rw [Ipv4Route.usable, Bool.and_eq_true] at usable
    exact ⟨List.mem_of_find?_eq_some found, usable.2, fun _ => found⟩

theorem Indexed.scan_ok (indexed : Indexed table) (dest : Ipv4Address) :
    ∃ after, table.scan dest = .ok (table.best dest, after) ∧ Indexed after := by
  refine ⟨{ table with
    routingCache := Function.update table.routingCache dest (some (table.best dest)) }, ?_, ?_⟩
  · rw [scan, firstMatch_ok dest fun id member => indexed.deref_ok member, ok_bind]
    rfl
  · refine ⟨indexed.nodup, indexed.live, indexed.sorted, ?_⟩
    intro d answer remembered
    simp only [Function.update_apply] at remembered
    split at remembered
    next same =>
      cases remembered
      exact same ▸ trusted_best table d
    · exact indexed.cached d answer remembered

/-- A lookup returns the route of a scan, from the cache or not. -/
theorem Indexed.findBestMatchingRoute_ok (indexed : Indexed table) (dest : Ipv4Address) :
    ∃ after, table.findBestMatchingRoute dest = .ok (table.best dest, after) ∧ Indexed after := by
  unfold findBestMatchingRoute
  cases remembered : table.routingCache dest with
  | none => exact indexed.scan_ok dest
  | some answer =>
    have trusted := indexed.cached dest answer remembered
    cases answer with
    | none =>
      have nothing : table.best dest = none := trusted
      exact ⟨table, by rw [nothing]; rfl, indexed⟩
    | some id =>
      obtain ⟨member, _, holds⟩ := trusted
      simp only [indexed.deref_ok member, ok_bind]
      by_cases valid : (table.route id).isValid = true
      · rw [if_pos valid, holds valid]
        exact ⟨table, rfl, indexed⟩
      · rw [if_neg valid]
        exact indexed.scan_ok dest

end Ipv4RoutingTable

end Inet.Ipv4

/-!
## Additions, removals and changes keep the order

A change of a field by which the routes are sorted puts the route at its new place. Changes that
the table does not learn of have to leave the order and the remembered answers as they are.
-/
namespace Inet.Ipv4.Ipv4RoutingTable

open Lib

variable {table after : Ipv4RoutingTable} {entry : RouteId} {object : Ipv4Route}

/-- Nothing is different for the table except fields that no lookup depends on. -/
structure SameFor (useAdminDist : Bool) (a b : Ipv4Route) : Prop where
  rt : b.rt = a.rt
  dest : b.dest = a.dest
  netmask : b.netmask = a.netmask
  adminDist : useAdminDist = true → b.adminDist = a.adminDist
  metric : b.metric = a.metric
  isValid : b.isValid = a.isValid

namespace SameFor

variable {useAdminDist : Bool} {a b : Ipv4Route}

protected theorem rfl : SameFor useAdminDist a a := ⟨rfl, rfl, rfl, fun _ => rfl, rfl, rfl⟩

theorem rank (same : SameFor useAdminDist a b) : rank useAdminDist b = rank useAdminDist a := by
  unfold Ipv4RoutingTable.rank
  rw [same.netmask, same.dest, same.metric]
  cases useAdminDist with
  | false => rfl
  | true => rw [same.adminDist rfl]

theorem usable (same : SameFor useAdminDist a b) (dest : Ipv4Address) :
    b.usable dest = a.usable dest := by
  unfold Ipv4Route.usable
  rw [same.isValid, same.dest, same.netmask]

theorem sound (same : SameFor useAdminDist a b) (sound : a.Sound) : b.Sound := by
  obtain ⟨netmask, dest⟩ := sound
  exact ⟨same.netmask ▸ netmask, by rw [same.dest, same.netmask]; exact dest⟩

end SameFor

theorem best_congr (routes : after.routes = table.routes) (dest : Ipv4Address)
    (each : ∀ id ∈ table.routes, (after.route id).usable dest = (table.route id).usable dest) :
    after.best dest = table.best dest := by
  unfold best
  rw [routes, ← List.head?_filter, ← List.head?_filter, List.filter_congr each]

theorem Trusted.congr {dest : Ipv4Address} {answer : Option RouteId}
    (trusted : table.Trusted dest answer) (routes : after.routes = table.routes)
    (each : ∀ id ∈ table.routes, SameFor false (table.route id) (after.route id)) :
    after.Trusted dest answer := by
  have same := best_congr routes dest fun id member => (each id member).usable dest
  cases answer with
  | none => exact same.trans trusted
  | some id =>
    obtain ⟨member, matching, holds⟩ := trusted
    have equal := each id member
    refine ⟨routes ▸ member, ?_, fun valid => same.trans (holds (equal.isValid ▸ valid))⟩
    rw [equal.dest, equal.netmask]
    exact matching

theorem Indexed.congr (indexed : Indexed table)
    (useAdminDist : after.useAdminDist = table.useAdminDist)
    (routes : after.routes = table.routes) (cache : after.routingCache = table.routingCache)
    (each : ∀ id ∈ table.routes, ∃ object, after.heap id = some object ∧
      SameFor table.useAdminDist (table.route id) object) : Indexed after := by
  have same (id : RouteId) (member : id ∈ table.routes) :
      SameFor table.useAdminDist (table.route id) (after.route id) := by
    obtain ⟨object, found, same⟩ := each id member
    rw [route_eq found]
    exact same
  refine ⟨routes ▸ indexed.nodup, ?_, ?_, ?_⟩
  · intro id member
    rw [routes] at member
    obtain ⟨route, found, inTable, sound⟩ := indexed.live id member
    obtain ⟨object, stored, same⟩ := each id member
    rw [route_eq found] at same
    exact ⟨object, stored, same.rt.trans inTable, same.sound sound⟩
  · rw [routes, useAdminDist]
    refine List.Pairwise.imp_of_mem ?_ indexed.sorted
    intro a b first second le
    simpa only [(same a first).rank, (same b second).rank] using le
  · intro dest answer remembered
    rw [cache] at remembered
    exact (indexed.cached dest answer remembered).congr routes fun id member =>
      { same id member with adminDist := nofun }

/-- An object that is not in the table is made, changed or deleted. -/
theorem Indexed.store_outside (indexed : Indexed table) (outside : entry ∉ table.routes)
    (object : Option Ipv4Route) : Indexed (table.store entry object) := by
  refine indexed.congr rfl rfl rfl ?_
  intro id member
  have other : id ≠ entry := fun same => outside (same ▸ member)
  exact ⟨table.route id, (store_heap_other other).trans (indexed.heap_eq member), .rfl⟩

/-- A new object is not in the table. -/
theorem Indexed.new (indexed : Indexed table) (made : table.new entry object = .ok after) :
    entry ∉ table.routes ∧ after = table.store entry (some object) := by
  unfold Ipv4RoutingTable.new at made
  split at made
  · cases made
  next free =>
    cases made
    refine ⟨fun member => ?_, rfl⟩
    obtain ⟨route, found, _⟩ := indexed.live entry member
    rw [free] at found
    cases found

theorem Indexed.erase (indexed : Indexed table) (entry : RouteId) : Indexed (table.erase entry) where
  nodup := indexed.nodup.erase entry
  live := fun id member => indexed.live id (List.mem_of_mem_erase member)
  sorted := indexed.sorted.sublist List.erase_sublist
  cached := nofun

theorem Indexed.outside_erase (indexed : Indexed table) (entry : RouteId) :
    entry ∉ (table.erase entry).routes := indexed.nodup.not_mem_erase

/-! ### Removals -/

theorem internalRemoveRoute_cases (table : Ipv4RoutingTable) (entry : RouteId) :
    (entry ∉ table.routes ∧ table.internalRemoveRoute entry = none) ∨
      (entry ∈ table.routes ∧ table.internalRemoveRoute entry = some (table.erase entry)) := by
  unfold internalRemoveRoute
  by_cases member : entry ∈ table.routes
  · exact .inr ⟨member, if_pos member⟩
  · exact .inl ⟨member, if_neg member⟩

theorem Indexed.removeRoute (indexed : Indexed table) {found : Bool}
    (returned : table.removeRoute entry = .ok (found, after)) : Indexed after := by
  unfold Ipv4RoutingTable.removeRoute at returned
  rcases table.internalRemoveRoute_cases entry with ⟨_, removal⟩ | ⟨_, removal⟩
  · rw [removal] at returned
    cases returned
    exact indexed
  · rw [removal] at returned
    obtain ⟨route, _, returned⟩ := bind_eq_ok.mp returned
    cases returned
    exact (indexed.erase entry).store_outside (indexed.outside_erase entry) _

/-- A deletion leaves the objects that are not in the table. -/
theorem Indexed.deleteRoute (indexed : Indexed table) {found : Bool}
    (returned : table.deleteRoute entry = .ok (found, after)) :
    Indexed after ∧ ∀ id ∉ table.routes, id ∉ after.routes ∧ after.heap id = table.heap id := by
  unfold Ipv4RoutingTable.deleteRoute at returned
  rcases table.internalRemoveRoute_cases entry with ⟨_, removal⟩ | ⟨member, removal⟩
  · rw [removal] at returned
    cases returned
    exact ⟨indexed, fun id outside => ⟨outside, rfl⟩⟩
  · rw [removal] at returned
    obtain ⟨route, _, returned⟩ := bind_eq_ok.mp returned
    cases returned
    refine ⟨(indexed.erase entry).store_outside (indexed.outside_erase entry) _, ?_⟩
    intro id outside
    have other : id ≠ entry := fun same => outside (same ▸ member)
    exact ⟨fun stays => outside (List.mem_of_mem_erase stays), store_heap_other other⟩

theorem Indexed.deleteIf {condition : Ipv4Route → Bool} (indexed : Indexed table)
    (returned : table.deleteIf condition entry = .ok after) : Indexed after := by
  unfold Ipv4RoutingTable.deleteIf at returned
  obtain ⟨route, _, returned⟩ := bind_eq_ok.mp returned
  split at returned
  · obtain ⟨_, _, returned⟩ := bind_eq_ok.mp returned
    cases returned
    exact (indexed.erase entry).store_outside (indexed.outside_erase entry) _
  · cases returned
    exact indexed

/-! ### Additions -/

/-- A route that points to the table is inserted at its rank. -/
theorem Indexed.inserted (indexed : Indexed table) (outside : entry ∉ table.routes)
    (found : table.heap entry = some object) (inTable : object.rt = true) (sound : object.Sound)
    {position : Nat} (inside : position ≤ table.routes.length)
    (below : ∀ id ∈ table.routes.take position,
      rank table.useAdminDist (table.route id) ≤ rank table.useAdminDist object)
    (beyond : ∀ id ∈ table.routes.drop position,
      rank table.useAdminDist object < rank table.useAdminDist (table.route id)) :
    Indexed { table with routes := table.routes.insertIdx position entry }.invalidateCache where
  nodup := (List.perm_insertIdx entry table.routes inside).nodup_iff.mpr
    (List.nodup_cons.mpr ⟨outside, indexed.nodup⟩)
  live := by
    intro id member
    rcases (List.mem_insertIdx inside).mp member with rfl | member
    · exact ⟨object, found, inTable, sound⟩
    · exact indexed.live id member
  sorted := by
    rw [← route_eq found] at below beyond
    exact indexed.sorted.insertIdx inside below beyond
  cached := nofun

/-- A route from outside is inserted. -/
theorem Indexed.insertRoute (indexed : Indexed table) (outside : entry ∉ table.routes)
    (found : table.heap entry = some object) (sound : object.Sound)
    (returned : table.insertRoute entry = .ok after) : Indexed after := by
  have range : table.routes.mapM table.deref = .ok (table.routes.map table.route) := by
    refine mapM_eq_ok.mpr (List.forall₂_map_right_iff.mpr ?_)
    exact List.forall₂_same.mpr fun id member => indexed.deref_ok member
  have ranked : Ranked (rank table.useAdminDist) (table.routes.map table.route) :=
    List.pairwise_map.mpr indexed.sorted
  obtain ⟨position, inside, upper, below, beyond⟩ :=
    upperBound_ok "the routes are not in order" object (routeLessThan_rank table.useAdminDist) ranked
  rw [List.length_map] at inside
  rw [← List.map_take, List.forall_mem_map] at below
  rw [← List.map_drop, List.forall_mem_map] at beyond
  unfold Ipv4RoutingTable.insertRoute at returned
  rw [deref_eq_ok.mpr found, ok_bind, range, ok_bind, upper, ok_bind] at returned
  cases returned
  -- That the route points to the table changes nothing in the order.
  let stored := table.store entry (some { object with rt := true })
  have same (id : RouteId) (member : id ∈ table.routes) : stored.route id = table.route id := by
    have other : id ≠ entry := fun equal => outside (equal ▸ member)
    exact congrArg (·.getD {}) (store_heap_other other)
  refine (indexed.store_outside outside (some { object with rt := true })).inserted outside
    (store_heap_same _) rfl ⟨sound.netmask, sound.dest⟩ inside ?_ ?_
  · intro id member
    rw [same id (List.mem_of_mem_take member)]
    exact below id member
  · intro id member
    rw [same id (List.mem_of_mem_drop member)]
    exact beyond id member

theorem Indexed.replaceDefaultRoute (indexed : Indexed table)
    (returned : table.replaceDefaultRoute object = .ok after) :
    Indexed after ∧ ∀ id ∉ table.routes, id ∉ after.routes ∧ after.heap id = table.heap id := by
  unfold Ipv4RoutingTable.replaceDefaultRoute at returned
  split at returned
  · obtain ⟨oldDefaultRoute, _, returned⟩ := bind_eq_ok.mp returned
    cases oldDefaultRoute with
    | none =>
      cases returned
      exact ⟨indexed, fun id outside => ⟨outside, rfl⟩⟩
    | some id =>
      obtain ⟨⟨found, deleted⟩, deletion, returned⟩ := bind_eq_ok.mp returned
      cases returned
      exact indexed.deleteRoute deletion
  · cases returned
    exact ⟨indexed, fun id outside => ⟨outside, rfl⟩⟩

theorem Indexed.internalAddRoute (indexed : Indexed table) (outside : entry ∉ table.routes)
    (returned : table.internalAddRoute entry = .ok after) : Indexed after := by
  unfold Ipv4RoutingTable.internalAddRoute at returned
  obtain ⟨object, dereferenced, returned⟩ := bind_eq_ok.mp returned
  have found := deref_eq_ok.mp dereferenced
  obtain ⟨⟨⟩, checked, returned⟩ := bind_eq_ok.mp returned
  have sound := Ipv4Route.sound_of_check checked
  obtain ⟨between, replaced, returned⟩ := bind_eq_ok.mp returned
  obtain ⟨indexed, others⟩ := indexed.replaceDefaultRoute replaced
  obtain ⟨outside, same⟩ := others entry outside
  exact indexed.insertRoute outside (same.trans found) sound returned

/-- The destination of a route to the network of an interface is masked. -/
theorem netmaskRoute_masked {ie : NetworkInterface} {route : Ipv4Route}
    (added : ie.netmaskRoute = some route) : route.dest &&& ~~~route.netmask = 0 := by
  unfold NetworkInterface.netmaskRoute at added
  split at added
  · split at added
    · split at added
      · cases added
        simp [BitVec.and_assoc]
      · cases added
    · cases added
  · cases added

/-- The routes of interfaces are added without the checks, which they pass if the netmask is
one. -/
theorem Indexed.addNetmaskRoute (indexed : Indexed table) {ie : NetworkInterface × RouteId}
    (netmask : ∀ route, ie.1.netmaskRoute = some route → route.netmask.isValidNetmask = true)
    (returned : addNetmaskRoute table ie = .ok after) : Indexed after := by
  unfold Ipv4RoutingTable.addNetmaskRoute at returned
  cases added : ie.1.netmaskRoute with
  | none =>
    rw [added] at returned
    cases returned
    exact indexed
  | some object =>
    rw [added] at returned
    obtain ⟨between, made, returned⟩ := bind_eq_ok.mp returned
    obtain ⟨outside, rfl⟩ := indexed.new made
    exact (indexed.store_outside outside (some object)).insertRoute outside
      (store_heap_same _) ⟨netmask object added, netmaskRoute_masked added⟩ returned

end Inet.Ipv4.Ipv4RoutingTable
