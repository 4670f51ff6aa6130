import Inet.Ipv4.RoutingTableChanges

/-!
# The routing table finds the best route

Runs of a routing table in which no change that the table does not learn of moves a route in the
order or makes a route better than a remembered answer. In all others a lookup may return a route
that is not the best one, or none at all.
-/
namespace Inet.Ipv4

open Lib

variable {dest : Ipv4Address} {id : RouteId} {α : Type}

/-! ### Calls -/

inductive FieldChange
  | destination (dest : Ipv4Address)
  | netmask (netmask : Ipv4Address)
  | gateway (gateway : Ipv4Address)
  | interface (interfacePtr : Option Nat)
  | sourceType (sourceType : SourceType)
  | adminDist (adminDist : Nat)
  | metric (metric : Int)
  | source (source : Option Nat)

def FieldChange.setter : FieldChange → Ipv4Route → Ipv4Route.Changed
  | .destination value => Ipv4Route.setDestination value
  | .netmask value => Ipv4Route.setNetmask value
  | .gateway value => Ipv4Route.setGateway value
  | .interface value => Ipv4Route.setInterface value
  | .sourceType value => Ipv4Route.setSourceType value
  | .adminDist value => Ipv4Route.setAdminDist value
  | .metric value => Ipv4Route.setMetric value
  | .source value => Ipv4Route.setSource value

inductive RoutingCall
  /-- Somebody makes a route object. -/
  | newRoute (entry : RouteId)
  | addRoute (entry : RouteId)
  | removeRoute (entry : RouteId)
  | deleteRoute (entry : RouteId)
  | change (entry : RouteId) (field : FieldChange)
  | setValid (entry : RouteId) (isValid : Bool)
  | purge
  | updateNetmaskRoutes (interfaces : List (NetworkInterface × RouteId))
  | findBestMatchingRoute (dest : Ipv4Address)

namespace Ipv4RoutingTable

def apply (table : Ipv4RoutingTable) : RoutingCall → Except String Ipv4RoutingTable
  | .newRoute entry => table.new entry {}
  | .addRoute entry => table.addRoute entry
  | .removeRoute entry => do return (← table.removeRoute entry).2
  | .deleteRoute entry => do return (← table.deleteRoute entry).2
  | .change entry field => table.change entry field.setter
  | .setValid entry isValid => table.setValid entry isValid
  | .purge => table.purge
  | .updateNetmaskRoutes interfaces => table.updateNetmaskRoutes interfaces
  | .findBestMatchingRoute dest => do return (← table.findBestMatchingRoute dest).2

/-! ### What the table has to be told -/

/-- The first route stands before the second one. -/
def Before (table : Ipv4RoutingTable) (a b : RouteId) : Prop :=
  ∃ front back, table.routes = front ++ a :: back ∧ b ∈ back

/-- The object is in order with those before and behind its place. -/
def InPlace (table : Ipv4RoutingTable) (entry : RouteId) (object : Ipv4Route) : Prop :=
  (∀ other, table.Before other entry →
    routeLessThan table.useAdminDist object (table.route other) = false) ∧
  ∀ other, table.Before entry other →
    routeLessThan table.useAdminDist (table.route other) object = false

/-- No remembered answer is worse than a route that becomes valid: it is that route, with no usable
one before it, or a route that stands before it, or one that is not used. -/
def NoneWorse (table : Ipv4RoutingTable) (entry : RouteId) : Prop :=
  ∀ dest answer, table.routingCache dest = some answer →
    Ipv4Address.maskedAddrAreEqual dest (table.route entry).dest (table.route entry).netmask →
    ∃ id, answer = some id ∧
      (id = entry → ∀ other, table.Before other entry → (table.route other).usable dest = false) ∧
      (id ≠ entry → (table.route id).isValid = true → table.Before id entry)

/-- The calls after which the order and the remembered answers are right. -/
def Keeps (table : Ipv4RoutingTable) : RoutingCall → Prop
  | .addRoute entry => entry ∉ table.routes
  | .change entry (.adminDist adminDist) => table.useAdminDist = true → entry ∈ table.routes →
    table.InPlace entry { table.route entry with adminDist }
  | .setValid entry true => entry ∈ table.routes → table.NoneWorse entry
  | .updateNetmaskRoutes interfaces => ∀ ie ∈ interfaces, ∀ route,
    ie.1.netmaskRoute = some route → route.netmask.isValidNetmask = true
  | _ => True

/-- The tables that such calls lead to. -/
inductive Reached (useAdminDist : Bool) : Ipv4RoutingTable → Prop
  | start : Reached useAdminDist { useAdminDist }
  | call {table after : Ipv4RoutingTable} (call : RoutingCall) :
      Reached useAdminDist table → table.Keeps call → table.apply call = .ok after →
      Reached useAdminDist after

variable {table after : Ipv4RoutingTable} {entry : RouteId} {object : Ipv4Route}

/-! ### Changes of fields -/

theorem setField_cases [DecidableEq α] (get : Ipv4Route → α)
    (put : α → Ipv4Route → Ipv4Route) (fieldCode : ChangeCodes) (value : α) (route : Ipv4Route) :
    Ipv4Route.setField get put fieldCode value route = (route, none) ∨
      Ipv4Route.setField get put fieldCode value route = (put value route, some fieldCode) := by
  unfold Ipv4Route.setField
  split
  · exact .inr rfl
  · exact .inl rfl

theorem before_of_front {front back : List RouteId}
    (routes : table.routes = front ++ entry :: back) (member : id ∈ front) :
    table.Before id entry := by
  obtain ⟨first, rest, rfl⟩ := List.append_of_mem member
  exact ⟨first, rest ++ entry :: back, by rw [routes]; simp, by simp⟩

/-- A route that is not in the table does not point to it. -/
theorem Indexed.outside (indexed : Indexed table) (found : table.heap entry = some object)
    (apart : object.rt = false) : entry ∉ table.routes := by
  intro member
  obtain ⟨route, same, inTable, _⟩ := indexed.live entry member
  rw [found] at same
  cases same
  rw [apart] at inTable
  cases inTable

theorem Indexed.store_same (indexed : Indexed table) {next : Ipv4Route}
    (found : table.heap entry = some object) (same : SameFor table.useAdminDist object next) :
    Indexed (table.store entry (some next)) := by
  refine indexed.congr rfl rfl rfl ?_
  intro id member
  by_cases equal : id = entry
  · subst equal
    exact ⟨next, store_heap_same _, route_eq found ▸ same⟩
  · exact ⟨_, (store_heap_other equal).trans (indexed.heap_eq member), .rfl⟩

/-- A field by which no route is sorted and found. -/
theorem Indexed.change_same [DecidableEq α] {get : Ipv4Route → α}
    {put : α → Ipv4Route → Ipv4Route} {fieldCode : ChangeCodes} {value : α}
    (indexed : Indexed table) (same : ∀ route, SameFor table.useAdminDist route (put value route))
    (stays : ¬(fieldCode = .F_DESTINATION ∨ fieldCode = .F_PREFIX_LENGTH ∨ fieldCode = .F_METRIC))
    (returned : table.change entry (Ipv4Route.setField get put fieldCode value) = .ok after) :
    Indexed after := by
  unfold Ipv4RoutingTable.change at returned
  obtain ⟨route, dereferenced, returned⟩ := bind_eq_ok.mp returned
  have found := deref_eq_ok.mp dereferenced
  rcases setField_cases get put fieldCode value route with changed | changed
  · rw [changed] at returned
    cases returned
    exact indexed.store_same found .rfl
  · simp only [changed, routeChanged, if_neg stays, ite_self] at returned
    cases returned
    exact indexed.store_same found (same route)

/-- A field by which the routes are sorted. -/
theorem Indexed.change_sorted [DecidableEq α] {get : Ipv4Route → α}
    {put : α → Ipv4Route → Ipv4Route} {fieldCode : ChangeCodes} {value : α}
    (indexed : Indexed table) (inTable : ∀ route, (put value route).rt = route.rt)
    (sorts : fieldCode = .F_DESTINATION ∨ fieldCode = .F_PREFIX_LENGTH ∨ fieldCode = .F_METRIC)
    (returned : table.change entry (Ipv4Route.setField get put fieldCode value) = .ok after) :
    Indexed after := by
  unfold Ipv4RoutingTable.change at returned
  obtain ⟨route, dereferenced, returned⟩ := bind_eq_ok.mp returned
  have found := deref_eq_ok.mp dereferenced
  rcases setField_cases get put fieldCode value route with changed | changed
  · rw [changed] at returned
    cases returned
    exact indexed.store_same found .rfl
  · simp only [changed, inTable, routeChanged, if_pos sorts] at returned
    split at returned
    · rcases internalRemoveRoute_cases (table.store entry (some (put value route))) entry with
        ⟨_, removal⟩ | ⟨_, removal⟩
      · rw [removal] at returned
        cases returned
      · rw [removal] at returned
        -- The table without the route is that before the change, which the route was put into.
        exact ((indexed.erase entry).store_outside (indexed.outside_erase entry) _).internalAddRoute
          (indexed.outside_erase entry) returned
    next apart =>
      cases returned
      exact indexed.store_outside (indexed.outside found (by simpa using apart)) _

/-- The place of a route is right for an object with another administrative distance. -/
theorem Indexed.change_inPlace (indexed : Indexed table) (member : entry ∈ table.routes)
    {next : Ipv4Route} (same : SameFor false (table.route entry) next)
    (inPlace : table.InPlace entry next) : Indexed (table.store entry (some next)) := by
  have other {id : RouteId} (apart : id ≠ entry) :
      (table.store entry (some next)).route id = table.route id :=
    congrArg (·.getD {}) (store_heap_other apart)
  have changed : (table.store entry (some next)).route entry = next :=
    route_eq (store_heap_same _)
  have each (id : RouteId) :
      SameFor false (table.route id) ((table.store entry (some next)).route id) := by
    by_cases equal : id = entry
    · subst equal
      rw [changed]
      exact same
    · rw [other equal]
      exact .rfl
  refine ⟨indexed.nodup, ?_, ?_, ?_⟩
  · intro id inside
    by_cases equal : id = entry
    · subst equal
      obtain ⟨route, found, inTable, sound⟩ := indexed.live id member
      rw [route_eq found] at same
      exact ⟨next, store_heap_same _, same.rt.trans inTable, same.sound sound⟩
    · obtain ⟨route, found, known⟩ := indexed.live id inside
      exact ⟨route, (store_heap_other equal).trans found, known⟩
  · obtain ⟨front, back, split⟩ := List.append_of_mem member
    have sorted := indexed.sorted
    have nodup := indexed.nodup
    rw [split] at sorted nodup
    show Ranked _ table.routes
    rw [split]
    refine sorted.rerank nodup (fun id apart => ?_) (fun id before => ?_) fun id behind => ?_
    · exact congrArg (rank table.useAdminDist) (other apart)
    · have order := inPlace.1 id (before_of_front split before)
      rw [routeLessThan_rank, decide_eq_false_iff_not, not_lt] at order
      exact order.trans_eq (congrArg (rank table.useAdminDist) changed.symm)
    · have order := inPlace.2 id ⟨front, back, split, behind⟩
      rw [routeLessThan_rank, decide_eq_false_iff_not, not_lt] at order
      exact (congrArg (rank table.useAdminDist) changed).trans_le order
  · exact fun dest answer remembered =>
      (indexed.cached dest answer remembered).congr rfl fun id _ => each id

/-- The administrative distance, of which the table is not told in a way that moves the route. -/
theorem Indexed.change_adminDist {adminDist : Nat} (indexed : Indexed table)
    (keeps : table.useAdminDist = true → entry ∈ table.routes →
      table.InPlace entry { table.route entry with adminDist })
    (returned : table.change entry (Ipv4Route.setAdminDist adminDist) = .ok after) :
    Indexed after := by
  cases uses : table.useAdminDist with
  | false =>
    refine indexed.change_same (fun route => ?_) (by decide) returned
    exact ⟨rfl, rfl, rfl, fun used => absurd (uses ▸ used) (by decide), rfl, rfl⟩
  | true =>
    unfold Ipv4RoutingTable.change at returned
    obtain ⟨route, dereferenced, returned⟩ := bind_eq_ok.mp returned
    have found := deref_eq_ok.mp dereferenced
    unfold Ipv4Route.setAdminDist at returned
    rcases setField_cases (·.adminDist) (fun adminDist route => { route with adminDist })
      .F_ADMINDIST adminDist route with changed | changed
    · rw [changed] at returned
      cases returned
      exact indexed.store_same found .rfl
    · simp only [changed, routeChanged, reduceCtorEq, or_self, if_false, ite_self] at returned
      cases returned
      by_cases member : entry ∈ table.routes
      · have inPlace := keeps uses member
        rw [route_eq found] at inPlace
        refine indexed.change_inPlace member ?_ inPlace
        rw [route_eq found]
        exact ⟨rfl, rfl, rfl, nofun, rfl, rfl⟩
      · exact indexed.store_outside member _

theorem Indexed.change (indexed : Indexed table) {field : FieldChange}
    (keeps : table.Keeps (.change entry field))
    (returned : table.change entry field.setter = .ok after) : Indexed after := by
  have same {put : Ipv4Route → Ipv4Route} (each : ∀ route, put route = { route with
      gateway := (put route).gateway, interfacePtr := (put route).interfacePtr
      sourceType := (put route).sourceType, source := (put route).source }) (route : Ipv4Route) :
      SameFor table.useAdminDist route (put route) := by
    rw [each]
    exact ⟨rfl, rfl, rfl, fun _ => rfl, rfl, rfl⟩
  cases field with
  | destination dest => exact indexed.change_sorted (fun _ => rfl) (by decide) returned
  | netmask netmask => exact indexed.change_sorted (fun _ => rfl) (by decide) returned
  | metric metric => exact indexed.change_sorted (fun _ => rfl) (by decide) returned
  | gateway gateway => exact indexed.change_same (same fun _ => rfl) (by decide) returned
  | interface interfacePtr => exact indexed.change_same (same fun _ => rfl) (by decide) returned
  | sourceType sourceType => exact indexed.change_same (same fun _ => rfl) (by decide) returned
  | source source => exact indexed.change_same (same fun _ => rfl) (by decide) returned
  | adminDist adminDist => exact indexed.change_adminDist keeps returned

/-! ### Changes of validity -/

theorem best_eq_some :
    table.best dest = some id ↔ (table.route id).usable dest = true ∧
      ∃ front back, table.routes = front ++ id :: back ∧
        ∀ other ∈ front, (table.route other).usable dest = false := by
  simp only [best, List.find?_eq_some_iff_append, Bool.not_eq_true']

/-- A route that stands behind another one is not among those before it. -/
theorem not_front_of_before {front back : List RouteId}
    (nodup : table.routes.Nodup) (split : table.routes = front ++ id :: back)
    (before : table.Before id entry) : entry ∉ front := by
  obtain ⟨front', back', split', member⟩ := before
  rw [split, List.nodup_append, List.nodup_cons] at nodup
  obtain ⟨_, ⟨notBack, _⟩, apart⟩ := nodup
  have notFront : id ∉ front := fun member => apart id member id List.mem_cons_self rfl
  obtain ⟨_, _, rfl⟩ :=
    (List.append_cons_inj_of_notMem notFront notBack).mp (split.symm.trans split')
  exact fun inside => apart entry inside entry (.tail _ member) rfl

/-- A route is found as before if the one that has changed is not usable or stands behind it. -/
theorem best_of_change (nodup : table.routes.Nodup)
    (found : table.best dest = some id) (routes : after.routes = table.routes)
    (each : ∀ other, other ≠ entry → after.route other = table.route other) (apart : id ≠ entry)
    (unusable : entry ∈ table.routes →
      (after.route entry).usable dest = false ∨ table.Before id entry) :
    after.best dest = some id := by
  obtain ⟨usable, front, back, split, none⟩ := best_eq_some.mp found
  refine best_eq_some.mpr ⟨each id apart ▸ usable, front, back, routes.trans split, ?_⟩
  intro other member
  by_cases same : other = entry
  · subst same
    rcases unusable (split ▸ List.mem_append_left _ member) with unusable | before
    · exact unusable
    · exact absurd member (not_front_of_before nodup split before)
  · rw [each other same]
    exact none other member

/-- A usable route is found if no route before it is usable. -/
theorem best_of_first (nodup : table.routes.Nodup)
    (member : entry ∈ table.routes) (usable : (table.route entry).usable dest = true)
    (first : ∀ other, other ≠ entry → table.Before other entry →
      (table.route other).usable dest = false) : table.best dest = some entry := by
  obtain ⟨front, back, split⟩ := List.append_of_mem member
  refine best_eq_some.mpr ⟨usable, front, back, split, fun other inside => ?_⟩
  rw [split] at nodup
  exact first other ((List.nodup_append.mp nodup).2.2 other inside entry List.mem_cons_self)
    (before_of_front split inside)

/-- The answers that are remembered are those of the table after a change of validity. -/
theorem Indexed.setValid_trusted (indexed : Indexed table) (found : table.heap entry = some object)
    {isValid : Bool} (keeps : isValid = true → entry ∈ table.routes → table.NoneWorse entry)
    {answer : Option RouteId} (remembered : table.routingCache dest = some answer) :
    (table.store entry (some { object with isValid })).Trusted dest answer := by
  have trusted := indexed.cached dest answer remembered
  have here := route_eq found
  let next : Ipv4Route := { object with isValid }
  have changed : (table.store entry (some next)).route entry = next := route_eq (store_heap_same _)
  have each (id : RouteId) (apart : id ≠ entry) :
      (table.store entry (some next)).route id = table.route id :=
    congrArg (·.getD {}) (store_heap_other apart)
  -- A route that is usable now matches and has become valid, which no answer forbids.
  have becomes (member : entry ∈ table.routes) (usable : next.usable dest = true) :=
    have both := (Bool.and_eq_true _ _).mp usable
    keeps both.1 member dest answer remembered (by rw [here]; exact both.2)
  cases answer with
  | none =>
    refine List.find?_eq_none.mpr fun id member => ?_
    by_cases same : id = entry
    · subst same
      rw [changed]
      intro usable
      obtain ⟨_, ⟨⟩, _⟩ := becomes member usable
    · rw [each id same]
      exact List.find?_eq_none.mp trusted id member
  | some id =>
    obtain ⟨member, matching, holds⟩ := trusted
    by_cases same : id = entry
    · subst same
      rw [here] at matching
      refine ⟨member, ?_, fun valid => ?_⟩
      · rw [changed]
        exact matching
      · rw [changed] at valid
        have usable : next.usable dest = true := (Bool.and_eq_true _ _).mpr ⟨valid, matching⟩
        obtain ⟨_, ⟨⟩, first, _⟩ := becomes member usable
        refine best_of_first indexed.nodup member (by rw [changed]; exact usable) ?_
        intro other apart before
        rw [each other apart]
        exact first rfl other before
    · refine ⟨member, by rw [each id same]; exact matching, fun valid => ?_⟩
      rw [each id same] at valid
      refine best_of_change indexed.nodup (holds valid) rfl each same fun inside => ?_
      rw [changed]
      cases usable : next.usable dest with
      | false => exact .inl rfl
      | true =>
        obtain ⟨_, ⟨⟩, _, before⟩ := becomes inside usable
        exact .inr (before same valid)

theorem Indexed.setValid (indexed : Indexed table) {isValid : Bool}
    (keeps : isValid = true → entry ∈ table.routes → table.NoneWorse entry)
    (returned : table.setValid entry isValid = .ok after) : Indexed after := by
  unfold Ipv4RoutingTable.setValid at returned
  obtain ⟨object, dereferenced, returned⟩ := bind_eq_ok.mp returned
  have found := deref_eq_ok.mp dereferenced
  cases returned
  have here := route_eq found
  refine ⟨indexed.nodup, ?_, ?_, ?_⟩
  · intro id member
    obtain ⟨route, same, inTable, sound⟩ := indexed.live id member
    by_cases equal : id = entry
    · subst equal
      rw [found] at same
      cases same
      exact ⟨_, store_heap_same _, inTable, ⟨sound.netmask, sound.dest⟩⟩
    · exact ⟨route, (store_heap_other equal).trans same, inTable, sound⟩
  · refine List.Pairwise.imp ?_ indexed.sorted
    -- Validity has no part in the rank.
    have each (id : RouteId) : rank table.useAdminDist
        ((table.store entry (some { object with isValid })).route id) =
          rank table.useAdminDist (table.route id) := by
      by_cases equal : id = entry
      · subst equal
        rw [route_eq (store_heap_same _), here]
        rfl
      · exact congrArg (fun heap => rank table.useAdminDist (heap.getD {})) (store_heap_other equal)
    intro a b le
    exact (each a).trans_le (le.trans_eq (each b).symm)
  · exact fun dest answer remembered => indexed.setValid_trusted found keeps remembered

/-! ### Runs -/

theorem Indexed.purge (indexed : Indexed table) (returned : table.purge = .ok after) :
    Indexed after :=
  foldlM_invariant Indexed table.routes
    (fun _ _ _ indexed _ deleted => indexed.deleteIf deleted) table indexed after returned

theorem Indexed.updateNetmaskRoutes (indexed : Indexed table)
    {interfaces : List (NetworkInterface × RouteId)}
    (keeps : table.Keeps (.updateNetmaskRoutes interfaces))
    (returned : table.updateNetmaskRoutes interfaces = .ok after) : Indexed after := by
  unfold Ipv4RoutingTable.updateNetmaskRoutes at returned
  obtain ⟨between, deleted, returned⟩ := bind_eq_ok.mp returned
  have indexed : Indexed between :=
    foldlM_invariant Indexed table.routes
      (fun _ _ _ indexed _ deleted => indexed.deleteIf deleted) table indexed between deleted
  exact foldlM_invariant Indexed interfaces
    (fun _ ie member indexed _ added => indexed.addNetmaskRoute (keeps ie member) added)
    between indexed after returned

theorem Indexed.apply (indexed : Indexed table) {call : RoutingCall} (keeps : table.Keeps call)
    (returned : table.apply call = .ok after) : Indexed after := by
  cases call with
  | newRoute entry =>
    obtain ⟨outside, rfl⟩ := indexed.new returned
    exact indexed.store_outside outside _
  | addRoute entry => exact indexed.internalAddRoute keeps returned
  | removeRoute entry =>
    obtain ⟨⟨_, _⟩, removed, ⟨⟩⟩ := bind_eq_ok.mp returned
    exact indexed.removeRoute removed
  | deleteRoute entry =>
    obtain ⟨⟨_, _⟩, deleted, ⟨⟩⟩ := bind_eq_ok.mp returned
    exact (indexed.deleteRoute deleted).1
  | change entry field => exact indexed.change keeps returned
  | setValid entry isValid =>
    refine indexed.setValid (fun valid => ?_) returned
    subst valid
    exact keeps
  | purge => exact indexed.purge returned
  | updateNetmaskRoutes interfaces => exact indexed.updateNetmaskRoutes keeps returned
  | findBestMatchingRoute dest =>
    obtain ⟨⟨answer, _⟩, looked, ⟨⟩⟩ := bind_eq_ok.mp returned
    obtain ⟨after, same, indexed⟩ := indexed.findBestMatchingRoute_ok dest
    rw [same] at looked
    cases looked
    exact indexed

theorem Reached.indexed {useAdminDist : Bool} (reached : Reached useAdminDist table) :
    Indexed table := by
  induction reached with
  | start => exact .start useAdminDist
  | call _ _ keeps returned indexed => exact indexed.apply keeps returned

/-! ### The best route -/

/-- A route has a longer netmask than another one, or the same length and then a smaller
administrative distance where it counts, or the same and then no larger metric. -/
structure NotWorse (useAdminDist : Bool) (route other : Ipv4Route) : Prop where
  netmask : other.netmask.getNetmaskLength ≤ route.netmask.getNetmaskLength
  adminDist : other.netmask.getNetmaskLength = route.netmask.getNetmaskLength →
    useAdminDist = true → route.adminDist ≤ other.adminDist
  metric : other.netmask.getNetmaskLength = route.netmask.getNetmaskLength →
    (useAdminDist = true → other.adminDist = route.adminDist) → route.metric ≤ other.metric

/-- The answer of a lookup is a valid route that matches and is not worse than any other one, or
there is none. -/
def IsBest (table : Ipv4RoutingTable) (dest : Ipv4Address) : Option RouteId → Prop
  | none => ∀ id ∈ table.routes, ∀ route, table.heap id = some route → route.usable dest = false
  | some id => id ∈ table.routes ∧ ∃ route, table.heap id = some route ∧
    route.usable dest = true ∧ ∀ other ∈ table.routes, ∀ object, table.heap other = some object →
      object.usable dest = true → NotWorse table.useAdminDist route object

theorem notWorse_of_rank {useAdminDist : Bool} {route other : Ipv4Route}
    (sound : route.Sound) (sound' : other.Sound) (usable : route.usable dest = true)
    (usable' : other.usable dest = true) (le : rank useAdminDist route ≤ rank useAdminDist other) :
    NotWorse useAdminDist route other := by
  have matching := ((Bool.and_eq_true _ _).mp usable).2
  have matching' := ((Bool.and_eq_true _ _).mp usable').2
  simp only [rank, Prod.Lex.toLex_le_toLex] at le
  have longer : other.netmask.getNetmaskLength ≤ route.netmask.getNetmaskLength :=
    Ipv4Address.length_le_of_le sound'.netmask sound.netmask (by omega)
  -- Two netmasks of the same length are equal, and then the destinations are.
  have same (length : other.netmask.getNetmaskLength = route.netmask.getNetmaskLength) :
      (if useAdminDist then route.adminDist else 0) < (if useAdminDist then other.adminDist else 0) ∨
        (if useAdminDist then route.adminDist else 0) =
          (if useAdminDist then other.adminDist else 0) ∧ route.metric ≤ other.metric := by
    have netmask := Ipv4Address.eq_of_length sound'.netmask sound.netmask length
    have masked := sound'.dest
    rw [netmask] at masked matching'
    have dest := Ipv4Address.eq_of_masked sound.dest masked matching matching'
    rw [netmask, dest] at le
    simpa using le
  refine ⟨longer, fun length uses => ?_, fun length equal => ?_⟩
  · subst uses
    have order := same length
    simp only [if_true] at order
    omega
  · rcases same length with less | ⟨_, le⟩
    · cases useAdminDist with
      | false => exact absurd less (by simp)
      | true =>
        rw [equal rfl] at less
        exact absurd less (by simp)
    · exact le

theorem Indexed.isBest (indexed : Indexed table) (dest : Ipv4Address) :
    table.IsBest dest (table.best dest) := by
  cases found : table.best dest with
  | none =>
    intro id member route stored
    have unusable := List.find?_eq_none.mp found id member
    rw [route_eq stored] at unusable
    simpa using unusable
  | some id =>
    obtain ⟨usable, front, back, split, none⟩ := best_eq_some.mp found
    have member : id ∈ table.routes := split ▸ List.mem_append_right _ List.mem_cons_self
    refine ⟨member, table.route id, indexed.heap_eq member, usable, ?_⟩
    intro other inside object stored usable'
    rw [← route_eq stored] at usable' ⊢
    refine notWorse_of_rank (indexed.sound member) (indexed.sound inside) usable usable' ?_
    have sorted := indexed.sorted
    rw [Ranked, split] at sorted
    rw [split] at inside
    rcases List.mem_append.mp inside with before | behind
    · rw [none other before] at usable'
      cases usable'
    · rcases List.mem_cons.mp behind with rfl | behind
      · exact le_refl _
      · exact (List.pairwise_cons.mp (List.pairwise_append.mp sorted).2.1).1 other behind

/-- Two routes to 10.0.0.0/8, of which the first one gets the larger administrative distance. -/
def demoted : List RoutingCall :=
  [.newRoute 0, .change 0 (.destination 0x0a000000#32), .change 0 (.netmask 0xff000000#32),
    .change 0 (.interface (some 1)), .change 0 (.adminDist 1), .addRoute 0,
    .newRoute 1, .change 1 (.destination 0x0a000000#32), .change 1 (.netmask 0xff000000#32),
    .change 1 (.interface (some 1)), .change 1 (.adminDist 5), .addRoute 1,
    .change 0 (.adminDist 10)]

end Ipv4RoutingTable

end Inet.Ipv4
