import Mathlib
import Inet.Ipv6.DestinationCache

/-!
# Longest prefix matches

The list of routes stays sorted by all operations but a change of an administrative distance, so the
first live match is the best one. The loop that looks for it ends unless an expired route that it does
not remove comes first.
-/
namespace Inet.Ipv6.Ipv6RoutingTable

/-! ### Statements -/

/-- The loop at a route, with the routes before it that stay in the list. -/
structure Scan where
  passed : List Ipv6Route
  rest : List Ipv6Route

/-- One round of the loop, which goes on or returns the list with the result. An expired route that a
router has not advertised is neither removed nor passed. -/
def Scan.round (now : Nat) (dest : Ipv6Address) (scan : Scan) :
    Scan ⊕ List Ipv6Route × Option Ipv6Route :=
  match scan.rest with
  | [] => .inr (scan.passed, none)
  | route :: routes =>
    if route.fits dest then
      if route.expired now then
        if route.sourceType = .ROUTER_ADVERTISEMENT then .inl ⟨scan.passed, routes⟩ else .inl scan
      else .inr (scan.passed ++ route :: routes, some route)
    else .inl ⟨scan.passed ++ [route], routes⟩

/-- What the loop returns within a number of rounds. -/
def Scan.run (now : Nat) (dest : Ipv6Address) : Nat → Scan →
    Option (List Ipv6Route × Option Ipv6Route)
  | 0, _ => none
  | rounds + 1, scan =>
    match scan.round now dest with
    | .inl next => next.run now dest rounds
    | .inr returned => some returned

/-- A longer prefix is better, then a smaller administrative distance if it is used, and then a
smaller metric. -/
def AtLeastAsGood (useAdminDist : Bool) (a b : Ipv6Route) : Prop :=
  b.prefixLength < a.prefixLength ∨ b.prefixLength = a.prefixLength ∧
    (useAdminDist = true ∧ a.adminDist < b.adminDist ∨
      (useAdminDist = true → a.adminDist = b.adminDist) ∧ a.metric ≤ b.metric)

/-- A router has advertised the route, and it has expired. -/
def expiredAdvertisement (now : Nat) (route : Ipv6Route) : Bool :=
  route.expired now && decide (route.sourceType = .ROUTER_ADVERTISEMENT)

/-- The loop ends, with the best live match if there is one, and removes nothing but expired routes
that a router has advertised. -/
def MatchesRight (table : Ipv6RoutingTable) (dest : Ipv6Address) : Prop :=
  ∃ rounds left result,
    Scan.run table.simTime dest rounds ⟨[], table.routeList⟩ = some (left, result) ∧
    (∀ route, result = some route → route ∈ table.routeList ∧ route.fits dest = true ∧
      route.expired table.simTime = false ∧
      ∀ other ∈ table.routeList, other.fits dest = true → other.expired table.simTime = false →
        AtLeastAsGood table.useAdminDist route other) ∧
    (result = none ↔ ∀ route ∈ table.routeList, route.fits dest = true →
      route.expired table.simTime = true) ∧
    left.Sublist table.routeList ∧
    (left.filter fun route => !expiredAdvertisement table.simTime route) =
      table.routeList.filter fun route => !expiredAdvertisement table.simTime route

/-- The first match that would not be removed has not expired. -/
def NotBlocked (now : Nat) (dest : Ipv6Address) (routes : List Ipv6Route) : Prop :=
  ∀ route, routes.find? (fun route => route.fits dest && !expiredAdvertisement now route) =
    some route → route.expired now = false

/-- No route comes before a better one. -/
def Ordered (table : Ipv6RoutingTable) : Prop :=
  table.routeList.Pairwise (AtLeastAsGood table.useAdminDist)

/-- The administrative distance of a route in the list is only changed if that keeps the order. -/
def KeepsOrder (table : Ipv6RoutingTable) : Operation → Prop
  | .setAdminDist id adminDist => (table.setAdminDist id adminDist).Ordered
  | _ => True

/-- Tables after operations that are allowed, and after lookups. -/
inductive Built (allowed : Ipv6RoutingTable → Operation → Prop) : Ipv6RoutingTable → Prop
  | initial (useAdminDist : Bool) : Built allowed { useAdminDist }
  | step {table next : Ipv6RoutingTable} (operation : Operation) :
    Built allowed table → allowed table operation → table.step operation = some next →
      Built allowed next
  | lookup {table next : Ipv6RoutingTable} {result : Option Ipv6Route} (dest : Ipv6Address) :
    Built allowed table → table.doLongestPrefixMatch dest = some (next, result) →
      Built allowed next

/-! ### The loop -/

section Loop

variable {now : Nat} {dest : Ipv6Address} {routes left passed : List Ipv6Route}
  {result : Option Ipv6Route}

/-- A result of the recursion is returned after at most one round for each route and one more. -/
theorem run_of_firstMatch (found : firstMatch now dest routes = some (left, result)) :
    Scan.run now dest (routes.length + 1) ⟨passed, routes⟩ = some (passed ++ left, result) := by
  induction routes generalizing passed left with
  | nil =>
    cases found
    rw [List.append_nil]
    rfl
  | cons route routes ih =>
    rw [List.length_cons, Scan.run, Scan.round]
    rw [firstMatch] at found
    by_cases fits : route.fits dest = true
    · simp only [if_pos fits] at found ⊢
      by_cases expired : route.expired now = true
      · simp only [if_pos expired] at found ⊢
        by_cases advertised : route.sourceType = .ROUTER_ADVERTISEMENT
        · simp only [if_pos advertised] at found ⊢
          exact ih found
        · rw [if_neg advertised] at found
          cases found
      · simp only [if_neg expired] at found ⊢
        cases found
        rfl
    · simp only [if_neg fits] at found ⊢
      obtain ⟨⟨left', result'⟩, later, same⟩ := Option.map_eq_some_iff.mp found
      cases same
      rw [ih later, List.append_assoc]
      rfl

/-- Without a result the loop never ends. -/
theorem run_of_none (none : firstMatch now dest routes = none) (rounds : Nat) :
    Scan.run now dest rounds ⟨passed, routes⟩ = .none := by
  induction rounds generalizing passed routes with
  | zero => rfl
  | succ rounds ih =>
    cases routes with
    | nil => cases none
    | cons route routes =>
      rw [Scan.run, Scan.round]
      have here := none
      rw [firstMatch] at none
      by_cases fits : route.fits dest = true
      · simp only [if_pos fits] at none ⊢
        by_cases expired : route.expired now = true
        · simp only [if_pos expired] at none ⊢
          by_cases advertised : route.sourceType = .ROUTER_ADVERTISEMENT
          · simp only [if_pos advertised] at none ⊢
            exact ih none
          · -- the loop stays at the route
            simp only [if_neg advertised]
            exact ih here
        · simp only [if_neg expired] at none
          cases none
      · simp only [if_neg fits] at none ⊢
        exact ih (Option.map_eq_none_iff.mp none)

/-- The recursion has a result if no expired route that stays comes first. -/
theorem firstMatch_isSome_iff :
    (firstMatch now dest routes).isSome = true ↔ NotBlocked now dest routes := by
  induction routes with
  | nil => exact ⟨fun _ _ found => (by cases found), fun _ => rfl⟩
  | cons route routes ih =>
    rw [firstMatch, NotBlocked, List.find?_cons]
    by_cases fits : route.fits dest = true
    · rw [if_pos fits, fits, Bool.true_and]
      by_cases expired : route.expired now = true
      · rw [if_pos expired, expiredAdvertisement, expired, Bool.true_and]
        by_cases advertised : route.sourceType = .ROUTER_ADVERTISEMENT
        · rw [if_pos advertised, decide_eq_true advertised]
          exact ih
        · rw [if_neg advertised, decide_eq_false advertised]
          refine ⟨fun absent => (by cases absent), fun unblocked => ?_⟩
          cases expired.symm.trans (unblocked route rfl)
      · rw [Bool.not_eq_true] at expired
        rw [expired, expiredAdvertisement, expired]
        refine ⟨fun _ other same => ?_, fun _ => rfl⟩
        cases same
        exact expired
    · rw [if_neg fits, Option.isSome_map, ih, NotBlocked]
      rw [Bool.not_eq_true] at fits
      rw [fits]
      rfl

/-- The result is the first live match, and only expired routes that a router has advertised are
removed. -/
theorem firstMatch_result (found : firstMatch now dest routes = some (left, result)) :
    result = routes.find? (fun route => route.fits dest && !route.expired now) ∧
      left.Sublist routes ∧ (left.filter fun route => !expiredAdvertisement now route) =
        routes.filter fun route => !expiredAdvertisement now route := by
  induction routes generalizing left with
  | nil =>
    cases found
    exact ⟨rfl, List.Sublist.refl _, rfl⟩
  | cons route routes ih =>
    rw [firstMatch] at found
    rw [List.find?_cons]
    by_cases fits : route.fits dest = true
    · rw [if_pos fits] at found
      by_cases expired : route.expired now = true
      · rw [if_pos expired] at found
        by_cases advertised : route.sourceType = .ROUTER_ADVERTISEMENT
        · rw [if_pos advertised] at found
          obtain ⟨first, fewer, same⟩ := ih found
          refine ⟨?_, fewer.cons _, ?_⟩
          · rw [first, fits, expired]
            rfl
          · rw [same, List.filter_cons_of_neg]
            simp [expiredAdvertisement, expired, advertised]
        · rw [if_neg advertised] at found
          cases found
      · rw [if_neg expired] at found
        cases found
        rw [Bool.not_eq_true] at expired
        rw [fits, expired]
        exact ⟨rfl, List.Sublist.refl _, rfl⟩
    · rw [if_neg fits] at found
      obtain ⟨⟨left', result'⟩, later, same⟩ := Option.map_eq_some_iff.mp found
      cases same
      obtain ⟨first, fewer, same⟩ := ih later
      rw [Bool.not_eq_true] at fits
      refine ⟨?_, fewer.cons_cons _, ?_⟩
      · rw [first, fits]
        rfl
      · rw [List.filter_cons, List.filter_cons, same]

end Loop

/-! ### The order -/

section Order

variable {table next : Ipv6RoutingTable} {useAdminDist : Bool}

theorem routeLessThan_eq_false {a b : Ipv6Route} :
    table.routeLessThan b a = false ↔ AtLeastAsGood table.useAdminDist a b := by
  rw [routeLessThan, AtLeastAsGood]
  split
  next differ =>
    simp only [decide_eq_false_iff_not]
    omega
  next same =>
    rw [not_not] at same
    split
    next distances =>
      simp only [Bool.and_eq_true, bne_iff_ne, ne_eq] at distances
      simp only [decide_eq_false_iff_not, distances.1, true_and, true_imp_iff]
      omega
    next other =>
      simp only [Bool.and_eq_true, bne_iff_ne, ne_eq, not_and, not_not] at other
      simp only [decide_eq_false_iff_not]
      constructor
      · intro notLess
        exact .inr ⟨same, .inr ⟨fun used => (other used).symm, by omega⟩⟩
      · rintro (longer | ⟨_, ⟨used, less⟩ | ⟨_, le⟩⟩)
        · omega
        · have := other used
          omega
        · omega

theorem atLeastAsGood_total (a b : Ipv6Route) :
    AtLeastAsGood useAdminDist a b ∨ AtLeastAsGood useAdminDist b a := by
  simp only [AtLeastAsGood]
  cases useAdminDist
  · simp only [Bool.false_eq_true, false_and, false_imp_iff, true_and, false_or]
    omega
  · simp only [true_and, true_imp_iff]
    omega

theorem AtLeastAsGood.trans {a b c : Ipv6Route} (first : AtLeastAsGood useAdminDist a b)
    (second : AtLeastAsGood useAdminDist b c) : AtLeastAsGood useAdminDist a c := by
  simp only [AtLeastAsGood] at *
  cases useAdminDist
  · simp only [Bool.false_eq_true, false_and, false_imp_iff, true_and, false_or] at *
    omega
  · simp only [true_and, true_imp_iff] at *
    omega

theorem stableSort_pairwise (table : Ipv6RoutingTable) (routes : List Ipv6Route) :
    (table.stableSort routes).Pairwise (AtLeastAsGood table.useAdminDist) := by
  have relation : (fun a b : Ipv6Route => ¬ table.routeLessThan b a = true) =
      AtLeastAsGood table.useAdminDist := by
    funext a b
    rw [Bool.not_eq_true, routeLessThan_eq_false]
  have total : Std.Total fun a b : Ipv6Route => ¬ table.routeLessThan b a = true :=
    ⟨fun a b => by
      simp only [Bool.not_eq_true, routeLessThan_eq_false]
      exact atLeastAsGood_total a b⟩
  have trans : IsTrans Ipv6Route fun a b : Ipv6Route => ¬ table.routeLessThan b a = true :=
    ⟨fun a b c => by
      simp only [Bool.not_eq_true, routeLessThan_eq_false]
      exact AtLeastAsGood.trans⟩
  have sorted := List.pairwise_insertionSort
    (fun a b : Ipv6Route => ¬ table.routeLessThan b a = true) routes
  exact sorted.imp fun {a b} notLess => by
    rwa [Bool.not_eq_true, routeLessThan_eq_false] at notLess

/-- Routes that are removed leave the others in order. -/
theorem Ordered.sublist (ordered : table.Ordered)
    (fewer : next.routeList.Sublist table.routeList) (same : next.useAdminDist = table.useAdminDist) :
    next.Ordered := by
  rw [Ordered, same]
  exact List.Pairwise.sublist fewer ordered

theorem Ordered.sorted (routes : List Ipv6Route)
    (list : next.routeList = table.stableSort routes)
    (same : next.useAdminDist = table.useAdminDist) : next.Ordered := by
  rw [Ordered, list, same]
  exact stableSort_pairwise table routes

/-- A change of what the order does not depend on keeps it. -/
theorem Ordered.changeInPlace (ordered : table.Ordered) (id : Nat)
    {change : Ipv6Route → Ipv6Route} (kept : ∀ route, (change route).prefixLength =
      route.prefixLength ∧ (change route).adminDist = route.adminDist ∧
        (change route).metric = route.metric) : (table.changeInPlace id change).Ordered := by
  rw [Ordered, Ipv6RoutingTable.changeInPlace, List.pairwise_map]
  have fields (route : Ipv6Route) : ∃ other, (if route.id = id then change route else route) = other ∧
      other.prefixLength = route.prefixLength ∧ other.adminDist = route.adminDist ∧
      other.metric = route.metric := by
    refine ⟨_, rfl, ?_⟩
    split
    · exact kept route
    · exact ⟨rfl, rfl, rfl⟩
  refine ordered.imp fun {a b} good => ?_
  obtain ⟨a', sameA, prefixA, distA, metricA⟩ := fields a
  obtain ⟨b', sameB, prefixB, distB, metricB⟩ := fields b
  rw [sameA, sameB, AtLeastAsGood, prefixA, prefixB, distA, distB, metricA, metricB]
  exact good

theorem Ordered.changeSorted (ordered : table.Ordered) (id : Nat) (change : Ipv6Route → Ipv6Route) :
    (table.changeSorted id change).Ordered := by
  rw [Ipv6RoutingTable.changeSorted]
  split
  · exact ordered
  · split
    · exact ordered
    · exact .sorted _ rfl rfl

theorem Ordered.addOrUpdate (ordered : table.Ordered) (sourceType : SourceType) (newId : Nat)
    (destPrefix : Ipv6Address) (prefixLength : Nat) (interfaceId : Option Nat) (expiryTime : Int) :
    (table.addOrUpdate sourceType newId destPrefix prefixLength interfaceId expiryTime).Ordered := by
  rw [Ipv6RoutingTable.addOrUpdate]
  split
  · exact .sorted _ rfl rfl
  · next route _ =>
    have first : (table.setInterface route.id interfaceId).Ordered :=
      ordered.changeInPlace _ fun _ => ⟨rfl, rfl, rfl⟩
    exact first.changeInPlace _ fun _ => ⟨rfl, rfl, rfl⟩

theorem Ordered.eraseWhere (ordered : table.Ordered) (erased : Ipv6Route → Bool) :
    (table.eraseWhere erased).Ordered := ordered.sublist List.filter_sublist rfl

theorem Ordered.eraseFirst (ordered : table.Ordered) (erased : Ipv6Route → Bool) :
    (table.eraseFirst erased).Ordered := ordered.sublist List.eraseP_sublist rfl

theorem Ordered.doLongestPrefixMatch {dest : Ipv6Address} {result : Option Ipv6Route}
    (ordered : table.Ordered) (returned : table.doLongestPrefixMatch dest = some (next, result)) :
    next.Ordered := by
  obtain ⟨⟨left, result'⟩, found, same⟩ := Option.map_eq_some_iff.mp returned
  cases same
  exact ordered.sublist (firstMatch_result found).2.1 rfl

theorem Ordered.determineOutputInterface {dest : Ipv6Address}
    {output : Option (Ipv6Address × Option Nat)} (ordered : table.Ordered)
    (returned : table.determineOutputInterface dest = some (next, output)) : next.Ordered := by
  have cached : (table.lookupDestCache dest).1.Ordered := ordered
  rw [Ipv6RoutingTable.determineOutputInterface] at returned
  generalize table.lookupDestCache dest = looked at returned cached
  obtain ⟨table', entry⟩ := looked
  split at returned
  next hit =>
    cases hit
    cases returned
    exact cached
  next miss =>
    cases miss
    split at returned
    next => cases returned
    next unroutable =>
      cases returned
      exact cached.doLongestPrefixMatch unroutable
    next matched route routed =>
      cases returned
      have ordered : matched.Ordered := cached.doLongestPrefixMatch routed
      exact ordered

/-- Operations keep the order. -/
theorem Ordered.step (ordered : table.Ordered) {operation : Operation}
    (keeps : table.KeepsOrder operation) (returned : table.step operation = some next) :
    next.Ordered := by
  cases operation with
  | determineOutputInterface dest =>
    obtain ⟨⟨next', output⟩, determined, same⟩ := Option.map_eq_some_iff.mp returned
    cases same
    exact ordered.determineOutputInterface determined
  | addRoute | addStaticRoute | addDefaultRoute =>
    cases returned
    exact .sorted _ rfl rfl
  | addOrUpdateOnLinkPrefix | addOrUpdateOwnAdvPrefix =>
    cases returned
    exact ordered.addOrUpdate ..
  | removeRoute | deleteRoute | deleteOnLinkPrefix =>
    cases returned
    exact ordered.eraseFirst _
  | deleteDefaultRoutes | deleteAllRoutes | deletePrefixes | deleteInterfaceRoutes =>
    cases returned
    exact ordered.eraseWhere _
  | interfaceDown interfaceId =>
    cases returned
    exact ordered.eraseWhere (·.interfaceId == some interfaceId)
  | setNextHop | setInterface | setExpiryTime | setSourceType =>
    cases returned
    exact ordered.changeInPlace _ fun _ => ⟨rfl, rfl, rfl⟩
  | setDestination | setPrefixLength | setMetric =>
    cases returned
    exact ordered.changeSorted ..
  | setAdminDist id adminDist =>
    cases returned
    exact keeps
  | purgeDestCache | purgeDestCacheEntriesToNeighbour | purgeDestCacheForInterfaceId | elapse =>
    cases returned
    exact ordered

theorem Built.ordered (built : Built KeepsOrder table) : table.Ordered := by
  induction built with
  | initial useAdminDist => exact .nil
  | step operation _ keeps returned ih => exact ih.step keeps returned
  | lookup dest _ returned ih => exact ih.doLongestPrefixMatch returned

end Order

/-! ### Lookups -/

/-- In an ordered list the first route with a property is the best one with it. -/
theorem Ordered.find_best {table : Ipv6RoutingTable} (ordered : table.Ordered)
    {holds : Ipv6Route → Bool} {route : Ipv6Route}
    (found : table.routeList.find? holds = some route) :
    ∀ other ∈ table.routeList, holds other = true →
      AtLeastAsGood table.useAdminDist route other := by
  obtain ⟨_, before, behind, list, notBefore⟩ := List.find?_eq_some_iff_append.mp found
  rw [Ordered, list, List.pairwise_append, List.pairwise_cons] at ordered
  intro other member held
  rw [list, List.mem_append, List.mem_cons] at member
  rcases member with first | rfl | later
  · have absent := notBefore other first
    rw [held] at absent
    cases absent
  · exact (atLeastAsGood_total other other).elim id id
  · exact ordered.2.1.1 other later

/-- A longest prefix match in any table built by operations that keep the order ends and is right if
and only if no expired route that stays in the list comes first. -/
theorem matchesRight_iff {table : Ipv6RoutingTable} (built : Built KeepsOrder table)
    (dest : Ipv6Address) :
    table.MatchesRight dest ↔ NotBlocked table.simTime dest table.routeList := by
  rw [← firstMatch_isSome_iff, Option.isSome_iff_exists]
  constructor
  · rintro ⟨rounds, left, result, returned, _⟩
    by_contra absent
    have none : firstMatch table.simTime dest table.routeList = none :=
      Option.eq_none_iff_forall_ne_some.mpr fun found same => absent ⟨found, same⟩
    rw [run_of_none none] at returned
    cases returned
  · rintro ⟨⟨left, result⟩, found⟩
    obtain ⟨first, fewer, same⟩ := firstMatch_result found
    refine ⟨_, left, result, run_of_firstMatch found, fun route routed => ?_, ?_, fewer, same⟩
    · have routed := first.symm.trans routed
      have member := List.mem_of_find?_eq_some routed
      have live := List.find?_some routed
      rw [Bool.and_eq_true, Bool.not_eq_true'] at live
      refine ⟨member, live.1, live.2, fun other inside fits alive => ?_⟩
      exact built.ordered.find_best routed other inside (by rw [fits, alive]; rfl)
    · rw [first, List.find?_eq_none]
      refine forall₂_congr fun route _ => ?_
      rw [Bool.and_eq_true, Bool.not_eq_true', not_and, Bool.not_eq_false]

/-- An advertised default route that has expired, and a static one. -/
def expiredDefault : Ipv6RoutingTable :=
  let table : Ipv6RoutingTable := { useAdminDist := true }
  { (table.addDefaultRoute 0 5 (some 1) 3).addStaticRoute 1 0 0 (some 2) 6 20 with simTime := 10 }

theorem expiredDefault_built : Built KeepsOrder expiredDefault :=
  (((Built.initial true).step (.addDefaultRoute 0 5 (some 1) 3) trivial rfl).step
    (.addStaticRoute 1 0 0 (some 2) 6 20) trivial rfl).step (.elapse 10) trivial rfl

theorem expiredDefault_matchesRight : expiredDefault.MatchesRight 7 := by
  refine (matchesRight_iff expiredDefault_built 7).mpr fun route found => ?_
  have static : expiredDefault.routeList.find? (fun route =>
      route.fits 7 && !expiredAdvertisement expiredDefault.simTime route) =
        some ⟨1, 0, 0, .MANUAL, some 2, 6, 0, 20, dStatic⟩ := by decide +kernel
  rw [static] at found
  cases found
  rfl

/-- A prefix that the router itself advertises has expired. -/
def expiredOwnPrefix : Ipv6RoutingTable :=
  let table : Ipv6RoutingTable := { useAdminDist := false }
  { table.addOrUpdateOwnAdvPrefix 0 0 64 (some 1) 3 with simTime := 10 }

theorem expiredOwnPrefix_built : Built KeepsOrder expiredOwnPrefix :=
  ((Built.initial false).step (.addOrUpdateOwnAdvPrefix 0 0 64 (some 1) 3) trivial rfl).step
    (.elapse 10) trivial rfl

/-- The lookup never ends. -/
theorem expiredOwnPrefix_blocked : Built KeepsOrder expiredOwnPrefix ∧
    (∀ rounds, Scan.run expiredOwnPrefix.simTime 7 rounds ⟨[], expiredOwnPrefix.routeList⟩ = none) ∧
      ¬ expiredOwnPrefix.MatchesRight 7 := by
  have none : firstMatch expiredOwnPrefix.simTime 7 expiredOwnPrefix.routeList = none := by
    decide +kernel
  refine ⟨expiredOwnPrefix_built, run_of_none none, ?_⟩
  rintro ⟨rounds, left, result, returned, _⟩
  rw [run_of_none none] at returned
  cases returned

end Inet.Ipv6.Ipv6RoutingTable
