import Inet.Configurator.RouteMerge

/-!
# The optimized table

Merging goes on until no two routes can be merged. The destination of every original route is
routed as before then. Other addresses that the original table routed need not be.
-/
namespace Inet.Configurator

open Inet.Ipv4 Ipv4Address Lib

variable {routes colorToRoute : List Ipv4Route} {optimizer : Optimizer} {route : Ipv4Route}
  {routeInfo : RouteInfo} {table table' : RoutingTableInfo}

/-! ### The main loop -/

/-- What merges make of a table. -/
structure Optimized (table table' : RoutingTableInfo) : Prop where
  consistent : Consistent table'
  colors : ∀ routeInfo ∈ table', ∃ before ∈ table, before.color = routeInfo.color
  attached : ∀ o, Attached table o → Attached table' o

/-- The outcome of a loop, which ends unless it is stopped by an assert. -/
def Outcome {α : Type} (result : Except String α) (holds : α → Prop) : Prop :=
  result = .error attachedError ∨ result = .error capturedError ∨
    ∃ a, result = .ok a ∧ holds a

theorem mem_indexPairs {size i j : Nat} (member : (i, j) ∈ indexPairs size) :
    i < size ∧ j < i := by
  simp only [indexPairs, List.mem_flatMap, List.mem_map, List.mem_reverse, List.mem_range,
    Prod.mk.injEq] at member
  obtain ⟨_, inside, _, before, rfl, rfl⟩ := member
  exact ⟨inside, before⟩

theorem tryToMergePairs_spec (consistent : Consistent table)
    (pairs : List (Nat × Nat)) (before : ∀ pair ∈ pairs, pair.2 < pair.1) :
    Outcome (tryToMergePairs table pairs) fun result =>
      result = (false, table) ∨ ∃ table', result = (true, table') ∧ Merged table table' := by
  induction pairs with
  | nil => exact .inr (.inr ⟨_, rfl, .inl rfl⟩)
  | cons pair rest ih =>
    obtain ⟨i, j⟩ := pair
    have others := ih fun pair member => before pair (List.mem_cons_of_mem _ member)
    rw [tryToMergePairs]
    split
    next routeInfoI routeInfoJ atI atJ =>
      split
      next neighbors =>
        rcases tryToMergeTwoRoutes_spec consistent (before _ List.mem_cons_self) atI atJ
            neighbors.1 with failed | failed | failed | ⟨table', merged, result⟩
        · exact .inl (by rw [failed])
        · exact .inr (.inl (by rw [failed]))
        · rw [failed]
          exact others
        · rw [merged]
          exact .inr (.inr ⟨_, rfl, .inr ⟨table', rfl, result⟩⟩)
      next => exact others
    next => exact others

/-- Every merge leaves one route less, so the loop ends. -/
theorem mergeRoutesRepeatedly_spec (fuel : Nat) :
    ∀ {table : RoutingTableInfo}, Consistent table → table.length ≤ fuel →
      Outcome (mergeRoutesRepeatedly fuel table) (Optimized table) := by
  induction fuel with
  | zero =>
    intro table consistent enough
    obtain rfl := List.length_eq_zero_iff.mp (Nat.le_zero.mp enough)
    exact .inr (.inr ⟨[], rfl, consistent, fun _ => nofun, fun o => id⟩)
  | succ fuel ih =>
    intro table consistent enough
    rw [mergeRoutesRepeatedly.eq_def]
    dsimp only
    rcases tryToMergePairs_spec consistent (indexPairs table.length)
        (fun pair member => (mem_indexPairs member).2) with failed | failed |
          ⟨_, done, rfl | ⟨next, rfl, step⟩⟩
    · exact .inl (by rw [tryToMergeAnyTwoRoutes, failed])
    · exact .inr (.inl (by rw [tryToMergeAnyTwoRoutes, failed]))
    · rw [tryToMergeAnyTwoRoutes, done]
      exact .inr (.inr ⟨table, rfl, consistent, fun r member => ⟨r, member, rfl⟩, fun o => id⟩)
    · rw [tryToMergeAnyTwoRoutes, done]
      have shorter := step.shorter
      rcases ih step.consistent (by omega) with failed | failed | ⟨last, returned, result⟩
      · exact .inl failed
      · exact .inr (.inl failed)
      · refine .inr (.inr ⟨last, returned, result.consistent, fun r member => ?_,
          fun o attached => result.attached o (step.attached o attached)⟩)
        obtain ⟨between, inside, same⟩ := result.colors r member
        obtain ⟨first, inside', same'⟩ := step.colors between inside
        exact ⟨first, inside', same'.trans same⟩

/-! ### The first table -/

/-- The route matches an address. -/
def covers (address : Ipv4Address) (route : Ipv4Route) : Bool :=
  maskedAddrAreEqual address route.dest route.netmask

/-- The first route with a longest netmask of those that match. -/
def longestPrefixMatch (routes : List Ipv4Route) (address : Ipv4Address) : Option Ipv4Route :=
  (routes.filter (covers address)).argmax (·.netmask.getNetmaskLength)

/-- The route without original routes. -/
def plain (routeInfo : RouteInfo) : RouteInfo := { routeInfo with originalRouteInfos := [] }

/-- The prefix of a route, with the color of its action. -/
structure Represents (colorToRoute : List Ipv4Route) (route : Ipv4Route) (routeInfo : RouteInfo) :
    Prop where
  destination : routeInfo.destination = route.dest
  netmask : routeInfo.netmask = route.netmask
  color : ∃ routeColor, colorToRoute[routeInfo.color]? = some routeColor ∧
    routesHaveSameColor routeColor route = true

/-- The optimizer has read routes. -/
structure Read (routes : List Ipv4Route) (optimizer : Optimizer) : Prop where
  consistent : Consistent optimizer.routingTableInfo
  original : optimizer.originalRoutingTableInfo = optimizer.routingTableInfo.map plain
  own : ∀ routeInfo ∈ optimizer.routingTableInfo,
    routeInfo.originalRouteInfos = [routeInfo.toOriginalRouteInfo]
  colors : ∀ routeInfo ∈ optimizer.routingTableInfo,
    routeInfo.color < optimizer.colorToRoute.length
  listed : ∀ route ∈ routes, ∃ routeInfo ∈ optimizer.routingTableInfo,
    routeInfo.destination = route.dest
  represents : ∀ address, Option.Rel (Represents optimizer.colorToRoute)
    (longestPrefixMatch routes address) (optimizer.routingTableInfo.find? (·.routes address))

theorem colorOf_spec (colorToRoute : List Ipv4Route) (route : Ipv4Route) :
    ∃ later color, colorOf colorToRoute route = (colorToRoute ++ later, color) ∧
      ∃ routeColor, (colorToRoute ++ later)[color]? = some routeColor ∧
        routesHaveSameColor routeColor route = true := by
  unfold colorOf
  split
  next color found =>
    obtain ⟨front, routeColor, back, rfl, rfl, same, _⟩ := exists_first found
    refine ⟨[], _, by rw [List.append_nil], routeColor, ?_, same⟩
    rw [List.append_nil, List.getElem?_append_right le_rfl, Nat.sub_self, List.getElem?_cons_zero]
  next =>
    refine ⟨[route], _, rfl, route, ?_, ?_⟩
    · rw [List.getElem?_append_right le_rfl, Nat.sub_self, List.getElem?_cons_zero]
    · simp [routesHaveSameColor]

theorem Represents.append {later : List Ipv4Route}
    (represents : Represents colorToRoute route routeInfo) :
    Represents (colorToRoute ++ later) route routeInfo := by
  obtain ⟨routeColor, found, same⟩ := represents.color
  refine ⟨represents.destination, represents.netmask, routeColor, ?_, same⟩
  rw [List.getElem?_append_left (List.getElem?_eq_some_iff.mp found).1]
  exact found

/-- Among routes that match an address those with longer netmasks come first. -/
theorem rank_lt_iff_length {address : Ipv4Address} {a b : RouteInfo}
    (canonical : Canonical a.destination a.netmask) (canonical' : Canonical b.destination b.netmask)
    (matching : maskedAddrAreEqual address a.destination a.netmask = true)
    (matching' : maskedAddrAreEqual address b.destination b.netmask = true) :
    rank a < rank b ↔ b.netmask.getNetmaskLength < a.netmask.getNetmaskLength := by
  rw [rank_lt_iff, length_lt_iff canonical'.valid canonical.valid]
  refine ⟨fun either => either.elim id fun both => ?_, .inl⟩
  have same : a.netmask = b.netmask := BitVec.eq_of_toNat_eq both.1
  have equal := eq_of_masked canonical.masked (same ▸ canonical'.masked) matching
    (same ▸ matching')
  exact absurd (equal ▸ both.2) (lt_irrefl _)

section
variable {table front back : RoutingTableInfo} {added : RouteInfo}

theorem consistent_insert (consistent : Consistent table) (split : table = front ++ back)
    (sorted : Ranked rank (front ++ added :: back))
    (canonical : Canonical added.destination added.netmask) (enabled : added.enabled = true)
    (sound : added.Sound) : Consistent (front ++ added :: back) := by
  have members : ∀ routeInfo ∈ front ++ added :: back, routeInfo = added ∨ routeInfo ∈ table := by
    intro routeInfo member
    rw [List.mem_append, List.mem_cons] at member
    rw [split, List.mem_append]
    tauto
  refine ⟨sorted, fun routeInfo member => ?_, fun routeInfo member => ?_,
    fun routeInfo member => ?_⟩
  all_goals rcases members routeInfo member with rfl | old
  · exact canonical
  · exact consistent.canonical routeInfo old
  · exact enabled
  · exact consistent.enabled routeInfo old
  · exact sound
  · exact consistent.sound routeInfo old

/-- A route that is added is the first match of an address where it is the longest. -/
theorem represents_insert {address : Ipv4Address} (canonical : ∀ routeInfo ∈ front ++ added :: back,
      Canonical routeInfo.destination routeInfo.netmask)
    (below : ∀ routeInfo ∈ front, rank routeInfo ≤ rank added)
    (beyond : ∀ routeInfo ∈ back, rank added < rank routeInfo) (enabled : added.enabled = true)
    (new : Represents colorToRoute route added)
    (old : Option.Rel (Represents colorToRoute) (longestPrefixMatch routes address)
      ((front ++ back).find? (·.routes address))) :
    Option.Rel (Represents colorToRoute) (longestPrefixMatch (routes ++ [route]) address)
      ((front ++ added :: back).find? (·.routes address)) := by
  have same : covers address route = added.routes address := by
    rw [covers, RouteInfo.routes, enabled, Bool.true_and, new.destination, new.netmask]
    rfl
  rw [longestPrefixMatch, argmax_filter_concat, same]
  cases matching : added.routes address with
  | false =>
    rw [find?_skip (p := fun (r : RouteInfo) => r.routes address) matching]
    exact old
  | true =>
    rw [if_pos rfl, find?_insert (p := fun (r : RouteInfo) => r.routes address) below beyond
      matching]
    change Option.Rel _ (better _ (longestPrefixMatch routes address) route) _
    cases longest : longestPrefixMatch routes address with
    | none =>
      rw [longest] at old
      cases found : (front ++ back).find? (·.routes address) with
      | none => exact .some new
      | some other =>
        rw [found] at old
        cases old
    | some before =>
      rw [longest] at old
      cases found : (front ++ back).find? (·.routes address) with
      | none =>
        rw [found] at old
        cases old
      | some other =>
        rw [found] at old
        cases old with
        | some represents =>
          have listed := List.mem_of_find?_eq_some found
          have holds := List.find?_some (p := fun (r : RouteInfo) => r.routes address) found
          have order := rank_lt_iff_length (canonical added (by simp))
            (canonical other (by rw [List.mem_append] at listed; simp; tauto))
            (Bool.and_eq_true_iff.mp matching).2 (Bool.and_eq_true_iff.mp holds).2
          rw [new.netmask, represents.netmask] at order
          dsimp only [better]
          by_cases longer : before.netmask.getNetmaskLength < route.netmask.getNetmaskLength
          · rw [if_pos longer, if_pos (order.mpr longer)]
            exact .some new
          · rw [if_neg longer, if_neg fun less => longer (order.mp less)]
            exact .some represents

end

theorem addRouteInfo_spec (sorted : Ranked rank table) (added : RouteInfo) :
    ∃ front back, table = front ++ back ∧
      addRouteInfo table added = .ok (front ++ added :: back, front.length) ∧
      addRouteInfo (table.map plain) (plain added) =
        .ok ((front ++ added :: back).map plain, front.length) ∧
      Ranked rank (front ++ added :: back) ∧
      (∀ routeInfo ∈ front, rank routeInfo ≤ rank added) ∧
      ∀ routeInfo ∈ back, rank added < rank routeInfo := by
  obtain ⟨m, inside, found, below, beyond⟩ :=
    upperBound_ok "the range is not sorted" added routeInfoLessThan_eq sorted
  have ranked := sorted.insertIdx inside below beyond
  have length := List.length_take_of_le inside
  rw [insertIdx_eq inside] at ranked
  refine ⟨table.take m, table.drop m, (List.take_append_drop m table).symm, ?_, ?_, ranked, below,
    beyond⟩
  · rw [addRouteInfo, found, ok_bind, insertIdx_eq inside, length]
  · have found' : upperBound "the range is not sorted" routeInfoLessThan (plain added)
        (table.map plain) = .ok m :=
      (upperBound_map (f := plain) fun _ => rfl).trans found
    rw [addRouteInfo, found', ok_bind, insertIdx_eq (by rwa [List.length_map]), length]
    simp only [List.map_append, List.map_cons, List.map_take, List.map_drop]

theorem captures_self (routeInfo : RouteInfo) :
    routeInfo.captures routeInfo.toOriginalRouteInfo = true := by
  simp [RouteInfo.captures]

/-- The copy of an original route that is optimized. -/
def copyOf (original : OriginalRouteInfo) : RouteInfo :=
  { original with originalRouteInfos := [original] }

theorem sound_copyOf (original : OriginalRouteInfo) : (copyOf original).Sound := by
  intro o member
  rw [List.mem_singleton.mp member]
  exact ⟨captures_self (copyOf original), rfl⟩

/-- A route is inserted at the same place of both tables. -/
theorem addOriginalRoute_eq (sorted : Ranked rank optimizer.routingTableInfo)
    (copied : optimizer.originalRoutingTableInfo = optimizer.routingTableInfo.map plain)
     {color : Nat} (colored : colorOf optimizer.colorToRoute route = (colorToRoute, color))
    {added : RouteInfo} (same : added = copyOf ⟨color, route.dest, route.netmask⟩) :
    ∃ front back, optimizer.routingTableInfo = front ++ back ∧
      optimizer.addOriginalRoute route = .ok
        { colorToRoute
          originalRoutingTableInfo := (front ++ added :: back).map plain
          routingTableInfo := front ++ added :: back } ∧
      Ranked rank (front ++ added :: back) ∧
      (∀ routeInfo ∈ front, rank routeInfo ≤ rank added) ∧
      ∀ routeInfo ∈ back, rank added < rank routeInfo := by
  subst same
  obtain ⟨front, back, split, inserted, inserted', sorted, below, beyond⟩ :=
    addRouteInfo_spec sorted (copyOf ⟨color, route.dest, route.netmask⟩)
  refine ⟨front, back, split, ?_, sorted, below, beyond⟩
  unfold Optimizer.addOriginalRoute
  rw [colored, copied]
  dsimp only
  erw [inserted', ok_bind]
  erw [inserted, ok_bind]

theorem Read.add (read : Read routes optimizer) (canonical : Canonical route.dest route.netmask) :
    ∃ optimizer', optimizer.addOriginalRoute route = .ok optimizer' ∧
      Read (routes ++ [route]) optimizer' := by
  obtain ⟨later, color, colored, routeColor, found, same⟩ :=
    colorOf_spec optimizer.colorToRoute route
  obtain ⟨added, copy⟩ : ∃ added, added = copyOf ⟨color, route.dest, route.netmask⟩ := ⟨_, rfl⟩
  obtain ⟨front, back, split, inserted, sorted, below, beyond⟩ :=
    addOriginalRoute_eq read.consistent.sorted read.original colored copy
  have enabled : added.enabled = true := copy ▸ rfl
  have canonical' : Canonical added.destination added.netmask := copy ▸ canonical
  have consistent := consistent_insert read.consistent split sorted canonical' enabled
    (copy ▸ sound_copyOf _)
  have members : ∀ routeInfo ∈ front ++ added :: back, routeInfo = added ∨
      routeInfo ∈ optimizer.routingTableInfo := by
    intro routeInfo member
    rw [List.mem_append, List.mem_cons] at member
    rw [split, List.mem_append]
    tauto
  refine ⟨_, inserted, consistent, rfl, fun routeInfo member => ?_, fun routeInfo member => ?_,
    fun other member => ?_, fun address => ?_⟩
  · rcases members routeInfo member with rfl | old
    · rw [copy]
      rfl
    · exact read.own routeInfo old
  · rcases members routeInfo member with rfl | old
    · rw [copy]
      exact (List.getElem?_eq_some_iff.mp found).1
    · rw [List.length_append]
      exact (read.colors routeInfo old).trans_le (Nat.le_add_right _ _)
  · rcases List.mem_append.mp member with old | new
    · obtain ⟨routeInfo, inside, same⟩ := read.listed other old
      rw [split, List.mem_append] at inside
      refine ⟨routeInfo, ?_, same⟩
      rw [List.mem_append, List.mem_cons]
      tauto
    · rw [List.mem_singleton.mp new]
      exact ⟨added, List.mem_append_right _ List.mem_cons_self, by rw [copy]; rfl⟩
  · have represents : Represents (optimizer.colorToRoute ++ later) route added := by
      rw [copy]
      exact ⟨rfl, rfl, routeColor, found, same⟩
    refine represents_insert consistent.canonical below beyond enabled represents ?_
    rw [← split]
    exact rel_mono (fun _ _ represents => represents.append) (read.represents address)

theorem read_start : Read [] {} :=
  ⟨⟨.nil, fun _ => nofun, fun _ => nofun, fun _ => nofun⟩, rfl, fun _ => nofun, fun _ => nofun,
    fun _ => nofun, fun _ => .none⟩

theorem Read.addAll {later : List Ipv4Route}
    (canonical : ∀ route ∈ later, Canonical route.dest route.netmask) :
    ∀ {routes : List Ipv4Route} {optimizer : Optimizer}, Read routes optimizer →
      ∃ optimizer', later.foldlM Optimizer.addOriginalRoute optimizer = .ok optimizer' ∧
        Read (routes ++ later) optimizer' := by
  induction later with
  | nil =>
    intro routes optimizer read
    rw [List.append_nil]
    exact ⟨optimizer, rfl, read⟩
  | cons route later ih =>
    intro routes optimizer read
    obtain ⟨next, added, read'⟩ := read.add (canonical route List.mem_cons_self)
    obtain ⟨last, others, read''⟩ :=
      ih (fun route member => canonical route (List.mem_cons_of_mem _ member)) read'
    rw [List.append_assoc] at read''
    exact ⟨last, by rw [List.foldlM_cons, added, ok_bind, others], read''⟩

/-! ### Destinations -/

theorem matchingColor_eq (table : RoutingTableInfo) (destination : Ipv4Address) :
    matchingColor table destination =
      (table.find? (·.routes destination)).map (·.color) := by
  rw [matchingColor, findBestMatchingRouteInfo, List.take_length, find?_eq_bind]
  cases table.findIdx? (·.routes destination) <;> rfl

theorem matchingColor_plain (table : RoutingTableInfo) (destination : Ipv4Address) :
    matchingColor (table.map plain) destination = matchingColor table destination := by
  rw [matchingColor_eq, matchingColor_eq, List.find?_map, Option.map_map]
  rfl

/-- The first match of a destination of the table has that destination. -/
theorem Read.first (read : Read routes optimizer)
    (member : routeInfo ∈ optimizer.routingTableInfo) :
    ∃ first, optimizer.routingTableInfo.find? (·.routes routeInfo.destination) = some first ∧
      first.destination = routeInfo.destination ∧
      Attached optimizer.routingTableInfo first.toOriginalRouteInfo := by
  have holds : routeInfo.routes routeInfo.destination = true := by
    rw [RouteInfo.routes, read.consistent.enabled routeInfo member]
    exact captures_self routeInfo
  cases found : optimizer.routingTableInfo.find? (·.routes routeInfo.destination) with
  | none => exact absurd holds (List.find?_eq_none.mp found routeInfo member)
  | some first =>
    have listed := List.mem_of_find?_eq_some found
    have matching := List.find?_some (p := fun (r : RouteInfo) => r.routes routeInfo.destination)
      found
    have canonical := read.consistent.canonical routeInfo member
    have canonical' := read.consistent.canonical first listed
    have longer := (rank_le_iff _ _).mp (find?_rank_le read.consistent.sorted found member holds)
    have same := destination_eq canonical canonical' (Bool.and_eq_true_iff.mp matching).2
      (length_le_of_le canonical.valid canonical'.valid longer.1)
    refine ⟨first, rfl, same, first, ?_, ?_⟩
    · rw [same]
      exact found
    · rw [read.own first listed]
      exact List.mem_singleton.mpr rfl

theorem Optimized.color (optimized : Optimized table table')
    {o : OriginalRouteInfo} (attached : Attached table o) :
    ∃ routeInfo, table'.find? (·.routes o.destination) = some routeInfo ∧
      routeInfo.color = o.color := by
  obtain ⟨routeInfo, found, member⟩ := optimized.attached o attached
  have sound := optimized.consistent.sound routeInfo (List.mem_of_find?_eq_some found)
  exact ⟨routeInfo, found, (sound o member).2.symm⟩

theorem Read.check
    (read : Read routes optimizer) (optimized : Optimized optimizer.routingTableInfo table') :
    checkOriginalRoutes table' optimizer.originalRoutingTableInfo = .ok ⟨⟩ := by
  rw [read.original]
  refine forM_returns fun _ member => ?_
  obtain ⟨routeInfo, listed, rfl⟩ := List.mem_map.mp member
  obtain ⟨first, found, destination, attached⟩ := read.first listed
  obtain ⟨last, found', color⟩ := optimized.color attached
  rw [destination] at found'
  refine if_pos ?_
  rw [matchingColor_plain, matchingColor_eq, matchingColor_eq]
  change ((table'.find? (·.routes routeInfo.destination)).map _).isSome ∧ Option.map _
    (table'.find? (·.routes routeInfo.destination)) = Option.map _
      (optimizer.routingTableInfo.find? (·.routes routeInfo.destination))
  rw [found, found', Option.map_some, Option.map_some, color]
  exact ⟨rfl, rfl⟩

/-! ### The optimized routes -/

/-- A route as the optimizer gives it out. -/
structure Emitted (colorToRoute : List Ipv4Route) (routeInfo : RouteInfo) (route : Ipv4Route) :
    Prop where
  destination : route.dest = routeInfo.destination
  netmask : route.netmask = routeInfo.netmask
  color : ∃ routeColor, colorToRoute[routeInfo.color]? = some routeColor ∧
    routesHaveSameColor route routeColor = true

theorem optimizedRoute_emitted (returned : optimizedRoute colorToRoute routeInfo = .ok route) :
    Emitted colorToRoute routeInfo route := by
  unfold optimizedRoute at returned
  split at returned
  next routeColor found =>
    cases returned
    exact ⟨rfl, rfl, routeColor, found, by simp [routesHaveSameColor]⟩
  next => cases returned

theorem longestPrefixMatch_emitted (consistent : Consistent table)
    (emitted : List.Forall₂ (Emitted colorToRoute) table routes) (address : Ipv4Address) :
    Option.Rel (Emitted colorToRoute) (table.find? (·.routes address))
      (longestPrefixMatch routes address) := by
  have canonical : List.Forall₂ (fun routeInfo route =>
      (routeInfo.enabled = true ∧ Canonical routeInfo.destination routeInfo.netmask) ∧
        Emitted colorToRoute routeInfo route) table routes :=
    (List.forall₂_and_left _ _).mpr ⟨fun routeInfo member =>
      ⟨consistent.enabled routeInfo member, consistent.canonical routeInfo member⟩, emitted⟩
  have sorted : routes.Pairwise fun a b =>
      b.netmask.getNetmaskLength ≤ a.netmask.getNetmaskLength := by
    refine pairwise_related (fun a b a' b' here there le => ?_) canonical consistent.sorted
    rw [here.2.netmask, there.2.netmask]
    exact length_le_of_le there.1.2.valid here.1.2.valid ((rank_le_iff _ _).mp le).1
  rw [longestPrefixMatch, argmax_filter_eq_find? sorted]
  refine rel_mono (fun _ _ both => both.2) (find?_rel (fun routeInfo route both => ?_) canonical)
  rw [RouteInfo.routes, both.1.1, Bool.true_and, covers, both.2.destination, both.2.netmask]
  rfl

/-- Routes that lead packets the same way. -/
structure SameAction (before after : Ipv4Route) : Prop where
  interface : after.interfacePtr = before.interfacePtr
  gateway : after.gateway = before.gateway
  sourceType : after.sourceType = before.sourceType
  metric : after.metric = before.metric

theorem sameAction_of_sameColor {before between after : Ipv4Route}
    (first : routesHaveSameColor between before = true)
    (second : routesHaveSameColor after between = true) : SameAction before after := by
  simp only [routesHaveSameColor, Bool.and_eq_true, beq_iff_eq] at first second
  obtain ⟨⟨⟨source, metric⟩, gateway⟩, interface⟩ := first
  obtain ⟨⟨⟨source', metric'⟩, gateway'⟩, interface'⟩ := second
  exact ⟨interface'.trans interface, gateway'.trans gateway, source'.trans source,
    metric'.trans metric⟩

/-- The destination of a route of the original table is routed as before. -/
def Preserves (originalRoutes optimizedRoutes : List Ipv4Route) (address : Ipv4Address) : Prop :=
  ∃ before after, longestPrefixMatch originalRoutes address = some before ∧
    longestPrefixMatch optimizedRoutes address = some after ∧ SameAction before after

theorem Read.preserves {optimizedRoutes : List Ipv4Route}
    (read : Read routes optimizer) (optimized : Optimized optimizer.routingTableInfo table')
    (emitted : List.Forall₂ (Emitted optimizer.colorToRoute) table' optimizedRoutes)
    (member : routeInfo ∈ optimizer.routingTableInfo) :
    Preserves routes optimizedRoutes routeInfo.destination := by
  obtain ⟨first, found, destination, attached⟩ := read.first member
  obtain ⟨last, found', color⟩ := optimized.color attached
  rw [destination] at found'
  have before := read.represents routeInfo.destination
  have after := longestPrefixMatch_emitted optimized.consistent emitted routeInfo.destination
  rw [found] at before
  rw [found'] at after
  unfold Preserves
  cases longest : longestPrefixMatch routes routeInfo.destination with
  | none =>
    rw [longest] at before
    cases before
  | some old =>
    cases longest' : longestPrefixMatch optimizedRoutes routeInfo.destination with
    | none =>
      rw [longest'] at after
      cases after
    | some new =>
      rw [longest] at before
      rw [longest'] at after
      cases before with
      | some represents =>
        cases after with
        | some emits =>
          obtain ⟨routeColor, at', same⟩ := represents.color
          obtain ⟨routeColor', at'', same'⟩ := emits.color
          rw [color, at'] at at''
          cases at''
          exact ⟨old, new, rfl, rfl, sameAction_of_sameColor same same'⟩

/-- A route through an interface with a number. -/
def routeThrough (dest netmask : Ipv4Address) (interfacePtr : Nat) : Ipv4Route :=
  { dest, netmask, interfacePtr := some interfacePtr }

/-- Two networks behind one interface, inside a network behind another. -/
def nestedRoutes : List Ipv4Route :=
  [routeThrough 0x0a000500#32 0xffffff00#32 1, routeThrough 0x0a000700#32 0xffffff00#32 1,
    routeThrough 0x0a000000#32 0xffff0000#32 2]

theorem nestedRoutes_canonical :
    ∀ route ∈ nestedRoutes, Canonical route.dest route.netmask := by
  have checked : ∀ route ∈ nestedRoutes,
      route.netmask.isValidNetmask = true ∧ route.dest &&& ~~~route.netmask = 0 := by decide
  exact fun route member => ⟨(checked route member).1, (checked route member).2⟩

end Inet.Configurator
