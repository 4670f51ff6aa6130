import Inet.Ipv6.Ipv6RoutingTable

/-!
# The destination cache

Only the addition of a route clears the cache. An entry stays right as long as its route is neither
removed nor changed, which the operations that do so do not see to.
-/
namespace Inet.Ipv6.Ipv6RoutingTable

variable {table next : Ipv6RoutingTable} {dest : Ipv6Address} {route : Ipv6Route}
  {entry : DestCacheEntry} {α : Type} {a : α} {l : List α} {q : α → Bool}

/-- The first route that matches, expired or not. -/
def best (dest : Ipv6Address) (routes : List Ipv6Route) : Option Ipv6Route :=
  routes.find? (·.fits dest)

/-- The entry is used for the destination. -/
def Uses (table : Ipv6RoutingTable) (dest : Ipv6Address) (entry : DestCacheEntry) : Prop :=
  table.liveEntry dest = some entry ∧ entry.interfaceId ≠ none

/-- The route gives what the entry has, and lasts as long. -/
structure Supports (dest : Ipv6Address) (entry : DestCacheEntry) (route : Ipv6Route) : Prop where
  output : outputOf dest route = (entry.nextHopAddr, entry.interfaceId)
  lasts : route.expiryTime = 0 ∨ 0 < entry.expiryTime ∧ entry.expiryTime ≤ route.expiryTime

/-- Each entry that is used has its route in the table. -/
def Coherent (table : Ipv6RoutingTable) : Prop :=
  ∀ dest entry, table.Uses dest entry →
    ∃ route, best dest table.routeList = some route ∧ Supports dest entry route

/-- The output for a destination is that of a longest prefix match. -/
def Agrees (table : Ipv6RoutingTable) : Prop :=
  ∀ dest table' output, table.determineOutputInterface dest = some (table', some output) →
    ∃ matched route, table.doLongestPrefixMatch dest = some (matched, some route) ∧
      outputOf dest route = output

/-! ### Safe operations -/

/-- Each entry that is used keeps its route when the routes with a property are removed. -/
def SparesWhere (table : Ipv6RoutingTable) (erased : Ipv6Route → Bool) : Prop :=
  ∀ dest entry route, table.Uses dest entry → best dest table.routeList = some route →
    erased route = false

/-- The first route with a property is not that of an entry which is used. -/
def SparesFirst (table : Ipv6RoutingTable) (erased : Ipv6Route → Bool) : Prop :=
  ∀ dest entry route, table.Uses dest entry → best dest table.routeList = some route →
    table.routeList.find? erased ≠ some route

/-- A route that is changed in place still supports the entries that are used. -/
def SparesChange (table : Ipv6RoutingTable) (id : Nat) (change : Ipv6Route → Ipv6Route) : Prop :=
  ∀ dest entry route, table.Uses dest entry → best dest table.routeList = some route →
    route.id = id → Supports dest entry (change route)

/-- After a sort the first match has the next hop, the interface and the expiry time that it had. -/
def SparesSort (table next : Ipv6RoutingTable) : Prop :=
  ∀ dest entry, table.Uses dest entry →
    (best dest next.routeList).map (fun route => (outputOf dest route, route.expiryTime)) =
      (best dest table.routeList).map fun route => (outputOf dest route, route.expiryTime)

/-- The condition for an advertised prefix, which only matters when its route exists. -/
def SparesUpdate (table : Ipv6RoutingTable) (sourceType : SourceType) (destPrefix : Ipv6Address)
    (prefixLength : Nat) (interfaceId : Option Nat) (expiryTime : Int) : Prop :=
  ∀ updated, (table.routeList.find? fun route => route.sourceType == sourceType &&
      route.destPrefix == destPrefix && route.prefixLength == prefixLength) = some updated →
    table.SparesChange updated.id fun route => { route with interfaceId, expiryTime }

/-- The operation does not take a route away from an entry that is used, or change it. -/
def Safe (table : Ipv6RoutingTable) : Operation → Prop
  | .addOrUpdateOnLinkPrefix _ destPrefix prefixLength interfaceId expiryTime =>
    table.SparesUpdate .ROUTER_ADVERTISEMENT destPrefix prefixLength interfaceId expiryTime
  | .addOrUpdateOwnAdvPrefix _ destPrefix prefixLength interfaceId expiryTime =>
    table.SparesUpdate .OWN_ADV_PREFIX destPrefix prefixLength interfaceId expiryTime
  | .removeRoute id => table.SparesFirst (·.id == id)
  | .deleteRoute id => table.SparesFirst (·.id == id)
  | .deleteOnLinkPrefix destPrefix prefixLength =>
    table.SparesFirst fun route => route.sourceType == .ROUTER_ADVERTISEMENT &&
      route.destPrefix == destPrefix && route.prefixLength == prefixLength
  | .deleteDefaultRoutes interfaceId =>
    table.SparesWhere fun route => route.interfaceId == some interfaceId && route.prefixLength == 0
  | .deleteAllRoutes => table.SparesWhere fun _ => true
  | .deletePrefixes interfaceId =>
    table.SparesWhere fun route =>
      route.interfaceId == some interfaceId && decide (route.prefixLength > 0)
  | .deleteInterfaceRoutes interfaceId => table.SparesWhere (·.interfaceId == some interfaceId)
  | .setNextHop id nextHop => table.SparesChange id fun route => { route with nextHop }
  | .setInterface id interfaceId => table.SparesChange id fun route => { route with interfaceId }
  | .setExpiryTime id expiryTime => table.SparesChange id fun route => { route with expiryTime }
  | .setDestination id destPrefix => table.SparesSort (table.setDestination id destPrefix)
  | .setPrefixLength id prefixLength => table.SparesSort (table.setPrefixLength id prefixLength)
  | .setMetric id metric => table.SparesSort (table.setMetric id metric)
  | .addRoute _ | .addStaticRoute .. | .addDefaultRoute .. | .interfaceDown _ | .setAdminDist ..
  | .setSourceType .. | .purgeDestCache | .purgeDestCacheEntriesToNeighbour ..
  | .purgeDestCacheForInterfaceId _ | .elapse _ | .determineOutputInterface _ => True

/-- Tables after operations that are allowed, from an empty table on. -/
inductive Reached (allowed : Ipv6RoutingTable → Operation → Prop) : Ipv6RoutingTable → Prop
  | initial (useAdminDist : Bool) : Reached allowed { useAdminDist }
  | step {table next : Ipv6RoutingTable} (operation : Operation) :
    Reached allowed table → allowed table operation → table.step operation = some next →
      Reached allowed next

/-! ### Removal -/

theorem find?_filter_of_kept {p : α → Bool}
    (found : l.find? q = some a) (kept : p a = true) : (l.filter p).find? q = some a := by
  induction l with
  | nil => cases found
  | cons b l ih =>
    rw [List.find?_cons] at found
    rw [List.filter_cons]
    split at found
    next here =>
      cases found
      rw [if_pos kept, List.find?_cons, here]
    next there =>
      split
      · rw [List.find?_cons, there]
        exact ih found
      · exact ih found

theorem find?_eraseP_of_ne {p : α → Bool}
    (found : l.find? q = some a) (other : l.find? p ≠ some a) :
    (l.eraseP p).find? q = some a := by
  induction l with
  | nil => cases found
  | cons b l ih =>
    rw [List.find?_cons] at found other
    rw [List.eraseP_cons]
    cases erased : p b with
    | true =>
      rw [erased] at other
      split at found
      next => exact absurd found other
      next => exact found
    | false =>
      rw [erased] at other
      rw [cond_false, List.find?_cons]
      split at found
      next => exact found
      next => exact ih found other

theorem Coherent.eraseWhere (coherent : table.Coherent)
    {erased : Ipv6Route → Bool} (spared : table.SparesWhere erased) :
    (table.eraseWhere erased).Coherent := by
  intro dest entry uses
  obtain ⟨route, found, supports⟩ := coherent dest entry uses
  exact ⟨route, find?_filter_of_kept found (by rw [spared dest entry route uses found]; rfl),
    supports⟩

theorem Coherent.eraseFirst (coherent : table.Coherent)
    {erased : Ipv6Route → Bool} (spared : table.SparesFirst erased) :
    (table.eraseFirst erased).Coherent := by
  intro dest entry uses
  obtain ⟨route, found, supports⟩ := coherent dest entry uses
  exact ⟨route, find?_eraseP_of_ne found (spared dest entry route uses found), supports⟩

/-! ### Purges -/

theorem Uses.of_le (next : Ipv6RoutingTable) (fewer : ∀ entry, next.destCache dest = some entry →
      table.destCache dest = some entry)
    (later : table.simTime ≤ next.simTime) (uses : next.Uses dest entry) :
    table.Uses dest entry := by
  obtain ⟨live, interface⟩ := uses
  refine ⟨?_, interface⟩
  unfold liveEntry at live ⊢
  obtain ⟨found, alive⟩ := Option.filter_eq_some_iff.mp live
  rw [Option.filter_eq_some_iff]
  refine ⟨fewer entry found, ?_⟩
  simp only [Bool.not_eq_true', Bool.and_eq_false_iff, decide_eq_false_iff_not] at alive ⊢
  omega

/-- Fewer entries for the same routes stay right as time passes. -/
theorem Coherent.fewer (coherent : table.Coherent) (same : next.routeList = table.routeList)
    (fewer : ∀ dest entry, next.destCache dest = some entry → table.destCache dest = some entry)
    (later : table.simTime ≤ next.simTime) : next.Coherent := by
  intro dest entry uses
  rw [same]
  exact coherent dest entry (uses.of_le next (fewer dest) later)

theorem Coherent.purgeWhere (coherent : table.Coherent)
    (purged : DestCacheEntry → Bool) : (table.purgeWhere purged).Coherent :=
  coherent.fewer rfl (fun _ _ found => (Option.filter_eq_some_iff.mp found).1) le_rfl

theorem Coherent.cleared (empty : ∀ dest, table.destCache dest = none) :
    table.Coherent := by
  rintro dest entry ⟨live, _⟩
  rw [liveEntry, empty dest] at live
  cases live

theorem Coherent.addRoute (table : Ipv6RoutingTable) (route : Ipv6Route) :
    (table.addRoute route).Coherent := .cleared fun _ => rfl

theorem Coherent.interfaceDown (coherent : table.Coherent)
    (interfaceId : Nat) : (table.interfaceDown interfaceId).Coherent := by
  intro dest entry uses
  have purged := (Option.filter_eq_some_iff.mp (Option.filter_eq_some_iff.mp uses.1).1).2
  have before : table.Uses dest entry :=
    Uses.of_le (table.interfaceDown interfaceId)
      (fun _ found => (Option.filter_eq_some_iff.mp found).1) le_rfl uses
  obtain ⟨route, found, supports⟩ := coherent dest entry before
  have interface : route.interfaceId = entry.interfaceId := congrArg Prod.snd supports.output
  refine ⟨route, find?_filter_of_kept found ?_, supports⟩
  dsimp only
  rw [interface]
  exact purged

/-! ### Changes -/

theorem find?_map_of_same {f : α → α} (same : ∀ b, q (f b) = q b) (found : l.find? q = some a) :
    (l.map f).find? q = some (f a) := by
  rw [List.find?_map]
  have composed : q ∘ f = q := funext same
  rw [composed, found]
  rfl

/-- A change in place that does not touch what a route matches. -/
theorem Coherent.changeInPlace (coherent : table.Coherent) {id : Nat}
    {change : Ipv6Route → Ipv6Route} (fits : ∀ dest route, (change route).fits dest = route.fits dest)
    (spared : table.SparesChange id change) : (table.changeInPlace id change).Coherent := by
  intro dest entry uses
  obtain ⟨route, found, supports⟩ := coherent dest entry uses
  refine ⟨_, find?_map_of_same (fun other => ?_) found, ?_⟩
  · split
    · exact fits dest other
    · rfl
  · split
    next here => exact spared dest entry route uses found here
    next => exact supports

theorem Supports.congr {other : Ipv6Route} (supports : Supports dest entry route)
    (same : (outputOf dest other, other.expiryTime) = (outputOf dest route, route.expiryTime)) :
    Supports dest entry other := by
  obtain ⟨output, expiryTime⟩ := Prod.mk.inj same
  exact ⟨output.trans supports.output, expiryTime ▸ supports.lasts⟩

theorem Coherent.sorted (coherent : table.Coherent)
    (cache : next.destCache = table.destCache) (time : next.simTime = table.simTime)
    (spared : table.SparesSort next) : next.Coherent := by
  intro dest entry uses
  have before : table.Uses dest entry :=
    uses.of_le next (fun _ found => cache ▸ found) time.ge
  obtain ⟨route, found, supports⟩ := coherent dest entry before
  have same := spared dest entry before
  rw [found, Option.map_some, Option.map_eq_some_iff] at same
  obtain ⟨other, found', same⟩ := same
  exact ⟨other, found', supports.congr same⟩

theorem changeSorted_cache (table : Ipv6RoutingTable) (id : Nat) (change : Ipv6Route → Ipv6Route) :
    (table.changeSorted id change).destCache = table.destCache ∧
      (table.changeSorted id change).simTime = table.simTime := by
  unfold changeSorted
  split
  · exact ⟨rfl, rfl⟩
  · split <;> exact ⟨rfl, rfl⟩

theorem Coherent.addOrUpdate (coherent : table.Coherent)
    {sourceType : SourceType} {newId : Nat} {destPrefix : Ipv6Address} {prefixLength : Nat}
    {interfaceId : Option Nat} {expiryTime : Int}
    (spared : table.SparesUpdate sourceType destPrefix prefixLength interfaceId expiryTime) :
    (table.addOrUpdate sourceType newId destPrefix prefixLength interfaceId expiryTime).Coherent := by
  unfold Ipv6RoutingTable.addOrUpdate
  split
  next => exact .addRoute table _
  next updated found =>
    have both : (table.setInterface updated.id interfaceId).setExpiryTime updated.id expiryTime =
        table.changeInPlace updated.id fun route => { route with interfaceId, expiryTime } := by
      unfold setInterface setExpiryTime Ipv6RoutingTable.changeInPlace
      dsimp only
      rw [List.map_map]
      congr 1
      refine List.map_congr_left fun route _ => ?_
      rw [Function.comp_apply]
      by_cases here : route.id = updated.id
      · rw [if_pos here, if_pos here, if_pos here]
      · rw [if_neg here, if_neg here, if_neg here]
    rw [both]
    exact coherent.changeInPlace (fun _ _ => rfl) (spared updated found)

/-! ### Lookup -/

theorem firstMatch_of_best {now : Nat} {routes : List Ipv6Route}
    (found : best dest routes = some route)
    (alive : route.expired now = false) : firstMatch now dest routes = some (routes, some route) := by
  induction routes with
  | nil => cases found
  | cons first routes ih =>
    rw [best, List.find?_cons] at found
    rw [firstMatch]
    split at found
    next here =>
      cases found
      rw [if_pos here, alive]
      rfl
    next there =>
      rw [there, ih found]
      rfl

/-- Only expired routes are removed, and what is found is the first match of the others. -/
theorem firstMatch_spec {now : Nat} {routes : List Ipv6Route} :
    ∀ {routes' : List Ipv6Route} {result : Option Ipv6Route},
      firstMatch now dest routes = some (routes', result) →
      (∀ route, result = some route → best dest routes' = some route ∧ route.expired now = false) ∧
        ∀ other route, best other routes = some route → route.expired now = false →
          best other routes' = some route := by
  induction routes with
  | nil =>
    intro routes' result returned
    cases returned
    exact ⟨nofun, fun _ _ found _ => found⟩
  | cons first routes ih =>
    intro routes' result returned
    rw [firstMatch] at returned
    split at returned
    next here =>
      split at returned
      next expired =>
        split at returned
        next =>
          obtain ⟨matched, others⟩ := ih returned
          refine ⟨matched, fun other route found alive => others other route ?_ alive⟩
          rw [best, List.find?_cons] at found
          split at found
          next =>
            cases found
            rw [expired] at alive
            cases alive
          next => exact found
        next => cases returned
      next alive =>
        cases returned
        refine ⟨fun route same => ?_, fun _ _ found _ => found⟩
        cases same
        refine ⟨?_, (Bool.not_eq_true _).mp alive⟩
        rw [best, List.find?_cons, here]
    next there =>
      obtain ⟨⟨rest, result'⟩, later, same⟩ := Option.map_eq_some_iff.mp returned
      cases same
      obtain ⟨matched, others⟩ := ih later
      constructor
      · intro route same
        obtain ⟨found, alive⟩ := matched route same
        refine ⟨?_, alive⟩
        rw [best, List.find?_cons, (Bool.not_eq_true _).mp there]
        exact found
      · intro other route found alive
        rw [best, List.find?_cons] at found ⊢
        split at found
        next => exact found
        next => exact others other route found alive

theorem Supports.alive (uses : table.Uses dest entry) (supports : Supports dest entry route) :
    route.expired table.simTime = false := by
  have live := (Option.filter_eq_some_iff.mp uses.1).2
  simp only [Bool.not_eq_true', Bool.and_eq_false_iff, decide_eq_false_iff_not] at live
  have lasts := supports.lasts
  simp only [Ipv6Route.expired, Bool.and_eq_false_iff, decide_eq_false_iff_not, bne_eq_false_iff_eq]
  omega

/-- The table after an entry has been looked up has the same entries that are used. -/
theorem lookupDestCache_liveEntry (table : Ipv6RoutingTable) (dest other : Ipv6Address) :
    (table.lookupDestCache dest).1.liveEntry other = table.liveEntry other := by
  unfold lookupDestCache
  dsimp only
  by_cases here : other = dest
  · subst here
    simp only [liveEntry, Function.update_self, Option.filter_filter, Bool.and_self]
  · simp only [liveEntry, Function.update_of_ne here]

theorem Coherent.lookupDestCache (coherent : table.Coherent)
    (dest : Ipv6Address) : (table.lookupDestCache dest).1.Coherent := by
  rintro other entry ⟨live, interface⟩
  rw [lookupDestCache_liveEntry] at live
  exact coherent other entry ⟨live, interface⟩

theorem Coherent.doLongestPrefixMatch {matched : Ipv6RoutingTable} (coherent : table.Coherent)
    {result : Option Ipv6Route}
    (returned : table.doLongestPrefixMatch dest = some (matched, result)) : matched.Coherent ∧
      matched.simTime = table.simTime ∧ ∀ route, result = some route →
        best dest matched.routeList = some route ∧ route.expired matched.simTime = false := by
  obtain ⟨⟨routes, result'⟩, found, same⟩ := Option.map_eq_some_iff.mp returned
  cases same
  obtain ⟨first, others⟩ := firstMatch_spec found
  refine ⟨fun other entry uses => ?_, rfl, first⟩
  obtain ⟨route, found', supports⟩ := coherent other entry uses
  exact ⟨route, others other route found' (supports.alive uses), supports⟩

/-- A route that has been found supports the entry that is made for it. -/
theorem Coherent.updateDestCache (coherent : table.Coherent)
     (found : best dest table.routeList = some route)
    (alive : route.expired table.simTime = false) :
    (table.updateDestCache dest
      { interfaceId := route.interfaceId, nextHopAddr := (outputOf dest route).1
        expiryTime := route.expiryTime }).Coherent := by
  intro other entry uses
  by_cases here : other = dest
  · subst here
    have made := (Option.filter_eq_some_iff.mp uses.1).1
    simp only [Ipv6RoutingTable.updateDestCache, Function.update_self, Option.some.injEq] at made
    subst made
    refine ⟨route, found, rfl, ?_⟩
    simp only [Ipv6Route.expired, Bool.and_eq_false_iff, decide_eq_false_iff_not,
      bne_eq_false_iff_eq] at alive
    dsimp only
    omega
  · have before : table.Uses other entry := by
      obtain ⟨live, interface⟩ := uses
      refine ⟨?_, interface⟩
      simp only [liveEntry, Ipv6RoutingTable.updateDestCache, Function.update_of_ne here] at live
      exact live
    exact coherent other entry before

theorem Coherent.determineOutputInterface (coherent : table.Coherent)
     {result : Option (Ipv6Address × Option Nat)}
    (returned : table.determineOutputInterface dest = some (next, result)) : next.Coherent := by
  have looked := coherent.lookupDestCache dest
  unfold Ipv6RoutingTable.determineOutputInterface at returned
  generalize table.lookupDestCache dest = cached at returned looked
  obtain ⟨table', entry⟩ := cached
  dsimp only at looked
  split at returned
  next hit =>
    cases hit
    cases returned
    exact looked
  next miss =>
    cases miss
    split at returned
    next => cases returned
    next unroutable =>
      cases returned
      exact (looked.doLongestPrefixMatch unroutable).1
    next routed =>
      cases returned
      obtain ⟨matched, _, first⟩ := looked.doLongestPrefixMatch routed
      obtain ⟨found, alive⟩ := first _ rfl
      exact matched.updateDestCache found alive

theorem Coherent.agrees (coherent : table.Coherent) : table.Agrees := by
  intro dest next output returned
  have live : (table.lookupDestCache dest).2 = table.liveEntry dest := rfl
  have list : (table.lookupDestCache dest).1.routeList = table.routeList := rfl
  have time : (table.lookupDestCache dest).1.simTime = table.simTime := rfl
  unfold Ipv6RoutingTable.determineOutputInterface at returned
  generalize table.lookupDestCache dest = cached at returned live list time
  obtain ⟨table', entry⟩ := cached
  dsimp only at live list time
  split at returned
  next interfaceId nextHopAddr expiryTime hit =>
    cases hit
    cases returned
    have uses : table.Uses dest ⟨some interfaceId, nextHopAddr, expiryTime⟩ := ⟨live.symm, nofun⟩
    obtain ⟨route, found, supports⟩ := coherent dest _ uses
    refine ⟨table, route, ?_, supports.output⟩
    rw [Ipv6RoutingTable.doLongestPrefixMatch, firstMatch_of_best found (supports.alive uses)]
    rfl
  next miss =>
    cases miss
    split at returned
    next => cases returned
    next => cases returned
    next matched route routed =>
      cases returned
      obtain ⟨⟨routes, result⟩, found, same⟩ := Option.map_eq_some_iff.mp routed
      rw [list, time] at found
      refine ⟨{ table with routeList := routes }, route, ?_, rfl⟩
      rw [Ipv6RoutingTable.doLongestPrefixMatch, found]
      cases same
      rfl

/-! ### Runs -/

theorem Coherent.step (coherent : table.Coherent)
    {operation : Operation} (safe : table.Safe operation)
    (returned : table.step operation = some next) : next.Coherent := by
  cases operation with
  | determineOutputInterface dest =>
    obtain ⟨⟨next', result⟩, determined, same⟩ := Option.map_eq_some_iff.mp returned
    cases same
    exact coherent.determineOutputInterface determined
  | addRoute route => exact Option.some.inj returned ▸ .addRoute table route
  | addOrUpdateOnLinkPrefix => exact Option.some.inj returned ▸ coherent.addOrUpdate safe
  | addOrUpdateOwnAdvPrefix => exact Option.some.inj returned ▸ coherent.addOrUpdate safe
  | addStaticRoute => exact Option.some.inj returned ▸ .addRoute table _
  | addDefaultRoute => exact Option.some.inj returned ▸ .addRoute table _
  | removeRoute => exact Option.some.inj returned ▸ coherent.eraseFirst safe
  | deleteRoute => exact Option.some.inj returned ▸ coherent.eraseFirst safe
  | deleteOnLinkPrefix => exact Option.some.inj returned ▸ coherent.eraseFirst safe
  | deleteDefaultRoutes => exact Option.some.inj returned ▸ coherent.eraseWhere safe
  | deleteAllRoutes => exact Option.some.inj returned ▸ coherent.eraseWhere safe
  | deletePrefixes => exact Option.some.inj returned ▸ coherent.eraseWhere safe
  | deleteInterfaceRoutes => exact Option.some.inj returned ▸ coherent.eraseWhere safe
  | interfaceDown => exact Option.some.inj returned ▸ coherent.interfaceDown _
  | setNextHop =>
    exact Option.some.inj returned ▸ coherent.changeInPlace (fun _ _ => rfl) safe
  | setInterface =>
    exact Option.some.inj returned ▸ coherent.changeInPlace (fun _ _ => rfl) safe
  | setExpiryTime =>
    exact Option.some.inj returned ▸ coherent.changeInPlace (fun _ _ => rfl) safe
  | setAdminDist =>
    refine Option.some.inj returned ▸ coherent.changeInPlace (fun _ _ => rfl) ?_
    intro dest entry route uses found _
    obtain ⟨other, found', supports⟩ := coherent dest entry uses
    cases found.symm.trans found'
    exact supports.congr rfl
  | setSourceType =>
    refine Option.some.inj returned ▸ coherent.changeInPlace (fun _ _ => rfl) ?_
    intro dest entry route uses found _
    obtain ⟨other, found', supports⟩ := coherent dest entry uses
    cases found.symm.trans found'
    exact supports.congr rfl
  | setDestination =>
    obtain ⟨cache, time⟩ := changeSorted_cache table _ _
    exact Option.some.inj returned ▸ coherent.sorted cache time safe
  | setPrefixLength =>
    obtain ⟨cache, time⟩ := changeSorted_cache table _ _
    exact Option.some.inj returned ▸ coherent.sorted cache time safe
  | setMetric =>
    obtain ⟨cache, time⟩ := changeSorted_cache table _ _
    exact Option.some.inj returned ▸ coherent.sorted cache time safe
  | purgeDestCache => exact Option.some.inj returned ▸ .cleared fun _ => rfl
  | purgeDestCacheEntriesToNeighbour => exact Option.some.inj returned ▸ coherent.purgeWhere _
  | purgeDestCacheForInterfaceId => exact Option.some.inj returned ▸ coherent.purgeWhere _
  | elapse duration =>
    exact Option.some.inj returned ▸ coherent.fewer rfl (fun _ _ => id) (Nat.le_add_right _ _)

/-- In runs of safe operations the cache gives what the table gives. -/
theorem destCache_agrees {table : Ipv6RoutingTable} (reached : Reached Safe table) :
    table.Agrees := by
  have coherent : table.Coherent := by
    induction reached with
    | initial useAdminDist => exact .cleared fun _ => rfl
    | step _ _ safe returned ih => exact ih.step safe returned
  exact coherent.agrees

/-- A default route by which a destination has been looked up. -/
def lookedUp : Ipv6RoutingTable :=
  (({ useAdminDist := false } : Ipv6RoutingTable).addDefaultRoute 0 5 (some 1) 0).lookupDestCache 7
    |>.1.updateDestCache 7 { interfaceId := some 1, nextHopAddr := 5, expiryTime := 0 }

theorem lookedUp_reached {allowed : Ipv6RoutingTable → Operation → Prop}
    (first : ∀ table, allowed table (.addDefaultRoute 0 5 (some 1) 0))
    (second : ∀ table, allowed table (.determineOutputInterface 7)) : Reached allowed lookedUp :=
  .step _ (.step _ (.initial false) (first _) rfl) (second _) rfl

theorem destCache_agrees_lookedUp : lookedUp.Agrees :=
  destCache_agrees (lookedUp_reached (fun _ => trivial) fun _ => trivial)

/-- The entry stays when its route is removed. -/
theorem removeRoute_stale :
    ¬ ∀ table, Reached (fun _ _ => True) table → table.Agrees := by
  intro agrees
  have removed : Reached (fun _ _ => True) (lookedUp.removeRoute 0) :=
    .step (.removeRoute 0)
      (lookedUp_reached (fun _ => trivial) fun _ => trivial) trivial rfl
  obtain ⟨matched, route, found, _⟩ := agrees _ removed 7
    ((lookedUp.removeRoute 0).lookupDestCache 7).1 (5, some 1) rfl
  have none : (lookedUp.removeRoute 0).doLongestPrefixMatch 7 =
      some (lookedUp.removeRoute 0, none) := rfl
  rw [none] at found
  cases found

end Inet.Ipv6.Ipv6RoutingTable
