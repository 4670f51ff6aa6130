import Inet.Configurator.OptimizedRoutes
import Inet.Configurator.RouteAttachments

/-!
# The bookkeeping of merges

While the loops merge routes, every original route is to be attached to the first match of its
destination. That is so to the end if it is so at the start, and no two routes are merged of which
the later one contains the other but has bits outside its netmask.
-/
namespace Inet.Configurator

open Inet.Ipv4 Ipv4Address Lib

variable {table : RoutingTableInfo}

/-! ### The run -/

/-- The pairs of routes that the loops have not looked at. -/
structure Merging where
  routingTableInfo : RoutingTableInfo
  pairs : List (Nat × Nat)

namespace Merging

def start (routingTableInfo : RoutingTableInfo) : Merging :=
  ⟨routingTableInfo, indexPairs routingTableInfo.length⟩

/-- The loops look at a pair. After a merge they start again. -/
def next : Merging → Except String (Option Merging)
  | ⟨_, []⟩ => .ok none
  | ⟨routeInfos, (i, j) :: rest⟩ =>
    match routeInfos[i]?, routeInfos[j]? with
    | some routeInfoI, some routeInfoJ =>
      if routeInfoI.color = routeInfoJ.color ∧ routesCanBeNeighbors routeInfos i j then do
        let (merged, after) ← tryToMergeTwoRoutes routeInfos i j routeInfoI routeInfoJ
        .ok (some (if merged then .start after else ⟨after, rest⟩))
      else .ok (some ⟨routeInfos, rest⟩)
    | _, _ => .ok (some ⟨routeInfos, rest⟩)

def Reaches : Merging → Merging → Prop :=
  Relation.ReflTransGen fun before after => before.next = .ok (some after)

/-- The loops, which have started with a table, call tryToMergeTwoRoutes. -/
structure Calls (first table : RoutingTableInfo) (i j : Nat) (routeInfoI routeInfoJ : RouteInfo) :
    Prop where
  reached : ∃ rest, (start first).Reaches ⟨table, (i, j) :: rest⟩
  atI : table[i]? = some routeInfoI
  atJ : table[j]? = some routeInfoJ
  color : routeInfoI.color = routeInfoJ.color
  neighbors : routesCanBeNeighbors table i j = true

end Merging

/-! ### The invariant -/

/-- Every original route is attached to one route, the first enabled one that matches its
destination, which has its color. -/
structure Bookkept (originals : List OriginalRouteInfo) (table : RoutingTableInfo) : Prop where
  once : (attachments table).Perm originals
  first : ∀ index routeInfo, table[index]? = some routeInfo →
    ∀ o ∈ routeInfo.originalRouteInfos,
      findBestMatchingRouteInfo table o.destination 0 table.length = some index ∧
        routeInfo.enabled = true ∧ routeInfo.color = o.color

def Optimizer.originals (optimizer : Optimizer) : List OriginalRouteInfo :=
  optimizer.originalRoutingTableInfo.map (·.toOriginalRouteInfo)

/-- Whatever is merged, original routes stay attached to their first matches, which keep their
colors. No assert fails, a merge that is rejected leaves the table, one that is accepted makes it
smaller, and the loops end. -/
structure Optimizer.Bookkeeping (optimizer : Optimizer) : Prop where
  bookkept : ∀ merging, (Merging.start optimizer.routingTableInfo).Reaches merging →
    Bookkept optimizer.originals merging.routingTableInfo
  colors : ∀ merging, (Merging.start optimizer.routingTableInfo).Reaches merging →
    ∀ o ∈ optimizer.originals,
      matchingColor merging.routingTableInfo o.destination = some o.color
  calls : ∀ table i j routeInfoI routeInfoJ,
    Merging.Calls optimizer.routingTableInfo table i j routeInfoI routeInfoJ →
      ∃ accepted after,
        tryToMergeTwoRoutes table i j routeInfoI routeInfoJ = .ok (accepted, after) ∧
          (accepted = true → after.length < table.length) ∧ (accepted = false → after = table)
  ends : ∃ table, mergeRoutesRepeatedly optimizer.routingTableInfo.length
      optimizer.routingTableInfo = .ok table ∧
    (Merging.start optimizer.routingTableInfo).Reaches ⟨table, []⟩

/-- No route matches the destination of a later one. -/
def FirstMatches (table : RoutingTableInfo) : Prop :=
  table.Pairwise fun first second => first.routes second.destination = false

/-- Of two routes that the loops try to merge the later one has no bits outside its netmask if its
network contains that of the other. -/
def CallsContain (table : RoutingTableInfo) : Prop :=
  ∀ after i j routeInfoI routeInfoJ, Merging.Calls table after i j routeInfoI routeInfoJ →
    Contains routeInfoI routeInfoJ

/-! ### Tables -/

theorem matches_iff {front back : RoutingTableInfo} {routeInfo : RouteInfo}
    {destination : Ipv4Address} (matching : routeInfo.routes destination = true) :
    findBestMatchingRouteInfo (front ++ routeInfo :: back) destination 0
        (front ++ routeInfo :: back).length = some front.length ↔
      ∀ before ∈ front, before.routes destination = false := by
  rw [findBestMatchingRouteInfo, List.take_length]
  constructor
  · intro found
    obtain ⟨front', first, back', split, length, _, skipped⟩ := exists_first found
    obtain rfl : front' = front := (List.append_inj split length.symm).1.symm
    exact skipped
  · intro skipped
    have front' : front.findIdx? (·.routes destination) = none :=
      List.findIdx?_eq_none_iff.mpr skipped
    rw [List.findIdx?_append, front', Option.none_or, List.findIdx?_cons, if_pos matching,
      Option.map_some, Nat.zero_add]

theorem Placed.bookkept (placed : Placed table)
    {originals : List OriginalRouteInfo} (once : (attachments table).Perm originals) :
    Bookkept originals table := by
  refine ⟨once, fun index routeInfo found o attached => ?_⟩
  obtain ⟨front, back, rfl, rfl⟩ := exists_middle found
  have member : routeInfo ∈ front ++ routeInfo :: back :=
    List.mem_append_right _ List.mem_cons_self
  have enabled := placed.enabled routeInfo member
  obtain ⟨captured, color⟩ := placed.sound routeInfo member o attached
  refine ⟨(matches_iff (Bool.and_eq_true_iff.mpr ⟨enabled, captured⟩)).mpr fun before earlier => ?_,
    enabled, color.symm⟩
  exact (List.pairwise_append.mp placed.spares).2.2 before earlier routeInfo List.mem_cons_self o
    attached

theorem Bookkept.color {originals : List OriginalRouteInfo}
    (bookkept : Bookkept originals table) {o : OriginalRouteInfo} (member : o ∈ originals) :
    matchingColor table o.destination = some o.color := by
  obtain ⟨routeInfo, listed, attached⟩ := List.mem_flatMap.mp (bookkept.once.mem_iff.mpr member)
  obtain ⟨index, found⟩ := List.mem_iff_getElem?.mp listed
  obtain ⟨first, _, color⟩ := bookkept.first index routeInfo found o attached
  rw [matchingColor, first, Option.bind_some, found, Option.map_some, color]

/-! ### Steps -/

namespace Merging

/-- The invariant of the loops. -/
structure Sound (originals : List OriginalRouteInfo) (merging : Merging) : Prop where
  placed : Placed merging.routingTableInfo
  once : (attachments merging.routingTableInfo).Perm originals
  behind : ∀ pair ∈ merging.pairs, pair.2 < pair.1

variable {originals : List OriginalRouteInfo} {merging after : Merging}

theorem Sound.start (placed : Placed table)
    (once : (attachments table).Perm originals) : (start table).Sound originals :=
  ⟨placed, once, fun _ member => (mem_indexPairs member).2⟩

theorem Sound.rest {pair : Nat × Nat} {rest : List (Nat × Nat)}
    (sound : Sound originals ⟨table, pair :: rest⟩) : Sound originals ⟨table, rest⟩ :=
  ⟨sound.placed, sound.once, fun _ member => sound.behind _ (List.mem_cons_of_mem _ member)⟩

/-- A call of tryToMergeTwoRoutes does what it should. -/
theorem Sound.call {i j : Nat} {rest : List (Nat × Nat)}
    (sound : Sound originals ⟨table, (i, j) :: rest⟩) {routeInfoI routeInfoJ : RouteInfo}
    (atI : table[i]? = some routeInfoI) (atJ : table[j]? = some routeInfoJ)
    (color : routeInfoI.color = routeInfoJ.color) (contains : Contains routeInfoI routeInfoJ) :
    tryToMergeTwoRoutes table i j routeInfoI routeInfoJ = .ok (false, table) ∨
      ∃ table', tryToMergeTwoRoutes table i j routeInfoI routeInfoJ = .ok (true, table') ∧
        Kept table table' ∧ (Merging.start table').Sound originals := by
  rcases tryToMergeTwoRoutes_kept sound.placed (sound.behind _ List.mem_cons_self) atI atJ color
    contains with rejected | ⟨table', accepted, kept⟩
  · exact .inl rejected
  · exact .inr ⟨table', accepted, kept, .start kept.placed (kept.attached.trans sound.once)⟩

/-- The pair that the loops look at, if tryToMergeTwoRoutes is called for it, is contained. -/
def Fits (merging : Merging) : Prop :=
  ∀ i j rest routeInfoI routeInfoJ, merging.pairs = (i, j) :: rest →
    merging.routingTableInfo[i]? = some routeInfoI →
    merging.routingTableInfo[j]? = some routeInfoJ → routeInfoI.color = routeInfoJ.color →
    routesCanBeNeighbors merging.routingTableInfo i j = true → Contains routeInfoI routeInfoJ

theorem Sound.next (sound : merging.Sound originals) (fits : merging.Fits)
    (stepped : merging.next = .ok (some after)) : after.Sound originals := by
  obtain ⟨table, pairs⟩ := merging
  cases pairs with
  | nil => cases stepped
  | cons pair rest =>
    obtain ⟨i, j⟩ := pair
    rw [Merging.next] at stepped
    split at stepped
    next routeInfoI routeInfoJ atI atJ =>
      split at stepped
      next called =>
        rcases sound.call atI atJ called.1 (fits i j rest _ _ rfl atI atJ called.1 called.2) with
          rejected | ⟨table', accepted, _, sound'⟩
        · rw [rejected, ok_bind] at stepped
          cases stepped
          exact sound.rest
        · rw [accepted, ok_bind] at stepped
          cases stepped
          exact sound'
      next =>
        cases stepped
        exact sound.rest
    next =>
      cases stepped
      exact sound.rest

/-- The invariant holds in a run as long as what is called fits. -/
theorem Sound.reaches (sound : merging.Sound originals) (reached : merging.Reaches after)
    (fits : ∀ between, merging.Reaches between → between.Sound originals → between.Fits) :
    after.Sound originals := by
  induction reached with
  | refl => exact sound
  | tail reached stepped ih => exact ih.next (fits _ reached ih) stepped

theorem tryToMergePairs_reaches {pairs : List (Nat × Nat)} :
    ∀ {table : RoutingTableInfo}, Sound originals ⟨table, pairs⟩ →
      (∀ between, Reaches ⟨table, pairs⟩ between → between.Fits) →
      tryToMergePairs table pairs = .ok (false, table) ∧ Reaches ⟨table, pairs⟩ ⟨table, []⟩ ∨
        ∃ table', tryToMergePairs table pairs = .ok (true, table') ∧ Kept table table' ∧
          (Merging.start table').Sound originals ∧ Reaches ⟨table, pairs⟩ (.start table') := by
  induction pairs with
  | nil => exact fun _ _ => .inl ⟨rfl, .refl⟩
  | cons pair rest ih =>
    obtain ⟨i, j⟩ := pair
    intro table sound fits
    have others : (⟨table, (i, j) :: rest⟩ : Merging).next = .ok (some ⟨table, rest⟩) →
        tryToMergePairs table rest = .ok (false, table) ∧
            Reaches ⟨table, (i, j) :: rest⟩ ⟨table, []⟩ ∨
          ∃ table', tryToMergePairs table rest = .ok (true, table') ∧ Kept table table' ∧
            (Merging.start table').Sound originals ∧
              Reaches ⟨table, (i, j) :: rest⟩ (.start table') := by
      intro stepped
      rcases ih sound.rest fun between reached => fits between (.head stepped reached) with
        ⟨none, reached⟩ | ⟨table', merged, kept, sound', reached⟩
      · exact .inl ⟨none, .head stepped reached⟩
      · exact .inr ⟨table', merged, kept, sound', .head stepped reached⟩
    have stepped := @Merging.next.eq_def ⟨table, (i, j) :: rest⟩
    rw [tryToMergePairs]
    dsimp only at stepped
    split
    next routeInfoI routeInfoJ atI atJ =>
      rw [atI, atJ] at stepped
      dsimp only at stepped
      split
      next called =>
        rw [if_pos called] at stepped
        rcases sound.call atI atJ called.1
          (fits _ .refl i j rest _ _ rfl atI atJ called.1 called.2) with
          rejected | ⟨table', accepted, kept, sound'⟩
        · rw [rejected, ok_bind] at stepped
          rw [rejected]
          exact others stepped
        · rw [accepted, ok_bind] at stepped
          rw [accepted]
          exact .inr ⟨table', rfl, kept, sound', .single stepped⟩
      next free =>
        rw [if_neg free] at stepped
        exact others stepped
    next missing =>
      refine others ?_
      rw [Merging.next]
      split
      next routeInfoI routeInfoJ atI atJ => exact absurd atJ (missing _ _ atI)
      next => rfl

/-- Every merge leaves one route less, so the loops end. -/
theorem mergeRoutesRepeatedly_reaches (fuel : Nat) :
    ∀ {table : RoutingTableInfo}, (Merging.start table).Sound originals →
      (∀ between, (Merging.start table).Reaches between → between.Fits) → table.length ≤ fuel →
      ∃ last, mergeRoutesRepeatedly fuel table = .ok last ∧
        (Merging.start table).Reaches ⟨last, []⟩ := by
  induction fuel with
  | zero =>
    intro table sound fits enough
    obtain rfl := List.length_eq_zero_iff.mp (Nat.le_zero.mp enough)
    exact ⟨[], rfl, .refl⟩
  | succ fuel ih =>
    intro table sound fits enough
    rw [mergeRoutesRepeatedly.eq_def]
    dsimp only
    rcases tryToMergePairs_reaches sound fits with
      ⟨none, reached⟩ | ⟨table', merged, kept, sound', reached⟩
    · rw [tryToMergeAnyTwoRoutes, none]
      exact ⟨table, rfl, reached⟩
    · rw [tryToMergeAnyTwoRoutes, merged]
      have shorter := kept.shorter
      obtain ⟨last, returned, reached'⟩ := ih sound'
        (fun between later => fits between (reached.trans later)) (by omega)
      exact ⟨last, returned, reached.trans reached'⟩

end Merging

/-! ### The first table -/

/-- The optimizer has copied original routes, to each of which its original route is attached. -/
structure Copied (optimizer : Optimizer) : Prop where
  sorted : Ranked rank optimizer.routingTableInfo
  original : optimizer.originalRoutingTableInfo = optimizer.routingTableInfo.map plain
  own : ∀ routeInfo ∈ optimizer.routingTableInfo,
    routeInfo = copyOf routeInfo.toOriginalRouteInfo

theorem copied_of_built {originalRoutes : List Ipv4Route} {optimizer : Optimizer}
    (built : originalRoutes.foldlM Optimizer.addOriginalRoute {} = .ok optimizer) :
    Copied optimizer := by
  refine foldlM_invariant Copied originalRoutes (fun before route _ copied after added => ?_) {}
    ⟨.nil, rfl, fun _ => nofun⟩ optimizer built
  obtain ⟨copy, same⟩ : ∃ copy, copy = copyOf ⟨(colorOf before.colorToRoute route).2, route.dest,
    route.netmask⟩ := ⟨_, rfl⟩
  obtain ⟨front, back, split, inserted, sorted, _⟩ :=
    addOriginalRoute_eq copied.sorted copied.original rfl same
  rw [inserted] at added
  cases added
  refine ⟨sorted, rfl, fun routeInfo member => ?_⟩
  rcases List.mem_append.mp member with old | member
  · exact copied.own routeInfo (by rw [split]; exact List.mem_append_left _ old)
  · rcases List.mem_cons.mp member with rfl | old
    · rw [same]
      rfl
    · exact copied.own routeInfo (by rw [split]; exact List.mem_append_right _ old)

namespace Copied

variable {optimizer : Optimizer} (copied : Copied optimizer)

include copied

theorem attachments_eq : attachments optimizer.routingTableInfo = optimizer.originals := by
  rw [Optimizer.originals, copied.original, List.map_map, attachments, List.flatMap]
  have each : optimizer.routingTableInfo.map (·.originalRouteInfos) =
      optimizer.routingTableInfo.map fun routeInfo => [routeInfo.toOriginalRouteInfo] := by
    refine List.map_congr_left fun routeInfo member => ?_
    conv_lhs => rw [copied.own routeInfo member]
    rfl
  rw [each]
  exact List.map_eq_flatMap.symm

theorem placed (first : FirstMatches optimizer.routingTableInfo) :
    Placed optimizer.routingTableInfo where
  sorted := copied.sorted
  enabled routeInfo member := by
    rw [copied.own routeInfo member]
    rfl
  sound routeInfo member := by
    rw [copied.own routeInfo member]
    exact sound_copyOf _
  spares := by
    refine first.imp_of_mem fun {_ second} _ member unmatched o attached => ?_
    rw [copied.own second member] at attached
    rw [List.mem_singleton.mp attached]
    exact unmatched

theorem firstMatches (bookkept : Bookkept optimizer.originals optimizer.routingTableInfo) :
    FirstMatches optimizer.routingTableInfo := by
  refine List.pairwise_iff_getElem.mpr fun i j insideI insideJ before => ?_
  have found := List.getElem?_eq_getElem insideJ
  obtain ⟨front, back, split, place⟩ := exists_middle found
  have own := copied.own _ (List.getElem_mem insideJ)
  have attached : optimizer.routingTableInfo[j].toOriginalRouteInfo ∈
      optimizer.routingTableInfo[j].originalRouteInfos := by
    rw [own]
    exact List.mem_cons_self
  obtain ⟨first, enabled, _⟩ := bookkept.first j _ found _ attached
  have matching : optimizer.routingTableInfo[j].routes
      optimizer.routingTableInfo[j].destination = true :=
    Bool.and_eq_true_iff.mpr ⟨enabled, captures_self _⟩
  have earlier : optimizer.routingTableInfo[i] ∈ front := by
    have same := congrArg (·[i]?) split
    rw [List.getElem?_eq_getElem insideI, List.getElem?_append_left (by omega)] at same
    exact List.mem_of_getElem? same.symm
  generalize optimizer.routingTableInfo[j] = routeInfo at *
  generalize optimizer.routingTableInfo[i] = other at *
  rw [split] at first
  subst place
  exact (matches_iff matching).mp first other earlier

end Copied

/-- The bookkeeping is sound if and only if it is so at the start and every pair of routes that the
loops try to merge fits. -/
theorem bookkeeping_iff {originalRoutes : List Ipv4Route} {optimizer : Optimizer}
    (built : originalRoutes.foldlM Optimizer.addOriginalRoute {} = .ok optimizer) :
    optimizer.Bookkeeping ↔ FirstMatches optimizer.routingTableInfo ∧
      CallsContain optimizer.routingTableInfo := by
  have copied := copied_of_built built
  have once : (attachments optimizer.routingTableInfo).Perm optimizer.originals := by
    rw [copied.attachments_eq]
  constructor
  · intro bookkeeping
    have first := copied.firstMatches (bookkeeping.bookkept _ .refl)
    have sound : (Merging.start optimizer.routingTableInfo).Sound optimizer.originals :=
      .start (copied.placed first) once
    have fits : ∀ between, (Merging.start optimizer.routingTableInfo).Reaches between →
        between.Sound optimizer.originals → between.Fits := by
      rintro ⟨table, _⟩ reached sound i j rest routeInfoI routeInfoJ rfl atI atJ color neighbors
      obtain ⟨accepted, after, returned, _⟩ := bookkeeping.calls table i j routeInfoI routeInfoJ
        ⟨⟨rest, reached⟩, atI, atJ, color, neighbors⟩
      exact contains_of_returned sound.placed.sorted (sound.behind _ List.mem_cons_self) atI atJ
        color returned
    refine ⟨first, fun table i j routeInfoI routeInfoJ called => ?_⟩
    obtain ⟨rest, reached⟩ := called.reached
    exact fits _ reached (sound.reaches reached fits) i j rest _ _ rfl called.atI called.atJ
      called.color called.neighbors
  · rintro ⟨first, contain⟩
    have sound : (Merging.start optimizer.routingTableInfo).Sound optimizer.originals :=
      .start (copied.placed first) once
    have fits : ∀ between, (Merging.start optimizer.routingTableInfo).Reaches between →
        between.Fits := by
      rintro ⟨table, _⟩ reached i j rest routeInfoI routeInfoJ rfl atI atJ color neighbors
      exact contain table i j routeInfoI routeInfoJ ⟨⟨rest, reached⟩, atI, atJ, color, neighbors⟩
    have kept : ∀ merging, (Merging.start optimizer.routingTableInfo).Reaches merging →
        merging.Sound optimizer.originals := fun merging reached =>
      sound.reaches reached fun between reached _ => fits between reached
    refine ⟨fun merging reached => ?_, fun merging reached o member => ?_,
      fun table i j routeInfoI routeInfoJ called => ?_,
      Merging.mergeRoutesRepeatedly_reaches _ sound fits le_rfl⟩
    · exact (kept merging reached).placed.bookkept (kept merging reached).once
    · exact ((kept merging reached).placed.bookkept (kept merging reached).once).color member
    · obtain ⟨rest, reached⟩ := called.reached
      rcases (kept _ reached).call called.atI called.atJ called.color
        (contain table i j routeInfoI routeInfoJ called) with
        rejected | ⟨table', accepted, smaller, _⟩
      · exact ⟨false, table, rejected, nofun, fun _ => rfl⟩
      · refine ⟨true, table', accepted, fun _ => ?_, nofun⟩
        have shorter := smaller.shorter
        omega

/-! ### Canonical routes -/

/-- Tables whose routes have no bits outside their netmasks. -/
structure Merging.Neat (merging : Merging) : Prop where
  consistent : Consistent merging.routingTableInfo
  behind : ∀ pair ∈ merging.pairs, pair.2 < pair.1

theorem Merging.Neat.next {merging after : Merging} (neat : merging.Neat)
    (stepped : merging.next = .ok (some after)) : after.Neat := by
  obtain ⟨table, pairs⟩ := merging
  cases pairs with
  | nil => cases stepped
  | cons pair rest =>
    have others : (⟨table, rest⟩ : Merging).Neat :=
      ⟨neat.consistent, fun _ member => neat.behind _ (List.mem_cons_of_mem _ member)⟩
    rw [Merging.next] at stepped
    split at stepped
    next routeInfoI routeInfoJ atI atJ =>
      split at stepped
      next called =>
        rcases tryToMergeTwoRoutes_spec neat.consistent (neat.behind _ List.mem_cons_self) atI atJ
          called.1 with failed | failed | rejected | ⟨table', accepted, merged⟩
        · rw [failed] at stepped
          cases stepped
        · rw [failed] at stepped
          cases stepped
        · rw [rejected, ok_bind] at stepped
          cases stepped
          exact others
        · rw [accepted, ok_bind] at stepped
          cases stepped
          exact ⟨merged.consistent, fun _ member => (mem_indexPairs member).2⟩
      next =>
        cases stepped
        exact others
    next =>
      cases stepped
      exact others

theorem callsContain_of_consistent (consistent : Consistent table) :
    CallsContain table := by
  intro after i j routeInfoI routeInfoJ called
  obtain ⟨rest, reached⟩ := called.reached
  have neat : (⟨after, (i, j) :: rest⟩ : Merging).Neat := by
    refine reached.rec ⟨consistent, fun _ member => (mem_indexPairs member).2⟩ ?_
    exact fun _ stepped ih => ih.next stepped
  have canonical := neat.consistent.canonical routeInfoI (List.mem_of_getElem? called.atI)
  exact fun _ _ _ => eq_masked canonical.masked

/-- Of two such routes the first one matches the destination of the second only if their
destinations are the same. -/
theorem firstMatches_iff (consistent : Consistent table) :
    FirstMatches table ↔ (table.map (·.destination)).Nodup := by
  have same : ∀ first ∈ table, ∀ second ∈ table, rank first ≤ rank second →
      (first.routes second.destination = false ↔ first.destination ≠ second.destination) := by
    intro first inside second inside' order
    have canonical := consistent.canonical first inside
    have canonical' := consistent.canonical second inside'
    rw [← Bool.not_eq_true, not_iff_not]
    constructor
    · intro matching
      exact destination_eq canonical' canonical (Bool.and_eq_true_iff.mp matching).2
        (length_le_of_le canonical'.valid canonical.valid ((rank_le_iff _ _).mp order).1)
    · intro equal
      rw [← equal]
      exact Bool.and_eq_true_iff.mpr ⟨consistent.enabled first inside, captures_self first⟩
  rw [List.Nodup, List.pairwise_map]
  constructor
  · intro first
    refine (first.and consistent.sorted).imp_of_mem fun inside inside' both => ?_
    exact (same _ inside _ inside' both.2).mp both.1
  · intro distinct
    refine (distinct.and consistent.sorted).imp_of_mem fun inside inside' both => ?_
    exact (same _ inside _ inside' both.2).mpr both.1

theorem bookkeeping_iff_nested : ∃ optimizer : Optimizer,
    nestedRoutes.foldlM Optimizer.addOriginalRoute {} = .ok optimizer ∧ optimizer.Bookkeeping := by
  obtain ⟨optimizer, built, read⟩ := read_start.addAll nestedRoutes_canonical
  have distinct : (optimizer.routingTableInfo.map (·.destination)).Nodup := by
    have computed : (nestedRoutes.foldlM Optimizer.addOriginalRoute {}).map
        (fun o : Optimizer => o.routingTableInfo.map (·.destination)) =
        .ok [0x0a000500#32, 0x0a000700#32, 0x0a000000#32] := by decide +kernel
    rw [show nestedRoutes.foldlM Optimizer.addOriginalRoute {} = .ok optimizer from built] at computed
    have destinations : optimizer.routingTableInfo.map (·.destination) = _ :=
      Except.ok.inj computed
    rw [destinations]
    decide
  exact ⟨optimizer, built, (bookkeeping_iff built).mpr
    ⟨(firstMatches_iff read.consistent).mpr distinct, callsContain_of_consistent read.consistent⟩⟩

/-- Two networks behind another interface, between a network and a part of it with the same
address. -/
def coveredRoutes : List Ipv4Route :=
  [routeThrough 0x0a000000#32 0xffffff00#32 1, routeThrough 0x0a004000#32 0xffffff00#32 2,
    routeThrough 0x0a008000#32 0xffffff00#32 2, routeThrough 0x0a000000#32 0xff000000#32 1]

/-- The merge of 10.0.64.0/24 and 10.0.128.0/24 captures the original route of 10.0.0.0/8. -/
theorem coveredRoutes_fail : ¬∀ (originalRoutes : List Ipv4Route) (optimizer : Optimizer),
    originalRoutes.foldlM Optimizer.addOriginalRoute {} = .ok optimizer →
      checkOriginalRoutes optimizer.routingTableInfo optimizer.originalRoutingTableInfo = .ok () →
        optimizer.Bookkeeping := by
  intro always
  have checked : ((coveredRoutes.foldlM Optimizer.addOriginalRoute {}).bind fun optimizer =>
      checkOriginalRoutes optimizer.routingTableInfo optimizer.originalRoutingTableInfo :
        Except String Unit) = .ok () := by decide +kernel
  have stopped : ((coveredRoutes.foldlM Optimizer.addOriginalRoute {}).bind fun optimizer =>
      mergeRoutesRepeatedly optimizer.routingTableInfo.length optimizer.routingTableInfo :
        Except String RoutingTableInfo) = .error capturedError := by decide +kernel
  cases built : coveredRoutes.foldlM Optimizer.addOriginalRoute {} with
  | error e =>
    rw [built] at checked
    cases checked
  | ok optimizer =>
    rw [built] at checked stopped
    obtain ⟨table, ended, _⟩ := (always coveredRoutes optimizer built checked).ends
    exact absurd (ended.symm.trans stopped) nofun

end Inet.Configurator
