import Inet.Configurator.RouteMerge

/-!
# The attachments of original routes in a merge

When every original route is attached to the first match of its destination, and that has its color,
a merge does not fail and keeps it that way. The merged route only has to stand behind the two
routes, which it does unless one of them has bits outside its netmask.
-/
namespace Inet.Configurator

open Inet.Ipv4 Ipv4Address Lib

variable {o : OriginalRouteInfo} {table front : RoutingTableInfo} {bit : Nat}
  {routeInfoI routeInfoJ : RouteInfo}

/-! ### The place of the merged route -/

/-- A route whose network contains that of another has no bits outside its netmask. -/
def Contains (outer inner : RouteInfo) : Prop :=
  outer.netmask.isValidNetmask = true → inner.netmask &&& outer.netmask = outer.netmask →
    inner.destination &&& outer.netmask = outer.destination &&& outer.netmask →
    outer.destination &&& outer.netmask = outer.destination

theorem makeNetmask_bit {length : Nat} (le : length ≤ 32) (inside : bit < 32) :
    makeNetmask length &&& 1#32 <<< bit = if 32 - length ≤ bit then 1#32 <<< bit else 0 := by
  rw [← BitVec.twoPow_eq, BitVec.and_twoPow, getLsbD_makeNetmask le inside]
  simp only [decide_eq_true_eq]
  rfl

/-- What a mask has of a bit it has of all of the bit. -/
theorem and_bit_of_inside {d mask : Ipv4Address} (inside : mask &&& 1#32 <<< bit = 1#32 <<< bit) :
    (d &&& mask) &&& 1#32 <<< bit = d &&& 1#32 <<< bit := by
  rw [BitVec.and_assoc, inside]

theorem one_shiftLeft_ne_zero (inside : bit < 32) : 1#32 <<< bit ≠ 0 := by
  have each : ∀ bit < 32, 1#32 <<< bit ≠ 0 := by decide
  exact each bit inside

section
variable {destination1 netmask1 destination2 netmask2 : Ipv4Address} {length : Nat}

/-- The common prefix is as long as the shorter of two netmasks up to which destinations agree. -/
theorem commonPrefix_netmask (le : length ≤ 32)
    (agree : destination1 &&& makeNetmask length = destination2 &&& makeNetmask length)
    (inside1 : netmask1 &&& makeNetmask length = makeNetmask length)
    (inside2 : netmask2 &&& makeNetmask length = makeNetmask length)
    (tight : netmask1 = makeNetmask length ∨ netmask2 = makeNetmask length) (bits : Nat) :
    ∀ {out : Ipv4Address × Ipv4Address}, bits ≤ 32 → 32 - bits ≤ length →
      out.2 = makeNetmask (32 - bits) →
      (commonPrefix destination1 netmask1 destination2 netmask2 bits out).2 =
        makeNetmask length := by
  induction bits with
  | zero =>
    intro out _ start reached
    rw [commonPrefix, reached, show length = 32 by omega]
  | succ bit ih =>
    intro out few start reached
    have within : bit < 32 := few
    have set := makeNetmask_bit le within
    rw [commonPrefix]
    by_cases more : 32 - length ≤ bit
    · rw [if_pos more] at set
      have agrees := congrArg (· &&& 1#32 <<< bit) agree
      have set1 := congrArg (· &&& 1#32 <<< bit) inside1
      have set2 := congrArg (· &&& 1#32 <<< bit) inside2
      rw [and_bit_of_inside set, and_bit_of_inside set] at agrees
      rw [and_bit_of_inside set, set] at set1 set2
      have clear := one_shiftLeft_ne_zero within
      rw [if_pos ⟨agrees, by rw [set1]; exact clear, by rw [set2]; exact clear⟩]
      refine ih (by omega) (by omega) ?_
      rw [reached, makeNetmask_succ within]
    · rw [if_neg more] at set
      rw [if_neg ?_, reached, show length = 32 - (bit + 1) by omega]
      rintro ⟨_, set1, set2⟩
      rcases tight with rfl | rfl
      · exact set1 set
      · exact set2 set

end

theorem later_of_common {merged routeInfo other : RouteInfo}
    (contains : Contains routeInfo other) (valid : merged.netmask.isValidNetmask = true)
    (common : Common routeInfo.destination routeInfo.netmask other.destination other.netmask
      (merged.destination, merged.netmask)) : rank routeInfo ≤ rank merged := by
  have short : merged.netmask.toNat ≤ routeInfo.netmask.toNat := by
    have both := congrArg BitVec.toNat common.inside1
    rw [BitVec.toNat_and] at both
    rw [← both]
    exact Nat.and_le_right
  refine (rank_le_iff _ _).mpr ⟨short, fun equal => ?_⟩
  have same : routeInfo.netmask = merged.netmask := BitVec.eq_of_toNat_eq equal
  have destination := common.destination
  have inside := common.inside2
  have agree := common.same
  dsimp only at destination inside agree
  rw [← same] at destination inside agree valid
  rw [destination, contains valid (by rw [BitVec.and_comm, inside]) agree.symm]

theorem contains_of_later (later : rank routeInfoI ≤ rank (mergeRoutes routeInfoI routeInfoJ)) :
    Contains routeInfoI routeInfoJ := by
  intro valid inside agree
  have netmask := beq_iff_eq.mp valid
  have same : (mergeRoutes routeInfoI routeInfoJ).netmask = routeInfoI.netmask := by
    conv_rhs => rw [netmask]
    refine commonPrefix_netmask (getNetmaskLength_le _) ?_ ?_ ?_ (.inl netmask) 32 le_rfl
      (by omega) (by decide)
    · rw [← netmask, agree]
    · rw [← netmask, BitVec.and_self]
    · rw [← netmask, inside]
  obtain ⟨_, _, _, common⟩ := mergeRoutes_common routeInfoI routeInfoJ
  have destination := common.destination
  dsimp only at destination
  have order := ((rank_le_iff _ _).mp later).2 (by rw [same])
  rw [destination, same] at order
  refine BitVec.eq_of_toNat_eq (le_antisymm ?_ order)
  rw [BitVec.toNat_and]
  exact Nat.and_le_left

/-! ### Attaching original routes -/

def attachments (table : RoutingTableInfo) : List OriginalRouteInfo :=
  table.flatMap (·.originalRouteInfos)

/-- The first route routes no original route of the second. -/
def Spares (first second : RouteInfo) : Prop :=
  ∀ o ∈ second.originalRouteInfos, first.routes o.destination = false

/-- The same route, which has more original routes unless it is disabled. -/
structure Fills (before after : RouteInfo) : Prop extends Extends before after where
  fixed : before.enabled = false → after = before

/-- The first match of an original route has its color. -/
def Leads (table : RoutingTableInfo) (o : OriginalRouteInfo) : Prop :=
  ∃ routeInfo, table.find? (·.routes o.destination) = some routeInfo ∧ routeInfo.color = o.color

/-- Original routes were attached to their first matches. -/
structure Gained (added : List OriginalRouteInfo) (table table' : RoutingTableInfo) : Prop where
  fills : List.Forall₂ Fills table table'
  attached : (attachments table').Perm (attachments table ++ added)
  sound : (∀ routeInfo ∈ table, routeInfo.Sound) → ∀ routeInfo ∈ table', routeInfo.Sound
  spares : table.Pairwise Spares → table'.Pairwise Spares

theorem Fills.refl (routeInfo : RouteInfo) : Fills routeInfo routeInfo :=
  ⟨.refl routeInfo, fun _ => rfl⟩

theorem fills_refl (table : RoutingTableInfo) : List.Forall₂ Fills table table :=
  List.forall₂_same.mpr fun routeInfo _ => .refl routeInfo

theorem fills_trans {a b c : RoutingTableInfo} (first : List.Forall₂ Fills a b)
    (second : List.Forall₂ Fills b c) : List.Forall₂ Fills a c := by
  induction first generalizing c with
  | nil => exact second
  | @cons before between _ _ here _ ih =>
    obtain ⟨after, _, here', rest, rfl⟩ := List.forall₂_cons_left_iff.mp second
    refine .cons ⟨here.toExtends.trans here'.toExtends, fun disabled => ?_⟩ (ih rest)
    have same := here.fixed disabled
    exact (here'.fixed (same ▸ disabled)).trans same

theorem Leads.fills {table' : RoutingTableInfo}
    (leads : Leads table o) (fills : List.Forall₂ Fills table table') : Leads table' o := by
  obtain ⟨routeInfo, found, color⟩ := leads
  have related := find?_rel (p := (·.routes o.destination)) (q := (·.routes o.destination))
    (fun _ _ (more : Fills _ _) => more.routes o.destination) fills
  rw [found] at related
  unfold Leads
  cases found' : table'.find? (·.routes o.destination) with
  | none =>
    rw [found'] at related
    cases related
  | some routeInfo' =>
    rw [found'] at related
    cases related with
    | some more => exact ⟨routeInfo', rfl, by rw [more.same, color]⟩

theorem Gained.trans {first second : List OriginalRouteInfo} {a b c : RoutingTableInfo}
    (one : Gained first a b) (other : Gained second b c) : Gained (first ++ second) a c where
  fills := fills_trans one.fills other.fills
  attached := by
    rw [← List.append_assoc]
    exact other.attached.trans (one.attached.append_right _)
  sound sound := other.sound (one.sound sound)
  spares spares := other.spares (one.spares spares)

theorem addOriginalRouteInfo_gained (back : RoutingTableInfo) (start : Nat)
     (leads : Leads front o) :
    ∃ front', addOriginalRouteInfo start front.length (front ++ back) o = .ok (front' ++ back) ∧
      Gained [o] front front' := by
  obtain ⟨routeInfo, found, color⟩ := leads
  obtain ⟨index, at'⟩ := findIdx?_isSome_of_find? found
  obtain ⟨before, first, after, rfl, rfl, holds, skipped⟩ := exists_first at'
  obtain rfl : first = routeInfo :=
    Option.some_inj.mp ((find?_middle (p := fun (r : RouteInfo) => r.routes o.destination)
      holds skipped).symm.trans found)
  unfold addOriginalRouteInfo findBestMatchingRouteInfo
  rw [List.take_left, at']
  dsimp only
  rw [List.append_assoc, List.cons_append, List.getElem?_append_right le_rfl, Nat.sub_self,
    List.getElem?_cons_zero, Option.any_some, modify_middle, if_pos (beq_iff_eq.mpr color)]
  have enabled : first.enabled = true := (Bool.and_eq_true_iff.mp holds).1
  have captured : first.captures o = true := (Bool.and_eq_true_iff.mp holds).2
  refine ⟨before ++ first.attach o :: after, by rw [List.append_assoc, List.cons_append],
    ?_, ?_, fun sound other member => ?_, fun spares => ?_⟩
  · refine List.rel_append (fills_refl before) (.cons ⟨⟨rfl, rfl, fun _ member =>
      List.mem_append_left _ member⟩, fun disabled => ?_⟩ (fills_refl after))
    rw [enabled] at disabled
    cases disabled
  · rw [List.perm_iff_count]
    intro other
    simp only [attachments, List.flatMap_append, List.flatMap_cons, RouteInfo.attach,
      List.count_append]
    omega
  · rcases List.mem_append.mp member with old | member
    · exact sound other (List.mem_append_left _ old)
    · rcases List.mem_cons.mp member with rfl | old
      · exact sound_attach (sound first (List.mem_append_right _ List.mem_cons_self)) captured
          color.symm
      · exact sound other (List.mem_append_right _ (List.mem_cons_of_mem _ old))
  · obtain ⟨early, late, across⟩ := List.pairwise_append.mp spares
    obtain ⟨ahead, rest⟩ := List.pairwise_cons.mp late
    refine List.pairwise_append.mpr ⟨early, List.pairwise_cons.mpr ⟨ahead, rest⟩, ?_⟩
    intro e earlier r member p attached
    rcases List.mem_cons.mp member with rfl | old
    · rcases List.mem_append.mp attached with old | new
      · exact across e earlier first List.mem_cons_self p old
      · rw [List.mem_singleton.mp new]
        exact skipped e earlier
    · exact across e earlier r (List.mem_cons_of_mem _ old) p attached

theorem addOriginalRouteInfos_gained (back : RoutingTableInfo) (start : Nat)
    (originals : List OriginalRouteInfo) :
    ∀ {front : RoutingTableInfo}, (∀ o ∈ originals, Leads front o) →
      ∃ front', addOriginalRouteInfos (front ++ back) start front.length originals =
          .ok (front' ++ back) ∧
        Gained originals front front' := by
  induction originals with
  | nil =>
    exact fun {front} _ => ⟨front, rfl, fills_refl front, by rw [List.append_nil], id, id⟩
  | cons o originals ih =>
    intro front leads
    obtain ⟨front₁, added, gained⟩ :=
      addOriginalRouteInfo_gained back start (leads o List.mem_cons_self)
    obtain ⟨front₂, added', gained'⟩ := @ih front₁ fun other member =>
      (leads other (List.mem_cons_of_mem _ member)).fills gained.fills
    refine ⟨front₂, ?_, gained.trans gained'⟩
    unfold addOriginalRouteInfos
    rw [List.foldlM_cons, added, ok_bind, gained.fills.length_eq]
    exact added'

/-! ### A merge without conflicts -/

theorem not_interrupts_iff {start finish : Nat} :
    interruptsOriginalRoute table start finish o = false ↔
      ∀ routeInfo, (table.take finish).find? (·.routes o.destination) = some routeInfo →
        routeInfo.color = o.color := by
  unfold interruptsOriginalRoute findBestMatchingRouteInfo
  rw [find?_eq_bind]
  cases found : (table.take finish).findIdx? (·.routes o.destination) with
  | none => exact ⟨fun _ _ => nofun, fun _ => rfl⟩
  | some index =>
    obtain ⟨before, routeInfo, after, split, rfl, _, _⟩ := exists_first found
    have listed : (table.take finish)[before.length]? = some routeInfo := by
      rw [split, getElem?_at_middle]
    have inside : table[before.length]? = some routeInfo := by
      rw [List.getElem?_take] at listed
      split at listed
      · exact listed
      · cases listed
    dsimp only [Option.bind_some]
    rw [listed, inside, Option.any_some, bne_eq_false_iff_eq]
    exact ⟨fun color _ same => Option.some_inj.mp same ▸ color, fun colors => colors _ rfl⟩

theorem not_interrupts_of_any {start finish : Nat}
    {originals : List OriginalRouteInfo} (nonempty : start < finish)
    (clear : interruptsAnyOriginalRoute table start finish originals = false)
    (member : o ∈ originals) : interruptsOriginalRoute table start finish o = false := by
  rw [interruptsAnyOriginalRoute, decide_eq_true nonempty, Bool.true_and,
    List.any_eq_false] at clear
  exact Bool.eq_false_iff.mpr (clear o member)

theorem leads_last {last : RouteInfo}
    (colors : ∀ routeInfo, front.find? (·.routes o.destination) = some routeInfo →
      routeInfo.color = o.color)
    (matching : last.routes o.destination = true) (color : last.color = o.color) :
    Leads (front ++ [last]) o := by
  unfold Leads
  rw [List.find?_append]
  cases found : front.find? (·.routes o.destination) with
  | none =>
    rw [Option.none_or]
    exact ⟨last, List.find?_cons_of_pos (p := fun (r : RouteInfo) => r.routes o.destination)
      matching, color⟩
  | some routeInfo => exact ⟨routeInfo, rfl, colors routeInfo found⟩

section
variable {x y z back : RoutingTableInfo} {routeInfoI routeInfoJ : RouteInfo}

/-- The routes before the merged one. -/
def ahead (x y z : RoutingTableInfo) (routeInfoI routeInfoJ : RouteInfo) : RoutingTableInfo :=
  x ++ disable routeInfoJ :: (y ++ disable routeInfoI :: z)

/-- A disabled route matches nothing. -/
theorem forall_mem_ahead {destination : Ipv4Address}
    (clear : ∀ routeInfo ∈ x ++ (y ++ z), routeInfo.routes destination = false) :
    ∀ routeInfo ∈ ahead x y z routeInfoI routeInfoJ, routeInfo.routes destination = false := by
  intro routeInfo member
  simp only [ahead, List.mem_append, List.mem_cons] at member
  rcases member with first | rfl | second | rfl | third
  · exact clear routeInfo (by simp [first])
  · rfl
  · exact clear routeInfo (by simp [second])
  · rfl
  · exact clear routeInfo (by simp [third])

theorem colors_of_clear {destination : Ipv4Address} {color : Nat}
    (clear : ∀ routeInfo ∈ front, routeInfo.routes destination = false) :
    ∀ routeInfo, front.find? (·.routes destination) = some routeInfo →
      routeInfo.color = color := by
  intro routeInfo found
  have none : front.find? (·.routes destination) = none :=
    List.find?_eq_none.mpr fun r member => by rw [clear r member]; exact Bool.false_ne_true
  rw [none] at found
  cases found

/-- A sorted table in which original routes are attached to their first matches, which have their
colors. -/
structure Placed (table : RoutingTableInfo) : Prop where
  sorted : Ranked rank table
  enabled : ∀ routeInfo ∈ table, routeInfo.enabled = true
  sound : ∀ routeInfo ∈ table, routeInfo.Sound
  spares : table.Pairwise Spares

variable (placed : Placed (x ++ routeInfoJ :: (y ++ routeInfoI :: (z ++ back))))
  (mergeable : mergeable (withMerged x y z back routeInfoI routeInfoJ) (x ++ routeInfoJ :: y).length
    x.length (ahead x y z routeInfoI routeInfoJ).length routeInfoI routeInfoJ = true)

include placed mergeable

/-- What the second route routed is led by a route of its color. -/
theorem colors_ahead_I : ∀ o ∈ routeInfoI.originalRouteInfos, ∀ routeInfo,
    (ahead x y z routeInfoI routeInfoJ).find? (·.routes o.destination) = some routeInfo →
      routeInfo.color = o.color := by
  intro o member
  cases z with
  | nil =>
    -- Only routes that stood before it could match, but it was the first match.
    refine colors_of_clear (forall_mem_ahead fun routeInfo before => ?_)
    obtain ⟨_, late, across⟩ := List.pairwise_append.mp placed.spares
    rw [List.append_nil] at before
    rcases List.mem_append.mp before with first | second
    · exact across routeInfo first routeInfoI (by simp) o member
    · exact (List.pairwise_append.mp (List.pairwise_cons.mp late).2).2.2 routeInfo second routeInfoI
        List.mem_cons_self o member
  | cons next z =>
    have clear := (Bool.and_eq_true_iff.mp (Bool.and_eq_true_iff.mp mergeable).1).2
    have fine := not_interrupts_iff.mp (not_interrupts_of_any (by
      simp only [ahead, List.length_append, List.length_cons]
      omega) ((Bool.not_eq_true' _).mp clear) member)
    rwa [withMerged, ← ahead, List.take_left] at fine

/-- What the first route routed is led by a route of its color. -/
theorem colors_ahead_J : ∀ o ∈ routeInfoJ.originalRouteInfos, ∀ routeInfo,
    (ahead x y z routeInfoI routeInfoJ).find? (·.routes o.destination) = some routeInfo →
      routeInfo.color = o.color := by
  intro o member
  have checks := Bool.and_eq_true_iff.mp (Bool.and_eq_true_iff.mp (Bool.and_eq_true_iff.mp
    mergeable).1).1
  cases z with
  | cons next z =>
    have fine := not_interrupts_iff.mp (not_interrupts_of_any (by
      simp only [ahead, List.length_append, List.length_cons]
      omega) ((Bool.not_eq_true' _).mp checks.2) member)
    rwa [withMerged, ← ahead, List.take_left] at fine
  | nil =>
    cases y with
    | nil =>
      refine colors_of_clear (forall_mem_ahead fun routeInfo before => ?_)
      obtain ⟨_, _, across⟩ := List.pairwise_append.mp placed.spares
      rw [List.append_nil, List.append_nil] at before
      exact across routeInfo before routeInfoJ List.mem_cons_self o member
    | cons next y =>
      have fine := not_interrupts_iff.mp (not_interrupts_of_any (by
        simp only [List.length_append, List.length_cons]
        omega) ((Bool.not_eq_true' _).mp checks.1) member)
      have front : (withMerged x (next :: y) [] back routeInfoI routeInfoJ).take
          (x ++ routeInfoJ :: next :: y).length = x ++ disable routeInfoJ :: next :: y := by
        have split : withMerged x (next :: y) [] back routeInfoI routeInfoJ =
            (x ++ disable routeInfoJ :: next :: y) ++
              disable routeInfoI :: mergeRoutes routeInfoI routeInfoJ :: back := by
          simp only [withMerged, List.append_assoc, List.cons_append, List.nil_append]
        have length : (x ++ routeInfoJ :: next :: y).length =
            (x ++ disable routeInfoJ :: next :: y).length := by
          simp only [List.length_append, List.length_cons]
        rw [split, length, List.take_left]
      rw [front] at fine
      have whole : ahead x (next :: y) [] routeInfoI routeInfoJ =
          (x ++ disable routeInfoJ :: next :: y) ++ disable routeInfoI :: [] := by
        simp only [ahead, List.append_assoc, List.cons_append]
      rw [whole, find?_skip (p := fun (r : RouteInfo) => r.routes o.destination) rfl,
        List.append_nil]
      exact fine

/-- The merged route takes original routes of its color only. -/
theorem colors_captured : ∀ o ∈ capturedFrom (mergeRoutes routeInfoI routeInfoJ) back,
    o.color = (mergeRoutes routeInfoI routeInfoJ).color := by
  intro o member
  obtain ⟨captured, routeInfo, listed, attached⟩ := mem_capturedFrom.mp member
  have clear := (Bool.not_eq_true' _).mp (Bool.and_eq_true_iff.mp mergeable).2
  rw [interruptsSubsequentOriginalRoutes, List.any_eq_false] at clear
  have front : (withMerged x y z back routeInfoI routeInfoJ).drop
      ((ahead x y z routeInfoI routeInfoJ).length + 1) = back := by
    rw [withMerged, ← ahead, List.drop_append, Nat.add_sub_cancel_left, List.drop_succ_cons,
      List.drop_zero, List.drop_of_length_le (Nat.le_succ _), List.nil_append]
  have fine := not_interrupts_iff.mp (not_interrupts_of_any (Nat.lt_succ_self _)
    (Bool.eq_false_iff.mpr (clear routeInfo (by rw [front]; exact listed))) attached)
  have upTo : (withMerged x y z back routeInfoI routeInfoJ).take
      ((ahead x y z routeInfoI routeInfoJ).length + 1) =
      ahead x y z routeInfoI routeInfoJ ++ mergeRoutes routeInfoI routeInfoJ :: [] := by
    rw [withMerged, ← ahead, List.take_append, Nat.add_sub_cancel_left, List.take_succ_cons,
      List.take_zero, List.take_of_length_le (Nat.le_succ _)]
  rw [upTo] at fine
  refine (fine _ (find?_middle (p := fun (r : RouteInfo) => r.routes o.destination) captured
    (forall_mem_ahead fun before member => ?_))).symm
  -- The route it is attached to was its first match.
  obtain ⟨_, late, across⟩ := List.pairwise_append.mp placed.spares
  obtain ⟨_, late', across'⟩ := List.pairwise_append.mp (List.pairwise_cons.mp late).2
  obtain ⟨_, _, across''⟩ := List.pairwise_append.mp (List.pairwise_cons.mp late').2
  simp only [List.mem_append] at member
  rcases member with first | second | third
  · exact across before first routeInfo (by simp [listed]) o attached
  · exact across' before second routeInfo (by simp [listed]) o attached
  · exact across'' before third routeInfo listed o attached

end

/-- What a merge makes of a table. -/
structure Kept (table table' : RoutingTableInfo) : Prop where
  placed : Placed table'
  shorter : table'.length + 1 = table.length
  attached : (attachments table').Perm (attachments table)

theorem routes_merged {routeInfo : RouteInfo} (sound : routeInfo.Sound) {merged : RouteInfo}
    (captures : ∀ o, routeInfo.captures o = true → merged.captures o = true)
    (enabled : merged.enabled = true) :
    ∀ o ∈ routeInfo.originalRouteInfos, merged.routes o.destination = true := fun o member =>
  Bool.and_eq_true_iff.mpr ⟨enabled, captures o (sound o member).1⟩

/-- The merged route captures what the others release. -/
theorem count_released (merged : RouteInfo) (following : RoutingTableInfo) (o : OriginalRouteInfo) :
    (attachments (following.map merged.release)).count o +
      (capturedFrom merged following).count o = (attachments following).count o := by
  induction following with
  | nil => rfl
  | cons routeInfo rest ih =>
    have here := (List.filter_append_perm merged.captures routeInfo.originalRouteInfos).count_eq o
    simp only [attachments, capturedFrom, List.map_cons, List.flatMap_cons, RouteInfo.release,
      List.count_append] at here ih ⊢
    omega

section
variable {x y z back : RoutingTableInfo} {routeInfoI routeInfoJ : RouteInfo}
  {x' y' z' : RoutingTableInfo} {merged' : RouteInfo}

/-- The table after a merge, when original routes have been attached to the routes up to the merged
one, and the two routes are removed. -/
theorem kept_parts (placed : Placed (x ++ routeInfoJ :: (y ++ routeInfoI :: (z ++ back))))
    (sorted : Ranked rank (withMerged x y z back routeInfoI routeInfoJ))
    (colors : ∀ o ∈ capturedFrom (mergeRoutes routeInfoI routeInfoJ) back,
      o.color = (mergeRoutes routeInfoI routeInfoJ).color)
    (gained : Gained (routeInfoI.originalRouteInfos ++ routeInfoJ.originalRouteInfos)
      (ahead x y z routeInfoI routeInfoJ ++ [mergeRoutes routeInfoI routeInfoJ])
      (ahead x' y' z' routeInfoI routeInfoJ ++ [merged']))
    (fillsX : List.Forall₂ Fills x x') (fillsY : List.Forall₂ Fills y y')
    (fillsZ : List.Forall₂ Fills z z') (more : Fills (mergeRoutes routeInfoI routeInfoJ) merged') :
    Kept (x ++ routeInfoJ :: (y ++ routeInfoI :: (z ++ back)))
      (x' ++ (y' ++ z') ++
        merged'.attachAll (capturedFrom (mergeRoutes routeInfoI routeInfoJ) back) ::
          back.map (mergeRoutes routeInfoI routeInfoJ).release) := by
  have fills : List.Forall₂ Extends (x ++ (y ++ z)) (x' ++ (y' ++ z')) :=
    (List.rel_append fillsX (List.rel_append fillsY fillsZ)).imp fun _ _ fills => fills.toExtends
  have same := sameRoute_captured back fills more.toExtends
  have sublist : (x ++ (y ++ z) ++ back).Sublist
      (x ++ routeInfoJ :: (y ++ routeInfoI :: (z ++ back))) := by
    simp only [List.append_assoc]
    exact (List.Sublist.refl x).append (.cons _ ((List.Sublist.refl y).append (.cons _ (.refl _))))
  have sublist' : (x ++ (y ++ z) ++ mergeRoutes routeInfoI routeInfoJ :: back).Sublist
      (withMerged x y z back routeInfoI routeInfoJ) :=
    ((List.Sublist.refl x).append
      (.cons _ ((List.Sublist.refl y).append (.cons _ (.refl _))))).append (.refl _)
  have remaining : (x' ++ (y' ++ z') ++ [merged']).Sublist
      (ahead x' y' z' routeInfoI routeInfoJ ++ [merged']) :=
    ((List.Sublist.refl x').append
      (.cons _ ((List.Sublist.refl y').append (.cons _ (.refl _))))).append (.refl _)
  have soundFront : ∀ routeInfo ∈ ahead x' y' z' routeInfoI routeInfoJ ++ [merged'],
      routeInfo.Sound := by
    refine gained.sound fun routeInfo member => ?_
    rcases List.mem_append.mp member with old | new
    · simp only [ahead, List.mem_append, List.mem_cons] at old
      rcases old with first | rfl | second | rfl | third
      · exact placed.sound routeInfo (by simp [first])
      · exact placed.sound routeInfoJ (by simp)
      · exact placed.sound routeInfo (by simp [second])
      · exact placed.sound routeInfoI (by simp)
      · exact placed.sound routeInfo (by simp [third])
    · rw [List.mem_singleton.mp new]
      exact fun o member => absurd member List.not_mem_nil
  have sparesFront : (ahead x' y' z' routeInfoI routeInfoJ ++ [merged']).Pairwise Spares := by
    refine gained.spares (List.pairwise_append.mpr ⟨?_, List.pairwise_singleton _ _, ?_⟩)
    · have front : (x ++ routeInfoJ :: (y ++ routeInfoI :: z)).Pairwise Spares := by
        refine placed.spares.sublist ((List.Sublist.refl x).append (.cons_cons _
          ((List.Sublist.refl y).append (.cons_cons _ (List.sublist_append_left z back)))))
      -- Disabled routes route less.
      refine pairwise_related (R := fun a b : RouteInfo =>
        b.originalRouteInfos = a.originalRouteInfos ∧ ∀ d, a.routes d = false → b.routes d = false)
        (fun a b a' b' here there spares o member => here.2 _ (spares o (there.1 ▸ member))) ?_
        front
      have unchanged (l : RoutingTableInfo) : List.Forall₂ (fun a b : RouteInfo =>
          b.originalRouteInfos = a.originalRouteInfos ∧
            ∀ d, a.routes d = false → b.routes d = false) l l :=
        List.forall₂_same.mpr fun _ _ => ⟨rfl, fun _ => id⟩
      exact List.rel_append (unchanged x) (.cons ⟨rfl, fun _ _ => rfl⟩
        (List.rel_append (unchanged y) (.cons ⟨rfl, fun _ _ => rfl⟩ (unchanged z))))
    · intro first _ last member
      rw [List.mem_singleton.mp member]
      exact fun o member => absurd member List.not_mem_nil
  have sparesBack := placed.spares.sublist sublist
  obtain ⟨_, late, across⟩ := List.pairwise_append.mp sparesBack
  obtain ⟨early, _, beforeMerged⟩ := List.pairwise_append.mp (sparesFront.sublist remaining)
  refine ⟨⟨ranked_same (fun _ _ equal => equal.same) same (sorted.sublist sublist'),
    fun routeInfo member => ?_, ?_, ?_⟩, ?_, ?_⟩
  · obtain ⟨before, inside, equal⟩ := exists_related same member
    rw [equal.enabled]
    rcases List.mem_append.mp inside with front | late
    · exact placed.enabled before (sublist.subset (List.mem_append_left _ front))
    · rcases List.mem_cons.mp late with rfl | late
      · rfl
      · exact placed.enabled before (sublist.subset (List.mem_append_right _ late))
  · exact sound_captured more.toExtends
      (fun routeInfo member => soundFront routeInfo (remaining.subset member))
      (fun routeInfo member => placed.sound routeInfo
        (sublist.subset (List.mem_append_right _ member))) colors
  · refine List.pairwise_append.mpr ⟨early, List.pairwise_cons.mpr ⟨?_, ?_⟩, ?_⟩
    · intro released member o attached
      obtain ⟨routeInfo, _, rfl⟩ := List.mem_map.mp member
      have free := (Bool.not_eq_true' _).mp (List.mem_filter.mp attached).2
      have matches' : (merged'.attachAll (capturedFrom (mergeRoutes routeInfoI routeInfoJ)
          back)).routes o.destination = (mergeRoutes routeInfoI routeInfoJ).routes o.destination :=
        (more.toExtends.routes o.destination).symm
      rw [matches']
      exact free
    · refine late.map _ fun a b spares o attached => ?_
      exact spares o (List.mem_filter.mp attached).1
    · intro first inside second member o attached
      obtain ⟨before, listed, extends'⟩ := exists_related fills inside
      rcases List.mem_cons.mp member with rfl | member
      · rcases List.mem_append.mp attached with old | new
        · exact beforeMerged first inside merged' List.mem_cons_self o old
        · obtain ⟨_, routeInfo, later, original⟩ := mem_capturedFrom.mp new
          rw [← extends'.routes]
          exact across before listed routeInfo later o original
      · obtain ⟨routeInfo, later, rfl⟩ := List.mem_map.mp member
        rw [← extends'.routes]
        exact across before listed routeInfo later o (List.mem_filter.mp attached).1
  · have lengths := fills.length_eq
    simp only [List.length_append, List.length_cons, List.length_map] at lengths ⊢
    omega
  · rw [List.perm_iff_count]
    intro o
    have counted := List.perm_iff_count.mp gained.attached o
    have released := count_released (mergeRoutes routeInfoI routeInfoJ) back o
    simp only [attachments, ahead, capturedFrom, List.flatMap_append, List.flatMap_cons,
      List.flatMap_nil, disable, RouteInfo.attachAll, mergeRoutes, List.count_append,
      List.count_nil] at counted released ⊢
    omega

end

/-- A merge of two routes that do not stick out of each other either fails to be allowed, and leaves
the table, or keeps all original routes at their first matches. -/
theorem tryToMergeTwoRoutes_kept (placed : Placed table) {i j : Nat}
    (before : j < i) (atI : table[i]? = some routeInfoI)
    (atJ : table[j]? = some routeInfoJ) (color : routeInfoI.color = routeInfoJ.color)
    (contains : Contains routeInfoI routeInfoJ) :
    tryToMergeTwoRoutes table i j routeInfoI routeInfoJ = .ok (false, table) ∨
      ∃ table', tryToMergeTwoRoutes table i j routeInfoI routeInfoJ = .ok (true, table') ∧
        Kept table table' := by
  obtain ⟨x, y, w, rfl, rfl, rfl⟩ := exists_parts before atI atJ
  obtain ⟨length, short, netmask, common⟩ := mergeRoutes_common routeInfoI routeInfoJ
  have soundI := placed.sound routeInfoI (by simp)
  have soundJ := placed.sound routeInfoJ (by simp)
  have valid : (mergeRoutes routeInfoI routeInfoJ).netmask.isValidNetmask = true := by
    rw [netmask]
    exact isValidNetmask_makeNetmask short
  obtain ⟨z, back, rfl, sorted, returned⟩ := tryToMergeTwoRoutes_eq placed.sorted color
    (placed.enabled routeInfoI (by simp)) (placed.enabled routeInfoJ (by simp))
    (later_of_common contains valid common)
  rw [returned]
  split
  next allowed =>
    have leadsI : ∀ o ∈ routeInfoI.originalRouteInfos,
        Leads (ahead x y z routeInfoI routeInfoJ ++ [mergeRoutes routeInfoI routeInfoJ]) o :=
      fun o member => leads_last (colors_ahead_I placed allowed o member)
        (routes_merged soundI (fun _ => captures_of_common common) rfl o member)
        (soundI o member).2.symm
    have leadsJ : ∀ o ∈ routeInfoJ.originalRouteInfos,
        Leads (ahead x y z routeInfoI routeInfoJ ++ [mergeRoutes routeInfoI routeInfoJ]) o :=
      fun o member => leads_last (colors_ahead_J placed allowed o member)
        (routes_merged soundJ (fun _ => captures_of_common common.swap) rfl o member)
        (color.trans (soundJ o member).2.symm)
    have colors := colors_captured placed allowed
    have asFront : withMerged x y z back routeInfoI routeInfoJ =
        (ahead x y z routeInfoI routeInfoJ ++ [mergeRoutes routeInfoI routeInfoJ]) ++ back := by
      rw [withMerged, ← ahead, List.append_assoc _ [_], List.singleton_append]
    have size : (ahead x y z routeInfoI routeInfoJ).length + 1 =
        (ahead x y z routeInfoI routeInfoJ ++ [mergeRoutes routeInfoI routeInfoJ]).length := by
      rw [List.length_append, List.length_singleton]
    obtain ⟨front₁, added, gained⟩ := addOriginalRouteInfos_gained back
      ((x ++ routeInfoJ :: y).length + 1) routeInfoI.originalRouteInfos leadsI
    obtain ⟨front₂, added', gained'⟩ := addOriginalRouteInfos_gained back (x.length + 1)
      routeInfoJ.originalRouteInfos fun o member => (leadsJ o member).fills gained.fills
    have both := gained.trans gained'
    obtain ⟨_, _, rfl, most, latter⟩ := forall₂_append_left both.fills
    obtain ⟨merged', _, more, none', rfl⟩ := List.forall₂_cons_left_iff.mp latter
    cases none'
    obtain ⟨x', _, rfl, fillsX, fromJ⟩ := forall₂_append_left most
    obtain ⟨_, _, moreJ, fromY, rfl⟩ := List.forall₂_cons_left_iff.mp fromJ
    obtain ⟨y', _, rfl, fillsY, fromI⟩ := forall₂_append_left fromY
    obtain ⟨_, z', moreI, fillsZ, rfl⟩ := List.forall₂_cons_left_iff.mp fromI
    obtain rfl := moreJ.fixed rfl
    obtain rfl := moreI.fixed rfl
    refine .inr ⟨_, ?_, kept_parts placed sorted colors both fillsX fillsY fillsZ more⟩
    have position : (ahead x y z routeInfoI routeInfoJ).length =
        (ahead x' y' z' routeInfoI routeInfoJ).length := by
      simp only [ahead, List.length_append, List.length_cons, fillsX.length_eq, fillsY.length_eq,
        fillsZ.length_eq]
    have positionI : (x ++ routeInfoJ :: y).length = (x' ++ disable routeInfoJ :: y').length := by
      simp only [List.length_append, List.length_cons, fillsX.length_eq, fillsY.length_eq]
    have asMiddle : x' ++ disable routeInfoJ :: (y' ++ disable routeInfoI :: z') ++ [merged'] ++
        back = ahead x' y' z' routeInfoI routeInfoJ ++ merged' :: back := by
      rw [List.append_assoc _ [_], List.singleton_append, ahead]
    have asI (rest : RoutingTableInfo) : ahead x' y' z' routeInfoI routeInfoJ ++ rest =
        (x' ++ disable routeInfoJ :: y') ++ disable routeInfoI :: (z' ++ rest) := by
      simp only [ahead, List.append_assoc, List.cons_append]
    have moved : moveOriginalRouteInfos (withMerged x y z back routeInfoI routeInfoJ)
        (x ++ routeInfoJ :: y).length x.length (ahead x y z routeInfoI routeInfoJ).length
        routeInfoI routeInfoJ (mergeRoutes routeInfoI routeInfoJ) =
        .ok (x' ++ (y' ++ z') ++
          merged'.attachAll (capturedFrom (mergeRoutes routeInfoI routeInfoJ) back) ::
            back.map (mergeRoutes routeInfoI routeInfoJ).release) := by
      rw [moveOriginalRouteInfos, asFront, size, added, ok_bind, gained.fills.length_eq, added',
        ok_bind, asMiddle, position, captureFollowing_eq, if_pos (List.all_eq_true.mpr fun o member =>
          beq_iff_eq.mpr (colors o member)), ok_bind, asI, positionI, eraseIdx_middle,
        List.append_assoc, List.cons_append, fillsX.length_eq, eraseIdx_middle]
      simp only [List.append_assoc]
    exact congrArg (Except.map (true, ·)) moved
  next => exact .inl rfl

/-- The assert that the merged route is inserted behind the two routes fails otherwise. -/
theorem contains_of_returned (sorted : Ranked rank table) {i j : Nat}
    (before : j < i) (atI : table[i]? = some routeInfoI)
    (atJ : table[j]? = some routeInfoJ) (color : routeInfoI.color = routeInfoJ.color)
    {result : Bool × RoutingTableInfo}
    (returned : tryToMergeTwoRoutes table i j routeInfoI routeInfoJ = .ok result) :
    Contains routeInfoI routeInfoJ := by
  obtain ⟨x, y, w, rfl, rfl, rfl⟩ := exists_parts before atI atJ
  obtain ⟨m, inside, found, below, _⟩ := upperBound_ok "the range is not sorted"
    (mergeRoutes routeInfoI routeInfoJ) routeInfoLessThan_eq (ranked_disable sorted)
  rw [tryToMergeTwoRoutes, if_neg (not_not.mpr color)] at returned
  dsimp only at returned
  rw [modify_disable, addRouteInfo, found, ok_bind] at returned
  dsimp only [ok_bind] at returned
  by_cases behind : m > (x ++ routeInfoJ :: y).length ∧ m > x.length
  · refine contains_of_later (below (disable routeInfoI) ?_)
    have split : x ++ disable routeInfoJ :: (y ++ disable routeInfoI :: w) =
        (x ++ disable routeInfoJ :: y) ++ disable routeInfoI :: w := by
      rw [List.append_assoc, List.cons_append]
    have length : (x ++ disable routeInfoJ :: y).length < m := by
      simp only [List.length_append, List.length_cons] at behind ⊢
      omega
    obtain ⟨k, rfl⟩ := Nat.exists_eq_add_of_lt length
    rw [split, Nat.add_assoc, List.take_length_add_append, List.take_succ_cons]
    exact List.mem_append_right _ List.mem_cons_self
  · erw [ok_bind] at returned
    rw [if_pos behind] at returned
    cases returned

end Inet.Configurator
