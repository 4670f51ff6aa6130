import Inet.Configurator.RouteOptimizer
import Inet.Lib.FirstMatch

/-!
# A merge of two routes

An original route is attached to the route that matches its destination. Whenever a merge returns,
the asserts have made sure that routes take over original routes of their own color only, and that
each is attached to the first match again.
-/
namespace Inet.Configurator

open Inet.Ipv4 Ipv4Address Lib

variable (a b : RouteInfo) {o : OriginalRouteInfo}
  {merged routeInfo routeInfoI routeInfoJ : RouteInfo} {table table' : RoutingTableInfo}
  {destination netmask : Ipv4Address}

/-! ### The common prefix -/

/-- Bits that two prefixes have in common, from the first one on. -/
structure Common (destination1 netmask1 destination2 netmask2 : Ipv4Address)
    (out : Ipv4Address × Ipv4Address) : Prop where
  destination : out.1 = destination1 &&& out.2
  same : destination1 &&& out.2 = destination2 &&& out.2
  inside1 : out.2 &&& netmask1 = out.2
  inside2 : out.2 &&& netmask2 = out.2

variable {destination1 netmask1 destination2 netmask2 : Ipv4Address}

theorem Common.bit {out : Ipv4Address × Ipv4Address} {mask : Ipv4Address}
    (common : Common destination1 netmask1 destination2 netmask2 out)
    (agree : destination1 &&& mask = destination2 &&& mask)
    (inside1 : mask &&& netmask1 = mask) (inside2 : mask &&& netmask2 = mask) :
    Common destination1 netmask1 destination2 netmask2
      (out.1 ||| destination1 &&& mask, out.2 ||| mask) where
  destination := by rw [BitVec.and_or_distrib_left, ← common.destination]
  same := by rw [BitVec.and_or_distrib_left, BitVec.and_or_distrib_left, common.same, agree]
  inside1 := by rw [BitVec.and_or_distrib_right, common.inside1, inside1]
  inside2 := by rw [BitVec.and_or_distrib_right, common.inside2, inside2]

theorem bit_inside {bit : Nat} (set : netmask &&& 1#32 <<< bit ≠ 0) :
    1#32 <<< bit &&& netmask = 1#32 <<< bit := by
  rw [← BitVec.twoPow_eq, BitVec.and_twoPow] at set
  rw [← BitVec.twoPow_eq, BitVec.and_comm, BitVec.and_twoPow]
  split
  · rfl
  next clear => exact absurd (if_neg clear) set

theorem commonPrefix_common (bits : Nat) :
    ∀ {out : Ipv4Address × Ipv4Address}, bits ≤ 32 → out.2 = makeNetmask (32 - bits) →
      Common destination1 netmask1 destination2 netmask2 out →
      ∃ length ≤ 32,
        (commonPrefix destination1 netmask1 destination2 netmask2 bits out).2 =
            makeNetmask length ∧
          Common destination1 netmask1 destination2 netmask2
            (commonPrefix destination1 netmask1 destination2 netmask2 bits out) := by
  induction bits with
  | zero => exact fun _ length common => ⟨32, le_rfl, length, common⟩
  | succ bit ih =>
    intro out inside length common
    rw [commonPrefix]
    split
    next agree =>
      refine ih (Nat.le_of_succ_le inside) ?_
        (common.bit agree.1 (bit_inside agree.2.1) (bit_inside agree.2.2))
      rw [length, makeNetmask_succ (by omega)]
    next => exact ⟨_, Nat.sub_le _ _, length, common⟩

variable (destination1 netmask1 destination2 netmask2) in
theorem findLongestCommonDestinationPrefix_common :
    ∃ length ≤ 32, (findLongestCommonDestinationPrefix destination1 netmask1 destination2
        netmask2).2 = makeNetmask length ∧
      Common destination1 netmask1 destination2 netmask2
        (findLongestCommonDestinationPrefix destination1 netmask1 destination2 netmask2) := by
  refine commonPrefix_common 32 le_rfl (by decide) ⟨?_, ?_, ?_, ?_⟩ <;> simp

theorem Common.swap {d n d' n' : Ipv4Address} {out : Ipv4Address × Ipv4Address}
    (common : Common d n d' n' out) : Common d' n' d n out :=
  ⟨common.destination.trans common.same, common.same.symm, common.inside2, common.inside1⟩

/-- The merged route has the bits that the destinations have up to its netmask. -/
theorem mergeRoutes_common (routeInfoI routeInfoJ : RouteInfo) :
    ∃ length ≤ 32, (mergeRoutes routeInfoI routeInfoJ).netmask = makeNetmask length ∧
      Common routeInfoI.destination routeInfoI.netmask routeInfoJ.destination routeInfoJ.netmask
        ((mergeRoutes routeInfoI routeInfoJ).destination,
          (mergeRoutes routeInfoI routeInfoJ).netmask) :=
  findLongestCommonDestinationPrefix_common _ _ _ _

theorem captures_of_common
    (common : Common routeInfo.destination routeInfo.netmask destination netmask
      (merged.destination, merged.netmask))
    (captured : routeInfo.captures o = true) : merged.captures o = true := by
  have inside := common.inside1
  have destination := common.destination
  dsimp only at inside destination
  have equal := maskedAddrAreEqual_iff.mp captured
  refine maskedAddrAreEqual_iff.mpr ?_
  rw [destination, BitVec.and_assoc, BitVec.and_self, ← inside,
    BitVec.and_comm merged.netmask, ← BitVec.and_assoc, equal, BitVec.and_assoc]

/-! ### The order of the table -/

/-- Longer netmasks first, and smaller destinations among those of one length. -/
def rank (routeInfo : RouteInfo) : ℕᵒᵈ ×ₗ ℕ :=
  toLex (OrderDual.toDual routeInfo.netmask.toNat, routeInfo.destination.toNat)

theorem rank_lt_iff :
    rank a < rank b ↔ b.netmask.toNat < a.netmask.toNat ∨
      a.netmask.toNat = b.netmask.toNat ∧ a.destination.toNat < b.destination.toNat := by
  rw [rank, rank, Prod.Lex.toLex_lt_toLex]
  exact Iff.rfl

theorem routeInfoLessThan_eq :
    routeInfoLessThan a b = decide (rank a < rank b) := by
  rw [Bool.eq_iff_iff, decide_eq_true_iff, rank_lt_iff]
  unfold routeInfoLessThan
  split
  next apart =>
    have apart' : a.netmask.toNat ≠ b.netmask.toNat := fun same => apart (BitVec.eq_of_toNat_eq same)
    rw [decide_eq_true_iff]
    exact ⟨.inl, fun either => either.elim id fun both => absurd both.1 apart'⟩
  next same =>
    rw [not_not] at same
    rw [same, decide_eq_true_iff]
    exact ⟨fun less => .inr ⟨rfl, less⟩,
      fun either => either.elim (absurd · (lt_irrefl _)) And.right⟩

theorem rank_le_iff :
    rank a ≤ rank b ↔ b.netmask.toNat ≤ a.netmask.toNat ∧
      (a.netmask.toNat = b.netmask.toNat → a.destination.toNat ≤ b.destination.toNat) := by
  rw [← not_lt, rank_lt_iff]
  omega

/-- The merged route matches all that both do, and stands behind them. -/
structure Covers (mergedRouteInfo routeInfo : RouteInfo) : Prop where
  color : mergedRouteInfo.color = routeInfo.color
  later : rank routeInfo ≤ rank mergedRouteInfo
  captures : ∀ originalRouteInfo, routeInfo.captures originalRouteInfo = true →
    mergedRouteInfo.captures originalRouteInfo = true

theorem covers_of_common (color : merged.color = routeInfo.color)
    (canonical : Canonical routeInfo.destination routeInfo.netmask)
    (common : Common routeInfo.destination routeInfo.netmask destination netmask
      (merged.destination, merged.netmask)) : Covers merged routeInfo where
  color := color
  later := by
    have short : merged.netmask.toNat ≤ routeInfo.netmask.toNat := by
      have both := congrArg BitVec.toNat common.inside1
      rw [BitVec.toNat_and] at both
      rw [← both]
      exact Nat.and_le_right
    refine (rank_le_iff _ _).mpr ⟨short, fun equal => ?_⟩
    have same : routeInfo.netmask = merged.netmask := BitVec.eq_of_toNat_eq equal
    have destination := common.destination
    dsimp only at destination
    rw [destination, ← same, eq_masked canonical.masked]
  captures _ := captures_of_common common

theorem mergeRoutes_covers (color : routeInfoI.color = routeInfoJ.color)
    (canonicalI : Canonical routeInfoI.destination routeInfoI.netmask)
    (canonicalJ : Canonical routeInfoJ.destination routeInfoJ.netmask) :
    Covers (mergeRoutes routeInfoI routeInfoJ) routeInfoI ∧
      Covers (mergeRoutes routeInfoI routeInfoJ) routeInfoJ ∧
      Canonical (mergeRoutes routeInfoI routeInfoJ).destination
        (mergeRoutes routeInfoI routeInfoJ).netmask := by
  obtain ⟨length, le, netmask, common⟩ := mergeRoutes_common routeInfoI routeInfoJ
  refine ⟨covers_of_common rfl canonicalI common, covers_of_common color canonicalJ common.swap,
    ?_, ?_⟩
  · exact (congrArg isValidNetmask netmask).trans (isValidNetmask_makeNetmask le)
  · have destination : (mergeRoutes routeInfoI routeInfoJ).destination = _ := common.destination
    rw [destination]
    exact masked_and

/-! ### Original routes -/

/-- The same route, with more original routes. -/
structure Extends (before after : RouteInfo) : Prop where
  same : after.toOriginalRouteInfo = before.toOriginalRouteInfo
  enabled : after.enabled = before.enabled
  keeps : ∀ o ∈ before.originalRouteInfos, o ∈ after.originalRouteInfos

theorem Extends.refl (routeInfo : RouteInfo) : Extends routeInfo routeInfo :=
  ⟨rfl, rfl, fun _ member => member⟩

theorem Extends.trans {a b c : RouteInfo} (first : Extends a b) (second : Extends b c) :
    Extends a c :=
  ⟨second.same.trans first.same, second.enabled.trans first.enabled,
    fun o member => second.keeps o (first.keeps o member)⟩

theorem Extends.routes {a b : RouteInfo} (more : Extends a b) (destination : Ipv4Address) :
    a.routes destination = b.routes destination := by
  simp only [RouteInfo.routes, more.same, more.enabled]

theorem extends_refl (table : RoutingTableInfo) : List.Forall₂ Extends table table :=
  List.forall₂_same.mpr fun routeInfo _ => .refl routeInfo

theorem extends_trans {a b c : RoutingTableInfo} (first : List.Forall₂ Extends a b)
    (second : List.Forall₂ Extends b c) : List.Forall₂ Extends a c := by
  induction first generalizing c with
  | nil => exact second
  | cons here _ ih =>
    obtain ⟨_, _, here', rest, rfl⟩ := List.forall₂_cons_left_iff.mp second
    exact .cons (here.trans here') (ih rest)

/-- A route routes original routes of its own color, all of which it matches. -/
def RouteInfo.Sound (routeInfo : RouteInfo) : Prop :=
  ∀ o ∈ routeInfo.originalRouteInfos, routeInfo.captures o = true ∧ o.color = routeInfo.color

/-- An original route is attached to the first match of its destination. -/
def Attached (table : RoutingTableInfo) (o : OriginalRouteInfo) : Prop :=
  ∃ routeInfo, table.find? (·.routes o.destination) = some routeInfo ∧
    o ∈ routeInfo.originalRouteInfos

theorem attached_extends (attached : Attached table o) (more : List.Forall₂ Extends table table') :
    Attached table' o := by
  obtain ⟨routeInfo, found, member⟩ := attached
  have related := find?_rel (p := (·.routes o.destination)) (q := (·.routes o.destination))
    (fun _ _ more => more.routes o.destination) more
  rw [found] at related
  cases found' : table'.find? (·.routes o.destination) with
  | none =>
    rw [found'] at related
    cases related
  | some routeInfo' =>
    rw [found'] at related
    cases related with
    | some extended => exact ⟨routeInfo', found', extended.keeps o member⟩

theorem sound_attach (sound : routeInfo.Sound)
    (matching : routeInfo.captures o = true) (color : o.color = routeInfo.color) :
    (routeInfo.attach o).Sound := by
  intro other member
  rcases List.mem_append.mp member with old | new
  · exact sound other old
  · rw [List.mem_singleton.mp new]
    exact ⟨matching, color⟩

theorem matched_extends (more : List.Forall₂ Extends table table')
    (matched : ∃ routeInfo ∈ table, routeInfo.routes destination = true) :
    ∃ routeInfo ∈ table', routeInfo.routes destination = true := by
  induction more with
  | nil => exact matched
  | @cons a b _ _ here _ ih =>
    rw [List.exists_mem_cons_iff, here.routes destination] at matched
    exact List.exists_mem_cons_iff _ _ _ |>.mpr (matched.imp_right ih)

/-- What is added to a range of the table goes to the first matches there. -/
structure Adds (front front' : RoutingTableInfo) : Prop where
  extended : List.Forall₂ Extends front front'
  sound : (∀ routeInfo ∈ front, routeInfo.Sound) → ∀ routeInfo ∈ front', routeInfo.Sound

theorem addOriginalRouteInfo_spec (back : RoutingTableInfo) (start : Nat) {front : RoutingTableInfo}
    (matched : ∃ routeInfo ∈ front, routeInfo.routes o.destination = true) :
    addOriginalRouteInfo start front.length (front ++ back) o = .error attachedError ∨
      ∃ front', addOriginalRouteInfo start front.length (front ++ back) o = .ok (front' ++ back) ∧
        Adds front front' ∧ Attached front' o := by
  obtain ⟨found, listed, holds⟩ := matched
  have some' : (front.findIdx? (·.routes o.destination)).isSome = true := by
    rw [List.findIdx?_isSome, List.any_eq_true]
    exact ⟨found, listed, holds⟩
  obtain ⟨index, at'⟩ := Option.isSome_iff_exists.mp some'
  obtain ⟨before, routeInfo, after, rfl, rfl, holds, skipped⟩ := exists_first at'
  unfold addOriginalRouteInfo findBestMatchingRouteInfo
  rw [List.take_left, at']
  dsimp only
  rw [List.append_assoc, List.cons_append, List.getElem?_append_right le_rfl, Nat.sub_self,
    List.getElem?_cons_zero, Option.any_some, modify_middle]
  split
  next color =>
    refine .inr ⟨before ++ routeInfo.attach o :: after, by
      rw [List.append_assoc, List.cons_append], ⟨?_, fun sound other member => ?_⟩, ?_⟩
    · exact List.rel_append (extends_refl before) (.cons
        ⟨rfl, rfl, fun _ member => List.mem_append_left _ member⟩ (extends_refl after))
    · rcases List.mem_append.mp member with old | member
      · exact sound other (List.mem_append_left _ old)
      · rcases List.mem_cons.mp member with rfl | old
        · exact sound_attach (sound routeInfo (List.mem_append_right _ List.mem_cons_self))
            (Bool.and_eq_true_iff.mp holds).2 (beq_iff_eq.mp color).symm
        · exact sound other (List.mem_append_right _ (List.mem_cons_of_mem _ old))
    · exact ⟨routeInfo.attach o, find?_middle holds skipped,
        List.mem_append_right _ List.mem_cons_self⟩
  next => exact .inl rfl

theorem addOriginalRouteInfos_spec (back : RoutingTableInfo) (start : Nat)
    (originals : List OriginalRouteInfo) :
    ∀ {front : RoutingTableInfo},
      (∀ o ∈ originals, ∃ routeInfo ∈ front, routeInfo.routes o.destination = true) →
      addOriginalRouteInfos (front ++ back) start front.length originals = .error attachedError ∨
        ∃ front', addOriginalRouteInfos (front ++ back) start front.length originals =
            .ok (front' ++ back) ∧
          Adds front front' ∧ ∀ o ∈ originals, Attached front' o := by
  induction originals with
  | nil =>
    exact fun {front} _ => .inr ⟨front, rfl, ⟨extends_refl front, id⟩,
      fun o member => absurd member List.not_mem_nil⟩
  | cons o originals ih =>
    intro front matched
    unfold addOriginalRouteInfos
    rw [List.foldlM_cons]
    rcases addOriginalRouteInfo_spec back start
        (matched o List.mem_cons_self) with failed | ⟨front₁, added, adds, attached⟩
    · rw [failed]
      exact .inl rfl
    · rw [added, ok_bind]
      have matched' : ∀ o ∈ originals, ∃ routeInfo ∈ front₁,
          routeInfo.routes o.destination = true := by
        intro other member
        exact matched_extends adds.extended (matched other (List.mem_cons_of_mem _ member))
      rcases @ih front₁ matched' with failed | ⟨front₂, added', adds', attached'⟩
      · rw [← adds.extended.length_eq] at failed
        exact .inl failed
      · rw [← adds.extended.length_eq] at added'
        refine .inr ⟨front₂, added', ⟨extends_trans adds.extended adds'.extended,
          fun sound => adds'.sound (adds.sound sound)⟩, fun other member => ?_⟩
        rcases List.mem_cons.mp member with rfl | member
        · exact attached_extends attached adds'.extended
        · exact attached' other member

theorem mem_capturedFrom {following : RoutingTableInfo} :
    o ∈ capturedFrom merged following ↔
      merged.captures o = true ∧ ∃ routeInfo ∈ following, o ∈ routeInfo.originalRouteInfos := by
  simp only [capturedFrom, List.mem_flatMap, List.mem_filter]
  exact ⟨fun ⟨routeInfo, listed, member, captured⟩ => ⟨captured, routeInfo, listed, member⟩,
    fun ⟨captured, routeInfo, listed, member⟩ => ⟨routeInfo, listed, member, captured⟩⟩

theorem captureFollowing_eq (front back : RoutingTableInfo) (current merged : RouteInfo) :
    captureFollowing (front ++ current :: back) front.length merged =
      if (capturedFrom merged back).all (·.color == merged.color) then
        .ok (front ++ current.attachAll (capturedFrom merged back) :: back.map merged.release)
      else .error capturedError := by
  have front' : (front ++ current :: back).take (front.length + 1) = front ++ [current] := by
    rw [List.take_append, Nat.add_sub_cancel_left, List.take_succ_cons, List.take_zero,
      List.take_of_length_le (Nat.le_succ _)]
  have back' : (front ++ current :: back).drop (front.length + 1) = back := by
    rw [List.drop_append, Nat.add_sub_cancel_left, List.drop_succ_cons, List.drop_zero,
      List.drop_of_length_le (Nat.le_succ _), List.nil_append]
  rw [captureFollowing, front', back', modify_middle, List.append_assoc, List.singleton_append]

theorem captureFollowing_spec (front back : RoutingTableInfo) (current merged : RouteInfo) :
    captureFollowing (front ++ current :: back) front.length merged = .error capturedError ∨
      captureFollowing (front ++ current :: back) front.length merged =
          .ok (front ++ current.attachAll (capturedFrom merged back) :: back.map merged.release) ∧
        ∀ o ∈ capturedFrom merged back, o.color = merged.color := by
  rw [captureFollowing_eq]
  split
  next all => exact .inr ⟨rfl, fun o member => beq_iff_eq.mp (List.all_eq_true.mp all o member)⟩
  next => exact .inl rfl

/-! ### The merge -/

/-- A table that is sorted, in which all routes are enabled. -/
structure Consistent (table : RoutingTableInfo) : Prop where
  sorted : Ranked rank table
  canonical : ∀ routeInfo ∈ table, Canonical routeInfo.destination routeInfo.netmask
  enabled : ∀ routeInfo ∈ table, routeInfo.enabled = true
  sound : ∀ routeInfo ∈ table, routeInfo.Sound

/-- The same route, whatever its original routes are. -/
structure SameRoute (before after : RouteInfo) : Prop where
  same : after.toOriginalRouteInfo = before.toOriginalRouteInfo
  enabled : after.enabled = before.enabled

theorem Extends.sameRoute {a b : RouteInfo} (more : Extends a b) : SameRoute a b :=
  ⟨more.same, more.enabled⟩

theorem ranked_same {R : RouteInfo → RouteInfo → Prop}
    (same : ∀ a b, R a b → b.toOriginalRouteInfo = a.toOriginalRouteInfo)
    (related : List.Forall₂ R table table') (sorted : Ranked rank table) : Ranked rank table' := by
  have equal : ∀ a b : RouteInfo, R a b → rank b = rank a := fun a b related => by
    simp only [rank, same a b related]
  refine pairwise_related (fun a b a' b' here there le => ?_) related sorted
  rw [equal a b here, equal a' b' there]
  exact le

section
variable {before before' back : RoutingTableInfo} {merged merged' : RouteInfo}
  (extended : List.Forall₂ Extends before before') (more : Extends merged merged')

variable (back) in
include extended more in
theorem sameRoute_captured :
    List.Forall₂ SameRoute (before ++ merged :: back)
      (before' ++ merged'.attachAll (capturedFrom merged back) :: back.map merged.release) := by
  refine List.rel_append (extended.imp fun _ _ more => more.sameRoute)
    (.cons ⟨more.same, more.enabled⟩ ?_)
  rw [List.forall₂_map_right_iff]
  exact List.forall₂_same.mpr fun _ _ => ⟨rfl, rfl⟩

include more in
theorem sound_captured (sound : ∀ routeInfo ∈ before' ++ [merged'], routeInfo.Sound)
    (sound' : ∀ routeInfo ∈ back, routeInfo.Sound)
    (colors : ∀ o ∈ capturedFrom merged back, o.color = merged.color) :
    ∀ routeInfo ∈
      before' ++ merged'.attachAll (capturedFrom merged back) :: back.map merged.release,
      routeInfo.Sound := by
  intro routeInfo member
  rcases List.mem_append.mp member with old | member
  · exact sound routeInfo (List.mem_append_left _ old)
  · rcases List.mem_cons.mp member with rfl | member
    · intro o member
      rcases List.mem_append.mp member with old | new
      · exact sound merged' (List.mem_append_right _ List.mem_cons_self) o old
      · have captured := (mem_capturedFrom.mp new).1
        rw [RouteInfo.captures] at captured ⊢
        rw [colors o new]
        simp only [RouteInfo.attachAll, more.same]
        exact ⟨captured, trivial⟩
    · obtain ⟨routeInfo, listed, rfl⟩ := List.mem_map.mp member
      exact fun o kept => sound' routeInfo listed o (List.mem_filter.mp kept).1

/-- Original routes of the routes before the merged one, or of itself, stay where they are. -/
theorem attached_front {captured : List OriginalRouteInfo}
    (attached : Attached (before' ++ [merged']) o) :
    Attached (before' ++ merged'.attachAll captured :: back) o := by
  obtain ⟨routeInfo, found, member⟩ := attached
  rw [List.find?_append] at found
  unfold Attached
  rw [List.find?_append]
  cases first : before'.find? (·.routes o.destination) with
  | some other =>
    rw [first] at found
    cases found
    exact ⟨routeInfo, rfl, member⟩
  | none =>
    rw [first, Option.none_or] at found
    obtain rfl := List.mem_singleton.mp (List.mem_of_find?_eq_some found)
    have holds := List.find?_some (p := fun (x : RouteInfo) => x.routes o.destination) found
    rw [Option.none_or]
    exact ⟨_, List.find?_cons_of_pos (a := routeInfo.attachAll captured) holds,
      List.mem_append_left _ member⟩

include extended more in
theorem attached_captured (enabled : merged.enabled = true)
    (attached : Attached (before ++ back) o) :
    Attached (before' ++ merged'.attachAll (capturedFrom merged back) :: back.map merged.release)
      o := by
  obtain ⟨routeInfo, found, member⟩ := attached
  have related := find?_rel (p := (·.routes o.destination)) (q := (·.routes o.destination))
    (fun _ _ more => more.routes o.destination) extended
  unfold Attached
  rw [List.find?_append] at found ⊢
  cases first : before.find? (·.routes o.destination) with
  | some other =>
    rw [first] at found related
    cases found
    cases found' : before'.find? (·.routes o.destination) with
    | none =>
      rw [found'] at related
      cases related
    | some other =>
      rw [found'] at related
      cases related with
      | some extended => exact ⟨other, rfl, extended.keeps o member⟩
  | none =>
    rw [first] at found related
    rw [Option.none_or] at found
    have none' : before'.find? (·.routes o.destination) = none := by
      cases found' : before'.find? (·.routes o.destination) with
      | none => rfl
      | some other =>
        rw [found'] at related
        cases related
    rw [none', Option.none_or]
    have listed := List.mem_of_find?_eq_some found
    have same : (merged'.attachAll (capturedFrom merged back)).routes o.destination =
        merged.captures o := by
      simp only [RouteInfo.routes, RouteInfo.attachAll, RouteInfo.captures, more.same,
        more.enabled, enabled, Bool.true_and]
    cases captured : merged.captures o with
    | true =>
      rw [captured] at same
      exact ⟨_, List.find?_cons_of_pos same,
        List.mem_append_right _ (mem_capturedFrom.mpr ⟨captured, routeInfo, listed, member⟩)⟩
    | false =>
      rw [captured] at same
      rw [List.find?_cons_of_neg (by rw [same]; decide)]
      have released : (back.map merged.release).find? (·.routes o.destination) =
          some (merged.release routeInfo) := by
        rw [List.find?_map]
        exact congrArg (Option.map merged.release) found
      exact ⟨_, released, List.mem_filter.mpr ⟨member, by rw [captured]; rfl⟩⟩

end

/-- What a merge makes of a table. -/
structure Merged (table table' : RoutingTableInfo) : Prop where
  consistent : Consistent table'
  shorter : table'.length + 1 = table.length
  colors : ∀ routeInfo ∈ table', ∃ before ∈ table, before.color = routeInfo.color
  attached : ∀ o, Attached table o → Attached table' o

/-- The parts of a table before and after a merge of two of its routes, which stand before the
merged route and are disabled until they are removed. -/
theorem merged_parts {x y z back front' : RoutingTableInfo} {i j : RouteInfo}
    (consistent : Consistent (x ++ j :: (y ++ i :: (z ++ back))))
    (sorted : Ranked rank (x ++ disable j :: (y ++ disable i :: z) ++ merged :: back))
    (canonical : Canonical merged.destination merged.netmask) (enabled : merged.enabled = true)
    (empty : merged.originalRouteInfos = []) (color : merged.color = i.color)
    (adds : Adds (x ++ disable j :: (y ++ disable i :: z) ++ [merged]) front')
    (attachedJ : ∀ o ∈ j.originalRouteInfos, Attached front' o)
    (attachedI : ∀ o ∈ i.originalRouteInfos, Attached front' o) :
    ∃ x' j' y' i' z' merged', front' = x' ++ j' :: (y' ++ i' :: z') ++ [merged'] ∧
      x'.length = x.length ∧ y'.length = y.length ∧ z'.length = z.length ∧
      ((∀ o ∈ capturedFrom merged back, o.color = merged.color) →
        Merged (x ++ j :: (y ++ i :: (z ++ back)))
        (x' ++ (y' ++ z') ++
          merged'.attachAll (capturedFrom merged back) :: back.map merged.release)) := by
  obtain ⟨_, last, rfl, most, latter⟩ := forall₂_append_left adds.extended
  obtain ⟨merged', _, more, none', rfl⟩ := List.forall₂_cons_left_iff.mp latter
  cases none'
  obtain ⟨x', _, rfl, partX, fromJ⟩ := forall₂_append_left most
  obtain ⟨j', _, moreJ, fromY, rfl⟩ := List.forall₂_cons_left_iff.mp fromJ
  obtain ⟨y', _, rfl, partY, fromI⟩ := forall₂_append_left fromY
  obtain ⟨i', z', moreI, partZ, rfl⟩ := List.forall₂_cons_left_iff.mp fromI
  refine ⟨x', j', y', i', z', merged', rfl, partX.length_eq.symm, partY.length_eq.symm,
    partZ.length_eq.symm, fun colors => ?_⟩
  have extended : List.Forall₂ Extends (x ++ (y ++ z)) (x' ++ (y' ++ z')) :=
    List.rel_append partX (List.rel_append partY partZ)
  -- Without the two routes, which match nothing any more.
  have without : ∀ o, Attached (x' ++ j' :: (y' ++ i' :: z') ++ [merged']) o →
      Attached (x' ++ (y' ++ z') ++ [merged']) o := by
    rintro o ⟨routeInfo, found, member⟩
    refine ⟨routeInfo, ?_, member⟩
    have offJ : j'.routes o.destination = false := by rw [← moreJ.routes]; rfl
    have offI : i'.routes o.destination = false := by rw [← moreI.routes]; rfl
    simp only [List.append_assoc, List.cons_append] at found ⊢
    rw [find?_skip (p := fun (r : RouteInfo) => r.routes o.destination) offJ,
      ← List.append_assoc,
      find?_skip (p := fun (r : RouteInfo) => r.routes o.destination) offI] at found
    rwa [List.append_assoc] at found
  have sublist : (x ++ (y ++ z) ++ back).Sublist (x ++ j :: (y ++ i :: (z ++ back))) := by
    simp only [List.append_assoc]
    exact (List.Sublist.refl x).append (.cons _ ((List.Sublist.refl y).append (.cons _ (.refl _))))
  have sublist' : (x ++ (y ++ z) ++ merged :: back).Sublist
      (x ++ disable j :: (y ++ disable i :: z) ++ merged :: back) :=
    ((List.Sublist.refl x).append
      (.cons _ ((List.Sublist.refl y).append (.cons _ (.refl _))))).append (.refl _)
  have members : ∀ routeInfo ∈ x ++ (y ++ z) ++ merged :: back, routeInfo = merged ∨
      routeInfo ∈ x ++ j :: (y ++ i :: (z ++ back)) := by
    intro routeInfo member
    rcases List.mem_append.mp member with old | member
    · exact .inr (sublist.subset (List.mem_append_left _ old))
    · rcases List.mem_cons.mp member with rfl | old
      · exact .inl rfl
      · exact .inr (sublist.subset (List.mem_append_right _ old))
  have same := sameRoute_captured back extended more
  refine ⟨⟨ranked_same (fun _ _ equal => equal.same) same (sorted.sublist sublist'),
    fun routeInfo member => ?_, fun routeInfo member => ?_, ?_⟩, ?_,
    fun routeInfo member => ?_, fun o attached => ?_⟩
  · obtain ⟨before, inside, equal⟩ := exists_related same member
    rw [equal.same]
    rcases members before inside with rfl | old
    · exact canonical
    · exact consistent.canonical before old
  · obtain ⟨before, inside, equal⟩ := exists_related same member
    rw [equal.enabled]
    rcases members before inside with rfl | old
    · exact enabled
    · exact consistent.enabled before old
  · refine sound_captured more (fun routeInfo member => ?_) (fun routeInfo member => ?_) colors
    · have front : ∀ routeInfo ∈ x ++ disable j :: (y ++ disable i :: z) ++ [merged],
          routeInfo.Sound := by
        intro routeInfo member
        rcases List.mem_append.mp member with old | new
        · rcases List.mem_append.mp old with first | later
          · exact consistent.sound routeInfo (List.mem_append_left _ first)
          · rcases List.mem_cons.mp later with rfl | later
            · exact consistent.sound j (by simp)
            · rcases List.mem_append.mp later with second | later
              · exact consistent.sound routeInfo (by simp [second])
              · rcases List.mem_cons.mp later with rfl | third
                · exact consistent.sound i (by simp)
                · exact consistent.sound routeInfo (by simp [third])
        · rw [List.mem_singleton.mp new, RouteInfo.Sound, empty]
          exact fun o member => absurd member List.not_mem_nil
      refine adds.sound front routeInfo ?_
      rcases List.mem_append.mp member with old | new
      · rcases List.mem_append.mp old with first | later
        · simp [first]
        · rcases List.mem_append.mp later with second | third
          · simp [second]
          · simp [third]
      · exact List.mem_append_right _ new
    · exact consistent.sound routeInfo (sublist.subset (List.mem_append_right _ member))
  · have lengths := extended.length_eq
    simp only [List.length_append, List.length_cons, List.length_map] at lengths ⊢
    omega
  · obtain ⟨before, inside, equal⟩ := exists_related same member
    rw [equal.same]
    rcases members before inside with rfl | old
    · refine ⟨i, ?_, color.symm⟩
      simp
    · exact ⟨before, old, rfl⟩
  · obtain ⟨routeInfo, found, member⟩ := id attached
    rcases find?_without found with rfl | found
    · exact attached_front (without o (attachedJ o member))
    · rw [← List.append_assoc] at found
      rcases find?_without found with rfl | found
      · exact attached_front (without o (attachedI o member))
      · refine attached_captured extended more enabled ⟨routeInfo, ?_, member⟩
        simpa only [List.append_assoc] using found

/-- The upper bound of the merged route is behind both routes. -/
theorem addRouteInfo_merged {x y w : RoutingTableInfo} {i j : RouteInfo}
    (sorted : Ranked rank (x ++ disable j :: (y ++ disable i :: w)))
    (later : rank i ≤ rank merged) :
    ∃ z back, w = z ++ back ∧
      addRouteInfo (x ++ disable j :: (y ++ disable i :: w)) merged =
        .ok (x ++ disable j :: (y ++ disable i :: z) ++ merged :: back,
          (x ++ disable j :: (y ++ disable i :: z)).length) ∧
      Ranked rank (x ++ disable j :: (y ++ disable i :: z) ++ merged :: back) := by
  obtain ⟨m, inside, found, below, beyond⟩ :=
    upperBound_ok "the range is not sorted" merged routeInfoLessThan_eq sorted
  have before : (x ++ disable j :: (y ++ [disable i])).length ≤ m := by
    by_contra early
    have behind : disable i ∈ (x ++ disable j :: (y ++ disable i :: w)).drop m := by
      have split : x ++ disable j :: (y ++ disable i :: w) =
          (x ++ disable j :: y) ++ disable i :: w := by
        rw [List.append_assoc, List.cons_append]
      rw [split, List.drop_append_of_le_length]
      · exact List.mem_append_right _ List.mem_cons_self
      · simp only [List.length_append, List.length_cons, List.length_nil] at early ⊢
        omega
    exact absurd (beyond _ behind) (not_lt.mpr later)
  obtain ⟨k, rfl⟩ := Nat.exists_eq_add_of_le before
  have whole : x ++ disable j :: (y ++ disable i :: w) =
      (x ++ disable j :: (y ++ [disable i])) ++ w := by
    simp only [List.append_assoc, List.cons_append, List.nil_append]
  have front : (x ++ disable j :: (y ++ disable i :: w)).take
      ((x ++ disable j :: (y ++ [disable i])).length + k) =
      x ++ disable j :: (y ++ disable i :: w.take k) := by
    rw [whole, List.take_length_add_append]
    simp only [List.append_assoc, List.cons_append, List.nil_append]
  have rest : (x ++ disable j :: (y ++ disable i :: w)).drop
      ((x ++ disable j :: (y ++ [disable i])).length + k) = w.drop k := by
    rw [whole, List.drop_length_add_append]
  have ranked := sorted.insertIdx inside below beyond
  rw [insertIdx_eq inside, front, rest] at ranked
  refine ⟨w.take k, w.drop k, (List.take_append_drop k w).symm, ?_, ranked⟩
  rw [addRouteInfo, found, ok_bind, insertIdx_eq inside, front, rest, ← front,
    List.length_take_of_le inside]

section
variable {x y w : RoutingTableInfo} {routeInfoI routeInfoJ : RouteInfo}

/-- The table with the merged route, before original routes are moved. -/
def withMerged (x y z back : RoutingTableInfo) (routeInfoI routeInfoJ : RouteInfo) :
    RoutingTableInfo :=
  x ++ disable routeInfoJ :: (y ++ disable routeInfoI :: z) ++
    mergeRoutes routeInfoI routeInfoJ :: back

theorem modify_disable :
    ((x ++ routeInfoJ :: (y ++ routeInfoI :: w)).modify (x ++ routeInfoJ :: y).length
        disable).modify x.length disable =
      x ++ disable routeInfoJ :: (y ++ disable routeInfoI :: w) := by
  have split : x ++ routeInfoJ :: (y ++ routeInfoI :: w) =
      (x ++ routeInfoJ :: y) ++ routeInfoI :: w := by
    rw [List.append_assoc, List.cons_append]
  rw [split, modify_middle, List.append_assoc, List.cons_append, modify_middle]

theorem ranked_disable (sorted : Ranked rank (x ++ routeInfoJ :: (y ++ routeInfoI :: w))) :
    Ranked rank (x ++ disable routeInfoJ :: (y ++ disable routeInfoI :: w)) := by
  have same (l : RoutingTableInfo) : List.Forall₂ (fun a b : RouteInfo =>
      b.toOriginalRouteInfo = a.toOriginalRouteInfo) l l :=
    List.forall₂_same.mpr fun _ _ => rfl
  have related : List.Forall₂ (fun a b : RouteInfo =>
      b.toOriginalRouteInfo = a.toOriginalRouteInfo) (x ++ routeInfoJ :: (y ++ routeInfoI :: w))
      (x ++ disable routeInfoJ :: (y ++ disable routeInfoI :: w)) :=
    List.rel_append (same x) (.cons rfl (List.rel_append (same y) (.cons rfl (same w))))
  exact ranked_same (fun _ _ => id) related sorted

/-- The merged route is inserted behind the two routes, and removed again if it conflicts. -/
theorem tryToMergeTwoRoutes_eq
    (sorted : Ranked rank (x ++ routeInfoJ :: (y ++ routeInfoI :: w)))
    (color : routeInfoI.color = routeInfoJ.color)
    (enabledI : routeInfoI.enabled = true) (enabledJ : routeInfoJ.enabled = true)
    (later : rank routeInfoI ≤ rank (mergeRoutes routeInfoI routeInfoJ)) :
    ∃ z back, w = z ++ back ∧ Ranked rank (withMerged x y z back routeInfoI routeInfoJ) ∧
      tryToMergeTwoRoutes (x ++ routeInfoJ :: (y ++ routeInfoI :: w))
          (x ++ routeInfoJ :: y).length x.length routeInfoI routeInfoJ =
        if mergeable (withMerged x y z back routeInfoI routeInfoJ) (x ++ routeInfoJ :: y).length
            x.length (x ++ disable routeInfoJ :: (y ++ disable routeInfoI :: z)).length routeInfoI
            routeInfoJ then
          (moveOriginalRouteInfos (withMerged x y z back routeInfoI routeInfoJ)
            (x ++ routeInfoJ :: y).length x.length
            (x ++ disable routeInfoJ :: (y ++ disable routeInfoI :: z)).length routeInfoI routeInfoJ
            (mergeRoutes routeInfoI routeInfoJ)).map (true, ·)
        else .ok (false, x ++ routeInfoJ :: (y ++ routeInfoI :: w)) := by
  obtain ⟨z, back, rfl, added, ranked⟩ := addRouteInfo_merged (ranked_disable sorted) later
  refine ⟨z, back, rfl, ranked, ?_⟩
  have restored : ((((withMerged x y z back routeInfoI routeInfoJ).modify
        (x ++ routeInfoJ :: y).length enable).modify x.length enable).eraseIdx
          (x ++ disable routeInfoJ :: (y ++ disable routeInfoI :: z)).length) =
      x ++ routeInfoJ :: (y ++ routeInfoI :: (z ++ back)) := by
    have again : ∀ routeInfo : RouteInfo, routeInfo.enabled = true →
        enable (disable routeInfo) = routeInfo := by
      rintro ⟨_, _, _⟩ enabled
      exact congrArg (RouteInfo.mk _ · _) enabled.symm
    have place : (x ++ routeInfoJ :: y).length = (x ++ disable routeInfoJ :: y).length := by
      rw [List.length_append, List.length_append, List.length_cons, List.length_cons]
    have front : withMerged x y z back routeInfoI routeInfoJ = (x ++ disable routeInfoJ :: y) ++
        disable routeInfoI :: (z ++ mergeRoutes routeInfoI routeInfoJ :: back) := by
      simp only [withMerged, List.append_assoc, List.cons_append]
    have behind : x ++ routeInfoJ :: (y ++ routeInfoI ::
          (z ++ mergeRoutes routeInfoI routeInfoJ :: back)) =
        (x ++ routeInfoJ :: (y ++ routeInfoI :: z)) ++ mergeRoutes routeInfoI routeInfoJ :: back := by
      simp only [List.append_assoc, List.cons_append]
    have last : (x ++ disable routeInfoJ :: (y ++ disable routeInfoI :: z)).length =
        (x ++ routeInfoJ :: (y ++ routeInfoI :: z)).length := by
      simp only [List.length_append, List.length_cons]
    rw [place, front, modify_middle, again routeInfoI enabledI, List.append_assoc,
      List.cons_append, modify_middle, again routeInfoJ enabledJ, behind, last, eraseIdx_middle,
      List.append_assoc, List.cons_append, List.append_assoc, List.cons_append]
  rw [tryToMergeTwoRoutes, if_neg (not_not.mpr color)]
  dsimp only
  rw [modify_disable, added, ok_bind]
  dsimp only
  rw [if_neg (by simp only [List.length_append, List.length_cons]; omega)]
  change (if mergeable (withMerged x y z back routeInfoI routeInfoJ) _ _ _ _ _ then _ else _) = _
  split
  next => rfl
  next => exact congrArg (fun table => Except.ok (false, table)) restored

end

/-- The parts of a table around two routes, of which the second is the earlier one. -/
theorem exists_parts {i j : Nat}
    (before : j < i) (atI : table[i]? = some routeInfoI) (atJ : table[j]? = some routeInfoJ) :
    ∃ x y w, table = x ++ routeInfoJ :: (y ++ routeInfoI :: w) ∧
      i = (x ++ routeInfoJ :: y).length ∧ j = x.length := by
  obtain ⟨x, rest, rfl, rfl⟩ := exists_middle atJ
  have atI' : rest[i - x.length - 1]? = some routeInfoI := by
    rw [List.getElem?_append_right before.le] at atI
    obtain ⟨k, same⟩ := Nat.exists_eq_add_of_lt before
    rw [same] at atI ⊢
    rw [show x.length + k + 1 - x.length = k + 1 by omega, List.getElem?_cons_succ] at atI
    rw [show x.length + k + 1 - x.length - 1 = k by omega]
    exact atI
  obtain ⟨y, w, rfl, place⟩ := exists_middle atI'
  refine ⟨x, y, w, rfl, ?_, rfl⟩
  rw [List.length_append, List.length_cons]
  omega

theorem tryToMergeTwoRoutes_spec (consistent : Consistent table) {i j : Nat} (before : j < i)
    (atI : table[i]? = some routeInfoI) (atJ : table[j]? = some routeInfoJ)
    (color : routeInfoI.color = routeInfoJ.color) :
    tryToMergeTwoRoutes table i j routeInfoI routeInfoJ = .error attachedError ∨
      tryToMergeTwoRoutes table i j routeInfoI routeInfoJ = .error capturedError ∨
      tryToMergeTwoRoutes table i j routeInfoI routeInfoJ = .ok (false, table) ∨
      ∃ table', tryToMergeTwoRoutes table i j routeInfoI routeInfoJ = .ok (true, table') ∧
        Merged table table' := by
  obtain ⟨x, y, w, rfl, rfl, rfl⟩ := exists_parts before atI atJ
  obtain ⟨coversI, coversJ, canonical⟩ := mergeRoutes_covers color
    (consistent.canonical routeInfoI (by simp)) (consistent.canonical routeInfoJ (by simp))
  have matched : ∀ routeInfo ∈ [routeInfoI, routeInfoJ], ∀ o ∈ routeInfo.originalRouteInfos,
      (mergeRoutes routeInfoI routeInfoJ).routes o.destination = true := by
    intro routeInfo either o member
    simp only [List.mem_cons, List.not_mem_nil, or_false] at either
    rcases either with rfl | rfl
    · exact coversI.captures o (consistent.sound _ (by simp) o member).1
    · exact coversJ.captures o (consistent.sound _ (by simp) o member).1
  obtain ⟨z, back, rfl, ranked, returned⟩ := tryToMergeTwoRoutes_eq consistent.sorted color
    (consistent.enabled routeInfoI (by simp)) (consistent.enabled routeInfoJ (by simp))
    coversI.later
  rw [returned]
  split
  next =>
    have asFront (back : RoutingTableInfo) : withMerged x y z back routeInfoI routeInfoJ =
        (x ++ disable routeInfoJ :: (y ++ disable routeInfoI :: z) ++
          [mergeRoutes routeInfoI routeInfoJ]) ++ back := by
      rw [withMerged, List.append_assoc _ [_], List.singleton_append]
    have length : (x ++ disable routeInfoJ :: (y ++ disable routeInfoI :: z)).length + 1 =
        (x ++ disable routeInfoJ :: (y ++ disable routeInfoI :: z) ++
          [mergeRoutes routeInfoI routeInfoJ]).length := by
      simp only [List.length_append, List.length_cons, List.length_nil, zero_add]
    rw [moveOriginalRouteInfos, asFront, length]
    rcases addOriginalRouteInfos_spec back ((x ++ routeInfoJ :: y).length + 1)
        routeInfoI.originalRouteInfos
        (fun o member => ⟨_, List.mem_append_right _ List.mem_cons_self,
          matched routeInfoI (by simp) o member⟩) with failed | ⟨front₁, done, adds, attachedI⟩
    · exact .inl (by rw [failed]; rfl)
    rw [done, ok_bind, adds.extended.length_eq]
    rcases addOriginalRouteInfos_spec back (x.length + 1)
        routeInfoJ.originalRouteInfos (fun o member => matched_extends adds.extended
          ⟨_, List.mem_append_right _ List.mem_cons_self, matched routeInfoJ (by simp) o member⟩)
      with failed | ⟨front₂, done', adds', attachedJ⟩
    · exact .inl (by rw [failed]; rfl)
    rw [done', ok_bind]
    obtain ⟨x', j', y', i', z', merged', rfl, lengthX, lengthY, lengthZ, merges⟩ :=
      merged_parts consistent ranked canonical rfl rfl rfl
        ⟨extends_trans adds.extended adds'.extended, fun sound => adds'.sound (adds.sound sound)⟩
        attachedJ (fun o member => attached_extends (attachedI o member) adds'.extended)
    have asMiddle : x' ++ j' :: (y' ++ i' :: z') ++ [merged'] ++ back =
        x' ++ j' :: (y' ++ i' :: z') ++ merged' :: back := by
      rw [List.append_assoc _ [_], List.singleton_append]
    have position : (x ++ disable routeInfoJ :: (y ++ disable routeInfoI :: z)).length =
        (x' ++ j' :: (y' ++ i' :: z')).length := by
      simp only [List.length_append, List.length_cons, lengthX, lengthY, lengthZ]
    rw [asMiddle, position]
    rcases captureFollowing_spec (x' ++ j' :: (y' ++ i' :: z')) back merged'
        (mergeRoutes routeInfoI routeInfoJ) with failed | ⟨taken, colors⟩
    · exact .inr (.inl (by rw [failed]; rfl))
    rw [taken, ok_bind]
    refine .inr (.inr (.inr ⟨_, rfl, ?_⟩))
    have positionI : (x ++ routeInfoJ :: y).length = (x' ++ j' :: y').length := by
      simp only [List.length_append, List.length_cons, lengthX, lengthY]
    have asI (rest : RoutingTableInfo) : x' ++ j' :: (y' ++ i' :: z') ++ rest =
        (x' ++ j' :: y') ++ i' :: (z' ++ rest) := by
      simp only [List.append_assoc, List.cons_append]
    rw [asI, positionI, eraseIdx_middle, List.append_assoc, List.cons_append, ← lengthX,
      eraseIdx_middle]
    have result := merges colors
    simp only [List.append_assoc] at result ⊢
    exact result
  next => exact .inr (.inr (.inl rfl))

end Inet.Configurator
