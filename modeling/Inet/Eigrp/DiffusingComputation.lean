import Inet.Eigrp.EigrpQueries

/-!
# Diffusing computations

The neighbors whose replies are awaited and those that a query reaches, as conditions on the tables.
A query is one message for each interface, whereas replies are awaited for each neighbor.
-/
namespace Inet.Eigrp

open Lib

variable {eigrpIface : EigrpInterface} {forcePoisonRev : Bool} {neigh : EigrpNeighbor}
  {querySource : EigrpRouteSource} {reqQueue : List EigrpMsgReq} {ifaceId : Nat}

namespace EigrpIpv4Pdm

variable {pdm next : EigrpIpv4Pdm} {source : EigrpRouteSource} {neighborVec : List EigrpNeighbor}
  {queryPoisonRev tablePoisonRev : Bool}

/-! ### Tables -/

def neighborsOn (neighborVec : List EigrpNeighbor) (ifaceId : Nat) : List EigrpNeighbor :=
  neighborVec.filter (·.ifaceId == ifaceId)

/-- Identifiers are unique, and each interface counts its neighbors and those that are stubs. -/
structure Counted (eigrpIft : List EigrpInterface) (neighborVec : List EigrpNeighbor) : Prop where
  interfaces : (eigrpIft.map (·.interfaceId)).Nodup
  neighbors : (neighborVec.map (·.neighborId)).Nodup
  specified : ∀ neigh ∈ neighborVec, neigh.neighborId ≠ UNSPEC_ID
  neighborCount : ∀ eigrpIface ∈ eigrpIft,
    eigrpIface.neighborCount = (neighborsOn neighborVec eigrpIface.interfaceId).length
  stubCount : ∀ eigrpIface ∈ eigrpIft, eigrpIface.stubCount =
    ((neighborsOn neighborVec eigrpIface.interfaceId).filter (·.stubEnabled)).length

theorem mem_neighborsOn :
    neigh ∈ neighborsOn neighborVec ifaceId ↔ neigh ∈ neighborVec ∧ neigh.ifaceId = ifaceId := by
  simp [neighborsOn]

/-- Queries that wait are addressed as a new one would be. -/
def Addressed (pdm : EigrpIpv4Pdm) : Prop :=
  ∀ request ∈ pdm.reqQueue, request.opcode = .EIGRP_QUERY_MSG →
    ∀ eigrpIface ∈ pdm.eigrpIft, eigrpIface.interfaceId = request.destInterface →
      pdm.destNeigh eigrpIface = .ok request.destNeighbor

/-! ### Conditions -/

/-- Stub neighbors are not asked, except by a stub router. -/
def mayAsk (pdm : EigrpIpv4Pdm) (neigh : EigrpNeighbor) : Bool :=
  pdm.eigrpStubEnabled || !neigh.stubEnabled

/-- Poison reverse takes the place of split horizon as soon as there are stub neighbors. -/
def poisonReverse (pdm : EigrpIpv4Pdm) (forcePoisonRev : Bool) : Bool :=
  forcePoisonRev || !pdm.eigrpStubEnabled && decide (pdm.stubCount > 0)

/-- The route may be sent to the interface. -/
def mayCross (pdm : EigrpIpv4Pdm) (source : EigrpRouteSource) (forcePoisonRev : Bool)
    (eigrpIface : EigrpInterface) : Bool :=
  !(pdm.splitHorizonApplies eigrpIface source && !pdm.poisonReverse forcePoisonRev)

/-- The neighbor is entered into the reply status table. -/
def awaits (pdm : EigrpIpv4Pdm) (source : EigrpRouteSource) (forcePoisonRev : Bool)
    (neigh : EigrpNeighbor) : Bool :=
  match pdm.findInterfaceById neigh.ifaceId with
  | none => false
  | some eigrpIface => pdm.mayAsk neigh && pdm.mayCross source forcePoisonRev eigrpIface

/-- The query is sent to the interface. -/
def queriesOn (pdm : EigrpIpv4Pdm) (source : EigrpRouteSource) (forcePoisonRev : Bool)
    (eigrpIface : EigrpInterface) : Bool :=
  decide (eigrpIface.neighborCount > 0) &&
    !pdm.applyStubToQuery eigrpIface eigrpIface.neighborCount &&
    pdm.mayCross source forcePoisonRev eigrpIface

/-! ### The reply status table -/

theorem setReplyStatusOf_eq (pdm : EigrpIpv4Pdm) (source : EigrpRouteSource)
    {loop : ReplyStatusLoop} (neigh : EigrpNeighbor)
    (same : pdm.poisonReverse loop.forcePoisonRev = pdm.poisonReverse forcePoisonRev) :
    let next := pdm.setReplyStatusOf source loop neigh
    pdm.poisonReverse next.forcePoisonRev = pdm.poisonReverse forcePoisonRev ∧
      next.route = if pdm.awaits source forcePoisonRev neigh then
        loop.route.setReplyStatus neigh.neighborId else loop.route := by
  unfold setReplyStatusOf awaits mayCross mayAsk
  rw [← same]
  cases found : pdm.findInterfaceById neigh.ifaceId with
  | none => simp [same]
  | some eigrpIface =>
    by_cases isStub : (!pdm.eigrpStubEnabled && neigh.stubEnabled) = true
    · have skipped : (pdm.eigrpStubEnabled || !neigh.stubEnabled) = false := by
        cases h : pdm.eigrpStubEnabled <;> cases h' : neigh.stubEnabled <;> simp_all
      simp [isStub, skipped, same]
    · have asked : (pdm.eigrpStubEnabled || !neigh.stubEnabled) = true := by
        cases h : pdm.eigrpStubEnabled <;> cases h' : neigh.stubEnabled <;> simp_all
      have twice : pdm.poisonReverse (pdm.poisonReverse loop.forcePoisonRev) =
          pdm.poisonReverse loop.forcePoisonRev := by
        simp only [poisonReverse]
        cases loop.forcePoisonRev <;> simp
      simp only [isStub, asked, Bool.true_and, if_false, Bool.false_eq_true]
      by_cases blocked : (pdm.splitHorizonApplies eigrpIface source &&
          !pdm.poisonReverse loop.forcePoisonRev) = true
      · have crossed := blocked
        unfold poisonReverse at crossed
        rw [if_pos crossed]
        exact ⟨twice, by simp [blocked]⟩
      · have crossed := blocked
        unfold poisonReverse at crossed
        rw [if_neg crossed]
        exact ⟨twice, by simp [blocked]⟩

/-- The route with more neighbors whose replies are awaited. -/
def awaiting (route : EigrpRoute) (neighbors : List EigrpNeighbor) : EigrpRoute :=
  { route with
    replyStatusTable := route.replyStatusTable ++ neighbors.map (·.neighborId) }

/-- The neighbors that are awaited are entered one after the other. -/
theorem foldl_setReplyStatusOf (pdm : EigrpIpv4Pdm) (source : EigrpRouteSource)
    (forcePoisonRev : Bool) (neighbors : List EigrpNeighbor) (loop : ReplyStatusLoop)
    (same : pdm.poisonReverse loop.forcePoisonRev = pdm.poisonReverse forcePoisonRev) :
    (neighbors.foldl (pdm.setReplyStatusOf source) loop).route =
      awaiting loop.route (neighbors.filter (pdm.awaits source forcePoisonRev)) := by
  induction neighbors generalizing loop with
  | nil => simp [awaiting]
  | cons neigh rest ih =>
    obtain ⟨kept, entered⟩ := pdm.setReplyStatusOf_eq source neigh same
    rw [List.foldl_cons, ih _ kept, entered]
    by_cases awaited : pdm.awaits source forcePoisonRev neigh = true
    · simp [awaited, awaiting, EigrpRoute.setReplyStatus]
    · simp [awaited]

theorem setReplyStatusTable_eq (pdm : EigrpIpv4Pdm) (source : EigrpRouteSource)
    (forcePoisonRev : Bool) :
    pdm.setReplyStatusTable source forcePoisonRev =
      let route := awaiting pdm.route
        (pdm.neighborVec.filter (pdm.awaits source forcePoisonRev))
      (route.isActive, { pdm with route }) := by
  have entered := pdm.foldl_setReplyStatusOf source forcePoisonRev pdm.neighborVec
    { route := pdm.route, forcePoisonRev } rfl
  dsimp only [setReplyStatusTable] at entered ⊢
  rw [entered]

/-! ### The query -/

theorem mem_pushMsgRoute {msgType : HeaderOpcode} {neighId : Nat} {msgRt : EigrpMsgRoute}
    {request : EigrpMsgReq}
    (member : request ∈ pushMsgRoute msgType ifaceId neighId msgRt reqQueue) :
    (∃ old ∈ reqQueue, old.opcode = request.opcode ∧ old.destInterface = request.destInterface ∧
        old.destNeighbor = request.destNeighbor) ∨
      request.opcode = msgType ∧ request.destInterface = ifaceId ∧
        request.destNeighbor = neighId := by
  induction reqQueue with
  | nil =>
    cases List.mem_singleton.mp member
    exact .inr ⟨rfl, rfl, rfl⟩
  | cons first rest ih =>
    unfold pushMsgRoute at member
    split at member
    · rcases List.mem_cons.mp member with rfl | member
      · exact .inl ⟨first, List.mem_cons_self, rfl, rfl, rfl⟩
      · exact .inl ⟨request, List.mem_cons_of_mem _ member, rfl, rfl, rfl⟩
    · rcases List.mem_cons.mp member with rfl | member
      · exact .inl ⟨request, List.mem_cons_self, rfl, rfl, rfl⟩
      · rcases ih member with ⟨old, inside, same⟩ | new
        · exact .inl ⟨old, List.mem_cons_of_mem _ inside, same⟩
        · exact .inr new

theorem mem_addMsgRoute (msgRt : EigrpMsgRoute) (routes : List EigrpMsgRoute) (routeId : Nat) :
    (∃ rt ∈ addMsgRoute msgRt routes, rt.routeId = routeId) ↔
      (∃ rt ∈ routes, rt.routeId = routeId) ∨ msgRt.routeId = routeId := by
  induction routes with
  | nil => simp [addMsgRoute]
  | cons rt rest ih =>
    unfold addMsgRoute
    split
    · next same =>
      have kept : (if msgRt.unreachable then { rt with unreachable := true } else rt).routeId =
          rt.routeId := by split <;> rfl
      simp only [List.mem_cons, exists_eq_or_imp, kept]
      exact (or_iff_left_of_imp fun new => .inl (same.trans new)).symm
    · simp only [List.mem_cons, exists_eq_or_imp, ih, or_assoc]

/-- A route that is pushed reaches the receivers of the request that takes it. -/
theorem asked_pushMsgRoute {neighId : Nat} {msgRt : EigrpMsgRoute} 
    (addressed : ∀ request ∈ reqQueue, request.opcode = .EIGRP_QUERY_MSG →
      request.destInterface = ifaceId → request.destNeighbor = neighId) :
    Asked (pushMsgRoute .EIGRP_QUERY_MSG ifaceId neighId msgRt reqQueue) msgRt.routeId neigh ↔
      Asked reqQueue msgRt.routeId neigh ∨
        ifaceId = neigh.ifaceId ∧ (neighId = UNSPEC_ID ∨ neighId = neigh.neighborId) := by
  induction reqQueue with
  | nil => simp [pushMsgRoute, Asked, EigrpMsgReq.Asks]
  | cons first rest ih =>
    unfold pushMsgRoute
    split
    · next found =>
      have dest := addressed first List.mem_cons_self found.2 found.1
      simp only [Asked, List.mem_cons, exists_eq_or_imp]
      have taken : ({ first with routes := addMsgRoute msgRt first.routes } : EigrpMsgReq).Asks
          msgRt.routeId neigh ↔ first.Asks msgRt.routeId neigh ∨
            ifaceId = neigh.ifaceId ∧ (neighId = UNSPEC_ID ∨ neighId = neigh.neighborId) := by
        simp only [EigrpMsgReq.Asks, mem_addMsgRoute, found.1, found.2, dest]
        constructor
        · rintro ⟨-, iface, receiver, -⟩
          exact .inr ⟨iface, receiver⟩
        · rintro (⟨-, iface, receiver, -⟩ | ⟨iface, receiver⟩) <;>
            exact ⟨trivial, iface, receiver, .inr trivial⟩
      rw [taken]
      exact or_right_comm
    · have later := ih fun request member =>
        addressed request (List.mem_cons_of_mem _ member)
      simp only [Asked, List.mem_cons, exists_eq_or_imp] at later ⊢
      rw [later]
      exact or_assoc.symm

/-- The route as a query on the interface has it. -/
def queryRoute (pdm : EigrpIpv4Pdm) (source : EigrpRouteSource) (eigrpIface : EigrpInterface) :
    EigrpMsgRoute :=
  { sourceId := source.sourceId, routeId := source.routeId, originator := source.originator
    unreachable := pdm.splitHorizonApplies eigrpIface source }

theorem msgToEachIface_query (pdm : EigrpIpv4Pdm) (source : EigrpRouteSource)
    (forcePoisonRev : Bool) (reqQueue : List EigrpMsgReq) (eigrpIface : EigrpInterface) :
    msgToEachIface UNSPEC_RECEIVER .EIGRP_QUERY_MSG source (pdm.poisonReverse forcePoisonRev)
        { pdm with reqQueue } eigrpIface =
      if pdm.queriesOn source forcePoisonRev eigrpIface then do
        let destNeigh ← pdm.destNeigh eigrpIface
        let msgRt := pdm.queryRoute source eigrpIface
        return { pdm with
          reqQueue :=
            pushMsgRoute .EIGRP_QUERY_MSG eigrpIface.interfaceId destNeigh msgRt reqQueue }
      else .ok { pdm with reqQueue } := by
  have same : splitHorizonApplies { pdm with reqQueue } eigrpIface source =
    pdm.splitHorizonApplies eigrpIface source := rfl
  have stub : applyStubToQuery { pdm with reqQueue } eigrpIface eigrpIface.neighborCount =
    pdm.applyStubToQuery eigrpIface eigrpIface.neighborCount := rfl
  have receiver : ¬(UNSPEC_RECEIVER = STUB_RECEIVER ∧ eigrpIface.stubCount = 0) :=
    fun both => absurd both.1 (by decide)
  unfold msgToEachIface msgToIface queriesOn mayCross
  rw [if_neg receiver, same, stub]
  by_cases any : eigrpIface.neighborCount > 0
  · by_cases skipped : pdm.applyStubToQuery eigrpIface eigrpIface.neighborCount = true
    · simp [any, skipped]
      rfl
    · by_cases blocked : (pdm.splitHorizonApplies eigrpIface source &&
          !pdm.poisonReverse forcePoisonRev) = true
      · simp [any, skipped, blocked]
        rfl
      · simp only [any, skipped, blocked]
        rfl
  · simp [any]
    rfl

/-- The neighbor is a receiver of what is sent to the interface. -/
def receives (pdm : EigrpIpv4Pdm) (eigrpIface : EigrpInterface) (neigh : EigrpNeighbor) : Bool :=
  eigrpIface.multicast || pdm.getFirstNeighborOnIf eigrpIface.interfaceId == some neigh

/-- A query reaches the neighbor. -/
def reaches (pdm : EigrpIpv4Pdm) (source : EigrpRouteSource) (forcePoisonRev : Bool)
    (neigh : EigrpNeighbor) (eigrpIface : EigrpInterface) : Prop :=
  pdm.queriesOn source forcePoisonRev eigrpIface ∧ eigrpIface.interfaceId = neigh.ifaceId ∧
    pdm.receives eigrpIface neigh

theorem Counted.interface_eq {eigrpIft : List EigrpInterface}
    (counted : Counted eigrpIft neighborVec) {a b : EigrpInterface} (first : a ∈ eigrpIft)
    (second : b ∈ eigrpIft) (same : a.interfaceId = b.interfaceId) : a = b :=
  List.inj_on_of_nodup_map counted.interfaces first second same

theorem Counted.neighbor_eq {eigrpIft : List EigrpInterface}
    (counted : Counted eigrpIft neighborVec) {a b : EigrpNeighbor} (first : a ∈ neighborVec)
    (second : b ∈ neighborVec) (same : a.neighborId = b.neighborId) : a = b :=
  List.inj_on_of_nodup_map counted.neighbors first second same

/-- The destination of a message stands for its receivers. -/
theorem destNeigh_iff (counted : Counted pdm.eigrpIft pdm.neighborVec)
    {dest : Nat} (returned : pdm.destNeigh eigrpIface = .ok dest)
    (member : neigh ∈ pdm.neighborVec) :
    (dest = UNSPEC_ID ∨ dest = neigh.neighborId) ↔ pdm.receives eigrpIface neigh := by
  unfold destNeigh at returned
  unfold receives
  split at returned
  · next multicast =>
    cases returned
    simp [multicast]
  · next unicast =>
    split at returned
    · next first found =>
      cases returned
      have inside := List.mem_of_find?_eq_some found
      have named : first.neighborId ≠ UNSPEC_ID := counted.specified first inside
      have same : first.neighborId = neigh.neighborId ↔ first = neigh :=
        ⟨counted.neighbor_eq inside member, fun same => same ▸ rfl⟩
      simp [unicast, found, named, same]
    · cases returned

/-- A query to some interfaces reaches the neighbors on those to which it may be sent. -/
theorem foldlM_query (counted : Counted pdm.eigrpIft pdm.neighborVec)
     {interfaces : List EigrpInterface}
    (inside : ∀ eigrpIface ∈ interfaces, eigrpIface ∈ pdm.eigrpIft)
    (addressed : Addressed { pdm with reqQueue })
    (returned : interfaces.foldlM (msgToEachIface UNSPEC_RECEIVER .EIGRP_QUERY_MSG source
      (pdm.poisonReverse forcePoisonRev)) { pdm with reqQueue } = .ok next) :
    ∃ later, next = { pdm with reqQueue := later } ∧ Addressed { pdm with reqQueue := later } ∧
      ∀ neigh ∈ pdm.neighborVec, Asked later source.routeId neigh ↔
        Asked reqQueue source.routeId neigh ∨
          ∃ eigrpIface ∈ interfaces, pdm.reaches source forcePoisonRev neigh eigrpIface := by
  induction interfaces generalizing reqQueue with
  | nil =>
    cases returned
    exact ⟨reqQueue, rfl, addressed, by simp⟩
  | cons eigrpIface rest ih =>
    rw [List.foldlM_cons, msgToEachIface_query] at returned
    have others := fun other member => inside other (List.mem_cons_of_mem _ member)
    by_cases queried : pdm.queriesOn source forcePoisonRev eigrpIface = true
    · rw [if_pos queried] at returned
      obtain ⟨mid, first, returned⟩ := bind_eq_ok.mp returned
      obtain ⟨dest, chosen, ⟨⟩⟩ := bind_eq_ok.mp first
      have here := inside eigrpIface List.mem_cons_self
      have agree : ∀ request ∈ reqQueue, request.opcode = .EIGRP_QUERY_MSG →
          request.destInterface = eigrpIface.interfaceId → request.destNeighbor = dest := by
        intro request member query same
        have waiting := addressed request member query eigrpIface here same.symm
        exact Except.ok.inj (waiting.symm.trans chosen)
      have still : Addressed { pdm with
          reqQueue := pushMsgRoute .EIGRP_QUERY_MSG eigrpIface.interfaceId dest
            (pdm.queryRoute source eigrpIface) reqQueue } := by
        intro request member query other known same
        rcases mem_pushMsgRoute member with
          ⟨old, waits, opcode, iface, receiver⟩ | ⟨-, iface, receiver⟩
        · rw [← receiver]
          exact addressed old waits (opcode.trans query) other known (same.trans iface.symm)
        · rw [receiver, counted.interface_eq known here (same.trans iface)]
          exact chosen
      obtain ⟨later, rfl, kept, asked⟩ := ih others still returned
      refine ⟨later, rfl, kept, fun neigh member => ?_⟩
      have pushed : Asked (pushMsgRoute .EIGRP_QUERY_MSG eigrpIface.interfaceId dest
          (pdm.queryRoute source eigrpIface) reqQueue) source.routeId neigh ↔ _ :=
        asked_pushMsgRoute agree
      rw [asked neigh member, pushed, destNeigh_iff counted chosen member, or_assoc]
      simp only [List.mem_cons, exists_eq_or_imp, reaches, queried, true_and]
      exact Iff.rfl
    · rw [if_neg queried, ok_bind] at returned
      obtain ⟨later, rfl, kept, asked⟩ := ih others addressed returned
      refine ⟨later, rfl, kept, fun neigh member => ?_⟩
      rw [asked neigh member]
      simp [reaches, queried]

/-- What a query does to the messages that are sent next. -/
theorem sendQuery_spec (pdm : EigrpIpv4Pdm)
    (counted : Counted pdm.eigrpIft pdm.neighborVec) (addressed : pdm.Addressed) 
    (returned : pdm.sendQuery UNSPEC_RECEIVER source forcePoisonRev = .ok next) :
    next.route = pdm.route ∧ next.eigrpIft = pdm.eigrpIft ∧ next.Addressed ∧
      ∀ neigh ∈ pdm.neighborVec, Asked next.reqQueue source.routeId neigh ↔
        Asked pdm.reqQueue source.routeId neigh ∨
          ∃ eigrpIface ∈ pdm.eigrpIft, pdm.reaches source forcePoisonRev neigh eigrpIface := by
  obtain ⟨later, rfl, kept, asked⟩ :=
    foldlM_query counted (fun _ member => member) addressed returned
  exact ⟨rfl, rfl, kept, asked⟩

/-! ### Both sides for one interface -/

theorem findInterfaceById_eq_some
    (counted : Counted pdm.eigrpIft pdm.neighborVec) (member : eigrpIface ∈ pdm.eigrpIft) :
    pdm.findInterfaceById eigrpIface.interfaceId = some eigrpIface := by
  unfold findInterfaceById
  cases found : pdm.eigrpIft.find? (·.interfaceId == eigrpIface.interfaceId) with
  | none => simpa using List.find?_eq_none.mp found eigrpIface member
  | some other =>
    have same : other.interfaceId = eigrpIface.interfaceId :=
      beq_iff_eq.mp (List.find?_some found :)
    rw [counted.interface_eq (List.mem_of_find?_eq_some found) member same]

theorem awaits_iff (source : EigrpRouteSource) (forcePoisonRev : Bool)
    (counted : Counted pdm.eigrpIft pdm.neighborVec)
    (member : eigrpIface ∈ pdm.eigrpIft) (on : neigh.ifaceId = eigrpIface.interfaceId) :
    pdm.awaits source forcePoisonRev neigh = true ↔
      pdm.mayAsk neigh ∧ pdm.mayCross source forcePoisonRev eigrpIface := by
  unfold awaits
  rw [on, findInterfaceById_eq_some counted member, Bool.and_eq_true]

/-- Some neighbor on the interface may be asked. -/
def anyAsked (pdm : EigrpIpv4Pdm) (eigrpIface : EigrpInterface) : Prop :=
  ∃ neigh ∈ neighborsOn pdm.neighborVec eigrpIface.interfaceId, pdm.mayAsk neigh

theorem queriesOn_iff (counted : Counted pdm.eigrpIft pdm.neighborVec) 
    (member : eigrpIface ∈ pdm.eigrpIft) :
    pdm.queriesOn source forcePoisonRev eigrpIface = true ↔
      pdm.anyAsked eigrpIface ∧ pdm.mayCross source forcePoisonRev eigrpIface := by
  have counts := counted.neighborCount eigrpIface member
  have stubs := counted.stubCount eigrpIface member
  have some : decide (eigrpIface.neighborCount > 0) = true ∧
      (!pdm.applyStubToQuery eigrpIface eigrpIface.neighborCount) = true ↔
        pdm.anyAsked eigrpIface := by
    unfold applyStubToQuery anyAsked mayAsk
    generalize neighborsOn pdm.neighborVec eigrpIface.interfaceId = here at *
    rw [counts, stubs]
    cases pdm.eigrpStubEnabled with
    | true => simp [List.length_pos_iff_exists_mem]
    | false =>
      -- the interface has other neighbors than stubs if the counts differ
      have all : (here.filter (·.stubEnabled)).length = here.length ↔
          ∀ neigh ∈ here, neigh.stubEnabled = true := List.length_filter_eq_length_iff
      have none : here = [] → ∀ neigh ∈ here, neigh.stubEnabled = true := by
        rintro rfl _ ⟨⟩
      constructor
      · rintro ⟨-, differ⟩
        by_contra absent
        simp only [Bool.false_or, Bool.not_eq_true', not_exists, not_and, Bool.not_eq_false]
          at absent
        simp [all.mpr absent] at differ
      · rintro ⟨neigh, inside, asked⟩
        have nonempty := List.length_pos_of_mem inside
        refine ⟨by simpa using nonempty, ?_⟩
        have differ : (here.filter (·.stubEnabled)).length ≠ here.length := by
          intro same
          simp [all.mp same neigh inside] at asked
        simpa using fun same : here.length = _ => differ same.symm
  unfold queriesOn
  rw [Bool.and_eq_true, Bool.and_eq_true, some]

/-- A query that is sent to an interface has a receiver. -/
theorem exists_receives (asked : pdm.anyAsked eigrpIface) :
    ∃ neigh ∈ neighborsOn pdm.neighborVec eigrpIface.interfaceId,
      pdm.receives eigrpIface neigh := by
  obtain ⟨neigh, inside, -⟩ := asked
  cases found : pdm.getFirstNeighborOnIf eigrpIface.interfaceId with
  | none =>
    have absent := List.find?_eq_none.mp found neigh (mem_neighborsOn.mp inside).1
    exact absurd (mem_neighborsOn.mp inside).2 (by simpa using absent)
  | some first =>
    have here : first.ifaceId = eigrpIface.interfaceId := beq_iff_eq.mp (List.find?_some found :)
    exact ⟨first, mem_neighborsOn.mpr ⟨List.mem_of_find?_eq_some found, here⟩,
      by simp [receives, found]⟩

/-! ### Agreement -/

/-- The neighbors on an interface that are awaited are those that a query reaches, which is sent
with a source and a flag of its own. -/
structure AgreesOn (pdm : EigrpIpv4Pdm) (source querySource : EigrpRouteSource)
    (tablePoisonRev queryPoisonRev : Bool) (eigrpIface : EigrpInterface) : Prop where
  splitHorizon : pdm.mayCross source tablePoisonRev eigrpIface =
    pdm.mayCross querySource queryPoisonRev eigrpIface
  receivers : pdm.mayCross source tablePoisonRev eigrpIface →
    ∀ neigh ∈ neighborsOn pdm.neighborVec eigrpIface.interfaceId,
      pdm.mayAsk neigh = pdm.receives eigrpIface neigh

/-- No reply is awaited, or each interface with neighbors to ask agrees. -/
def Agrees (pdm : EigrpIpv4Pdm) (source querySource : EigrpRouteSource)
    (tablePoisonRev queryPoisonRev : Bool) : Prop :=
  (∀ neigh ∈ pdm.neighborVec, pdm.awaits source tablePoisonRev neigh = false) ∨
    ∀ eigrpIface ∈ pdm.eigrpIft, pdm.anyAsked eigrpIface →
      pdm.AgreesOn source querySource tablePoisonRev queryPoisonRev eigrpIface

theorem agreesOn_iff (counted : Counted pdm.eigrpIft pdm.neighborVec) 
    (member : eigrpIface ∈ pdm.eigrpIft) :
    (∀ neigh ∈ neighborsOn pdm.neighborVec eigrpIface.interfaceId,
        (pdm.awaits source tablePoisonRev neigh ↔
          pdm.queriesOn querySource queryPoisonRev eigrpIface ∧
            pdm.receives eigrpIface neigh)) ↔
      (pdm.anyAsked eigrpIface →
        pdm.AgreesOn source querySource tablePoisonRev queryPoisonRev eigrpIface) := by
  have awaited := fun neigh (on : neigh ∈ neighborsOn pdm.neighborVec eigrpIface.interfaceId) =>
    awaits_iff source tablePoisonRev counted member (mem_neighborsOn.mp on).2
  rw [queriesOn_iff counted member]
  constructor
  · intro same asked
    obtain ⟨target, here, mayAsk⟩ := asked
    obtain ⟨receiver, there, receives⟩ := exists_receives ⟨target, here, mayAsk⟩
    have crossing : pdm.mayCross source tablePoisonRev eigrpIface =
        pdm.mayCross querySource queryPoisonRev eigrpIface := by
      rw [Bool.eq_iff_iff]
      constructor
      · intro crosses
        exact ((same target here).mp ((awaited target here).mpr ⟨mayAsk, crosses⟩)).1.2
      · intro crosses
        have reached := (same receiver there).mpr ⟨⟨⟨target, here, mayAsk⟩, crosses⟩, receives⟩
        exact ((awaited receiver there).mp reached).2
    refine ⟨crossing, fun crosses neigh on => ?_⟩
    rw [Bool.eq_iff_iff]
    constructor
    · intro asked
      exact ((same neigh on).mp ((awaited neigh on).mpr ⟨asked, crosses⟩)).2
    · intro receives
      have reached := (same neigh on).mpr
        ⟨⟨⟨target, here, mayAsk⟩, crossing ▸ crosses⟩, receives⟩
      exact ((awaited neigh on).mp reached).1
  · intro agrees neigh on
    rw [awaited neigh on]
    constructor
    · rintro ⟨asked, crosses⟩
      have both := agrees ⟨neigh, on, asked⟩
      exact ⟨⟨⟨neigh, on, asked⟩, both.splitHorizon ▸ crosses⟩,
        both.receivers crosses neigh on ▸ asked⟩
    · rintro ⟨⟨asked, crosses⟩, receives⟩
      have both := agrees asked
      have crosses : pdm.mayCross source tablePoisonRev eigrpIface := both.splitHorizon ▸ crosses
      exact ⟨both.receivers crosses neigh on ▸ receives, crosses⟩

/-- The awaited neighbors are those that the query reaches, on each interface. -/
theorem awaits_iff_reaches (counted : Counted pdm.eigrpIft pdm.neighborVec) :
    (∀ neigh ∈ pdm.neighborVec, (pdm.awaits source tablePoisonRev neigh ↔
        ∃ eigrpIface ∈ pdm.eigrpIft, pdm.reaches querySource queryPoisonRev neigh eigrpIface)) ↔
      ∀ eigrpIface ∈ pdm.eigrpIft, pdm.anyAsked eigrpIface →
        pdm.AgreesOn source querySource tablePoisonRev queryPoisonRev eigrpIface := by
  have single : ∀ eigrpIface ∈ pdm.eigrpIft, ∀ neigh : EigrpNeighbor,
      neigh.ifaceId = eigrpIface.interfaceId →
      ((∃ other ∈ pdm.eigrpIft, pdm.reaches querySource queryPoisonRev neigh other) ↔
        pdm.queriesOn querySource queryPoisonRev eigrpIface ∧ pdm.receives eigrpIface neigh) := by
    intro eigrpIface member neigh on
    constructor
    · rintro ⟨other, inside, queried, same, receives⟩
      cases counted.interface_eq inside member (same.trans on)
      exact ⟨queried, receives⟩
    · rintro ⟨queried, receives⟩
      exact ⟨eigrpIface, member, queried, on.symm, receives⟩
  constructor
  · intro same eigrpIface member
    refine (agreesOn_iff counted member).mp fun neigh on => ?_
    obtain ⟨inside, on⟩ := mem_neighborsOn.mp on
    rw [same neigh inside, single eigrpIface member neigh on]
  · intro agrees neigh inside
    cases found : pdm.findInterfaceById neigh.ifaceId with
    | none =>
      -- no reply is awaited of a neighbor whose interface is gone, and no query is sent there
      have absent := List.find?_eq_none.mp found
      unfold awaits
      rw [found]
      refine iff_of_false Bool.false_ne_true ?_
      rintro ⟨eigrpIface, member, -, same, -⟩
      exact absurd same (by simpa using absent eigrpIface member)
    | some eigrpIface =>
      have member := List.mem_of_find?_eq_some found
      have on : eigrpIface.interfaceId = neigh.ifaceId := beq_iff_eq.mp (List.find?_some found :)
      rw [single eigrpIface member neigh on.symm]
      exact (agreesOn_iff counted member).mpr (agrees eigrpIface member) neigh
        (mem_neighborsOn.mpr ⟨inside, on.symm⟩)

/-- Agreement only depends on the route and the sources through split horizon. -/
theorem agrees_congr (pdm : EigrpIpv4Pdm) {route : EigrpRoute} {otherSource : EigrpRouteSource}
    (table : ∀ eigrpIface, mayCross { pdm with route, reqQueue } source tablePoisonRev eigrpIface =
      pdm.mayCross source tablePoisonRev eigrpIface) (query : ∀ eigrpIface,
      mayCross { pdm with route, reqQueue } otherSource queryPoisonRev eigrpIface =
        pdm.mayCross querySource queryPoisonRev eigrpIface) :
    Agrees { pdm with route, reqQueue } source otherSource tablePoisonRev queryPoisonRev ↔
      pdm.Agrees source querySource tablePoisonRev queryPoisonRev := by
  have awaits : ∀ neigh, awaits { pdm with route, reqQueue } source tablePoisonRev neigh =
      pdm.awaits source tablePoisonRev neigh := by
    intro neigh
    unfold EigrpIpv4Pdm.awaits
    simp only [table]
    rfl
  have agreesOn : ∀ eigrpIface,
      AgreesOn { pdm with route, reqQueue } source otherSource tablePoisonRev queryPoisonRev
          eigrpIface ↔
        pdm.AgreesOn source querySource tablePoisonRev queryPoisonRev eigrpIface := by
    intro eigrpIface
    constructor
    · rintro ⟨crosses, receivers⟩
      rw [table, query] at crosses
      rw [table] at receivers
      exact ⟨crosses, receivers⟩
    · rintro ⟨crosses, receivers⟩
      rw [← table, ← query] at crosses
      rw [← table] at receivers
      exact ⟨crosses, receivers⟩
  unfold Agrees
  simp only [awaits, agreesOn]
  exact Iff.rfl

theorem mayCross_forced (pdm : EigrpIpv4Pdm) (source : EigrpRouteSource)
    (eigrpIface : EigrpInterface) : pdm.mayCross source true eigrpIface = true := by
  simp [mayCross, poisonReverse]

/-- A reply leaves everything but the requests, and the queries among these. -/
theorem sendReply_spec {destNeighbor : Nat} {isUnreachable : Bool}
    (returned : pdm.sendReply destNeighbor source forcePoisonRev isUnreachable = .ok next)
    (addressed : pdm.Addressed) :
    next = { pdm with reqQueue := next.reqQueue } ∧ next.Addressed := by
  unfold sendReply at returned
  split at returned
  · cases returned
    exact ⟨rfl, addressed⟩
  · obtain ⟨poisonRev, -, ⟨⟩⟩ := bind_eq_ok.mp returned
    refine ⟨rfl, fun request member query eigrpIface known same => ?_⟩
    rcases mem_pushMsgRoute member with ⟨old, waits, opcode, iface, receiver⟩ | ⟨reply, -⟩
    · rw [← receiver]
      exact addressed old waits (opcode.trans query) eigrpIface known (same.trans iface.symm)
    · exact HeaderOpcode.noConfusion (reply.symm.trans query)

/-- A fold that keeps what it has or takes the element ends at the start or at an element. -/
theorem mem_of_foldl {α : Type} {choose : Option α → α → Option α} {chosen : α}
    (chooses : ∀ kept a, choose kept a = some a ∨ choose kept a = kept) {elements : List α}
    {start : Option α} (found : elements.foldl choose start = some chosen) :
    chosen ∈ elements ∨ start = some chosen := by
  induction elements generalizing start with
  | nil => exact .inr found
  | cons first rest ih =>
    rcases ih found with later | here
    · exact .inl (.tail _ later)
    · rcases chooses start first with taken | kept
      · rw [taken] at here
        cases here
        exact .inl List.mem_cons_self
      · exact .inr (kept.symm.trans here)

theorem routeId_of_getBestSuccessor {best : EigrpRouteSource}
    (found : pdm.getBestSuccessor = some best) : best.routeId = pdm.route.routeId := by
  rw [getBestSuccessor, RouteVector.getBestSuccessor] at found
  have member := (mem_of_foldl (fun tempSrc source => by
    cases tempSrc with
    | none => exact .inl rfl
    | some best =>
      dsimp only
      split_ifs <;> simp) found).resolve_right fun none => by cases none
  have listed := (List.mem_filter.mp member).1
  exact beq_iff_eq.mp (Bool.and_eq_true_iff.mp (List.mem_filter.mp listed).2).1

end EigrpIpv4Pdm

namespace EigrpDual

open EigrpIpv4Pdm

variable {pdm next : EigrpIpv4Pdm} {source : EigrpRouteSource}

/-! ### Transitions -/

/-- The transitions that start a diffusing computation. -/
inductive Diffusing
  | transition3 | transition4 | transition11 | transition12
  deriving DecidableEq

namespace Diffusing

def run (transition : Diffusing) (event : DualEvent) (source : EigrpRouteSource)
    (neighborId : Nat) (pdm : EigrpIpv4Pdm) : Except String EigrpIpv4Pdm :=
  match transition with
  | transition3 => processTransition3 source pdm
  | transition4 => processTransition4 event source neighborId pdm
  | transition11 => processTransition11 source neighborId pdm
  | transition12 => processTransition12 source pdm

/-- The flag with which the reply status table is set. -/
def tablePoisonRev : Diffusing → Bool
  | transition4 => true
  | _ => false

/-- The flag that the query is given. -/
def queryPoisonRev (neighborId : Nat) : Diffusing → Bool
  | transition3 | transition12 => false
  | transition4 => true
  | transition11 => neighborId != 0

end Diffusing

/-- The neighbors in the reply status table are, each once, those that the messages which are sent
next ask for the route. -/
structure AwaitsAsked (neighborVec : List EigrpNeighbor) (routeId : Nat) (next : EigrpIpv4Pdm) :
    Prop where
  once : next.route.replyStatusTable.Nodup
  known : ∀ id ∈ next.route.replyStatusTable, ∃ neigh ∈ neighborVec, neigh.neighborId = id
  asked : ∀ neigh ∈ neighborVec, neigh.neighborId ∈ next.route.replyStatusTable ↔
    Asked next.flushMsgRequests.1 routeId neigh

/-- No computation is under way, and no query for the route waits that would still be sent. -/
structure Idle (pdm : EigrpIpv4Pdm) : Prop where
  counted : Counted pdm.eigrpIft pdm.neighborVec
  addressed : pdm.Addressed
  table : pdm.route.replyStatusTable = []
  queries : ∀ neigh ∈ pdm.neighborVec, ¬Asked pdm.flushMsgRequests.1 pdm.route.routeId neigh

theorem Idle.notAsked (idle : Idle pdm) (member : neigh ∈ pdm.neighborVec)
    (found : pdm.findInterfaceById neigh.ifaceId = some eigrpIface) :
    ¬Asked pdm.reqQueue pdm.route.routeId neigh := fun asked =>
  idle.queries neigh member
    ((pdm.asked_flushMsgRequests _ neigh).mpr ⟨by rw [found]; rfl, asked⟩)

/-- The start of a computation, with a source and a flag for the query of its own. -/
theorem startDiffusion_awaits (idle : Idle pdm) (ofRoute : querySource.routeId = pdm.route.routeId)
    {tablePoisonRev queryPoisonRev : Bool} {otherwise : EigrpIpv4Pdm → Except String EigrpIpv4Pdm}
    (quiet : ∀ {pdm next : EigrpIpv4Pdm}, otherwise pdm = .ok next → pdm.Quiet next)
    (returned : startDiffusion source pdm tablePoisonRev querySource queryPoisonRev otherwise =
      .ok next) :
    AwaitsAsked pdm.neighborVec pdm.route.routeId next ↔
      pdm.Agrees source querySource tablePoisonRev queryPoisonRev := by
  unfold startDiffusion at returned
  rw [setReplyStatusTable_eq] at returned
  dsimp only at returned
  generalize entered : pdm.neighborVec.filter (pdm.awaits source tablePoisonRev) = awaited
    at returned
  have table : (awaiting pdm.route awaited).replyStatusTable =
      awaited.map (·.neighborId) := by
    rw [awaiting, idle.table, List.nil_append]
  have active : (awaiting pdm.route awaited).isActive = !awaited.isEmpty := by
    rw [EigrpRoute.isActive, table, List.isEmpty_map]
  by_cases none : awaited = []
  · have nobody : ∀ neigh ∈ pdm.neighborVec, pdm.awaits source tablePoisonRev neigh = false := by
      intro neigh member
      by_contra awaits
      have inside : neigh ∈ awaited :=
        entered ▸ List.mem_filter.mpr ⟨member, by simpa using awaits⟩
      exact List.not_mem_nil (none ▸ inside)
    have passive : (!awaited.isEmpty) = false := by simp [none]
    have same : (awaiting pdm.route awaited).replyStatusTable = pdm.route.replyStatusTable := by
      rw [table, none, idle.table]
      rfl
    rw [active, passive] at returned
    have prepared : pdm.Quiet { pdm with route := awaiting pdm.route awaited } :=
      ⟨rfl, rfl, same⟩
    have still := prepared.trans (quiet returned)
    refine iff_of_true ⟨?_, ?_, ?_⟩ (.inl nobody)
    · rw [still.table, idle.table]
      exact .nil
    · rw [still.table, idle.table]
      rintro _ ⟨⟩
    · intro neigh member
      rw [still.table, idle.table, still.asked]
      exact iff_of_false List.not_mem_nil (idle.queries neigh member)
  · have nonempty : (!awaited.isEmpty) = true := by simpa using none
    rw [active, nonempty] at returned
    obtain ⟨route, interfaces, -, asked⟩ := sendQuery_spec
      { pdm with route := awaiting pdm.route awaited } idle.counted idle.addressed returned
    have entries : next.route.replyStatusTable = awaited.map (·.neighborId) := by
      rw [route]
      exact table
    have mem_entries : ∀ neigh ∈ pdm.neighborVec,
        neigh.neighborId ∈ next.route.replyStatusTable ↔
          pdm.awaits source tablePoisonRev neigh := by
      intro neigh member
      rw [entries, List.mem_map, ← entered]
      constructor
      · rintro ⟨other, inside, same⟩
        obtain ⟨known, awaits⟩ := List.mem_filter.mp inside
        exact idle.counted.neighbor_eq known member same ▸ awaits
      · exact fun awaits => ⟨neigh, List.mem_filter.mpr ⟨member, awaits⟩, rfl⟩
    have sent : ∀ neigh ∈ pdm.neighborVec,
        Asked next.flushMsgRequests.1 pdm.route.routeId neigh ↔
          ∃ eigrpIface ∈ pdm.eigrpIft,
            pdm.reaches querySource queryPoisonRev neigh eigrpIface := by
      intro neigh member
      have known : next.findInterfaceById neigh.ifaceId = pdm.findInterfaceById neigh.ifaceId := by
        rw [findInterfaceById, interfaces]
        rfl
      have pushed := asked neigh member
      rw [ofRoute] at pushed
      rw [asked_flushMsgRequests, pushed, known]
      constructor
      · rintro ⟨found, old | reached⟩
        · obtain ⟨eigrpIface, found⟩ := Option.isSome_iff_exists.mp found
          exact absurd old (idle.notAsked member found)
        · exact reached
      · rintro ⟨eigrpIface, inside, reaches⟩
        rw [← reaches.2.1, findInterfaceById_eq_some idle.counted inside]
        exact ⟨rfl, .inr ⟨eigrpIface, inside, reaches⟩⟩
    have exact : AwaitsAsked pdm.neighborVec pdm.route.routeId next ↔
        ∀ neigh ∈ pdm.neighborVec, (pdm.awaits source tablePoisonRev neigh ↔
          ∃ eigrpIface ∈ pdm.eigrpIft,
            pdm.reaches querySource queryPoisonRev neigh eigrpIface) := by
      constructor
      · intro awaitsAsked neigh member
        rw [← mem_entries neigh member, awaitsAsked.asked neigh member, sent neigh member]
      · intro same
        refine ⟨?_, ?_, fun neigh member => ?_⟩
        · rw [entries, ← entered]
          exact (idle.counted.neighbors.sublist (List.filter_sublist.map _))
        · intro id inside
          rw [entries] at inside
          obtain ⟨neigh, inside, same⟩ := List.mem_map.mp inside
          exact ⟨neigh, (List.mem_filter.mp (entered ▸ inside)).1, same⟩
        · rw [mem_entries neigh member, same neigh member, sent neigh member]
    rw [exact, awaits_iff_reaches idle.counted]
    have somebody : ¬∀ neigh ∈ pdm.neighborVec, pdm.awaits source tablePoisonRev neigh = false := by
      intro nobody
      obtain ⟨first, inside⟩ := List.exists_mem_of_ne_nil awaited none
      obtain ⟨member, awaits⟩ := List.mem_filter.mp (entered ▸ inside)
      rw [nobody first member] at awaits
      cases awaits
    exact (or_iff_right somebody).symm

theorem Idle.route (idle : Idle pdm) {route : EigrpRoute}
    (table : route.replyStatusTable = pdm.route.replyStatusTable)
    (routeId : route.routeId = pdm.route.routeId) : Idle { pdm with route } :=
  ⟨idle.counted, idle.addressed, table.trans idle.table, fun neigh member asked =>
    idle.queries neigh member (routeId ▸ asked)⟩

theorem replyWithOld_spec (idle : Idle pdm) {event : DualEvent}
    {neighborId : Nat} {oldSuccessor : EigrpRouteSource}
    (returned : replyWithOld event neighborId pdm oldSuccessor = .ok next) :
    next = { pdm with reqQueue := next.reqQueue } ∧ Idle next := by
  unfold replyWithOld at returned
  split at returned
  · obtain ⟨same, addressed⟩ := sendReply_spec returned idle.addressed
    have quiet := sendReply_quiet returned
    refine ⟨same, ?_, addressed, quiet.table.trans idle.table, ?_⟩
    · rw [same]
      exact idle.counted
    · intro neigh member
      rw [quiet.asked]
      rw [same] at member ⊢
      exact idle.queries neigh member
  · cases returned
    exact ⟨rfl, idle⟩

theorem routeId_oldSuccessorOr (ofRoute : source.routeId = pdm.route.routeId) :
    (oldSuccessorOr source pdm).routeId = pdm.route.routeId := by
  unfold oldSuccessorOr
  cases found : pdm.getBestSuccessor with
  | none => exact ofRoute
  | some best => exact routeId_of_getBestSuccessor found

theorem actualizeDistance_spec (event : DualEvent) (pdm : EigrpIpv4Pdm)
    (oldSuccessor : EigrpRouteSource) :
    (actualizeDistance event pdm oldSuccessor).replyStatusTable = pdm.route.replyStatusTable ∧
      (actualizeDistance event pdm oldSuccessor).routeId = pdm.route.routeId := by
  unfold actualizeDistance
  split <;> exact ⟨rfl, rfl⟩

/-- The fourth transition forces poison reverse on both sides, for whatever distance. -/
theorem processTransition4_awaits (idle : Idle pdm) {event : DualEvent}
    {neighborId : Nat} (ofRoute : source.routeId = pdm.route.routeId)
    (returned : processTransition4 event source neighborId pdm = .ok next) :
    AwaitsAsked pdm.neighborVec pdm.route.routeId next ↔ pdm.Agrees source source true true := by
  obtain ⟨mid, replied, started⟩ := bind_eq_ok.mp returned
  obtain ⟨table, routeId⟩ := actualizeDistance_spec event (setQueryOrigin pdm 1)
    (oldSuccessorOr source (setQueryOrigin pdm 1))
  have prepared := fun ready => replyWithOld_spec ready replied
  obtain ⟨same, ready⟩ := prepared (idle.route table routeId)
  have old : (oldSuccessorOr source (setQueryOrigin pdm 1)).routeId = mid.route.routeId := by
    rw [same]
    exact (routeId_oldSuccessorOr ofRoute).trans routeId.symm
  have both := startDiffusion_awaits ready old processTransition15_quiet started
  rw [same] at both
  rw [show pdm.route.routeId = _ from routeId.symm]
  have forced : ∀ {pdm other : EigrpIpv4Pdm} {source querySource : EigrpRouteSource} eigrpIface,
      other.mayCross querySource true eigrpIface = pdm.mayCross source true eigrpIface :=
    fun _ => by rw [mayCross_forced, mayCross_forced]
  exact both.trans (agrees_congr pdm forced forced)

/-- A diffusing computation awaits the replies of exactly the neighbors that it asks if and only if
it awaits none, or on every interface with neighbors to ask split horizon decides alike for both
sides and the receivers of a message are the neighbors to ask. -/
theorem awaitsAsked_iff (transition : Diffusing) (event : DualEvent) (source : EigrpRouteSource)
    (neighborId : Nat) (pdm next : EigrpIpv4Pdm) (idle : Idle pdm)
    (ofRoute : source.routeId = pdm.route.routeId)
    (returned : transition.run event source neighborId pdm = .ok next) :
    AwaitsAsked pdm.neighborVec pdm.route.routeId next ↔
      pdm.Agrees source source transition.tablePoisonRev
        (transition.queryPoisonRev neighborId) := by
  cases transition with
  | transition3 =>
    dsimp only [Diffusing.run, processTransition3] at returned
    have both := fun ready ofRoute =>
      startDiffusion_awaits ready ofRoute processTransition13_quiet returned
    exact (both (idle.route rfl rfl) ofRoute).trans
      (agrees_congr pdm (fun _ => rfl) fun _ => rfl)
  | transition4 => exact processTransition4_awaits idle ofRoute returned
  | transition11 =>
    dsimp only [Diffusing.run, processTransition11] at returned
    have both := fun ready ofRoute =>
      startDiffusion_awaits ready ofRoute processTransition15_quiet returned
    exact (both (idle.route rfl rfl) ofRoute).trans
      (agrees_congr pdm (fun _ => rfl) fun _ => rfl)
  | transition12 =>
    dsimp only [Diffusing.run, processTransition12] at returned
    have both := fun ready ofRoute =>
      startDiffusion_awaits ready ofRoute processTransition13_quiet returned
    exact (both (idle.route rfl rfl) ofRoute).trans
      (agrees_congr pdm (fun _ => rfl) fun _ => rfl)

/-- The source of the route over the neighbor on the interface with the same number. -/
def sourceOver (id : Nat) (successor : Bool) : EigrpRouteSource :=
  { sourceId := id, routeId := 1, nextHopId := id, interfaceId := id, successor }

/-- A router with a neighbor on each of two interfaces. The first one is the successor. -/
def twoNeighbors : EigrpIpv4Pdm :=
  { eigrpIft := [{ interfaceId := 1, neighborCount := 1 }, { interfaceId := 2, neighborCount := 1 }]
    neighborVec := [{ neighborId := 1, ifaceId := 1 }, { neighborId := 2, ifaceId := 2 }]
    routeVec := [sourceOver 1 true, sourceOver 2 false]
    route := { routeId := 1, routeAddress := 0x0a000000#32, routeMask := 0xff000000#32
               numSuccessors := 1 }
    rt := { useAdminDist := true } }

theorem twoNeighbors_idle : Idle twoNeighbors where
  counted := ⟨by decide, by decide, by decide, by decide, by decide⟩
  addressed := nofun
  table := rfl
  queries := by rintro _ _ ⟨_, ⟨⟩, _⟩

theorem awaitsAsked_twoNeighbors :
    ∃ next, Diffusing.transition12.run .RECV_REPLY (sourceOver 2 false) 2 twoNeighbors = .ok next ∧
      AwaitsAsked twoNeighbors.neighborVec twoNeighbors.route.routeId next := by
  refine ⟨_, rfl, (awaitsAsked_iff .transition12 .RECV_REPLY (sourceOver 2 false) 2 twoNeighbors _
    twoNeighbors_idle rfl rfl).mpr (.inr fun eigrpIface member _ => ?_)⟩
  rcases List.mem_cons.mp member with rfl | member
  · exact ⟨rfl, fun _ => by decide⟩
  · cases List.mem_singleton.mp member
    exact ⟨rfl, fun _ => by decide⟩

/-- After the last reply, the query of the eleventh transition is also sent to the neighbor that
sent the reply, with the identifier of the neighbor as the flag for poison reverse, but split
horizon keeps the neighbor out of the table. -/
theorem transition11_asks_sender :
    ¬∀ (transition : Diffusing) (event : DualEvent) (source : EigrpRouteSource) (neighborId : Nat)
      (pdm next : EigrpIpv4Pdm), Idle pdm → source.routeId = pdm.route.routeId →
      transition.run event source neighborId pdm = .ok next →
      AwaitsAsked pdm.neighborVec pdm.route.routeId next := by
  intro claim
  have awaitsAsked := claim .transition11 .RECV_REPLY (sourceOver 2 false) 2 twoNeighbors _
    twoNeighbors_idle rfl rfl
  have sender := awaitsAsked.asked { neighborId := 2, ifaceId := 2 } (by decide)
  refine absurd (sender.mpr ?_) (by decide)
  exact ⟨_, List.mem_cons_of_mem _ List.mem_cons_self, rfl, rfl, .inl rfl, _,
    List.mem_cons_self, rfl⟩

end EigrpDual

end Inet.Eigrp
