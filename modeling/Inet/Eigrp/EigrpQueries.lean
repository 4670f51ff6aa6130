import Inet.Eigrp.EigrpDual

/-!
# Queries and awaited replies

What the transitions of DUAL do to the queries that wait to be sent and to the reply status table.
Only the start of a diffusing computation adds to either of them.
-/
namespace Inet.Eigrp

open Lib

/-- The neighbor is among the receivers of the request, which is a query for the route. -/
def EigrpMsgReq.Asks (request : EigrpMsgReq) (routeId : Nat) (neigh : EigrpNeighbor) : Prop :=
  request.opcode = .EIGRP_QUERY_MSG ∧ request.destInterface = neigh.ifaceId ∧
    (request.destNeighbor = UNSPEC_ID ∨ request.destNeighbor = neigh.neighborId) ∧
    ∃ rt ∈ request.routes, rt.routeId = routeId

/-- The neighbor is among the receivers of a query for the route. -/
def Asked (reqQueue : List EigrpMsgReq) (routeId : Nat) (neigh : EigrpNeighbor) : Prop :=
  ∃ request ∈ reqQueue, request.Asks routeId neigh

namespace EigrpIpv4Pdm

/-! ### What leaves them as they are -/

def queries (pdm : EigrpIpv4Pdm) : List EigrpMsgReq :=
  pdm.reqQueue.filter (·.opcode == .EIGRP_QUERY_MSG)

/-- Neither interfaces nor queries nor awaited replies have changed. -/
structure Quiet (pdm next : EigrpIpv4Pdm) : Prop where
  interfaces : next.eigrpIft = pdm.eigrpIft
  queries : next.queries = pdm.queries
  table : next.route.replyStatusTable = pdm.route.replyStatusTable

namespace Quiet

theorem refl (pdm : EigrpIpv4Pdm) : pdm.Quiet pdm := ⟨rfl, rfl, rfl⟩

theorem trans {pdm mid next : EigrpIpv4Pdm} (first : pdm.Quiet mid) (second : mid.Quiet next) :
    pdm.Quiet next :=
  ⟨second.interfaces.trans first.interfaces, second.queries.trans first.queries,
    second.table.trans first.table⟩

end Quiet

theorem asked_iff_queries (pdm : EigrpIpv4Pdm) (routeId : Nat) (neigh : EigrpNeighbor) :
    Asked pdm.reqQueue routeId neigh ↔ ∃ request ∈ pdm.queries, request.Asks routeId neigh := by
  constructor
  · rintro ⟨request, member, asks⟩
    exact ⟨request, List.mem_filter.mpr ⟨member, beq_iff_eq.mpr asks.1⟩, asks⟩
  · rintro ⟨request, member, asks⟩
    exact ⟨request, (List.mem_filter.mp member).1, asks⟩

/-- The neighbor is asked by the messages that are sent next. -/
theorem asked_flushMsgRequests (pdm : EigrpIpv4Pdm) (routeId : Nat) (neigh : EigrpNeighbor) :
    Asked pdm.flushMsgRequests.1 routeId neigh ↔
      (pdm.findInterfaceById neigh.ifaceId).isSome ∧ Asked pdm.reqQueue routeId neigh := by
  constructor
  · rintro ⟨request, member, asks⟩
    have known : request ∈ pdm.reqQueue.filter fun request =>
        (pdm.findInterfaceById request.destInterface).isSome := by
      rcases List.mem_append.mp member with member | member <;> exact (List.mem_filter.mp member).1
    obtain ⟨waits, found⟩ := List.mem_filter.mp known
    exact ⟨asks.2.1 ▸ found, request, waits, asks⟩
  · rintro ⟨found, request, waits, asks⟩
    have known : request ∈ pdm.reqQueue.filter fun request =>
        (pdm.findInterfaceById request.destInterface).isSome :=
      List.mem_filter.mpr ⟨waits, asks.2.1 ▸ found⟩
    exact ⟨request,
      List.mem_append_left _ (List.mem_filter.mpr ⟨known, beq_iff_eq.mpr asks.1⟩), asks⟩

theorem Quiet.asked {pdm next : EigrpIpv4Pdm} (quiet : pdm.Quiet next) (routeId : Nat)
    (neigh : EigrpNeighbor) :
    Asked next.flushMsgRequests.1 routeId neigh ↔ Asked pdm.flushMsgRequests.1 routeId neigh := by
  rw [asked_flushMsgRequests, asked_flushMsgRequests, asked_iff_queries, asked_iff_queries,
    quiet.queries, findInterfaceById, findInterfaceById, quiet.interfaces]

theorem pushMsgRoute_queries {msgType : HeaderOpcode} (other : msgType ≠ .EIGRP_QUERY_MSG)
    (ifaceId neighId : Nat) (msgRt : EigrpMsgRoute) (reqQueue : List EigrpMsgReq) :
    (pushMsgRoute msgType ifaceId neighId msgRt reqQueue).filter (·.opcode == .EIGRP_QUERY_MSG) =
      reqQueue.filter (·.opcode == .EIGRP_QUERY_MSG) := by
  induction reqQueue with
  | nil => simp [pushMsgRoute, other]
  | cons request rest ih =>
    unfold pushMsgRoute
    split
    · next found =>
      have opcode : ¬request.opcode = .EIGRP_QUERY_MSG := found.2 ▸ other
      simp [opcode]
    · rw [List.filter_cons, List.filter_cons, ih]

theorem pushMsgRouteToQueue_quiet (pdm : EigrpIpv4Pdm) {msgType : HeaderOpcode}
    (other : msgType ≠ .EIGRP_QUERY_MSG) (ifaceId neighId : Nat) (msgRt : EigrpMsgRoute) :
    pdm.Quiet (pdm.pushMsgRouteToQueue msgType ifaceId neighId msgRt) :=
  ⟨rfl, pushMsgRoute_queries other ifaceId neighId msgRt pdm.reqQueue, rfl⟩

theorem msgToIface_quiet {pdm next : EigrpIpv4Pdm} {msgType : HeaderOpcode}
    (other : msgType ≠ .EIGRP_QUERY_MSG) {source : EigrpRouteSource} {eigrpIface : EigrpInterface}
    {forcePoisonRev : Bool}
    (returned : pdm.msgToIface msgType source eigrpIface forcePoisonRev = .ok next) :
    pdm.Quiet next := by
  unfold msgToIface at returned
  split at returned
  · cases returned
    exact .refl pdm
  · obtain ⟨destNeigh, _, ⟨⟩⟩ := bind_eq_ok.mp returned
    exact pushMsgRouteToQueue_quiet pdm other _ _ _

theorem msgToAllIfaces_quiet {pdm next : EigrpIpv4Pdm} {msgType : HeaderOpcode}
    (other : msgType ≠ .EIGRP_QUERY_MSG) {destination : Int} {source : EigrpRouteSource}
    {forcePoisonRev : Bool}
    (returned : pdm.msgToAllIfaces destination msgType source forcePoisonRev = .ok next) :
    pdm.Quiet next := by
  refine foldlM_invariant (fun state => pdm.Quiet state) _ ?_ _ (.refl pdm) _ returned
  intro state eigrpIface _ quiet next returned
  unfold msgToEachIface at returned
  split at returned
  · cases returned
    exact quiet
  · split at returned
    · rw [if_neg (fun both => other both.1)] at returned
      exact quiet.trans (msgToIface_quiet other returned)
    · cases returned
      exact quiet

theorem sendUpdate_quiet {pdm next : EigrpIpv4Pdm} {destNeighbor : Int}
    {source : EigrpRouteSource} {forcePoisonRev : Bool}
    (returned : pdm.sendUpdate destNeighbor source forcePoisonRev = .ok next) :
    pdm.Quiet next := by
  unfold sendUpdate at returned
  split at returned
  · cases returned
    exact .refl pdm
  · exact msgToAllIfaces_quiet HeaderOpcode.noConfusion returned

theorem sendReply_quiet {pdm next : EigrpIpv4Pdm} {destNeighbor : Nat} {source : EigrpRouteSource}
    {forcePoisonRev isUnreachable : Bool}
    (returned : pdm.sendReply destNeighbor source forcePoisonRev isUnreachable = .ok next) :
    pdm.Quiet next := by
  unfold sendReply at returned
  split at returned
  · cases returned
    exact .refl pdm
  · obtain ⟨poisonRev, _, ⟨⟩⟩ := bind_eq_ok.mp returned
    exact pushMsgRouteToQueue_quiet pdm HeaderOpcode.noConfusion _ _ _

theorem setDelayedRemove_quiet {pdm next : EigrpIpv4Pdm} {neighId : Nat} {src : EigrpRouteSource}
    (returned : pdm.setDelayedRemove neighId src = .ok next) : pdm.Quiet next := by
  unfold setDelayedRemove at returned
  split at returned
  · cases returned
  · cases returned
    exact ⟨rfl, rfl, rfl⟩

theorem sendUpdateToStubs_quiet {pdm next : EigrpIpv4Pdm} {succ oldSucc : Option EigrpRouteSource}
    (returned : pdm.sendUpdateToStubs succ oldSucc = .ok next) : pdm.Quiet next := by
  unfold sendUpdateToStubs at returned
  split at returned
  · split at returned
    · exact sendUpdate_quiet returned
    · cases returned
    · dsimp only at returned
      refine .trans ?_ (sendUpdate_quiet returned)
      split <;> exact ⟨rfl, rfl, rfl⟩
  · cases returned
    exact .refl pdm

theorem installRouteToRT_quiet {pdm next : EigrpIpv4Pdm} {source : EigrpRouteSource}
    {rtEntry : Option (Ipv4.RouteId × Ipv4.Ipv4Route)} {changed : Bool}
    (returned : pdm.installRouteToRT source rtEntry = .ok (changed, next)) : pdm.Quiet next := by
  unfold installRouteToRT at returned
  split at returned
  · split at returned
    · obtain ⟨rt, _, ⟨⟩⟩ := bind_eq_ok.mp returned
      exact ⟨rfl, rfl, rfl⟩
    · cases returned
      exact .refl pdm
  · obtain ⟨rt, _, returned⟩ := bind_eq_ok.mp returned
    obtain ⟨rt, _, ⟨⟩⟩ := bind_eq_ok.mp returned
    exact ⟨rfl, rfl, rfl⟩

theorem removeRouteFromRT_quiet {pdm next : EigrpIpv4Pdm} {source : EigrpRouteSource}
    {srcProto : Option Ipv4.SourceType}
    (returned : pdm.removeRouteFromRT source = .ok (srcProto, next)) : pdm.Quiet next := by
  unfold removeRouteFromRT at returned
  obtain ⟨found, _, returned⟩ := bind_eq_ok.mp returned
  split at returned
  · cases returned
    exact .refl pdm
  · split at returned
    · obtain ⟨removed, _, ⟨⟩⟩ := bind_eq_ok.mp returned
      exact ⟨rfl, rfl, rfl⟩
    · cases returned
      exact .refl pdm

theorem removeOldSuccessor_quiet {pdm next : EigrpIpv4Pdm} {source : EigrpRouteSource}
    {changed : Bool} (returned : pdm.removeOldSuccessor source = .ok (changed, next)) :
    pdm.Quiet next := by
  unfold removeOldSuccessor at returned
  obtain ⟨⟨srcProto, mid⟩, removed, returned⟩ := bind_eq_ok.mp returned
  have marked : pdm.Quiet (pdm.setSuccessor source false) := ⟨rfl, rfl, rfl⟩
  have quiet : pdm.Quiet mid := marked.trans (removeRouteFromRT_quiet removed)
  dsimp only at returned
  split at returned
  · split at returned
    · cases returned
      exact quiet.trans ⟨rfl, rfl, rfl⟩
    · cases returned
      exact quiet
  · cases returned
    exact quiet.trans ⟨rfl, rfl, rfl⟩

theorem markSuccessor_quiet {loop next : UpdateLoop} {source : EigrpRouteSource} {marked : Bool}
    (returned : markSuccessor loop source = .ok (marked, next)) : loop.pdm.Quiet next.pdm := by
  unfold markSuccessor at returned
  obtain ⟨rtEntry, _, returned⟩ := bind_eq_ok.mp returned
  obtain ⟨isSafe, _, returned⟩ := bind_eq_ok.mp returned
  split at returned
  · obtain ⟨⟨changed, mid⟩, installed, ⟨⟩⟩ := bind_eq_ok.mp returned
    exact (installRouteToRT_quiet installed).trans ⟨rfl, rfl, rfl⟩
  · cases returned
    exact ⟨rfl, rfl, rfl⟩

theorem invalidateUnreachable_quiet (removeUnreach : Bool) (source : EigrpRouteSource)
    (loop : UpdateLoop) : loop.pdm.Quiet (invalidateUnreachable removeUnreach source loop).pdm := by
  unfold invalidateUnreachable
  split <;> exact ⟨rfl, rfl, rfl⟩

theorem updateSource_quiet {dmin routeFd : Nat} {removeUnreach : Bool} {loop next : UpdateLoop}
    {source : EigrpRouteSource}
    (returned : updateSource dmin removeUnreach routeFd loop source = .ok next) :
    loop.pdm.Quiet next.pdm := by
  unfold updateSource at returned
  split at returned
  · cases returned
    exact .refl _
  · dsimp only at returned
    split at returned
    · obtain ⟨⟨marked, mid⟩, done, returned⟩ := bind_eq_ok.mp returned
      have quiet := markSuccessor_quiet done
      cases marked with
      | true =>
        cases returned
        exact quiet.trans (invalidateUnreachable_quiet _ _ _)
      | false =>
        cases returned
        exact quiet
    · split at returned
      · obtain ⟨⟨changed, mid⟩, done, ⟨⟩⟩ := bind_eq_ok.mp returned
        refine (removeOldSuccessor_quiet done).trans ?_
        exact invalidateUnreachable_quiet removeUnreach source
          { loop with
            pdm := mid, rtableChanged := loop.rtableChanged || changed
            sourceCounter := loop.sourceCounter + 1 }
      · cases returned
        exact invalidateUnreachable_quiet _ _ { loop with sourceCounter := loop.sourceCounter + 1 }

theorem updateRoute_quiet {pdm next : EigrpIpv4Pdm} {dmin : Nat} {removeUnreach changed : Bool}
    {successor : Option EigrpRouteSource}
    (returned : pdm.updateRoute dmin removeUnreach = .ok (changed, successor, next)) :
    pdm.Quiet next := by
  unfold updateRoute at returned
  obtain ⟨loop, run, returned⟩ := bind_eq_ok.mp returned
  have quiet : pdm.Quiet loop.pdm := by
    refine foldlM_invariant (fun state : UpdateLoop => pdm.Quiet state.pdm) _ ?_ _ (.refl pdm) _ run
    intro state source _ quiet next returned
    exact quiet.trans (updateSource_quiet returned)
  dsimp only at returned
  split at returned <;> cases returned <;> exact quiet.trans ⟨rfl, rfl, rfl⟩

end EigrpIpv4Pdm

namespace EigrpDual

open EigrpIpv4Pdm

theorem sendUpdateAboutChange_quiet {pdm next : EigrpIpv4Pdm} {rtableChanged : Bool} {oldDij : Nat}
    {successor : Option EigrpRouteSource}
    (returned : sendUpdateAboutChange pdm rtableChanged oldDij successor = .ok next) :
    pdm.Quiet next := by
  unfold sendUpdateAboutChange at returned
  split at returned
  · cases returned
    exact .refl pdm
  · split at returned
    · split at returned
      · exact sendUpdate_quiet returned
      · split at returned
        · exact sendUpdate_quiet returned
        · cases returned
          exact .refl pdm
    · cases returned
      exact .refl pdm

theorem removeIfUnreachable_quiet {pdm next : EigrpIpv4Pdm} {neighborId : Nat}
    {source : EigrpRouteSource} (returned : removeIfUnreachable pdm neighborId source = .ok next) :
    pdm.Quiet next := by
  unfold removeIfUnreachable at returned
  split at returned
  · exact setDelayedRemove_quiet returned
  · cases returned
    exact .refl pdm

theorem replyToOldSuccessor_quiet {pdm next : EigrpIpv4Pdm}
    {successor oldSuccessor : Option EigrpRouteSource}
    (returned : replyToOldSuccessor pdm successor oldSuccessor = .ok next) : pdm.Quiet next := by
  unfold replyToOldSuccessor at returned
  split at returned
  · cases returned
    exact .refl pdm
  · exact sendReply_quiet returned
  · obtain ⟨mid, delayed, returned⟩ := bind_eq_ok.mp returned
    exact (removeIfUnreachable_quiet delayed).trans (sendReply_quiet returned)

theorem invalidateIfUnreachable_quiet (pdm : EigrpIpv4Pdm) (source : EigrpRouteSource) :
    pdm.Quiet (invalidateIfUnreachable pdm source) := by
  unfold invalidateIfUnreachable
  split <;> exact ⟨rfl, rfl, rfl⟩

theorem processTransition13_quiet {pdm next : EigrpIpv4Pdm} {source : EigrpRouteSource}
    (returned : processTransition13 source pdm = .ok next) : pdm.Quiet next := by
  unfold processTransition13 at returned
  obtain ⟨⟨rtableChanged, successor, mid⟩, updated, returned⟩ := bind_eq_ok.mp returned
  obtain ⟨replied, reply, returned⟩ := bind_eq_ok.mp returned
  obtain ⟨told, telling, returned⟩ := bind_eq_ok.mp returned
  have reset : pdm.Quiet (setFd (setQueryOrigin pdm 1) METRIC_INF) := ⟨rfl, rfl, rfl⟩
  exact reset.trans <| (updateRoute_quiet updated).trans <|
    (invalidateIfUnreachable_quiet mid source).trans <| (replyToOldSuccessor_quiet reply).trans <|
    (sendUpdateAboutChange_quiet telling).trans (sendUpdateToStubs_quiet returned)

theorem processTransition15_quiet {pdm next : EigrpIpv4Pdm} {source : EigrpRouteSource}
    (returned : processTransition15 source pdm = .ok next) : pdm.Quiet next := by
  unfold processTransition15 at returned
  have reset : pdm.Quiet (setFd pdm METRIC_INF) := ⟨rfl, rfl, rfl⟩
  dsimp only at returned
  split at returned
  · cases returned
    exact reset
  · obtain ⟨⟨rtableChanged, successor, mid⟩, updated, returned⟩ := bind_eq_ok.mp returned
    obtain ⟨told, telling, returned⟩ := bind_eq_ok.mp returned
    exact reset.trans <| (updateRoute_quiet updated).trans <|
      (invalidateIfUnreachable_quiet mid source).trans <|
      (sendUpdateAboutChange_quiet telling).trans (sendUpdateToStubs_quiet returned)

end EigrpDual

end Inet.Eigrp
