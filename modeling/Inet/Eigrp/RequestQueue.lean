import Inet.Eigrp.DiffusingComputation
import Inet.Lib.KeyedList

/-!
# The queue of requests

The queue gathers the routes that are pushed: there is one request for each interface and kind of
message, and in it one entry for each route.
-/
namespace Inet.Eigrp

open Lib EigrpIpv4Pdm

/-- The arguments of a call of `pushMsgRouteToQueue`. -/
structure Push where
  msgType : HeaderOpcode
  ifaceId : Nat
  neighId : Nat
  msgRt : EigrpMsgRoute
  deriving DecidableEq

/-- What a request is found by. -/
def Push.key (push : Push) : Nat × HeaderOpcode := (push.ifaceId, push.msgType)

/-! ### The routes of a request -/

def msgRoutes : Gathering EigrpMsgRoute EigrpMsgRoute Nat where
  keyOf := (·.routeId)
  entryKey := (·.routeId)
  new := id
  add := fun rt msgRt => if msgRt.unreachable then { rt with unreachable := true } else rt
  new_key := fun _ => rfl
  add_key := fun _ _ => by split <;> rfl

theorem addMsgRoute_eq (msgRt : EigrpMsgRoute) (routes : List EigrpMsgRoute) :
    addMsgRoute msgRt routes = msgRoutes.put msgRt routes := by
  induction routes with
  | nil => rfl
  | cons rt rest ih =>
    rw [addMsgRoute, Gathering.put, ih]
    rfl

theorem elementOf_msgRoutes {msgRts : List EigrpMsgRoute} {rt : EigrpMsgRoute}
    (made : msgRoutes.elementOf msgRts = some rt) :
    rt.unreachable = msgRts.any (·.unreachable) := by
  cases msgRts with
  | nil => cases made
  | cons first rest =>
    obtain rfl := Option.some_inj.mp made
    change (rest.foldl msgRoutes.add first).unreachable = _
    induction rest generalizing first with
    | nil => simp
    | cons msgRt rest ih =>
      rw [List.foldl_cons, ih _ rfl]
      cases unreachable : msgRt.unreachable with
      | true => simp [msgRoutes, unreachable]
      | false => simp [msgRoutes, unreachable]

/-- A route is unreachable in a request if one of the routes that were added for it is. -/
theorem mem_gather_msgRoutes {msgRts : List EigrpMsgRoute} {routeId : Nat} {unreachable : Bool} :
    (∃ rt ∈ msgRoutes.gather msgRts, rt.routeId = routeId ∧ rt.unreachable = unreachable) ↔
      (∃ msgRt ∈ msgRts, msgRt.routeId = routeId) ∧
        (unreachable = true ↔ ∃ msgRt ∈ msgRts, msgRt.routeId = routeId ∧ msgRt.unreachable) := by
  have any : (msgRoutes.entriesOf msgRts routeId).any (·.unreachable) = true ↔
      ∃ msgRt ∈ msgRts, msgRt.routeId = routeId ∧ msgRt.unreachable := by
    rw [List.any_eq_true]
    refine exists_congr fun msgRt => ?_
    rw [Gathering.entriesOf, List.mem_filter, decide_eq_true_iff, and_assoc]
    rfl
  rw [← any, ← Bool.eq_iff_iff]
  constructor
  · rintro ⟨rt, member, rfl, rfl⟩
    have made := msgRoutes.mem_gather.mp member
    refine ⟨?_, elementOf_msgRoutes made⟩
    cases entries : msgRoutes.entriesOf msgRts rt.routeId with
    | nil =>
      rw [show msgRoutes.keyOf rt = rt.routeId from rfl, entries] at made
      cases made
    | cons msgRt rest =>
      have member : msgRt ∈ msgRoutes.entriesOf msgRts rt.routeId := by
        rw [entries]
        exact List.mem_cons_self
      obtain ⟨member, same⟩ := List.mem_filter.mp member
      exact ⟨msgRt, member, of_decide_eq_true same⟩
  · rintro ⟨⟨msgRt, member, same⟩, rfl⟩
    have entry : msgRt ∈ msgRoutes.entriesOf msgRts routeId :=
      List.mem_filter.mpr ⟨member, decide_eq_true same⟩
    cases made : msgRoutes.elementOf (msgRoutes.entriesOf msgRts routeId) with
    | none =>
      cases entries : msgRoutes.entriesOf msgRts routeId with
      | nil =>
        rw [entries] at entry
        cases entry
      | cons first rest =>
        rw [entries] at made
        cases made
    | some rt =>
      have found := (msgRoutes.find_gather msgRts routeId).trans made
      obtain ⟨member, same⟩ := (KeyedList.find_eq_some (msgRoutes.unique_gather msgRts)).mp found
      exact ⟨rt, member, same, elementOf_msgRoutes made⟩

/-! ### Requests -/

def requests : Gathering EigrpMsgReq Push (Nat × HeaderOpcode) where
  keyOf := fun request => (request.destInterface, request.opcode)
  entryKey := Push.key
  new := fun push =>
    { opcode := push.msgType, destNeighbor := push.neighId, destInterface := push.ifaceId
      routes := [push.msgRt] }
  add := fun request push => { request with routes := addMsgRoute push.msgRt request.routes }
  new_key := fun _ => rfl
  add_key := fun _ _ => rfl

theorem pushMsgRoute_eq (push : Push) (reqQueue : List EigrpMsgReq) :
    pushMsgRoute push.msgType push.ifaceId push.neighId push.msgRt reqQueue =
      requests.put push reqQueue := by
  induction reqQueue with
  | nil => rfl
  | cons request rest ih =>
    rw [pushMsgRoute, Gathering.put, ih]
    refine if_congr ?_ rfl rfl
    exact Prod.mk_inj.symm

/-- The request for some pushes. It goes where the first of them does. -/
def requestFor (first : Push) (group : List Push) : EigrpMsgReq :=
  { opcode := first.msgType, destNeighbor := first.neighId, destInterface := first.ifaceId
    routes := msgRoutes.gather (group.map (·.msgRt)) }

theorem elementOf_requests (first : Push) (rest : List Push) :
    requests.elementOf (first :: rest) = some (requestFor first (first :: rest)) := by
  rw [Gathering.elementOf]
  induction rest using List.reverseRecOn with
  | nil => rfl
  | append_singleton rest push ih =>
    rw [List.foldl_append, Option.some_inj.mp ih, ← List.cons_append, requestFor, requestFor,
      List.map_append, List.map_singleton, Gathering.gather_concat, ← addMsgRoute_eq]
    rfl

/-! ### Messages to neighbors -/

/-- The neighbor receives what the request asks for: a message for one neighbor goes to it alone. -/
def EigrpMsgReq.Reaches (request : EigrpMsgReq) (neigh : EigrpNeighbor) : Prop :=
  request.destInterface = neigh.ifaceId ∧
    (request.destNeighbor = UNSPEC_ID ∨ request.destNeighbor = neigh.neighborId)

/-- The neighbor receives a message with an entry for the route. -/
def Delivered (sent : List EigrpMsgReq) (msgType : HeaderOpcode) (neigh : EigrpNeighbor)
    (routeId : Nat) (unreachable : Bool) : Prop :=
  ∃ request ∈ sent, request.opcode = msgType ∧ request.Reaches neigh ∧
    ∃ rt ∈ request.routes, rt.routeId = routeId ∧ rt.unreachable = unreachable

theorem mem_flushMsgRequests {pdm : EigrpIpv4Pdm} {request : EigrpMsgReq} :
    request ∈ pdm.flushMsgRequests.1 ↔
      request ∈ pdm.reqQueue ∧ (pdm.findInterfaceById request.destInterface).isSome := by
  simp only [flushMsgRequests, List.mem_append, List.mem_filter, ← and_or_left]
  refine and_iff_left ?_
  rw [bne, Bool.not_eq_true']
  exact Bool.eq_false_or_eq_true _

/-- The pushes that go into one request. -/
def pushesOn (pushes : List Push) (ifaceId : Nat) (msgType : HeaderOpcode) : List Push :=
  requests.entriesOf pushes (ifaceId, msgType)

theorem mem_pushesOn {pushes : List Push} {ifaceId : Nat} {msgType : HeaderOpcode} {push : Push} :
    push ∈ pushesOn pushes ifaceId msgType ↔
      push ∈ pushes ∧ push.ifaceId = ifaceId ∧ push.msgType = msgType := by
  rw [pushesOn, Gathering.entriesOf, List.mem_filter, decide_eq_true_iff]
  exact and_congr_right fun _ => Prod.mk_inj

/-- What a flush delivers: the neighbor must be the one of the first push, if that is for one
neighbor. -/
theorem delivered_flush {pdm : EigrpIpv4Pdm} {pushes : List Push}
    (queued : pdm.reqQueue = requests.gather pushes) {msgType : HeaderOpcode}
    {neigh : EigrpNeighbor} {routeId : Nat} {unreachable : Bool} :
    Delivered pdm.flushMsgRequests.1 msgType neigh routeId unreachable ↔
      (pdm.findInterfaceById neigh.ifaceId).isSome ∧
        (∃ first, (pushesOn pushes neigh.ifaceId msgType).head? = some first ∧
          (first.neighId = UNSPEC_ID ∨ first.neighId = neigh.neighborId)) ∧
        (∃ push ∈ pushesOn pushes neigh.ifaceId msgType, push.msgRt.routeId = routeId) ∧
        (unreachable = true ↔ ∃ push ∈ pushesOn pushes neigh.ifaceId msgType,
          push.msgRt.routeId = routeId ∧ push.msgRt.unreachable) := by
  have carried (group : List Push) : (∃ rt ∈ msgRoutes.gather (group.map (·.msgRt)),
      rt.routeId = routeId ∧ rt.unreachable = unreachable) ↔
      (∃ push ∈ group, push.msgRt.routeId = routeId) ∧
        (unreachable = true ↔
          ∃ push ∈ group, push.msgRt.routeId = routeId ∧ push.msgRt.unreachable) := by
    rw [mem_gather_msgRoutes]
    simp
  rw [← carried]
  constructor
  · rintro ⟨request, sent, rfl, ⟨iface, reaches⟩, carries⟩
    obtain ⟨waits, found⟩ := mem_flushMsgRequests.mp sent
    rw [queued] at waits
    have made := requests.mem_gather.mp waits
    rw [show requests.keyOf request = (neigh.ifaceId, request.opcode) from
      Prod.ext iface rfl] at made
    change requests.elementOf (pushesOn pushes neigh.ifaceId request.opcode) = _ at made
    cases entries : pushesOn pushes neigh.ifaceId request.opcode with
    | nil =>
      rw [entries] at made
      cases made
    | cons first rest =>
      rw [entries, elementOf_requests] at made
      obtain rfl := Option.some_inj.mp made
      exact ⟨iface ▸ found, ⟨first, rfl, reaches⟩, carries⟩
  · rintro ⟨found, ⟨first, head, reaches⟩, carries⟩
    obtain ⟨rest, entries⟩ := List.head?_eq_some_iff.mp head
    have member : first ∈ pushesOn pushes neigh.ifaceId msgType := by
      rw [entries]
      exact List.mem_cons_self
    obtain ⟨_, iface, rfl⟩ := mem_pushesOn.mp member
    have made := elementOf_requests first rest
    rw [← entries] at made
    have waits : requestFor first (pushesOn pushes neigh.ifaceId first.msgType) ∈ pdm.reqQueue := by
      rw [queued, requests.mem_gather]
      change requests.elementOf (pushesOn pushes first.ifaceId first.msgType) = _
      rw [iface]
      exact made
    exact ⟨_, mem_flushMsgRequests.mpr ⟨waits, iface ▸ found⟩, rfl, ⟨iface, reaches⟩, carries⟩

end Inet.Eigrp
