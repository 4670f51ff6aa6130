import Inet.Eigrp.RequestQueue

/-!
# Batches of messages

The calls of `sendReply`, `sendUpdate` and `sendQuery` between two flushes, and whether each neighbor
receives what was pushed for it.
-/
namespace Inet.Eigrp

open Lib

variable (pdm : EigrpIpv4Pdm) (destination : Int) (msgType : HeaderOpcode)
  (source : EigrpRouteSource) (forcePoisonRev : Bool) {pushes : List Push}

namespace EigrpIpv4Pdm

/-! ### What the calls push -/

/-- The module after some pushes. -/
def after (pdm : EigrpIpv4Pdm) (pushes : List Push) : EigrpIpv4Pdm :=
  { pdm with reqQueue := pushes.foldl (fun reqQueue push => requests.put push reqQueue) pdm.reqQueue }

def ifacePushes (pdm : EigrpIpv4Pdm) (msgType : HeaderOpcode) (source : EigrpRouteSource)
    (forcePoisonRev : Bool) (eigrpIface : EigrpInterface) : Except String (List Push) :=
  if pdm.splitHorizonApplies eigrpIface source && !forcePoisonRev then return []
  else do
    let neighId ← pdm.destNeigh eigrpIface
    return [{
      msgType, ifaceId := eigrpIface.interfaceId, neighId
      msgRt := {
        sourceId := source.sourceId, routeId := source.routeId, originator := source.originator
        unreachable := pdm.splitHorizonApplies eigrpIface source } }]

def eachIfacePushes (pdm : EigrpIpv4Pdm) (destination : Int) (msgType : HeaderOpcode)
    (source : EigrpRouteSource) (forcePoisonRev : Bool) (eigrpIface : EigrpInterface) :
    Except String (List Push) :=
  if destination = STUB_RECEIVER ∧ eigrpIface.stubCount = 0 then return []
  else if eigrpIface.neighborCount > 0 then
    if msgType = .EIGRP_QUERY_MSG ∧ pdm.applyStubToQuery eigrpIface eigrpIface.neighborCount then
      return []
    else pdm.ifacePushes msgType source forcePoisonRev eigrpIface
  else return []

def allIfacesPushes (pdm : EigrpIpv4Pdm) (destination : Int) (msgType : HeaderOpcode)
    (source : EigrpRouteSource) (forcePoisonRev : Bool) : Except String (List Push) := do
  let lists ← pdm.eigrpIft.mapM (pdm.eachIfacePushes destination msgType source forcePoisonRev)
  return lists.flatten

def updatePushes (pdm : EigrpIpv4Pdm) (destNeighbor : Int) (source : EigrpRouteSource)
    (forcePoisonRev : Bool) : Except String (List Push) :=
  if pdm.eigrpStubEnabled && pdm.applyStubToUpdate source then return []
  else pdm.allIfacesPushes destNeighbor .EIGRP_UPDATE_MSG source forcePoisonRev

def queryPushes (pdm : EigrpIpv4Pdm) (destNeighbor : Int) (source : EigrpRouteSource)
    (forcePoisonRev : Bool) : Except String (List Push) :=
  pdm.allIfacesPushes destNeighbor .EIGRP_QUERY_MSG source
    (forcePoisonRev || !pdm.eigrpStubEnabled && decide (pdm.stubCount > 0))

def replyPushes (pdm : EigrpIpv4Pdm) (destNeighbor : Nat) (source : EigrpRouteSource)
    (forcePoisonRev isUnreachable : Bool) : Except String (List Push) :=
  match pdm.findNeighborById destNeighbor with
  | none => return []
  | some neigh => do
    let poisonRev ← pdm.poisonReverseTo neigh forcePoisonRev isUnreachable
    return [{
      msgType := .EIGRP_REPLY_MSG, ifaceId := neigh.ifaceId, neighId := neigh.neighborId
      msgRt := {
        sourceId := source.sourceId, routeId := source.routeId, originator := source.originator
        unreachable := isUnreachable || pdm.eigrpStubEnabled || poisonRev } }]

theorem after_append (first second : List Push) :
    pdm.after (first ++ second) = (pdm.after first).after second := by
  rw [after, List.foldl_append]
  rfl

theorem pushMsgRouteToQueue_eq (push : Push) :
    pdm.pushMsgRouteToQueue push.msgType push.ifaceId push.neighId push.msgRt =
      pdm.after [push] := by
  rw [pushMsgRouteToQueue, pushMsgRoute_eq]
  rfl

theorem msgToIface_eq (eigrpIface : EigrpInterface) (forcePoisonRev : Bool) :
    pdm.msgToIface msgType source eigrpIface forcePoisonRev =
      (pdm.ifacePushes msgType source forcePoisonRev eigrpIface).map pdm.after := by
  rw [msgToIface, ifacePushes]
  split
  · rfl
  · cases pdm.destNeigh eigrpIface with
    | error message => rfl
    | ok neighId => exact congrArg Except.ok (pdm.pushMsgRouteToQueue_eq ⟨_, _, _, _⟩)

theorem msgToEachIface_eq (eigrpIface : EigrpInterface) :
    msgToEachIface destination msgType source forcePoisonRev pdm eigrpIface =
      (pdm.eachIfacePushes destination msgType source forcePoisonRev eigrpIface).map pdm.after := by
  rw [msgToEachIface, msgToIface_eq, eachIfacePushes]
  split
  · rfl
  · split
    · split <;> rfl
    · rfl

/-- Pushes change nothing that the loop over the interfaces reads. -/
theorem foldlM_msgToEachIface (eigrpIft : List EigrpInterface) (pushes : List Push) :
    eigrpIft.foldlM (msgToEachIface destination msgType source forcePoisonRev) (pdm.after pushes) =
      (eigrpIft.mapM (pdm.eachIfacePushes destination msgType source forcePoisonRev)).map
        fun lists => pdm.after (pushes ++ lists.flatten) := by
  induction eigrpIft generalizing pushes with
  | nil =>
    rw [List.mapM_nil]
    exact congrArg (fun all => Except.ok (pdm.after all)) (List.append_nil pushes).symm
  | cons eigrpIface rest ih =>
    rw [List.foldlM_cons, msgToEachIface_eq, List.mapM_cons]
    have same : (pdm.after pushes).eachIfacePushes destination msgType source forcePoisonRev
        eigrpIface = pdm.eachIfacePushes destination msgType source forcePoisonRev eigrpIface := rfl
    rw [same]
    cases pdm.eachIfacePushes destination msgType source forcePoisonRev eigrpIface with
    | error message => rfl
    | ok more =>
      change List.foldlM _ ((pdm.after pushes).after more) rest = _
      rw [← after_append, ih]
      cases rest.mapM (pdm.eachIfacePushes destination msgType source forcePoisonRev) with
      | error message => rfl
      | ok lists =>
        exact congrArg (fun all => Except.ok (pdm.after all)) (List.append_assoc pushes more _)

theorem msgToAllIfaces_eq :   pdm.msgToAllIfaces destination msgType source forcePoisonRev =
      (pdm.allIfacesPushes destination msgType source forcePoisonRev).map pdm.after := by
  refine (foldlM_msgToEachIface pdm destination msgType source forcePoisonRev pdm.eigrpIft
    []).trans ?_
  rw [allIfacesPushes]
  cases pdm.eigrpIft.mapM (pdm.eachIfacePushes destination msgType source forcePoisonRev) with
  | error message => rfl
  | ok lists => rfl

theorem sendUpdate_eq (destNeighbor : Int) (source : EigrpRouteSource) (forcePoisonRev : Bool) :
    pdm.sendUpdate destNeighbor source forcePoisonRev =
      (pdm.updatePushes destNeighbor source forcePoisonRev).map pdm.after := by
  rw [sendUpdate, updatePushes]
  split
  · rfl
  · exact pdm.msgToAllIfaces_eq ..

theorem sendQuery_eq (destNeighbor : Int) (source : EigrpRouteSource) (forcePoisonRev : Bool) :
    pdm.sendQuery destNeighbor source forcePoisonRev =
      (pdm.queryPushes destNeighbor source forcePoisonRev).map pdm.after :=
  pdm.msgToAllIfaces_eq ..

theorem sendReply_eq (destNeighbor : Nat) (source : EigrpRouteSource)
    (forcePoisonRev isUnreachable : Bool) :
    pdm.sendReply destNeighbor source forcePoisonRev isUnreachable =
      (pdm.replyPushes destNeighbor source forcePoisonRev isUnreachable).map pdm.after := by
  rw [sendReply, replyPushes]
  cases pdm.findNeighborById destNeighbor with
  | none => rfl
  | some neigh =>
    dsimp only
    cases pdm.poisonReverseTo neigh forcePoisonRev isUnreachable with
    | error message => rfl
    | ok poisonRev => exact congrArg Except.ok (pdm.pushMsgRouteToQueue_eq ⟨_, _, _, _⟩)

theorem ifacePushes_msgType {pdm : EigrpIpv4Pdm} {msgType : HeaderOpcode}
    {source : EigrpRouteSource} {forcePoisonRev : Bool} {eigrpIface : EigrpInterface}
    (returned : pdm.ifacePushes msgType source forcePoisonRev eigrpIface = .ok pushes) :
    ∀ push ∈ pushes, push.msgType = msgType := by
  unfold ifacePushes at returned
  split at returned
  · cases returned
    exact nofun
  · obtain ⟨neighId, _, ⟨⟩⟩ := bind_eq_ok.mp returned
    intro push member
    cases List.mem_singleton.mp member
    rfl

theorem eachIfacePushes_msgType {pdm : EigrpIpv4Pdm} {destination : Int} {msgType : HeaderOpcode}
    {source : EigrpRouteSource} {forcePoisonRev : Bool} {eigrpIface : EigrpInterface}
    (returned : pdm.eachIfacePushes destination msgType source forcePoisonRev eigrpIface =
      .ok pushes) :
    ∀ push ∈ pushes, push.msgType = msgType := by
  unfold eachIfacePushes at returned
  split at returned
  · cases returned
    exact nofun
  · split at returned
    · split at returned
      · cases returned
        exact nofun
      · exact ifacePushes_msgType returned
    · cases returned
      exact nofun

theorem allIfacesPushes_msgType {pdm : EigrpIpv4Pdm} {destination : Int} {msgType : HeaderOpcode}
    {source : EigrpRouteSource} {forcePoisonRev : Bool}
    (returned : pdm.allIfacesPushes destination msgType source forcePoisonRev = .ok pushes) :
    ∀ push ∈ pushes, push.msgType = msgType := by
  obtain ⟨lists, each, ⟨⟩⟩ := bind_eq_ok.mp returned
  intro push member
  obtain ⟨list, among, inside⟩ := List.mem_flatten.mp member
  obtain ⟨eigrpIface, _, made⟩ := exists_related (mapM_eq_ok.mp each) among
  exact eachIfacePushes_msgType made push inside

end EigrpIpv4Pdm

open EigrpIpv4Pdm

/-! ### Batches -/

/-- A number stands for a neighbor on one interface. -/
def Placed (ifaceOf : Nat → Nat) (neighborVec : List EigrpNeighbor) : Prop :=
  ∀ neigh ∈ neighborVec, neigh.neighborId ≠ UNSPEC_ID ∧ neigh.ifaceId = ifaceOf neigh.neighborId

/-- What has been pushed since the queue was empty, and the module by now. Between the calls anything
but the queue may change. -/
inductive Batch (ifaceOf : Nat → Nat) : List Push → EigrpIpv4Pdm → Prop
  | start {pdm : EigrpIpv4Pdm} :
    Placed ifaceOf pdm.neighborVec → pdm.reqQueue = [] → Batch ifaceOf [] pdm
  | other {pushes : List Push} {pdm next : EigrpIpv4Pdm} :
    Batch ifaceOf pushes pdm → Placed ifaceOf next.neighborVec → next.reqQueue = pdm.reqQueue →
      Batch ifaceOf pushes next
  | sendUpdate {pushes more : List Push} {pdm next : EigrpIpv4Pdm} {destNeighbor : Int}
      {source : EigrpRouteSource} {forcePoisonRev : Bool} :
    Batch ifaceOf pushes pdm → pdm.updatePushes destNeighbor source forcePoisonRev = .ok more →
      pdm.sendUpdate destNeighbor source forcePoisonRev = .ok next →
      Batch ifaceOf (pushes ++ more) next
  | sendQuery {pushes more : List Push} {pdm next : EigrpIpv4Pdm} {destNeighbor : Int}
      {source : EigrpRouteSource} {forcePoisonRev : Bool} :
    Batch ifaceOf pushes pdm → pdm.queryPushes destNeighbor source forcePoisonRev = .ok more →
      pdm.sendQuery destNeighbor source forcePoisonRev = .ok next →
      Batch ifaceOf (pushes ++ more) next
  | sendReply {pushes more : List Push} {pdm next : EigrpIpv4Pdm} {destNeighbor : Nat}
      {source : EigrpRouteSource} {forcePoisonRev isUnreachable : Bool} :
    Batch ifaceOf pushes pdm →
      pdm.replyPushes destNeighbor source forcePoisonRev isUnreachable = .ok more →
      pdm.sendReply destNeighbor source forcePoisonRev isUnreachable = .ok next →
      Batch ifaceOf (pushes ++ more) next

/-- A reply is for one neighbor and goes out of its interface. -/
def Push.Addressed (ifaceOf : Nat → Nat) (push : Push) : Prop :=
  push.msgType = .EIGRP_REPLY_MSG → push.neighId ≠ UNSPEC_ID ∧ push.ifaceId = ifaceOf push.neighId

structure Gathers (ifaceOf : Nat → Nat) (pushes : List Push) (pdm : EigrpIpv4Pdm) : Prop where
  placed : Placed ifaceOf pdm.neighborVec
  queued : pdm.reqQueue = requests.gather pushes
  addressed : ∀ push ∈ pushes, push.Addressed ifaceOf

section
variable {ifaceOf : Nat → Nat} {pushes more : List Push} {pdm next : EigrpIpv4Pdm}

theorem Gathers.after (gathers : Gathers ifaceOf pushes pdm)
    (addressed : ∀ push ∈ more, push.Addressed ifaceOf) :
    Gathers ifaceOf (pushes ++ more) (pdm.after more) where
  placed := gathers.placed
  queued := by
    rw [EigrpIpv4Pdm.after, gathers.queued, Gathering.gather, Gathering.gather, List.foldl_append]
  addressed := by
    intro push member
    rcases List.mem_append.mp member with member | member
    · exact gathers.addressed push member
    · exact addressed push member

/-- A call that pushes updates or queries. -/
theorem Gathers.afterOther (gathers : Gathers ifaceOf pushes pdm) {msgType : HeaderOpcode}
    (other : msgType ≠ .EIGRP_REPLY_MSG) (same : ∀ push ∈ more, push.msgType = msgType) :
    Gathers ifaceOf (pushes ++ more) (pdm.after more) :=
  gathers.after fun push member reply => absurd ((same push member).symm.trans reply) other

theorem updatePushes_msgType {destNeighbor : Int} {source : EigrpRouteSource}
    {forcePoisonRev : Bool}
    (returned : pdm.updatePushes destNeighbor source forcePoisonRev = .ok more) :
    ∀ push ∈ more, push.msgType = .EIGRP_UPDATE_MSG := by
  unfold updatePushes at returned
  split at returned
  · cases returned
    exact nofun
  · exact allIfacesPushes_msgType returned

theorem replyPushes_addressed (placed : Placed ifaceOf pdm.neighborVec) {destNeighbor : Nat}
    {source : EigrpRouteSource} {forcePoisonRev isUnreachable : Bool}
    (returned : pdm.replyPushes destNeighbor source forcePoisonRev isUnreachable = .ok more) :
    ∀ push ∈ more, push.Addressed ifaceOf := by
  unfold replyPushes at returned
  split at returned
  · cases returned
    exact nofun
  · next neigh found =>
    obtain ⟨poisonRev, _, ⟨⟩⟩ := bind_eq_ok.mp returned
    intro push member _
    cases List.mem_singleton.mp member
    exact placed neigh (List.mem_of_find?_eq_some found)

theorem map_eq_ok {made : Except String (List Push)} (pushed : made = .ok more)
    (returned : made.map pdm.after = .ok next) : next = pdm.after more := by
  subst pushed
  cases returned
  rfl

/-- In every batch, the queue gathers what has been pushed. -/
theorem Batch.gathers (batch : Batch ifaceOf pushes pdm) : Gathers ifaceOf pushes pdm := by
  induction batch with
  | start placed empty => exact ⟨placed, empty, nofun⟩
  | other _ placed same ih => exact ⟨placed, same.trans ih.queued, ih.addressed⟩
  | sendUpdate _ pushed returned ih =>
    rw [sendUpdate_eq] at returned
    cases map_eq_ok pushed returned
    exact ih.afterOther HeaderOpcode.noConfusion (updatePushes_msgType pushed)
  | sendQuery _ pushed returned ih =>
    rw [sendQuery_eq] at returned
    cases map_eq_ok pushed returned
    exact ih.afterOther HeaderOpcode.noConfusion (allIfacesPushes_msgType pushed)
  | sendReply _ pushed returned ih =>
    rw [sendReply_eq] at returned
    cases map_eq_ok pushed returned
    exact ih.after (replyPushes_addressed ih.placed pushed)

end

/-! ### What neighbors receive -/

/-- The flush delivers the replies to the neighbors they are for and to no others, and the updates and
queries to all neighbors on their interfaces. -/
structure Delivers (pushes : List Push) (pdm : EigrpIpv4Pdm) : Prop where
  replies : ∀ neigh ∈ pdm.neighborVec, ∀ routeId unreachable,
    Delivered pdm.flushMsgRequests.1 .EIGRP_REPLY_MSG neigh routeId unreachable ↔
      ∃ push ∈ pushes, push.msgType = .EIGRP_REPLY_MSG ∧ push.neighId = neigh.neighborId ∧
        push.msgRt.routeId = routeId ∧ push.msgRt.unreachable = unreachable
  others : ∀ push ∈ pushes, push.msgType ≠ .EIGRP_REPLY_MSG → ∀ neigh ∈ pdm.neighborVec,
    neigh.ifaceId = push.ifaceId →
      Delivered pdm.flushMsgRequests.1 push.msgType neigh push.msgRt.routeId
        push.msgRt.unreachable

/-- The neighbor is to receive what was pushed. -/
def Push.IsFor (push : Push) (neigh : EigrpNeighbor) : Prop :=
  if push.msgType = .EIGRP_REPLY_MSG then push.neighId = neigh.neighborId
  else push.ifaceId = neigh.ifaceId

/-- Nothing else that was pushed comes between the push and the neighbor. -/
structure Kept (pushes : List Push) (pdm : EigrpIpv4Pdm) (push : Push) (neigh : EigrpNeighbor) :
    Prop where
  takesPart : (pdm.findInterfaceById push.ifaceId).isSome
  /-- The first push for the interface is for the neighbor or for all neighbors. -/
  first : ∃ first, (pushesOn pushes push.ifaceId push.msgType).head? = some first ∧
    (first.neighId = UNSPEC_ID ∨ first.neighId = neigh.neighborId)
  /-- A route is not pushed as reachable once and as unreachable another time. -/
  agrees : ∀ other ∈ pushesOn pushes push.ifaceId push.msgType,
    other.msgRt.routeId = push.msgRt.routeId → other.msgRt.unreachable = true →
      push.msgRt.unreachable = true
  /-- All replies on the interface are about routes that the neighbor has a reply about. -/
  covers : push.msgType = .EIGRP_REPLY_MSG →
    ∀ other ∈ pushesOn pushes push.ifaceId push.msgType,
      ∃ own ∈ pushes, own.msgType = .EIGRP_REPLY_MSG ∧ own.neighId = neigh.neighborId ∧
        own.msgRt.routeId = other.msgRt.routeId

section
variable {ifaceOf : Nat → Nat} {pushes : List Push} {pdm : EigrpIpv4Pdm} {push : Push}
  {neigh : EigrpNeighbor}

/-- A push is delivered if the first push is for the neighbor and none makes the route
unreachable. -/
theorem delivered_push (queued : pdm.reqQueue = requests.gather pushes) (member : push ∈ pushes)
    (iface : push.ifaceId = neigh.ifaceId) :
    Delivered pdm.flushMsgRequests.1 push.msgType neigh push.msgRt.routeId
        push.msgRt.unreachable ↔
      (pdm.findInterfaceById push.ifaceId).isSome ∧
        (∃ first, (pushesOn pushes push.ifaceId push.msgType).head? = some first ∧
          (first.neighId = UNSPEC_ID ∨ first.neighId = neigh.neighborId)) ∧
        ∀ other ∈ pushesOn pushes push.ifaceId push.msgType,
          other.msgRt.routeId = push.msgRt.routeId → other.msgRt.unreachable = true →
            push.msgRt.unreachable = true := by
  have here : push ∈ pushesOn pushes push.ifaceId push.msgType :=
    mem_pushesOn.mpr ⟨member, rfl, rfl⟩
  rw [delivered_flush queued, ← iface]
  refine and_congr_right fun _ => and_congr_right fun _ => ?_
  constructor
  · rintro ⟨_, flag⟩ other among same unreachable
    exact flag.mpr ⟨other, among, same, unreachable⟩
  · intro agrees
    refine ⟨⟨push, here, rfl⟩, fun unreachable => ⟨push, here, rfl, unreachable⟩, ?_⟩
    rintro ⟨other, among, same, unreachable⟩
    exact agrees other among same unreachable

theorem Gathers.iface (gathers : Gathers ifaceOf pushes pdm) (present : neigh ∈ pdm.neighborVec)
    (member : push ∈ pushes) (isFor : push.IsFor neigh) : push.ifaceId = neigh.ifaceId := by
  unfold Push.IsFor at isFor
  split at isFor
  · next reply =>
    rw [(gathers.addressed push member reply).2, isFor, (gathers.placed neigh present).2]
  · exact isFor

/-- The first reply on an interface, where the neighbor receives it. -/
theorem Gathers.first_reply (gathers : Gathers ifaceOf pushes pdm) {ifaceId : Nat} {first : Push}
    (head : (pushesOn pushes ifaceId .EIGRP_REPLY_MSG).head? = some first)
    (reaches : first.neighId = UNSPEC_ID ∨ first.neighId = neigh.neighborId) :
    first ∈ pushes ∧ first.ifaceId = ifaceId ∧ first.msgType = .EIGRP_REPLY_MSG ∧
      first.neighId = neigh.neighborId := by
  obtain ⟨member, iface, reply⟩ := mem_pushesOn.mp (List.mem_of_mem_head? head)
  exact ⟨member, iface, reply,
    reaches.resolve_left (gathers.addressed first member reply).1⟩

theorem Gathers.delivers (gathers : Gathers ifaceOf pushes pdm)
    (kept : ∀ push ∈ pushes, ∀ neigh ∈ pdm.neighborVec, push.IsFor neigh →
      Kept pushes pdm push neigh) :
    Delivers pushes pdm := by
  have delivered : ∀ push ∈ pushes, ∀ neigh ∈ pdm.neighborVec, push.IsFor neigh →
      Delivered pdm.flushMsgRequests.1 push.msgType neigh push.msgRt.routeId
        push.msgRt.unreachable := fun push member neigh present isFor =>
    have own := kept push member neigh present isFor
    (delivered_push gathers.queued member (gathers.iface present member isFor)).mpr
      ⟨own.takesPart, own.first, own.agrees⟩
  constructor
  case others =>
    intro push member other neigh present iface
    refine delivered push member neigh present ?_
    rw [Push.IsFor, if_neg other]
    exact iface.symm
  case replies =>
    intro neigh present routeId unreachable
    constructor
    · intro received
      obtain ⟨_, ⟨first, head, reaches⟩, ⟨other, among, rfl⟩, flag⟩ :=
        (delivered_flush gathers.queued).mp received
      obtain ⟨member, iface, reply, same⟩ := gathers.first_reply head reaches
      -- the neighbor has a reply, so it has one about each route on its interface
      have isFor : first.IsFor neigh := by
        rw [Push.IsFor, if_pos reply]
        exact same
      have covers := (kept first member neigh present isFor).covers reply
      rw [iface, reply] at covers
      obtain ⟨own, mine, replies, addressee, route⟩ := covers other among
      refine ⟨own, mine, replies, addressee, route, ?_⟩
      have ownFor : own.IsFor neigh := by
        rw [Push.IsFor, if_pos replies]
        exact addressee
      have ownIface := gathers.iface present mine ownFor
      have agrees := (kept own mine neigh present ownFor).agrees
      rw [ownIface, replies] at agrees
      rw [Bool.eq_iff_iff, flag]
      constructor
      · intro unreachable
        exact ⟨own, mem_pushesOn.mpr ⟨mine, ownIface, replies⟩, route, unreachable⟩
      · rintro ⟨third, among, about, unreachable⟩
        exact agrees third among (about.trans route.symm) unreachable
    · rintro ⟨push, member, reply, same, rfl, rfl⟩
      have isFor : push.IsFor neigh := by
        rw [Push.IsFor, if_pos reply]
        exact same
      have received := delivered push member neigh present isFor
      rw [reply] at received
      exact received

theorem Gathers.kept (gathers : Gathers ifaceOf pushes pdm) (delivers : Delivers pushes pdm)
    (member : push ∈ pushes) (present : neigh ∈ pdm.neighborVec) (isFor : push.IsFor neigh) :
    Kept pushes pdm push neigh := by
  have iface := gathers.iface present member isFor
  by_cases reply : push.msgType = .EIGRP_REPLY_MSG
  · rw [Push.IsFor, if_pos reply] at isFor
    have received := (delivers.replies neigh present _ _).mpr
      ⟨push, member, reply, isFor, rfl, rfl⟩
    rw [← reply] at received
    obtain ⟨takesPart, first, agrees⟩ := (delivered_push gathers.queued member iface).mp received
    refine ⟨takesPart, first, agrees, fun _ other among => ?_⟩
    -- what the neighbor receives about the route of the other reply is a reply to it
    have received : Delivered pdm.flushMsgRequests.1 .EIGRP_REPLY_MSG neigh other.msgRt.routeId
        (decide (∃ third ∈ pushesOn pushes neigh.ifaceId .EIGRP_REPLY_MSG,
          third.msgRt.routeId = other.msgRt.routeId ∧ third.msgRt.unreachable = true)) := by
      rw [iface, reply] at first among
      rw [iface] at takesPart
      exact (delivered_flush gathers.queued).mpr
        ⟨takesPart, first, ⟨other, among, rfl⟩, decide_eq_true_iff⟩
    obtain ⟨own, mine, replies, addressee, route, _⟩ :=
      (delivers.replies neigh present _ _).mp received
    exact ⟨own, mine, replies, addressee, route⟩
  · rw [Push.IsFor, if_neg reply] at isFor
    have received := delivers.others push member reply neigh present isFor.symm
    obtain ⟨takesPart, first, agrees⟩ := (delivered_push gathers.queued member iface).mp received
    exact ⟨takesPart, first, agrees, fun replies => absurd replies reply⟩

end

/-- A flush delivers what a batch has pushed exactly if every neighbor that is left keeps its own. -/
theorem delivers_iff_kept {ifaceOf : Nat → Nat} {pushes : List Push} {pdm : EigrpIpv4Pdm}
    (batch : Batch ifaceOf pushes pdm) :
    Delivers pushes pdm ↔ ∀ push ∈ pushes, ∀ neigh ∈ pdm.neighborVec, push.IsFor neigh →
      Kept pushes pdm push neigh :=
  ⟨fun delivers _ member _ present isFor => batch.gathers.kept delivers member present isFor,
    batch.gathers.delivers⟩

open EigrpDual (sourceOver)

/-- A router with two neighbors on one interface. -/
def sharedLink : EigrpIpv4Pdm :=
  { eigrpIft := [{ interfaceId := 1, neighborCount := 2 }]
    neighborVec := [{ neighborId := 1, ifaceId := 1 }, { neighborId := 2, ifaceId := 1 }]
    routeVec := [sourceOver 1 true]
    route := { routeId := 1, routeAddress := 0x0a000000#32, routeMask := 0xff000000#32
               numSuccessors := 1 }
    rt := { useAdminDist := true } }

theorem sharedLink_placed : Placed (fun _ => 1) sharedLink.neighborVec := by
  intro neigh member
  rcases List.mem_cons.mp member with rfl | member
  · exact ⟨by decide, rfl⟩
  · cases List.mem_singleton.mp member
    exact ⟨by decide, rfl⟩

/-- A reply to the neighbor about the first route. -/
def replyTo (neighId : Nat) : Push :=
  { msgType := .EIGRP_REPLY_MSG, ifaceId := 1, neighId
    msgRt := { sourceId := 1, routeId := 1, originator := 0 } }

theorem sharedLink_replied {pdm next : EigrpIpv4Pdm}
    (batch : Batch (fun _ => 1) pushes pdm) (destNeighbor : Nat)
    (pushed : pdm.replyPushes destNeighbor (sourceOver 1 true) false false =
      .ok [replyTo destNeighbor])
    (returned : pdm.sendReply destNeighbor (sourceOver 1 true) false false = .ok next) :
    Batch (fun _ => 1) (pushes ++ [replyTo destNeighbor]) next := .sendReply batch pushed returned

theorem delivers_iff_kept_alone :
    ∃ pdm, Batch (fun _ => 1) [replyTo 2] pdm ∧ Delivers [replyTo 2] pdm := by
  have batch : Batch (fun _ => 1) [replyTo 2] (sharedLink.after [replyTo 2]) :=
    sharedLink_replied (.start sharedLink_placed rfl) 2 rfl rfl
  refine ⟨_, batch, (delivers_iff_kept batch).mpr fun push member neigh _ isFor => ?_⟩
  cases List.mem_singleton.mp member
  refine ⟨rfl, ⟨_, rfl, .inr isFor⟩, fun other among _ unreachable => ?_, fun _ other among => ?_⟩
  · cases List.mem_singleton.mp among
    exact unreachable
  · cases List.mem_singleton.mp among
    exact ⟨_, List.mem_cons_self, rfl, isFor, rfl⟩

/-- After a reply to the first neighbor, one to the second neighbor goes to the first one, too. -/
theorem sharedLink_misdirects : ¬∀ (ifaceOf : Nat → Nat) (pushes : List Push) (pdm : EigrpIpv4Pdm),
    Batch ifaceOf pushes pdm → Delivers pushes pdm := by
  intro claim
  have batch : Batch (fun _ => 1) [replyTo 1, replyTo 2]
      (sharedLink.after [replyTo 1, replyTo 2]) :=
    sharedLink_replied (sharedLink_replied (.start sharedLink_placed rfl) 1 rfl rfl) 2 rfl rfl
  have second : { neighborId := 2, ifaceId := 1 } ∈
      (sharedLink.after [replyTo 1, replyTo 2]).neighborVec := by decide
  obtain ⟨request, sent, _, ⟨_, reaches⟩, _⟩ :=
    ((claim _ _ _ batch).replies _ second 1 false).mpr
      ⟨replyTo 2, by decide, rfl, rfl, rfl, rfl⟩
  have only : request ∈ [requestFor (replyTo 1) [replyTo 1, replyTo 2]] := sent
  cases List.mem_singleton.mp only
  revert reaches
  decide

end Inet.Eigrp
