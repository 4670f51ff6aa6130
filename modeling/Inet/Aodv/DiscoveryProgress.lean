import Inet.Aodv.RouteDiscovery

/-!
# Route discovery makes progress

As long as no request is refused because of the rate limit, every discovery has a timer that is
scheduled, every delayed datagram waits for a discovery, and a discovery ends after the rings and the
retries. A request that is refused leaves a datagram without a timer, or a timer that never runs out.
-/
namespace Inet.Aodv

open Lib

variable {Address Packet : Type} [DecidableEq Address]
variable {target : Address} {counted : Counted Address Packet} {timer : WaitForRrep}

/-! ### What a step does -/

/-- The TTL of the next request. -/
def Parameters.nextTTL (params : Parameters) (ttl : Nat) : Nat :=
  if (ttl + params.ttlIncrement) % 2 ^ 32 < params.ttlThreshold then
    (ttl + params.ttlIncrement) % 2 ^ 32
  else params.netDiameter

/-- The event asks for a request, but too many were sent. -/
def Refused (node : Node Address Packet) : Event Address Packet → Prop
  | .datagram exempt destAddr _ route =>
    exempt = false ∧ ¬ HasRoute route ∧ node.hasOngoingRouteDiscovery destAddr = false ∧
      node.params.rreqRatelimit ≤ node.rreqCount
  | .waitForRREP target =>
    node.addressToRreqRetries target ≠ some node.params.rreqRetries ∧
      node.params.rreqRatelimit ≤ node.rreqCount
  | _ => False

variable {node next : Node Address Packet} {outputs : List (Output Address Packet)}

/-- What an event does if no request is refused. -/
inductive Effect (node : Node Address Packet) :
    Node Address Packet → List (Output Address Packet) → Prop
  | kept (count : Nat) {outputs} (silent : ∀ target, rreqs outputs target = 0) :
    Effect node { node with rreqCount := count } outputs
  | delayed (destAddr : Address) (datagram : Packet)
      (ongoing : node.hasOngoingRouteDiscovery destAddr = true) :
    Effect node (node.delayDatagram destAddr datagram) [.queue]
  | started (destAddr : Address) (datagram : Packet)
      (idle : node.hasOngoingRouteDiscovery destAddr = false) :
    Effect node { ((node.delayDatagram destAddr datagram).setRetries destAddr 0).setTimer destAddr
        (some ⟨node.params.ttlStart, false, true⟩) with rreqCount := node.rreqCount + 1 }
      [.rreq destAddr node.params.ttlStart, .queue]
  | released (target : Address) {outputs} (silent : ∀ target, rreqs outputs target = 0) :
    Effect node ((node.eraseDelayedPackets target).setTimer target none) outputs
  | retried (target : Address) (timer : WaitForRrep) (retries : Nat)
      (found : node.waitForRREPTimers target = some timer)
      (known : node.addressToRreqRetries target = some retries)
      (more : retries ≠ node.params.rreqRetries) :
    Effect node { (node.setRetries target
          (if timer.lastTTL = node.params.netDiameter then retries + 1 else retries)).setTimer
        target (some { timer with
          lastTTL := node.params.nextTTL timer.lastTTL, isScheduled := true }) with
        rreqCount := node.rreqCount + 1 }
      [.rreq target (node.params.nextTTL timer.lastTTL)]

/-- What is left behind if a request is refused. -/
inductive Stuck (node : Node Address Packet) : Prop
  | delayed {destAddr : Address} {datagram : Packet}
      (member : (destAddr, datagram) ∈ node.targetAddressToDelayedPackets)
      (idle : node.hasOngoingRouteDiscovery destAddr = false)
  | unscheduled {target : Address} {timer : WaitForRrep}
      (found : node.waitForRREPTimers target = some timer)
      (unscheduled : timer.isScheduled = false)

section Params

variable {target : Address}

@[simp] theorem setTimer_params {timer : Option WaitForRrep} :
    (node.setTimer target timer).params = node.params := rfl

@[simp] theorem setRetries_params {retries : Nat} :
    (node.setRetries target retries).params = node.params := rfl

omit [DecidableEq Address] in
@[simp] theorem delayDatagram_params {datagram : Packet} :
    (node.delayDatagram target datagram).params = node.params := rfl

end Params

theorem setRetries_self {retries : Nat}
    (known : node.addressToRreqRetries target = some retries) : node.setRetries target retries = node := by
  rw [Node.setRetries, ← known, Function.update_eq_self]

theorem silent_map (packets : List Packet)
    {output : Packet → Output Address Packet} (silent : ∀ packet, rreqs [output packet] target = 0) :
    rreqs (packets.map output) target = 0 := by
  rw [rreqs, List.countP_eq_zero]
  intro a member
  obtain ⟨packet, _, rfl⟩ := List.mem_map.mp member
  have none := silent packet
  rw [rreqs, List.countP_eq_zero] at none
  exact none _ (List.mem_singleton_self _)

/-- Without a timer a request starts with the first ring. -/
theorem sendRREQ_new {timeToLive : Nat}
    (idle : node.waitForRREPTimers target = none) (room : node.rreqCount < node.params.rreqRatelimit) :
    node.sendRREQ target timeToLive =
      .ok ({ node.setTimer target (some ⟨node.params.ttlStart, false, true⟩) with
        rreqCount := node.rreqCount + 1 }, [.rreq target node.params.ttlStart]) := by
  rw [Node.sendRREQ, if_neg (Nat.not_le.mpr room), idle]
  rfl

/-- With a timer that has run out the next ring follows. -/
theorem sendRREQ_next
    (found : node.waitForRREPTimers target = some timer) (ended : timer.isScheduled = false)
    (room : node.rreqCount < node.params.rreqRatelimit) :
    node.sendRREQ target 0 =
      .ok ({ node.setTimer target (some { timer with
          lastTTL := node.params.nextTTL timer.lastTTL, isScheduled := true }) with
        rreqCount := node.rreqCount + 1 },
        [.rreq target (node.params.nextTTL timer.lastTTL)]) := by
  have asserted : assert (!timer.isScheduled) = .ok () := by rw [ended]; rfl
  rw [Node.sendRREQ, if_neg (Nat.not_le.mpr room), found, Parameters.nextTTL]
  simp only [Node.nextTimer, ne_eq, not_true_eq_false, if_false]
  split
  · rw [asserted]
    rfl
  · rw [asserted]
    rfl

theorem sendRREQ_refused {timeToLive : Nat} (full : node.params.rreqRatelimit ≤ node.rreqCount) :
    node.sendRREQ target timeToLive = .ok (node, []) := by
  rw [Node.sendRREQ, if_pos full]
  rfl

omit [DecidableEq Address] in
theorem not_ongoing :
    node.hasOngoingRouteDiscovery target = false ↔ node.waitForRREPTimers target = none := by
  rw [Node.hasOngoingRouteDiscovery, Option.isSome_eq_false_iff, Option.isNone_iff_eq_none]

theorem datagram_effect {exempt : Bool} {destAddr : Address} {datagram : Packet}
    {route : Option Route}
    (handled : node.handle (.datagram exempt destAddr datagram route) = .ok (next, outputs)) :
    (Refused node (.datagram exempt destAddr datagram route) → Stuck next) ∧
      (¬ Refused node (.datagram exempt destAddr datagram route) → Effect node next outputs) := by
  rw [Node.handle, Node.ensureRouteForDatagram] at handled
  cases exempt with
  | true =>
    cases handled
    exact ⟨fun refused => absurd refused.1 nofun, fun _ => .kept node.rreqCount fun _ => rfl⟩
  | false =>
    simp only [Bool.false_eq_true, if_false] at handled
    by_cases active : HasRoute route
    · rw [if_pos active] at handled
      cases handled
      exact ⟨fun refused => absurd active refused.2.1,
        fun _ => .kept node.rreqCount fun _ => rfl⟩
    rw [if_neg active] at handled
    cases ongoing : node.hasOngoingRouteDiscovery destAddr with
    | true =>
      have later : (node.delayDatagram destAddr datagram).hasOngoingRouteDiscovery destAddr =
          true := ongoing
      simp only [later, Bool.not_true, Bool.false_eq_true, if_false] at handled
      cases handled
      exact ⟨fun refused => absurd (ongoing.symm.trans refused.2.2.1) nofun,
        fun _ => .delayed destAddr datagram ongoing⟩
    | false =>
      have later : (node.delayDatagram destAddr datagram).hasOngoingRouteDiscovery destAddr =
          false := ongoing
      simp only [later, Bool.not_false, if_true, Node.startRouteDiscovery, assert, ok_bind]
        at handled
      have idle : ((node.delayDatagram destAddr datagram).setRetries destAddr 0).waitForRREPTimers
          destAddr = none := not_ongoing.mp ongoing
      by_cases full : node.params.rreqRatelimit ≤ node.rreqCount
      · have fullLater : ((node.delayDatagram destAddr datagram).setRetries destAddr
            0).params.rreqRatelimit ≤ ((node.delayDatagram destAddr datagram).setRetries destAddr
              0).rreqCount := full
        rw [sendRREQ_refused fullLater] at handled
        cases handled
        refine ⟨fun _ => @Stuck.delayed _ _ _ destAddr datagram ?_ ongoing,
          fun accepted => absurd ⟨rfl, active, ongoing, full⟩ accepted⟩
        exact List.mem_append_right _ (List.mem_singleton_self _)
      · rw [sendRREQ_new idle (Nat.not_le.mp full)] at handled
        cases handled
        exact ⟨fun refused => absurd refused.2.2.2 full,
          fun _ => .started destAddr datagram ongoing⟩

/-- A timer that has run out ends the discovery, or another request is sent or refused. -/
theorem handleWaitForRREP_cases
    (found : node.waitForRREPTimers target = some timer) (ended : timer.isScheduled = false)
    (handled : node.handleWaitForRREP target timer = .ok (next, outputs)) :
    ∃ retries, node.addressToRreqRetries target = some retries ∧
      ((retries = node.params.rreqRetries ∧
          next = (node.eraseDelayedPackets target).setTimer target none ∧
          ∀ target, rreqs outputs target = 0) ∨
        (retries ≠ node.params.rreqRetries ∧ node.params.rreqRatelimit ≤ node.rreqCount ∧
          next.waitForRREPTimers target = some timer) ∨
        (retries ≠ node.params.rreqRetries ∧ node.rreqCount < node.params.rreqRatelimit ∧
          next = { (node.setRetries target
              (if timer.lastTTL = node.params.netDiameter then retries + 1 else retries)).setTimer
            target (some { timer with
              lastTTL := node.params.nextTTL timer.lastTTL, isScheduled := true }) with
            rreqCount := node.rreqCount + 1 } ∧
          outputs = [.rreq target (node.params.nextTTL timer.lastTTL)])) := by
  rw [Node.handleWaitForRREP] at handled
  cases known : node.addressToRreqRetries target with
  | none =>
    rw [known] at handled
    cases handled
  | some retries =>
    refine ⟨retries, rfl, ?_⟩
    simp only [known] at handled
    by_cases last : retries = node.params.rreqRetries
    · rw [if_pos last] at handled
      obtain ⟨_, _, returned⟩ := bind_eq_ok.mp handled
      cases returned
      exact .inl ⟨last, rfl, fun _ => silent_map _ fun _ => rfl⟩
    rw [if_neg last] at handled
    refine .inr ?_
    obtain ⟨counted, same, handled⟩ : ∃ counted : Node Address Packet,
        counted = node.setRetries target
          (if timer.lastTTL = node.params.netDiameter then retries + 1 else retries) ∧
        counted.sendRREQ target 0 = .ok (next, outputs) := by
      refine ⟨_, rfl, ?_⟩
      split at handled
      next whole => rwa [if_pos whole]
      next ring => rwa [if_neg ring, setRetries_self known]
    have foundLater : counted.waitForRREPTimers target = some timer := by rw [same]; exact found
    have limits : counted.params = node.params ∧ counted.rreqCount = node.rreqCount := by
      rw [same]
      exact ⟨rfl, rfl⟩
    by_cases full : node.params.rreqRatelimit ≤ node.rreqCount
    · rw [sendRREQ_refused (by rwa [limits.1, limits.2])] at handled
      cases handled
      exact .inl ⟨last, full, foundLater⟩
    · rw [sendRREQ_next foundLater ended (by rw [limits.1, limits.2]; exact Nat.not_le.mp full)]
        at handled
      cases handled
      refine .inr ⟨last, Nat.not_le.mp full, ?_, by rw [limits.1]⟩
      rw [limits.1, limits.2, same]

theorem timer_effect (handled : node.handle (.waitForRREP target) = .ok (next, outputs)) :
    (Refused node (.waitForRREP target) → Stuck next) ∧
      (¬ Refused node (.waitForRREP target) → Effect node next outputs) := by
  rw [Node.handle] at handled
  cases found : node.waitForRREPTimers target with
  | none =>
    rw [found] at handled
    cases handled
  | some timer =>
    cases scheduled : timer.isScheduled with
    | false =>
      simp only [found, scheduled, Bool.false_eq_true, if_false] at handled
      cases handled
    | true =>
      simp only [found, scheduled, if_true] at handled
      have ended : (node.setTimer target (some { timer with isScheduled := false })).waitForRREPTimers
          target = some { timer with isScheduled := false } := Function.update_self ..
      obtain ⟨retries, known, cases_⟩ := handleWaitForRREP_cases ended rfl handled
      have known : node.addressToRreqRetries target = some retries := known
      rcases cases_ with ⟨last, rfl, silent⟩ | ⟨more, full, kept⟩ | ⟨more, room, rfl, rfl⟩
      · have last : retries = node.params.rreqRetries := last
        refine ⟨fun refused => absurd (known.trans (congrArg some last)) refused.1, fun _ => ?_⟩
        have released : ((node.setTimer target (some { timer with
            isScheduled := false })).eraseDelayedPackets target).setTimer target none =
            (node.eraseDelayedPackets target).setTimer target none := by
          simp only [Node.setTimer, Node.eraseDelayedPackets, Function.update_idem]
        rw [released]
        exact .released target silent
      · refine ⟨fun _ => .unscheduled kept rfl, fun accepted => absurd ⟨?_, full⟩ accepted⟩
        rw [known]
        exact fun same => more (Option.some.inj same)
      · refine ⟨fun refused => absurd refused.2 (Nat.not_le.mpr room), fun _ => ?_⟩
        have effect := Effect.retried target timer retries found known more
        simp only [Node.setTimer, Node.setRetries, Function.update_idem] at effect ⊢
        exact effect

theorem handle_effect {event : Event Address Packet}
    (handled : node.handle event = .ok (next, outputs)) :
    (Refused node event → Stuck next) ∧ (¬ Refused node event → Effect node next outputs) := by
  cases event with
  | datagram exempt destAddr datagram route => exact datagram_effect handled
  | waitForRREP target => exact timer_effect handled
  | counterTimer =>
    cases handled
    exact ⟨False.elim, fun _ => .kept 0 fun _ => rfl⟩
  | rrep originatorIsSelf destAddr =>
    refine ⟨False.elim, fun _ => ?_⟩
    rw [Node.handle, Node.handleRREP] at handled
    split at handled
    next =>
      obtain ⟨_, _, returned⟩ := bind_eq_ok.mp handled
      cases returned
      exact .released destAddr fun _ => silent_map _ fun _ => rfl
    next =>
      cases handled
      exact .kept node.rreqCount fun _ => rfl

/-! ### The requests of one discovery -/

namespace Parameters

variable (params : Parameters)

/-- The TTL grows until the whole network is searched, and does not overflow. -/
structure Expands : Prop where
  increases : 0 < params.ttlIncrement
  whole : params.ttlThreshold ≤ params.netDiameter + params.ttlIncrement
  startFits : params.ttlStart + params.ttlIncrement < 2 ^ 32
  thresholdFits : params.ttlThreshold + params.ttlIncrement ≤ 2 ^ 32
  diameterFits : params.netDiameter + params.ttlIncrement < 2 ^ 32

/-- The rings with a TTL below the threshold, of which the first one may have any TTL, and the whole
network. -/
def expandingRingSteps : Nat :=
  (params.ttlThreshold - 1 - params.ttlStart) / params.ttlIncrement + 2

/-- Where a discovery is after a number of requests, with the TTL of the last one. -/
def Ring (ttl retries sent : Nat) : Prop :=
  retries ≤ params.rreqRetries ∧
    ((∃ k, ttl = params.ttlStart + k * params.ttlIncrement ∧ (k = 0 ∨ ttl < params.ttlThreshold) ∧
        sent = k + 1 ∧ retries = 0) ∨
      (ttl = params.netDiameter ∧ sent ≤ params.expandingRingSteps + retries))

variable {params} {ttl retries sent : Nat}

theorem ring_start : params.Ring params.ttlStart 0 1 :=
  ⟨Nat.zero_le _, .inl ⟨0, by simp, .inl rfl, rfl, rfl⟩⟩

/-- The rings before the whole network are fewer. -/
theorem ring_lt (expands : params.Expands) {k : Nat}
    (below : k = 0 ∨ params.ttlStart + k * params.ttlIncrement < params.ttlThreshold) :
    k + 2 ≤ params.expandingRingSteps := by
  rw [expandingRingSteps]
  rcases below with rfl | below
  · exact Nat.le_add_left _ _
  · have le : k ≤ (params.ttlThreshold - 1 - params.ttlStart) / params.ttlIncrement :=
      (Nat.le_div_iff_mul_le expands.increases).mpr (by omega)
    omega

theorem Ring.bounded (expands : params.Expands) (ring : params.Ring ttl retries sent) :
    sent ≤ params.expandingRingSteps + params.rreqRetries := by
  obtain ⟨le, ⟨k, rfl, below, rfl, _⟩ | ⟨_, few⟩⟩ := ring
  · have := ring_lt expands below
    omega
  · omega

/-- After the last request there are no retries left. -/
theorem Ring.last (expands : params.Expands) (ring : params.Ring ttl retries sent)
    (all : sent = params.expandingRingSteps + params.rreqRetries) :
    retries = params.rreqRetries := by
  obtain ⟨le, ⟨k, rfl, below, rfl, _⟩ | ⟨_, few⟩⟩ := ring
  · have := ring_lt expands below
    omega
  · omega

/-- Another request goes on to the next ring or to the next retry. -/
theorem Ring.again (expands : params.Expands) (ring : params.Ring ttl retries sent)
    (more : retries ≠ params.rreqRetries) :
    params.Ring (params.nextTTL ttl) (if ttl = params.netDiameter then retries + 1 else retries)
      (sent + 1) := by
  have whole := expands.whole
  have fits := expands.diameterFits
  obtain ⟨le, ⟨k, rfl, below, rfl, rfl⟩ | ⟨rfl, few⟩⟩ := ring
  · have steps := ring_lt expands below
    have small : params.ttlStart + k * params.ttlIncrement + params.ttlIncrement < 2 ^ 32 := by
      have := expands.startFits
      have := expands.thresholdFits
      rcases below with rfl | below
      · omega
      · omega
    rw [nextTTL, Nat.mod_eq_of_lt small]
    by_cases inside : params.ttlStart + k * params.ttlIncrement + params.ttlIncrement <
        params.ttlThreshold
    · have notWhole : params.ttlStart + k * params.ttlIncrement ≠ params.netDiameter := by omega
      rw [if_pos inside, if_neg notWhole]
      refine ⟨le, .inl ⟨k + 1, ?_, .inr inside, rfl, rfl⟩⟩
      rw [Nat.add_mul, Nat.one_mul, Nat.add_assoc]
    · rw [if_neg inside]
      refine ⟨?_, .inr ⟨rfl, by omega⟩⟩
      split <;> omega
  · rw [nextTTL, Nat.mod_eq_of_lt fits, if_neg (Nat.not_lt.mpr whole), if_pos rfl]
    exact ⟨by omega, .inr ⟨rfl, by omega⟩⟩

end Parameters

/-! ### Runs -/

/-- Every timer is scheduled, every delayed datagram waits for a timer, and a timer knows where its
discovery is. -/
structure Searches (node : Node Address Packet) (sent : Address → Nat) : Prop where
  scheduled : ∀ target timer, node.waitForRREPTimers target = some timer →
    timer.isScheduled = true
  waiting : ∀ entry ∈ node.targetAddressToDelayedPackets,
    node.hasOngoingRouteDiscovery entry.1 = true
  ring : ∀ target timer, node.waitForRREPTimers target = some timer →
    ∃ retries, node.addressToRreqRetries target = some retries ∧
      node.params.Ring timer.lastTTL retries (sent target)
  idle : ∀ target, node.waitForRREPTimers target = none → sent target = 0

variable {counted after : Counted Address Packet} {event : Event Address Packet}

omit [DecidableEq Address] in
theorem ongoing_iff : node.hasOngoingRouteDiscovery target = true ↔
    ∃ timer, node.waitForRREPTimers target = some timer := by
  rw [Node.hasOngoingRouteDiscovery, Option.isSome_iff_exists]

/-- What the numbers of requests become. -/
theorem handle_counted (handled : counted.handle event = .ok after) :
    ∃ outputs, counted.aodv.handle event = .ok (after.aodv, outputs) ∧ ∀ target,
      after.sent target = if after.aodv.hasOngoingRouteDiscovery target then
        counted.sent target + rreqs outputs target else 0 := by
  obtain ⟨⟨aodv, outputs⟩, stepped, returned⟩ := bind_eq_ok.mp handled
  cases returned
  exact ⟨outputs, stepped, fun _ => rfl⟩

theorem Effect.params (effect : Effect node next outputs) : next.params = node.params := by
  cases effect <;> rfl

/-- A step without a refused request keeps the invariant. -/
theorem Searches.step {count nextCount : Address → Nat} (expands : node.params.Expands)
    (searches : Searches node count) (effect : Effect node next outputs)
    (sent : ∀ target, nextCount target = if next.hasOngoingRouteDiscovery target then
      count target + rreqs outputs target else 0) : Searches next nextCount := by
  have idle (target : Address) (none : next.waitForRREPTimers target = none) :
      nextCount target = 0 := by
    have idle : next.hasOngoingRouteDiscovery target = false := not_ongoing.mpr none
    exact (sent target).trans (if_neg (by simp [idle]))
  -- a timer that stays has the requests that are sent counted
  have counts {target : Address} {timer : WaitForRrep}
      (found : next.waitForRREPTimers target = some timer) :
      nextCount target = count target + rreqs outputs target :=
    (sent target).trans (if_pos (ongoing_iff.mpr ⟨timer, found⟩))
  cases effect with
  | kept number silent =>
    refine ⟨searches.scheduled, searches.waiting, fun target timer found => ?_, idle⟩
    obtain ⟨retries, known, ring⟩ := searches.ring target timer found
    refine ⟨retries, known, ?_⟩
    rw [counts found, silent]
    exact ring
  | delayed destAddr datagram ongoing =>
    refine ⟨searches.scheduled, fun entry member => ?_, fun target timer found => ?_, idle⟩
    · rcases List.mem_append.mp member with old | new
      · exact searches.waiting entry old
      · rw [List.mem_singleton.mp new]
        exact ongoing
    · obtain ⟨retries, known, ring⟩ := searches.ring target timer found
      refine ⟨retries, known, ?_⟩
      rw [counts found]
      exact ring
  | started destAddr datagram idle' =>
    refine ⟨fun target timer found => ?_, fun entry member => ?_, fun target timer found => ?_,
      idle⟩
    · by_cases same : target = destAddr
      · subst same
        cases (Function.update_self ..).symm.trans found
        rfl
      · exact searches.scheduled target timer ((Function.update_of_ne same ..).symm.trans found)
    · rw [ongoing_iff]
      by_cases same : entry.1 = destAddr
      · exact ⟨_, by rw [same]; exact Function.update_self ..⟩
      · rcases List.mem_append.mp member with old | new
        · obtain ⟨timer, found⟩ := ongoing_iff.mp (searches.waiting entry old)
          exact ⟨timer, (Function.update_of_ne same ..).trans found⟩
        · rw [List.mem_singleton.mp new] at same
          exact absurd rfl same
    · have counted := counts found
      by_cases same : target = destAddr
      · subst same
        cases (Function.update_self ..).symm.trans found
        have zero : count target = 0 := searches.idle target (not_ongoing.mp idle')
        refine ⟨0, Function.update_self .., ?_⟩
        rw [counted, zero]
        simpa [rreqs] using Parameters.ring_start
      · obtain ⟨retries, known, ring⟩ :=
          searches.ring target timer ((Function.update_of_ne same ..).symm.trans found)
        refine ⟨retries, (Function.update_of_ne same ..).trans known, ?_⟩
        rw [counted]
        simpa [rreqs, Ne.symm same] using ring
  | released released silent =>
    refine ⟨fun target timer found => ?_, fun entry member => ?_, fun target timer found => ?_,
      idle⟩
    · by_cases same : target = released
      · subst same
        cases (Function.update_self ..).symm.trans found
      · exact searches.scheduled target timer ((Function.update_of_ne same ..).symm.trans found)
    · obtain ⟨old, differ⟩ := List.mem_filter.mp member
      have differ : entry.1 ≠ released := of_decide_eq_true differ
      obtain ⟨timer, found⟩ := ongoing_iff.mp (searches.waiting entry old)
      exact ongoing_iff.mpr ⟨timer, (Function.update_of_ne differ ..).trans found⟩
    · have counted := counts found
      by_cases same : target = released
      · subst same
        cases (Function.update_self ..).symm.trans found
      · obtain ⟨retries, known, ring⟩ :=
          searches.ring target timer ((Function.update_of_ne same ..).symm.trans found)
        refine ⟨retries, known, ?_⟩
        rw [counted, silent]
        exact ring
  | retried retried timer retries found known more =>
    refine ⟨fun target timer' found' => ?_, fun entry member => ?_, fun target timer' found' => ?_,
      idle⟩
    · by_cases same : target = retried
      · subst same
        cases (Function.update_self ..).symm.trans found'
        rfl
      · exact searches.scheduled target timer' ((Function.update_of_ne same ..).symm.trans found')
    · rw [ongoing_iff]
      by_cases same : entry.1 = retried
      · exact ⟨_, by rw [same]; exact Function.update_self ..⟩
      · obtain ⟨timer, found⟩ := ongoing_iff.mp (searches.waiting entry member)
        exact ⟨timer, (Function.update_of_ne same ..).trans found⟩
    · have counted := counts found'
      by_cases same : target = retried
      · subst same
        cases (Function.update_self ..).symm.trans found'
        obtain ⟨retries', known', ring⟩ := searches.ring target timer found
        cases known.symm.trans known'
        refine ⟨_, Function.update_self .., ?_⟩
        rw [counted]
        simpa [rreqs] using ring.again expands more
      · obtain ⟨retries, known, ring⟩ :=
          searches.ring target timer' ((Function.update_of_ne same ..).symm.trans found')
        refine ⟨retries, (Function.update_of_ne same ..).trans known, ?_⟩
        rw [counted]
        simpa [rreqs, Ne.symm same] using ring

/-- What is promised between events: timers are scheduled, delayed datagrams wait for one, and a
discovery sends a bounded number of requests, after the last of which the timer releases all its
datagrams. -/
structure Progresses (counted : Counted Address Packet) : Prop where
  scheduled : ∀ target timer, counted.aodv.waitForRREPTimers target = some timer →
    timer.isScheduled = true
  waiting : ∀ entry ∈ counted.aodv.targetAddressToDelayedPackets,
    counted.aodv.hasOngoingRouteDiscovery entry.1 = true
  bounded : ∀ target, counted.sent target ≤
    counted.aodv.params.expandingRingSteps + counted.aodv.params.rreqRetries
  releases : ∀ target, counted.aodv.hasOngoingRouteDiscovery target = true →
    counted.sent target =
      counted.aodv.params.expandingRingSteps + counted.aodv.params.rreqRetries →
    ∃ next, counted.aodv.handle (.waitForRREP target) = .ok (next,
        (counted.aodv.delayedPackets target).map .dropQueuedDatagram) ∧
      next.delayedPackets target = [] ∧ next.hasOngoingRouteDiscovery target = false

/-- The last timer cancels the discovery. -/
theorem handle_last
    (found : node.waitForRREPTimers target = some timer) (scheduled : timer.isScheduled = true)
    (known : node.addressToRreqRetries target = some node.params.rreqRetries) :
    node.handle (.waitForRREP target) = .ok ((node.eraseDelayedPackets target).setTimer target none,
      (node.delayedPackets target).map .dropQueuedDatagram) := by
  have knownLater : (node.setTimer target
    (some { timer with isScheduled := false })).addressToRreqRetries target =
      some node.params.rreqRetries := known
  have ongoing : (node.setTimer target
      (some { timer with isScheduled := false })).hasOngoingRouteDiscovery target = true :=
    ongoing_iff.mpr ⟨_, Function.update_self ..⟩
  simp only [Node.handle, found, scheduled, if_true, Node.handleWaitForRREP, knownLater,
    setTimer_params, Node.cancelRouteDiscovery, ongoing, assert, ok_bind]
  simp only [Node.setTimer, Node.eraseDelayedPackets, Function.update_idem]
  rfl

theorem Searches.progresses
    (expands : counted.aodv.params.Expands) (searches : Searches counted.aodv counted.sent) :
    Progresses counted := by
  refine ⟨searches.scheduled, searches.waiting, fun target => ?_, fun target ongoing all => ?_⟩
  · cases found : counted.aodv.waitForRREPTimers target with
    | none =>
      rw [searches.idle target found]
      exact Nat.zero_le _
    | some timer =>
      obtain ⟨_, _, ring⟩ := searches.ring target timer found
      exact ring.bounded expands
  · obtain ⟨timer, found⟩ := ongoing_iff.mp ongoing
    obtain ⟨retries, known, ring⟩ := searches.ring target timer found
    have last := ring.last expands all
    rw [last] at known
    refine ⟨_, handle_last found (searches.scheduled target timer found) known, ?_, ?_⟩
    · have none : ((counted.aodv.eraseDelayedPackets target).targetAddressToDelayedPackets.filter
          fun entry => entry.1 = target) = [] := by
        rw [Node.eraseDelayedPackets, List.filter_filter, List.filter_eq_nil_iff]
        intro entry _
        simp
      exact (congrArg (List.map Prod.snd) none).trans rfl
    · exact not_ongoing.mpr (Function.update_self ..)

theorem Progresses.not_stuck (progresses : Progresses counted) :
    ¬ Stuck counted.aodv := by
  rintro (⟨member, idle⟩ | ⟨found, unscheduled⟩)
  · rw [progresses.waiting _ member] at idle
    cases idle
  · rw [progresses.scheduled _ _ found] at unscheduled
    cases unscheduled

variable {params : Parameters} {events : List (Event Address Packet)}

theorem run_append : run params (events ++ [event]) =
    (run params events >>= fun counted => counted.handle event) := by
  rw [run, List.foldlM_append, ← run]
  refine bind_congr fun counted => ?_
  exact bind_pure _

/-- No request is refused in the run. -/
def NeverRefused (params : Parameters) (events : List (Event Address Packet)) : Prop :=
  ∀ n counted event, run params (events.take n) = .ok counted → events[n]? = some event →
    ¬ Refused counted.aodv event

omit [DecidableEq Address] in
theorem searches_new : Searches (.new params : Node Address Packet) fun _ => 0 :=
  ⟨nofun, nofun, nofun, fun _ _ => rfl⟩

theorem run_take {last : Counted Address Packet} (returned : run params events = .ok last) (n : Nat) :
    ∃ counted, run params (events.take n) = .ok counted := by
  rw [← List.take_append_drop n events, run, List.foldlM_append] at returned
  obtain ⟨counted, earlier, _⟩ := bind_eq_ok.mp returned
  exact ⟨counted, earlier⟩

omit [DecidableEq Address] in
theorem take_succ {n : Nat} (found : events[n]? = some event) :
    events.take (n + 1) = events.take n ++ [event] := by
  rw [List.take_add_one, found]
  rfl

theorem NeverRefused.run_searches (expands : params.Expands) (never : NeverRefused params events)
    {n : Nat} (returned : run params (events.take n) = .ok counted) :
    counted.aodv.params = params ∧ Searches counted.aodv counted.sent := by
  induction n generalizing counted with
  | zero =>
    cases returned
    exact ⟨rfl, searches_new⟩
  | succ n ih =>
    cases found : events[n]? with
    | none =>
      rw [List.take_add_one, found, Option.toList_none, List.append_nil] at returned
      exact ih returned
    | some event =>
      rw [take_succ found, run_append] at returned
      obtain ⟨before, earlier, handled⟩ := bind_eq_ok.mp returned
      obtain ⟨same, searches⟩ := ih earlier
      obtain ⟨outputs, stepped, sent⟩ := handle_counted handled
      have effect := (handle_effect stepped).2 (never n before event earlier found)
      exact ⟨effect.params.trans same, searches.step (same.symm ▸ expands) effect sent⟩

/-- In every run of a node whose parameters let the ring expand, discoveries make progress at every
point if and only if no request is refused. -/
theorem progresses_iff {last : Counted Address Packet} (expands : params.Expands)
    (returned : run params events = .ok last) :
    (∀ n counted, run params (events.take n) = .ok counted → Progresses counted) ↔
      NeverRefused params events := by
  constructor
  · intro progresses n counted event earlier found refused
    obtain ⟨after, later⟩ := run_take returned (n + 1)
    have handled := later
    rw [take_succ found, run_append, earlier, ok_bind] at handled
    obtain ⟨outputs, stepped, _⟩ := handle_counted handled
    exact (progresses (n + 1) after later).not_stuck ((handle_effect stepped).1 refused)
  · intro never n counted returned
    obtain ⟨same, searches⟩ := never.run_searches expands returned
    exact searches.progresses (same.symm ▸ expands)

/-- The defaults of the module. -/
def defaultParameters : Parameters where
  netDiameter := 35
  rreqRetries := 2
  rreqRatelimit := 10
  ttlStart := 2
  ttlIncrement := 2
  ttlThreshold := 7

theorem default_expands : defaultParameters.Expands :=
  ⟨by decide, by decide, by decide, by decide, by decide⟩

/-- A request times out, and the next one is answered. -/
def answered : List (Event Nat Nat) :=
  [.datagram false 1 100 none, .waitForRREP 1, .rrep true 1]

theorem answered_never : NeverRefused defaultParameters answered := by
  rintro (_ | _ | _ | n) counted event returned found
  · cases returned
    cases found
    exact fun refused => absurd refused.2.2.2 (by decide)
  · cases returned
    cases found
    exact fun refused => absurd refused.2 (by decide)
  · cases found
    exact False.elim
  · cases found

theorem progresses_answered : defaultParameters.Expands ∧ ∀ n counted,
    run defaultParameters (answered.take n) = .ok counted → Progresses counted :=
  ⟨default_expands, (@progresses_iff _ _ _ _ answered _ default_expands rfl).mpr answered_never⟩

/-- Ten discoveries start at once, and the first timer runs out within the same second. -/
def burst : List (Event Nat Nat) :=
  (List.range 10).map (fun target => .datagram false target 100 none) ++ [.waitForRREP 0]

/-- The timer is never scheduled again, and datagrams to the destination wait for ever. -/
theorem burst_wedged : defaultParameters.Expands ∧ ∃ counted,
    run defaultParameters burst = .ok counted ∧ ¬ Progresses counted :=
  ⟨default_expands, _, rfl, fun progresses =>
    absurd (progresses.scheduled 0 ⟨2, false, false⟩ rfl) Bool.false_ne_true⟩

end Inet.Aodv
