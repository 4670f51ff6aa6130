import Inet.Queueing.PacketBuffer

/-!
# The buffer and its queues agree

A packet comes and goes in one way: it is put in the buffer, in one queue and under the ownership of
that queue's storage, and taken from all three, whoever asks for it. Both keep the agreement, so a
run of operations does.
-/
namespace Inet.Queueing

open Lib

variable {Q P : Type}
variable {event : Event Q P} {dropper : Dropper Q P}

namespace Event

def arrival : Event Q P → Option P
  | .pushed _ packet => some packet
  | _ => none

def departure : Event Q P → Option P
  | .pushed _ _ => none
  | .dropped packet => some packet
  | .pulled _ packet => some packet
  | .removed _ packet => some packet

def pushedTo [DecidableEq Q] (queue : Q) : Event Q P → Option P
  | .pushed queue' packet => if queue' = queue then some packet else none
  | _ => none

def pulledFrom [DecidableEq Q] (queue : Q) : Event Q P → Option P
  | .pulled queue' packet => if queue' = queue then some packet else none
  | _ => none

end Event

namespace State

/-- How often a packet was pushed to a queue of the buffer. -/
def pushes [DecidableEq P] (packet : P) (state : State Q P) : Nat :=
  (state.log.filterMap Event.arrival).count packet

/-- How often a packet was dropped, pulled or removed. -/
def departures [DecidableEq P] (packet : P) (state : State Q P) : Nat :=
  (state.log.filterMap Event.departure).count packet

/-- The packets that were pushed to a queue, in the order of the pushes. -/
def pushedTo [DecidableEq Q] (queue : Q) (state : State Q P) : List P :=
  state.log.filterMap (Event.pushedTo queue)

/-- The packets that were pulled from a queue, in the order in which they were pulled. -/
def pulledFrom [DecidableEq Q] (queue : Q) (state : State Q P) : List P :=
  state.log.filterMap (Event.pulledFrom queue)

end State

variable [DecidableEq Q] [DecidableEq P]

/-- The buffer has each packet once, and each queue has those of which its storage is the owner. -/
structure Agreement (parameters : Parameters Q P) (state : State Q P) : Prop where
  once : state.packets.Nodup
  queuedOnce : ∀ queue, (state.queues queue).Nodup
  stored : ∀ packet ∈ state.packets, ∃ queue, state.owner packet = .storage queue
  queued : ∀ queue packet, packet ∈ state.queues queue ↔
    packet ∈ state.packets ∧ state.owner packet = .storage queue
  counted : ∀ packet, state.pushes packet =
    state.departures packet + if packet ∈ state.packets then 1 else 0
  inOrder : ∀ queue, parameters.packetComparatorFunction queue = none →
    (state.pulledFrom queue ++ state.queues queue).Sublist (state.pushedTo queue)

/-! ### Arrival -/

omit [DecidableEq P] in
theorem insert_perm (comparator : Option (P → P → Bool)) (packet : P) (queue : List P) :
    (insert comparator packet queue).Perm (packet :: queue) := by
  unfold insert
  cases comparator with
  | none => exact List.perm_append_singleton packet queue
  | some less =>
    refine List.perm_middle.trans (List.Perm.cons packet ?_)
    rw [List.rdropWhile_append_rtakeWhile]

namespace State

/-- A packet is put in a queue and in the buffer. -/
def put (parameters : Parameters Q P) (queue : Q) (packet : P) (state : State Q P) :
    State Q P where
  packets := state.packets ++ [packet]
  queues := Function.update state.queues queue
    (insert (parameters.packetComparatorFunction queue) packet (state.queues queue))
  owner := Function.update state.owner packet (.storage queue)
  log := state.log ++ [.pushed queue packet]

/-- A packet is taken from a queue and from the buffer. -/
def take (queue : Q) (packet : P) (event : Event Q P) (state : State Q P) : State Q P where
  packets := state.packets.erase packet
  queues := Function.update state.queues queue ((state.queues queue).erase packet)
  owner := Function.update state.owner packet (.module queue)
  log := state.log ++ [event]

end State

variable {parameters : Parameters Q P} {state next : State Q P} {queue : Q} {packet : P}

theorem Agreement.put (agreement : Agreement parameters state) (queue : Q)
    (fresh : packet ∉ state.packets) :
    Agreement parameters (state.put parameters queue packet) := by
  have outside (q : Q) : packet ∉ state.queues q := fun member =>
    fresh ((agreement.queued q packet).mp member).1
  have inserted := insert_perm (parameters.packetComparatorFunction queue) packet
    (state.queues queue)
  refine ⟨?_, ?_, ?_, ?_, ?_, ?_⟩
  · exact List.nodup_append.mpr ⟨agreement.once, List.nodup_cons.mpr ⟨List.not_mem_nil, List.nodup_nil⟩, by
      rintro p member _ same rfl
      exact fresh (List.mem_singleton.mp same ▸ member)⟩
  · intro q
    by_cases same : q = queue
    · subst same
      simp only [State.put, Function.update_self]
      exact inserted.nodup_iff.mpr
        (List.nodup_cons.mpr ⟨outside q, agreement.queuedOnce q⟩)
    · simp only [State.put, Function.update_of_ne same]
      exact agreement.queuedOnce q
  · intro p member
    by_cases same : p = packet
    · exact ⟨queue, by simp [State.put, same]⟩
    · obtain ⟨q, stored⟩ := agreement.stored p (by simpa [State.put, same] using member)
      exact ⟨q, by simp [State.put, same, stored]⟩
  · intro q p
    by_cases here : p = packet
    · subst here
      by_cases same : q = queue
      · subst same
        simp [State.put, inserted.mem_iff]
      · simp [State.put, same, outside q, Ne.symm same]
    · by_cases same : q = queue
      · subst same
        simp [State.put, inserted.mem_iff, here, agreement.queued q p]
      · simp [State.put, same, here, agreement.queued q p]
  · intro p
    have before := agreement.counted p
    by_cases here : p = packet
    · subst here
      simp only [State.pushes, State.departures, fresh, if_false] at before
      simp [State.put, State.pushes, State.departures, List.filterMap_append, List.filterMap_cons,
        Event.arrival, Event.departure, before]
    · simp only [State.pushes, State.departures] at before
      simp [State.put, State.pushes, State.departures, List.filterMap_append, List.filterMap_cons,
        Event.arrival, Event.departure, before, here, Ne.symm here]
  · intro q plain
    have before := agreement.inOrder q plain
    by_cases same : q = queue
    · subst same
      simp only [State.pulledFrom, State.pushedTo] at before
      simp only [State.put, State.pulledFrom, State.pushedTo, List.filterMap_append,
        Function.update_self, insert, plain, Event.pulledFrom, Event.pushedTo, if_true,
        List.filterMap_cons, List.filterMap_nil, List.append_nil, ← List.append_assoc]
      exact before.append (List.Sublist.refl _)
    · simp only [State.pulledFrom, State.pushedTo] at before
      simpa [State.put, State.pulledFrom, State.pushedTo, List.filterMap_append, List.filterMap_cons,
        same, Ne.symm same, Event.pulledFrom, Event.pushedTo] using before

/-! ### Departure -/

/-- An event with which a packet leaves a queue, pulled only when it is the first there. -/
structure Leaves (state : State Q P) (queue : Q) (packet : P) (event : Event Q P) : Prop where
  departure : event.departure = some packet
  first : ∀ q p, event = .pulled q p → q = queue ∧ (state.queues queue).head? = some packet

omit [DecidableEq Q] [DecidableEq P] in
theorem Leaves.arrival (leaves : Leaves state queue packet event) :
    event.arrival = none := by
  cases event with
  | pushed => exact absurd leaves.departure (by simp [Event.departure])
  | _ => rfl

omit [DecidableEq P] in
theorem Leaves.pushedTo (leaves : Leaves state queue packet event) (q : Q) :
    event.pushedTo q = none := by
  cases event with
  | pushed => exact absurd leaves.departure (by simp [Event.departure])
  | _ => rfl

/-- What was pulled and what is left shrinks by what leaves without being pulled. -/
theorem Leaves.sublist (leaves : Leaves state queue packet event) (q : Q) :
    ((state.take queue packet event).pulledFrom q ++
      (state.take queue packet event).queues q).Sublist (state.pulledFrom q ++ state.queues q) := by
  have shrinks : (Function.update state.queues queue ((state.queues queue).erase packet) q).Sublist
      (state.queues q) := by
    by_cases same : q = queue
    · subst same
      rw [Function.update_self]
      exact List.erase_sublist
    · rw [Function.update_of_ne same]
  simp only [State.take, State.pulledFrom, List.filterMap_append]
  cases event with
  | pulled q' p =>
    obtain ⟨rfl, first⟩ := leaves.first q' p rfl
    have same : p = packet := by simpa [Event.departure] using leaves.departure
    subst same
    by_cases here : q = q'
    · subst here
      obtain ⟨rest, content⟩ : ∃ rest, state.queues q = p :: rest :=
        List.head?_eq_some_iff.mp first
      simp [Event.pulledFrom, content]
    · simpa [List.filterMap_cons, Event.pulledFrom, Ne.symm here] using shrinks
  | _ => simpa [List.filterMap_cons, Event.pulledFrom] using shrinks

theorem Agreement.take (agreement : Agreement parameters state)
    (member : packet ∈ state.queues queue) (leaves : Leaves state queue packet event) :
    Agreement parameters (state.take queue packet event) := by
  obtain ⟨inside, owned⟩ := (agreement.queued queue packet).mp member
  refine ⟨agreement.once.erase _, ?_, ?_, ?_, ?_, ?_⟩
  · intro q
    by_cases same : q = queue
    · subst same
      simp only [State.take, Function.update_self]
      exact (agreement.queuedOnce q).erase _
    · simp only [State.take, Function.update_of_ne same]
      exact agreement.queuedOnce q
  · intro p there
    obtain ⟨other, there⟩ := agreement.once.mem_erase_iff.mp there
    obtain ⟨q, stored⟩ := agreement.stored p there
    exact ⟨q, by simp [State.take, other, stored]⟩
  · intro q p
    by_cases same : q = queue
    · subst same
      by_cases here : p = packet
      · subst here
        simp [State.take, (agreement.queuedOnce q).mem_erase_iff]
      · simp [State.take, (agreement.queuedOnce q).mem_erase_iff, agreement.once.mem_erase_iff,
          here, agreement.queued q p]
    · by_cases here : p = packet
      · subst here
        have elsewhere : p ∉ state.queues q := fun there => same (by
          have := ((agreement.queued q p).mp there).2
          simpa [owned] using this.symm)
        simp [State.take, same, elsewhere]
      · simp [State.take, same, here, agreement.once.mem_erase_iff, agreement.queued q p]
  · intro p
    have before := agreement.counted p
    simp only [State.pushes, State.departures] at before
    by_cases here : p = packet
    · subst here
      simp only [inside, if_true] at before
      simp [State.take, State.pushes, State.departures, List.filterMap_append, leaves.arrival,
        leaves.departure, agreement.once.mem_erase_iff, before]
    · simp [State.take, State.pushes, State.departures, List.filterMap_append, leaves.arrival,
        leaves.departure, agreement.once.mem_erase_iff, before, here, Ne.symm here]
  · intro q plain
    have pushes : (state.take queue packet event).pushedTo q = state.pushedTo q := by
      simp [State.take, State.pushedTo, List.filterMap_append, leaves.pushedTo]
    rw [pushes]
    exact (leaves.sublist q).trans (agreement.inOrder q plain)

/-! ### Operations -/

theorem Agreement.member (agreement : Agreement parameters state)
    (inside : packet ∈ state.packets) :
    ∃ queue, packet ∈ state.queues queue ∧ state.owner packet = .storage queue := by
  obtain ⟨queue, owned⟩ := agreement.stored packet inside
  exact ⟨queue, (agreement.queued queue packet).mpr ⟨inside, owned⟩, owned⟩

theorem Agreement.dropPacket_eq (agreement : Agreement parameters state)
    (inside : packet ∈ state.packets) :
    ∃ queue, packet ∈ state.queues queue ∧
      Parameters.dropPacket packet state = state.take queue packet (.dropped packet) := by
  obtain ⟨queue, member, owned⟩ := agreement.member inside
  refine ⟨queue, member, ?_⟩
  simp [Parameters.dropPacket, State.notifyOwner, owned, State.handlePacketRemoved, member,
    State.removeFromQueue, State.record, State.take]

/-- A packet removed through its own queue is no longer the storage's, so the buffer tells nobody;
one removed through another queue still is, and the buffer tells its queue. -/
theorem Agreement.removed_eq (agreement : Agreement parameters state) (queue : Q)
    (inside : packet ∈ state.packets) :
    ∃ owning, packet ∈ state.queues owning ∧ (packet ∈ state.queues queue → owning = queue) ∧
      ∀ event, (do
        let state ← Parameters.removeFromBuffer packet (state.removeFromQueue queue packet)
        return state.record event : Except String (State Q P)) =
          .ok (state.take owning packet event) := by
  obtain ⟨owning, member, owned⟩ := agreement.member inside
  refine ⟨owning, member, fun there => ?_, fun event => ?_⟩
  · have := ((agreement.queued queue packet).mp there).2
    simpa [owned] using this
  · by_cases there : packet ∈ state.queues queue
    · have same : owning = queue := by
        have := ((agreement.queued queue packet).mp there).2
        simpa [owned] using this
      subst same
      simp [State.removeFromQueue, member, owned, Parameters.removeFromBuffer, inside,
        State.notifyOwner, State.record, State.take, ok_bind, pure, Except.pure]
    · simp [State.removeFromQueue, there, owned, Parameters.removeFromBuffer, inside, member,
        State.notifyOwner, State.handlePacketRemoved, State.record, State.take, ok_bind, pure,
        Except.pure]

theorem Agreement.pullPacket_eq (agreement : Agreement parameters state)
    (waiting : state.queues queue ≠ []) :
    ∃ packet, packet ∈ state.queues queue ∧ (state.queues queue).head? = some packet ∧
      Parameters.pullPacket queue state =
        .ok (state.take queue packet (.pulled queue packet)) := by
  obtain ⟨packet, rest, content⟩ := List.exists_cons_of_ne_nil waiting
  have member : packet ∈ state.queues queue := by simp [content]
  obtain ⟨owning, -, same, removed⟩ :=
    agreement.removed_eq queue ((agreement.queued queue packet).mp member).1
  have first : (state.queues queue).head? = some packet := by simp [content]
  refine ⟨packet, member, first, ?_⟩
  simp only [Parameters.pullPacket, first]
  rw [removed, same member]

/-! ### The limits -/

/-- A buffer is over its limits only when it is empty and a limit is below the one that stands for
none. -/
def Within (parameters : Parameters Q P) (state : State Q P) : Prop :=
  parameters.isOverloaded state = true →
    state.packets = [] ∧ (parameters.packetCapacity < -1 ∨ parameters.dataCapacity < -1)

omit [DecidableEq Q] in
theorem isOverloaded_erase (overloaded : parameters.isOverloaded next = true)
    (inside : packet ∈ state.packets) (fewer : next.packets = state.packets.erase packet) :
    parameters.isOverloaded state = true := by
  have length := List.length_erase_of_mem inside
  have total : parameters.getTotalLength (state.packets.erase packet) ≤
      parameters.getTotalLength state.packets :=
    (List.erase_sublist.map _).sum_le_sum (fun _ _ => Nat.zero_le _)
  simp only [Parameters.isOverloaded, Bool.or_eq_true, Bool.and_eq_true, bne_iff_ne,
    decide_eq_true_eq, fewer] at overloaded ⊢
  omega

theorem Within.take (within : Within parameters state)
    (inside : packet ∈ state.packets) : Within parameters (state.take queue packet event) := by
  intro overloaded
  have := (within (isOverloaded_erase overloaded inside rfl)).1
  exact absurd this (List.ne_nil_of_mem inside)

omit [DecidableEq Q] [DecidableEq P] in
theorem within_of_stopped
    (stopped : (!state.packets.isEmpty && parameters.isOverloaded state) = false) :
    Within parameters state := by
  intro overloaded
  have empty : state.packets = [] := by simpa [overloaded] using stopped
  refine ⟨empty, ?_⟩
  simp only [Parameters.isOverloaded, Parameters.getTotalLength, Bool.or_eq_true,
    Bool.and_eq_true, bne_iff_ne, decide_eq_true_eq, empty, List.length_nil, List.map_nil,
    List.sum_nil] at overloaded
  omega

theorem dropPackets_spec (dropper : Dropper Q P) {fuel : Nat}
    (agreement : Agreement parameters state) (enough : state.packets.length ≤ fuel) :
    Agreement parameters (parameters.dropPackets dropper fuel state) ∧
      Within parameters (parameters.dropPackets dropper fuel state) := by
  induction fuel generalizing state with
  | zero =>
    have empty : state.packets = [] := List.length_eq_zero_iff.mp (by omega)
    exact ⟨agreement, within_of_stopped (by simp [Parameters.dropPackets, empty])⟩
  | succ fuel ih =>
    simp only [Parameters.dropPackets]
    split
    · next goesOn =>
      have some : state.packets ≠ [] := by
        intro empty
        simp [empty] at goesOn
      have inside := dropper.selects state some
      obtain ⟨queue, member, dropped⟩ := agreement.dropPacket_eq inside
      have length := List.length_erase_of_mem inside
      rw [dropped]
      refine ih (agreement.take member ⟨rfl, by simp⟩) ?_
      simp only [State.take]
      omega
    · next stopped => exact ⟨agreement, within_of_stopped (by simpa using stopped)⟩

theorem pushPacket_spec (given : parameters.packetDropperFunction = some dropper)
    (agreement : Agreement parameters state) (fresh : packet ∉ state.packets) :
    ∃ next, parameters.pushPacket queue packet state = .ok next ∧ Agreement parameters next ∧
      Within parameters next := by
  have put := agreement.put queue fresh
  have pushed : parameters.pushPacket queue packet state =
      if parameters.isOverloaded (state.put parameters queue packet) then
        .ok (parameters.dropPackets dropper (state.put parameters queue packet).packets.length
          (state.put parameters queue packet))
      else .ok (state.put parameters queue packet) := by
    simp only [Parameters.pushPacket, Parameters.addPacket, given]
    rfl
  rw [pushed]
  split
  · exact ⟨_, rfl, dropPackets_spec dropper put (Nat.le_refl _)⟩
  · next fits => exact ⟨_, rfl, put, fun overloaded => absurd overloaded fits⟩

/-- What can be asked for is done, and keeps the agreement and the limits. -/
theorem perform_spec (given : parameters.packetDropperFunction = some dropper)
    (agreement : Agreement parameters state) (within : Within parameters state)
    {operation : Parameters.Operation Q P} (possible : Parameters.Possible state operation) :
    ∃ next, parameters.perform operation state = .ok next ∧ Agreement parameters next ∧
      Within parameters next := by
  cases operation with
  | pushPacket queue packet => exact pushPacket_spec given agreement possible
  | pullPacket queue =>
    obtain ⟨packet, member, first, pulled⟩ := agreement.pullPacket_eq possible
    refine ⟨_, pulled, agreement.take member ⟨rfl, ?_⟩,
      within.take ((agreement.queued queue packet).mp member).1⟩
    rintro q p ⟨⟩
    exact ⟨rfl, first⟩
  | removePacket queue packet =>
    obtain ⟨owning, member, -, removed⟩ := agreement.removed_eq queue possible
    exact ⟨_, removed (.removed queue packet), agreement.take member ⟨rfl, by simp⟩,
      within.take possible⟩

theorem Agreement.empty : Agreement parameters {} :=
  ⟨List.nodup_nil, fun _ => List.nodup_nil, by simp, by simp, fun _ => rfl, fun _ _ => by
    simp [State.pulledFrom, State.pushedTo]⟩

theorem reachable_spec (given : parameters.packetDropperFunction = some dropper)
    (reachable : parameters.Reachable state) :
    Agreement parameters state ∧ Within parameters state := by
  induction reachable with
  | empty => exact ⟨Agreement.empty, within_of_stopped rfl⟩
  | after _ _ possible performed ih =>
    obtain ⟨next, returned, spec⟩ := perform_spec given ih.1 ih.2 possible
    cases performed.symm.trans returned
    exact spec

/-- After every run the buffer has exactly the packets of its queues, no packet in two of them or
twice, as many arrivals as departures and packets there, is within its limits where a limit can be
met, and the queues without comparator give their packets in the order in which they got them. -/
theorem buffer_agrees (parameters : Parameters Q P) (dropper : Dropper Q P)
    (given : parameters.packetDropperFunction = some dropper) (state : State Q P)
    (reachable : parameters.Reachable state) :
    (∀ packet, packet ∈ state.packets ↔ ∃ queue, packet ∈ state.queues queue) ∧
    state.packets.Nodup ∧
    (∀ queue, (state.queues queue).Nodup) ∧
    (∀ queue queue', queue ≠ queue' → (state.queues queue).Disjoint (state.queues queue')) ∧
    (parameters.isOverloaded state = true →
      state.packets = [] ∧ (parameters.packetCapacity < -1 ∨ parameters.dataCapacity < -1)) ∧
    (∀ packet, state.pushes packet =
      state.departures packet + if packet ∈ state.packets then 1 else 0) ∧
    (∀ queue, parameters.packetComparatorFunction queue = none →
      (state.pulledFrom queue ++ state.queues queue).Sublist (state.pushedTo queue)) ∧
    ∀ operation, Parameters.Possible state operation →
      ∃ next, parameters.perform operation state = .ok next := by
  obtain ⟨agreement, within⟩ := reachable_spec given reachable
  refine ⟨fun packet => ⟨fun inside => ?_, fun ⟨queue, member⟩ => ?_⟩, agreement.once,
    agreement.queuedOnce, ?_, within, agreement.counted, agreement.inOrder, ?_⟩
  · obtain ⟨queue, member, -⟩ := agreement.member inside
    exact ⟨queue, member⟩
  · exact ((agreement.queued queue packet).mp member).1
  · intro queue queue' different packet here there
    have owned := ((agreement.queued queue packet).mp here).2
    have owned' := ((agreement.queued queue' packet).mp there).2
    exact different (Owner.storage.inj (owned.symm.trans owned'))
  · intro operation possible
    obtain ⟨next, performed, -⟩ := perform_spec given agreement within possible
    exact ⟨next, performed⟩

/-- The dropper function that selects the packet that is longest in the buffer. -/
def Dropper.oldest (Q : Type) {P : Type} [Inhabited P] : Dropper Q P where
  selectPacket state := state.packets.headD default
  selects state some := by
    obtain ⟨packet, rest, content⟩ := List.exists_cons_of_ne_nil some
    simp [content]

/-- A buffer for two packets; the queue `true` has its largest packet first. -/
def twoPackets : Parameters Bool (Fin 4) where
  packetCapacity := 2
  packetDropperFunction := some (Dropper.oldest Bool)
  packetComparatorFunction queue := if queue then some fun a b => decide (b < a) else none
  totalLength _ := 1

/-- The third packet makes the buffer drop the first, which is in the other queue. -/
theorem twoPackets_agrees : ∃ state, twoPackets.Reachable state ∧ state.packets = [1, 2] ∧
    (∀ queue, state.queues queue = if queue then [2, 1] else []) ∧
    state.log.getLast? = some (.dropped 0) ∧
    ∀ packet, packet ∈ state.packets ↔ ∃ queue, packet ∈ state.queues queue := by
  have reachable := Parameters.Reachable.after (.pushPacket true 2)
    (.after (.pushPacket true 1)
      (.after (.pushPacket false 0) (.empty : twoPackets.Reachable {})
        (by decide) rfl)
      (by decide) rfl)
    (by decide) rfl
  exact ⟨_, reachable, rfl, by decide, rfl,
    (buffer_agrees twoPackets (Dropper.oldest Bool) rfl _ reachable).1⟩

/-- A limit that no number of packets meets, and that is not the one that stands for none. -/
def belowNone : Parameters Unit Unit where
  packetCapacity := -2
  packetDropperFunction := some (Dropper.oldest Unit)
  totalLength _ := 1

theorem belowNone_overloaded : ∃ state, belowNone.Reachable state ∧
    belowNone.isOverloaded state = true :=
  ⟨_, .after (.pushPacket () ()) .empty (by decide) rfl, rfl⟩

end Inet.Queueing
