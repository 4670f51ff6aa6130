import Inet.Lib.Except

/-!
# The paced queues of UDP

Packets to the network layer and packets to applications wait in a queue each while a packet is on
the channel. A timer expires when the channel is free again.
-/
namespace Inet

open Lib

namespace Udp

/-- A queue with the channel that its packets are sent on. The last two fields record what has
happened so far. -/
structure PacedQueue (P : Type) where
  queue : List P := []
  /-- When the packet that has been sent last has left the channel. -/
  transmissionFinishTime : Nat := 0
  /-- When the timer expires, if it is scheduled. -/
  endTxTimer : Option Nat := none
  arrived : List P := []
  sent : List P := []

/-- For how long a packet occupies a channel. -/
structure Durations (P : Type) where
  duration : P → Nat
  positive : ∀ p, 0 < duration p

namespace PacedQueue

variable {P : Type}

def isBusy (paced : PacedQueue P) (now : Nat) : Bool := now < paced.transmissionFinishTime

def send (d : Durations P) (now : Nat) (p : P) (paced : PacedQueue P) :
    Except String (PacedQueue P) :=
  if paced.isBusy now then throw "transmission channel is busy"
  else return { paced with
    transmissionFinishTime := now + d.duration p, sent := paced.sent ++ [p] }

def scheduleAt (time : Nat) (paced : PacedQueue P) : Except String (PacedQueue P) :=
  match paced.endTxTimer with
  | some _ => throw "message is already scheduled"
  | none => return { paced with endTxTimer := some time }

/-- The first packet of the queue is sent, if there is one. -/
def sendFirst (d : Durations P) (now : Nat) (paced : PacedQueue P) :
    Except String (PacedQueue P) :=
  match paced.queue with
  | [] => return paced
  | p :: rest => do
    let paced ← { paced with queue := rest }.send d now p
    paced.scheduleAt paced.transmissionFinishTime

def enqueue (p : P) (paced : PacedQueue P) : PacedQueue P :=
  { paced with queue := paced.queue ++ [p], arrived := paced.arrived ++ [p] }

/-- What `handleUpperPacket` and `sendUp` do with a packet. -/
def insert (d : Durations P) (now : Nat) (p : P) (paced : PacedQueue P) :
    Except String (PacedQueue P) :=
  if !(paced.enqueue p).isBusy now then (paced.enqueue p).sendFirst d now
  else return paced.enqueue p

/-- The timer expires, and is not scheduled while it is handled. -/
def expire (d : Durations P) (now : Nat) (paced : PacedQueue P) : Except String (PacedQueue P) :=
  { paced with endTxTimer := none }.sendFirst d now

end PacedQueue

end Udp

open Udp

/-! ### Both directions -/

structure Udp (P : Type) where
  now : Nat := 0
  queue : PacedQueue P := {}
  queueToUpperLayer : PacedQueue P := {}

namespace Udp

inductive Timer
  | endTxTimer | endUpperTxTimer
  deriving DecidableEq

inductive Event (P : Type)
  /-- Time passes. -/
  | pass (delay : Nat)
  | upperPacket (p : P)
  | received (p : P)
  | selfMessage (msg : Timer)

variable {P : Type} (d : Durations P)

def handleUpperPacket (p : P) (udp : Udp P) : Except String (Udp P) := do
  let queue ← udp.queue.insert d udp.now p
  return { udp with queue }

def sendUp (p : P) (udp : Udp P) : Except String (Udp P) := do
  let queueToUpperLayer ← udp.queueToUpperLayer.insert d udp.now p
  return { udp with queueToUpperLayer }

def handleEndTxPeriod (udp : Udp P) : Except String (Udp P) := do
  let queue ← udp.queue.expire d udp.now
  return { udp with queue }

def handleEndUpperTxPeriod (udp : Udp P) : Except String (Udp P) := do
  let queueToUpperLayer ← udp.queueToUpperLayer.expire d udp.now
  return { udp with queueToUpperLayer }

def handleSelfMessage (udp : Udp P) : Timer → Except String (Udp P)
  | .endTxTimer => udp.handleEndTxPeriod d
  | .endUpperTxTimer => udp.handleEndUpperTxPeriod d

/-- Whether an event can happen next. Time does not pass beyond a timer. -/
def Enabled (udp : Udp P) : Event P → Prop
  | .pass delay => ∀ time, udp.queue.endTxTimer = some time ∨
      udp.queueToUpperLayer.endTxTimer = some time → udp.now + delay ≤ time
  | .upperPacket _ => True
  | .received _ => True
  | .selfMessage .endTxTimer => udp.queue.endTxTimer = some udp.now
  | .selfMessage .endUpperTxTimer => udp.queueToUpperLayer.endTxTimer = some udp.now

def handle (udp : Udp P) : Event P → Except String (Udp P)
  | .pass delay => return { udp with now := udp.now + delay }
  | .upperPacket p => udp.handleUpperPacket d p
  | .received p => udp.sendUp d p
  | .selfMessage msg => udp.handleSelfMessage d msg

/-- A packet does not arrive at the end of a transmission before the timer of that has expired. -/
def Orderly (udp : Udp P) : Event P → Prop
  | .upperPacket _ => udp.queue.endTxTimer ≠ some udp.now
  | .received _ => udp.queueToUpperLayer.endTxTimer ≠ some udp.now
  | _ => True

inductive Reachable (d : Durations P) (allowed : Udp P → Event P → Prop) : Udp P → Prop
  | start : Reachable d allowed {}
  | step {udp next : Udp P} (event : Event P) (before : Reachable d allowed udp)
    (enabled : udp.Enabled event) (allows : allowed udp event)
    (handled : udp.handle d event = .ok next) : Reachable d allowed next

/-! ### Paced queues -/

namespace PacedQueue

variable {d : Durations P} {now : Nat} {paced : PacedQueue P}

/-- The timer expires at the end of a transmission, and nothing waits when there is none. -/
structure Paced (paced : PacedQueue P) (now : Nat) : Prop where
  scheduled : ∀ time, paced.endTxTimer = some time →
    time = paced.transmissionFinishTime ∧ now ≤ time
  idle : paced.endTxTimer = none → paced.queue = [] ∧ paced.transmissionFinishTime ≤ now
  order : paced.arrived = paced.sent ++ paced.queue

theorem isBusy_eq_false (free : paced.transmissionFinishTime ≤ now) : paced.isBusy now = false :=
  decide_eq_false (Nat.not_lt.mpr free)

/-- A packet is sent on a free channel. -/
def afterSend (d : Durations P) (now : Nat) (p : P) (rest : List P) (paced : PacedQueue P) :
    PacedQueue P :=
  { paced with
    queue := rest, transmissionFinishTime := now + d.duration p, sent := paced.sent ++ [p] }

theorem sendFirst_cons {p : P} {rest : List P} (waiting : paced.queue = p :: rest)
    (free : paced.transmissionFinishTime ≤ now) :
    paced.sendFirst d now =
      (paced.afterSend d now p rest).scheduleAt (now + d.duration p) := by
  have sent : ({ paced with queue := rest } : PacedQueue P).send d now p =
      .ok (paced.afterSend d now p rest) :=
    if_neg fun busy => absurd (of_decide_eq_true busy) (Nat.not_lt.mpr free)
  unfold sendFirst
  rw [waiting]
  dsimp only
  rw [sent, ok_bind]
  rfl

/-- A queue whose timer is not scheduled sends its first packet. -/
theorem sendFirst_paced (unscheduled : paced.endTxTimer = none)
    (free : paced.transmissionFinishTime ≤ now)
    (order : paced.arrived = paced.sent ++ paced.queue) :
    ∃ next, paced.sendFirst d now = .ok next ∧ next.Paced now := by
  cases waiting : paced.queue with
  | nil =>
    refine ⟨paced, ?_, fun _ scheduled => absurd (unscheduled.symm.trans scheduled) nofun,
      fun _ => ⟨waiting, free⟩, order⟩
    unfold sendFirst
    rw [waiting]
    rfl
  | cons p rest =>
    have scheduled : (paced.afterSend d now p rest).scheduleAt (now + d.duration p) =
        .ok { paced.afterSend d now p rest with endTxTimer := some (now + d.duration p) } := by
      unfold scheduleAt
      rw [show (paced.afterSend d now p rest).endTxTimer = none from unscheduled]
      rfl
    refine ⟨_, (sendFirst_cons waiting free).trans scheduled, fun time later => ?_, nofun, ?_⟩
    · cases later
      exact ⟨rfl, Nat.le_add_right _ _⟩
    · change paced.arrived = (paced.sent ++ [p]) ++ rest
      rw [order, waiting]
      exact List.append_cons _ _ _

theorem expire_paced (before : paced.Paced now) (expires : paced.endTxTimer = some now) :
    ∃ next, paced.expire d now = .ok next ∧ next.Paced now :=
  sendFirst_paced rfl (Nat.le_of_eq (before.scheduled now expires).1.symm) before.order

/-- A packet is taken if the timer is not about to expire. -/
theorem insert_paced (before : paced.Paced now) (p : P) (orderly : paced.endTxTimer ≠ some now) :
    ∃ next, paced.insert d now p = .ok next ∧ next.Paced now := by
  have order : (paced.enqueue p).arrived = (paced.enqueue p).sent ++ (paced.enqueue p).queue :=
    (congrArg (· ++ [p]) before.order).trans (List.append_assoc _ _ _)
  unfold insert
  cases scheduled : paced.endTxTimer with
  | none =>
    have free : (paced.enqueue p).transmissionFinishTime ≤ now := (before.idle scheduled).2
    rw [isBusy_eq_false free, Bool.not_false, if_pos rfl]
    exact sendFirst_paced scheduled free order
  | some time =>
    obtain ⟨rfl, future⟩ := before.scheduled time scheduled
    have busy : (paced.enqueue p).isBusy now = true := by
      refine decide_eq_true (Nat.lt_of_le_of_ne future fun same => orderly ?_)
      rw [scheduled, same]
      rfl
    rw [busy, Bool.not_true, if_neg nofun]
    exact ⟨_, rfl, before.scheduled, fun none => absurd (scheduled.symm.trans none) nofun, order⟩

/-- A packet that arrives when the timer is about to expire is sent, and the timer is scheduled
once more. -/
theorem insert_disorderly (before : paced.Paced now) (p : P)
    (expires : paced.endTxTimer = some now) :
    paced.insert d now p = .error "message is already scheduled" := by
  have free : (paced.enqueue p).transmissionFinishTime ≤ now :=
    Nat.le_of_eq (before.scheduled now expires).1.symm
  obtain ⟨first, rest, waiting⟩ := List.exists_cons_of_ne_nil
    (List.append_ne_nil_of_right_ne_nil paced.queue (List.cons_ne_nil p []))
  unfold insert
  rw [isBusy_eq_false free, Bool.not_false, if_pos rfl, sendFirst_cons waiting free]
  unfold scheduleAt
  rw [show ((paced.enqueue p).afterSend d now first rest).endTxTimer = some now from expires]
  rfl

theorem Paced.pass (before : paced.Paced now) {later : Nat} (passes : now ≤ later)
    (until_ : ∀ time, paced.endTxTimer = some time → later ≤ time) : paced.Paced later where
  scheduled time scheduled := ⟨(before.scheduled time scheduled).1, until_ time scheduled⟩
  idle unscheduled := ⟨(before.idle unscheduled).1, Nat.le_trans (before.idle unscheduled).2 passes⟩
  order := before.order

end PacedQueue

/-! ### Runs -/

variable {d : Durations P}

/-- Both queues are paced. -/
structure Paced (udp : Udp P) : Prop where
  queue : udp.queue.Paced udp.now
  queueToUpperLayer : udp.queueToUpperLayer.Paced udp.now

theorem Paced.start : Paced ({} : Udp P) :=
  ⟨⟨nofun, fun _ => ⟨rfl, Nat.le_refl _⟩, rfl⟩, ⟨nofun, fun _ => ⟨rfl, Nat.le_refl _⟩, rfl⟩⟩

variable {udp : Udp P}

/-- An orderly event is handled. -/
theorem Paced.handle (paced : udp.Paced) {event : Event P}
    (enabled : udp.Enabled event) (orderly : udp.Orderly event) :
    ∃ next, udp.handle d event = .ok next ∧ next.Paced := by
  cases event with
  | pass delay =>
    have later : udp.now ≤ udp.now + delay := Nat.le_add_right _ _
    exact ⟨_, rfl, paced.queue.pass later fun time scheduled => enabled time (.inl scheduled),
      paced.queueToUpperLayer.pass later fun time scheduled => enabled time (.inr scheduled)⟩
  | upperPacket p =>
    obtain ⟨queue, returned, paced'⟩ := PacedQueue.insert_paced (d := d) paced.queue p orderly
    exact ⟨{ udp with queue }, bind_eq_ok.mpr ⟨queue, returned, rfl⟩, paced', paced.queueToUpperLayer⟩
  | received p =>
    obtain ⟨queueToUpperLayer, returned, paced'⟩ :=
      PacedQueue.insert_paced (d := d) paced.queueToUpperLayer p orderly
    exact ⟨{ udp with queueToUpperLayer }, bind_eq_ok.mpr ⟨_, returned, rfl⟩, paced.queue, paced'⟩
  | selfMessage msg =>
    cases msg with
    | endTxTimer =>
      obtain ⟨queue, returned, paced'⟩ := PacedQueue.expire_paced (d := d) paced.queue enabled
      exact ⟨{ udp with queue }, bind_eq_ok.mpr ⟨queue, returned, rfl⟩, paced',
        paced.queueToUpperLayer⟩
    | endUpperTxTimer =>
      obtain ⟨queueToUpperLayer, returned, paced'⟩ :=
        PacedQueue.expire_paced (d := d) paced.queueToUpperLayer enabled
      exact ⟨{ udp with queueToUpperLayer }, bind_eq_ok.mpr ⟨_, returned, rfl⟩, paced.queue, paced'⟩

/-- An event that is not orderly schedules a timer that is scheduled. -/
theorem Paced.handle_disorderly (paced : udp.Paced) {event : Event P}
    (disorderly : ¬udp.Orderly event) :
    udp.handle d event = .error "message is already scheduled" := by
  cases event with
  | upperPacket p =>
    change udp.queue.insert d udp.now p >>= _ = _
    rw [PacedQueue.insert_disorderly paced.queue p (not_not.mp disorderly)]
    rfl
  | received p =>
    change udp.queueToUpperLayer.insert d udp.now p >>= _ = _
    rw [PacedQueue.insert_disorderly paced.queueToUpperLayer p (not_not.mp disorderly)]
    rfl
  | pass => exact absurd trivial disorderly
  | selfMessage => exact absurd trivial disorderly

theorem Reachable.paced (reachable : Reachable d Orderly udp) : udp.Paced := by
  induction reachable with
  | start => exact .start
  | step _ _ enabled orderly handled paced =>
    obtain ⟨next, returned, paced'⟩ := paced.handle enabled orderly
    exact Except.ok.inj (returned.symm.trans handled) ▸ paced'

/-- In a run of orderly events, the events that are handled without an error are the orderly ones,
a packet waits for a timer, and packets leave in the order of their arrival. -/
theorem orderly_reachable {udp : Udp P} (reachable : Reachable d Orderly udp) :
    (∀ event, udp.Enabled event → ((∃ next, udp.handle d event = .ok next) ↔ udp.Orderly event)) ∧
      (udp.queue.queue ≠ [] → udp.queue.endTxTimer ≠ none) ∧
      (udp.queueToUpperLayer.queue ≠ [] → udp.queueToUpperLayer.endTxTimer ≠ none) ∧
      udp.queue.arrived = udp.queue.sent ++ udp.queue.queue ∧
      udp.queueToUpperLayer.arrived =
        udp.queueToUpperLayer.sent ++ udp.queueToUpperLayer.queue := by
  have paced := reachable.paced
  refine ⟨fun event enabled => ⟨?_, fun orderly => ?_⟩, ?_, ?_, paced.queue.order,
    paced.queueToUpperLayer.order⟩
  · rintro ⟨next, returned⟩
    by_contra disorderly
    rw [paced.handle_disorderly disorderly] at returned
    cases returned
  · obtain ⟨next, returned, -⟩ := paced.handle (d := d) enabled orderly
    exact ⟨next, returned⟩
  · exact fun waiting unscheduled => waiting (paced.queue.idle unscheduled).1
  · exact fun waiting unscheduled => waiting (paced.queueToUpperLayer.idle unscheduled).1

/-- The packets occupy the channel for one unit of time. -/
def unitDurations : Durations Nat := ⟨fun _ => 1, fun _ => Nat.one_pos⟩

/-- Two packets have arrived, and the first one has been sent. -/
def twoArrived : Udp Nat :=
  { queue :=
      { queue := [1], transmissionFinishTime := 1, endTxTimer := some 1, arrived := [0, 1]
        sent := [0] } }

theorem twoArrived_reachable : Reachable unitDurations Orderly twoArrived :=
  have first : Reachable unitDurations Orderly
      { queue := { transmissionFinishTime := 1, endTxTimer := some 1, arrived := [0], sent := [0] } } :=
    .step (.upperPacket 0) .start trivial nofun rfl
  .step (.upperPacket 1) first trivial nofun rfl

theorem twoArrived_waits : twoArrived.queue.queue ≠ [] ∧ twoArrived.queue.endTxTimer ≠ none :=
  ⟨nofun, (orderly_reachable twoArrived_reachable).2.1 nofun⟩

/-- A packet arrives at the end of a transmission, before the timer expires. -/
theorem arrival_at_end_fails :
    ¬∀ udp : Udp Nat, Reachable unitDurations (fun _ _ => True) udp → ∀ event, udp.Enabled event →
      ∃ next, udp.handle unitDurations event = .ok next := by
  intro all
  let sending : Udp Nat :=
    { queue := { transmissionFinishTime := 1, endTxTimer := some 1, arrived := [0], sent := [0] } }
  have first : Reachable unitDurations (fun _ _ => True) sending :=
    .step (.upperPacket 0) .start trivial trivial rfl
  have passes : sending.Enabled (.pass 1) := by
    rintro time (scheduled | scheduled)
    · cases scheduled
      exact Nat.le_refl 1
    · cases scheduled
  have second : Reachable unitDurations (fun _ _ => True) { sending with now := 1 } :=
    .step (.pass 1) first passes trivial rfl
  obtain ⟨next, returned⟩ := all _ second (.upperPacket 1) trivial
  cases returned

end Udp

end Inet
