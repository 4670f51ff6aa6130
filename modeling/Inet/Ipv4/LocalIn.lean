import Mathlib.Data.List.Basic

/-!
# Verdicts of hooks
-/
namespace Inet.Ipv4

inductive Result where
  | ACCEPT
  | DROP
  | QUEUE
  | STOLEN
deriving DecidableEq, Repr

/-- What the loop over the hooks returns, given what each of them answers. -/
def verdict : List Result → Result
  | [] => .ACCEPT
  | .ACCEPT :: rest => verdict rest
  | result :: _ => result

end Inet.Ipv4

/-!
## Delivering datagrams to the upper layer

Completed datagrams wait in a queue while the channel to the upper layer is busy. The hooks are
asked when a datagram arrives and the channel is idle, about the datagram that arrives.
-/
namespace Inet.Ipv4.LocalIn

/-- The receive side. The last four fields record what happened so far. -/
structure Receiver (D : Type) where
  queueToUpperLayer : List D := []
  queuedDatagramsForHooks : List D := []
  /-- Whether the timer is scheduled. -/
  endUpperTxTimer : Bool := false
  arrived : List D := []
  left : List D := []
  submitted : List (D × Result) := []
  delivered : List D := []

namespace Receiver

variable {D : Type} (upperProtocols : D → Bool) (receiver : Receiver D)

def datagramLocalInHook (answers : List Result) (packet : D) : Result × Receiver D :=
  let result := verdict answers
  let queued := if result = .QUEUE then [packet] else []
  (result, { receiver with
    queuedDatagramsForHooks := receiver.queuedDatagramsForHooks ++ queued
    submitted := receiver.submitted ++ [(packet, result)] })

/-- The timer is scheduled if the datagram is sent to a protocol, and `upperProtocols` tells
whether it is. -/
def reassembleAndDeliverFinish (packet : D) : Receiver D :=
  { receiver with
    endUpperTxTimer := if upperProtocols packet then true else receiver.endUpperTxTimer
    delivered := receiver.delivered ++ [packet] }

/-- What is done with a completed datagram. -/
def reassembleAndDeliver (isBusy : Bool) (answers : List Result) (packet : D) : Receiver D :=
  let receiver := { receiver with
    arrived := receiver.arrived ++ [packet]
    queueToUpperLayer := receiver.queueToUpperLayer ++ [packet] }
  if isBusy then receiver
  else
    match receiver.queueToUpperLayer with
    | [] => receiver
    | packetToUpperLayer :: rest =>
      let receiver := { receiver with
        queueToUpperLayer := rest
        left := receiver.left ++ [packetToUpperLayer] }
      -- the hooks are asked about the datagram that arrived
      let (result, receiver) := receiver.datagramLocalInHook answers packet
      if result = .ACCEPT then
        receiver.reassembleAndDeliverFinish upperProtocols packetToUpperLayer
      else receiver

/-- The timer expires. -/
def handleEndUpperTxPeriod : Receiver D :=
  let receiver := { receiver with endUpperTxTimer := false }
  match receiver.queueToUpperLayer with
  | [] => receiver
  | packetToUpperLayer :: rest =>
    let receiver := { receiver with
      queueToUpperLayer := rest
      left := receiver.left ++ [packetToUpperLayer] }
    receiver.reassembleAndDeliverFinish upperProtocols packetToUpperLayer

end Receiver

variable {D : Type}

/-- The states that are reached when arrivals are allowed while the channel is busy or idle. -/
inductive Reached (upperProtocols : D → Bool) (Allowed : Bool → Prop) : Receiver D → Prop
  | start : Reached upperProtocols Allowed {}
  | arrive {receiver : Receiver D} (isBusy : Bool) (answers : List Result) (packet : D)
      (reached : Reached upperProtocols Allowed receiver) (allowed : Allowed isBusy)
      (new : packet ∉ receiver.arrived) :
      Reached upperProtocols Allowed
        (receiver.reassembleAndDeliver upperProtocols isBusy answers packet)
  | endUpperTx {receiver : Receiver D} (reached : Reached upperProtocols Allowed receiver)
      (scheduled : receiver.endUpperTxTimer = true) :
      Reached upperProtocols Allowed (receiver.handleEndUpperTxPeriod upperProtocols)

/-- Whatever is delivered was accepted, in the one time that the hooks were asked about it. -/
structure Filters [DecidableEq D] (receiver : Receiver D) : Prop where
  accepted : ∀ packet ∈ receiver.delivered,
    receiver.submitted.filter (·.1 = packet) = [(packet, .ACCEPT)]
  ordered : receiver.left ++ receiver.queueToUpperLayer = receiver.arrived
  dropped : ∀ packet, (packet, .DROP) ∈ receiver.submitted → packet ∉ receiver.delivered
  kept : ∀ packet ∈ receiver.left, packet ∈ receiver.delivered ∨
    ∃ result ≠ .ACCEPT, (packet, result) ∈ receiver.submitted

/-- What holds as long as no datagram arrives while the channel is busy. -/
structure Idle [DecidableEq D] (receiver : Receiver D) : Prop where
  filters : Filters receiver
  empty : receiver.queueToUpperLayer = []
  only : ∀ entry ∈ receiver.submitted, entry.1 ∈ receiver.arrived

variable [DecidableEq D] {upperProtocols : D → Bool}

variable {receiver : Receiver D}

omit [DecidableEq D] in
/-- While the channel is idle and the queue is empty, the datagram that arrives is popped. -/
theorem Receiver.reassembleAndDeliver_empty (upperProtocols : D → Bool)
    (answers : List Result) (packet : D) (empty : receiver.queueToUpperLayer = []) :
    let after := receiver.reassembleAndDeliver upperProtocols false answers packet
    after.arrived = receiver.arrived ++ [packet] ∧ after.queueToUpperLayer = [] ∧
      after.left = receiver.left ++ [packet] ∧
      after.submitted = receiver.submitted ++ [(packet, verdict answers)] ∧
      after.delivered =
        receiver.delivered ++ if verdict answers = .ACCEPT then [packet] else [] := by
  intro after
  simp only [after, reassembleAndDeliver, empty, List.nil_append, datagramLocalInHook,
    Bool.false_eq_true, if_false]
  by_cases accept : verdict answers = .ACCEPT
  · simp [accept, reassembleAndDeliverFinish]
  · simp [accept]

/-- A datagram that arrives while the channel is idle is the one that the hooks are asked about. -/
theorem Idle.arrive (idle : Idle receiver) (answers : List Result)
    {packet : D} (new : packet ∉ receiver.arrived) :
    Idle (receiver.reassembleAndDeliver upperProtocols false answers packet) := by
  obtain ⟨⟨accepted, ordered, dropped, kept⟩, empty, only⟩ := idle
  obtain ⟨arrived_eq, queue_eq, left_eq, submitted_eq, delivered_eq⟩ :=
    Receiver.reassembleAndDeliver_empty upperProtocols answers packet empty
  rw [empty, List.append_nil] at ordered
  have unasked : ∀ entry ∈ receiver.submitted, entry.1 ≠ packet := by
    intro entry member same
    exact new (same ▸ only entry member)
  -- whatever was delivered before was asked about before
  have undelivered : packet ∉ receiver.delivered := by
    intro member
    have asked : (packet, Result.ACCEPT) ∈ receiver.submitted.filter (·.1 = packet) := by
      rw [accepted packet member]
      exact List.mem_singleton_self _
    exact unasked _ (List.mem_filter.mp asked).1 rfl
  refine ⟨⟨?_, ?_, ?_, ?_⟩, queue_eq, ?_⟩
  · intro other member
    rw [submitted_eq, List.filter_append]
    rw [delivered_eq] at member
    rcases List.mem_append.mp member with before | now
    · have different : packet ≠ other := fun same => undelivered (same ▸ before)
      rw [accepted other before, List.filter_eq_nil_iff.mpr (by simpa using different),
        List.append_nil]
    · split at now
      next accept =>
        obtain rfl := List.mem_singleton.mp now
        have none_before : receiver.submitted.filter (·.1 = other) = [] :=
          List.filter_eq_nil_iff.mpr fun entry member => by simpa using unasked entry member
        rw [none_before, accept]
        simp
      next => cases now
  · rw [left_eq, queue_eq, arrived_eq, List.append_nil, ordered]
  · intro other dropped_other member
    rw [submitted_eq] at dropped_other
    rw [delivered_eq] at member
    rcases List.mem_append.mp member with before | now
    · rcases List.mem_append.mp dropped_other with asked | asked
      · exact dropped other asked before
      · obtain ⟨rfl, _⟩ := Prod.mk.inj (List.mem_singleton.mp asked)
        exact undelivered before
    · split at now
      next accept =>
        obtain rfl := List.mem_singleton.mp now
        rcases List.mem_append.mp dropped_other with asked | asked
        · exact unasked _ asked rfl
        · have := (Prod.mk.inj (List.mem_singleton.mp asked)).2
          rw [accept] at this
          cases this
      next => cases now
  · intro other member
    rw [left_eq] at member
    rw [delivered_eq, submitted_eq]
    rcases List.mem_append.mp member with before | now
    · rcases kept other before with delivered | ⟨result, refused, asked⟩
      · exact .inl (List.mem_append_left _ delivered)
      · exact .inr ⟨result, refused, List.mem_append_left _ asked⟩
    · obtain rfl := List.mem_singleton.mp now
      by_cases accept : verdict answers = .ACCEPT
      · exact .inl (List.mem_append_right _ (by rw [if_pos accept]; exact List.mem_singleton_self _))
      · exact .inr ⟨_, accept, List.mem_append_right _ (List.mem_singleton_self _)⟩
  · intro entry member
    rw [submitted_eq] at member
    rw [arrived_eq]
    rcases List.mem_append.mp member with before | now
    · exact List.mem_append_left _ (only entry before)
    · obtain rfl := List.mem_singleton.mp now
      exact List.mem_append_right _ (List.mem_singleton_self _)

/-- Nothing is popped from an empty queue when the timer expires. -/
theorem Idle.endUpperTx (idle : Idle receiver) :
    Idle (receiver.handleEndUpperTxPeriod upperProtocols) := by
  obtain ⟨filters, empty, only⟩ := idle
  have same : receiver.handleEndUpperTxPeriod upperProtocols =
      { receiver with endUpperTxTimer := false } := by
    simp only [Receiver.handleEndUpperTxPeriod, empty]
  rw [same]
  exact ⟨⟨filters.accepted, filters.ordered, filters.dropped, filters.kept⟩, empty, only⟩

/-- As long as no datagram arrives while the channel is busy, whatever is delivered was accepted,
and nothing else is lost. -/
theorem reached_filters (upperProtocols : D → Bool) (receiver : Receiver D)
    (reached : Reached upperProtocols (· = false) receiver) : Filters receiver := by
  suffices idle : Idle receiver from idle.filters
  induction reached with
  | start => exact ⟨⟨by simp, rfl, by simp, by simp⟩, rfl, by simp⟩
  | arrive isBusy answers packet reached allowed new ih =>
    obtain rfl := allowed
    exact ih.arrive answers new
  | endUpperTx reached scheduled ih => exact ih.endUpperTx

/-- Two datagrams, of which the second one is refused. -/
theorem reached_filters_refused : ∃ receiver : Receiver Nat, receiver.delivered = [1] ∧
    receiver.submitted = [(1, .ACCEPT), (2, .DROP)] ∧ Filters receiver :=
  ⟨_, rfl, rfl, reached_filters (fun _ => true) _ (.arrive false [.ACCEPT, .DROP] 2
    (.endUpperTx (.arrive false [.ACCEPT] 1 .start rfl (by simp)) rfl) rfl (by decide))⟩

/-- A datagram that waited in the queue is delivered without asking the hooks. -/
theorem reached_unfiltered : ¬ ∀ (upperProtocols : Nat → Bool) (receiver : Receiver Nat),
    Reached upperProtocols (fun _ => True) receiver → Filters receiver := by
  intro all
  have filters := all (fun _ => true) _ (.endUpperTx (.arrive true [] 2
    (.arrive false [.ACCEPT] 1 .start trivial (by simp)) trivial (by decide)) rfl)
  exact absurd (filters.accepted 2 (by decide)) (by decide)

end Inet.Ipv4.LocalIn
