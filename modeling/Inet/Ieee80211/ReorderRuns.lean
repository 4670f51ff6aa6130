import Inet.Ieee80211.ReorderRequest

/-!
# Runs of block ack reordering

MSDUs are passed up in ascending order, once and complete, as long as requests keep the window where
the buffered fragments are.
-/
namespace Inet.Ieee80211

open Lib OrderedMap SequenceNumber BlockAckReordering

variable {P : Type}

inductive ReorderCall (P : Type) where
  | processReceivedQoSFrame (frame : DataFrame P)
  | processReceivedBlockAckReq (blockAckReq : BlockAckReq)

def ReorderCall.apply (recipient : Recipient P) :
    ReorderCall P → Except ReorderError (Recipient P × ReorderBuffer P)
  | .processReceivedQoSFrame frame => BlockAckReordering.processReceivedQoSFrame recipient frame
  | .processReceivedBlockAckReq blockAckReq =>
    BlockAckReordering.processReceivedBlockAckReq recipient blockAckReq

/-- A recipient with the number of the MSDU that it expects next, the frames that were received, the
MSDU of the latest frame with a sequence and a fragment number, and the MSDUs that were passed up. A
sequence number is that of the MSDU that is in reach. -/
structure ReorderRun (P : Type) where
  recipient : Recipient P
  next : Int
  received : Set (Int × DataFrame P)
  latest : SequenceNumber × Nat → Int
  delivered : Held P

namespace ReorderRun

variable (run : ReorderRun P)

def receiveBuffer : ReceiveBuffer P := createReceiveBufferIfNecessary run.recipient

/-- The agreement starts with an MSDU. -/
def start (initial : Int) (bufferSize : Nat) : ReorderRun P :=
  ⟨⟨⟨seqOf initial, bufferSize, []⟩, none⟩, initial, ∅, fun _ => initial, []⟩

def latestAfter : ReorderCall P → SequenceNumber × Nat → Int
  | .processReceivedQoSFrame frame =>
    Function.update run.latest (frame.sequenceNumber, frame.fragmentNumber)
      (nearest run.next frame.sequenceNumber)
  | .processReceivedBlockAckReq _ => run.latest

def after (call : ReorderCall P) (recipient : Recipient P) (passed : ReorderBuffer P) :
    ReorderRun P where
  recipient := recipient
  next := nearest run.next (createReceiveBufferIfNecessary recipient).nextExpectedSequenceNumber
  received := {r | r ∈ run.received ∨ call = .processReceivedQoSFrame r.2 ∧
    r.1 = nearest run.next r.2.sequenceNumber}
  latest := run.latestAfter call
  delivered := run.delivered ++ passed.map fun entry => (nearest run.next entry.1, entry.2)

end ReorderRun

/-- Runs of calls that are allowed. -/
inductive ReorderReached (allowed : ReorderRun P → ReorderCall P → Prop) (initial : Int)
    (bufferSize : Nat) : ReorderRun P → Prop where
  | init : ReorderReached allowed initial bufferSize (.start initial bufferSize)
  | step {run recipient passed} (earlier : ReorderReached allowed initial bufferSize run)
      (call : ReorderCall P) (may : allowed run call)
      (returned : call.apply run.recipient = .ok (recipient, passed)) :
      ReorderReached allowed initial bufferSize (run.after call recipient passed)

/-- The frame is a fragment of an MSDU with a number of fragments. -/
def FragmentOf (numFragments : Nat) (frame : DataFrame P) : Prop :=
  frame.fragmentNumber < numFragments ∧
    (frame.moreFragments = true ↔ frame.fragmentNumber + 1 < numFragments)

/-- Frames are those of the sender's MSDUs, and requests are basic ones. -/
def ReorderCall.Legal (numFragments : Int → Nat) (run : ReorderRun P) : ReorderCall P → Prop
  | .processReceivedQoSFrame frame =>
    FragmentOf (numFragments (nearest run.next frame.sequenceNumber)) frame
  | .processReceivedBlockAckReq blockAckReq => blockAckReq ≠ .other

/-- Which calls keep the order: the record can be searched for a frame that goes into it, and requests
keep the window. -/
def ReorderCall.Keeps (run : ReorderRun P) : ReorderCall P → Prop
  | .processReceivedQoSFrame frame => frame.ackPolicy = .blockAck →
    Searchable pairLess run.recipient.agreement.blockAckRecord
      (frame.sequenceNumber, frame.fragmentNumber)
  | .processReceivedBlockAckReq (.basic start) => KeepsWindow run.receiveBuffer run.next start
  | .processReceivedBlockAckReq .other => True

/-- The MSDU has all its fragments, each of them once. -/
structure Whole (numFragments : Int → Nat) (received : Set (Int × DataFrame P))
    (e : Int × Fragments P) : Prop where
  all : ∀ f < numFragments e.1, ∃ g ∈ e.2, g.fragmentNumber = f
  once : (e.2.map fun g => g.fragmentNumber).Nodup
  received : ∀ g ∈ e.2, (e.1, g) ∈ received ∧ g.fragmentNumber < numFragments e.1

variable {numFragments : Int → Nat} {fragments : Fragments P}

theorem largest_eq (fragments : Fragments P) (largest : Int) :
    fragments.foldl (fun largest fragment =>
        if fragment.moreFragments then largest else (fragment.fragmentNumber : Int)) largest =
      largest ∨ ∃ g ∈ fragments, g.moreFragments = false ∧
        fragments.foldl (fun largest fragment =>
          if fragment.moreFragments then largest else (fragment.fragmentNumber : Int)) largest =
            g.fragmentNumber := by
  induction fragments generalizing largest with
  | nil => exact .inl rfl
  | cons g rest ih =>
    rw [List.foldl_cons]
    cases more : g.moreFragments with
    | true =>
      rcases ih largest with same | ⟨h, member, last⟩
      · exact .inl same
      · exact .inr ⟨h, .tail _ member, last⟩
    | false =>
      rcases ih g.fragmentNumber with same | ⟨h, member, last⟩
      · exact .inr ⟨g, List.mem_cons_self, more, same⟩
      · exact .inr ⟨h, .tail _ member, last⟩

/-- A complete MSDU has all its fragments. -/
theorem all_of_complete {number : Nat} (frames : ∀ g ∈ fragments, FragmentOf number g)
    (once : (fragments.map fun g => g.fragmentNumber).Nodup)
    (complete : isComplete fragments = true) :
    ∀ f < number, ∃ g ∈ fragments, g.fragmentNumber = f := by
  simp only [isComplete, once.dedup, Bool.and_eq_true, bne_iff_ne, ne_eq, beq_iff_eq,
    List.length_map] at complete
  obtain ⟨found, count⟩ := complete
  rcases largest_eq fragments (-1) with none | ⟨last, member, more, largest⟩
  · exact absurd none found
  · obtain ⟨inside, follows⟩ := frames last member
    rw [more] at follows
    rw [largest] at count
    have length : fragments.length = number := by
      have : ¬ last.fragmentNumber + 1 < number := fun less => nomatch follows.mpr less
      omega
    -- as many different fragment numbers as there are below the number of fragments
    have sub : (fragments.map fun g => g.fragmentNumber) ⊆ List.range number := by
      intro f member
      obtain ⟨g, inFragments, rfl⟩ := List.mem_map.mp member
      exact List.mem_range.mpr (frames g inFragments).1
    have perm := (once.subperm sub).perm_of_length_le (by simp [length])
    intro f below
    obtain ⟨g, inFragments, same⟩ := List.mem_map.mp (perm.mem_iff.mpr (List.mem_range.mpr below))
    exact ⟨g, inFragments, same⟩

/-- What is buffered and what was passed up. -/
structure Ordered (numFragments : Int → Nat) (bufferSize : Nat) (run : ReorderRun P)
    (held : Held P) : Prop where
  follows : Follows run.receiveBuffer run.next held
  size : run.receiveBuffer.bufferSize = bufferSize
  received : ∀ e ∈ held, ∀ g ∈ e.2, (e.1, g) ∈ run.received
  frames : ∀ r ∈ run.received, FragmentOf (numFragments r.1) r.2
  sorted : Sorted run.delivered
  below : ∀ e ∈ run.delivered, e.1 < run.next
  whole : ∀ e ∈ run.delivered, Whole numFragments run.received e

variable {run : ReorderRun P} {held held' passing : Held P} {bufferSize : Nat} {n' : Int}
  {next : ReceiveBuffer P} {recipient : Recipient P} {received : Set (Int × DataFrame P)}

theorem Whole.mono {e : Int × Fragments P} (whole : Whole numFragments received e)
    {more : Set (Int × DataFrame P)} (sub : received ⊆ more) : Whole numFragments more e :=
  ⟨whole.all, whole.once, fun g member =>
    have old := whole.received g member
    ⟨sub old.1, old.2⟩⟩

/-- MSDUs of a buffer are passed up behind those that were passed up before. -/
theorem Ordered.after (ordered : Ordered numFragments bufferSize run held) {call : ReorderCall P}
    {buffer : ReceiveBuffer P} {inserted : Held P} (legal : call.Legal numFragments run)
    (follows : Follows buffer run.next inserted) (insertedReceived : ∀ e ∈ inserted, ∀ g ∈ e.2,
      (e.1, g) ∈ (run.after call recipient (keyed seqOf passing)).received)
    (left : createReceiveBufferIfNecessary recipient = next)
    (nextFollows : Follows next n' held') (size : next.bufferSize = bufferSize)
    (moves : Moves run.next inserted passing n' held') (near : n' < run.next + 2048) :
    Ordered numFragments bufferSize (run.after call recipient (keyed seqOf passing)) held' := by
  subst left
  have nextNumber : (run.after call recipient (keyed seqOf passing)).next = n' := by
    have forward := moves.forward
    have reach : InReach run.next n' := ⟨near, by omega⟩
    simp only [ReorderRun.after, nextFollows.nextExpected]
    exact nearest_seqOf reach
  have numbers : (keyed seqOf passing).map (fun entry => (nearest run.next entry.1, entry.2)) =
      passing := by
    rw [keyed, List.map_map]
    refine (List.map_congr_left fun e member => ?_).trans (List.map_id passing)
    simp only [Function.comp_apply, follows.nearest_eq (moves.complete e member).1, id_eq]
  have frames : ∀ r ∈ (run.after call recipient (keyed seqOf passing)).received,
      FragmentOf (numFragments r.1) r.2 := by
    rintro ⟨i, g⟩ (old | ⟨received, number⟩)
    · exact ordered.frames _ old
    · subst received
      simp only at number
      rw [number]
      exact legal
  have forward := moves.forward
  have nextWindow : Follows (createReceiveBufferIfNecessary recipient)
      (run.after call recipient (keyed seqOf passing)).next held' := by
    rw [nextNumber]
    exact nextFollows
  refine ⟨nextWindow, size, fun e member => insertedReceived e (moves.kept e member),
    frames, ?_, ?_, ?_⟩
  · -- what is buffered is not below the window, and what was passed up before is
    simp only [ReorderRun.after, numbers]
    refine List.pairwise_append.mpr ⟨ordered.sorted, moves.sorted, fun e old f new => ?_⟩
    have := ordered.below e old
    have := (follows.inside f (moves.complete f new).1).1
    omega
  · rw [nextNumber]
    simp only [ReorderRun.after, numbers]
    intro e member
    rcases List.mem_append.mp member with old | new
    · have := ordered.below e old
      omega
    · exact moves.below e new
  · simp only [ReorderRun.after, numbers]
    intro e member
    rcases List.mem_append.mp member with old | new
    · exact (ordered.whole e old).mono fun r known => .inl known
    · obtain ⟨inInserted, complete⟩ := moves.complete e new
      have once := (follows.fragments e inInserted).2.2
      have known (g : DataFrame P) (inFragments : g ∈ e.2) :=
        insertedReceived e inInserted g inFragments
      have fragment (g : DataFrame P) (inFragments : g ∈ e.2) := frames _ (known g inFragments)
      exact ⟨all_of_complete fragment once complete, once, fun g inFragments =>
        ⟨known g inFragments, (fragment g inFragments).1⟩⟩

/-- Frames that are received keep the order. -/
theorem Ordered.frame (ordered : Ordered numFragments bufferSize run held) {frame : DataFrame P}
    (legal : (ReorderCall.processReceivedQoSFrame frame).Legal numFragments run)
    (keeps : (ReorderCall.processReceivedQoSFrame frame).Keeps run) :
    ∃ recipient passed held', processReceivedQoSFrame run.recipient frame = .ok (recipient, passed) ∧
      Ordered numFragments bufferSize
        (run.after (.processReceivedQoSFrame frame) recipient passed) held' := by
  have numbered : frame.sequenceNumber = seqOf (nearest run.next frame.sequenceNumber) :=
    (seqOf_nearest _ _).symm
  have small := ordered.follows.small
  have size := ordered.size
  rw [processReceivedQoSFrame]
  rcases ordered.follows.insertFrame_ok (nearest_inReach run.next frame.sequenceNumber) numbered with
    refused | ⟨buffer, inserted, bufferSame, low, follows⟩
  · rw [ReorderRun.receiveBuffer] at refused
    refine ⟨⟨run.recipient.agreement, some run.receiveBuffer⟩, keyed seqOf [], held, ?_, ?_⟩
    · rw [refused]
      rfl
    · exact ordered.after legal ordered.follows
        (fun e member g inFragments => .inl (ordered.received e member g inFragments))
        rfl ordered.follows size .refl (by omega)
  · rw [ReorderRun.receiveBuffer] at inserted
    obtain ⟨agreement, recorded⟩ : ∃ agreement,
        recordFrame run.recipient.agreement frame = .ok agreement := by
      rw [recordFrame]
      split
      next policy =>
        obtain ⟨record, altered⟩ := alter_returns _ ReorderError.unordered (keeps policy) fun _ => true
        rw [BlockAckRecord.blockAckPolicyFrameReceived, altered]
        exact ⟨_, rfl⟩
      next => exact ⟨_, rfl⟩
    obtain ⟨released, next, passing, n', held', passedUp, nextSize, nextFollows, moves, near⟩ :=
      follows.passUpEarliest_ok agreement
    refine ⟨⟨released, some next⟩, keyed seqOf passing, held', ?_, ?_⟩
    · rw [inserted]
      simp only [ok_bind, if_true, recorded]
      exact passedUp
    · refine ordered.after legal follows (fun e member g inFragments => ?_) rfl
        nextFollows (nextSize.trans (bufferSame.trans size)) moves (by omega)
      rcases (mem_alterAt ordered.follows.sorted).mp member with ⟨_, old⟩ | rfl
      · exact .inl (ordered.received e old g inFragments)
      · rcases List.mem_append.mp inFragments with old | new
        · obtain ⟨fragments, inHeld, inOld⟩ := ordered.follows.mem_getD old
          exact .inl (ordered.received _ inHeld g inOld)
        · rw [List.mem_singleton.mp new]
          exact .inr ⟨rfl, rfl⟩

/-- Requests that keep the window keep the order. -/
theorem Ordered.request (ordered : Ordered numFragments bufferSize run held)
    {blockAckReq : BlockAckReq}
    (legal : (ReorderCall.processReceivedBlockAckReq (P := P) blockAckReq).Legal numFragments run)
    (keeps : (ReorderCall.processReceivedBlockAckReq blockAckReq).Keeps run) :
    ∃ recipient passed held',
      processReceivedBlockAckReq run.recipient blockAckReq = .ok (recipient, passed) ∧
        Ordered numFragments bufferSize
          (run.after (.processReceivedBlockAckReq blockAckReq) recipient passed) held' := by
  cases blockAckReq with
  | other => exact absurd rfl legal
  | basic start =>
    obtain ⟨⟨agreement, buffer⟩, n, received, latest, delivered⟩ := run
    cases buffer with
    | none =>
      refine ⟨⟨agreement, none⟩, keyed seqOf [], held, rfl, ?_⟩
      exact ordered.after legal ordered.follows
        (fun e member g inFragments => .inl (ordered.received e member g inFragments))
        rfl ordered.follows ordered.size .refl (by omega)
    | some buffer =>
      obtain ⟨released, next, passing, n', held', returned, size, nextFollows, moves, near⟩ :=
        ordered.follows.request_ok agreement keeps
      refine ⟨⟨released, some next⟩, keyed seqOf passing, held', returned, ?_⟩
      exact ordered.after legal ordered.follows
        (fun e member g inFragments => .inl (ordered.received e member g inFragments))
        rfl nextFollows (size.trans ordered.size) moves near

theorem Ordered.apply (ordered : Ordered numFragments bufferSize run held) {call : ReorderCall P}
    (legal : call.Legal numFragments run) (keeps : call.Keeps run) :
    ∃ recipient passed held', call.apply run.recipient = .ok (recipient, passed) ∧
      Ordered numFragments bufferSize (run.after call recipient passed) held' := by
  cases call with
  | processReceivedQoSFrame frame => exact ordered.frame legal keeps
  | processReceivedBlockAckReq blockAckReq => exact ordered.request legal keeps

variable {initial : Int}

/-- Runs of legal calls that keep the order. -/
abbrev OrderedRun (numFragments : Int → Nat) (initial : Int) (bufferSize : Nat) :
    ReorderRun P → Prop :=
  ReorderReached (fun run call => call.Legal numFragments run ∧ call.Keeps run) initial bufferSize

theorem OrderedRun.ordered (small : bufferSize < 2048)
    (reached : OrderedRun numFragments initial bufferSize run) :
    ∃ held, Ordered numFragments bufferSize run held := by
  induction reached with
  | init =>
    exact ⟨[], ⟨rfl, .nil, nofun, rfl, rfl, Nat.zero_le _, small, nofun⟩, rfl, nofun, nofun, .nil,
      nofun, nofun⟩
  | step earlier call may returned ih =>
    obtain ⟨held, ordered⟩ := ih
    obtain ⟨recipient, passed, held', applied, ordered⟩ := ordered.apply may.1 may.2
    rw [applied] at returned
    cases returned
    exact ⟨held', ordered⟩

/-- A fragment with a sequence number, of an MSDU with two fragments. -/
def fragmentOf (sequenceNumber : SequenceNumber) (fragmentNumber : Nat) : DataFrame Unit :=
  ⟨sequenceNumber, fragmentNumber, decide (fragmentNumber = 0), .blockAck, ()⟩

/-- A request moves the window past a fragment that is buffered. -/
def movedPast : Except ReorderError (Recipient Unit × ReorderBuffer Unit) := do
  let (recipient, _) ← processReceivedQoSFrame ⟨⟨0, 8, []⟩, none⟩ (fragmentOf 0 0)
  processReceivedBlockAckReq recipient (.basic 5)

end Inet.Ieee80211
