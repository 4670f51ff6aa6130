import Inet.Ieee80211.ReorderRuns

/-!
# What a block ack acknowledges

A block ack acknowledges frames that were received or released. This fails where the record is empty
or starts behind frames that were lost.
-/
namespace Inet.Ieee80211

open Lib OrderedMap SequenceNumber BlockAckReordering

variable {P : Type} {run : ReorderRun P} {call : ReorderCall P} {recipient : Recipient P}
  {passed : ReorderBuffer P} {agreement released : RecipientBlockAckAgreement}
  {receiveBuffer next : ReceiveBuffer P} {start : SequenceNumber}
variable {s : SequenceNumber}

namespace ReorderRun

variable (run : ReorderRun P)

def record : BlockAckRecord := run.recipient.agreement.blockAckRecord

/-- The sequence number precedes the window. -/
def Precedes (s : SequenceNumber) : Prop :=
  less s run.receiveBuffer.nextExpectedSequenceNumber = true

/-- The fragment of the MSDU with the sequence number was received. -/
def Received (s : SequenceNumber) (fragmentNumber : Nat) : Prop :=
  ∃ g, (nearest run.next s, g) ∈ run.received ∧ g.fragmentNumber = fragmentNumber

/-- The record can be searched, and what it holds is close to what is not released. -/
structure Readable (start : SequenceNumber) : Prop where
  searchable : ∀ n < 64, ∀ f < 16, Searchable pairLess run.record (start + BitVec.ofNat 12 n, f)
  near : ∀ n < 64, ¬ run.Precedes (start + BitVec.ofNat 12 n) → ∀ entry ∈ run.record,
    nearest run.next (start + BitVec.ofNat 12 n) < run.latest entry.1 + 2048 ∧
      run.latest entry.1 < nearest run.next (start + BitVec.ofNat 12 n) + 2048

/-- What was neither released nor received is not before the first number of the record. -/
def Covers (start : SequenceNumber) : Prop :=
  ∀ n < 64, ∀ f < 16, run.Precedes (start + BitVec.ofNat 12 n) ∨
    run.Received (start + BitVec.ofNat 12 n) f ∨
      ∃ earliest ∈ run.record.head?, less (start + BitVec.ofNat 12 n) earliest.1.1 = false

/-- The bits that are set are those of frames that were released or received. -/
def Honest (start : SequenceNumber) (bitmap : List (List Bool)) : Prop :=
  ∀ n < 64, ∀ f < 16, (bitmap[n]?.bind fun row => row[f]?) = some true →
    run.Precedes (start + BitVec.ofNat 12 n) ∨ run.Received (start + BitVec.ofNat 12 n) f

/-- What is recorded was received. -/
def Recorded : Prop :=
  ∀ entry ∈ run.record, seqOf (run.latest entry.1) = entry.1.1 ∧
    ∃ g, (run.latest entry.1, g) ∈ run.received ∧ g.fragmentNumber = entry.1.2

end ReorderRun

/-! ### The record only grows by frames that are received -/

theorem passedUp_record (returned : passedUp agreement receiveBuffer s = .ok (released, next)) :
    ∀ entry ∈ released.blockAckRecord, entry ∈ agreement.blockAckRecord := by
  obtain ⟨_, _, ⟨⟩⟩ := bind_eq_ok.mp returned
  exact fun entry member => (List.mem_filter.mp member).1

theorem passUpEarliest_record
    (returned : passUpEarliest agreement receiveBuffer = .ok (recipient, passed)) :
    ∀ entry ∈ recipient.agreement.blockAckRecord, entry ∈ agreement.blockAckRecord := by
  obtain ⟨earliest, _, returned⟩ := bind_eq_ok.mp returned
  cases earliest with
  | nil =>
    cases returned
    exact fun _ => id
  | cons fragment rest =>
    obtain ⟨full, _, returned⟩ := bind_eq_ok.mp returned
    split at returned
    · obtain ⟨⟨released, next⟩, passedUp, ⟨⟩⟩ := bind_eq_ok.mp returned
      exact passedUp_record passedUp
    · cases returned
      exact fun _ => id

theorem release_record {reorderBuffer : ReorderBuffer P}
    (returned : releaseReceiveBuffer agreement receiveBuffer reorderBuffer = .ok (released, next)) :
    ∀ entry ∈ released.blockAckRecord, entry ∈ agreement.blockAckRecord := by
  refine foldlM_invariant (fun state : RecipientBlockAckAgreement × ReceiveBuffer P =>
    ∀ entry ∈ state.1.blockAckRecord, entry ∈ agreement.blockAckRecord) reorderBuffer ?_ _
    (fun _ => id) _ returned
  rintro ⟨before, buffer⟩ entry _ holds ⟨after, _⟩ passedUp e member
  exact holds e (passedUp_record passedUp e member)

theorem request_record {blockAckReq : BlockAckReq} {before : Recipient P}
    (returned : processReceivedBlockAckReq before blockAckReq = .ok (recipient, passed)) :
    ∀ entry ∈ recipient.agreement.blockAckRecord, entry ∈ before.agreement.blockAckRecord := by
  cases blockAckReq with
  | other => cases returned
  | basic start =>
    obtain ⟨agreement, buffer⟩ := before
    cases buffer with
    | none =>
      cases returned
      exact fun _ => id
    | some buffer =>
      obtain ⟨preceding, _, returned⟩ := bind_eq_ok.mp returned
      obtain ⟨following, _, returned⟩ := bind_eq_ok.mp returned
      obtain ⟨⟨middle, _⟩, first, returned⟩ := bind_eq_ok.mp returned
      obtain ⟨⟨last, _⟩, second, returned⟩ := bind_eq_ok.mp returned
      obtain ⟨_, _, ⟨⟩⟩ := bind_eq_ok.mp returned
      exact fun entry member => release_record first entry (release_record second entry member)

theorem frame_record {frame : DataFrame P} {before : Recipient P}
    (returned : processReceivedQoSFrame before frame = .ok (recipient, passed)) :
    ∀ entry ∈ recipient.agreement.blockAckRecord,
      entry.1 = (frame.sequenceNumber, frame.fragmentNumber) ∨
        ∃ old ∈ before.agreement.blockAckRecord, old.1 = entry.1 := by
  obtain ⟨⟨buffer, inserted⟩, _, returned⟩ := bind_eq_ok.mp returned
  cases inserted with
  | false =>
    cases returned
    exact fun entry member => .inr ⟨entry, member, rfl⟩
  | true =>
    obtain ⟨agreement, recorded, returned⟩ := bind_eq_ok.mp returned
    have passes := passUpEarliest_record returned
    rw [recordFrame] at recorded
    split at recorded
    · obtain ⟨record, altered, ⟨⟩⟩ := bind_eq_ok.mp recorded
      exact fun entry member => of_alter _ _ altered entry (passes entry member)
    · cases recorded
      exact fun entry member => .inr ⟨entry, passes entry member, rfl⟩

theorem ReorderRun.Recorded.step (recorded : run.Recorded)
    (returned : call.apply run.recipient = .ok (recipient, passed)) :
    (run.after call recipient passed).Recorded := by
  cases call with
  | processReceivedBlockAckReq blockAckReq =>
    intro entry member
    obtain ⟨number, g, received, fragment⟩ :=
      recorded entry (request_record returned entry member)
    exact ⟨number, g, .inl received, fragment⟩
  | processReceivedQoSFrame frame =>
    intro entry member
    simp only [ReorderRun.after, ReorderRun.latestAfter]
    by_cases same : entry.1 = (frame.sequenceNumber, frame.fragmentNumber)
    · rw [same, Function.update_self]
      exact ⟨seqOf_nearest _ _, frame, .inr ⟨rfl, rfl⟩, rfl⟩
    · rw [Function.update_of_ne same]
      rcases frame_record returned entry member with new | ⟨old, inRecord, oldSame⟩
      · exact absurd new same
      · obtain ⟨number, g, received, fragment⟩ := recorded old inRecord
        rw [oldSame] at number received fragment
        exact ⟨number, g, .inl received, fragment⟩

variable {allowed : ReorderRun P → ReorderCall P → Prop} {initial : Int} {bufferSize : Nat}

theorem ReorderReached.recorded (reached : ReorderReached allowed initial bufferSize run) :
    run.Recorded := by
  induction reached with
  | init => exact nofun
  | step earlier call may returned ih => exact ih.step returned

/-! ### Bits -/

theorem getAckState_returns {record : BlockAckRecord} {f : Nat}
    (searchable : Searchable pairLess record (s, f)) : ∃ bit, record.getAckState s f = .ok bit := by
  obtain ⟨found, returned⟩ := find_returns _ ReorderError.unordered searchable
  cases found with
  | some _ => exact ⟨true, bind_eq_ok.mpr ⟨_, returned, rfl⟩⟩
  | none =>
    cases record with
    | nil => exact ⟨true, bind_eq_ok.mpr ⟨_, returned, rfl⟩⟩
    | cons earliest rest => exact ⟨_, bind_eq_ok.mpr ⟨_, returned, rfl⟩⟩

/-- A bit is set for what the record holds, and for what it does not cover. -/
theorem of_getAckState {record : BlockAckRecord} {f : Nat}
    (returned : record.getAckState s f = .ok true) :
    (∃ entry ∈ record, pairLess entry.1 (s, f) = false ∧ pairLess (s, f) entry.1 = false) ∨
      ∀ earliest ∈ record.head?, less s earliest.1.1 = true := by
  obtain ⟨found, search, returned⟩ := bind_eq_ok.mp returned
  cases found with
  | some _ => exact .inl (of_find _ _ search)
  | none =>
    cases record with
    | nil => exact .inr nofun
    | cons earliest rest =>
      refine .inr fun entry first => ?_
      cases first
      exact Except.ok.inj returned

theorem getAckState_false {record : BlockAckRecord} {f : Nat}
    (returned : record.getAckState s f = .ok false) :
    ∃ earliest ∈ record.head?, less s earliest.1.1 = false := by
  obtain ⟨found, search, returned⟩ := bind_eq_ok.mp returned
  cases found with
  | some _ => cases returned
  | none =>
    cases record with
    | nil => cases returned
    | cons earliest rest =>
      exact ⟨earliest, rfl, Except.ok.inj returned⟩

/-- An entry that does not differ from a close number is that of the number. -/
theorem same_of_pairLess {i j : Int} {f g : Nat} (below : i < j + 2048) (above : j < i + 2048)
    (before : pairLess (seqOf j, g) (seqOf i, f) = false)
    (after : pairLess (seqOf i, f) (seqOf j, g) = false) : j = i ∧ g = f := by
  simp only [pairLess, less_seqOf below above, less_seqOf above below, Bool.or_eq_false_iff,
    Bool.and_eq_false_iff, Bool.not_eq_false', decide_eq_false_iff_not, decide_eq_true_eq]
    at before after
  omega

/-- If what is recorded is close to what is asked for, the bitmap is honest if and only if the record
is not empty and does not start behind what was neither released nor received. -/
theorem blockAck_honest (reached : ReorderReached allowed initial bufferSize run)
    (start : SequenceNumber) (readable : run.Readable start) :
    ∃ bitmap, RecipientBlockAckProcedure.buildBlockAck run.recipient.agreement start = .ok bitmap ∧
      (run.Honest start bitmap ↔ run.Covers start) := by
  obtain ⟨searchable, near⟩ := readable
  have recorded := reached.recorded
  obtain ⟨bitmap, built⟩ : ∃ bitmap,
      RecipientBlockAckProcedure.buildBlockAck run.recipient.agreement start = .ok bitmap := by
    refine mapM_returns fun n inRange => mapM_returns fun f alsoInRange => ?_
    exact getAckState_returns
      (searchable n (List.mem_range.mp inRange) f (List.mem_range.mp alsoInRange))
  have bits (n : Nat) (nBelow : n < 64) (f : Nat) (fBelow : f < 16) :
      ∃ bit, (bitmap[n]?.bind fun row => row[f]?) = some bit ∧
        run.record.getAckState (start + BitVec.ofNat 12 n) f = .ok bit := by
    obtain ⟨row, here, rowBuilt⟩ := mapM_range built nBelow
    obtain ⟨bit, there, bitBuilt⟩ := mapM_range rowBuilt fBelow
    exact ⟨bit, by rw [here, Option.bind_some, there], bitBuilt⟩
  refine ⟨bitmap, built, ?_, ?_⟩
  · intro honest n nBelow f fBelow
    obtain ⟨bit, here, state⟩ := bits n nBelow f fBelow
    cases bit with
    | true =>
      rcases honest n nBelow f fBelow here with old | received
      · exact .inl old
      · exact .inr (.inl received)
    | false => exact .inr (.inr (getAckState_false state))
  · intro covers n nBelow f fBelow set
    obtain ⟨bit, here, state⟩ := bits n nBelow f fBelow
    rw [here, Option.some_inj] at set
    subst set
    by_cases old : run.Precedes (start + BitVec.ofNat 12 n)
    · exact .inl old
    · right
      rcases covers n nBelow f fBelow with old' | received | ⟨earliest, first, notAfter⟩
      · exact absurd old' old
      · exact received
      · rcases of_getAckState state with ⟨entry, member, before, after⟩ | uncovered
        · -- the entry that was found is that of the frame itself
          obtain ⟨below, above⟩ := near n nBelow old entry member
          obtain ⟨number, g, received, fragment⟩ := recorded entry member
          rw [← seqOf_nearest run.next (start + BitVec.ofNat 12 n)] at before after
          rw [show entry.1 = (seqOf (run.latest entry.1), entry.1.2) by rw [number]] at before after
          obtain ⟨same, sameFragment⟩ := same_of_pairLess below above before after
          refine ⟨g, ?_, fragment.trans sameFragment⟩
          rwa [same] at received
        · rw [uncovered earliest first] at notAfter
          cases notAfter

/-- One frame is received, and its MSDU is not complete. -/
def oneFragment (sequenceNumber : SequenceNumber) : ReorderRun Unit :=
  (ReorderRun.start 0 8).after (.processReceivedQoSFrame (fragmentOf sequenceNumber 0))
    ⟨⟨0, 8, [((sequenceNumber, 0), true)]⟩,
      some ⟨[(sequenceNumber, [fragmentOf sequenceNumber 0])], 8, 1, 0⟩⟩ []

theorem nearest_zero (n : Nat) (below : n < 2048) : nearest 0 (0 + BitVec.ofNat 12 n) = n := by
  have reach : InReach 0 (0 + n) := ⟨by omega, by omega⟩
  have zero : (0 : SequenceNumber) = seqOf 0 := rfl
  rw [zero, seqOf_add, nearest_seqOf reach, Int.zero_add]

/-- The first frame is received, and the block ack says so. -/
theorem blockAck_honest_first : ∃ bitmap,
    RecipientBlockAckProcedure.buildBlockAck (oneFragment 0).recipient.agreement 0 = .ok bitmap ∧
      (oneFragment 0).Honest 0 bitmap := by
  have reached : ReorderReached (fun _ _ => True) 0 8 (oneFragment 0) :=
    .step .init _ trivial rfl
  have zero : nearest 0 0 = 0 := nearest_zero 0 (by decide)
  have readable : (oneFragment 0).Readable 0 := by
    refine ⟨fun n _ f _ => ?_, fun n below _ entry member => ?_⟩
    · intro entry member
      simp only [oneFragment, ReorderRun.record, ReorderRun.after, List.dropWhile_cons] at member
      split at member
      · cases member
      · rw [List.mem_singleton.mp member]
        exact Bool.eq_false_of_not_eq_true (by assumption)
    · obtain rfl := List.mem_singleton.mp member
      have next : (oneFragment 0).next = 0 := zero
      have latest : (oneFragment 0).latest (0, 0) = 0 := by
        simp only [oneFragment, ReorderRun.after, ReorderRun.latestAfter, fragmentOf,
          Function.update_self]
        exact zero
      rw [next, nearest_zero n (by omega), latest]
      omega
  obtain ⟨bitmap, built, honest⟩ := blockAck_honest reached 0 readable
  refine ⟨bitmap, built, honest.mpr fun n below f _ => .inr (.inr ⟨((0, 0), true), rfl, ?_⟩)⟩
  revert n
  decide

/-- The first frame is lost and the second one is received. The block ack acknowledges both. -/
theorem blockAck_lostFirst : ReorderReached (fun _ _ => True) 0 8 (oneFragment 1) ∧
    ∃ bitmap, RecipientBlockAckProcedure.buildBlockAck (oneFragment 1).recipient.agreement 0 =
      .ok bitmap ∧ ¬ (oneFragment 1).Honest 0 bitmap := by
  refine ⟨.step .init _ trivial rfl, _, rfl, fun honest => ?_⟩
  rcases honest 0 (by decide) 0 (by decide) (by decide +kernel) with old | ⟨g, received, _⟩
  · revert old
    simp only [ReorderRun.Precedes]
    decide
  · have next : (oneFragment 1).next = 0 := nearest_zero 0 (by decide)
    rw [next, nearest_zero 0 (by decide)] at received
    rcases received with none | ⟨same, number⟩
    · exact none
    · cases same
      have one : nearest 0 1 = 1 := nearest_zero 1 (by decide)
      have same : (0 : Int) = 1 := number.trans one
      cases same

end Inet.Ieee80211
