import Inet.Ieee80211.RequestFlush

/-!
# Progress of the reorder window

A fragment that is received leads to one MSDU being passed up at most. When the MSDU behind it is
complete, too, it waits in the buffer although it is the next expected one.
-/
namespace Inet.Ieee80211

open Lib OrderedMap SequenceNumber BlockAckReordering

variable {P : Type}
variable (bufferSize : Nat) (x : SequenceNumber) {e : Int × Fragments P} {passed : ReorderBuffer P}
  {after recipient : Recipient P}

/-- The next expected MSDU is buffered complete. -/
def Stalled (receiveBuffer : ReceiveBuffer P) : Prop :=
  ∃ entry ∈ receiveBuffer.buffer, entry.1 = receiveBuffer.nextExpectedSequenceNumber ∧
    isComplete entry.2 = true

/-- The fragments that are buffered of an MSDU. -/
def fragmentsAt (receiveBuffer : ReceiveBuffer P) (s : SequenceNumber) : Fragments P :=
  ((receiveBuffer.buffer.find? fun entry => entry.1 == s).map fun entry => entry.2).getD []

/-- The fragments of an MSDU once the frame is buffered. -/
def fragmentsWith (receiveBuffer : ReceiveBuffer P) (frame : DataFrame P) (s : SequenceNumber) :
    Fragments P :=
  fragmentsAt receiveBuffer s ++ if frame.sequenceNumber = s then [frame] else []

/-- The frame is in the window, there is room for it, and it is the first one with its numbers. -/
def Takes (receiveBuffer : ReceiveBuffer P) (frame : DataFrame P) : Prop :=
  receiveBuffer.accepts frame.sequenceNumber = true ∧
    ∀ g ∈ fragmentsAt receiveBuffer frame.sequenceNumber, g.fragmentNumber ≠ frame.fragmentNumber

/-- The MSDU is the earliest complete one once the frame is buffered. -/
structure EarliestWith (receiveBuffer : ReceiveBuffer P) (frame : DataFrame P)
    (s : SequenceNumber) : Prop where
  complete : isComplete (fragmentsWith receiveBuffer frame s) = true
  first : ∀ t, isComplete (fragmentsWith receiveBuffer frame t) = true → less t s = false

/-- If the frame is buffered, and the earliest complete MSDU then is the next expected one or the
buffer is full, the MSDU behind it is not complete. -/
def Advances (receiveBuffer : ReceiveBuffer P) (frame : DataFrame P) : Prop :=
  Takes receiveBuffer frame → ∀ s, EarliestWith receiveBuffer frame s →
    s = receiveBuffer.nextExpectedSequenceNumber ∨
      receiveBuffer.length + 1 = receiveBuffer.bufferSize →
    isComplete (fragmentsWith receiveBuffer frame (s + 1)) = false

/-! ### Buffers with MSDUs before the window -/

/-- The buffer with another size and another next expected MSDU. -/
def resized (receiveBuffer : ReceiveBuffer P) (bufferSize : Nat)
    (nextExpectedSequenceNumber : SequenceNumber) : ReceiveBuffer P :=
  { receiveBuffer with
    bufferSize := bufferSize
    nextExpectedSequenceNumber := nextExpectedSequenceNumber }

/-- The buffer holds MSDUs from a number on, which the window need not start at. Those before the
window are not complete. -/
structure Spans (receiveBuffer : ReceiveBuffer P) (m n : Int) (held : Held P) : Prop where
  follows : Follows (resized receiveBuffer 2047 (seqOf m)) m held
  nextExpected : receiveBuffer.nextExpectedSequenceNumber = seqOf n
  low : m ≤ n
  high : n + receiveBuffer.bufferSize ≤ m + 2047
  below : ∀ e ∈ held, e.1 < n + receiveBuffer.bufferSize
  old : ∀ e ∈ held, e.1 < n → isComplete e.2 = false

variable {receiveBuffer next : ReceiveBuffer P} {m n i p : Int} {held : Held P}
  {frame : DataFrame P} {agreement : RecipientBlockAckAgreement}

theorem Spans.start (small : bufferSize < 2048) (initial : Int) :
    Spans (.new bufferSize (seqOf initial) : ReceiveBuffer P) initial initial [] where
  follows := ⟨rfl, .nil, nofun, rfl, rfl, Nat.zero_le _, (by decide : 2047 < 2048), nofun⟩
  nextExpected := rfl
  low := Int.le_refl initial
  high := by
    show initial + (bufferSize : Int) ≤ initial + 2047
    omega
  below := nofun
  old := nofun

theorem removeFrame_resized (s : SequenceNumber) :
    (resized receiveBuffer bufferSize x).removeFrame s =
      (receiveBuffer.removeFrame s).map (resized · bufferSize x) := by
  unfold ReceiveBuffer.removeFrame
  show receiveBuffer.buffer.find s >>= _ = Except.map _ (receiveBuffer.buffer.find s >>= _)
  cases receiveBuffer.buffer.find s with
  | error e => rfl
  | ok found =>
    cases found with
    | none => rfl
    | some fragments =>
      show receiveBuffer.buffer.erase s >>= _ = Except.map _ (receiveBuffer.buffer.erase s >>= _)
      cases receiveBuffer.buffer.erase s with
      | error e => rfl
      | ok buffer => rfl

/-- What is passed up does not depend on the size, and the next expected MSDU is the one behind it. -/
theorem passedUp_resized (s : SequenceNumber) :
    passedUp agreement (resized receiveBuffer bufferSize x) s =
      (passedUp agreement receiveBuffer s).map fun result =>
        (result.1, resized result.2 bufferSize (s + 1)) := by
  have drops : (({ resized receiveBuffer bufferSize x with
      nextExpectedSequenceNumber := s + 1 } : ReceiveBuffer P).dropFramesUntil s) =
      resized (({ receiveBuffer with
        nextExpectedSequenceNumber := s + 1 } : ReceiveBuffer P).dropFramesUntil s)
        bufferSize (s + 1) := rfl
  rw [passedUp, passedUp, drops, removeFrame_resized]
  cases (({ receiveBuffer with
      nextExpectedSequenceNumber := s + 1 } : ReceiveBuffer P).dropFramesUntil s).removeFrame s with
  | error e => rfl
  | ok left => rfl

theorem removeFrame_kept {s : SequenceNumber}
    (returned : receiveBuffer.removeFrame s = .ok next) :
    next.nextExpectedSequenceNumber = receiveBuffer.nextExpectedSequenceNumber ∧
      next.bufferSize = receiveBuffer.bufferSize := by
  obtain ⟨found, _, returned⟩ := bind_eq_ok.mp returned
  cases found with
  | none => cases returned
  | some fragments =>
    obtain ⟨buffer, _, returned⟩ := bind_eq_ok.mp returned
    cases returned
    exact ⟨rfl, rfl⟩

/-- The window starts behind what is passed up. -/
theorem passedUp_kept {released : RecipientBlockAckAgreement} {s : SequenceNumber}
    (returned : passedUp agreement receiveBuffer s = .ok (released, next)) :
    next.nextExpectedSequenceNumber = s + 1 ∧ next.bufferSize = receiveBuffer.bufferSize := by
  obtain ⟨left, removed, returned⟩ := bind_eq_ok.mp returned
  cases returned
  exact removeFrame_kept removed

/-- A frame that is put in is one more, and moves no window. -/
theorem insertFrame_kept (returned : receiveBuffer.insertFrame frame = .ok (next, true)) :
    next.nextExpectedSequenceNumber = receiveBuffer.nextExpectedSequenceNumber ∧
      next.bufferSize = receiveBuffer.bufferSize ∧ next.length = receiveBuffer.length + 1 ∧
      receiveBuffer.length < receiveBuffer.bufferSize := by
  rw [ReceiveBuffer.insertFrame] at returned
  split at returned
  next accepted =>
    obtain ⟨found, _, returned⟩ := bind_eq_ok.mp returned
    split at returned
    · cases returned
    · obtain ⟨buffer, _, returned⟩ := bind_eq_ok.mp returned
      cases returned
      rw [ReceiveBuffer.accepts, Bool.and_eq_true, Bool.and_eq_true, decide_eq_true_eq] at accepted
      exact ⟨rfl, rfl, rfl, accepted.1.1⟩
  next => cases returned

/-- Where a frame is put in does not depend on the window that it is in. -/
theorem insertFrame_resized {bufferSize : Nat} {x : SequenceNumber}
    (accepted : receiveBuffer.accepts frame.sequenceNumber = true)
    (alsoAccepted : (resized receiveBuffer bufferSize x).accepts frame.sequenceNumber = true) :
    (resized receiveBuffer bufferSize x).insertFrame frame =
      (receiveBuffer.insertFrame frame).map fun result =>
        (resized result.1 bufferSize x, result.2) := by
  rw [ReceiveBuffer.insertFrame, ReceiveBuffer.insertFrame, if_pos accepted, if_pos alsoAccepted]
  show receiveBuffer.buffer.find frame.sequenceNumber >>= _ =
    Except.map _ (receiveBuffer.buffer.find frame.sequenceNumber >>= _)
  cases receiveBuffer.buffer.find frame.sequenceNumber with
  | error e => rfl
  | ok found =>
    rw [ok_bind, ok_bind]
    split
    · rfl
    · show receiveBuffer.buffer.alter frame.sequenceNumber _ >>= _ =
        Except.map _ (receiveBuffer.buffer.alter frame.sequenceNumber _ >>= _)
      cases receiveBuffer.buffer.alter frame.sequenceNumber fun fragments =>
          fragments.getD [] ++ [frame] with
      | error e => rfl
      | ok buffer => rfl

namespace Spans

theorem small (spans : Spans receiveBuffer m n held) : receiveBuffer.bufferSize < 2048 := by
  have low := spans.low
  have high := spans.high
  omega

theorem buffer (spans : Spans receiveBuffer m n held) : receiveBuffer.buffer = keyed seqOf held :=
  spans.follows.buffer

theorem sorted (spans : Spans receiveBuffer m n held) : Sorted held := spans.follows.sorted

theorem inside (spans : Spans receiveBuffer m n held) (member : e ∈ held) :
    m ≤ e.1 ∧ e.1 < m + 2047 := spans.follows.inside e member

/-- An MSDU is passed up, and with it all before it are gone. -/
theorem passedUp_ok (spans : Spans receiveBuffer m n held) (agreement : RecipientBlockAckAgreement)
    {fragments : Fragments P} (member : (p, fragments) ∈ held)
    (complete : isComplete fragments = true) :
    ∃ released next, passedUp agreement receiveBuffer (seqOf p) = .ok (released, next) ∧
      next.bufferSize = receiveBuffer.bufferSize ∧ Spans next (p + 1) (p + 1) (behind p held) := by
  obtain ⟨wide, passed, size, follows⟩ := spans.follows.passedUp_ok agreement member
  rw [passedUp_resized] at passed
  cases returned : passedUp agreement receiveBuffer (seqOf p) with
  | error e =>
    rw [returned] at passed
    cases passed
  | ok result =>
    rw [returned] at passed
    obtain ⟨released, next⟩ := result
    cases passed
    obtain ⟨expected, size⟩ := passedUp_kept returned
    have number : seqOf p + 1 = seqOf (p + 1) := seqOf_add 1
    have small := spans.small
    rw [number] at follows expected
    have ahead : n ≤ p := by
      by_contra before
      rw [spans.old _ member (by simpa using before)] at complete
      cases complete
    refine ⟨_, next, rfl, size, follows, expected, Int.le_refl _, by omega, ?_, ?_⟩
    · intro e member
      have below := spans.below e (mem_behind.mp member).1
      omega
    · intro e member before
      have after := (mem_behind.mp member).2
      omega

/-! ### Frames -/

theorem less_iff (spans : Spans receiveBuffer m n held) {f : Int × Fragments P}
    (member : e ∈ held) (other : f ∈ held) : less (seqOf e.1) (seqOf f.1) = decide (e.1 < f.1) := by
  have first := spans.inside member
  have second := spans.inside other
  exact less_seqOf (by omega) (by omega)

theorem seqOf_inj (spans : Spans receiveBuffer m n held)
    (member : e ∈ held) (low : m ≤ i + 2048) (high : i < m + 4096) :
    seqOf e.1 = seqOf i ↔ e.1 = i := by
  have inside := spans.inside member
  rw [Ieee80211.seqOf_inj]
  omega

theorem accepts_iff (spans : Spans receiveBuffer m n held) (reach : InReach n i) :
    receiveBuffer.accepts (seqOf i) = true ↔ receiveBuffer.length < receiveBuffer.bufferSize ∧
      n ≤ i ∧ i < n + receiveBuffer.bufferSize := by
  have small := spans.small
  have distance := toNat_seqOf_sub (i := i) (j := n + receiveBuffer.bufferSize)
  rw [ReceiveBuffer.accepts, spans.nextExpected, lessOrEqual_seqOf reach, seqOf_add, less]
  obtain ⟨below, above⟩ := reach
  simp only [Bool.and_eq_true, decide_eq_true_eq]
  omega

/-- The fragments of an MSDU are those that are held. -/
theorem fragmentsAt_eq (spans : Spans receiveBuffer m n held) (low : m ≤ i + 2048)
    (high : i < m + 4096) : fragmentsAt receiveBuffer (seqOf i) = (lookup i held).getD [] := by
  have same : held.find? ((fun entry => entry.1 == seqOf i) ∘ fun e => (seqOf e.1, e.2)) =
      held.find? fun e => decide (e.1 = i) := by
    refine List.find?_congr fun e member => ?_
    rw [Function.comp_apply, Bool.eq_iff_iff, beq_iff_eq, decide_eq_true_iff]
    exact spans.seqOf_inj member low high
  rw [fragmentsAt, spans.buffer, keyed, List.find?_map, same, Option.map_map]
  rfl

/-- A frame that is taken is put in, and others change nothing. -/
theorem insertFrame_cases (spans : Spans receiveBuffer m n held) (frame : DataFrame P) :
    (¬ Takes receiveBuffer frame ∧ receiveBuffer.insertFrame frame = .ok (receiveBuffer, false)) ∨
      (Takes receiveBuffer frame ∧ ∃ i next, frame.sequenceNumber = seqOf i ∧ n ≤ i ∧
        i < n + receiveBuffer.bufferSize ∧ receiveBuffer.insertFrame frame = .ok (next, true) ∧
        Spans next m n (alterAt i (fun fragments => fragments.getD [] ++ [frame]) held)) := by
  by_cases accepted : receiveBuffer.accepts frame.sequenceNumber = true
  · obtain ⟨i, reach, number⟩ : ∃ i, InReach n i ∧ frame.sequenceNumber = seqOf i :=
      ⟨_, nearest_inReach n frame.sequenceNumber, (seqOf_nearest n _).symm⟩
    have window := accepted
    rw [number, spans.accepts_iff reach] at window
    obtain ⟨room, low, high⟩ := window
    have start := spans.low
    have stop := spans.high
    have length : receiveBuffer.length = count held := spans.follows.length
    have wideReach : InReach m i := ⟨by omega, by omega⟩
    have alsoAccepted : (resized receiveBuffer 2047 (seqOf m)).accepts frame.sequenceNumber = true := by
      rw [number, spans.follows.accepts_iff wideReach]
      simp only [resized]
      omega
    have same := insertFrame_resized accepted alsoAccepted
    have found : receiveBuffer.buffer.find (seqOf i) = .ok (lookup i held) :=
      spans.follows.find_ok (by omega) (by omega)
    have buffered := spans.fragmentsAt_eq (i := i) (by omega) (by omega)
    have unfolded := ReceiveBuffer.insertFrame.eq_def receiveBuffer frame
    rw [if_pos accepted, number, found, ok_bind, ← number] at unfolded
    by_cases duplicate : ((lookup i held).getD []).any (fun fragment =>
        fragment.sequenceNumber == frame.sequenceNumber &&
          fragment.fragmentNumber == frame.fragmentNumber) = true
    · rw [if_pos duplicate] at unfolded
      refine .inl ⟨fun takes => ?_, unfolded⟩
      obtain ⟨g, member, equal⟩ := List.any_eq_true.mp duplicate
      rw [Bool.and_eq_true, beq_iff_eq, beq_iff_eq] at equal
      refine takes.2 g ?_ equal.2
      rw [number, buffered]
      exact member
    · rw [if_neg duplicate] at unfolded
      have takes : Takes receiveBuffer frame := by
        refine ⟨accepted, fun g member equal => duplicate (List.any_eq_true.mpr ⟨g, ?_, ?_⟩)⟩
        · rw [number, buffered] at member
          exact member
        · rw [number, buffered] at member
          obtain ⟨fragments, inHeld, inFragments⟩ := spans.follows.mem_getD member
          have numbered := (spans.follows.fragments _ inHeld).2.1 g inFragments
          rw [numbered, number, equal, beq_self_eq_true, beq_self_eq_true, Bool.and_true]
      -- The buffer with the wide window takes the frame, too.
      rcases spans.follows.insertFrame_ok wideReach number with
        refused | ⟨wide, inserted, _, _, follows⟩
      · rw [same] at refused
        cases altered : receiveBuffer.buffer.alter frame.sequenceNumber
            fun fragments => fragments.getD [] ++ [frame] with
        | error e =>
          rw [unfolded, altered] at refused
          cases refused
        | ok buffer =>
          rw [unfolded, altered] at refused
          have apart : true = false := congrArg Prod.snd (Except.ok.inj refused)
          cases apart
      · rw [same] at inserted
        cases returned : receiveBuffer.insertFrame frame with
        | error e =>
          rw [returned] at inserted
          cases inserted
        | ok result =>
          rw [returned] at inserted
          obtain ⟨next, taken⟩ := result
          cases inserted
          obtain ⟨expected, size, _⟩ := insertFrame_kept returned
          refine .inr ⟨takes, i, next, number, low, high, rfl, follows,
            expected.trans spans.nextExpected, start, by rw [size]; exact stop, ?_, ?_⟩
          · intro e member
            rw [size]
            rcases (mem_alterAt spans.sorted).mp member with ⟨_, old⟩ | rfl
            · exact spans.below e old
            · exact high
          · intro e member before
            rcases (mem_alterAt spans.sorted).mp member with ⟨_, old⟩ | rfl
            · exact spans.old e old before
            · exact absurd low (by simpa using before)
  · refine .inl ⟨fun takes => accepted takes.1, ?_⟩
    rw [ReceiveBuffer.insertFrame, if_neg accepted]

/-- The first complete MSDU. -/
def firstComplete (held : Held P) : Option (Int × Fragments P) := held.find? fun e => isComplete e.2

/-- The first complete MSDU is passed up if it is the next expected one or the buffer is full. -/
theorem passUpEarliest_cases (spans : Spans receiveBuffer m n held)
    (fits : receiveBuffer.length ≤ receiveBuffer.bufferSize)
    (returned : passUpEarliest agreement receiveBuffer = .ok (recipient, passed)) :
    (recipient.receiveBuffer = some receiveBuffer ∧ ∀ e, firstComplete held = some e →
      e.1 ≠ n ∧ receiveBuffer.length ≠ receiveBuffer.bufferSize) ∨
    ∃ e next, firstComplete held = some e ∧
      (e.1 = n ∨ receiveBuffer.length = receiveBuffer.bufferSize) ∧
      recipient.receiveBuffer = some next ∧ next.bufferSize = receiveBuffer.bufferSize ∧
      Spans next (e.1 + 1) (e.1 + 1) (behind e.1 held) := by
  have earliest : getEarliestCompleteMsduOrAMsduIfExists receiveBuffer =
      .ok (((firstComplete held).map (·.2)).getD []) := spans.follows.earliest_ok
  rw [passUpEarliest, earliest, ok_bind] at returned
  cases found : firstComplete held with
  | none =>
    rw [found] at returned
    cases returned
    exact .inl ⟨rfl, fun _ same => by cases same⟩
  | some e =>
    have member : e ∈ held := List.mem_of_find?_eq_some found
    obtain ⟨nonempty, numbered, _⟩ := spans.follows.fragments e member
    obtain ⟨g, rest, fragments⟩ := List.exists_cons_of_ne_nil nonempty
    have number : g.sequenceNumber = seqOf e.1 := numbered g (by simp [fragments])
    have full : receiveBuffer.isFull = .ok (receiveBuffer.length == receiveBuffer.bufferSize) := by
      rw [ReceiveBuffer.isFull, if_pos fits]
    have start := spans.low
    have stop := spans.high
    have expected : (seqOf e.1 == receiveBuffer.nextExpectedSequenceNumber) = decide (e.1 = n) := by
      rw [spans.nextExpected, Bool.eq_iff_iff, beq_iff_eq, decide_eq_true_iff]
      exact spans.seqOf_inj member (by omega) (by omega)
    simp only [found, Option.map_some, Option.getD_some, fragments, full, ok_bind, number,
      expected] at returned
    split at returned
    next releases =>
      obtain ⟨released, next, passedUp, size, nextSpans⟩ :=
        spans.passedUp_ok agreement member (List.find?_eq_some_iff_append.mp found).1
      rw [passedUp, ok_bind] at returned
      cases returned
      refine .inr ⟨e, next, rfl, ?_, rfl, size, nextSpans⟩
      rw [Bool.or_eq_true, beq_iff_eq, decide_eq_true_iff] at releases
      exact releases.symm
    next keeps =>
      cases returned
      refine .inl ⟨rfl, ?_⟩
      rintro _ ⟨⟩
      rw [Bool.or_eq_true, beq_iff_eq, decide_eq_true_iff, not_or] at keeps
      exact ⟨keeps.2, keeps.1⟩

/-- A frame that is received leaves the MSDUs that span the window. -/
theorem frame_cases (spans : Spans receiveBuffer m n held) {frame : DataFrame P} 
    (made : createReceiveBufferIfNecessary recipient = receiveBuffer)
    (returned : processReceivedQoSFrame recipient frame = .ok (after, passed)) :
    (¬ Takes receiveBuffer frame ∧ after.receiveBuffer = some receiveBuffer) ∨
    (Takes receiveBuffer frame ∧ ∃ i inserted held', frame.sequenceNumber = seqOf i ∧ n ≤ i ∧
      i < n + receiveBuffer.bufferSize ∧
      held' = alterAt i (fun fragments => fragments.getD [] ++ [frame]) held ∧
      Spans inserted m n held' ∧
      ((after.receiveBuffer = some inserted ∧ ∀ e, firstComplete held' = some e →
        e.1 ≠ n ∧ receiveBuffer.length + 1 ≠ receiveBuffer.bufferSize) ∨
      ∃ e next, firstComplete held' = some e ∧
        (e.1 = n ∨ receiveBuffer.length + 1 = receiveBuffer.bufferSize) ∧
        after.receiveBuffer = some next ∧ Spans next (e.1 + 1) (e.1 + 1) (behind e.1 held'))) := by
  rw [processReceivedQoSFrame, made] at returned
  rcases spans.insertFrame_cases frame with
    ⟨refused, kept⟩ | ⟨takes, i, inserted, number, low, high, put, insertedSpans⟩
  · rw [kept] at returned
    cases returned
    exact .inl ⟨refused, rfl⟩
  · rw [put, ok_bind] at returned
    obtain ⟨agreement, _, returned⟩ := bind_eq_ok.mp returned
    obtain ⟨_, size, length, room⟩ := insertFrame_kept put
    refine .inr ⟨takes, i, inserted, _, number, low, high, rfl, insertedSpans, ?_⟩
    have cases := insertedSpans.passUpEarliest_cases (by omega) returned
    rw [length, size] at cases
    rcases cases with kept | ⟨e, next, found, releases, left, _, nextSpans⟩
    · exact .inl kept
    · exact .inr ⟨e, next, found, releases, left, nextSpans⟩

/-! ### When the window advances -/

theorem stalled_iff (spans : Spans receiveBuffer m n held) :
    Stalled receiveBuffer ↔ ∃ e ∈ held, e.1 = n ∧ isComplete e.2 = true := by
  have start := spans.low
  have stop := spans.high
  rw [Stalled, spans.buffer, spans.nextExpected]
  constructor
  · rintro ⟨_, member, same, complete⟩
    obtain ⟨e, inHeld, rfl⟩ := List.mem_map.mp member
    exact ⟨e, inHeld, (spans.seqOf_inj inHeld (by omega) (by omega)).mp same, complete⟩
  · rintro ⟨e, member, rfl, complete⟩
    exact ⟨_, List.mem_map.mpr ⟨e, member, rfl⟩, rfl, complete⟩

/-- The complete MSDUs once the frame is buffered are those that are held then. -/
theorem complete_with (spans : Spans receiveBuffer m n held) (number : frame.sequenceNumber = seqOf i)
    (inserted : Spans next m n (alterAt i (fun fragments => fragments.getD [] ++ [frame]) held))
    (t : SequenceNumber) : isComplete (fragmentsWith receiveBuffer frame t) = true ↔
      ∃ e ∈ alterAt i (fun fragments => fragments.getD [] ++ [frame]) held, seqOf e.1 = t ∧
        isComplete e.2 = true := by
  obtain ⟨j, reach, rfl⟩ : ∃ j, InReach (m + 1024) j ∧ t = seqOf j :=
    ⟨_, nearest_inReach (m + 1024) t, (seqOf_nearest _ t).symm⟩
  obtain ⟨below, above⟩ := reach
  have put : (i, (lookup i held).getD [] ++ [frame]) ∈
      alterAt i (fun fragments => fragments.getD [] ++ [frame]) held :=
    (mem_alterAt spans.sorted).mpr (.inr rfl)
  have same : frame.sequenceNumber = seqOf j ↔ i = j := by
    rw [number]
    exact inserted.seqOf_inj put (by omega) (by omega)
  have fragments : fragmentsWith receiveBuffer frame (seqOf j) =
      (lookup j (alterAt i (fun fragments => fragments.getD [] ++ [frame]) held)).getD [] := by
    rw [fragmentsWith, spans.fragmentsAt_eq (by omega) (by omega), lookup_alterAt spans.sorted]
    by_cases equal : i = j
    · subst equal
      rw [if_pos number, if_pos rfl, Option.getD_some]
    · rw [if_neg fun numbered => equal (same.mp numbered), if_neg fun back => equal back.symm,
        List.append_nil]
  rw [fragments]
  constructor
  · intro complete
    cases found : lookup j (alterAt i (fun fragments => fragments.getD [] ++ [frame]) held) with
    | none =>
      rw [found] at complete
      cases complete
    | some fragments =>
      rw [found] at complete
      exact ⟨_, (lookup_eq_some inserted.sorted).mp found, rfl, complete⟩
  · rintro ⟨e, member, equal, complete⟩
    obtain rfl := (inserted.seqOf_inj member (by omega) (by omega)).mp equal
    rw [(lookup_eq_some inserted.sorted).mpr member]
    exact complete

theorem of_firstComplete (first : firstComplete held = some e) :
    e ∈ held ∧ isComplete e.2 = true :=
  ⟨List.mem_of_find?_eq_some first, (List.find?_eq_some_iff_append.mp first).1⟩

theorem firstComplete_le {f : Int × Fragments P} (sorted : Sorted held)
    (first : firstComplete held = some e) (member : f ∈ held) (complete : isComplete f.2 = true) :
    e.1 ≤ f.1 := by
  obtain ⟨_, front, back, rfl, incomplete⟩ := List.find?_eq_some_iff_append.mp first
  rcases List.mem_append.mp member with before | behind
  · have none := incomplete f before
    rw [complete] at none
    cases none
  · rcases List.mem_cons.mp behind with rfl | later
    · exact le_refl _
    · exact ((sorted_cons.mp (List.pairwise_append.mp sorted).2.1).1 f later).le

theorem earliestWith_iff (spans : Spans receiveBuffer m n held)
    (number : frame.sequenceNumber = seqOf i)
    (inserted : Spans next m n (alterAt i (fun fragments => fragments.getD [] ++ [frame]) held))
    (s : SequenceNumber) : EarliestWith receiveBuffer frame s ↔
      ∃ e, firstComplete (alterAt i (fun fragments => fragments.getD [] ++ [frame]) held) = some e ∧
        seqOf e.1 = s := by
  have complete_with := spans.complete_with number inserted
  constructor
  · rintro ⟨complete, first⟩
    obtain ⟨f, member, rfl, whole⟩ := (complete_with s).mp complete
    cases found : firstComplete (alterAt i (fun fragments => fragments.getD [] ++ [frame]) held) with
    | none => exact absurd whole (List.find?_eq_none.mp found f member)
    | some e =>
      obtain ⟨inHeld, earlier⟩ := of_firstComplete found
      have notBefore := first (seqOf e.1) ((complete_with _).mpr ⟨e, inHeld, rfl, earlier⟩)
      rw [inserted.less_iff inHeld member, decide_eq_false_iff_not] at notBefore
      have le := firstComplete_le inserted.sorted found member whole
      exact ⟨e, rfl, by rw [show e.1 = f.1 by omega]⟩
  · rintro ⟨e, found, rfl⟩
    obtain ⟨inHeld, earlier⟩ := of_firstComplete found
    refine ⟨(complete_with _).mpr ⟨e, inHeld, rfl, earlier⟩, fun t complete => ?_⟩
    obtain ⟨f, member, rfl, whole⟩ := (complete_with t).mp complete
    rw [inserted.less_iff member inHeld, decide_eq_false_iff_not]
    have le := firstComplete_le inserted.sorted found member whole
    omega

/-- After a frame the next expected MSDU is not buffered complete exactly if the one behind what is
passed up is not. -/
theorem advances_iff (spans : Spans receiveBuffer m n held) {frame : DataFrame P} 
    (made : createReceiveBufferIfNecessary recipient = receiveBuffer)
    (ready : ¬ Stalled receiveBuffer)
    (returned : processReceivedQoSFrame recipient frame = .ok (after, passed)) :
    ¬ Stalled (createReceiveBufferIfNecessary after) ↔ Advances receiveBuffer frame := by
  rcases spans.frame_cases made returned with
    ⟨refused, left⟩ | ⟨takes, i, inserted, _, number, low, high, rfl, insertedSpans, outcome⟩
  · rw [createReceiveBufferIfNecessary, left]
    exact iff_of_true ready fun takes => absurd takes refused
  · have earliest := spans.earliestWith_iff number insertedSpans
    have complete_with := spans.complete_with number insertedSpans
    have start := spans.low
    have stop := spans.high
    rcases outcome with ⟨left, keeps⟩ | ⟨e, released, found, releases, left, releasedSpans⟩
    · -- nothing is passed up, and the first complete MSDU is behind the next expected one
      rw [createReceiveBufferIfNecessary, left]
      refine iff_of_true ?_ ?_
      · simp only
        rw [insertedSpans.stalled_iff]
        rintro ⟨f, member, expected, whole⟩
        cases found : firstComplete
            (alterAt i (fun fragments => fragments.getD [] ++ [frame]) held) with
        | none => exact absurd whole (List.find?_eq_none.mp found f member)
        | some e =>
          obtain ⟨inHeld, earlier⟩ := of_firstComplete found
          have le := firstComplete_le insertedSpans.sorted found member whole
          have apart := (keeps e found).1
          rw [insertedSpans.old e inHeld (by omega)] at earlier
          cases earlier
      · intro _ s first releases
        obtain ⟨e, found, rfl⟩ := (earliest s).mp first
        obtain ⟨apart, room⟩ := keeps e found
        rcases releases with same | full
        · rw [spans.nextExpected] at same
          exact absurd ((insertedSpans.seqOf_inj (List.mem_of_find?_eq_some found)
            (by omega) (by omega)).mp same) apart
        · exact absurd full room
    · rw [createReceiveBufferIfNecessary, left]
      simp only
      rw [releasedSpans.stalled_iff]
      obtain ⟨inHeld, _⟩ := of_firstComplete found
      have inside := insertedSpans.inside inHeld
      have behindIt : seqOf e.1 + 1 = seqOf (e.1 + 1) := seqOf_add 1
      constructor
      · intro advanced _ s first _
        obtain ⟨e', found', rfl⟩ := (earliest s).mp first
        cases found.symm.trans found'
        rw [← Bool.not_eq_true, complete_with, behindIt]
        rintro ⟨f, member, same, whole⟩
        have follows := (insertedSpans.seqOf_inj member (by omega) (by omega)).mp same
        exact advanced ⟨f, mem_behind.mpr ⟨member, by omega⟩, follows, whole⟩
      · rintro advances ⟨f, member, follows, whole⟩
        have waits := advances takes (seqOf e.1) ((earliest _).mpr ⟨e, found, rfl⟩) (by
          rw [spans.nextExpected]
          exact releases.imp (congrArg seqOf) id)
        rw [← Bool.not_eq_true, complete_with, behindIt, ← follows] at waits
        exact waits ⟨f, (mem_behind.mp member).1, rfl, whole⟩

/-! ### Requests -/

/-- MSDUs are passed up one after the other. -/
theorem release (spans : Spans receiveBuffer m n held) {passing : Held P} (sorted : Sorted passing)
    (complete : ∀ e ∈ passing, e ∈ held ∧ isComplete e.2 = true)
    {released : RecipientBlockAckAgreement}
    (returned : releaseReceiveBuffer agreement receiveBuffer (keyed seqOf passing) =
      .ok (released, next)) :
    ∃ m' n' held', Spans next m' n' held' ∧
      ∀ e ∈ held, (∀ f ∈ passing, f.1 < e.1) → e ∈ held' := by
  induction passing generalizing agreement receiveBuffer m n held with
  | nil =>
    cases returned
    exact ⟨m, n, held, spans, fun e member _ => member⟩
  | cons e rest ih =>
    obtain ⟨above, sorted⟩ := sorted_cons.mp sorted
    obtain ⟨inHeld, whole⟩ := complete e List.mem_cons_self
    obtain ⟨between, middle, passed, _, middleSpans⟩ := spans.passedUp_ok agreement inHeld whole
    rw [releaseReceiveBuffer, keyed_cons, List.foldlM_cons] at returned
    simp only [passed, ok_bind] at returned
    obtain ⟨m', n', held', nextSpans, stays⟩ := ih middleSpans sorted (fun f member =>
      have old := complete f (.tail _ member)
      ⟨mem_behind.mpr ⟨old.1, above f member⟩, old.2⟩) returned
    refine ⟨m', n', held', nextSpans, fun f member all => ?_⟩
    exact stays f (mem_behind.mpr ⟨member, all e List.mem_cons_self⟩)
      fun g later => all g (.tail _ later)

end Spans

/-- Buffered MSDUs are less than half of the sequence space away from the starting one, with the
size of the buffer to spare. -/
def Near (receiveBuffer : ReceiveBuffer P) (start : SequenceNumber) : Prop :=
  ∀ entry ∈ receiveBuffer.buffer,
    (less receiveBuffer.nextExpectedSequenceNumber start = true →
      less entry.1 receiveBuffer.nextExpectedSequenceNumber = true →
        (start - entry.1).toNat + receiveBuffer.bufferSize < 2047) ∧
    ((start - entry.1).toNat + receiveBuffer.bufferSize < 2047 ∨
      (entry.1 - start).toNat + receiveBuffer.bufferSize < 2047)

/-- Frames are arbitrary, and requests start near what is buffered. -/
def ReorderCall.StaysNear (run : ReorderRun P) : ReorderCall P → Prop
  | .processReceivedBlockAckReq (.basic start) => Near run.receiveBuffer start
  | _ => True

namespace Spans

variable {s : Int}

theorem near_iff (spans : Spans receiveBuffer m n held) (reach : InReach n s)
    (near : Near receiveBuffer (seqOf s)) (member : e ∈ held) :
    (e.1 ≤ s ∧ s + receiveBuffer.bufferSize < e.1 + 2047) ∨
      (s ≤ e.1 ∧ e.1 + receiveBuffer.bufferSize < s + 2047) := by
  have buffered : (seqOf e.1, e.2) ∈ receiveBuffer.buffer := by
    rw [spans.buffer]
    exact List.mem_map.mpr ⟨e, member, rfl⟩
  obtain ⟨ahead, apart⟩ := near _ buffered
  have inside := spans.inside member
  have below := spans.below e member
  have low := spans.low
  have high := spans.high
  have before := toNat_seqOf_sub (i := e.1) (j := s)
  have behind := toNat_seqOf_sub (i := s) (j := e.1)
  obtain ⟨reachBelow, reachAbove⟩ := reach
  have old : less (seqOf e.1) (seqOf n) = decide (e.1 < n) := less_seqOf (by omega) (by omega)
  rw [spans.nextExpected, old] at ahead
  by_cases newer : n < s
  · have window : less (seqOf n) (seqOf s) = true := by
      rw [less_seqOf (by omega) (by omega)]
      exact decide_eq_true newer
    have ahead (precedes : e.1 < n) := ahead window (decide_eq_true precedes)
    simp only at ahead apart
    omega
  · simp only at apart
    omega

/-- A number from which on all that is buffered and the starting MSDU are less than half of the
sequence space away. -/
theorem rebase (spans : Spans receiveBuffer m n held)
    (near : ∀ e ∈ held, (e.1 ≤ s ∧ s + receiveBuffer.bufferSize < e.1 + 2047) ∨
      (s ≤ e.1 ∧ e.1 + receiveBuffer.bufferSize < s + 2047)) :
    ∃ b, b ≤ s ∧ s + receiveBuffer.bufferSize ≤ b + 2047 ∧
      Follows (resized receiveBuffer 2047 (seqOf b)) b held := by
  have small := spans.small
  have follows (b : Int) (inside : ∀ e ∈ held, b ≤ e.1 ∧ e.1 < b + 2047) :
      Follows (resized receiveBuffer 2047 (seqOf b)) b held :=
    ⟨spans.buffer, spans.sorted, inside, rfl, spans.follows.length, spans.follows.fits,
      (by decide : 2047 < 2048), spans.follows.fragments⟩
  by_cases behind : ∀ e ∈ held, s ≤ e.1
  · refine ⟨s, Int.le_refl s, by omega, follows s fun e member => ?_⟩
    have := behind e member
    have := near e member
    omega
  · cases held with
    | nil => exact absurd nofun behind
    | cons first rest =>
      have above := (sorted_cons.mp spans.sorted).1
      have firstNear := near first List.mem_cons_self
      have firstInside := spans.inside List.mem_cons_self
      have before : first.1 < s := by
        by_contra notBefore
        refine behind fun e member => ?_
        rcases List.mem_cons.mp member with rfl | later
        · omega
        · have := above e later
          omega
      refine ⟨first.1, by omega, by omega, follows first.1 fun e member => ?_⟩
      have inside := spans.inside member
      rcases List.mem_cons.mp member with rfl | later
      · omega
      · have := above e later
        omega

theorem collectFrom_resized (start : SequenceNumber) (remaining i : Nat)
    (framesToPassUp : ReorderBuffer P) :
    collectFrom (resized receiveBuffer bufferSize x) start remaining i framesToPassUp =
      collectFrom receiveBuffer start remaining i framesToPassUp := by
  induction remaining generalizing i framesToPassUp with
  | zero => rfl
  | succ remaining ih =>
    have same : addMsduIfComplete (resized receiveBuffer bufferSize x) framesToPassUp
        (start + BitVec.ofNat 12 i) =
      addMsduIfComplete receiveBuffer framesToPassUp (start + BitVec.ofNat 12 i) := rfl
    rw [collectFrom, collectFrom, same]
    simp only [ih]

/-- A request near what is buffered leaves MSDUs that span the window. -/
theorem request_step (spans : Spans receiveBuffer m n held) (reach : InReach n s)
    (near : Near receiveBuffer (seqOf s))
    (returned : processReceivedBlockAckReq ⟨agreement, some receiveBuffer⟩ (.basic (seqOf s)) =
      .ok (after, passed)) :
    ∃ next m' n' held', after.receiveBuffer = some next ∧ Spans next m' n' held' := by
  obtain ⟨b, low, high, follows⟩ := spans.rebase fun e member => spans.near_iff reach near member
  have collected : collectCompletePrecedingMpdus receiveBuffer (seqOf s) =
      .ok (keyed seqOf (held.filter fun e => decide (e.1 < s) && isComplete e.2)) := by
    have all := follows.preceding_ok (seqOf s)
    rw [follows.preceding_near ⟨by omega, by omega⟩ low] at all
    exact all
  have followed : collectConsecutiveCompleteFollowingMpdus receiveBuffer (seqOf s) =
      .ok (keyed seqOf (consecutive held receiveBuffer.bufferSize s)) := by
    have all := follows.collectFrom_ok receiveBuffer.bufferSize 0 (s := s)
      (by simp; omega) (by simp; omega) (List.Pairwise.nil : Sorted ([] : Held P)) nofun
    rw [List.nil_append, Int.natCast_zero, Int.add_zero, collectFrom_resized] at all
    exact all
  obtain ⟨close, complete⟩ := follows.collected_close (s := s) receiveBuffer.bufferSize
  have sorted := List.pairwise_append.mp close.sorted
  obtain ⟨m', n', moved⟩ : ∃ m' n', Spans (moveWindow receiveBuffer (seqOf s)
      ((keyed seqOf (held.filter fun e => decide (e.1 < s) && isComplete e.2)).length +
        (keyed seqOf (consecutive held receiveBuffer.bufferSize s)).length)) m' n' held := by
    rw [moveWindow]
    split
    next moves =>
      -- Nothing is passed up, so nothing before the starting MSDU is complete.
      simp only [keyed, List.length_map, Bool.and_eq_true, beq_iff_eq] at moves
      obtain ⟨none, window⟩ := moves
      have noPreceding := List.eq_nil_of_length_eq_zero (Nat.eq_zero_of_add_eq_zero_right none)
      have ahead : n < s := by
        obtain ⟨reachBelow, reachAbove⟩ := reach
        rw [spans.nextExpected, less] at window
        have distance := toNat_seqOf_sub (i := n) (j := s)
        simp only [Bool.and_eq_true, decide_eq_true_eq] at window
        omega
      refine ⟨b, s, follows, rfl, low, high, fun e member => ?_, fun e member before => ?_⟩
      · have below := spans.below e member
        simp only
        omega
      · rw [← Bool.not_eq_true]
        intro whole
        refine List.eq_nil_iff_forall_not_mem.mp noPreceding e (List.mem_filter.mpr ⟨member, ?_⟩)
        rw [whole, Bool.and_true, decide_eq_true_eq]
        exact before
    next => exact ⟨m, n, spans⟩
  simp only [processReceivedBlockAckReq, collected, followed, ok_bind] at returned
  obtain ⟨⟨between, middle⟩, releasedPreceding, returned⟩ := bind_eq_ok.mp returned
  obtain ⟨⟨released, next⟩, releasedFollowing, returned⟩ := bind_eq_ok.mp returned
  obtain ⟨_, _, returned⟩ := bind_eq_ok.mp returned
  cases returned
  obtain ⟨m₁, n₁, held₁, middleSpans, stays⟩ := moved.release sorted.1
    (fun e member => complete e (List.mem_append_left _ member)) releasedPreceding
  obtain ⟨m₂, n₂, held₂, nextSpans, _⟩ := middleSpans.release sorted.2.1 (fun e member =>
    have old := complete e (List.mem_append_right _ member)
    ⟨stays e old.1 fun f inPreceding => sorted.2.2 f inPreceding e member, old.2⟩) releasedFollowing
  exact ⟨next, m₂, n₂, held₂, rfl, nextSpans⟩

end Spans

/-! ### Runs -/

variable {run : ReorderRun P} {recipient : Recipient P} {passed : ReorderBuffer P} {initial : Int}
  {bufferSize : Nat}

/-- In a run whose requests start near what is buffered, the buffered MSDUs span the window. -/
theorem ReorderReached.spans (small : bufferSize < 2048)
    (reached : ReorderReached (fun run call => ReorderCall.StaysNear run call) initial bufferSize
      run) :
    ∃ m n held, Spans run.receiveBuffer m n held := by
  induction reached with
  | init => exact ⟨initial, initial, [], .start bufferSize small initial⟩
  | @step run recipient passed earlier call may returned ih =>
    obtain ⟨m, n, held, spans⟩ := ih
    show ∃ m n held, Spans (createReceiveBufferIfNecessary recipient) m n held
    cases call with
    | processReceivedQoSFrame frame =>
      rcases spans.frame_cases rfl returned with
        ⟨_, left⟩ | ⟨_, i, inserted, held', _, _, _, _, insertedSpans, outcome⟩
      · rw [createReceiveBufferIfNecessary, left]
        exact ⟨m, n, held, spans⟩
      · rcases outcome with ⟨left, _⟩ | ⟨e, next, _, _, left, nextSpans⟩
        · rw [createReceiveBufferIfNecessary, left]
          exact ⟨m, n, held', insertedSpans⟩
        · rw [createReceiveBufferIfNecessary, left]
          exact ⟨_, _, _, nextSpans⟩
    | processReceivedBlockAckReq blockAckReq =>
      cases blockAckReq with
      | other => cases returned
      | basic start =>
        obtain ⟨⟨agreement, buffer⟩, number, received, latest, delivered⟩ := run
        cases buffer with
        | none =>
          cases returned
          exact ⟨m, n, held, spans⟩
        | some buffer =>
          obtain ⟨s, reach, rfl⟩ : ∃ s, InReach n s ∧ start = seqOf s :=
            ⟨_, nearest_inReach n start, (seqOf_nearest n start).symm⟩
          obtain ⟨next, m', n', held', left, nextSpans⟩ :=
            Spans.request_step spans reach may returned
          rw [createReceiveBufferIfNecessary, left]
          exact ⟨m', n', held', nextSpans⟩

/-- MSDU 0, with one fragment. -/
def gapFrame : DataFrame Unit := ⟨0, 0, false, .normalAck, ()⟩

end Inet.Ieee80211
