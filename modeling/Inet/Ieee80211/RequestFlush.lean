import Inet.Ieee80211.ReorderRuns

/-!
# Flushing the reorder window

A block ack request that starts ahead of the window takes the MSDUs before its starting sequence
number out of the buffer, unless an incomplete one is behind all complete ones. Frames and requests
before it are arbitrary otherwise.
-/
namespace Inet.Ieee80211

open Lib OrderedMap SequenceNumber BlockAckReordering

variable {P : Type} {receiveBuffer : ReceiveBuffer P} {n s : Int} {held : Held P}
  {fragments : Fragments P}

/-- A request leaves no MSDU before its starting sequence number, has passed up the complete ones
in order, and keeps what is left in the window. -/
structure Flushed (receiveBuffer next : ReceiveBuffer P) (start : SequenceNumber)
    (passed : ReorderBuffer P) : Prop where
  none_before : ∀ entry ∈ next.buffer, less entry.1 start = false
  released : ∀ entry ∈ receiveBuffer.buffer, less entry.1 start = true →
    isComplete entry.2 = true → entry ∈ passed
  in_order : passed.Pairwise fun e f => less e.1 f.1 = true
  window : ∀ entry ∈ next.buffer,
    (entry.1 - next.nextExpectedSequenceNumber).toNat < next.bufferSize
  length : next.length = ((next.buffer.map fun entry => entry.2.length).sum : Nat)

/-- The request returns, and flushes the window. -/
def Flushes (recipient : Recipient P) (receiveBuffer : ReceiveBuffer P)
    (start : SequenceNumber) : Prop :=
  ∃ agreement next passed, processReceivedBlockAckReq recipient (.basic start) =
      .ok (⟨agreement, some next⟩, passed) ∧
    Flushed receiveBuffer next start passed

/-- The starting MSDU is buffered complete, or each MSDU before it is complete or followed by a
complete one that is before it, too. -/
def Flushable (receiveBuffer : ReceiveBuffer P) (start : SequenceNumber) : Prop :=
  (∃ entry ∈ receiveBuffer.buffer, entry.1 = start ∧ isComplete entry.2 = true) ∨
    ∀ entry ∈ receiveBuffer.buffer, less entry.1 start = true →
      ∃ later ∈ receiveBuffer.buffer, isComplete later.2 = true ∧ less later.1 start = true ∧
        lessOrEqual entry.1 later.1 = true

/-- Requests that start ahead of the window are those that flush it. -/
def ReorderCall.MayFlush (run : ReorderRun P) : ReorderCall P → Prop
  | .processReceivedBlockAckReq (.basic start) =>
    less run.receiveBuffer.nextExpectedSequenceNumber start = true →
      Flushable run.receiveBuffer start
  | _ => True

/-! ### Requests behind the window -/

/-- Behind the window comparisons are the other way round beyond half of the sequence space. -/
theorem less_behind {i : Int} (behind : s < i) (near : i < s + 4096) :
    less (seqOf i) (seqOf s) = decide (s + 2048 < i) ∧
      less (seqOf s) (seqOf i) = decide (i < s + 2048) := by
  have ahead := toNat_seqOf_sub (i := i) (j := s)
  have back := toNat_seqOf_sub (i := s) (j := i)
  constructor
  · rw [less, Bool.eq_iff_iff]
    simp only [Bool.and_eq_true, decide_eq_true_eq]
    omega
  · rw [less, Bool.eq_iff_iff]
    simp only [Bool.and_eq_true, decide_eq_true_eq]
    omega

namespace Follows

/-- An MSDU exactly half of the sequence space ahead is taken for the one that is looked for. -/
theorem find_behind (follows : Follows receiveBuffer n held) (old : s < n) (reach : n ≤ s + 2048)
    {found : Option (Fragments P)} (returned : receiveBuffer.buffer.find (seqOf s) = .ok found)
    (mixed : ¬ ∀ e ∈ held, s + 2048 < e.1) :
    (∀ e ∈ held, e.1 ≤ s + 2048) ∧
      (found = none ∨ ∃ fragments, held = [(s + 2048, fragments)] ∧ found = some fragments) := by
  have small := follows.small
  have behind (e : Int × Fragments P) (member : e ∈ held) := by
    have inside := follows.inside e member
    exact less_behind (s := s) (i := e.1) (by omega) (by omega)
  rw [ReorderBuffer.find, follows.buffer, OrderedMap.find, search] at returned
  cases held with
  | nil => exact absurd (fun _ absent => by cases absent) mixed
  | cons first rest =>
    obtain ⟨above, _⟩ := sorted_cons.mp follows.sorted
    have first_near : first.1 ≤ s + 2048 := by
      by_contra far
      refine mixed fun e member => ?_
      rcases List.mem_cons.mp member with rfl | later
      · omega
      · have := above e later
        omega
    have whole : (keyed seqOf (first :: rest)).dropWhile (fun e => less e.1 (seqOf s)) =
        keyed seqOf (first :: rest) := by
      rw [keyed_cons, List.dropWhile_cons, if_neg]
      rw [(behind first List.mem_cons_self).1]
      simpa using first_near
    split at returned
    next searchable =>
      rw [Searchable, whole] at searchable
      have near (e : Int × Fragments P) (member : e ∈ first :: rest) : e.1 ≤ s + 2048 := by
        have unordered := searchable (seqOf e.1, e.2) (List.mem_map.mpr ⟨e, member, rfl⟩)
        rw [(behind e member).1] at unordered
        simpa using unordered
      refine ⟨near, ?_⟩
      rw [ok_bind, whole, keyed_cons] at returned
      simp only [(behind first List.mem_cons_self).2] at returned
      by_cases last : first.1 < s + 2048
      · rw [if_pos (decide_eq_true last)] at returned
        cases returned
        exact .inl rfl
      · rw [if_neg (by simpa using last)] at returned
        cases returned
        have none : rest = [] := by
          cases rest with
          | nil => rfl
          | cons e others =>
            have := above e List.mem_cons_self
            have := near e (.tail _ List.mem_cons_self)
            omega
        obtain rfl := none
        exact .inr ⟨first.2, by rw [show first = (s + 2048, first.2) from
          Prod.ext (by simp only; omega) rfl], rfl⟩
    next => cases returned

/-- The MSDU that is taken for the starting one is passed up, and the window moves back. -/
theorem wrong_following (follows : Follows receiveBuffer n [(s + 2048, fragments)])
    (agreement : RecipientBlockAckAgreement) (old : s < n)
    (found : receiveBuffer.buffer.find (seqOf s) = .ok (some fragments))
    (complete : isComplete fragments = true) :
    ∃ released next passed, processReceivedBlockAckReq ⟨agreement, some receiveBuffer⟩
        (.basic (seqOf s)) = .ok (⟨released, some next⟩, passed) ∧
      next.bufferSize = receiveBuffer.bufferSize ∧ Follows next (s + 1) [] := by
  have small := follows.small
  have inside := follows.inside _ List.mem_cons_self
  simp only at inside
  obtain ⟨before, after⟩ := less_behind (s := s) (i := s + 2048) (by omega) (by omega)
  simp only [lt_self_iff_false, decide_false] at before after
  have buffer : receiveBuffer.buffer = [(seqOf (s + 2048), fragments)] := follows.buffer
  have collected := follows.preceding_ok (seqOf s)
  rw [List.filter_cons_of_neg (by simp [before])] at collected
  -- the MSDU is found under the starting number, and no other one behind it
  have followed : collectConsecutiveCompleteFollowingMpdus receiveBuffer (seqOf s) =
      .ok [(seqOf s, fragments)] := by
    rw [collectConsecutiveCompleteFollowingMpdus]
    obtain ⟨remaining, size⟩ : ∃ remaining, receiveBuffer.bufferSize = remaining + 1 :=
      ⟨receiveBuffer.bufferSize - 1, by omega⟩
    have zero : seqOf s + BitVec.ofNat 12 0 = seqOf s := by simp
    rw [size, collectFrom, addMsduIfComplete, zero, found, ok_bind]
    simp only [complete, if_true]
    cases remaining with
    | zero => rfl
    | succ remaining =>
      have next : seqOf s + BitVec.ofNat 12 1 = seqOf (s + 1) := seqOf_add 1
      obtain ⟨before, after⟩ := less_behind (s := s + 1) (i := s + 2048) (by omega) (by omega)
      have absent : receiveBuffer.buffer.find (seqOf (s + 1)) = .ok none := by
        have later : less (seqOf (s + 1)) (seqOf (s + 2048)) = true := by
          rw [after, decide_eq_true_eq]
          omega
        have first : less (seqOf (s + 2048)) (seqOf (s + 1)) = false := by
          rw [before, decide_eq_false_iff_not]
          omega
        rw [ReorderBuffer.find, buffer, OrderedMap.find, search]
        simp only [Searchable, List.dropWhile_cons, first, Bool.false_eq_true, if_false,
          List.forall_mem_singleton, if_true, ok_bind, later]
        rfl
      simp only [ReorderBuffer.alter, OrderedMap.alter, search, Searchable, List.takeWhile_nil,
        List.dropWhile_nil, List.not_mem_nil, false_imp_iff, implies_true, if_true, ok_bind,
        pure_bind, List.nil_append, collectFrom, addMsduIfComplete, next, absent]
      rfl
  have length : receiveBuffer.length - fragments.length = 0 := by
    have length := follows.length
    simp only [count, List.map_cons, List.map_nil, List.sum_cons, List.sum_nil] at length
    omega
  have passed : passedUp agreement receiveBuffer (seqOf s) = .ok ({ agreement with
        blockAckRecord := agreement.blockAckRecord.removeAckStates (seqOf s) },
      { receiveBuffer with
        buffer := []
        length := 0
        nextExpectedSequenceNumber := seqOf s + 1 }) := by
    simp only [passedUp, ReceiveBuffer.dropFramesUntil, ReceiveBuffer.removeFrame,
      ReorderBuffer.find, ReorderBuffer.erase, OrderedMap.find, OrderedMap.erase, search, Searchable,
      buffer, List.filter_cons, List.filter_nil, List.dropWhile_cons, List.takeWhile_cons, before,
      after, Bool.not_false, Bool.false_eq_true, if_false, if_true, List.forall_mem_singleton,
      List.map_nil, List.sum_nil, Int.natCast_zero, Int.sub_zero, ok_bind, pure_bind, length]
    rfl
  have next : seqOf s + 1 = seqOf (s + 1) := seqOf_add 1
  refine ⟨{ agreement with
      blockAckRecord := agreement.blockAckRecord.removeAckStates (seqOf s) },
    { receiveBuffer with
      buffer := []
      length := 0
      nextExpectedSequenceNumber := seqOf s + 1 }, [(seqOf s, fragments)], ?_, rfl,
    ⟨rfl, .nil, fun _ absent => (by cases absent), next, rfl, Nat.zero_le _, small,
      fun _ absent => by cases absent⟩⟩
  have unmoved : moveWindow receiveBuffer (seqOf s) 1 = receiveBuffer := rfl
  simp only [processReceivedBlockAckReq, collected, followed, ok_bind, List.filter_nil, keyed,
    List.map_nil, List.length_nil, List.length_singleton, Nat.zero_add, unmoved,
    releaseReceiveBuffer, List.foldlM_nil, List.foldlM_cons, pure_bind, passed]
  rfl

/-- A request from behind the window that returns leaves a window with what is buffered in it. -/
theorem old_request (follows : Follows receiveBuffer n held)
    {agreement : RecipientBlockAckAgreement} (old : s < n) (reach : n ≤ s + 2048)
    {recipient : Recipient P} {passed : ReorderBuffer P}
    (returned : processReceivedBlockAckReq ⟨agreement, some receiveBuffer⟩ (.basic (seqOf s)) =
      .ok (recipient, passed)) :
    ∃ next n' held', recipient.receiveBuffer = some next ∧ Follows next n' held' ∧
      InReach n n' := by
  have small := follows.small
  by_cases far : ∀ e ∈ held, s + 2048 < e.1
  · have number : nearest n (seqOf s) = s := nearest_seqOf ⟨by omega, by omega⟩
    have keeps : KeepsWindow receiveBuffer n (seqOf s) := by
      rw [KeepsWindow, number]
      refine ⟨fun _ => .inr ((follows.all_buffer fun i _ => s + 2048 < i).mpr far), ?_⟩
      intro newer
      omega
    obtain ⟨released, next, passing, n', held', returned', size, nextFollows, moves, near⟩ :=
      follows.request_ok agreement keeps
    rw [returned] at returned'
    cases returned'
    have forward := moves.forward
    exact ⟨next, n', held', rfl, nextFollows, by omega, by omega⟩
  · have collected := follows.preceding_ok (seqOf s)
    obtain ⟨_, _, returned'⟩ := bind_eq_ok.mp returned
    obtain ⟨_, followed, _⟩ := bind_eq_ok.mp returned'
    have zero : seqOf s + BitVec.ofNat 12 0 = seqOf s := by simp
    obtain ⟨remaining, size⟩ : ∃ remaining, receiveBuffer.bufferSize = remaining + 1 := by
      refine ⟨receiveBuffer.bufferSize - 1, ?_⟩
      by_contra empty
      refine far fun e member => ?_
      have := follows.inside e member
      omega
    rw [collectConsecutiveCompleteFollowingMpdus, size, collectFrom, zero] at followed
    obtain ⟨_, adds, _⟩ := bind_eq_ok.mp followed
    obtain ⟨found, finds, _⟩ := bind_eq_ok.mp adds
    obtain ⟨_, found_eq⟩ := follows.find_behind old reach finds far
    by_cases wrong : ∃ fragments, held = [(s + 2048, fragments)] ∧ found = some fragments ∧
        isComplete fragments = true
    · obtain ⟨fragments, rfl, rfl, complete⟩ := wrong
      obtain ⟨_, next, _, returned', _, nextFollows⟩ :=
        follows.wrong_following agreement old finds complete
      rw [returned] at returned'
      cases returned'
      exact ⟨next, s + 1, [], rfl, nextFollows, by omega, by omega⟩
    · have nothing : collectConsecutiveCompleteFollowingMpdus receiveBuffer (seqOf s) =
          .ok (keyed seqOf ([] : Held P)) := by
        rw [collectConsecutiveCompleteFollowingMpdus, size, collectFrom, addMsduIfComplete, zero,
          finds, ok_bind]
        rcases found_eq with rfl | ⟨fragments, held_eq, rfl⟩
        · rfl
        · have incomplete : ¬ isComplete fragments = true := fun complete =>
            wrong ⟨fragments, held_eq, rfl, complete⟩
          simp only [if_neg incomplete]
          rfl
      have complete : ∀ e ∈ (held.filter fun e => less (seqOf e.1) (seqOf s) && isComplete e.2) ++ [],
          e ∈ held ∧ isComplete e.2 = true := by
        intro e member
        rw [List.append_nil] at member
        obtain ⟨inHeld, kept⟩ := List.mem_filter.mp member
        exact ⟨inHeld, (Bool.and_eq_true _ _ ▸ kept).2⟩
      have unmoved : less (seqOf n) (seqOf s) = false := by
        rw [(less_behind old (by omega)).1, decide_eq_false_iff_not]
        omega
      obtain ⟨_, next, n', held', returned', _, nextFollows, moves, near, _⟩ :=
        follows.passUp_ok agreement (by
          rw [List.append_nil]
          exact follows.close.sublist List.filter_sublist) complete collected nothing
          fun _ => unmoved
      rw [returned] at returned'
      cases returned'
      have forward := moves.forward
      exact ⟨next, n', held', rfl, nextFollows, by omega, by omega⟩

/-! ### Requests ahead of the window -/

theorem ahead_iff (follows : Follows receiveBuffer n held) (reach : InReach n s) :
    less receiveBuffer.nextExpectedSequenceNumber (seqOf s) = true ↔ n < s := by
  have distance := toNat_seqOf_sub (i := n) (j := s)
  obtain ⟨below, above⟩ := reach
  rw [follows.nextExpected, less]
  simp only [Bool.and_eq_true, decide_eq_true_eq]
  omega

/-- From the window on, numbers of buffered MSDUs compare with the starting one as the MSDUs do. -/
theorem less_start (follows : Follows receiveBuffer n held) (ahead : n ≤ s) (near : s < n + 2048)
    {e : Int × Fragments P} (member : e ∈ held) :
    less (seqOf e.1) (seqOf s) = decide (e.1 < s) := by
  have inside := follows.inside e member
  have small := follows.small
  exact less_seqOf (by omega) (by omega)

theorem flushable_iff (follows : Follows receiveBuffer n held) (ahead : n ≤ s)
    (near : s < n + 2048) :
    Flushable receiveBuffer (seqOf s) ↔
      (∃ fragments, (s, fragments) ∈ held ∧ isComplete fragments = true) ∨
        ∀ e ∈ held, e.1 < s → ∃ f ∈ held, isComplete f.2 = true ∧ f.1 < s ∧ e.1 ≤ f.1 := by
  have small := follows.small
  have buffered (e : SequenceNumber × Fragments P) :
      e ∈ receiveBuffer.buffer ↔ ∃ f ∈ held, (seqOf f.1, f.2) = e := by
    rw [follows.buffer]
    exact List.mem_map
  have not_after (e f : Int × Fragments P) (inHeld : e ∈ held) (alsoHeld : f ∈ held) :
      lessOrEqual (seqOf e.1) (seqOf f.1) = true ↔ e.1 ≤ f.1 := by
    have e_inside := follows.inside e inHeld
    have f_inside := follows.inside f alsoHeld
    rw [lessOrEqual_seqOf ⟨by omega, by omega⟩, decide_eq_true_eq]
  unfold Flushable
  refine or_congr ?_ ?_
  · constructor
    · rintro ⟨entry, member, same, complete⟩
      obtain ⟨e, inHeld, rfl⟩ := (buffered entry).mp member
      have inside := follows.inside e inHeld
      have equal := seqOf_inj.mp same
      have number : e.1 = s := by omega
      exact ⟨e.2, number ▸ inHeld, complete⟩
    · rintro ⟨fragments, member, complete⟩
      exact ⟨(seqOf s, fragments), (buffered _).mpr ⟨_, member, rfl⟩, rfl, complete⟩
  · constructor
    · intro followed e inHeld before
      obtain ⟨later, member, complete, less_later, after⟩ := followed (seqOf e.1, e.2)
        ((buffered _).mpr ⟨e, inHeld, rfl⟩)
        (by rw [follows.less_start ahead near inHeld]; exact decide_eq_true before)
      obtain ⟨f, alsoHeld, rfl⟩ := (buffered later).mp member
      rw [follows.less_start ahead near alsoHeld, decide_eq_true_eq] at less_later
      exact ⟨f, alsoHeld, complete, less_later, (not_after e f inHeld alsoHeld).mp after⟩
    · intro followed entry member before
      obtain ⟨e, inHeld, rfl⟩ := (buffered entry).mp member
      rw [follows.less_start ahead near inHeld, decide_eq_true_eq] at before
      obtain ⟨f, alsoHeld, complete, below, after⟩ := followed e inHeld before
      refine ⟨(seqOf f.1, f.2), (buffered _).mpr ⟨f, alsoHeld, rfl⟩, complete, ?_,
        (not_after e f inHeld alsoHeld).mpr after⟩
      rw [follows.less_start ahead near alsoHeld]
      exact decide_eq_true below

/-- A request that flushes the window keeps it. -/
theorem keeps_of_flushable (follows : Follows receiveBuffer n held) (reach : InReach n s)
    (current : n ≤ s) (flushable : n < s → Flushable receiveBuffer (seqOf s)) :
    KeepsWindow receiveBuffer n (seqOf s) := by
  rw [KeepsWindow, nearest_seqOf reach]
  refine ⟨fun old => absurd old (by omega), fun newer incomplete => ?_⟩
  have incomplete := (follows.all_buffer fun i fragments =>
    i ≤ s → isComplete fragments = false).mp incomplete
  refine (follows.all_buffer fun i _ => s ≤ i).mpr fun e member => ?_
  by_contra before
  rcases (follows.flushable_iff current reach.1).mp (flushable newer) with
    ⟨fragments, inHeld, complete⟩ | followed
  · rw [incomplete _ inHeld (Int.le_refl s)] at complete
    cases complete
  · obtain ⟨f, inHeld, complete, below, _⟩ := followed e member (by omega)
    rw [incomplete f inHeld (by omega)] at complete
    cases complete

theorem in_window (follows : Follows receiveBuffer n held) :
    ∀ entry ∈ receiveBuffer.buffer,
      (entry.1 - receiveBuffer.nextExpectedSequenceNumber).toNat < receiveBuffer.bufferSize := by
  intro entry member
  rw [follows.buffer] at member
  obtain ⟨e, inHeld, rfl⟩ := List.mem_map.mp member
  have inside := follows.inside e inHeld
  have small := follows.small
  have distance := toNat_seqOf_sub (i := n) (j := e.1)
  rw [follows.nextExpected]
  simp only
  omega

/-- What makes a request flush the window. -/
theorem flushed (follows : Follows receiveBuffer n held) (ahead : n ≤ s) (near : s < n + 2048)
    {next : ReceiveBuffer P} {n' : Int} {held' passing : Held P}
    (nextFollows : Follows next n' held') (kept : ∀ e ∈ held', e ∈ held ∧ s ≤ e.1)
    (close : Close passing)
    (released : ∀ e ∈ held, e.1 < s → isComplete e.2 = true → e ∈ passing) :
    Flushed receiveBuffer next (seqOf s) (keyed seqOf passing) where
  none_before := by
    intro entry member
    rw [nextFollows.buffer] at member
    obtain ⟨e, inHeld, rfl⟩ := List.mem_map.mp member
    obtain ⟨old, above⟩ := kept e inHeld
    rw [follows.less_start ahead near old, decide_eq_false_iff_not]
    omega
  released := by
    intro entry member before complete
    rw [follows.buffer] at member
    obtain ⟨e, inHeld, rfl⟩ := List.mem_map.mp member
    rw [follows.less_start ahead near inHeld, decide_eq_true_eq] at before
    exact List.mem_map.mpr ⟨e, released e inHeld before complete, rfl⟩
  in_order := by
    rw [keyed, List.pairwise_map]
    refine close.imp fun {e f} between => ?_
    rw [less_seqOf (by omega) (by omega)]
    exact decide_eq_true between.1
  window := nextFollows.in_window
  length := by
    rw [nextFollows.length, nextFollows.buffer, keyed, List.map_map]
    rfl

theorem flushes_iff_flushable (follows : Follows receiveBuffer n held)
    (agreement : RecipientBlockAckAgreement) (ahead : n < s) (near : s < n + 2048) :
    Flushes ⟨agreement, some receiveBuffer⟩ receiveBuffer (seqOf s) ↔
      Flushable receiveBuffer (seqOf s) := by
  have small := follows.small
  have current := Int.le_of_lt ahead
  have reach : InReach n s := ⟨near, by omega⟩
  rw [follows.flushable_iff current near]
  have collected := follows.preceding_ok (seqOf s)
  rw [follows.preceding_near reach current] at collected
  have followed := follows.following_ok current near
  obtain ⟨close, complete⟩ := follows.collected_close (s := s) receiveBuffer.bufferSize
  have in_preceding (e : Int × Fragments P) (member : e ∈ held) (before : e.1 < s)
      (whole : isComplete e.2 = true) :
      e ∈ held.filter fun e => decide (e.1 < s) && isComplete e.2 :=
    List.mem_filter.mpr ⟨member, by simp [before, whole]⟩
  by_cases none : ((held.filter fun e => decide (e.1 < s) && isComplete e.2) ++
      consecutive held receiveBuffer.bufferSize s) = []
  · -- nothing is passed up, what is before the starting MSDU stays
    obtain ⟨noPreceding, noFollowing⟩ := List.append_eq_nil_iff.mp none
    have start_incomplete := follows.consecutive_eq_nil.mp noFollowing
    rw [noPreceding] at collected
    rw [noFollowing] at followed
    have moved := follows.moves_window agreement
      ((less_seqOf (by omega) near).trans (decide_eq_true ahead)) collected followed
    have none_before : ((∃ fragments, (s, fragments) ∈ held ∧ isComplete fragments = true) ∨
        ∀ e ∈ held, e.1 < s → ∃ f ∈ held, isComplete f.2 = true ∧ f.1 < s ∧ e.1 ≤ f.1) ↔
          ∀ e ∈ held, s ≤ e.1 := by
      constructor
      · rintro (⟨fragments, member, whole⟩ | followed) e inHeld
        · rw [start_incomplete fragments member] at whole
          cases whole
        · by_contra before
          obtain ⟨f, member, whole, below, _⟩ := followed e inHeld (by omega)
          have preceding := in_preceding f member below whole
          rw [noPreceding] at preceding
          cases preceding
      · intro above
        exact .inr fun e inHeld before => absurd (above e inHeld) (by omega)
    rw [none_before]
    constructor
    · rintro ⟨released, next, passed, returned, flushed⟩ e inHeld
      rw [moved] at returned
      cases returned
      have member : (seqOf e.1, e.2) ∈ receiveBuffer.buffer := by
        rw [follows.buffer]
        exact List.mem_map.mpr ⟨e, inHeld, rfl⟩
      have not_less := flushed.none_before _ member
      rw [follows.less_start current near inHeld, decide_eq_false_iff_not] at not_less
      omega
    · intro above
      refine ⟨agreement, _, _, moved, ?_⟩
      have nextFollows : Follows { receiveBuffer with nextExpectedSequenceNumber := seqOf s } s
          held := by
        refine ⟨follows.buffer, follows.sorted, fun e member => ?_, rfl, follows.length,
          follows.fits, small, follows.fragments⟩
        have inside := follows.inside e member
        have above := above e member
        simp only
        omega
      refine follows.flushed current near nextFollows (fun e member => ⟨member, above e member⟩)
        (.nil : Close ([] : Held P)) fun e inHeld before _ => ?_
      have above := above e inHeld
      omega
  · obtain ⟨released, next, n', held', returned, _, nextFollows, moves, _, stays, last⟩ :=
      follows.passUp_ok agreement close complete collected followed fun empty => absurd empty none
    obtain ⟨last, passed_last, n'_eq⟩ := last.resolve_left none
    have left (e : Int × Fragments P) : e ∈ held' ↔ e ∈ held ∧ n' ≤ e.1 :=
      ⟨fun member => ⟨moves.kept e member, (nextFollows.inside e member).1⟩,
        fun member => stays e member.1 member.2⟩
    have flushes_iff : Flushes ⟨agreement, some receiveBuffer⟩ receiveBuffer (seqOf s) ↔
        ∀ e ∈ held, n' ≤ e.1 → s ≤ e.1 := by
      constructor
      · rintro ⟨_, _, _, returned', flushed⟩ e inHeld above
        rw [returned] at returned'
        cases returned'
        have member : (seqOf e.1, e.2) ∈ next.buffer := by
          rw [nextFollows.buffer]
          exact List.mem_map.mpr ⟨e, (left e).mpr ⟨inHeld, above⟩, rfl⟩
        have not_less := flushed.none_before _ member
        rw [follows.less_start current near inHeld, decide_eq_false_iff_not] at not_less
        omega
      · intro above
        refine ⟨released, next, _, returned, follows.flushed current near nextFollows ?_ close ?_⟩
        · intro e member
          obtain ⟨inHeld, from_next⟩ := (left e).mp member
          exact ⟨inHeld, above e inHeld from_next⟩
        · intro e inHeld before whole
          exact List.mem_append_left _ (in_preceding e inHeld before whole)
    rw [flushes_iff]
    by_cases start_complete : ∃ fragments, (s, fragments) ∈ held ∧ isComplete fragments = true
    · -- the window ends up behind the starting MSDU
      refine iff_of_true (fun e inHeld above => ?_) (.inl start_complete)
      obtain ⟨fragments, member, whole⟩ := start_complete
      obtain ⟨f, following⟩ := List.exists_mem_of_ne_nil _
        (mt follows.consecutive_eq_nil.mp fun incomplete => by
          rw [incomplete fragments member] at whole
          cases whole)
      have from_start := (mem_consecutive follows.sorted following).1
      have below := moves.below f (List.mem_append_right _ following)
      omega
    · have noFollowing : consecutive held receiveBuffer.bufferSize s = [] :=
        follows.consecutive_eq_nil.mpr fun fragments member => by
          rw [← Bool.not_eq_true]
          exact fun whole => start_complete ⟨fragments, member, whole⟩
      rw [noFollowing, List.append_nil] at passed_last
      obtain ⟨last_held, last_kept⟩ := List.mem_filter.mp passed_last
      simp only [Bool.and_eq_true, decide_eq_true_eq] at last_kept
      rw [or_iff_right start_complete]
      constructor
      · intro above e inHeld before
        refine ⟨last, last_held, last_kept.2, last_kept.1, ?_⟩
        by_contra behind
        have above := above e inHeld (by omega)
        omega
      · intro followed e inHeld above
        by_contra before
        obtain ⟨f, member, whole, below, later⟩ := followed e inHeld (by omega)
        have passed := moves.below f (List.mem_append_left _ (in_preceding f member below whole))
        omega

/-! ### Runs -/

variable {run : ReorderRun P} {recipient : Recipient P} {passed : ReorderBuffer P}

/-- After a call the buffer is that of the window of the run. -/
theorem window_after {next : ReceiveBuffer P} {n' : Int} {held' : Held P}
    (nextFollows : Follows next n' held') (reach : InReach run.next n') (call : ReorderCall P)
    (left : createReceiveBufferIfNecessary recipient = next) :
    Follows (run.after call recipient passed).receiveBuffer
      (run.after call recipient passed).next held' := by
  have number : (run.after call recipient passed).next = n' := by
    simp only [ReorderRun.after, left, nextFollows.nextExpected]
    exact nearest_seqOf reach
  rw [number, ReorderRun.receiveBuffer]
  exact left ▸ nextFollows

theorem frame_step (follows : Follows run.receiveBuffer run.next held) {frame : DataFrame P}
    (returned : processReceivedQoSFrame run.recipient frame = .ok (recipient, passed)) :
    ∃ next n' held', createReceiveBufferIfNecessary recipient = next ∧ Follows next n' held' ∧
      InReach run.next n' := by
  have small := follows.small
  have numbered : frame.sequenceNumber = seqOf (nearest run.next frame.sequenceNumber) :=
    (seqOf_nearest _ _).symm
  rw [processReceivedQoSFrame] at returned
  rcases follows.insertFrame_ok (nearest_inReach run.next frame.sequenceNumber) numbered with
    refused | ⟨buffer, inserted, size, _, bufferFollows⟩
  · rw [ReorderRun.receiveBuffer] at refused
    rw [refused, ok_bind] at returned
    cases returned
    exact ⟨run.receiveBuffer, run.next, held, rfl, follows, by omega, by omega⟩
  · rw [ReorderRun.receiveBuffer] at inserted
    rw [inserted, ok_bind] at returned
    obtain ⟨agreement, _, returned⟩ := bind_eq_ok.mp returned
    obtain ⟨released, next, passing, n', held', passedUp, _, nextFollows, moves, near⟩ :=
      bufferFollows.passUpEarliest_ok agreement
    rw [returned] at passedUp
    cases passedUp
    have forward := moves.forward
    exact ⟨next, n', held', rfl, nextFollows, by omega, by omega⟩

theorem request_step (follows : Follows run.receiveBuffer run.next held) {start : SequenceNumber}
    (may : (ReorderCall.processReceivedBlockAckReq (.basic start)).MayFlush run)
    (returned : processReceivedBlockAckReq run.recipient (.basic start) =
      .ok (recipient, passed)) :
    ∃ next n' held', createReceiveBufferIfNecessary recipient = next ∧ Follows next n' held' ∧
      InReach run.next n' := by
  have small := follows.small
  obtain ⟨⟨agreement, buffer⟩, n, received, latest, delivered⟩ := run
  cases buffer with
  | none =>
    cases returned
    exact ⟨_, n, held, rfl, follows, by simp only; omega, by simp only; omega⟩
  | some buffer =>
    obtain ⟨s, reach, rfl⟩ : ∃ s, InReach n s ∧ start = seqOf s :=
      ⟨_, nearest_inReach n start, (seqOf_nearest n start).symm⟩
    by_cases old : s < n
    · obtain ⟨next, n', held', left, nextFollows, reach⟩ :=
        follows.old_request old reach.2 returned
      refine ⟨next, n', held', ?_, nextFollows, reach⟩
      rw [createReceiveBufferIfNecessary, left]
    · have keeps := follows.keeps_of_flushable reach (by simp only; omega) fun newer =>
        may ((follows.ahead_iff reach).mpr newer)
      obtain ⟨released, next, passing, n', held', returned', _, nextFollows, moves, near⟩ :=
        follows.request_ok agreement keeps
      cases returned.symm.trans returned'
      have forward := moves.forward
      simp only at forward near
      exact ⟨next, n', held', rfl, nextFollows, by simp only; omega, by simp only; omega⟩

end Follows

/-- In a run whose requests flush the window, what is buffered is in the window. -/
theorem window_kept {initial : Int} {bufferSize : Nat} {run : ReorderRun P}
    (small : bufferSize < 2048)
    (reached : ReorderReached (fun run call => ReorderCall.MayFlush run call) initial bufferSize run) :
    ∃ held, Follows run.receiveBuffer run.next held := by
  induction reached with
  | init => exact ⟨[], rfl, .nil, nofun, rfl, rfl, Nat.zero_le _, small, nofun⟩
  | step earlier call may returned ih =>
    obtain ⟨held, follows⟩ := ih
    cases call with
    | processReceivedQoSFrame frame =>
      obtain ⟨next, n', held', left, nextFollows, reach⟩ := follows.frame_step returned
      exact ⟨held', nextFollows.window_after reach _ left⟩
    | processReceivedBlockAckReq blockAckReq =>
      cases blockAckReq with
      | other => cases returned
      | basic start =>
        obtain ⟨next, n', held', left, nextFollows, reach⟩ := follows.request_step may returned
        exact ⟨held', nextFollows.window_after reach _ left⟩

/-- In a run whose requests flush the window so far, the next one that starts ahead of it flushes
it exactly if the starting MSDU is buffered complete, or no MSDU before it is behind the complete
ones before it. -/
theorem flushes_iff {initial : Int} {bufferSize : Nat} {run : ReorderRun P}
    (small : bufferSize < 2048)
    (reached : ReorderReached (fun run call => ReorderCall.MayFlush run call) initial bufferSize run)
    (receiveBuffer : ReceiveBuffer P) (made : run.recipient.receiveBuffer = some receiveBuffer)
    (start : SequenceNumber)
    (ahead : less receiveBuffer.nextExpectedSequenceNumber start = true) :
    Flushes run.recipient receiveBuffer start ↔ Flushable receiveBuffer start := by
  obtain ⟨held, follows⟩ := window_kept small reached
  obtain ⟨⟨agreement, buffer⟩, n, received, latest, delivered⟩ := run
  simp only at made
  subst made
  obtain ⟨s, reach, rfl⟩ : ∃ s, InReach n s ∧ start = seqOf s :=
    ⟨_, nearest_inReach n start, (seqOf_nearest n start).symm⟩
  have follows : Follows receiveBuffer n held := follows
  exact follows.flushes_iff_flushable agreement ((follows.ahead_iff reach).mp ahead) reach.1

/-! ### Examples -/

/-- The recipient after a fragment with a sequence number, and the buffer that holds it. -/
def afterFragment (frame : DataFrame Unit) : Recipient Unit :=
  ⟨⟨0, 8, []⟩, some ⟨[(frame.sequenceNumber, [frame])], 8, 1, 0⟩⟩

/-- An MSDU with one fragment and no block ack policy. -/
def wholeMsdu : DataFrame Unit := ⟨1, 0, false, .normalAck, ()⟩

/-- MSDU 1 is passed up by a request that starts with MSDU 3. -/
theorem wholeMsdu_flushed : Flushes (afterFragment wholeMsdu)
    ⟨[(1, [wholeMsdu])], 8, 1, 0⟩ 3 := by
  have reached : ReorderReached (fun run call => ReorderCall.MayFlush run call) 0 8
      ((ReorderRun.start 0 8).after (.processReceivedQoSFrame wholeMsdu) (afterFragment wholeMsdu)
        []) :=
    .step .init _ trivial rfl
  refine (flushes_iff (by decide) reached _ rfl 3 (by decide)).mpr ?_
  unfold Flushable
  decide

/-- The first one of two fragments of MSDU 0. -/
def firstFragment : DataFrame Unit := ⟨0, 0, true, .normalAck, ()⟩

/-- The first fragment of MSDU 0 stays when a request starts with MSDU 5. -/
theorem fragment_not_flushed : ¬ ∀ (run : ReorderRun Unit) (receiveBuffer : ReceiveBuffer Unit)
    (start : SequenceNumber), ReorderReached (fun _ _ => True) 0 8 run →
      run.recipient.receiveBuffer = some receiveBuffer →
        less receiveBuffer.nextExpectedSequenceNumber start = true →
          Flushes run.recipient receiveBuffer start := by
  intro all
  have reached : ReorderReached (fun _ _ => True) 0 8
      ((ReorderRun.start 0 8).after (.processReceivedQoSFrame firstFragment) (afterFragment firstFragment)
        []) :=
    .step .init _ trivial rfl
  obtain ⟨agreement, next, passed, returned, flushed⟩ := all _ _ 5 reached rfl (by decide)
  have moved : processReceivedBlockAckReq (afterFragment firstFragment) (.basic 5) =
      .ok (⟨⟨0, 8, []⟩, some ⟨[(0, [firstFragment])], 8, 1, 5⟩⟩, []) := rfl
  cases moved.symm.trans returned
  exact absurd (flushed.none_before _ List.mem_cons_self) (by decide)

end Inet.Ieee80211
