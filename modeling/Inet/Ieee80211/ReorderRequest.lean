import Inet.Ieee80211.ReorderWindow

/-!
# Block ack requests

What a request passes up: the complete MSDUs before the starting sequence number, and those from there
on without a gap.
-/
namespace Inet.Ieee80211

open Lib OrderedMap SequenceNumber BlockAckReordering

variable {P : Type} {receiveBuffer : ReceiveBuffer P} {n s b : Int} {held done items : Held P}

/-- MSDUs are put in behind each other. -/
theorem append_ok (sorted : Sorted done) (near : ∀ e ∈ done, e.1 < b ∧ b < e.1 + 2048)
    (change : Option (Fragments P) → Fragments P) :
    ReorderBuffer.alter (keyed seqOf done) (seqOf b) change =
      .ok (keyed seqOf (done ++ [(b, change none)])) := by
  rw [ReorderBuffer.alter, alter_ok _ sorted fun e member =>
    have close := near e member
    compares (by omega) (by omega), alterAt_append fun e member => (near e member).1]

/-- The MSDUs are less than half of the sequence space apart. -/
def Close (items : Held P) : Prop := items.Pairwise fun e f => e.1 < f.1 ∧ f.1 < e.1 + 2048

theorem Close.sorted (close : Close items) : Sorted items := close.imp fun near => near.1

theorem Follows.close (follows : Follows receiveBuffer n held) : Close held := by
  have small := follows.small
  refine follows.sorted.imp_of_mem fun inHeld alsoHeld lt => ⟨lt, ?_⟩
  have := follows.inside _ inHeld
  have := follows.inside _ alsoHeld
  omega

theorem insertAll_ok (close : Close (done ++ items)) :
    (keyed seqOf items).foldlM (fun passed entry =>
      ReorderBuffer.alter passed entry.1 fun old => old.getD entry.2) (keyed seqOf done) =
        .ok (keyed seqOf (done ++ items)) := by
  induction items generalizing done with
  | nil =>
    rw [List.append_nil]
    rfl
  | cons e rest ih =>
    have near := (List.pairwise_append.mp close).2.2
    rw [keyed_cons, List.foldlM_cons,
      append_ok (Close.sorted (List.pairwise_append.mp close).1)
        fun f member => near f member e List.mem_cons_self, ok_bind, List.append_cons done e rest]
    rw [List.append_cons] at close
    exact ih close

theorem collectAll_ok (close : Close (done ++ items)) (keeps : SequenceNumber × Fragments P → Bool) :
    (keyed seqOf items).foldlM (fun preceding entry =>
      if keeps entry then ReorderBuffer.alter preceding entry.1 fun _ => entry.2
      else .ok preceding) (keyed seqOf done) =
        .ok (keyed seqOf (done ++ items.filter fun e => keeps (seqOf e.1, e.2))) := by
  induction items generalizing done with
  | nil =>
    rw [List.filter_nil, List.append_nil]
    rfl
  | cons e rest ih =>
    have near := (List.pairwise_append.mp close).2.2
    rw [keyed_cons, List.foldlM_cons]
    by_cases kept : keeps (seqOf e.1, e.2) = true
    · rw [if_pos kept, append_ok (Close.sorted (List.pairwise_append.mp close).1)
          fun f member => near f member e List.mem_cons_self, ok_bind,
        List.filter_cons_of_pos (by simpa using kept), List.append_cons done e (rest.filter _)]
      rw [List.append_cons] at close
      exact ih close
    · rw [if_neg kept, ok_bind, List.filter_cons_of_neg (by simpa using kept)]
      refine ih (close.sublist ?_)
      exact List.Sublist.append_left (List.sublist_cons_self _ _) done

theorem Follows.preceding_ok (follows : Follows receiveBuffer n held) (start : SequenceNumber) :
    collectCompletePrecedingMpdus receiveBuffer start =
      .ok (keyed seqOf (held.filter fun e => less (seqOf e.1) start && isComplete e.2)) := by
  rw [collectCompletePrecedingMpdus, follows.buffer]
  exact collectAll_ok (show Close ([] ++ held) from follows.close) fun entry =>
    less entry.1 start && isComplete entry.2

/-! ### Following MSDUs -/

/-- The complete MSDUs from one on, up to a gap. -/
def consecutive (held : Held P) : (remaining : Nat) → Int → Held P
  | 0, _ => []
  | remaining + 1, i =>
    match lookup i held with
    | some fragments =>
      if isComplete fragments then (i, fragments) :: consecutive held remaining (i + 1) else []
    | none => []

theorem mem_consecutive (sorted : Sorted held) {remaining : Nat} {i : Int} {e : Int × Fragments P}
    (member : e ∈ consecutive held remaining i) :
    i ≤ e.1 ∧ e ∈ held ∧ isComplete e.2 = true := by
  induction remaining generalizing i with
  | zero => cases member
  | succ remaining ih =>
    rw [consecutive] at member
    cases found : lookup i held with
    | none => simp [found] at member
    | some fragments =>
      simp only [found] at member
      split at member
      next complete =>
        rcases List.mem_cons.mp member with rfl | later
        · exact ⟨Int.le_refl _, (lookup_eq_some sorted).mp found, complete⟩
        · obtain ⟨le, old⟩ := ih later
          exact ⟨by omega, old⟩
      next => cases member

theorem sorted_consecutive (sorted : Sorted held) (remaining : Nat) (i : Int) :
    Sorted (consecutive held remaining i) := by
  induction remaining generalizing i with
  | zero => exact .nil
  | succ remaining ih =>
    rw [consecutive]
    split
    · split
      · refine sorted_cons.mpr ⟨fun e member => ?_, ih (i + 1)⟩
        have := (mem_consecutive sorted member).1
        simp only
        omega
      · exact .nil
    · exact .nil

theorem Follows.collectFrom_ok (follows : Follows receiveBuffer n held) (remaining k : Nat)
    (low : n ≤ s + k) (high : s + k < n + 2048) (sorted : Sorted done)
    (before : ∀ e ∈ done, n ≤ e.1 ∧ e.1 < s + k) :
    collectFrom receiveBuffer (seqOf s) remaining k (keyed seqOf done) =
      .ok (keyed seqOf (done ++ consecutive held remaining (s + k))) := by
  induction remaining generalizing k done with
  | zero =>
    rw [consecutive, List.append_nil]
    rfl
  | succ remaining ih =>
    rw [collectFrom, addMsduIfComplete, seqOf_add, follows.find_ok low high, ok_bind, consecutive]
    cases found : lookup (s + k) held with
    | none =>
      simp only [List.append_nil]
      rfl
    | some fragments =>
      simp only
      split
      next complete =>
        have inHeld := (lookup_eq_some follows.sorted).mp found
        have inside := follows.inside _ inHeld
        have small := follows.small
        have later : s + (k + 1 : Nat) = s + k + 1 := by omega
        have near (e : Int × Fragments P) (member : e ∈ done) :
            e.1 < s + k ∧ s + k < e.1 + 2048 := by
          have := before e member
          omega
        simp only [append_ok sorted near, ok_bind, pure_bind]
        rw [List.append_cons done (s + k, fragments) (consecutive _ _ _), ← later]
        refine ih (k + 1) (by omega) (by simp only at inside; omega) ?_ ?_
        · refine List.pairwise_append.mpr ⟨sorted, List.pairwise_singleton _ _, ?_⟩
          intro e member f only
          rw [List.mem_singleton.mp only]
          exact (before e member).2
        · intro e member
          rcases List.mem_append.mp member with old | new
          · have := before e old
            omega
          · rw [List.mem_singleton.mp new]
            simp only
            omega
      next =>
        simp only [List.append_nil]
        rfl

theorem Follows.following_ok (follows : Follows receiveBuffer n held) (low : n ≤ s)
    (high : s < n + 2048) :
    collectConsecutiveCompleteFollowingMpdus receiveBuffer (seqOf s) =
      .ok (keyed seqOf (consecutive held receiveBuffer.bufferSize s)) := by
  have all := follows.collectFrom_ok receiveBuffer.bufferSize 0 (s := s)
    (by simp; omega) (by simp; omega) (List.Pairwise.nil : Sorted ([] : Held P)) nofun
  rw [List.nil_append, Int.natCast_zero, Int.add_zero] at all
  exact all

/-- Where no MSDU follows, the starting one is not buffered complete. -/
theorem Follows.consecutive_eq_nil (follows : Follows receiveBuffer n held) :
    consecutive held receiveBuffer.bufferSize s = [] ↔
      ∀ fragments, (s, fragments) ∈ held → isComplete fragments = false := by
  constructor
  · intro none fragments member
    have inside := follows.inside _ member
    obtain ⟨remaining, size⟩ : ∃ remaining, receiveBuffer.bufferSize = remaining + 1 :=
      ⟨receiveBuffer.bufferSize - 1, by omega⟩
    rw [size, consecutive, (lookup_eq_some follows.sorted).mpr member] at none
    simpa using none
  · intro incomplete
    cases receiveBuffer.bufferSize with
    | zero => rfl
    | succ remaining =>
      rw [consecutive]
      cases found : lookup s held with
      | none => rfl
      | some fragments =>
        have incomplete := incomplete fragments ((lookup_eq_some follows.sorted).mp found)
        simp [incomplete]

/-! ### Requests -/

/-- The request does not go back to where a buffered MSDU is half of the sequence space ahead of it,
and does not move the window past a buffered MSDU without passing one up. -/
def KeepsWindow (receiveBuffer : ReceiveBuffer P) (n : Int) (start : SequenceNumber) : Prop :=
  (nearest n start < n →
    (∀ e ∈ receiveBuffer.buffer, nearest n e.1 < nearest n start + 2048) ∨
      ∀ e ∈ receiveBuffer.buffer, nearest n start + 2048 < nearest n e.1) ∧
  (n < nearest n start →
    (∀ e ∈ receiveBuffer.buffer, nearest n e.1 ≤ nearest n start → isComplete e.2 = false) →
      ∀ e ∈ receiveBuffer.buffer, nearest n start ≤ nearest n e.1)

namespace Follows

theorem nearest_eq (follows : Follows receiveBuffer n held) {e : Int × Fragments P}
    (member : e ∈ held) : nearest n (seqOf e.1) = e.1 := by
  have inside := follows.inside e member
  have small := follows.small
  exact nearest_seqOf ⟨by omega, by omega⟩

theorem all_buffer (follows : Follows receiveBuffer n held) (holds : Int → Fragments P → Prop) :
    (∀ e ∈ receiveBuffer.buffer, holds (nearest n e.1) e.2) ↔ ∀ e ∈ held, holds e.1 e.2 := by
  rw [follows.buffer, keyed]
  constructor
  · intro all e member
    have := all (seqOf e.1, e.2) (List.mem_map.mpr ⟨e, member, rfl⟩)
    simpa only [follows.nearest_eq member] using this
  · intro all entry member
    obtain ⟨e, inHeld, rfl⟩ := List.mem_map.mp member
    simpa only [follows.nearest_eq inHeld] using all e inHeld

/-- Before the window there is nothing to follow. -/
theorem following_none (follows : Follows receiveBuffer n held) (reach : InReach n s)
    (old : s < n) (apart : (∀ e ∈ held, e.1 < s + 2048) ∨ ∀ e ∈ held, s + 2048 < e.1) :
    collectConsecutiveCompleteFollowingMpdus receiveBuffer (seqOf s) = .ok [] := by
  obtain ⟨_, above⟩ := reach
  have small := follows.small
  have found : receiveBuffer.buffer.find (seqOf s) = .ok none := by
    rw [ReorderBuffer.find, follows.buffer]
    rcases apart with near | far
    · have absent : lookup s held = none := lookup_eq_none.mpr fun e member => by
        have := follows.inside e member
        omega
      rw [← absent]
      refine OrderedMap.find_ok _ follows.sorted fun e member => ?_
      have := follows.inside e member
      have := near e member
      exact Ieee80211.compares (by omega) (by omega)
    · have all : (keyed seqOf held).dropWhile (fun e => less e.1 (seqOf s)) = [] := by
        rw [List.dropWhile_eq_nil_iff]
        intro entry member
        obtain ⟨e, inHeld, rfl⟩ := List.mem_map.mp member
        have := follows.inside e inHeld
        exact less_seqOf_far (far e inHeld) (by omega)
      rw [OrderedMap.find, search, if_pos (by rw [Searchable, all]; rintro _ ⟨⟩), all]
      rfl
  rw [collectConsecutiveCompleteFollowingMpdus]
  cases receiveBuffer.bufferSize with
  | zero => rfl
  | succ remaining =>
    have zero : seqOf s + BitVec.ofNat 12 0 = seqOf s := by simp
    rw [collectFrom, addMsduIfComplete, zero, found]
    rfl

/-- The MSDUs that were collected are passed up. -/
theorem passUp_ok (follows : Follows receiveBuffer n held) (agreement : RecipientBlockAckAgreement)
    {start : SequenceNumber} {preceding following : Held P} (close : Close (preceding ++ following))
    (complete : ∀ e ∈ preceding ++ following, e ∈ held ∧ isComplete e.2 = true)
    (collected : collectCompletePrecedingMpdus receiveBuffer start = .ok (keyed seqOf preceding))
    (followed : collectConsecutiveCompleteFollowingMpdus receiveBuffer start =
      .ok (keyed seqOf following))
    (stays : preceding ++ following = [] → less (seqOf n) start = false) :
    ∃ released next n' held', processReceivedBlockAckReq ⟨agreement, some receiveBuffer⟩
        (.basic start) = .ok (⟨released, some next⟩, keyed seqOf (preceding ++ following)) ∧
      next.bufferSize = receiveBuffer.bufferSize ∧ Follows next n' held' ∧
      Moves n held (preceding ++ following) n' held' ∧ n' ≤ n + receiveBuffer.bufferSize ∧
      (∀ e ∈ held, n' ≤ e.1 → e ∈ held') ∧
      (preceding ++ following = [] ∨ ∃ f ∈ preceding ++ following, n' = f.1 + 1) := by
  have unmoved : moveWindow receiveBuffer start
      ((keyed seqOf preceding).length + (keyed seqOf following).length) = receiveBuffer := by
    rw [moveWindow, follows.nextExpected]
    cases none : preceding ++ following with
    | nil => simp [stays none]
    | cons e rest =>
      have some := congrArg List.length none
      rw [List.length_append, List.length_cons] at some
      have count : ((keyed seqOf preceding).length + (keyed seqOf following).length == 0) =
          false := by
        simp only [keyed, List.length_map, beq_eq_false_iff_ne, ne_eq]
        omega
      rw [count, Bool.false_and]
      rfl
  have sorted := List.pairwise_append.mp close.sorted
  obtain ⟨released, middle, n₁, held₁, releases, size₁, follows₁, moves₁, stays₁, last₁⟩ :=
    follows.release_ok agreement sorted.1 fun e member =>
      complete e (List.mem_append_left _ member)
  obtain ⟨released', next, n₂, held₂, releases', size₂, follows₂, moves₂, stays₂, last₂⟩ :=
    follows₁.release_ok released sorted.2.1 fun e member =>
      have old := complete e (List.mem_append_right _ member)
      ⟨stays₁ e old.1 fun f inPreceding => sorted.2.2 f inPreceding e member, old.2⟩
  have inserted := insertAll_ok close
  refine ⟨released', next, n₂, held₂, ?_, size₂.trans size₁, follows₂,
    ⟨close.sorted, complete, moves₁.forward.trans moves₂.forward, fun e member => ?_,
      fun e member => moves₁.kept e (moves₂.kept e member)⟩, ?_, ?_, ?_⟩
  · simp only [processReceivedBlockAckReq, collected, followed, ok_bind, unmoved, releases,
      releases', inserted]
    rfl
  · have forward := moves₂.forward
    rcases List.mem_append.mp member with inPreceding | inFollowing
    · have := moves₁.below e inPreceding
      omega
    · exact moves₂.below e inFollowing
  · -- the window ends up behind the last MSDU that is passed up
    have inside (e : Int × Fragments P) (member : e ∈ preceding ++ following) :=
      follows.inside e (complete e member).1
    rcases last₂ with ⟨_, same₂⟩ | ⟨f, member, same₂⟩
    · rcases last₁ with ⟨_, same₁⟩ | ⟨f, member, same₁⟩
      · omega
      · have := inside f (List.mem_append_left _ member)
        omega
    · have := inside f (List.mem_append_right _ member)
      omega
  · intro e member above
    have forward := moves₂.forward
    refine stays₂ e (stays₁ e member fun f inPreceding => ?_) fun f inFollowing => ?_
    · have := moves₁.below f inPreceding
      omega
    · have := moves₂.below f inFollowing
      omega
  · rcases last₂ with ⟨none₂, same₂⟩ | ⟨f, member, same₂⟩
    · rcases last₁ with ⟨none₁, _⟩ | ⟨f, member, same₁⟩
      · exact .inl (by rw [none₁, none₂, List.append_nil])
      · exact .inr ⟨f, List.mem_append_left _ member, by omega⟩
    · exact .inr ⟨f, List.mem_append_right _ member, same₂⟩

/-- Where nothing is passed up, the window moves to the starting MSDU. -/
theorem moves_window (follows : Follows receiveBuffer n held)
    (agreement : RecipientBlockAckAgreement) (ahead : less (seqOf n) (seqOf s) = true)
    (collected : collectCompletePrecedingMpdus receiveBuffer (seqOf s) =
      .ok (keyed seqOf ([] : Held P)))
    (followed : collectConsecutiveCompleteFollowingMpdus receiveBuffer (seqOf s) =
      .ok (keyed seqOf ([] : Held P))) :
    processReceivedBlockAckReq ⟨agreement, some receiveBuffer⟩ (.basic (seqOf s)) =
      .ok (⟨agreement, some { receiveBuffer with nextExpectedSequenceNumber := seqOf s }⟩, []) := by
  have moved : moveWindow receiveBuffer (seqOf s) 0 =
      { receiveBuffer with nextExpectedSequenceNumber := seqOf s } := by
    rw [moveWindow, follows.nextExpected, ahead]
    rfl
  have none : (keyed seqOf ([] : Held P)).length + (keyed seqOf ([] : Held P)).length = 0 := rfl
  simp only [processReceivedBlockAckReq, collected, followed, ok_bind]
  rw [none, moved]
  rfl

/-- From the window on, the preceding MSDUs are those below the starting one. -/
theorem preceding_near (follows : Follows receiveBuffer n held) (reach : InReach n s)
    (low : n ≤ s) : (held.filter fun e => less (seqOf e.1) (seqOf s) && isComplete e.2) =
      held.filter fun e => decide (e.1 < s) && isComplete e.2 := by
  refine List.filter_congr fun e member => ?_
  have inside := follows.inside e member
  have small := follows.small
  obtain ⟨below, above⟩ := reach
  rw [less_seqOf (by omega) (by omega)]

theorem collected_close (follows : Follows receiveBuffer n held) (remaining : Nat) :
    Close ((held.filter fun e => decide (e.1 < s) && isComplete e.2) ++
        consecutive held remaining s) ∧
      ∀ e ∈ (held.filter fun e => decide (e.1 < s) && isComplete e.2) ++
        consecutive held remaining s, e ∈ held ∧ isComplete e.2 = true := by
  have complete : ∀ e ∈ (held.filter fun e => decide (e.1 < s) && isComplete e.2) ++
      consecutive held remaining s, e ∈ held ∧ isComplete e.2 = true := by
    intro e member
    rcases List.mem_append.mp member with preceding | following
    · obtain ⟨inHeld, kept⟩ := List.mem_filter.mp preceding
      exact ⟨inHeld, (Bool.and_eq_true _ _ ▸ kept).2⟩
    · exact (mem_consecutive follows.sorted following).2
  have sorted : Sorted ((held.filter fun e => decide (e.1 < s) && isComplete e.2) ++
      consecutive held remaining s) := by
    refine List.pairwise_append.mpr
      ⟨follows.sorted.filter _, sorted_consecutive follows.sorted _ _, ?_⟩
    intro e preceding f following
    have below : e.1 < s := by
      have kept := (List.mem_filter.mp preceding).2
      simp only [Bool.and_eq_true, decide_eq_true_eq] at kept
      exact kept.1
    exact lt_of_lt_of_le below (mem_consecutive follows.sorted following).1
  refine ⟨sorted.imp_of_mem fun eMember fMember lt => ⟨lt, ?_⟩, complete⟩
  have small := follows.small
  have := follows.inside _ (complete _ eMember).1
  have := follows.inside _ (complete _ fMember).1
  omega

/-- A request that keeps the window returns, and passes up complete MSDUs in ascending order. -/
theorem request_ok (follows : Follows receiveBuffer n held) (agreement : RecipientBlockAckAgreement)
    {start : SequenceNumber} (keeps : KeepsWindow receiveBuffer n start) :
    ∃ released next passing n' held', processReceivedBlockAckReq ⟨agreement, some receiveBuffer⟩
        (.basic start) = .ok (⟨released, some next⟩, keyed seqOf passing) ∧
      next.bufferSize = receiveBuffer.bufferSize ∧ Follows next n' held' ∧
      Moves n held passing n' held' ∧ n' < n + 2048 := by
  obtain ⟨s, reach, same⟩ : ∃ s, InReach n s ∧ start = seqOf s :=
    ⟨_, nearest_inReach n start, (seqOf_nearest n start).symm⟩
  subst same
  obtain ⟨apart, moves⟩ := keeps
  rw [nearest_seqOf reach] at apart moves
  have apart (old : s < n) := (apart old).imp
    (follows.all_buffer fun i _ => i < s + 2048).mp (follows.all_buffer fun i _ => s + 2048 < i).mp
  have moves (newer : n < s) (incomplete : ∀ e ∈ held, e.1 ≤ s → isComplete e.2 = false) :=
    (follows.all_buffer fun i _ => s ≤ i).mp (moves newer
      ((follows.all_buffer fun i fragments => i ≤ s → isComplete fragments = false).mpr incomplete))
  obtain ⟨below, above⟩ := reach
  have small := follows.small
  have window : less (seqOf n) (seqOf s) = decide (n < s) := by
    have distance := toNat_seqOf_sub (i := n) (j := s)
    rw [less, Bool.eq_iff_iff]
    simp only [Bool.and_eq_true, decide_eq_true_eq]
    omega
  by_cases old : s < n
  · have unmoved : less (seqOf n) (seqOf s) = false := by
      rw [window]
      simp only [decide_eq_false_iff_not]
      omega
    have followed := follows.following_none ⟨below, above⟩ old (apart old)
    have collected := follows.preceding_ok (seqOf s)
    have close : Close ((held.filter fun e => less (seqOf e.1) (seqOf s) && isComplete e.2) ++
        []) := by
      rw [List.append_nil]
      exact follows.close.sublist List.filter_sublist
    obtain ⟨released, next, n', held', returned, size, nextFollows, moved, near, _⟩ :=
      follows.passUp_ok agreement close (fun e member => by
        rw [List.append_nil] at member
        obtain ⟨inHeld, kept⟩ := List.mem_filter.mp member
        exact ⟨inHeld, (Bool.and_eq_true _ _ ▸ kept).2⟩) collected followed fun _ => unmoved
    exact ⟨released, next, _, n', held', returned, size, nextFollows, moved, by omega⟩
  have collected := follows.preceding_ok (seqOf s)
  rw [follows.preceding_near ⟨below, above⟩ (by omega)] at collected
  have followed := follows.following_ok (by omega) below
  obtain ⟨close, complete⟩ := follows.collected_close (s := s) receiveBuffer.bufferSize
  by_cases none : ((held.filter fun e => decide (e.1 < s) && isComplete e.2) ++
      consecutive held receiveBuffer.bufferSize s) = [] ∧ n < s
  · -- nothing is passed up, and the window moves to the starting MSDU
    obtain ⟨none, newer⟩ := none
    obtain ⟨noPreceding, noFollowing⟩ := List.append_eq_nil_iff.mp none
    have incomplete : ∀ e ∈ held, e.1 ≤ s → isComplete e.2 = false := by
      intro e member le
      rw [← Bool.not_eq_true]
      intro whole
      rcases lt_or_eq_of_le le with before | rfl
      · have preceding : e ∈ held.filter fun e => decide (e.1 < s) && isComplete e.2 :=
          List.mem_filter.mpr ⟨member, by simp [before, whole]⟩
        rw [noPreceding] at preceding
        cases preceding
      · have incomplete := follows.consecutive_eq_nil.mp noFollowing e.2 member
        rw [whole] at incomplete
        cases incomplete
    have inside := moves newer incomplete
    refine ⟨agreement, { receiveBuffer with nextExpectedSequenceNumber := seqOf s }, [], s, held,
      ?_, rfl, ⟨follows.buffer, follows.sorted, fun e member => ?_, rfl, follows.length,
        follows.fits, small, follows.fragments⟩,
      ⟨.nil, fun _ absent => (by cases absent), by omega, fun _ absent => (by cases absent),
        fun _ => id⟩, by omega⟩
    · rw [noPreceding] at collected
      rw [noFollowing] at followed
      exact follows.moves_window agreement (window.trans (decide_eq_true newer)) collected followed
    · have := follows.inside e member
      have := inside e member
      simp only
      omega
  · obtain ⟨released, next, n', held', returned, size, nextFollows, moved, near, _⟩ :=
      follows.passUp_ok agreement close complete collected followed fun empty => by
        rw [window, decide_eq_false_iff_not]
        exact fun newer => none ⟨empty, newer⟩
    exact ⟨released, next, _, n', held', returned, size, nextFollows, moved, by omega⟩

end Follows

end Inet.Ieee80211
