import Inet.Ieee80211.BlockAckReordering

/-!
# The reorder window

The receive buffer holds fragments of the MSDUs in a window that starts at the next expected one. The
operations of the buffer follow those of a list of MSDUs in ascending order.
-/
namespace Inet.Ieee80211

open Lib OrderedMap SequenceNumber BlockAckReordering

variable {P : Type}

/-- The MSDUs of a window with their fragments. -/
abbrev Held (P : Type) := List (Int × Fragments P)

/-- How many fragments there are. -/
def count (held : Held P) : Nat := (held.map fun e => e.2.length).sum

/-- The buffer holds the MSDUs, in the window that starts at a number. -/
structure Follows (receiveBuffer : ReceiveBuffer P) (n : Int) (held : Held P) : Prop where
  buffer : receiveBuffer.buffer = keyed seqOf held
  sorted : Sorted held
  inside : ∀ e ∈ held, n ≤ e.1 ∧ e.1 < n + receiveBuffer.bufferSize
  nextExpected : receiveBuffer.nextExpectedSequenceNumber = seqOf n
  length : receiveBuffer.length = count held
  fits : count held ≤ receiveBuffer.bufferSize
  small : receiveBuffer.bufferSize < 2048
  fragments : ∀ e ∈ held, e.2 ≠ [] ∧ (∀ g ∈ e.2, g.sequenceNumber = seqOf e.1) ∧
    (e.2.map fun g => g.fragmentNumber).Nodup

variable {receiveBuffer : ReceiveBuffer P} {n i p : Int} {held : Held P} {frame : DataFrame P}

theorem compares {a b : Int} (below : a < b + 2048) (above : b < a + 2048) :
    Compares seqOf less a b := ⟨less_seqOf below above, less_seqOf above below⟩

namespace Follows

theorem compares (follows : Follows receiveBuffer n held) (low : n ≤ i) (high : i < n + 2048) :
    ∀ e ∈ held, Compares seqOf less e.1 i := by
  intro e member
  have inside := follows.inside e member
  have small := follows.small
  exact Ieee80211.compares (by omega) (by omega)

theorem find_ok (follows : Follows receiveBuffer n held) (low : n ≤ i) (high : i < n + 2048) :
    receiveBuffer.buffer.find (seqOf i) = .ok (lookup i held) := by
  rw [ReorderBuffer.find, follows.buffer]
  exact OrderedMap.find_ok _ follows.sorted (follows.compares low high)

theorem accepts_iff (follows : Follows receiveBuffer n held) (reach : InReach n i) :
    receiveBuffer.accepts (seqOf i) = true ↔
      count held < receiveBuffer.bufferSize ∧ n ≤ i ∧ i < n + receiveBuffer.bufferSize := by
  have small := follows.small
  have distance := toNat_seqOf_sub (i := i) (j := n + receiveBuffer.bufferSize)
  rw [ReceiveBuffer.accepts, follows.nextExpected, lessOrEqual_seqOf reach, seqOf_add,
    follows.length, less]
  obtain ⟨below, above⟩ := reach
  simp only [Bool.and_eq_true, decide_eq_true_eq]
  omega

theorem mem_getD (follows : Follows receiveBuffer n held) {g : DataFrame P}
    (member : g ∈ (lookup i held).getD []) : ∃ fragments, (i, fragments) ∈ held ∧ g ∈ fragments := by
  cases found : lookup i held with
  | none =>
    rw [found] at member
    cases member
  | some fragments =>
    rw [found] at member
    exact ⟨fragments, (lookup_eq_some follows.sorted).mp found, member⟩

/-- A frame in the window is put in unless it is there already. -/
theorem insertFrame_ok (follows : Follows receiveBuffer n held) (reach : InReach n i)
    (numbered : frame.sequenceNumber = seqOf i) :
    receiveBuffer.insertFrame frame = .ok (receiveBuffer, false) ∨
      ∃ next, receiveBuffer.insertFrame frame = .ok (next, true) ∧
        next.bufferSize = receiveBuffer.bufferSize ∧ n ≤ i ∧
        Follows next n (alterAt i (fun fragments => fragments.getD [] ++ [frame]) held) := by
  rw [ReceiveBuffer.insertFrame, numbered]
  split
  next accepted =>
    obtain ⟨room, low, high⟩ := (follows.accepts_iff reach).mp accepted
    have small := follows.small
    have comparesAll := follows.compares low (by omega)
    rw [follows.find_ok low (by omega), ok_bind]
    split
    next => exact .inl rfl
    next fresh =>
      have fresh (g : DataFrame P) (member : g ∈ (lookup i held).getD []) :
          g.fragmentNumber ≠ frame.fragmentNumber := by
        intro same
        obtain ⟨fragments, inHeld, inFragments⟩ := follows.mem_getD member
        refine fresh (List.any_eq_true.mpr ⟨g, member, ?_⟩)
        simp [same, (follows.fragments _ inHeld).2.1 g inFragments]
      have altered : receiveBuffer.buffer.alter (seqOf i)
          (fun fragments => fragments.getD [] ++ [frame]) =
            .ok (keyed seqOf (alterAt i (fun fragments => fragments.getD [] ++ [frame]) held)) := by
        rw [ReorderBuffer.alter, follows.buffer]
        exact alter_ok _ follows.sorted comparesAll
      have counted : count (alterAt i (fun fragments => fragments.getD [] ++ [frame]) held) +
          (lookup i held).elim 0 List.length =
            count held + ((lookup i held).getD [] ++ [frame]).length :=
        sum_alterAt follows.sorted List.length
      have more : count (alterAt i (fun fragments => fragments.getD [] ++ [frame]) held) =
          count held + 1 := by
        rw [List.length_append, List.length_singleton] at counted
        cases found : lookup i held with
        | none =>
          rw [found] at counted
          exact counted
        | some fragments =>
          rw [found] at counted
          simp only [Option.elim_some, Option.getD_some] at counted
          omega
      rw [altered, ok_bind]
      refine .inr ⟨_, rfl, rfl, low, rfl, sorted_alterAt follows.sorted, ?_, follows.nextExpected,
        ?_, ?_, follows.small, ?_⟩
      · intro e member
        rcases (mem_alterAt follows.sorted).mp member with ⟨_, old⟩ | rfl
        · exact follows.inside e old
        · exact ⟨low, high⟩
      · simp only [more, follows.length]
        omega
      · simp only [more]
        omega
      · intro e member
        rcases (mem_alterAt follows.sorted).mp member with ⟨_, old⟩ | rfl
        · exact follows.fragments e old
        · refine ⟨by simp, ?_, ?_⟩
          · intro g member
            rcases List.mem_append.mp member with old | new
            · obtain ⟨fragments, inHeld, inFragments⟩ := follows.mem_getD old
              exact (follows.fragments _ inHeld).2.1 g inFragments
            · rw [List.mem_singleton.mp new, numbered]
          · simp only [List.map_append, List.map_cons, List.map_nil]
            refine List.nodup_append.mpr ⟨?_, by simp, ?_⟩
            · cases found : lookup i held with
              | none => simp
              | some fragments =>
                exact (follows.fragments _ ((lookup_eq_some follows.sorted).mp found)).2.2
            · intro a old b new
              obtain ⟨g, member, rfl⟩ := List.mem_map.mp old
              rw [List.mem_singleton.mp new]
              exact fresh g member
  next => exact .inl rfl

end Follows

/-! ### Passing up -/

theorem count_filter (keeps : Int × Fragments P → Bool) :
    count (held.filter keeps) + count (held.filter fun e => !keeps e) = count held := by
  induction held with
  | nil => rfl
  | cons e rest ih =>
    simp only [count] at ih ⊢
    by_cases kept : keeps e = true
    · simp only [List.filter_cons, kept, if_true, Bool.not_true, Bool.false_eq_true, if_false,
        List.map_cons, List.sum_cons]
      omega
    · simp only [List.filter_cons, kept, Bool.not_false, if_true, Bool.false_eq_true, if_false,
        List.map_cons, List.sum_cons]
      omega

theorem filter_eq (sorted : Sorted held) {fragments : Fragments P}
    (member : (p, fragments) ∈ held) :
    held.filter (fun e => decide (e.1 = p)) = [(p, fragments)] := by
  induction held with
  | nil => cases member
  | cons e rest ih =>
    obtain ⟨above, later⟩ := sorted_cons.mp sorted
    rcases List.mem_cons.mp member with rfl | behind
    · have others : rest.filter (fun e => decide (e.1 = p)) = [] := by
        rw [List.filter_eq_nil_iff]
        intro f inRest
        simpa using (above f inRest).ne'
      rw [List.filter_cons_of_pos (by simp), others]
    · rw [List.filter_cons_of_neg (by simpa using (above _ behind).ne), ih later behind]

theorem filter_keyed (keeps : SequenceNumber → Bool) :
    (keyed seqOf held).filter (fun e => keeps e.1) =
      keyed seqOf (held.filter fun e => keeps (seqOf e.1)) := by
  rw [keyed, List.filter_map]
  rfl

/-- What is behind an MSDU that is passed up. -/
def behind (p : Int) (held : Held P) : Held P := held.filter fun e => decide (p < e.1)

theorem mem_behind {e : Int × Fragments P} : e ∈ behind p held ↔ e ∈ held ∧ p < e.1 := by
  simp [behind]

/-- The window moves behind the MSDU, and what is before it is dropped. -/
theorem Follows.passedUp_ok (follows : Follows receiveBuffer n held)
    (agreement : RecipientBlockAckAgreement) {fragments : Fragments P}
    (member : (p, fragments) ∈ held) :
    ∃ next, passedUp agreement receiveBuffer (seqOf p) = .ok ({ agreement with
        blockAckRecord := agreement.blockAckRecord.removeAckStates (seqOf p) }, next) ∧
      next.bufferSize = receiveBuffer.bufferSize ∧ Follows next (p + 1) (behind p held) := by
  obtain ⟨low, high⟩ := follows.inside _ member
  have small := follows.small
  have comparesAll := follows.compares low (by omega)
  have before : (keyed seqOf held).filter (fun e => less e.1 (seqOf p)) =
      keyed seqOf (held.filter fun e => decide (e.1 < p)) := by
    rw [filter_keyed fun s => less s (seqOf p)]
    congr 1
    exact List.filter_congr fun e inHeld => (comparesAll e inHeld).1
  have others : (keyed seqOf held).filter (fun e => !less e.1 (seqOf p)) =
      keyed seqOf (held.filter fun e => !decide (e.1 < p)) := by
    rw [filter_keyed fun s => !less s (seqOf p)]
    congr 1
    exact List.filter_congr fun e inHeld => by rw [(comparesAll e inHeld).1]
  have sorted := follows.sorted.filter fun e => !decide (e.1 < p)
  have stays : (p, fragments) ∈ held.filter fun e => !decide (e.1 < p) := by simp [member]
  have comparesOthers : ∀ e ∈ held.filter fun e => !decide (e.1 < p),
      Compares seqOf less e.1 p := fun e inOthers => comparesAll e (List.mem_filter.mp inOthers).1
  have found : lookup p (held.filter fun e => !decide (e.1 < p)) = some fragments :=
    (lookup_eq_some sorted).mpr stays
  have left : (held.filter fun e => !decide (e.1 < p)).filter (fun e => decide (e.1 ≠ p)) =
      behind p held := by
    rw [List.filter_filter, behind]
    refine List.filter_congr fun e _ => ?_
    rw [Bool.eq_iff_iff]
    simp only [ne_eq, decide_not, Bool.and_eq_true, Bool.not_eq_true', decide_eq_false_iff_not,
      decide_eq_true_eq]
    omega
  -- the lengths of what is dropped and of what is passed up add up
  have dropped : count (held.filter fun e => decide (e.1 < p)) +
      count (held.filter fun e => !decide (e.1 < p)) = count held := count_filter _
  have removed : count ((held.filter fun e => !decide (e.1 < p)).filter
        fun e => decide (e.1 = p)) +
      count ((held.filter fun e => !decide (e.1 < p)).filter fun e => !decide (e.1 = p)) =
        count (held.filter fun e => !decide (e.1 < p)) := count_filter _
  rw [filter_eq sorted stays] at removed
  have notSame : (held.filter fun e => !decide (e.1 < p)).filter (fun e => !decide (e.1 = p)) =
      behind p held := by
    rw [← left]
    exact List.filter_congr fun e _ => by simp
  have one : count [(p, fragments)] = fragments.length := by simp [count]
  rw [notSame, one] at removed
  have droppedLength : ((keyed seqOf (held.filter fun e => decide (e.1 < p))).map
      fun e => e.2.length).sum = count (held.filter fun e => decide (e.1 < p)) := by
    rw [keyed, List.map_map]
    rfl
  have next : seqOf p + 1 = seqOf (p + 1) := seqOf_add 1
  rw [passedUp]
  simp only [ReceiveBuffer.dropFramesUntil, ReceiveBuffer.removeFrame, ReorderBuffer.find,
    ReorderBuffer.erase, follows.buffer, before, others, droppedLength,
    OrderedMap.find_ok _ sorted comparesOthers, ok_bind, found,
    OrderedMap.erase_ok _ sorted comparesOthers, left, next]
  refine ⟨_, rfl, rfl, rfl, follows.sorted.filter _, fun e member => ?_, rfl, ?_, ?_, small,
    fun e member => follows.fragments e (mem_behind.mp member).1⟩
  · obtain ⟨inHeld, after⟩ := mem_behind.mp member
    have inside := follows.inside e inHeld
    simp only
    omega
  · have length := follows.length
    simp only
    omega
  · have fits := follows.fits
    simp only
    omega

/-- MSDUs are passed up, and the window moves behind them. -/
structure Moves (n : Int) (held passing : Held P) (n' : Int) (held' : Held P) : Prop where
  sorted : Sorted passing
  complete : ∀ e ∈ passing, e ∈ held ∧ isComplete e.2 = true
  forward : n ≤ n'
  below : ∀ e ∈ passing, e.1 < n'
  kept : ∀ e ∈ held', e ∈ held

theorem Moves.refl : Moves n held [] n held :=
  ⟨.nil, nofun, Int.le_refl n, nofun, fun _ => id⟩

/-- MSDUs are released one after the other. The window moves behind the last one. -/
theorem Follows.release_ok (follows : Follows receiveBuffer n held)
    (agreement : RecipientBlockAckAgreement) {passing : Held P} (sorted : Sorted passing)
    (complete : ∀ e ∈ passing, e ∈ held ∧ isComplete e.2 = true) :
    ∃ released next n' held', releaseReceiveBuffer agreement receiveBuffer (keyed seqOf passing) =
        .ok (released, next) ∧
      next.bufferSize = receiveBuffer.bufferSize ∧ Follows next n' held' ∧
      Moves n held passing n' held' ∧
      (∀ e ∈ held, (∀ f ∈ passing, f.1 < e.1) → e ∈ held') ∧
      ((passing = [] ∧ n' = n) ∨ ∃ f ∈ passing, n' = f.1 + 1) := by
  induction passing generalizing agreement receiveBuffer n held with
  | nil =>
    exact ⟨agreement, receiveBuffer, n, held, rfl, rfl, follows, .refl, fun e member _ => member,
      .inl ⟨rfl, rfl⟩⟩
  | cons e rest ih =>
    obtain ⟨above, sorted⟩ := sorted_cons.mp sorted
    obtain ⟨inHeld, _⟩ := complete e List.mem_cons_self
    obtain ⟨middle, passed, size, middleFollows⟩ := follows.passedUp_ok agreement inHeld
    obtain ⟨released, next, n', held', releases, nextSize, nextFollows, moves, stays, last⟩ :=
      ih middleFollows _ sorted fun f member =>
        have old := complete f (.tail _ member)
        ⟨mem_behind.mpr ⟨old.1, above f member⟩, old.2⟩
    have inside := follows.inside e inHeld
    have further := moves.forward
    refine ⟨released, next, n', held', ?_, nextSize.trans size, nextFollows,
      ⟨sorted_cons.mpr ⟨above, sorted⟩, complete, by omega, fun f member => ?_,
        fun f member => (mem_behind.mp (moves.kept f member)).1⟩, fun f member all => ?_, ?_⟩
    · rw [releaseReceiveBuffer, keyed, List.map_cons, List.foldlM_cons]
      simp only [passed, ok_bind]
      exact releases
    · rcases List.mem_cons.mp member with rfl | later
      · omega
      · exact moves.below f later
    · exact stays f (mem_behind.mpr ⟨member, all e List.mem_cons_self⟩)
        fun g later => all g (.tail _ later)
    · rcases last with ⟨_, same⟩ | ⟨f, later, same⟩
      · exact .inr ⟨e, List.mem_cons_self, same⟩
      · exact .inr ⟨f, .tail _ later, same⟩

/-! ### The earliest complete MSDU -/

theorem Follows.first_ok (follows : Follows receiveBuffer n held) {e : Int × Fragments P}
    (member : e ∈ held) : firstSequenceNumber e.2 = .ok (seqOf e.1) := by
  obtain ⟨nonempty, numbered, _⟩ := follows.fragments e member
  obtain ⟨g, rest, fragments⟩ := List.exists_cons_of_ne_nil nonempty
  rw [fragments] at numbered ⊢
  rw [firstSequenceNumber, numbered g List.mem_cons_self]

theorem Follows.earliest_ok (follows : Follows receiveBuffer n held) :
    getEarliestCompleteMsduOrAMsduIfExists receiveBuffer =
      .ok (((held.find? fun e => isComplete e.2).map (·.2)).getD []) := by
  have search : (keyed seqOf held).find? (fun entry => isComplete entry.2) =
      (held.find? fun e => isComplete e.2).map fun e => (seqOf e.1, e.2) := by
    rw [keyed, List.find?_map]
    rfl
  rw [getEarliestCompleteMsduOrAMsduIfExists, follows.buffer, search]
  cases found : held.find? fun e => isComplete e.2 with
  | none => rfl
  | some e =>
    obtain ⟨complete, before, rest, split, incomplete⟩ := List.find?_eq_some_iff_append.mp found
    have member : e ∈ held := by simp [split]
    simp only [Option.map_some, follows.first_ok member, ok_bind, Option.getD_some]
    -- what comes before the first complete MSDU is not complete
    rw [foldlM_fixed, ok_bind]
    · rfl
    · intro entry inKeyed
      obtain ⟨f, inHeld, rfl⟩ := List.mem_map.mp inKeyed
      have fInside := follows.inside f inHeld
      have eInside := follows.inside e member
      have small := follows.small
      rw [earlier, follows.first_ok inHeld, ok_bind, less_seqOf (by omega) (by omega)]
      have sorted := follows.sorted
      rw [split] at inHeld sorted
      rcases List.mem_append.mp inHeld with first | later
      · have notComplete : isComplete f.2 = false := by simpa using incomplete f first
        simp only [notComplete, Bool.and_false, Bool.false_eq_true, if_false]
        rfl
      · have notBefore : ¬ f.1 < e.1 := by
          rcases List.mem_cons.mp later with rfl | behind
          · exact lt_irrefl _
          · have := (sorted_cons.mp (List.pairwise_append.mp sorted).2.1).1 f behind
            omega
        simp only [notBefore, decide_false, Bool.false_and, Bool.false_eq_true, if_false]
        rfl

theorem Follows.isFull_ok (follows : Follows receiveBuffer n held) :
    receiveBuffer.isFull = .ok (receiveBuffer.length == receiveBuffer.bufferSize) := by
  have fits := follows.fits
  rw [ReceiveBuffer.isFull, if_pos]
  rw [follows.length]
  omega

/-- After a frame was inserted, one MSDU or none is passed up. -/
theorem Follows.passUpEarliest_ok (follows : Follows receiveBuffer n held)
    (agreement : RecipientBlockAckAgreement) :
    ∃ released next passing n' held', passUpEarliest agreement receiveBuffer =
        .ok (⟨released, some next⟩, keyed seqOf passing) ∧
      next.bufferSize = receiveBuffer.bufferSize ∧ Follows next n' held' ∧
      Moves n held passing n' held' ∧ n' ≤ n + receiveBuffer.bufferSize := by
  rw [passUpEarliest, follows.earliest_ok, ok_bind]
  cases found : held.find? fun e => isComplete e.2 with
  | none =>
    exact ⟨agreement, receiveBuffer, [], n, held, rfl, rfl, follows, .refl, by omega⟩
  | some e =>
    have member : e ∈ held := List.mem_of_find?_eq_some found
    have complete : isComplete e.2 = true := (List.find?_eq_some_iff_append.mp found).1
    obtain ⟨nonempty, numbered, _⟩ := follows.fragments e member
    obtain ⟨g, rest, fragments⟩ := List.exists_cons_of_ne_nil nonempty
    have number : g.sequenceNumber = seqOf e.1 := numbered g (by simp [fragments])
    simp only [Option.map_some, Option.getD_some, fragments, follows.isFull_ok, ok_bind, number]
    split
    · obtain ⟨next, passed, size, nextFollows⟩ := follows.passedUp_ok agreement member
      have inside := follows.inside e member
      simp only [passed, ok_bind]
      refine ⟨{ agreement with
        blockAckRecord := agreement.blockAckRecord.removeAckStates (seqOf e.1) }, next, [e],
        e.1 + 1, behind e.1 held, ?_, size, nextFollows,
        ⟨List.pairwise_singleton _ _, ?_, by omega, ?_, fun f kept => (mem_behind.mp kept).1⟩,
        by omega⟩
      · simp only [keyed, List.map_cons, List.map_nil, fragments]
        rfl
      · intro f only
        rw [List.mem_singleton.mp only]
        exact ⟨member, complete⟩
      · intro f only
        rw [List.mem_singleton.mp only]
        omega
    · exact ⟨agreement, receiveBuffer, [], n, held, rfl, rfl, follows, .refl, by omega⟩

end Inet.Ieee80211
