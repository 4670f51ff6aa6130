import Inet.Lib.SpanList
import Inet.Sctp.SctpGapList

/-!
# The blocks of a gap list

The arrays of a gap list represent separated spans of chunk numbers. Each operation on the arrays is
the operation on the spans.
-/
namespace Inet.Sctp

open Lib SpanList

/-! ### Arrays -/

namespace GapArray

variable {array next : GapArray} {i k : Nat} {value : Tsn}

theorem read_ok (found : array[i]? = some value) : array.read i = .ok value := by
  rw [read, found]

theorem write_ok (array : GapArray) (value : Tsn) (inside : i < MAX_GAP_COUNT) :
    ∃ next, array.write i value = .ok next ∧
    ∀ k : Nat, next[k]? = if k = i then some value else array[k]? := by
  rw [write, dif_pos inside]
  refine ⟨_, rfl, fun k => ?_⟩
  by_cases same : k = i
  · subst same
    simp [Vector.getElem?_set_self]
  · rw [if_neg same, Vector.getElem?_set_ne inside (Ne.symm same)]

theorem moveDown_ok (array : GapArray) {distance first count : Nat} (le : distance ≤ first)
    (inside : first + count ≤ MAX_GAP_COUNT) :
    ∃ next, array.moveDown distance first count = .ok next ∧ ∀ k : Nat, next[k]? =
      if first - distance ≤ k ∧ k < first + count - distance then array[k + distance]?
      else array[k]? := by
  induction count with
  | zero =>
    refine ⟨array, rfl, fun k => ?_⟩
    rw [if_neg (by omega)]
  | succ count ih =>
    obtain ⟨moved, movedOk, at_moved⟩ := ih (by omega)
    have found : moved[first + count]? = some array[first + count] := by
      rw [at_moved, if_neg (by omega), Vector.getElem?_eq_getElem]
    obtain ⟨next, nextOk, at_next⟩ :=
      write_ok moved array[first + count]
        (show first + count - distance < MAX_GAP_COUNT by omega)
    rw [moveDown, movedOk, ok_bind, read_ok found, ok_bind, nextOk]
    refine ⟨next, rfl, fun k => ?_⟩
    rw [at_next, at_moved]
    by_cases last : k = first + count - distance
    · rw [if_pos last, if_pos (by omega), show k + distance = first + count by omega,
        Vector.getElem?_eq_getElem]
    · rw [if_neg last]
      by_cases earlier : first - distance ≤ k ∧ k < first + count - distance
      · rw [if_pos earlier, if_pos (by omega)]
      · rw [if_neg earlier, if_neg (by omega)]

theorem moveUp_ok (array : GapArray) {last count : Nat} (le : count ≤ last)
    (inside : last < MAX_GAP_COUNT) :
    ∃ next, array.moveUp last count = .ok next ∧ ∀ k : Nat, next[k]? =
      if last - count < k ∧ k ≤ last then array[k - 1]? else array[k]? := by
  induction count with
  | zero =>
    refine ⟨array, rfl, fun k => ?_⟩
    rw [if_neg (by omega)]
  | succ count ih =>
    obtain ⟨moved, movedOk, at_moved⟩ := ih (by omega)
    have found : moved[last - count - 1]? = some array[last - count - 1] := by
      rw [at_moved, if_neg (by omega), Vector.getElem?_eq_getElem]
    obtain ⟨next, nextOk, at_next⟩ :=
      write_ok moved array[last - count - 1]
        (show last - count < MAX_GAP_COUNT by omega)
    rw [moveUp, movedOk, ok_bind, read_ok found, ok_bind, nextOk]
    refine ⟨next, rfl, fun k => ?_⟩
    rw [at_next, at_moved]
    by_cases first : k = last - count
    · subst first
      rw [if_pos rfl, if_pos (by omega), Vector.getElem?_eq_getElem]
    · rw [if_neg first]
      by_cases later : last - count < k ∧ k ≤ last
      · rw [if_pos later, if_pos (by omega)]
      · rw [if_neg later, if_neg (by omega)]

end GapArray

/-! ### Blocks -/

/-- The first entries of the arrays are the ends of the blocks. -/
structure Represents (list : SctpSimpleGapList) (blocks : List (Span Nat)) : Prop where
  numGaps : list.NumGaps = blocks.length
  fits : blocks.length ≤ MAX_GAP_COUNT
  starts : ∀ (i : Nat) (s : Span Nat), blocks[i]? = some s →
    list.GapStartList[i]? = some (tsn s.start)
  stops : ∀ (i : Nat) (s : Span Nat), blocks[i]? = some s →
    list.GapStopList[i]? = some (tsn (s.stop - 1))

variable {list : SctpSimpleGapList} {blocks before rest : List (Span Nat)} {s : Span Nat}

namespace Represents

theorem new : Represents .new [] := ⟨rfl, Nat.zero_le _, nofun, nofun⟩

theorem start_ok (represents : Represents list blocks) {i : Nat} (found : blocks[i]? = some s) :
    list.start i = .ok (tsn s.start) := GapArray.read_ok (represents.starts i s found)

theorem stop_ok (represents : Represents list blocks) {i : Nat} (found : blocks[i]? = some s) :
    list.stop i = .ok (tsn (s.stop - 1)) := GapArray.read_ok (represents.stops i s found)

end Represents

theorem getElem?_middle (before rest : List (Span Nat)) (s : Span Nat) (k : Nat) :
    (before ++ s :: rest)[k]? =
      if k < before.length then before[k]? else if k = before.length then some s
      else rest[k - before.length - 1]? := by
  rw [List.getElem?_append]
  split
  · rfl
  split
  next same => simp [same]
  next => rw [List.getElem?_cons, if_neg (by omega)]

section Edits

open SctpSimpleGapList

variable {next : SctpSimpleGapList} {i : Nat} {value : Tsn}

theorem setStart_ok (list : SctpSimpleGapList) (value : Tsn) (inside : i < MAX_GAP_COUNT) :
    ∃ next, list.setStart i value = .ok next ∧ next.NumGaps = list.NumGaps ∧
      next.GapStopList = list.GapStopList ∧
      ∀ k : Nat, next.GapStartList[k]? =
        if k = i then some value else list.GapStartList[k]? := by
  obtain ⟨starts, startsOk, written⟩ :=
    GapArray.write_ok list.GapStartList value inside
  rw [setStart, startsOk]
  exact ⟨_, rfl, rfl, rfl, written⟩

theorem setStop_ok (list : SctpSimpleGapList) (value : Tsn) (inside : i < MAX_GAP_COUNT) :
    ∃ next, list.setStop i value = .ok next ∧ next.NumGaps = list.NumGaps ∧
      next.GapStartList = list.GapStartList ∧
      ∀ k : Nat, next.GapStopList[k]? =
        if k = i then some value else list.GapStopList[k]? := by
  obtain ⟨stops, stopsOk, written⟩ :=
    GapArray.write_ok list.GapStopList value inside
  rw [setStop, stopsOk]
  exact ⟨_, rfl, rfl, rfl, written⟩

theorem previous_eq (positive : 0 < i) (small : i ≤ MAX_GAP_COUNT) : previous i = i - 1 := by
  have : i ≤ 500 := small
  rw [previous]
  omega

/-- A block gets longer at its start. -/
theorem Represents.setStart (represents : Represents list (before ++ s :: rest)) (t : Nat) :
    ∃ next, list.setStart before.length (tsn t) = .ok next ∧
      Represents next (before ++ ⟨t, s.stop⟩ :: rest) := by
  have fits := represents.fits
  simp only [List.length_append, List.length_cons] at fits
  obtain ⟨next, nextOk, count, stops, starts⟩ := setStart_ok list (tsn t)
    (show before.length < MAX_GAP_COUNT by omega)
  refine ⟨next, nextOk, ?_, ?_, ?_, ?_⟩
  · rw [count, represents.numGaps, List.length_append, List.length_append]
    rfl
  · simpa using represents.fits
  · intro k b found
    rw [starts]
    have old := represents.starts k
    rw [getElem?_middle] at found old
    grind
  · intro k b found
    rw [stops]
    have old := represents.stops k
    rw [getElem?_middle] at found old
    grind

/-- A block gets another stop. -/
theorem Represents.setStop (represents : Represents list (before ++ s :: rest)) (t : Nat) :
    ∃ next, list.setStop before.length (tsn t) = .ok next ∧
      Represents next (before ++ ⟨s.start, t + 1⟩ :: rest) := by
  have fits := represents.fits
  simp only [List.length_append, List.length_cons] at fits
  obtain ⟨next, nextOk, count, starts, stops⟩ := setStop_ok list (tsn t)
    (show before.length < MAX_GAP_COUNT by omega)
  refine ⟨next, nextOk, ?_, ?_, ?_, ?_⟩
  · rw [count, represents.numGaps, List.length_append, List.length_append]
    rfl
  · simpa using represents.fits
  · intro k b found
    rw [starts]
    have old := represents.starts k
    rw [getElem?_middle] at found old
    grind
  · intro k b found
    rw [stops]
    have old := represents.stops k
    rw [getElem?_middle] at found old
    grind

theorem moveDown_ok (list : SctpSimpleGapList) (distance first count : Nat) (le : distance ≤ first)
    (inside : first + count ≤ MAX_GAP_COUNT) :
    ∃ next, list.moveDown distance first count = .ok next ∧ next.NumGaps = list.NumGaps ∧
      (∀ k : Nat, next.GapStartList[k]? =
        if first - distance ≤ k ∧ k < first + count - distance then
          list.GapStartList[k + distance]? else list.GapStartList[k]?) ∧
      ∀ k : Nat, next.GapStopList[k]? =
        if first - distance ≤ k ∧ k < first + count - distance then
          list.GapStopList[k + distance]? else list.GapStopList[k]? := by
  obtain ⟨starts, startsOk, atStarts⟩ :=
    GapArray.moveDown_ok list.GapStartList le inside
  obtain ⟨stops, stopsOk, atStops⟩ :=
    GapArray.moveDown_ok list.GapStopList le inside
  rw [SctpSimpleGapList.moveDown, startsOk, ok_bind, stopsOk, ok_bind]
  exact ⟨_, rfl, rfl, atStarts, atStops⟩

theorem moveUp_ok (list : SctpSimpleGapList) (last count : Nat) (le : count ≤ last)
    (inside : last < MAX_GAP_COUNT) :
    ∃ next, list.moveUp last count = .ok next ∧ next.NumGaps = list.NumGaps ∧
      (∀ k : Nat, next.GapStartList[k]? =
        if last - count < k ∧ k ≤ last then list.GapStartList[k - 1]?
        else list.GapStartList[k]?) ∧
      ∀ k : Nat, next.GapStopList[k]? =
        if last - count < k ∧ k ≤ last then list.GapStopList[k - 1]?
        else list.GapStopList[k]? := by
  obtain ⟨starts, startsOk, atStarts⟩ := GapArray.moveUp_ok list.GapStartList le inside
  obtain ⟨stops, stopsOk, atStops⟩ := GapArray.moveUp_ok list.GapStopList le inside
  rw [SctpSimpleGapList.moveUp, startsOk, ok_bind, stopsOk, ok_bind]
  exact ⟨_, rfl, rfl, atStarts, atStops⟩

/-- A new block is put in before the rest. If the list is full, then the last block is lost. -/
theorem Represents.insertBlock (represents : Represents list (before ++ s :: rest)) (t : Nat) :
    ∃ next, list.insertBlock before.length (tsn t) = .ok next ∧
      Represents next ((before ++ ⟨t, t + 1⟩ :: s :: rest).take MAX_GAP_COUNT) := by
  have fits := represents.fits
  have count := represents.numGaps
  simp only [List.length_append, List.length_cons] at fits count
  obtain ⟨moved, movedOk, movedCount, movedStarts, movedStops⟩ := moveUp_ok
    { list with NumGaps := min (list.NumGaps + 1) MAX_GAP_COUNT }
    (min (list.NumGaps + 1) MAX_GAP_COUNT - 1)
    (min (list.NumGaps + 1) MAX_GAP_COUNT - 1 - before.length) (by omega) (by omega)
  obtain ⟨started, startedOk, startedCount, startedStops, starts⟩ := setStart_ok moved (tsn t)
    (show before.length < MAX_GAP_COUNT by omega)
  obtain ⟨next, nextOk, nextCount, nextStarts, stops⟩ := setStop_ok started (tsn t)
    (show before.length < MAX_GAP_COUNT by omega)
  rw [SctpSimpleGapList.insertBlock]
  simp only [movedOk, ok_bind, startedOk, nextOk]
  refine ⟨next, rfl, ?_, ?_, ?_, ?_⟩
  · rw [nextCount, startedCount, movedCount, List.length_take, List.length_append,
      List.length_cons, List.length_cons]
    simp only [count]
    omega
  · rw [List.length_take]
    omega
  · intro k b found
    have old := represents.starts (k - 1)
    have kept := represents.starts k
    rw [nextStarts, starts, movedStarts]
    rw [List.getElem?_take, getElem?_middle, List.getElem?_cons] at found
    rw [getElem?_middle] at old kept
    grind
  · intro k b found
    have old := represents.stops (k - 1)
    have kept := represents.stops k
    rw [stops, startedStops, movedStops]
    rw [List.getElem?_take, getElem?_middle, List.getElem?_cons] at found
    rw [getElem?_middle] at old kept
    grind

/-- A block is taken out. -/
theorem Represents.closeBlock (represents : Represents list (before ++ s :: rest)) :
    ∃ next, list.closeBlock before.length = .ok next ∧ Represents next (before ++ rest) := by
  have fits := represents.fits
  have count := represents.numGaps
  simp only [List.length_append, List.length_cons] at fits count
  rw [SctpSimpleGapList.closeBlock]
  split
  next last =>
    obtain rfl : rest = [] := by
      rw [← List.length_eq_zero_iff]
      omega
    obtain ⟨started, startedOk, startedCount, startedStops, starts⟩ := setStart_ok list 0
      (show before.length < MAX_GAP_COUNT by omega)
    obtain ⟨next, nextOk, nextCount, nextStarts, stops⟩ := setStop_ok started 0
      (show before.length < MAX_GAP_COUNT by omega)
    simp only [startedOk, ok_bind, nextOk]
    refine ⟨_, rfl, ?_, ?_, ?_, ?_⟩
    · simp only [nextCount, startedCount, count, List.length_append, List.length_nil]
      omega
    · simp only [List.length_append, List.length_nil]
      omega
    · intro k b found
      have kept := represents.starts k
      rw [nextStarts, starts]
      rw [getElem?_middle] at kept
      rw [List.append_nil] at found
      have inside := (List.getElem?_eq_some_iff.mp found).1
      grind
    · intro k b found
      have kept := represents.stops k
      rw [stops, startedStops]
      rw [getElem?_middle] at kept
      rw [List.append_nil] at found
      have inside := (List.getElem?_eq_some_iff.mp found).1
      grind
  next more =>
    obtain ⟨moved, movedOk, movedCount, starts, stops⟩ := moveDown_ok list 1 (before.length + 1)
      (list.NumGaps - 1 - before.length) (by omega) (by omega)
    simp only [movedOk, ok_bind]
    refine ⟨_, rfl, ?_, ?_, ?_, ?_⟩
    · simp only [movedCount, count, List.length_append]
      omega
    · simp only [List.length_append]
      omega
    · intro k b found
      have inside := (List.getElem?_eq_some_iff.mp found).1
      have kept := represents.starts k
      have old := represents.starts (k + 1)
      simp only [starts]
      rw [List.getElem?_append] at found
      rw [getElem?_middle] at kept old
      rw [List.length_append] at inside
      grind
    · intro k b found
      have inside := (List.getElem?_eq_some_iff.mp found).1
      have kept := represents.stops k
      have old := represents.stops (k + 1)
      simp only [stops]
      rw [List.getElem?_append] at found
      rw [getElem?_middle] at kept old
      rw [List.length_append] at inside
      grind

/-- A new block is put behind all others. -/
theorem Represents.append (represents : Represents list blocks) (t : Nat)
    (room : blocks.length < MAX_GAP_COUNT) :
    ∃ started next, list.setStart list.NumGaps (tsn t) = .ok started ∧
      started.setStop list.NumGaps (tsn t) = .ok next ∧
      Represents { next with NumGaps := list.NumGaps + 1 } (blocks ++ [⟨t, t + 1⟩]) := by
  have count := represents.numGaps
  obtain ⟨started, startedOk, startedCount, startedStops, starts⟩ := setStart_ok list (tsn t)
    (show list.NumGaps < MAX_GAP_COUNT by omega)
  obtain ⟨next, nextOk, nextCount, nextStarts, stops⟩ := setStop_ok started (tsn t)
    (show list.NumGaps < MAX_GAP_COUNT by omega)
  refine ⟨started, next, startedOk, nextOk, ?_, ?_, ?_, ?_⟩
  · simp [count]
  · rw [List.length_append]
    exact room
  · intro k b found
    have kept := represents.starts k
    simp only [nextStarts, starts]
    rw [getElem?_middle] at found
    grind
  · intro k b found
    have kept := represents.stops k
    simp only [stops, startedStops]
    rw [getElem?_middle] at found
    grind

/-- A block is split up around a number. If the list is full, then the last block is lost. -/
theorem Represents.splitBlock (represents : Represents list (before ++ s :: rest)) (t : Nat)
    (positive : 0 < t) :
    ∃ next, list.splitBlock before.length (tsn t) = .ok next ∧
      Represents next ((before ++ ⟨s.start, t⟩ :: ⟨t + 1, s.stop⟩ :: rest).take MAX_GAP_COUNT) := by
  have fits := represents.fits
  have count := represents.numGaps
  simp only [List.length_append, List.length_cons] at fits count
  obtain ⟨moved, movedOk, movedCount, movedStarts, movedStops⟩ := moveUp_ok
    { list with NumGaps := min (list.NumGaps + 1) MAX_GAP_COUNT }
    (min (list.NumGaps + 1) MAX_GAP_COUNT - 1)
    (min (list.NumGaps + 1) MAX_GAP_COUNT - 1 - before.length) (by omega) (by omega)
  obtain ⟨stopped, stoppedOk, stoppedCount, stoppedStarts, stops⟩ :=
    setStop_ok moved (tsn (t - 1)) (show before.length < MAX_GAP_COUNT by omega)
  rw [SctpSimpleGapList.splitBlock, tsn_pred positive, tsn_succ]
  simp only [movedOk, ok_bind, stoppedOk]
  have stoppedNumGaps : stopped.NumGaps = min (list.NumGaps + 1) MAX_GAP_COUNT := by
    rw [stoppedCount, movedCount]
  have length : ((before ++ ⟨s.start, t⟩ :: ⟨t + 1, s.stop⟩ :: rest).take MAX_GAP_COUNT).length =
      stopped.NumGaps := by
    rw [stoppedNumGaps, List.length_take, List.length_append, List.length_cons, List.length_cons,
      count]
    omega
  have starts (k : Nat) (b : Span Nat) (found : (before ++ ⟨s.start, t⟩ :: ⟨t + 1, s.stop⟩ ::
      rest)[k]? = some b) (inside : k < MAX_GAP_COUNT) (other : k ≠ before.length + 1) :
      stopped.GapStartList[k]? = some (tsn b.start) := by
    have old := represents.starts (k - 1)
    have kept := represents.starts k
    rw [stoppedStarts, movedStarts]
    rw [getElem?_middle, List.getElem?_cons] at found
    rw [getElem?_middle] at old kept
    grind
  have stops' (k : Nat) (b : Span Nat) (found : (before ++ ⟨s.start, t⟩ :: ⟨t + 1, s.stop⟩ ::
      rest)[k]? = some b) (inside : k < MAX_GAP_COUNT) :
      stopped.GapStopList[k]? = some (tsn (b.stop - 1)) := by
    have old := represents.stops (k - 1)
    have kept := represents.stops k
    rw [stops, movedStops]
    rw [getElem?_middle, List.getElem?_cons] at found
    rw [getElem?_middle] at old kept
    grind
  split
  next more =>
    obtain ⟨next, nextOk, nextCount, nextStops, nextStarts⟩ :=
      setStart_ok stopped (tsn (t + 1)) (show before.length + 1 < MAX_GAP_COUNT by omega)
    refine ⟨next, nextOk, by rw [nextCount, length], by rw [List.length_take]; omega, ?_, ?_⟩
    · intro k b found
      rw [List.getElem?_take] at found
      rw [nextStarts]
      by_cases upper : k = before.length + 1
      · rw [getElem?_middle, List.getElem?_cons] at found
        grind
      · grind
    · intro k b found
      rw [List.getElem?_take] at found
      rw [nextStops]
      grind
  next full =>
    -- the upper part of the last block is lost
    refine ⟨stopped, rfl, length.symm, by rw [List.length_take]; omega, ?_, ?_⟩
    · intro k b found
      rw [List.getElem?_take] at found
      grind
    · intro k b found
      rw [List.getElem?_take] at found
      grind

/-- A block is dropped. The loop reads one entry behind the last block. -/
theorem Represents.dropBlock (represents : Represents list (before ++ s :: rest))
    (room : (before ++ s :: rest).length < MAX_GAP_COUNT) :
    ∃ next, list.dropBlock before.length = .ok next ∧ Represents next (before ++ rest) := by
  have count := represents.numGaps
  simp only [List.length_append, List.length_cons] at room count
  obtain ⟨moved, movedOk, movedCount, movedStarts, movedStops⟩ := moveDown_ok list 1
    (before.length + 1) (list.NumGaps - before.length) (by omega) (by omega)
  obtain ⟨started, startedOk, startedCount, startedStops, starts⟩ := setStart_ok moved 0
    (show list.NumGaps - 1 < MAX_GAP_COUNT by omega)
  obtain ⟨next, nextOk, nextCount, nextStarts, stops⟩ := setStop_ok started 0
    (show list.NumGaps - 1 < MAX_GAP_COUNT by omega)
  rw [SctpSimpleGapList.dropBlock]
  simp only [movedOk, ok_bind, startedOk, nextOk]
  refine ⟨_, rfl, ?_, ?_, ?_, ?_⟩
  · simp only [nextCount, startedCount, movedCount, count, List.length_append]
    omega
  · simp only [List.length_append]
    omega
  · intro k b found
    have inside := (List.getElem?_eq_some_iff.mp found).1
    have kept := represents.starts k
    have old := represents.starts (k + 1)
    simp only [nextStarts, starts, movedStarts]
    rw [List.getElem?_append] at found
    rw [getElem?_middle] at kept old
    rw [List.length_append] at inside
    grind
  · intro k b found
    have inside := (List.getElem?_eq_some_iff.mp found).1
    have kept := represents.stops k
    have old := represents.stops (k + 1)
    simp only [stops, startedStops, movedStops]
    rw [List.getElem?_append] at found
    rw [getElem?_middle] at kept old
    rw [List.length_append] at inside
    grind

end Edits

end Inet.Sctp
