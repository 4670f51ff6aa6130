import Inet.Sctp.GapBlocks

/-!
# Gap lists as sets

What a gap list covers: everything up to the cumulative TSN, and the chunks in its blocks. Each
operation changes this set as it should, as long as no chunk is left out of the comparisons.
-/
namespace Inet.Sctp

open Lib SpanList

variable {p : Nat}

/-- The blocks are spaced, leave a gap behind the cumulative TSN, and are not too far away. -/
structure Sound (cum : Nat) (blocks : List (Span Nat)) : Prop where
  spaced : Spaced blocks
  beyond : ∀ s ∈ blocks, cum + 1 < s.start
  near : ∀ s ∈ blocks, s.stop ≤ cum + 2 ^ 31

/-- The chunk is less than half of the sequence space away from the cumulative TSN. -/
def Near (cum t : Nat) : Prop := t < cum + 2 ^ 31 ∧ cum < t + 2 ^ 31

/-- The chunk is at most half of the sequence space away from the cumulative TSN. Each TSN is that of
one such chunk. -/
def InReach (cum t : Nat) : Prop := t ≤ cum + 2 ^ 31 ∧ cum < t + 2 ^ 31

theorem Near.inReach {cum t : Nat} (near : Near cum t) : InReach cum t :=
  ⟨Nat.le_of_lt near.1, near.2⟩

/-- Taking a chunk out does not drop a block of a full list. The loop would read behind the arrays. -/
def RoomToErase (t : Nat) (blocks : List (Span Nat)) : Prop :=
  blocks.length < MAX_GAP_COUNT ∨ ⟨t, t + 1⟩ ∉ blocks

variable {list : SctpSimpleGapList} {blocks before rest : List (Span Nat)} {s : Span Nat}
  {cum t : Nat}

/-- A chunk up to the cumulative TSN is in no block. -/
theorem between_behind {a b : Nat} (behind : t < a) (le : a ≤ b) (near : b < t + 2 ^ 32) :
    tsnBetween (tsn a) (tsn t) (tsn b) = false := by
  rw [Bool.eq_false_iff, ne_eq, tsnBetween, tsnGe, tsnGe, tsnGt, tsnGt]
  simp only [Bool.and_eq_true, Bool.or_eq_true, decide_eq_true_eq, beq_iff_eq, BitVec.lt_def,
    BitVec.toNat_sub, ← BitVec.toNat_inj, toNat_tsn]
  omega

/-! ### Forwarding -/

theorem countAdvance_ok (represents : Represents list (before ++ rest)) (c : Nat)
    (near : ∀ s ∈ rest, c < s.start + 2 ^ 31 ∧ s.start < c + 2 ^ 31) :
    list.countAdvance (tsn c) rest.length before.length =
      .ok (before.length + (rest.takeWhile fun s => decide (s.start < c + 1)).length) := by
  induction rest generalizing before with
  | nil => rfl
  | cons s rest ih =>
    obtain ⟨below, above⟩ := near s List.mem_cons_self
    have found : (before ++ s :: rest)[before.length]? = some s := by simp
    rw [List.length_cons, SctpSimpleGapList.countAdvance, represents.start_ok found, ok_bind,
      tsnGe_tsn below above, List.takeWhile_cons]
    by_cases starts : s.start ≤ c
    · have moved : Represents list ((before ++ [s]) ++ rest) := by simpa using represents
      have later := ih moved fun u member => near u (.tail _ member)
      rw [List.length_append, List.length_singleton] at later
      simp only [starts, decide_true, if_true, Nat.lt_succ_of_le starts, later, List.length_cons]
      congr 1
      omega
    · simp only [starts, decide_false, Bool.false_eq_true, if_false,
        show ¬ s.start < c + 1 by omega, List.length_nil]
      rfl

/-- Forwarding drops the blocks that start at or below the new cumulative TSN. -/
theorem forward_ok (represents : Represents list blocks) (c : Nat)
    (near : ∀ s ∈ blocks, c < s.start + 2 ^ 31 ∧ s.start < c + 2 ^ 31) :
    ∃ next, list.forwardCumAckTsn (tsn c) = .ok next ∧
      Represents next (dropBelow (c + 1) blocks) := by
  have counted := countAdvance_ok (List.nil_append blocks ▸ represents) c near
  have numGaps := represents.numGaps
  have fits := represents.fits
  rw [SctpSimpleGapList.forwardCumAckTsn, numGaps]
  rw [List.length_nil] at counted
  rw [counted, ok_bind, Nat.zero_add]
  have split : blocks.takeWhile (fun s : Span Nat => decide (s.start < c + 1)) ++
      blocks.dropWhile (fun s : Span Nat => decide (s.start < c + 1)) = blocks :=
    List.takeWhile_append_dropWhile
  rw [dropBelow]
  generalize blocks.takeWhile (fun s : Span Nat => decide (s.start < c + 1)) = front at split ⊢
  generalize blocks.dropWhile (fun s : Span Nat => decide (s.start < c + 1)) = back at split ⊢
  subst split
  rw [List.length_append] at fits numGaps ⊢
  split
  next some =>
    obtain ⟨moved, movedOk, movedCount, starts, stops⟩ := moveDown_ok list front.length
      front.length (front.length + back.length - front.length) (Nat.le_refl _) (by omega)
    rw [movedOk, ok_bind]
    refine ⟨_, rfl, ?_, by omega, ?_, ?_⟩
    · simp only
      omega
    · intro k b found
      have inside := (List.getElem?_eq_some_iff.mp found).1
      have old := represents.starts (k + front.length) b
        (by rw [List.getElem?_append_right (by omega)]; simpa using found)
      simp only [starts]
      rw [if_pos (by omega), old]
    · intro k b found
      have inside := (List.getElem?_eq_some_iff.mp found).1
      have old := represents.stops (k + front.length) b
        (by rw [List.getElem?_append_right (by omega)]; simpa using found)
      simp only [stops]
      rw [if_pos (by omega), old]
  next none =>
    obtain rfl : front = [] := List.length_eq_zero_iff.mp (by omega)
    exact ⟨list, rfl, represents⟩

/-! ### Trying to advance -/

/-- Without a block right behind the cumulative TSN nothing changes. -/
theorem advanceLoop_apart (represents : Represents list blocks) (remaining : Nat)
    (apart : ∀ s ∈ blocks.head?, tsn s.start ≠ tsn (cum + 1)) (some : blocks ≠ [])
    (progress : Bool) :
    SctpSimpleGapList.advanceLoop remaining list (tsn cum) progress =
      .ok (list, tsn cum, progress) := by
  induction remaining with
  | zero => rfl
  | succ remaining ih =>
    cases blocks with
    | nil => exact absurd rfl some
    | cons s rest =>
      rw [SctpSimpleGapList.advanceLoop, represents.start_ok (i := 0) rfl, ok_bind, tsn_succ,
        if_neg (Ne.symm (apart s rfl)), ih]

theorem tryToAdvance_ok (represents : Represents list blocks) (sound : Sound cum blocks) :
    list.tryToAdvanceCumAckTsn (tsn cum) = .ok (list, tsn cum, false) := by
  rw [SctpSimpleGapList.tryToAdvanceCumAckTsn]
  by_cases none : blocks = []
  · have count : list.NumGaps = 0 := by rw [represents.numGaps, none]; rfl
    rw [count]
    rfl
  · refine advanceLoop_apart represents _ ?_ none false
    intro s first
    have member := List.mem_of_mem_head? first
    have positive := sound.spaced.positive s member
    have beyond := sound.beyond s member
    have near := sound.near s member
    rw [ne_eq, tsn_inj (by omega) (by omega)]
    omega

/-! ### Removing -/

theorem between_block (sound : Sound cum blocks) (near : InReach cum t) (member : s ∈ blocks) :
    tsnBetween (tsn s.start) (tsn t) (tsn (s.stop - 1)) = true ↔ s.start ≤ t ∧ t < s.stop := by
  have positive := sound.spaced.positive s member
  have beyond := sound.beyond s member
  have stops := sound.near s member
  obtain ⟨below, above⟩ := near
  by_cases behind : t ≤ cum
  · rw [between_behind (by omega) (by omega) (by omega)]
    simp only [Bool.false_eq_true, false_iff]
    omega
  · rw [tsnBetween_tsn (by omega) (by omega) (by omega) (by omega)]
    simp only [Bool.and_eq_true, decide_eq_true_eq]
    omega

/-- The size of a block does not wrap. -/
theorem gapsize_eq (sound : Sound cum blocks) (member : s ∈ blocks) :
    (tsn (s.stop - 1) - tsn s.start + 1).toInt = s.stop - s.start := by
  have positive := sound.spaced.positive s member
  have beyond := sound.beyond s member
  have stops := sound.near s member
  have size : (tsn (s.stop - 1) - tsn s.start + 1).toNat = s.stop - s.start := by
    have one : (1 : Tsn).toNat = 1 := rfl
    rw [BitVec.toNat_add, toNat_sub_tsn (by omega) (by omega), one]
    omega
  rw [BitVec.toInt_eq_toNat_of_lt (by omega), size]
  omega

/-- The blocks from an index on do not hold the number. The search goes on below the index. -/
theorem removeLoop_ok (represents : Represents list blocks) (sound : Sound cum blocks)
    (near : InReach cum t) (room : RoomToErase t blocks) (remaining : Nat)
    (front back : List (Span Nat)) (split : blocks = front ++ back)
    (count : front.length = remaining) (outside : ¬ Holds back t) :
    ∃ next, list.removeLoop (tsn t) remaining = .ok next ∧
      Represents next ((erase t blocks).take MAX_GAP_COUNT) := by
  induction remaining generalizing front back with
  | zero =>
    obtain rfl := List.length_eq_zero_iff.mp count
    rw [List.nil_append] at split
    subst split
    rw [erase_of_not_holds outside, List.take_of_length_le represents.fits]
    exact ⟨list, rfl, represents⟩
  | succ i ih =>
    obtain ⟨front, s, rfl⟩ : ∃ front' s, front = front' ++ [s] := by
      have nonempty : front ≠ [] := by
        rintro rfl
        cases count
      exact ⟨_, _, (List.dropLast_concat_getLast nonempty).symm⟩
    rw [List.append_assoc, List.singleton_append] at split
    rw [List.length_append, List.length_singleton, Nat.add_right_cancel_iff] at count
    subst split count
    have member : s ∈ front ++ s :: back := by simp
    have found : (front ++ s :: back)[front.length]? = some s := by simp
    have positive := sound.spaced.positive s member
    have beyond := sound.beyond s member
    have stops := sound.near s member
    obtain ⟨below, above⟩ := near
    rw [SctpSimpleGapList.removeLoop, represents.start_ok found, ok_bind,
      represents.stop_ok found, ok_bind]
    by_cases inside : s.start ≤ t ∧ t < s.stop
    · rw [if_pos ((between_block sound ⟨below, above⟩ member).mpr inside),
        erase_append (not_holds_before sound.spaced inside.1), SpanList.erase, if_pos inside]
      simp only [gapsize_eq sound member, gt_iff_lt, tsn_inj (show s.stop - 1 < t + 2 ^ 32 by omega)
        (show t < s.stop - 1 + 2 ^ 32 by omega), tsn_inj (show s.start < t + 2 ^ 32 by omega)
        (show t < s.start + 2 ^ 32 by omega)]
      by_cases single : s.start + 1 = s.stop
      · have same : s = ⟨t, t + 1⟩ := by
          obtain ⟨start, stop⟩ := s
          simp only [Span.mk.injEq]
          simp only at inside single
          omega
        have room := room.resolve_right fun outside => outside (same ▸ member)
        rw [if_neg (by omega), if_pos single]
        obtain ⟨next, nextOk, represents⟩ := represents.dropBlock room
        refine ⟨next, nextOk, ?_⟩
        rwa [List.take_of_length_le represents.fits]
      rw [if_pos (by omega), if_neg single]
      by_cases last : t + 1 = s.stop
      · rw [if_pos (by omega), if_pos last, tsn_pred (by omega)]
        obtain ⟨next, nextOk, represents⟩ := represents.setStop (s.stop - 1 - 1)
        refine ⟨next, nextOk, ?_⟩
        rw [List.take_of_length_le (by simpa using represents.fits)]
        rwa [show s.stop - 1 - 1 + 1 = t by omega] at represents
      rw [if_neg (by omega), if_neg last]
      by_cases first : t = s.start
      · rw [if_pos first.symm, if_pos first, tsn_succ]
        obtain ⟨next, nextOk, represents⟩ := represents.setStart (s.start + 1)
        refine ⟨next, nextOk, ?_⟩
        rw [List.take_of_length_le (by simpa using represents.fits)]
        rwa [first]
      · rw [if_neg (Ne.symm first), if_neg first]
        exact represents.splitBlock t (by omega)
    · rw [if_neg fun between => inside ((between_block sound ⟨below, above⟩ member).mp between)]
      refine ih front (s :: back) rfl rfl ?_
      rw [holds_cons]
      exact fun held => held.elim inside outside

theorem remove_ok (represents : Represents list blocks) (sound : Sound cum blocks)
    (near : InReach cum t) (room : RoomToErase t blocks) :
    ∃ next, list.removeFromGapList (tsn t) = .ok next ∧
      Represents next ((erase t blocks).take MAX_GAP_COUNT) := by
  rw [SctpSimpleGapList.removeFromGapList, represents.numGaps]
  exact removeLoop_ok represents sound near room _ blocks [] (List.append_nil _).symm rfl holds_nil

/-! ### Updating -/

/-- The next chunk is covered, with the block right behind it. -/
def advance (cum : Nat) : List (Span Nat) → Nat × List (Span Nat)
  | [] => (cum + 1, [])
  | s :: rest => if s.start = cum + 2 then (s.stop - 1, rest) else (cum + 1, s :: rest)

/-- A chunk beyond the cumulative TSN is received. -/
def receive (t cum : Nat) (blocks : List (Span Nat)) : Nat × List (Span Nat) :=
  if t = cum + 1 then advance cum blocks else (cum, (insert t blocks).take MAX_GAP_COUNT)

/-- No block that starts with the TSN 0 is looked at: the chunk is up to the end of an earlier
block. -/
def Passes (t : Nat) (blocks : List (Span Nat)) : Prop :=
  ∀ s ∈ blocks, tsn s.start = 0 → ∃ d ∈ blocks, d.start < s.start ∧ t < d.stop

theorem Represents.index (represents : Represents list (before ++ s :: rest)) :
    list.NumGaps - (rest.length + 1) = before.length := by
  rw [represents.numGaps, List.length_append, List.length_cons]
  omega

/-- A chunk that is covered already is left out, whatever gap the loop looks for. -/
theorem updateLoop_covered (represents : Represents list (before ++ rest))
    (sound : Sound cum (before ++ rest)) (near : Near cum t) (held : Holds (before ++ rest) t)
    (later : ∀ s ∈ rest, t < s.stop) (lo : Nat) (beyond : t < lo) (close : lo ≤ cum + 2 ^ 31) :
    list.updateLoop (tsn t) (tsn cum) rest.length (tsn lo) =
      .ok ⟨list, tsn cum, false, true⟩ := by
  induction rest generalizing before lo with
  | nil =>
    rw [List.append_nil] at represents sound held
    obtain ⟨d, dMember, dStart, dStop⟩ := held
    have dBeyond := sound.beyond d dMember
    obtain ⟨below, above⟩ := near
    obtain ⟨front, s, rfl⟩ : ∃ front s, before = front ++ [s] :=
      ⟨_, _, (List.dropLast_concat_getLast (List.ne_nil_of_mem dMember)).symm⟩
    have count := represents.numGaps
    have found : (front ++ [s])[list.NumGaps - 1]? = some s := by
      rw [count, List.length_append, List.length_singleton, Nat.add_sub_cancel]
      simp
    have member : s ∈ front ++ [s] := by simp
    have positive := sound.spaced.positive s member
    have sBeyond := sound.beyond s member
    have stops := sound.near s member
    -- the last block does not end before the chunk
    have last : d.stop ≤ s.stop := by
      rcases List.mem_append.mp dMember with earlier | same
      · have := (List.pairwise_append.mp sound.spaced.apart).2.2 d earlier s (by simp)
        omega
      · rw [List.mem_singleton.mp same]
    rw [List.length_append, List.length_singleton] at count
    rw [List.length_nil, SctpSimpleGapList.updateLoop, SctpSimpleGapList.appendTsn,
      if_neg (by rw [tsn_inj (by omega) (by omega)]; omega), SctpSimpleGapList.behindLast,
      if_neg (by omega), represents.stop_ok found, ok_bind, tsn_succ, pure_bind,
      tsnGt_tsn (by omega) (by omega)]
    simp only [show ¬ s.stop - 1 + 1 < t by omega, decide_false, Bool.false_and,
      Bool.false_eq_true, if_false]
    rfl
  | cons s rest ih =>
    have member : s ∈ before ++ s :: rest := by simp
    have found : (before ++ s :: rest)[before.length]? = some s := by simp
    have positive := sound.spaced.positive s member
    have sBeyond := sound.beyond s member
    have stops := sound.near s member
    have behind := later s List.mem_cons_self
    rw [List.length_cons, SctpSimpleGapList.updateLoop, represents.index,
      represents.start_ok found]
    rw [List.append_cons] at represents sound held
    have goOn (lo : Nat) (beyond : t < lo) (close : lo ≤ cum + 2 ^ 31) :=
      ih represents sound held (fun u member => later u (.tail _ member)) lo beyond close
    obtain ⟨below, above⟩ := near
    obtain ⟨d, dMember, dStart, dStop⟩ := held
    have dBeyond := sound.beyond d dMember
    simp only [ok_bind]
    split
    · have misses : tsnBetween (tsn lo) (tsn t) (tsn s.start - 1) = false := by
        rw [tsn_pred (by omega), tsnBetween_tsn (by omega) (by omega) (by omega) (by omega)]
        simp only [show ¬ lo ≤ t by omega, decide_false, Bool.false_and]
      rw [misses, if_neg Bool.false_ne_true]
      rw [← List.append_cons] at represents
      rw [represents.stop_ok found, ok_bind, tsn_succ]
      exact goOn _ (by omega) (by omega)
    · exact goOn lo beyond close

/-- The gap before the rest of the blocks starts at a position: behind the last block before it, or
behind the cumulative TSN. -/
def GapStarts (cum p : Nat) (before : List (Span Nat)) : Prop :=
  (before = [] ∧ p = cum + 1) ∨ ∃ front d, before = front ++ [d] ∧ p = d.stop

/-- Blocks before a gap end before it. -/
theorem GapStarts.below (starts : GapStarts cum p before) (sound : Sound cum (before ++ rest)) :
    cum < p ∧ p ≤ cum + 2 ^ 31 ∧ ∀ d ∈ before, d.start < d.stop ∧ d.stop ≤ p := by
  rcases starts with ⟨rfl, rfl⟩ | ⟨front, d, rfl, rfl⟩
  · exact ⟨Nat.lt_succ_self _, by omega, nofun⟩
  · have member : d ∈ front ++ [d] ++ rest := by simp
    have positive := sound.spaced.positive d member
    have beyond := sound.beyond d member
    have stops := sound.near d member
    refine ⟨by omega, stops, fun u earlier => ?_⟩
    have uMember : u ∈ front ++ [d] ++ rest := List.mem_append_left _ earlier
    have uPositive := sound.spaced.positive u uMember
    refine ⟨uPositive, ?_⟩
    rcases List.mem_append.mp earlier with first | last
    · have apart := sound.spaced.apart
      rw [List.append_assoc] at apart
      have := (List.pairwise_append.mp apart).2.2 u first d (by simp)
      omega
    · rw [List.mem_singleton.mp last]

/-- The next block starts behind the gap. -/
theorem GapStarts.next_start (starts : GapStarts cum p before)
    (sound : Sound cum (before ++ s :: rest)) : p < s.start := by
  rcases starts with ⟨rfl, rfl⟩ | ⟨front, d, rfl, rfl⟩
  · exact sound.beyond s List.mem_cons_self
  · exact (List.pairwise_append.mp sound.spaced.apart).2.2 d (by simp) s List.mem_cons_self

theorem fillGap_ok (represents : Represents list (before ++ s :: rest))
    (sound : Sound cum (before ++ s :: rest)) (starts : GapStarts cum p before) (le : p ≤ t)
    (inside : t < s.start) :
    ∃ next, list.fillGap (tsn t) (tsn cum) (tsn p) (tsn (s.start - 1)) before.length =
        .ok ⟨next, tsn (receive t cum (before ++ s :: rest)).1, true, true⟩ ∧
      Represents next (receive t cum (before ++ s :: rest)).2 := by
  have member : s ∈ before ++ s :: rest := by simp
  have found : (before ++ s :: rest)[before.length]? = some s := by simp
  have positive := sound.spaced.positive s member
  have stops := sound.near s member
  obtain ⟨beyond, close, earlier⟩ := starts.below sound
  have fits := represents.fits
  have size : (tsn (s.start - 1) - tsn p + 1).toNat = s.start - p := by
    have one : (1 : Tsn).toNat = 1 := rfl
    rw [BitVec.toNat_add, toNat_sub_tsn (by omega) (by omega), one]
    omega
  rw [SctpSimpleGapList.fillGap]
  simp only [size, gt_iff_lt, tsn_succ, tsn_inj (show t < s.start - 1 + 2 ^ 32 by omega)
    (show s.start - 1 < t + 2 ^ 32 by omega), tsn_inj (show t < p + 2 ^ 32 by omega)
    (show p < t + 2 ^ 32 by omega), tsn_inj (show t < cum + 1 + 2 ^ 32 by omega)
    (show cum + 1 < t + 2 ^ 32 by omega), tsn_inj (show p < cum + 1 + 2 ^ 32 by omega)
    (show cum + 1 < p + 2 ^ 32 by omega)]
  by_cases wide : 1 < s.start - p
  · rw [if_pos wide]
    by_cases up : t = s.start - 1
    · -- the next block gets longer
      rw [if_pos up, receive, if_neg (by omega),
        insert_append fun d member => ⟨(earlier d member).1, by have := earlier d member; omega⟩,
        SpanList.insert, if_neg (by omega), if_pos (by omega)]
      obtain ⟨next, nextOk, represents⟩ := represents.setStart t
      rw [nextOk]
      refine ⟨next, rfl, ?_⟩
      rwa [List.take_of_length_le represents.fits]
    rw [if_neg up]
    by_cases down : t = p
    · rw [if_pos down]
      rcases starts with ⟨rfl, rfl⟩ | ⟨front, d, rfl, rfl⟩
      · -- the cumulative TSN moves by one
        rw [if_pos down, receive, if_pos down]
        simp only [List.nil_append, advance, if_neg (show s.start ≠ cum + 2 by omega)]
        exact ⟨list, rfl, represents⟩
      · -- the block before the gap gets longer
        have dMember : d ∈ front ++ [d] := by simp
        have dPositive := (earlier d dMember).1
        have dBeyond := sound.beyond d (List.mem_append_left _ dMember)
        rw [if_neg (by omega), receive, if_neg (by omega), List.append_assoc, List.singleton_append]
        rw [List.append_assoc, List.singleton_append] at represents
        simp only [List.length_append, List.length_cons] at fits
        rw [List.length_append, List.length_singleton, previous_eq (Nat.succ_pos _) (by omega),
          Nat.succ_sub_one]
        obtain ⟨next, nextOk, represents⟩ := represents.setStop t
        rw [nextOk]
        refine ⟨next, rfl, ?_⟩
        have apart := sound.spaced.apart
        rw [List.append_assoc] at apart
        have below (u) (member : u ∈ front) : u.start < u.stop ∧ u.stop < t := by
          have := (List.pairwise_append.mp apart).2.2 u member d (by simp)
          exact ⟨(earlier u (List.mem_append_left _ member)).1, by omega⟩
        rw [insert_append below, SpanList.insert, if_neg (by omega), if_neg (by omega),
          if_neg (by omega), if_pos down, extend, if_neg (by omega)]
        rwa [List.take_of_length_le (by simpa using represents.fits)]
    · -- a new block
      rw [if_neg down, receive, if_neg (by omega),
        insert_append fun d member => ⟨(earlier d member).1, by have := earlier d member; omega⟩,
        SpanList.insert, if_pos (by omega)]
      obtain ⟨next, nextOk, represents⟩ := represents.insertBlock t
      rw [nextOk]
      exact ⟨next, rfl, represents⟩
  · obtain rfl : t = p := by omega
    rw [if_neg wide]
    rcases starts with ⟨rfl, rfl⟩ | ⟨front, d, rfl, rfl⟩
    · -- the cumulative TSN moves to the end of the next block
      rw [if_pos rfl, represents.stop_ok found, receive, if_pos rfl]
      obtain ⟨next, nextOk, represents⟩ := represents.closeBlock
      simp only [ok_bind, List.nil_append, advance, if_pos (show s.start = cum + 2 by omega)]
      rw [List.length_nil] at nextOk ⊢
      rw [nextOk]
      exact ⟨next, rfl, represents⟩
    · -- two blocks become one
      have dMember : d ∈ front ++ [d] := by simp
      have dPositive := (earlier d dMember).1
      have dBeyond := sound.beyond d (List.mem_append_left _ dMember)
      rw [if_neg (by omega), represents.stop_ok found, ok_bind, receive, if_neg (by omega),
        List.append_assoc, List.singleton_append]
      rw [List.append_assoc, List.singleton_append] at represents
      simp only [List.length_append, List.length_cons] at fits
      rw [List.length_append, List.length_singleton, previous_eq (Nat.succ_pos _) (by omega),
        Nat.succ_sub_one]
      obtain ⟨joined, joinedOk, represents⟩ := represents.setStop (s.stop - 1)
      rw [Nat.sub_add_cancel (by omega), List.append_cons] at represents
      obtain ⟨next, nextOk, represents⟩ := represents.closeBlock
      rw [List.length_append, List.length_singleton] at nextOk
      rw [joinedOk, ok_bind, nextOk]
      refine ⟨next, rfl, ?_⟩
      have apart := sound.spaced.apart
      rw [List.append_assoc] at apart
      have below (u) (member : u ∈ front) : u.start < u.stop ∧ u.stop < d.stop := by
        have := (List.pairwise_append.mp apart).2.2 u member d (by simp)
        exact ⟨(earlier u (List.mem_append_left _ member)).1, by omega⟩
      rw [insert_append below, SpanList.insert, if_neg (by omega), if_neg (by omega),
        if_neg (by omega), if_pos rfl, extend, if_pos (by omega)]
      rw [List.append_assoc, List.singleton_append] at represents
      rwa [List.take_of_length_le represents.fits]

/-- Behind the last block a chunk moves the cumulative TSN, makes the last block longer, or is a new
block if there is room for one. -/
theorem appendTsn_ok (represents : Represents list blocks) (sound : Sound cum blocks)
    (near : Near cum t) (starts : GapStarts cum p blocks) (le : p ≤ t) :
    ∃ next, list.appendTsn (tsn t) (tsn cum) (tsn p) =
        .ok ⟨next, tsn (receive t cum blocks).1,
          decide (t = p ∨ blocks.length < MAX_GAP_COUNT), true⟩ ∧
      Represents next (receive t cum blocks).2 := by
  have fits := represents.fits
  have count := represents.numGaps
  obtain ⟨below, above⟩ := near
  obtain ⟨beyond, close, earlier⟩ := starts.below ((List.append_nil blocks).symm ▸ sound)
  have inserted (lt : p < t) : SpanList.insert t blocks = blocks ++ [⟨t, t + 1⟩] := by
    have behind : SpanList.insert t (blocks ++ []) = blocks ++ SpanList.insert t [] :=
      insert_append fun d member => ⟨(earlier d member).1, by have := earlier d member; omega⟩
    rw [List.append_nil] at behind
    exact behind
  rw [SctpSimpleGapList.appendTsn]
  simp only [tsn_succ, tsn_inj (show t < p + 2 ^ 32 by omega) (show p < t + 2 ^ 32 by omega),
    tsn_inj (show t < cum + 1 + 2 ^ 32 by omega) (show cum + 1 < t + 2 ^ 32 by omega)]
  by_cases same : t = p
  · rw [if_pos same]
    simp only [same, true_or, decide_true]
    rcases starts with ⟨rfl, rfl⟩ | ⟨front, d, rfl, rfl⟩
    · rw [if_pos rfl, receive, if_pos rfl]
      exact ⟨list, rfl, represents⟩
    · have dMember : d ∈ front ++ [d] := by simp
      have dPositive := (earlier d dMember).1
      have dBeyond := sound.beyond d dMember
      simp only [List.length_append, List.length_singleton] at fits
      rw [List.length_append, List.length_singleton] at count
      have found : (front ++ [d])[front.length]? = some d := by simp
      rw [if_neg (by omega), count, previous_eq (Nat.succ_pos _) (by omega), Nat.succ_sub_one,
        represents.stop_ok found]
      obtain ⟨next, nextOk, represents⟩ := represents.setStop d.stop
      simp only [ok_bind, tsn_succ, Nat.sub_add_cancel (show 1 ≤ d.stop by omega), nextOk]
      rw [receive, if_neg (by omega)]
      refine ⟨next, rfl, ?_⟩
      have below (u) (member : u ∈ front) : u.start < u.stop ∧ u.stop < d.stop := by
        have := (List.pairwise_append.mp sound.spaced.apart).2.2 u member d (by simp)
        exact ⟨(earlier u (List.mem_append_left _ member)).1, by omega⟩
      rw [insert_append below, SpanList.insert, if_neg (by omega), if_neg (by omega),
        if_neg (by omega), if_pos rfl, extend]
      rwa [List.take_of_length_le represents.fits]
  · rw [if_neg same, receive, if_neg (show t ≠ cum + 1 by omega), inserted (by omega)]
    have behind : list.behindLast (tsn t) = .ok true := by
      rw [SctpSimpleGapList.behindLast]
      split
      · rfl
      next filled =>
        rcases starts with ⟨rfl, _⟩ | ⟨front, d, rfl, rfl⟩
        · exact absurd count filled
        · have dPositive := (earlier d (by simp)).1
          have found : (front ++ [d])[list.NumGaps - 1]? = some d := by
            rw [count, List.length_append, List.length_singleton, Nat.add_sub_cancel]
            simp
          rw [represents.stop_ok found, ok_bind, tsn_succ, tsnGt_tsn (by omega) (by omega)]
          simp only [show d.stop - 1 + 1 < t by omega, decide_true]
          rfl
    rw [behind, ok_bind]
    simp only [same, false_or, Bool.true_and, decide_eq_true_eq, count]
    by_cases room : blocks.length < MAX_GAP_COUNT
    · rw [if_pos room]
      obtain ⟨started, next, startedOk, nextOk, represents⟩ := represents.append t room
      rw [count] at startedOk nextOk represents
      simp only [startedOk, ok_bind, nextOk, room, decide_true]
      refine ⟨_, rfl, ?_⟩
      rwa [List.take_of_length_le represents.fits]
    · rw [if_neg room]
      simp only [room, decide_false]
      refine ⟨list, rfl, ?_⟩
      rw [List.take_append_of_le_length (by omega), List.take_of_length_le fits]
      exact represents

/-- The loop finds the gap that the chunk is in, or the block that it is in. -/
theorem updateLoop_ok (represents : Represents list (before ++ rest))
    (sound : Sound cum (before ++ rest)) (near : Near cum t) (passes : Passes t (before ++ rest))
    (starts : GapStarts cum p before) (le : p ≤ t) :
    ∃ next new, list.updateLoop (tsn t) (tsn cum) rest.length (tsn p) =
        .ok ⟨next, tsn (receive t cum (before ++ rest)).1, new, true⟩ ∧
      Represents next (receive t cum (before ++ rest)).2 ∧
      ((before ++ rest).length < MAX_GAP_COUNT → (new = true ↔ ¬ Holds (before ++ rest) t)) := by
  obtain ⟨beyond, close, earlier⟩ := starts.below sound
  have outside : ¬ Holds before t := by
    rintro ⟨d, member, _, below⟩
    have := earlier d member
    omega
  induction rest generalizing before p with
  | nil =>
    rw [List.append_nil] at represents sound ⊢
    obtain ⟨next, nextOk, represents⟩ := appendTsn_ok represents sound near starts le
    refine ⟨next, _, nextOk, represents, fun room => ?_⟩
    simp [room, outside]
  | cons s rest ih =>
    have member : s ∈ before ++ s :: rest := by simp
    have found : (before ++ s :: rest)[before.length]? = some s := by simp
    have positive := sound.spaced.positive s member
    have sBeyond := sound.beyond s member
    have stops := sound.near s member
    -- the block does not start with the TSN 0
    have nonzero : tsn s.start ≠ 0 := by
      intro zero
      obtain ⟨d, dMember, before_, covers⟩ := passes s member zero
      rcases List.mem_append.mp dMember with first | last
      · have := earlier d first
        omega
      · have apart := (List.pairwise_append.mp sound.spaced.apart).2.1
        rcases List.mem_cons.mp last with rfl | later
        · omega
        · have := (List.pairwise_cons.mp apart).1 d later
          omega
    have nonzero : tsn s.start > 0 := by
      generalize tsn s.start = start at nonzero
      bv_omega
    rw [List.length_cons, SctpSimpleGapList.updateLoop, represents.index,
      represents.start_ok found]
    simp only [ok_bind, if_pos nonzero]
    obtain ⟨below, above⟩ := near
    rw [tsn_pred (by omega), tsnBetween_tsn (by omega) (by omega) (by omega) (by omega)]
    simp only [le, decide_true, Bool.true_and, decide_eq_true_eq]
    by_cases inside : t < s.start
    · rw [if_pos (by omega)]
      obtain ⟨next, nextOk, nextRepresents⟩ := fillGap_ok represents sound starts le inside
      refine ⟨next, true, nextOk, nextRepresents, fun _ => ?_⟩
      have later : ¬ Holds (s :: rest) t := by
        rintro ⟨d, dMember, dStart, _⟩
        have apart := (List.pairwise_append.mp sound.spaced.apart).2.1
        rcases List.mem_cons.mp dMember with rfl | behind
        · omega
        · have := (List.pairwise_cons.mp apart).1 d behind
          omega
      simpa [outside] using later
    · rw [if_neg (by omega), represents.stop_ok found, ok_bind, tsn_succ,
        Nat.sub_add_cancel (by omega)]
      rw [List.append_cons] at represents sound passes ⊢
      by_cases covered : t < s.stop
      · have held : Holds (before ++ [s] ++ rest) t :=
          ⟨s, by simp, by omega, covered⟩
        have later : ∀ u ∈ rest, t < u.stop := by
          intro u uMember
          have apart := (List.pairwise_append.mp sound.spaced.apart).2.2 s (by simp) u uMember
          have := sound.spaced.positive u (List.mem_append_right _ uMember)
          omega
        have same : receive t cum (before ++ [s] ++ rest) = (cum, before ++ [s] ++ rest) := by
          rw [receive, if_neg (by omega), insert_of_holds sound.spaced held,
            List.take_of_length_le represents.fits]
        rw [updateLoop_covered represents sound ⟨below, above⟩ held later s.stop covered stops,
          same]
        exact ⟨list, false, rfl, represents, fun _ => ⟨nofun, fun outside => absurd held outside⟩⟩
      · have starts : GapStarts cum s.stop (before ++ [s]) := .inr ⟨before, s, rfl, rfl⟩
        obtain ⟨beyond, close, earlier⟩ := starts.below sound
        refine ih represents sound passes starts (by omega) beyond close earlier ?_
        rw [holds_append, holds_cons]
        rintro (first | here | none)
        · exact outside first
        · omega
        · exact holds_nil none

/-- A chunk beyond the cumulative TSN is received, unless a block that starts with the TSN 0 is
looked at. -/
theorem update_ok (represents : Represents list blocks) (sound : Sound cum blocks)
    (near : Near cum t) (beyond : cum < t) (passes : Passes t blocks) :
    ∃ next new, list.updateGapList (tsn t) (tsn cum) =
        .ok ⟨next, tsn (receive t cum blocks).1, new, true⟩ ∧
      Represents next (receive t cum blocks).2 ∧
      (blocks.length < MAX_GAP_COUNT → (new = true ↔ ¬ Holds blocks t)) := by
  rw [SctpSimpleGapList.updateGapList, tsnLe_tsn near.1 near.2, if_neg (by simp; omega), tsn_succ,
    represents.numGaps]
  exact updateLoop_ok (List.nil_append blocks ▸ represents) (List.nil_append blocks ▸ sound) near
    (List.nil_append blocks ▸ passes) (.inl ⟨rfl, rfl⟩) beyond

/-- A first block that starts with the TSN 0 is skipped, and the next chunk moves the cumulative TSN
by one. -/
theorem update_skips (represents : Represents list (s :: rest)) (sound : Sound cum (s :: rest))
    (zero : tsn s.start = 0) :
    ∃ new, list.updateGapList (tsn (cum + 1)) (tsn cum) =
      .ok ⟨list, tsn (cum + 1), new, true⟩ := by
  have beyond := sound.beyond s List.mem_cons_self
  have stops := sound.near s List.mem_cons_self
  obtain ⟨positive, later, _⟩ := spaced_cons.mp sound.spaced
  have count := represents.numGaps
  rw [SctpSimpleGapList.updateGapList, tsnLe_tsn (by omega) (by omega), if_neg (by simp), tsn_succ,
    count, List.length_cons, SctpSimpleGapList.updateLoop, count, List.length_cons, Nat.sub_self,
    represents.start_ok (i := 0) rfl]
  simp only [ok_bind, zero, gt_iff_lt, BitVec.lt_irrefl, if_false]
  cases rest with
  | nil =>
    simp only [List.length_nil, SctpSimpleGapList.updateLoop, SctpSimpleGapList.appendTsn, tsn_succ,
      if_true]
    exact ⟨true, rfl⟩
  | cons u rest =>
    -- the chunk is the first one of the gap before the second block
    have second := later u List.mem_cons_self
    have near := sound.near u (.tail _ List.mem_cons_self)
    have uPositive := sound.spaced.positive u (.tail _ List.mem_cons_self)
    have wrapped : s.start % 2 ^ 32 = 0 := by
      rw [← toNat_tsn, zero]
      rfl
    have nonzero : 0 < tsn u.start := by
      rw [BitVec.lt_def, toNat_tsn]
      change 0 < u.start % 2 ^ 32
      omega
    have size : (tsn (u.start - 1) - tsn (cum + 1) + 1).toNat = u.start - (cum + 1) := by
      have one : (1 : Tsn).toNat = 1 := rfl
      rw [BitVec.toNat_add, toNat_sub_tsn (by omega) (by omega), one]
      omega
    rw [List.length_cons, SctpSimpleGapList.updateLoop, count, List.length_cons, List.length_cons,
      show rest.length + 1 + 1 - (rest.length + 1) = 1 by omega, represents.start_ok (i := 1) rfl]
    simp only [ok_bind, gt_iff_lt, if_pos nonzero]
    rw [tsn_pred (by omega), tsnBetween_tsn (by omega) (by omega) (by omega) (by omega),
      if_pos (by simp; omega), SctpSimpleGapList.fillGap, size, if_pos (by omega),
      if_neg (by rw [tsn_inj (by omega) (by omega)]; omega), if_pos rfl, tsn_succ, if_pos rfl]
    exact ⟨true, rfl⟩

/-- The next chunk is received whatever the blocks start with, unless the chunk behind it has the
TSN 0. -/
theorem update_next (represents : Represents list blocks) (sound : Sound cum blocks)
    (nonzero : tsn (cum + 2) ≠ 0) :
    ∃ next new, list.updateGapList (tsn (cum + 1)) (tsn cum) =
        .ok ⟨next, tsn (receive (cum + 1) cum blocks).1, new, true⟩ ∧
      Represents next (receive (cum + 1) cum blocks).2 := by
  have near : Near cum (cum + 1) := ⟨by omega, by omega⟩
  by_cases passes : Passes (cum + 1) blocks
  · obtain ⟨next, new, updated, follows, _⟩ :=
      update_ok represents sound near (Nat.lt_succ_self cum) passes
    exact ⟨next, new, updated, follows⟩
  · cases blocks with
    | nil => exact absurd (show Passes (cum + 1) [] from nofun) passes
    | cons s rest =>
      -- only the first block can be in the way, because the chunk is before the end of it
      have zero : tsn s.start = 0 := by
        by_contra other
        obtain ⟨positive, later, _⟩ := spaced_cons.mp sound.spaced
        have beyond := sound.beyond s List.mem_cons_self
        refine passes fun u member starts => ⟨s, List.mem_cons_self, ?_, by omega⟩
        rcases List.mem_cons.mp member with rfl | behind
        · exact absurd starts other
        · have := later u behind
          omega
      have apart : s.start ≠ cum + 2 := fun same => nonzero (same ▸ zero)
      obtain ⟨new, updated⟩ := update_skips represents sound zero
      rw [receive, if_pos rfl, advance, if_neg apart]
      exact ⟨list, new, updated, represents⟩

/-- A chunk up to the cumulative TSN changes nothing. -/
theorem update_behind (list : SctpSimpleGapList) (near : Near cum t) (behind : t ≤ cum) :
    list.updateGapList (tsn t) (tsn cum) = .ok ⟨list, tsn cum, false, false⟩ := by
  rw [SctpSimpleGapList.updateGapList, tsnLe_tsn near.1 near.2, if_pos (by simpa using behind)]

/-! ### What is covered -/

/-- The chunk is up to the cumulative TSN, or in a block. -/
def Covers (cum : Nat) (blocks : List (Span Nat)) (n : Nat) : Prop := n ≤ cum ∨ Holds blocks n

theorem Sound.holds_beyond (sound : Sound cum blocks) {n : Nat} (held : Holds blocks n) :
    cum + 1 < n ∧ n < cum + 2 ^ 31 := by
  obtain ⟨s, member, started, stopped⟩ := held
  have := sound.beyond s member
  have := sound.near s member
  omega

theorem Sound.advance (sound : Sound cum blocks) :
    cum < (advance cum blocks).1 ∧ Sound (advance cum blocks).1 (advance cum blocks).2 ∧
      ∀ n, Covers (advance cum blocks).1 (advance cum blocks).2 n ↔
        n = cum + 1 ∨ Covers cum blocks n := by
  cases blocks with
  | nil =>
    refine ⟨Nat.lt_succ_self cum, ⟨spaced_nil, nofun, nofun⟩, fun n => ?_⟩
    simp only [Sctp.advance, Covers, holds_nil, or_false]
    omega
  | cons s rest =>
    obtain ⟨positive, first, later⟩ := spaced_cons.mp sound.spaced
    have beyond := sound.beyond s List.mem_cons_self
    have stops := sound.near s List.mem_cons_self
    rw [Sctp.advance]
    split
    next adjacent =>
      refine ⟨by simp only; omega, ⟨later, ?_, ?_⟩, ?_⟩
      · intro u member
        have := first u member
        simp only
        omega
      · intro u member
        have := sound.near u (.tail _ member)
        simp only
        omega
      · intro n
        simp only [Covers, holds_cons, ← or_assoc]
        apply or_congr_left
        omega
    next apart =>
      refine ⟨Nat.lt_succ_self cum, ⟨sound.spaced, ?_, ?_⟩, ?_⟩
      · intro u member
        rcases List.mem_cons.mp member with rfl | behind
        · simp only
          omega
        · have := first u behind
          simp only
          omega
      · intro u member
        have := sound.near u member
        simp only
        omega
      · intro n
        simp only [Covers]
        rw [← or_assoc]
        apply or_congr_left
        omega

/-- Blocks with the same chunks, or with fewer or more that are in reach, are sound. -/
theorem Sound.of_holds (spaced : Spaced blocks)
    (inside : ∀ n, Holds blocks n → cum + 1 < n ∧ n < cum + 2 ^ 31) : Sound cum blocks := by
  refine ⟨spaced, fun s member => ?_, fun s member => ?_⟩
  · have positive := spaced.positive s member
    exact (inside s.start ⟨s, member, Nat.le_refl _, positive⟩).1
  · have positive := spaced.positive s member
    have last : s.start ≤ s.stop - 1 ∧ s.stop - 1 < s.stop := by omega
    have := (inside (s.stop - 1) ⟨s, member, last⟩).2
    omega

theorem holds_take {count n : Nat} (held : Holds (blocks.take count) n) : Holds blocks n := by
  obtain ⟨s, member, inside⟩ := held
  exact ⟨s, List.mem_of_mem_take member, inside⟩

theorem Sound.take (sound : Sound cum blocks) (count : Nat) : Sound cum (blocks.take count) :=
  ⟨spaced_take sound.spaced count, fun s member => sound.beyond s (List.mem_of_mem_take member),
    fun s member => sound.near s (List.mem_of_mem_take member)⟩

/-- Only what was received is covered in addition, and all of it if the list is not full. -/
theorem Sound.receive (sound : Sound cum blocks) (near : Near cum t) (beyond : cum < t) :
    cum ≤ (receive t cum blocks).1 ∧ Sound (receive t cum blocks).1 (receive t cum blocks).2 ∧
      (∀ n, Covers (receive t cum blocks).1 (receive t cum blocks).2 n →
        n = t ∨ Covers cum blocks n) ∧
      (blocks.length < MAX_GAP_COUNT → ∀ n,
        n = t ∨ Covers cum blocks n →
          Covers (receive t cum blocks).1 (receive t cum blocks).2 n) := by
  rw [Sctp.receive]
  split
  next next =>
    obtain ⟨more, sound, covers⟩ := sound.advance
    subst next
    exact ⟨Nat.le_of_lt more, sound, fun n => (covers n).mp, fun _ n => (covers n).mpr⟩
  next other =>
    have inside (n : Nat) (held : Holds (SpanList.insert t blocks) n) :
        cum + 1 < n ∧ n < cum + 2 ^ 31 := by
      rcases (holds_insert sound.spaced).mp held with rfl | held
      · exact ⟨by omega, near.1⟩
      · exact sound.holds_beyond held
    refine ⟨Nat.le_refl cum, ?_, ?_, ?_⟩
    · exact .of_holds (spaced_take (spaced_insert sound.spaced) _)
        fun n held => inside n (holds_take held)
    · rintro n (behind | held)
      · exact .inr (.inl behind)
      · rcases (holds_insert sound.spaced).mp (holds_take held) with same | held
        · exact .inl same
        · exact .inr (.inr held)
    · intro room n covered
      have fits : (SpanList.insert t blocks).length ≤ blocks.length + 1 := length_insert_le
      simp only [Covers]
      rw [List.take_of_length_le (by omega), holds_insert sound.spaced]
      rcases covered with same | behind | held
      · exact .inr (.inl same)
      · exact .inl behind
      · exact .inr (.inr held)

theorem Sound.dropBelow (sound : Sound cum blocks) {c : Nat} (le : cum ≤ c)
    (gap : ¬ Holds blocks (c + 1)) :
    Sound c (dropBelow (c + 1) blocks) ∧
      ∀ n, Covers c (SpanList.dropBelow (c + 1) blocks) n ↔ n ≤ c ∨ Covers cum blocks n := by
  have whole : ∀ s ∈ blocks, s.start < c + 1 → s.stop ≤ c + 1 := by
    intro s member starts
    by_contra stops
    exact gap ⟨s, member, by omega, by omega⟩
  have held (n : Nat) : Holds (SpanList.dropBelow (c + 1) blocks) n ↔ c + 1 ≤ n ∧ Holds blocks n :=
    holds_dropBelow sound.spaced whole
  refine ⟨.of_holds (spaced_dropBelow sound.spaced) fun n inside => ?_, fun n => ?_⟩
  · obtain ⟨low, inside⟩ := (held n).mp inside
    have := (sound.holds_beyond inside).2
    have : n ≠ c + 1 := by
      rintro rfl
      exact gap inside
    omega
  · rw [Covers, Covers, held]
    constructor
    · rintro (low | ⟨_, inside⟩)
      · exact .inl low
      · exact .inr (.inr inside)
    · rintro (low | low | inside)
      · exact .inl low
      · exact .inl (by omega)
      · by_cases low : n ≤ c
        · exact .inl low
        · exact .inr ⟨by omega, inside⟩

theorem Sound.erase (sound : Sound cum blocks) :
    Sound cum (erase t blocks) ∧
      ∀ n, Covers cum (SpanList.erase t blocks) n ↔ Covers cum blocks n ∧ (n = t → t ≤ cum) := by
  refine ⟨.of_holds (spaced_erase sound.spaced) fun n inside => ?_, fun n => ?_⟩
  · exact sound.holds_beyond ((holds_erase sound.spaced).mp inside).2
  · rw [Covers, Covers, holds_erase sound.spaced]
    constructor
    · rintro (low | ⟨other, inside⟩)
      · exact ⟨.inl low, fun same => same ▸ low⟩
      · exact ⟨.inr inside, fun same => absurd same other⟩
    · rintro ⟨low | inside, behind⟩
      · exact .inl low
      · by_cases same : n = t
        · exact .inl (same ▸ behind same)
        · exact .inr ⟨same, inside⟩

/-! ### Checks -/

theorem inBlocks_ok (represents : Represents list (before ++ rest))
    (sound : Sound cum (before ++ rest)) (near : InReach cum t) :
    list.inBlocks (tsn t) rest.length before.length = .ok (decide (Holds rest t)) := by
  induction rest generalizing before with
  | nil => simp [SctpSimpleGapList.inBlocks]
  | cons s rest ih =>
    have found : (before ++ s :: rest)[before.length]? = some s := by simp
    have between := between_block sound near (show s ∈ before ++ s :: rest by simp)
    rw [List.length_cons, SctpSimpleGapList.inBlocks, represents.start_ok found, ok_bind,
      represents.stop_ok found, ok_bind]
    by_cases inside : s.start ≤ t ∧ t < s.stop
    · rw [if_pos (between.mpr inside)]
      simp [inside]
      rfl
    · rw [List.append_cons] at represents sound
      have later := ih represents sound
      rw [List.length_append, List.length_singleton] at later
      rw [if_neg fun held => inside (between.mp held), later]
      simp [inside]

/-- The code finds exactly the chunks of the blocks. -/
theorem tsnInGapList_ok (represents : Represents list blocks) (sound : Sound cum blocks)
    (near : InReach cum t) : list.tsnInGapList (tsn t) = .ok (decide (Holds blocks t)) := by
  rw [SctpSimpleGapList.tsnInGapList, represents.numGaps]
  exact inBlocks_ok (List.nil_append blocks ▸ represents) (List.nil_append blocks ▸ sound) near

/-- A TSN between those of two chunks is that of a chunk between them. -/
theorem between_tsn {a b : Nat} {t : Tsn} (le : a ≤ b) (near : b < a + 2 ^ 31)
    (between : tsnBetween (tsn a) t (tsn b) = true) : ∃ n, tsn n = t ∧ a ≤ n ∧ n ≤ b := by
  have inside : (t - tsn a).toNat ≤ b - a := by
    rw [tsnBetween, tsnGe, tsnGe, tsnGt, tsnGt] at between
    simp only [Bool.and_eq_true, Bool.or_eq_true, decide_eq_true_eq, beq_iff_eq, BitVec.lt_def,
      BitVec.toNat_sub, ← BitVec.toNat_inj, toNat_tsn] at between
    rw [BitVec.toNat_sub, toNat_tsn]
    have := t.isLt
    omega
  refine ⟨a + (t - tsn a).toNat, ?_, by omega, by omega⟩
  rw [← BitVec.toNat_inj, toNat_tsn, BitVec.toNat_sub, toNat_tsn]
  have := t.isLt
  omega

/-- What is found in a list is the TSN of a chunk in it. -/
theorem found_holds {t : Tsn} (represents : Represents list blocks) (sound : Sound cum blocks)
    (found : list.tsnInGapList t = .ok true) : ∃ n, tsn n = t ∧ Holds blocks n := by
  have search (rest before : List (Span Nat)) (split : blocks = before ++ rest)
      (found : list.inBlocks t rest.length before.length = .ok true) :
      ∃ n, tsn n = t ∧ Holds blocks n := by
    induction rest generalizing before with
    | nil => cases found
    | cons s rest ih =>
      have member : s ∈ blocks := by simp [split]
      have here : blocks[before.length]? = some s := by simp [split]
      have positive := sound.spaced.positive s member
      have beyond := sound.beyond s member
      have stops := sound.near s member
      rw [List.length_cons, SctpSimpleGapList.inBlocks, represents.start_ok here, ok_bind,
        represents.stop_ok here, ok_bind] at found
      split at found
      next between =>
        obtain ⟨n, same, from_, upTo⟩ := between_tsn (by omega) (by omega) between
        exact ⟨n, same, s, member, from_, by omega⟩
      next =>
        refine ih (before ++ [s]) (by simp [split]) ?_
        rwa [List.length_append, List.length_singleton]
  rw [SctpSimpleGapList.tsnInGapList, represents.numGaps] at found
  exact search blocks [] rfl found

theorem found_iff {t : Tsn} (represents : Represents list blocks) (sound : Sound cum blocks) :
    list.tsnInGapList t = .ok true ↔ ∃ n, tsn n = t ∧ Holds blocks n := by
  refine ⟨found_holds represents sound, ?_⟩
  rintro ⟨n, rfl, held⟩
  have beyond := sound.holds_beyond held
  rw [tsnInGapList_ok represents sound ⟨by omega, by omega⟩]
  simp [held]

theorem check_ok (represents : Represents list blocks) (sound : Sound cum blocks) :
    list.check (tsn cum) = .ok () := by
  refine forM_returns fun i member => ?_
  rw [List.mem_range, represents.numGaps] at member
  have found : blocks[i]? = some blocks[i] := List.getElem?_eq_getElem member
  have here : blocks[i] ∈ blocks := List.getElem_mem member
  have positive := sound.spaced.positive _ here
  have beyond := sound.beyond _ here
  have stops := sound.near _ here
  have ordered : tsnLe (tsn blocks[i].start) (tsn (blocks[i].stop - 1)) = true := by
    rw [tsnLe_tsn (by omega) (by omega)]
    simp only [decide_eq_true_eq]
    omega
  rw [SctpSimpleGapList.checkBlock, represents.start_ok found, ok_bind]
  split
  · rw [tsn_succ, tsnGt_tsn (by omega) (by omega)]
    simp only [beyond, decide_true, SctpSimpleGapList.assert, if_true, ok_bind,
      represents.stop_ok found, ordered]
  next later =>
    have inside : i - 1 < blocks.length := by omega
    have before : blocks[i - 1]? = some blocks[i - 1] := List.getElem?_eq_getElem inside
    have apart : blocks[i - 1].stop < blocks[i].start :=
      List.pairwise_iff_getElem.mp sound.spaced.apart (i - 1) i inside member (by omega)
    have previousPositive := sound.spaced.positive _ (List.getElem_mem inside)
    have previousBeyond := sound.beyond _ (List.getElem_mem inside)
    rw [represents.stop_ok before, ok_bind, tsn_succ, tsnGt_tsn (by omega) (by omega)]
    simp only [show blocks[i - 1].stop - 1 + 1 < blocks[i].start by omega, decide_true,
      SctpSimpleGapList.assert, if_true, ok_bind, represents.stop_ok found, ordered]

end Inet.Sctp
