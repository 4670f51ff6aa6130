import Inet.Packet.RegionTagMoves

/-!
# Region tags of edited chunks

What `moveTags` makes of the tags at each position, and what inserting into and removing from
the middle of a chunk need of the tags for them to follow their data.
-/
namespace Inet.Packet

open Lib

variable {T Tag : Type} [TagBase T Tag]
variable (sorting : TagSort Tag) (tags : RegionTags Tag) (offset length distance p : Nat)
  {kept : RegionTag Tag → Bool}

namespace RegionTags

/-! ### What is left and what is taken -/

/-- Whether a move to lower offsets takes the tag with it that a region gives a position. -/
def isTaken (offset length distance p : Nat) (r : RegionTag Tag) : Bool :=
  p < offset + length &&
    ((p < offset + distance && offset ≤ r.offset) || offset + distance + offset ≤ p)

/-- The tags a move to lower offsets leaves at a position. -/
def leftAt (tags : RegionTags Tag) (offset length distance p : Nat) : Multiset Tag :=
  if offset + distance ≤ p ∧ p < offset + distance + offset then 0
  else tagsAt (tags.filter fun r => !isTaken offset length distance p r) p

/-- The tags a move to lower offsets takes from a position. -/
def takenAt (tags : RegionTags Tag) (offset length distance p : Nat) : Multiset Tag :=
  if offset + distance ≤ p ∧ p < offset + distance + offset then 0
  else tagsAt (tags.filter (isTaken offset length distance p)) p

theorem isTaken_iff (r : RegionTag Tag) :
    isTaken offset length distance p r = true ↔
      p < offset + length ∧
        (p < offset + distance ∧ offset ≤ r.offset ∨ offset + distance + offset ≤ p) := by
  simp [isTaken]

theorem tagsAt_filter_congr {tags : RegionTags Tag} {p : Nat}
    {kept' : RegionTag Tag → Bool} (same : ∀ r ∈ tags, p ∈ r.span → kept r = kept' r) :
    tagsAt (tags.filter kept) p = tagsAt (tags.filter kept') p := by
  rw [tagsAt_filter, tagsAt_filter]
  congr 1
  refine List.map_congr_left fun r member => ?_
  by_cases inside : p ∈ r.span
  · rw [same r member inside]
  · simp [RegionTag.tagsAt, inside]

theorem tagsAt_filter_all {tags : RegionTags Tag} {p : Nat}
    (all : ∀ r ∈ tags, p ∈ r.span → kept r = true) : tagsAt (tags.filter kept) p = tagsAt tags p := by
  rw [tagsAt_filter_congr all, List.filter_true]

theorem tagsAt_filter_none {tags : RegionTags Tag} {p : Nat}
    (none_ : ∀ r ∈ tags, p ∈ r.span → kept r = false) : tagsAt (tags.filter kept) p = 0 := by
  rw [tagsAt_filter_congr none_, List.filter_false]
  rfl

variable [LawfulTagBase T Tag]

/-! ### Moves, position by position -/

omit [LawfulTagBase T Tag] in
theorem splitTagsWhere_zero (f : Tag → Bool) (tags : RegionTags Tag) :
    splitTagsWhere sorting f 0 tags = tags := by
  have nothing : tags.filter (straddlesWhere f 0) = [] := by
    refine List.filter_eq_nil_iff.mpr fun r _ => ?_
    rw [straddlesWhere_iff]
    omega
  unfold splitTagsWhere
  rw [nothing]
  rfl

theorem tagsAt_clearTags :
    tagsAt (clearTags sorting tags offset length) p =
      if offset ≤ p ∧ p < offset + length then 0 else tagsAt tags p := by
  have cut := tagsAt_cutTags sorting tags 0 offset length p (fun _ => true) (fun _ => true)
    (fun _ _ _ _ _ _ => rfl)
  rwa [splitTagsWhere_zero, List.filter_true, List.filter_true] at cut

/-- A move to higher offsets. -/
theorem moveTagsOfRange_raised {shift : Nat} (positive : 0 < shift) :
    ∃ result, moveTagsOfRange sorting tags offset length shift = .ok result ∧ ∀ p,
      tagsAt result p =
        (if offset ≤ p ∧ p < offset + length + (offset + length + shift) then 0
          else tagsAt tags p) +
        if offset + shift ≤ p ∧ p < offset + length + shift then
          (tagsAt tags (p - shift)).map (rebase shift)
        else 0 := by
  unfold moveTagsOfRange
  simp only
  rw [if_pos (by omega), mapM_move _ _ _ _ (by omega)]
  refine ⟨_, rfl, fun p => ?_⟩
  rw [tagsAt_map_move _ _ _ _ (by omega)]
  have range_eq : (offset + length + (shift : Int)).toNat = offset + length + shift := by omega
  have moves {r piece : RegionTag Tag} {q : Nat} (positive : 0 < r.length)
      (made : piece ∈ cutRegion offset (offset + length)
        (offset + length + (offset + length + shift)) r) (inside : q ∈ piece.span) :
      liesIn offset length piece = decide (offset ≤ q ∧ q < offset + length) := by
    rw [Bool.eq_iff_iff, decide_eq_true_eq]
    exact liesIn_raised positive made inside
  have taken (q : Nat) : tagsAt ((clearTags sorting (splitTagsWhere sorting (fun _ => true) offset
      tags) (offset + length) (offset + length + shift)).filter (liesIn offset length)) q =
        if offset ≤ q ∧ q < offset + length then tagsAt tags q else 0 := by
    rw [tagsAt_cutTags sorting tags offset (offset + length) (offset + length + shift) q
      (liesIn offset length) (fun _ => decide (offset ≤ q ∧ q < offset + length))]
    · by_cases inside : offset ≤ q ∧ q < offset + length
      · rw [if_neg (by omega), if_pos inside, tagsAt_filter_all (by simp [inside])]
      · rw [tagsAt_filter_none (by simp [inside]), if_neg inside, ite_self]
    · intro r member positive piece made inside
      exact moves positive made inside
  have left : tagsAt ((clearTags sorting (splitTagsWhere sorting (fun _ => true) offset
      tags) (offset + length) (offset + length + shift)).filter fun r => !liesIn offset length r) p =
        if offset ≤ p ∧ p < offset + length + (offset + length + shift) then 0
        else tagsAt tags p := by
    rw [tagsAt_cutTags sorting tags offset (offset + length) (offset + length + shift) p _
      (fun _ => !decide (offset ≤ p ∧ p < offset + length))]
    · by_cases inside : offset ≤ p ∧ p < offset + length
      · rw [tagsAt_filter_none (by simp [inside]), ite_self, if_pos (by omega)]
      · rw [tagsAt_filter_all (by simp [inside])]
        by_cases cleared : offset + length ≤ p ∧ p < offset + length + (offset + length + shift)
        · rw [if_pos cleared, if_pos (by omega)]
        · rw [if_neg cleared, if_neg (by omega)]
    · intro r member positive piece made inside
      rw [moves positive made inside]
  rw [range_eq, left]
  congr 1
  by_cases reached : shift ≤ p
  · rw [if_pos (by omega), show ((p : Int) - shift).toNat = p - shift by omega, taken]
    by_cases inside : offset ≤ p - shift ∧ p - shift < offset + length
    · rw [if_pos inside, if_pos (by omega)]
    · rw [if_neg inside, if_neg (by omega), Multiset.map_zero]
  · rw [if_neg (by omega), if_neg (by omega)]

/-- A move to lower offsets, or by nothing. -/
theorem moveTagsOfRange_lowered (room : distance ≤ offset) :
    ∃ result, moveTagsOfRange sorting tags offset length (-(distance : Int)) = .ok result ∧ ∀ p,
      tagsAt result p = leftAt tags offset length distance p +
        (takenAt tags offset length distance (p + distance)).map (rebase (-(distance : Int))) := by
  unfold moveTagsOfRange
  simp only
  rw [if_neg (by omega), mapM_move _ _ _ _ (by omega)]
  refine ⟨_, rfl, fun p => ?_⟩
  rw [tagsAt_map_move _ _ _ _ (by omega), if_pos (by omega),
    show ((offset : Int) - -(distance : Int)).toNat = offset + distance by omega,
    show ((p : Int) - -(distance : Int)).toNat = p + distance by omega]
  unfold leftAt takenAt
  have moves {r piece : RegionTag Tag} {q : Nat} (positive : 0 < r.length)
      (made : piece ∈ cutRegion (offset + length) (offset + distance)
        (offset + distance + offset) r) (inside : q ∈ piece.span) :
      liesIn offset length piece = isTaken offset length distance q r := by
    rw [Bool.eq_iff_iff, isTaken_iff]
    exact liesIn_lowered positive made inside
  rw [tagsAt_cutTags sorting tags (offset + length) (offset + distance) offset p _
      (fun r => !isTaken offset length distance p r)
      (fun r _ positive piece made inside => by rw [moves positive made inside]),
    tagsAt_cutTags sorting tags (offset + length) (offset + distance) offset (p + distance) _
      (isTaken offset length distance (p + distance))
      (fun r _ positive piece made inside => moves positive made inside)]

omit [LawfulTagBase T Tag] in
/-- The tag that copying from the beginning of a source gives a position. -/
theorem tagsAt_copyRegion (r : RegionTag Tag) :
    tagsAt ((mapRegion 0 (0 + length) r).map (copyRegion 0 offset length)) p =
      if offset ≤ p ∧ p < offset + length then r.tagsAt (p - offset) else 0 := by
  have copied (start stop : Nat) (starts : start = r.offset) :
      (RegionTag.tagsAt ⟨start + offset - 0, stop - start, r.tag⟩ p : Multiset Tag) =
        if offset + start ≤ p ∧ p < offset + max start stop then {r.tagAt (p - offset)} else 0 := by
    subst starts
    unfold RegionTag.tagsAt
    have same : p ∈ (⟨r.offset + offset - 0, stop - r.offset, r.tag⟩ : RegionTag Tag).span ↔
        offset + r.offset ≤ p ∧ p < offset + max r.offset stop := by
      rw [Span.mem_iff, RegionTag.span_start, RegionTag.span_stop]
      dsimp only
      omega
    rw [if_congr same rfl rfl]
    split
    next inside =>
      show ({rebase ((p : Int) - ((r.offset + offset - 0 : Nat) : Int)) r.tag} : Multiset Tag) =
        {rebase (((p - offset : Nat) : Int) - r.offset) r.tag}
      rw [show (p : Int) - ((r.offset + offset - 0 : Nat) : Int) =
        ((p - offset : Nat) : Int) - r.offset by omega]
    next => rfl
  have seen : r.tagsAt (p - offset) =
      if r.offset ≤ p - offset ∧ p - offset < r.offset + r.length then {r.tagAt (p - offset)}
      else 0 := if_congr Span.mem_iff rfl rfl
  rw [seen]
  unfold mapRegion
  by_cases missed : r.misses 0 (0 + length) = true
  · have apart := (r.misses_iff 0 (0 + length)).mp missed
    simp only [Span.Apart, RegionTag.span_start, RegionTag.span_stop] at apart
    rw [if_pos missed]
    split
    next => rw [if_neg (by omega)]; rfl
    next => rfl
  · have meets := mt (r.misses_iff 0 (0 + length)).mpr missed
    simp only [Span.Apart, RegionTag.span_start, RegionTag.span_stop] at meets
    rw [if_neg missed]
    by_cases covered : r.getEndOffset ≤ length
    · rw [if_pos (by omega), List.map_singleton]
      show (copyRegion 0 offset length r).tagsAt p + 0 = _
      have not_behind : ¬r.getEndOffset > 0 + length := by omega
      simp only [copyRegion, Nat.not_lt_zero, if_false, if_neg not_behind]
      rw [add_zero, copied r.offset r.getEndOffset rfl]
      rw [RegionTag.getEndOffset] at covered ⊢
      split_ifs <;> first | rfl | omega
    · rw [if_neg (by omega), if_neg (by omega), if_neg (by omega), List.map_singleton]
      rw [RegionTag.getEndOffset] at covered
      have end_eq : r.offset + (length - r.offset) = length := by omega
      have copy_eq : copyRegion 0 offset length ⟨r.offset, 0 + length - r.offset, r.tag⟩ =
          ⟨r.offset + offset - 0, length - r.offset, r.tag⟩ := by
        simp only [copyRegion, Nat.not_lt_zero, if_false, RegionTag.getEndOffset, Nat.zero_add,
          end_eq, gt_iff_lt, Nat.lt_irrefl]
      rw [copy_eq]
      show RegionTag.tagsAt _ p + 0 = _
      rw [add_zero, copied r.offset length rfl]
      split_ifs <;> first | rfl | omega

/-- Copying from the beginning of a source replaces the tags of a range. -/
theorem tagsAt_copyTags (source : RegionTags Tag) (offset length p : Nat) :
    tagsAt (copyTags sorting tags source 0 offset length) p =
      if offset ≤ p ∧ p < offset + length then tagsAt source (p - offset) else tagsAt tags p := by
  unfold copyTags mapAllTags
  rw [tagsAt_append, tagsAt_clearTags, List.map_flatMap, tagsAt_flatMap]
  simp only [tagsAt_copyRegion]
  split
  next => rw [zero_add]; rfl
  next => rw [List.sum_eq_zero (by simp), add_zero]

/-! ### Tags that follow their data -/

/-- The tags of a range are moved, nothing else is changed outside of what they move to. -/
def MovesTags (sorting : TagSort Tag) (tags : RegionTags Tag) (offset length : Nat)
    (shift : Int) : Prop :=
  ∃ result, moveTagsOfRange sorting tags offset length shift = .ok result ∧ ∀ p : Nat,
    tagsAt result p =
      if offset + shift ≤ p ∧ p < offset + length + shift then tagsAt tags (p - shift).toNat
      else if offset ≤ p ∧ p < offset + length then 0
      else tagsAt tags p

/-- The tags of a chunk follow their data when another chunk is inserted, which keeps its own. -/
def InsertsTags (sorting : TagSort Tag) (tags : RegionTags Tag) (chunkLength : Nat)
    (inserted : RegionTags Tag) (insertedLength offset : Nat) : Prop :=
  ∃ result, insertAt sorting tags chunkLength inserted insertedLength offset = .ok result ∧
    (∀ p < offset, tagsAt result p = tagsAt tags p) ∧
    (∀ p, offset ≤ p → p < chunkLength → tagsAt result (p + insertedLength) = tagsAt tags p) ∧
    ∀ p < insertedLength, tagsAt result (offset + p) = tagsAt inserted p

/-- The tags of a removed part are dropped, those behind it follow their data. -/
def RemovesTags (sorting : TagSort Tag) (tags : RegionTags Tag)
    (chunkLength offset length : Nat) : Prop :=
  ∃ result, removeAt sorting tags chunkLength offset length = .ok result ∧
    (∀ p < offset, tagsAt result p = tagsAt tags p) ∧
    (∀ p, offset + length ≤ p → p < chunkLength → tagsAt result (p - length) = tagsAt tags p) ∧
    ∀ p, chunkLength ≤ p + length → p < chunkLength → tagsAt result p = 0

/-- A move to higher offsets clears no tags but those of the range it moves to, and changes
none that it moves. -/
structure Raises (tags : RegionTags Tag) (offset length shift : Nat) : Prop where
  unchanged : ∀ p, offset ≤ p → p < offset + length →
    (tagsAt tags p).map (rebase (shift : Int)) = tagsAt tags p
  free : ∀ p, offset + length ≤ p → p < offset + length + (offset + length + shift) →
    ¬(offset + shift ≤ p ∧ p < offset + length + shift) → tagsAt tags p = 0

/-- In a move to lower offsets the tags that come to a position, with those that are left
there, are the ones to be moved there. -/
def Lowers (tags : RegionTags Tag) (offset length distance : Nat) : Prop :=
  ∀ p, offset ≤ p + distance → p + distance < offset + length →
    leftAt tags offset length distance p +
        (takenAt tags offset length distance (p + distance)).map (rebase (-(distance : Int))) =
      tagsAt tags (p + distance)

/-- A move to lower offsets leaves no tags behind what it moves to. -/
def Vacates (tags : RegionTags Tag) (first offset length distance : Nat) : Prop :=
  ∀ p, first ≤ p → p < offset + length → offset + length ≤ p + distance →
    leftAt tags offset length distance p = 0

omit [LawfulTagBase T Tag] in
/-- Before a range nothing is taken and all is left. -/
theorem leftAt_before
    (before : p < offset) : leftAt tags offset length distance p = tagsAt tags p := by
  unfold leftAt
  rw [if_neg (by omega), tagsAt_filter_all]
  intro r _ inside
  rw [Bool.not_eq_true', Bool.eq_false_iff, ne_eq, isTaken_iff]
  rw [Span.mem_iff, RegionTag.span_start] at inside
  omega

omit [LawfulTagBase T Tag] in
theorem takenAt_before (before : p < offset) : takenAt tags offset length distance p = 0 := by
  unfold takenAt
  rw [if_neg (by omega), tagsAt_filter_none]
  intro r _ inside
  rw [Bool.eq_false_iff, ne_eq, isTaken_iff]
  rw [Span.mem_iff, RegionTag.span_start] at inside
  omega

omit [LawfulTagBase T Tag] in
/-- Behind a range nothing is taken and what is not cleared is left. -/
theorem leftAt_behind (behind : offset + length ≤ p) :
    leftAt tags offset length distance p =
      if offset + distance ≤ p ∧ p < offset + distance + offset then 0 else tagsAt tags p := by
  unfold leftAt
  rw [tagsAt_filter_all]
  intro r _ _
  rw [Bool.not_eq_true', Bool.eq_false_iff, ne_eq, isTaken_iff]
  omega

omit [LawfulTagBase T Tag] in
theorem takenAt_behind
    (behind : offset + length ≤ p) : takenAt tags offset length distance p = 0 := by
  unfold takenAt
  rw [tagsAt_filter_none, ite_self]
  intro r _ _
  rw [Bool.eq_false_iff, ne_eq, isTaken_iff]
  omega

omit [LawfulTagBase T Tag] in
/-- What is not cleared is left or taken. -/
theorem leftAt_add_takenAt :
    leftAt tags offset length distance p + takenAt tags offset length distance p =
      if offset + distance ≤ p ∧ p < offset + distance + offset then 0 else tagsAt tags p := by
  unfold leftAt takenAt
  split
  next => rfl
  next =>
    rw [tagsAt_filter, tagsAt_filter, ← List.sum_map_add]
    unfold tagsAt
    congr 1
    refine List.map_congr_left fun r _ => ?_
    cases isTaken offset length distance p r <;> simp

theorem movesTags_raised_iff (shift : Nat) (positive : 0 < shift) :
    MovesTags sorting tags offset length shift ↔ Raises tags offset length shift := by
  obtain ⟨result, returned, at_⟩ := moveTagsOfRange_raised sorting tags offset length positive
  constructor
  · rintro ⟨result', returned', moved⟩
    rw [returned] at returned'
    cases returned'
    constructor
    · intro p starts stops
      have here := moved (p + shift)
      rw [at_, if_pos (by omega), if_pos (by omega), if_pos (by omega), zero_add,
        Nat.add_sub_cancel] at here
      rw [here]
      congr 1
      omega
    · intro p behind before outside
      have here := moved p
      rw [at_, if_pos (by omega), if_neg (by omega), if_neg (by omega), if_neg (by omega)] at here
      exact here.symm
  · rintro ⟨unchanged, free⟩
    refine ⟨result, returned, fun p => ?_⟩
    rw [at_]
    by_cases reached : offset + shift ≤ p ∧ p < offset + length + shift
    · rw [if_pos (by omega), if_pos reached, if_pos (by omega), zero_add,
        unchanged (p - shift) (by omega) (by omega)]
      congr 1
      omega
    · have unreached : ¬((offset : Int) + shift ≤ p ∧ (p : Int) < offset + length + shift) := by
        omega
      rw [if_neg reached, add_zero, if_neg unreached]
      by_cases left : offset ≤ p ∧ p < offset + length
      · rw [if_pos left, if_pos (by omega)]
      · rw [if_neg left]
        split
        next => exact (free p (by omega) (by omega) reached).symm
        next => rfl

theorem movesTags_lowered_iff (room : distance ≤ offset) :
    MovesTags sorting tags offset length (-(distance : Int)) ↔
      Lowers tags offset length distance ∧ Vacates tags offset offset length distance ∧
        ∀ p, offset + length ≤ p → offset + distance ≤ p → p < offset + distance + offset →
          tagsAt tags p = 0 := by
  obtain ⟨result, returned, at_⟩ := moveTagsOfRange_lowered sorting tags offset length distance room
  have source (p : Nat) : ((p : Int) - -(distance : Int)).toNat = p + distance := by omega
  constructor
  · rintro ⟨result', returned', moved⟩
    rw [returned] at returned'
    cases returned'
    refine ⟨?_, ?_, ?_⟩
    · intro p starts stops
      have here := moved p
      rwa [at_, if_pos (by omega), source] at here
    · intro p starts stops behind
      have here := moved p
      rw [at_, takenAt_behind _ _ _ _ _ behind, Multiset.map_zero, add_zero, if_neg (by omega),
        if_pos ⟨starts, stops⟩] at here
      exact here
    · intro p behind starts stops
      have here := moved p
      rw [at_, takenAt_behind _ _ _ _ _ (by omega), Multiset.map_zero, add_zero,
        leftAt_behind _ _ _ _ _ behind, if_pos ⟨starts, stops⟩, if_neg (by omega),
        if_neg (by omega)] at here
      exact here.symm
  · rintro ⟨lowers, vacates, free⟩
    refine ⟨result, returned, fun p => ?_⟩
    rw [at_]
    by_cases reached : offset ≤ p + distance ∧ p + distance < offset + length
    · rw [if_pos (by omega), source]
      exact lowers p reached.1 reached.2
    · have nothing : takenAt tags offset length distance (p + distance) = 0 := by
        rcases Nat.lt_or_ge (p + distance) offset with before | behind
        · exact takenAt_before _ _ _ _ _ before
        · exact takenAt_behind _ _ _ _ _ (by omega)
      rw [nothing, Multiset.map_zero, add_zero, if_neg (by omega)]
      by_cases left : offset ≤ p ∧ p < offset + length
      · rw [if_pos left]
        exact vacates p left.1 left.2 (by omega)
      · rw [if_neg left]
        rcases Nat.lt_or_ge p offset with before | behind
        · exact leftAt_before _ _ _ _ _ before
        · rw [leftAt_behind _ _ _ _ _ (by omega)]
          split
          next cleared => exact (free p (by omega) cleared.1 cleared.2).symm
          next => rfl

/-! ### Inserting and removing -/

theorem insertsTags_iff {chunkLength : Nat}
    (inserted : RegionTags Tag) {insertedLength offset : Nat} (inside : offset ≤ chunkLength)
    (positive : 0 < insertedLength) :
    InsertsTags sorting tags chunkLength inserted insertedLength offset ↔
      ∀ p, offset ≤ p → p < chunkLength →
        (tagsAt tags p).map (rebase (insertedLength : Int)) = tagsAt tags p := by
  obtain ⟨moved, returned, at_⟩ := moveTagsOfRange_raised sorting tags offset
    (chunkLength - offset) positive
  have insert_eq : insertAt sorting tags chunkLength inserted insertedLength offset =
      .ok (copyTags sorting moved inserted 0 offset insertedLength) := by
    unfold insertAt
    rw [if_neg (by omega), returned]
    rfl
  have behind (p : Nat) (starts : offset ≤ p) (stops : p < chunkLength) :
      tagsAt (copyTags sorting moved inserted 0 offset insertedLength) (p + insertedLength) =
        (tagsAt tags p).map (rebase (insertedLength : Int)) := by
    rw [tagsAt_copyTags, if_neg (by omega), at_, if_pos (by omega), if_pos (by omega), zero_add,
      Nat.add_sub_cancel]
  constructor
  · rintro ⟨result, returned', _, follows, _⟩ p starts stops
    rw [insert_eq] at returned'
    cases returned'
    rw [← behind p starts stops, follows p starts stops]
  · intro unchanged
    refine ⟨_, insert_eq, ?_, ?_, ?_⟩
    · intro p before
      rw [tagsAt_copyTags, if_neg (by omega), at_, if_neg (by omega), if_neg (by omega), add_zero]
    · intro p starts stops
      rw [behind p starts stops, unchanged p starts stops]
    · intro p within
      rw [tagsAt_copyTags, if_pos (by omega), Nat.add_sub_cancel_left]

/-- An empty chunk that is inserted clears the tags of a range. -/
theorem insertsTags_empty_iff {chunkLength : Nat}
    (inserted : RegionTags Tag) {offset : Nat} (inside : offset ≤ chunkLength) :
    InsertsTags sorting tags chunkLength inserted 0 offset ↔
      ∀ p, offset ≤ p → p < chunkLength → p < offset + offset → tagsAt tags p = 0 := by
  obtain ⟨moved, returned, at_⟩ := moveTagsOfRange_lowered sorting tags offset
    (chunkLength - offset) 0 (Nat.zero_le _)
  have insert_eq : insertAt sorting tags chunkLength inserted 0 offset =
      .ok (copyTags sorting moved inserted 0 offset 0) := by
    unfold insertAt
    rw [if_neg (by omega)]
    have same : (((0 : Nat) : Int)) = -((0 : Nat) : Int) := rfl
    rw [same, returned]
    rfl
  have at_result (p : Nat) :
      tagsAt (copyTags sorting moved inserted 0 offset 0) p =
        if offset ≤ p ∧ p < offset + offset then 0 else tagsAt tags p := by
    have unmoved := leftAt_add_takenAt tags offset (chunkLength - offset) 0 p
    rw [Nat.add_zero] at unmoved
    rw [tagsAt_copyTags, if_neg (by omega), at_, Nat.add_zero, ← unmoved]
    congr 1
    exact (Multiset.map_congr rfl fun tag _ => rebase_zero tag).trans (Multiset.map_id' _)
  constructor
  · rintro ⟨result, returned', _, follows, _⟩ p starts stops within
    rw [insert_eq] at returned'
    cases returned'
    have here := follows p starts stops
    rw [Nat.add_zero, at_result p, if_pos ⟨starts, within⟩] at here
    exact here.symm
  · intro free
    refine ⟨_, insert_eq, ?_, ?_, fun p within => absurd within (Nat.not_lt_zero p)⟩
    · intro p before
      rw [at_result p, if_neg (by omega)]
    · intro p starts stops
      rw [Nat.add_zero, at_result p]
      split
      next cleared => exact (free p starts stops cleared.2).symm
      next => rfl

theorem removesTags_iff (chunkLength offset length : Nat) (inside : offset + length ≤ chunkLength) :
    RemovesTags sorting tags chunkLength offset length ↔
      Lowers tags (offset + length) (chunkLength - offset - length) length ∧
        Vacates tags offset (offset + length) (chunkLength - offset - length) length := by
  obtain ⟨result, returned, at_⟩ := moveTagsOfRange_lowered sorting tags (offset + length)
    (chunkLength - offset - length) length (Nat.le_add_left _ _)
  have remove_eq : removeAt sorting tags chunkLength offset length = .ok result := by
    unfold removeAt
    rw [if_neg (by omega), if_neg (by omega), returned]
  constructor
  · rintro ⟨result', returned', _, follows, vacated⟩
    rw [remove_eq] at returned'
    cases returned'
    constructor
    · intro p starts stops
      have here := follows (p + length) starts (by omega)
      rwa [Nat.add_sub_cancel, at_] at here
    · intro p _ stops behind
      have here := vacated p (by omega) (by omega)
      rwa [at_, takenAt_behind _ _ _ _ _ behind, Multiset.map_zero, add_zero] at here
  · rintro ⟨lowers, vacates⟩
    refine ⟨result, remove_eq, ?_, ?_, ?_⟩
    · intro p before
      rw [at_, leftAt_before _ _ _ _ _ (by omega), takenAt_before _ _ _ _ _ (by omega),
        Multiset.map_zero, add_zero]
    · intro p starts stops
      have here := lowers (p - length) (by omega) (by omega)
      rw [Nat.sub_add_cancel (by omega)] at here
      rw [at_, Nat.sub_add_cancel (by omega)]
      exact here
    · intro p behind stops
      rw [at_, takenAt_behind _ _ _ _ _ (by omega), Multiset.map_zero, add_zero]
      exact vacates p (by omega) (by omega) (by omega)

/-! ### When tags follow their data -/

end RegionTags
end Inet.Packet
