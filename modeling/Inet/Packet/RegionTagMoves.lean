import Inet.Packet.RegionTagSeparate

/-!
# Region tags that move with their data

The tags at a position are the tags of the regions that cover it, each as `changeRegion`
makes it when its region is cut there. Splitting a region leaves them as they are. Moving a
range of them clears a range that is given by its end where `clearTags` expects a length, and
a move to lower offsets splits at the other end of the range and clears what lies behind its
beginning in place of what it moves to.
-/
namespace Inet.Packet

open Lib

/-- A tag depends on where its region starts only by how far the start moved. -/
class LawfulTagBase (T : outParam Type) (Tag : Type) [TagBase T Tag] : Prop where
  changeRegion_length : ∀ (tag : Tag) (offsetDelta lengthDelta : Int),
    TagBase.changeRegion tag offsetDelta lengthDelta = TagBase.changeRegion tag offsetDelta 0
  changeRegion_zero : ∀ tag : Tag, TagBase.changeRegion tag 0 0 = tag
  changeRegion_add : ∀ (tag : Tag) (delta delta' : Int),
    TagBase.changeRegion (TagBase.changeRegion tag delta 0) delta' 0 =
      TagBase.changeRegion tag (delta + delta') 0

instance : LawfulTagBase TimeOrIdentity TimeOrIdentityTag where
  changeRegion_length tag _ _ := by cases tag <;> rfl
  changeRegion_zero tag := by cases tag <;> simp [TagBase.changeRegion]
  changeRegion_add tag _ _ := by cases tag <;> simp [TagBase.changeRegion, add_assoc]

variable {T Tag : Type} [TagBase T Tag]

/-- A tag after its region moved. -/
def rebase (shift : Int) (tag : Tag) : Tag := TagBase.changeRegion tag shift 0

namespace RegionTag

/-- The tag a region gives a position. -/
def tagAt (r : RegionTag Tag) (p : Nat) : Tag := rebase ((p : Int) - r.offset) r.tag

def tagsAt (r : RegionTag Tag) (p : Nat) : Multiset Tag := if p ∈ r.span then {r.tagAt p} else 0

end RegionTag

namespace RegionTags

variable (tags : RegionTags Tag) (splitOffset offset length : Nat) {r piece : RegionTag Tag}
  {endOffset startOffset p : Nat}

/-- The tags at a position. -/
def tagsAt (tags : RegionTags Tag) (p : Nat) : Multiset Tag := (tags.map fun r => r.tagsAt p).sum

/-! ### Sums over regions -/

theorem tagsAt_perm {tags tags' : RegionTags Tag} (same : tags.Perm tags') (p : Nat) :
    tags.tagsAt p = tags'.tagsAt p :=
  (same.map _).sum_eq

@[simp] theorem tagsAt_append (tags' : RegionTags Tag) (p : Nat) :
    tagsAt (tags ++ tags') p = tagsAt tags p + tagsAt tags' p := by
  simp [tagsAt]

theorem tagsAt_flatMap (pieces : RegionTag Tag → RegionTags Tag) (p : Nat) :
    tagsAt (tags.flatMap pieces) p = (tags.map fun r => tagsAt (pieces r) p).sum := by
  induction tags with
  | nil => rfl
  | cons r rest ih => rw [List.flatMap_cons, tagsAt_append, ih, List.map_cons, List.sum_cons]

theorem tagsAt_filter (kept : RegionTag Tag → Bool) (p : Nat) :
    tagsAt (tags.filter kept) p = (tags.map fun r => if kept r then r.tagsAt p else 0).sum := by
  induction tags with
  | nil => rfl
  | cons r rest ih =>
    rw [List.filter_cons, List.map_cons, List.sum_cons, ← ih]
    split
    next => rfl
    next => rw [zero_add]

/-! ### Pieces of a region -/

section Pieces

variable [LawfulTagBase T Tag]

theorem rebase_zero (tag : Tag) : rebase 0 tag = tag := LawfulTagBase.changeRegion_zero tag

theorem rebase_rebase (tag : Tag) (delta delta' : Int) :
    rebase delta' (rebase delta tag) = rebase (delta + delta') tag :=
  LawfulTagBase.changeRegion_add tag delta delta'

/-- Setting the offset of a region leaves its tag as seen from a position. -/
theorem tagAt_setOffset (r : RegionTag Tag) (offset p : Nat) :
    (r.setOffset offset).tagAt p = r.tagAt p := by
  unfold RegionTag.setOffset
  split
  next =>
    show rebase _ (rebase _ r.tag) = rebase _ r.tag
    rw [rebase_rebase]
    congr 1
    show (offset : Int) - r.offset + (p - offset) = p - r.offset
    omega
  next => rfl

theorem tagAt_setLength (r : RegionTag Tag) (length p : Nat) :
    (r.setLength length).tagAt p = r.tagAt p := by
  unfold RegionTag.setLength
  split
  next =>
    show rebase _ (TagBase.changeRegion r.tag 0 _) = rebase _ r.tag
    rw [LawfulTagBase.changeRegion_length, LawfulTagBase.changeRegion_zero]
  next => rfl

/-- Seen from a position further on, a tag is moved by the distance. -/
theorem tagAt_add (r : RegionTag Tag) (p p' : Nat) (shift : Int) (moved : (p' : Int) = p + shift) :
    r.tagAt p' = rebase shift (r.tagAt p) := by
  unfold RegionTag.tagAt
  rw [rebase_rebase]
  congr 1
  omega

theorem clearRegion_tagAt (member : piece ∈ clearRegion startOffset endOffset r) (p : Nat) :
    piece.tagAt p = r.tagAt p := by
  unfold clearRegion at member
  split_ifs at member
  · rw [List.mem_singleton.mp member]
  · cases member
  · simp only [List.mem_cons, List.not_mem_nil, or_false] at member
    rcases member with rfl | rfl <;> simp only [tagAt_setLength, tagAt_setOffset]
  · rw [List.mem_singleton.mp member, tagAt_setLength]
  · rw [List.mem_singleton.mp member, tagAt_setOffset, tagAt_setLength]

theorem splitRegionWhere_tagAt {f : Tag → Bool} {offset : Nat}
    (member : piece ∈ splitRegionWhere f offset r) (p : Nat) : piece.tagAt p = r.tagAt p := by
  unfold splitRegionWhere at member
  split at member
  · simp only [List.mem_cons, List.not_mem_nil, or_false] at member
    rcases member with rfl | rfl <;> simp only [tagAt_setLength, tagAt_setOffset]
  · rw [List.mem_singleton.mp member]

end Pieces

/-! ### Splitting and clearing -/

/-- What splitting at an offset and clearing a range leave of a region. -/
def cutRegion (splitOffset startOffset endOffset : Nat) (r : RegionTag Tag) : RegionTags Tag :=
  (splitRegionWhere (fun _ => true) splitOffset r).flatMap (clearRegion startOffset endOffset)

theorem cutTags_perm (sorting : TagSort Tag) (tags : RegionTags Tag)
    (splitOffset offset length : Nat) :
    (clearTags sorting (splitTagsWhere sorting (fun _ => true) splitOffset tags) offset
      length).Perm (tags.flatMap (cutRegion splitOffset offset (offset + length))) := by
  refine (clearTags_perm sorting _ offset length).trans ?_
  refine ((splitTagsWhere_perm sorting _ splitOffset tags).flatMap_right _).trans ?_
  rw [List.flatMap_assoc]
  rfl

/-- The pieces of a region are its parts outside of the split offset and of the cleared range. -/
theorem cutRegion_spans (forward : startOffset ≤ endOffset) (positive : 0 < r.length) :
    (cutRegion splitOffset startOffset endOffset r).map RegionTag.span =
      (r.span.outside ⟨splitOffset, splitOffset⟩).flatMap
        (·.outside ⟨startOffset, endOffset⟩) := by
  have split := splitRegionWhere_cutsOut (fun _ => true) splitOffset r positive rfl
  rw [← split.spans, List.flatMap_map, cutRegion, List.map_flatMap]
  refine List.flatMap_congr fun part made => ?_
  exact (clearRegion_cutsOut startOffset endOffset forward part
    (split.pieceOf part made).positive).spans

/-- A region without positions has pieces without positions. -/
theorem cutRegion_empty {splitOffset : Nat}
    (empty : r.length = 0) (member : piece ∈ cutRegion splitOffset startOffset endOffset r)
    (p : Nat) : p ∉ piece.span := by
  have whole : straddlesWhere (fun _ => true) splitOffset r = false := by
    rw [Bool.eq_false_iff, ne_eq, straddlesWhere_iff]
    omega
  simp only [cutRegion, splitRegionWhere, whole, Bool.false_eq_true, if_false,
    List.flatMap_singleton] at member
  unfold clearRegion at member
  by_cases missed : r.misses startOffset endOffset = true
  · rw [if_pos missed] at member
    rw [List.mem_singleton.mp member, Span.mem_iff, RegionTag.span_start, RegionTag.span_stop]
    omega
  · have covered : startOffset ≤ r.offset ∧ r.getEndOffset ≤ endOffset := by
      have meets := mt (r.misses_iff startOffset endOffset).mpr missed
      simp only [Span.Apart, RegionTag.span_start, RegionTag.span_stop] at meets
      rw [RegionTag.getEndOffset]
      omega
    rw [if_neg missed, if_pos covered] at member
    cases member

theorem cutRegion_span_mem {splitOffset : Nat}
    (forward : startOffset ≤ endOffset) (positive : 0 < r.length)
    (member : piece ∈ cutRegion splitOffset startOffset endOffset r) :
    ∃ part ∈ r.span.outside ⟨splitOffset, splitOffset⟩,
      piece.span ∈ part.outside ⟨startOffset, endOffset⟩ := by
  have as_span := List.mem_map_of_mem (f := RegionTag.span) member
  rw [cutRegion_spans splitOffset forward positive] at as_span
  exact List.mem_flatMap.mp as_span

/-- A position that is not cleared lies in one piece. -/
theorem mem_cutRegion_iff (startOffset endOffset : Nat)
    (forward : startOffset ≤ endOffset) (r : RegionTag Tag) (p : Nat) :
    (∃ piece ∈ cutRegion splitOffset startOffset endOffset r, p ∈ piece.span) ↔
      p ∈ r.span ∧ p ∉ (⟨startOffset, endOffset⟩ : Span Nat) := by
  rcases Nat.eq_zero_or_pos r.length with empty | positive
  · refine iff_of_false ?_ ?_
    · rintro ⟨piece, member, inside⟩
      exact cutRegion_empty empty member p inside
    · rintro ⟨inside, _⟩
      rw [Span.mem_iff, RegionTag.span_start, RegionTag.span_stop] at inside
      omega
  · have as_spans : (∃ piece ∈ cutRegion splitOffset startOffset endOffset r, p ∈ piece.span) ↔
        ∃ t ∈ (cutRegion splitOffset startOffset endOffset r).map RegionTag.span, p ∈ t := by simp
    rw [as_spans, cutRegion_spans splitOffset forward positive]
    have not_split : p ∉ (⟨splitOffset, splitOffset⟩ : Span Nat) := by
      rintro ⟨starts, stops⟩
      exact absurd starts (Nat.not_le.mpr stops)
    constructor
    · rintro ⟨t, member, inside⟩
      obtain ⟨u, from_u, made⟩ := List.mem_flatMap.mp member
      have in_u := Span.mem_of_outside.mp ⟨t, made, inside⟩
      exact ⟨(Span.mem_of_outside.mp ⟨u, from_u, in_u.1⟩).1, in_u.2⟩
    · rintro ⟨inside, kept⟩
      obtain ⟨u, from_u, in_u⟩ := Span.mem_of_outside.mpr ⟨inside, not_split⟩
      obtain ⟨t, made, in_t⟩ := Span.mem_of_outside.mpr ⟨in_u, kept⟩
      exact ⟨t, List.mem_flatMap.mpr ⟨u, from_u, made⟩, in_t⟩

theorem cutRegion_apart (startOffset endOffset : Nat)
    (forward : startOffset ≤ endOffset) (positive : 0 < r.length) :
    (cutRegion splitOffset startOffset endOffset r).Pairwise
      fun piece piece' => piece.span.Apart piece'.span := by
  have as_spans := List.pairwise_map (f := @RegionTag.span Tag) (R := Span.Apart)
    (l := cutRegion splitOffset startOffset endOffset r)
  rw [← as_spans, cutRegion_spans splitOffset forward positive,
    List.pairwise_flatMap]
  refine ⟨fun u _ => Span.outside_pairwise u forward, ?_⟩
  refine (Span.outside_pairwise r.span (le_refl splitOffset)).imp ?_
  intro u u' apart t made t' made'
  exact apart.mono (Span.outside_within made) (Span.outside_within made')

/-- Pieces that are apart give a position one tag at most. -/
theorem tagsAt_pieces {pieces : RegionTags Tag} (same : ∀ piece ∈ pieces, piece.tagAt p = r.tagAt p)
    (apart : pieces.Pairwise fun piece piece' => piece.span.Apart piece'.span) :
    tagsAt pieces p = if ∃ piece ∈ pieces, p ∈ piece.span then {r.tagAt p} else 0 := by
  induction pieces with
  | nil => simp [tagsAt]
  | cons piece rest ih =>
    obtain ⟨separate, rest_apart⟩ := List.pairwise_cons.mp apart
    have later := ih (fun other member => same other (List.mem_cons_of_mem piece member)) rest_apart
    show piece.tagsAt p + tagsAt rest p = _
    rw [later]
    unfold RegionTag.tagsAt
    by_cases inside : p ∈ piece.span
    · have nowhere : ¬∃ other ∈ rest, p ∈ other.span := by
        rintro ⟨other, member, also⟩
        exact (separate other member).not_mem inside also
      rw [if_pos inside, if_neg nowhere, if_pos ⟨piece, List.mem_cons_self, inside⟩, add_zero,
        same piece List.mem_cons_self]
    · rw [if_neg inside, zero_add]
      simp [inside]

/-- Where a piece that holds a position passes a test exactly if its region does there, the
tags of these pieces are those of such regions, except where the range was cleared. -/
theorem tagsAt_cutTags [LawfulTagBase T Tag] (sorting : TagSort Tag) (tags : RegionTags Tag)
    (splitOffset offset length p : Nat) (passes : RegionTag Tag → Bool)
    (passes' : RegionTag Tag → Bool)
    (agree : ∀ r ∈ tags, 0 < r.length →
      ∀ piece ∈ cutRegion splitOffset offset (offset + length) r, p ∈ piece.span →
        passes piece = passes' r) :
    tagsAt ((clearTags sorting (splitTagsWhere sorting (fun _ => true) splitOffset tags) offset
        length).filter passes) p =
      if offset ≤ p ∧ p < offset + length then 0 else tagsAt (tags.filter passes') p := by
  rw [tagsAt_perm ((cutTags_perm sorting tags splitOffset offset length).filter passes),
    List.filter_flatMap, tagsAt_flatMap, tagsAt_filter]
  have each : ∀ r ∈ tags,
      tagsAt ((cutRegion splitOffset offset (offset + length) r).filter passes) p =
        if offset ≤ p ∧ p < offset + length then 0
        else if passes' r then r.tagsAt p else 0 := by
    intro r member
    have pieces_same : ∀ piece ∈ (cutRegion splitOffset offset (offset + length) r).filter passes,
        piece.tagAt p = r.tagAt p := by
      intro piece chosen
      obtain ⟨part, from_split, made⟩ := List.mem_flatMap.mp (List.mem_of_mem_filter chosen)
      rw [clearRegion_tagAt made, splitRegionWhere_tagAt from_split]
    have somewhere := mem_cutRegion_iff splitOffset offset (offset + length)
      (Nat.le_add_right _ _) r p
    rcases Nat.eq_zero_or_pos r.length with empty | positive
    · have nothing : tagsAt ((cutRegion splitOffset offset (offset + length) r).filter passes) p =
          0 := by
        refine List.sum_eq_zero ?_
        intro tags_at member
        obtain ⟨piece, chosen, rfl⟩ := List.mem_map.mp member
        exact if_neg (cutRegion_empty empty (List.mem_of_mem_filter chosen) p)
      have outside : p ∉ r.span := by
        rw [Span.mem_iff, RegionTag.span_start, RegionTag.span_stop]
        omega
      rw [nothing, RegionTag.tagsAt, if_neg outside, ite_self, ite_self]
    · rw [tagsAt_pieces pieces_same
        ((cutRegion_apart splitOffset offset (offset + length) (Nat.le_add_right _ _)
          positive).filter _)]
      have chosen_iff : (∃ piece ∈ (cutRegion splitOffset offset (offset + length) r).filter passes,
          p ∈ piece.span) ↔
            (p ∈ r.span ∧ p ∉ (⟨offset, offset + length⟩ : Span Nat)) ∧ passes' r = true := by
        rw [← somewhere]
        constructor
        · rintro ⟨piece, chosen, inside⟩
          obtain ⟨made, passed⟩ := List.mem_filter.mp chosen
          rw [agree r member positive piece made inside] at passed
          exact ⟨⟨piece, made, inside⟩, passed⟩
        · rintro ⟨⟨piece, made, inside⟩, passed⟩
          rw [← agree r member positive piece made inside] at passed
          exact ⟨piece, List.mem_filter.mpr ⟨made, passed⟩, inside⟩
      have in_range : p ∈ (⟨offset, offset + length⟩ : Span Nat) ↔
          offset ≤ p ∧ p < offset + length := Span.mem_iff
      simp only [chosen_iff, RegionTag.tagsAt, in_range]
      by_cases cleared : offset ≤ p ∧ p < offset + length
      · simp [cleared]
      · by_cases passed : passes' r = true <;> by_cases inside : p ∈ r.span <;>
          simp [cleared, passed, inside]
  rw [List.map_congr_left each]
  split
  next => exact List.sum_eq_zero (by simp)
  next => rfl

/-! ### Moving a range -/

/-- Whether a region lies in the range that is moved. -/
def liesIn (offset length : Nat) (r : RegionTag Tag) : Bool :=
  offset ≤ r.offset && r.getEndOffset ≤ offset + length

def moveRegion (offset length : Nat) (shift : Int) (r : RegionTag Tag) : RegionTag Tag :=
  if liesIn offset length r then r.setOffset (r.offset + shift).toNat else r

theorem liesIn_iff (r : RegionTag Tag) :
    liesIn offset length r = true ↔ offset ≤ r.offset ∧ r.offset + r.length ≤ offset + length := by
  simp only [liesIn, Bool.and_eq_true, decide_eq_true_eq]
  rw [RegionTag.getEndOffset]

theorem mapM_move (shift : Int) (nonneg : 0 ≤ offset + shift) :
    (tags.mapM fun r =>
      if offset ≤ r.offset ∧ r.getEndOffset ≤ offset + length then
        if r.offset + shift < 0 then .error "offset >= b(0)"
        else .ok (r.setOffset (r.offset + shift).toNat)
      else .ok r : Except String (RegionTags Tag)) =
      .ok (tags.map (moveRegion offset length shift)) := by
  induction tags with
  | nil => rfl
  | cons r rest ih =>
    rw [List.mapM_cons, ih, List.map_cons]
    unfold moveRegion
    by_cases inside : offset ≤ r.offset ∧ r.getEndOffset ≤ offset + length
    · rw [if_pos inside, if_neg (by omega), if_pos ((liesIn_iff offset length r).mpr inside)]
      rfl
    · rw [if_neg inside, if_neg (mt (liesIn_iff offset length r).mp inside)]
      rfl

section Moved

variable [LawfulTagBase T Tag]

theorem tagsAt_moveRegion {offset : Nat} {shift : Int} (nonneg : 0 ≤ offset + shift)
    (r : RegionTag Tag) (p : Nat) :
    (moveRegion offset length shift r).tagsAt p =
      (if liesIn offset length r then 0 else r.tagsAt p) +
        if liesIn offset length r ∧ shift ≤ p then
          (r.tagsAt (p - shift).toNat).map (rebase shift) else 0 := by
  unfold moveRegion
  by_cases inside : liesIn offset length r = true
  · obtain ⟨starts, _⟩ := (liesIn_iff offset length r).mp inside
    simp only [inside, if_true, true_and, zero_add]
    unfold RegionTag.tagsAt
    rw [tagAt_setOffset]
    by_cases reached : shift ≤ p
    · have same : p ∈ (r.setOffset (r.offset + shift).toNat).span ↔
          (p - shift).toNat ∈ r.span := by
        simp only [Span.mem_iff, RegionTag.span_start, RegionTag.span_stop,
          RegionTag.setOffset_offset, RegionTag.setOffset_length]
        omega
      rw [if_pos reached, if_congr same rfl rfl]
      split
      next =>
        rw [Multiset.map_singleton, ← tagAt_add r (p - shift).toNat p shift (by omega)]
      next => rfl
    · have outside : p ∉ (r.setOffset (r.offset + shift).toNat).span := by
        simp only [Span.mem_iff, RegionTag.span_start, RegionTag.span_stop,
          RegionTag.setOffset_offset, RegionTag.setOffset_length]
        omega
      rw [if_neg reached, if_neg outside]
  · simp [inside]

/-- What was moved and what was not, at a position. -/
theorem tagsAt_map_move (shift : Int) (nonneg : 0 ≤ offset + shift) (p : Nat) :
    tagsAt (tags.map (moveRegion offset length shift)) p =
      tagsAt (tags.filter fun r => !liesIn offset length r) p +
        if shift ≤ p then
          (tagsAt (tags.filter (liesIn offset length)) (p - shift).toNat).map (rebase shift)
        else 0 := by
  induction tags with
  | nil => simp [tagsAt]
  | cons r rest ih =>
    have here := tagsAt_moveRegion length nonneg r p
    have first : tagsAt ((r :: rest).map (moveRegion offset length shift)) p =
      (moveRegion offset length shift r).tagsAt p +
        tagsAt (rest.map (moveRegion offset length shift)) p := rfl
    rw [first, here, ih]
    by_cases inside : liesIn offset length r = true <;> by_cases reached : shift ≤ p <;>
      simp [inside, reached, tagsAt, add_assoc, add_left_comm]

/-! ### Which pieces are moved -/

omit [LawfulTagBase T Tag] in
/-- A move to higher offsets takes the pieces that hold a position of the range. -/
theorem liesIn_raised {offset length shift : Nat}
    (positive : 0 < r.length) (member : piece ∈ cutRegion offset (offset + length)
      (offset + length + (offset + length + shift)) r) (inside : p ∈ piece.span) :
    liesIn offset length piece = true ↔ offset ≤ p ∧ p < offset + length := by
  obtain ⟨part, from_split, made⟩ := cutRegion_span_mem (Nat.le_add_right _ _) positive member
  rw [Span.mem_outside_iff] at from_split made
  rw [Span.mem_iff, RegionTag.span_start, RegionTag.span_stop] at inside
  have start_eq := RegionTag.span_start piece
  have stop_eq := RegionTag.span_stop piece
  rw [liesIn_iff]
  obtain ⟨_, ⟨_, rfl⟩ | ⟨_, rfl⟩⟩ := from_split <;> obtain ⟨_, ⟨_, at_⟩ | ⟨_, at_⟩⟩ := made <;>
    rw [at_] at start_eq stop_eq <;>
    simp only [RegionTag.span_start, RegionTag.span_stop] at * <;> omega

omit [LawfulTagBase T Tag] in
/-- A move to lower offsets takes the pieces of regions that start in the range, and those
behind what is cleared. -/
theorem liesIn_lowered {offset length distance : Nat}
    (positive : 0 < r.length) (member : piece ∈ cutRegion (offset + length) (offset + distance)
      (offset + distance + offset) r) (inside : p ∈ piece.span) :
    liesIn offset length piece = true ↔
      p < offset + length ∧
        (p < offset + distance ∧ offset ≤ r.offset ∨ offset + distance + offset ≤ p) := by
  obtain ⟨part, from_split, made⟩ := cutRegion_span_mem (Nat.le_add_right _ _) positive member
  rw [Span.mem_outside_iff] at from_split made
  rw [Span.mem_iff, RegionTag.span_start, RegionTag.span_stop] at inside
  have start_eq := RegionTag.span_start piece
  have stop_eq := RegionTag.span_stop piece
  rw [liesIn_iff]
  obtain ⟨_, ⟨_, rfl⟩ | ⟨_, rfl⟩⟩ := from_split <;> obtain ⟨_, ⟨_, at_⟩ | ⟨_, at_⟩⟩ := made <;>
    rw [at_] at start_eq stop_eq <;>
    simp only [RegionTag.span_start, RegionTag.span_stop] at * <;> omega

end Moved

end RegionTags
end Inet.Packet
