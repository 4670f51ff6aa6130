import Inet.Packet.RegionTagSet

/-!
# Regions of one type stay apart

Every function takes the regions it finds to pieces of them, moves all of them alike, or
adds regions that are apart from those of the same type.
-/
namespace Inet.Packet

open Lib

variable {T Tag : Type} [TagBase T Tag]
variable (sorting : TagSort Tag) (f : Tag → Bool) (tags tags' : RegionTags Tag) (offset : Nat)
  (r : RegionTag Tag) (length : Nat) (created : Tag)

/-! ### Spans and setters -/

namespace RegionTag

/-- The positions of the region. -/
def span (r : RegionTag Tag) : Span Nat := ⟨r.offset, r.getEndOffset⟩

@[simp] theorem span_start : r.span.start = r.offset := rfl

@[simp] theorem span_stop : r.span.stop = r.offset + r.length := rfl

@[simp] theorem setOffset_offset (offset : Nat) :
    (r.setOffset offset).offset = offset := by
  unfold setOffset
  split <;> simp_all

@[simp] theorem setOffset_length (offset : Nat) :
    (r.setOffset offset).length = r.length := by
  unfold setOffset
  split <;> rfl

@[simp] theorem typeid_setOffset (offset : Nat) :
    typeid (r.setOffset offset).tag = typeid r.tag := by
  unfold setOffset
  split <;> simp

@[simp] theorem setLength_offset :
    (r.setLength length).offset = r.offset := by
  unfold setLength
  split <;> rfl

@[simp] theorem setLength_length :
    (r.setLength length).length = length := by
  unfold setLength
  split <;> simp_all

@[simp] theorem typeid_setLength :
    typeid (r.setLength length).tag = typeid r.tag := by
  unfold setLength
  split <;> simp

theorem misses_iff (startOffset endOffset : Nat) :
    r.misses startOffset endOffset = true ↔ r.span.Apart ⟨startOffset, endOffset⟩ := by
  simp only [misses, Bool.or_eq_true, decide_eq_true_eq]
  exact or_comm

end RegionTag

/-! ### Well-formed vectors -/

/-- Regions of the same type share no position. -/
def Separate (tags : RegionTags Tag) : Prop :=
  tags.Pairwise fun r r' => typeid r.tag = typeid r'.tag → r.span.Apart r'.span

structure WellFormed (tags : RegionTags Tag) : Prop where
  positive : ∀ r ∈ tags, 0 < r.length
  separate : Separate tags

/-- A region that a function may make of another one. -/
structure PieceOf (r piece : RegionTag Tag) : Prop where
  type : typeid piece.tag = typeid r.tag
  within : piece.span.Within r.span
  positive : 0 < piece.length

/-- Pieces that keep the type and lie where `Span.outside` says. -/
structure CutsOut (cut : Span Nat) (r : RegionTag Tag) (pieces : RegionTags Tag) : Prop where
  type : ∀ piece ∈ pieces, typeid piece.tag = typeid r.tag
  spans : pieces.map RegionTag.span = r.span.outside cut

namespace CutsOut

variable {cut : Span Nat} {r : RegionTag Tag} {pieces : RegionTags Tag}

theorem span_mem (cuts : CutsOut cut r pieces) {piece : RegionTag Tag} (member : piece ∈ pieces) :
    piece.span ∈ r.span.outside cut := by
  rw [← cuts.spans]
  exact List.mem_map_of_mem member

theorem pieceOf (cuts : CutsOut cut r pieces) (piece : RegionTag Tag) (member : piece ∈ pieces) :
    PieceOf r piece where
  type := cuts.type piece member
  within := Span.outside_within (cuts.span_mem member)
  positive := by
    have := Span.outside_pos (cuts.span_mem member)
    simp only [RegionTag.span_start, RegionTag.span_stop] at this
    omega

theorem apart (cuts : CutsOut cut r pieces) (forward : cut.start ≤ cut.stop) :
    pieces.Pairwise fun x y => x.span.Apart y.span := by
  have separated := Span.outside_pairwise r.span forward
  rwa [← cuts.spans, List.pairwise_map] at separated

theorem mem_iff (cuts : CutsOut cut r pieces) (p : Nat) :
    (∃ piece ∈ pieces, p ∈ piece.span) ↔ p ∈ r.span ∧ p ∉ cut := by
  rw [← Span.mem_of_outside, ← cuts.spans]
  simp

end CutsOut

namespace WellFormed

theorem perm {tags tags' : RegionTags Tag} (same : tags'.Perm tags) (wf : WellFormed tags) :
    WellFormed tags' where
  positive r member := wf.positive r (same.mem_iff.mp member)
  separate := same.symm.pairwise wf.separate fun apart sameType => (apart sameType.symm).symm

theorem append {tags added : RegionTags Tag} (wf : WellFormed tags) (wf' : WellFormed added)
    (apart : ∀ r ∈ tags, ∀ r' ∈ added, typeid r.tag = typeid r'.tag → r.span.Apart r'.span) :
    WellFormed (tags ++ added) where
  positive r member := (List.mem_append.mp member).elim (wf.positive r) (wf'.positive r)
  separate := List.pairwise_append.mpr ⟨wf.separate, wf'.separate, apart⟩

theorem singleton {r : RegionTag Tag} (positive : 0 < r.length) : WellFormed [r] :=
  ⟨by simpa using positive, List.pairwise_singleton _ _⟩

theorem sublist {tags tags' : RegionTags Tag} (sub : tags'.Sublist tags) (wf : WellFormed tags) :
    WellFormed tags' :=
  ⟨fun r member => wf.positive r (sub.subset member), wf.separate.sublist sub⟩

/-- Only the types and the regions matter. -/
theorem of_regions {tags tags' : RegionTags Tag} (wf : WellFormed tags)
    (same : tags'.map (fun r => (typeid r.tag, r.offset, r.length)) =
      tags.map fun r => (typeid r.tag, r.offset, r.length)) : WellFormed tags' := by
  let positive (k : T × Nat × Nat) : Prop := 0 < k.2.2
  let separate (k k' : T × Nat × Nat) : Prop :=
    k.1 = k'.1 → (⟨k.2.1, k.2.1 + k.2.2⟩ : Span Nat).Apart ⟨k'.2.1, k'.2.1 + k'.2.2⟩
  constructor
  · have all : ∀ k ∈ tags.map (fun r => (typeid r.tag, r.offset, r.length)), positive k := by
      simpa [positive] using wf.positive
    rw [← same] at all
    intro r member
    exact all _ (List.mem_map_of_mem member)
  · have all : (tags.map fun r => (typeid r.tag, r.offset, r.length)).Pairwise separate :=
      List.pairwise_map.mpr wf.separate
    rw [← same] at all
    exact List.pairwise_map.mp all

/-- Taking every region to pieces of it that are apart keeps a vector well-formed. -/
theorem flatMap {tags : RegionTags Tag} (wf : WellFormed tags)
    (pieces : RegionTag Tag → RegionTags Tag)
    (pieceOf : ∀ r ∈ tags, ∀ piece ∈ pieces r, PieceOf r piece)
    (apart : ∀ r ∈ tags, (pieces r).Pairwise fun x y => x.span.Apart y.span) :
    WellFormed (tags.flatMap pieces) where
  positive piece member := by
    obtain ⟨r, from_r, made⟩ := List.mem_flatMap.mp member
    exact (pieceOf r from_r piece made).positive
  separate := by
    refine List.pairwise_flatMap.mpr ⟨?_, wf.separate.imp_of_mem ?_⟩
    · intro r member
      refine (apart r member).imp ?_
      intro x y separated _
      exact separated
    · intro r r' member member' separated x made y made' sameType
      have left := pieceOf r member x made
      have right := pieceOf r' member' y made'
      rw [left.type, right.type] at sameType
      exact (separated sameType).mono left.within right.within

end WellFormed

namespace RegionTags

variable (typeInfo : T)

/-! ### Splitting -/

theorem straddlesWhere_iff :
    straddlesWhere f offset r = true ↔
      f r.tag = true ∧ r.offset < offset ∧ offset < r.offset + r.length := by
  simp only [straddlesWhere, Bool.and_eq_true, decide_eq_true_eq, and_assoc]
  rw [RegionTag.getEndOffset]

/-- The parts `splitTags` leaves of one region. -/
def splitRegionWhere (f : Tag → Bool) (offset : Nat) (r : RegionTag Tag) : RegionTags Tag :=
  if straddlesWhere f offset r then
    [r.setLength (offset - r.offset), (r.setOffset offset).setLength (r.getEndOffset - offset)]
  else [r]

theorem splitTagsWhere_perm (tags : RegionTags Tag) :
    (tags.splitTagsWhere sorting f offset).Perm (tags.flatMap (splitRegionWhere f offset)) := by
  let shorten (r : RegionTag Tag) :=
    if straddlesWhere f offset r then r.setLength (offset - r.offset) else r
  let behind (r : RegionTag Tag) : RegionTags Tag :=
    if straddlesWhere f offset r then
      [(r.setOffset offset).setLength (r.getEndOffset - offset)]
    else []
  have parts : splitRegionWhere f offset = fun r : RegionTag Tag => shorten r :: behind r := by
    funext r
    unfold splitRegionWhere
    split
    next straddling => simp [shorten, behind, straddling]
    next whole => simp [shorten, behind, whole]
  have inserted : ∀ tags : RegionTags Tag,
      ((tags.filter (straddlesWhere f offset)).map fun r =>
        (r.setOffset offset).setLength (r.getEndOffset - offset)) = tags.flatMap behind := by
    intro tags
    induction tags with
    | nil => rfl
    | cons r rest ih =>
      rw [List.flatMap_cons, ← ih, List.filter_cons]
      split
      next straddling => simp [behind, straddling]
      next whole => simp [behind, whole]
  rw [parts]
  refine .trans ?_ (List.map_append_flatMap_perm tags shorten behind)
  unfold splitTagsWhere
  simp only [inserted]
  split
  next none_ =>
    have nothing : tags.flatMap behind = [] := List.isEmpty_iff.mp none_
    have whole : ∀ r ∈ tags, shorten r = r := by
      intro r member
      have no_part := List.flatMap_eq_nil_iff.mp nothing r member
      by_cases straddling : straddlesWhere f offset r = true
      · simp [behind, straddling] at no_part
      · simp [shorten, straddling]
    rw [nothing, List.append_nil, List.map_congr_left whole, List.map_id']
  next => exact sorting.perm _

theorem splitRegionWhere_cutsOut (positive : 0 < r.length) (chosen : f r.tag = true) :
    CutsOut ⟨offset, offset⟩ r (splitRegionWhere f offset r) where
  type := by
    unfold splitRegionWhere
    split <;> simp
  spans := by
    unfold splitRegionWhere
    split
    next straddling =>
      obtain ⟨-, starts, stops⟩ := (straddlesWhere_iff f offset r).mp straddling
      simp only [Span.outside, RegionTag.span, RegionTag.getEndOffset, List.map_cons,
        List.map_nil, RegionTag.setOffset_offset, RegionTag.setLength_offset,
        RegionTag.setLength_length]
      grind
    next whole =>
      have apart : r.span.Apart ⟨offset, offset⟩ := by
        simp only [straddlesWhere_iff, chosen, true_and] at whole
        simp only [Span.Apart, RegionTag.span_start, RegionTag.span_stop]
        omega
      rw [Span.outside_of_apart apart (by simpa using positive) le_rfl]
      rfl

/-! ### Clearing, copying and moving -/

theorem clearRegion_cutsOut (startOffset endOffset : Nat) (forward : startOffset ≤ endOffset)
    (r : RegionTag Tag) (positive : 0 < r.length) :
    CutsOut ⟨startOffset, endOffset⟩ r (clearRegion startOffset endOffset r) where
  type := by
    unfold clearRegion
    split_ifs <;> simp
  spans := by
    unfold clearRegion
    split_ifs with missed covered inside cutsEnd
    · have apart := (r.misses_iff _ _).mp missed
      rw [Span.outside_of_apart apart (by simpa using positive) forward]
      rfl
    all_goals
      simp only [RegionTag.misses, RegionTag.getEndOffset] at *
      simp only [Span.outside, RegionTag.span, RegionTag.getEndOffset, List.map_cons,
        List.map_nil, RegionTag.setOffset_offset, RegionTag.setOffset_length,
        RegionTag.setLength_offset, RegionTag.setLength_length]
      grind

theorem clearTags_perm :
    (tags.clearTags sorting offset length).Perm
      (tags.flatMap (clearRegion offset (offset + length))) := by
  unfold clearTags
  split
  · exact sorting.perm _
  · rfl

theorem clearTags_wellFormed (wf : WellFormed tags) :
    WellFormed (tags.clearTags sorting offset length) := by
  have cuts := fun r (member : r ∈ tags) =>
    clearRegion_cutsOut offset (offset + length) (by omega) r (wf.positive r member)
  refine .perm (clearTags_perm sorting tags offset length) (wf.flatMap _ ?_ ?_)
  · exact fun r member => (cuts r member).pieceOf
  · exact fun r member => (cuts r member).apart (Nat.le_add_right _ _)

/-- No region reaches into what was cleared. -/
theorem clearTags_apart
    (wf : WellFormed tags) (r : RegionTag Tag) (member : r ∈ tags.clearTags sorting offset length) :
    r.span.Apart ⟨offset, offset + length⟩ := by
  rw [(clearTags_perm sorting tags offset length).mem_iff] at member
  obtain ⟨r', from_r', made⟩ := List.mem_flatMap.mp member
  have cuts := clearRegion_cutsOut offset (offset + length) (by omega) r' (wf.positive r' from_r')
  exact Span.outside_apart (cuts.span_mem made)

theorem mapRegion_pieceOf (startOffset endOffset : Nat) (forward : startOffset < endOffset)
    (r piece : RegionTag Tag) (positive : 0 < r.length)
    (member : piece ∈ mapRegion startOffset endOffset r) :
    PieceOf r piece ∧ piece.span.Within ⟨startOffset, endOffset⟩ := by
  unfold mapRegion at member
  simp only [RegionTag.misses, RegionTag.getEndOffset] at member
  have pieces : PieceOf r piece ↔ typeid piece.tag = typeid r.tag ∧
      piece.span.Within r.span ∧ 0 < piece.length :=
    ⟨fun h => ⟨h.type, h.within, h.positive⟩, fun h => ⟨h.1, h.2.1, h.2.2⟩⟩
  rw [pieces]
  simp only [Span.Within, RegionTag.span_start, RegionTag.span_stop]
  split_ifs at member <;> grind

/-- The regions `mapAllTags` passes on are as separate as those it reads. -/
theorem mapAllTags_wellFormed (positive : 0 < length) (wf : WellFormed tags) :
    WellFormed (tags.mapAllTags offset length) := by
  refine wf.flatMap _ ?_ ?_
  · intro r member piece made
    exact (mapRegion_pieceOf _ _ (by omega) r piece (wf.positive r member) made).1
  · intro r member
    unfold mapRegion
    split_ifs <;> simp

/-- A region that lies in the copied range only moves. -/
theorem copyRegion_of_within (sourceOffset offset length : Nat) (r : RegionTag Tag)
    (within : r.span.Within ⟨sourceOffset, sourceOffset + length⟩) :
    copyRegion sourceOffset offset length r =
      ⟨r.offset + offset - sourceOffset, r.length, r.tag⟩ := by
  obtain ⟨starts, stops⟩ := within
  simp only [RegionTag.span_start, RegionTag.span_stop] at starts stops
  have not_before : ¬r.offset < sourceOffset := by omega
  have not_behind : ¬r.getEndOffset > sourceOffset + length := not_lt.mpr stops
  simp only [copyRegion, if_neg not_before, if_neg not_behind]
  rw [RegionTag.getEndOffset, Nat.add_sub_cancel_left]

theorem copyTags_wellFormed (source : RegionTags Tag)
    (sourceOffset offset length : Nat) (positive : 0 < length) (wf : WellFormed tags)
    (wf_source : WellFormed source) :
    WellFormed (tags.copyTags sorting source sourceOffset offset length) := by
  have within : ∀ r ∈ source.mapAllTags sourceOffset length,
      r.span.Within ⟨sourceOffset, sourceOffset + length⟩ := by
    intro r member
    obtain ⟨r', from_r', made⟩ := List.mem_flatMap.mp member
    exact (mapRegion_pieceOf _ _ (by omega) r' r (wf_source.positive r' from_r') made).2
  have read := mapAllTags_wellFormed source sourceOffset length positive wf_source
  refine (clearTags_wellFormed sorting tags offset length wf).append ⟨?_, ?_⟩ ?_
  · intro added member
    obtain ⟨r, from_r, rfl⟩ := List.mem_map.mp member
    rw [copyRegion_of_within _ _ _ r (within r from_r)]
    exact read.positive r from_r
  · refine List.pairwise_map.mpr (read.separate.imp_of_mem ?_)
    intro r r' member member' separated
    have left := within r member
    have right := within r' member'
    rw [copyRegion_of_within _ _ _ r left, copyRegion_of_within _ _ _ r' right]
    intro sameType
    have apart := separated sameType
    simp only [Span.Within, Span.Apart, RegionTag.span_start, RegionTag.span_stop] at *
    omega
  · intro r member added member' _
    obtain ⟨r', from_r', rfl⟩ := List.mem_map.mp member'
    have inside := within r' from_r'
    rw [copyRegion_of_within _ _ _ r' inside]
    have apart := clearTags_apart sorting tags offset length wf r member
    simp only [Span.Within, Span.Apart, RegionTag.span_start, RegionTag.span_stop] at *
    omega

theorem moveTags_ok (shift : Int) (moved : tags.moveTags shift = .ok tags') :
    tags' = tags.map (fun r => r.setOffset (r.offset + shift).toNat) ∧
      ∀ r ∈ tags, 0 ≤ r.offset + shift := by
  induction tags generalizing tags' with
  | nil =>
    cases moved
    simp
  | cons r rest ih =>
    simp only [moveTags, List.mapM_cons] at moved ih
    by_cases negative : r.offset + shift < 0
    · rw [if_pos negative] at moved
      cases moved
    · rw [if_neg negative] at moved
      cases h : rest.mapM fun r : RegionTag Tag =>
          if r.offset + shift < 0 then Except.error "offset >= b(0)"
          else .ok (r.setOffset (r.offset + shift).toNat) with
      | error text =>
        rw [h] at moved
        cases moved
      | ok rest' =>
        rw [h] at moved
        obtain ⟨rfl, nonneg⟩ := ih rest' h
        cases moved
        refine ⟨rfl, ?_⟩
        simpa using ⟨by omega, nonneg⟩

theorem moveTags_wellFormed (shift : Int)
    (moved : tags.moveTags shift = .ok tags') (wf : WellFormed tags) : WellFormed tags' := by
  obtain ⟨rfl, nonneg⟩ := moveTags_ok tags tags' shift moved
  constructor
  · simpa using wf.positive
  · refine List.pairwise_map.mpr (wf.separate.imp_of_mem ?_)
    intro r r' member member' separated sameType
    simp only [RegionTag.typeid_setOffset] at sameType
    have apart := separated sameType
    have left := nonneg r member
    have right := nonneg r' member'
    simp only [Span.Apart, RegionTag.span_start, RegionTag.span_stop,
      RegionTag.setOffset_offset, RegionTag.setOffset_length] at *
    omega

variable [DecidableEq T]

/-! ### Lookup -/

/-- A lookup that succeeds without a tag has met no tag of the type in the region. -/
theorem getTagIndex_none (offset length : Nat) (tags : RegionTags Tag)
    (found : tags.getTagIndex typeInfo offset length = .ok none) (r : RegionTag Tag)
    (member : r ∈ tags) (type : typeid r.tag = typeInfo) :
    r.span.Apart ⟨offset, offset + length⟩ := by
  induction tags with
  | nil => cases member
  | cons head rest ih =>
    unfold getTagIndex at found
    split at found
    next skipped =>
      have inRest : getTagIndex typeInfo offset length rest = .ok none := by
        cases h : getTagIndex typeInfo offset length rest with
        | error text => rw [h] at found; cases found
        | ok index =>
          rw [h] at found
          cases index with
          | none => rfl
          | some i => cases found
      rcases List.mem_cons.mp member with rfl | later
      · rcases skipped with otherType | missed
        · exact absurd type.symm otherType
        · exact (r.misses_iff _ _).mp missed
      · exact ih inRest later
    next hit => split at found <;> cases found

/-- An index that is found points to a tag of the type and region asked for. -/
theorem getTagIndex_some (offset length : Nat) (tags : RegionTags Tag)
    (index : Nat) (found : tags.getTagIndex typeInfo offset length = .ok (some index)) :
    ∃ r, tags[index]? = some r ∧ typeid r.tag = typeInfo ∧ r.offset = offset ∧
      r.length = length := by
  induction tags generalizing index with
  | nil => cases found
  | cons head rest ih =>
    unfold getTagIndex at found
    split at found
    next skipped =>
      cases h : getTagIndex typeInfo offset length rest with
      | error text =>
        rw [h] at found
        cases found
      | ok inner =>
        rw [h] at found
        cases inner with
        | none => cases found
        | some i =>
          cases found
          simpa using ih i h
    next hit =>
      split at found
      next exact_ =>
        cases found
        have type : typeInfo = typeid head.tag := not_not.mp fun other => hit (.inl other)
        exact ⟨head, rfl, type.symm, exact_.1, exact_.2⟩
      next => cases found

/-- A tag added behind a lookup that found none keeps the types apart. -/
theorem wellFormed_push (positive : 0 < length) (wf : WellFormed tags)
    (found : tags.getTagIndex (typeid created) offset length = .ok none) :
    WellFormed (tags ++ [⟨offset, length, created⟩]) := by
  refine wf.append (.singleton positive) ?_
  intro r member r' last sameType
  rw [List.mem_singleton.mp last] at sameType ⊢
  exact getTagIndex_none (typeid created) offset length tags found r member sameType

theorem addTag_wellFormed (positive : 0 < length) (wf : WellFormed tags)
    (added : tags.addTag offset length created = .ok tags') : WellFormed tags' := by
  unfold addTag at added
  cases found : tags.getTagIndex (typeid created) offset length with
  | error text =>
    rw [found] at added
    cases added
  | ok index =>
    rw [found] at added
    cases index with
    | some i => cases added
    | none =>
      cases added
      exact wellFormed_push tags offset length created positive wf found

theorem addTagIfAbsent_wellFormed (positive : 0 < length) (wf : WellFormed tags)
    (added : tags.addTagIfAbsent offset length created = .ok tags') : WellFormed tags' := by
  unfold addTagIfAbsent at added
  cases found : tags.getTagIndex (typeid created) offset length with
  | error text =>
    rw [found] at added
    cases added
  | ok index =>
    rw [found] at added
    cases index with
    | some i =>
      cases added
      exact wf
    | none =>
      cases added
      exact wellFormed_push tags offset length created positive wf found

theorem removeTag_wellFormed (offset length : Nat)
    (wf : WellFormed tags) (removed : tags.removeTag typeInfo offset length = .ok tags') :
    WellFormed tags' := by
  unfold removeTag at removed
  cases found : tags.getTagIndex typeInfo offset length with
  | error text =>
    rw [found] at removed
    cases removed
  | ok index =>
    rw [found] at removed
    cases index with
    | none => cases removed
    | some i =>
      cases removed
      exact wf.sublist (List.eraseIdx_sublist tags i)

theorem updateTag_wellFormed (updated : Tag)
    (wf : WellFormed tags) (ok : tags.updateTag offset length updated = .ok tags') :
    WellFormed tags' := by
  unfold updateTag at ok
  cases found : tags.getTagIndex (typeid updated) offset length with
  | error text =>
    rw [found] at ok
    cases ok
  | ok index =>
    rw [found] at ok
    cases index with
    | none => cases ok
    | some i =>
      cases ok
      obtain ⟨r, at_i, type, -⟩ := getTagIndex_some (typeid updated) offset length tags i found
      refine wf.of_regions (List.ext_getElem? fun j => ?_)
      simp only [List.getElem?_map, List.getElem?_modify]
      split
      next same =>
        subst same
        simp [at_i, type]
      next => simp

end RegionTags
end Inet.Packet
