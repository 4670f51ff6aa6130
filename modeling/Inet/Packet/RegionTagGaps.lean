import Inet.Packet.RegionTagSeparate

/-!
# Filling the gaps between tags

`addTagsWhereAbsent` splits the tags of the type at both ends of the range and sweeps over
the vector once. The sweep finds exactly the gaps where the tags of the type come in order
of their offsets, and then every position of the range ends up with one tag of the type.
-/
namespace Inet.Packet

open Lib

variable {T Tag : Type} [DecidableEq T] [TagBase T Tag]
variable (sorting : TagSort Tag) (offset : Nat) {r : RegionTag Tag} {tags : RegionTags Tag}
  {typeInfo : T} {endOffset o length : Nat} {created : Tag}

/-- The vector holds the tags of the type in order of their offsets. -/
def InOrder (typeInfo : T) (tags : RegionTags Tag) : Prop :=
  tags.Pairwise fun r r' =>
    typeid r.tag = typeInfo → typeid r'.tag = typeInfo → r.offset ≤ r'.offset

instance (typeInfo : T) (tags : RegionTags Tag) : Decidable (InOrder typeInfo tags) :=
  inferInstanceAs (Decidable (tags.Pairwise _))

namespace RegionTags

/-! ### Splitting -/

theorem straddles_iff (typeInfo : T) (offset : Nat) (r : RegionTag Tag) :
    straddles typeInfo offset r = true ↔
      typeid r.tag = typeInfo ∧ r.offset < offset ∧ offset < r.offset + r.length := by
  simp only [straddles, Bool.and_eq_true, decide_eq_true_eq, and_assoc]
  rw [eq_comm, RegionTag.getEndOffset]

/-- The parts `splitTags` leaves of one region. -/
def splitRegion (typeInfo : T) (offset : Nat) (r : RegionTag Tag) : RegionTags Tag :=
  if straddles typeInfo offset r then
    [r.setLength (offset - r.offset), (r.setOffset offset).setLength (r.getEndOffset - offset)]
  else [r]

/-- The parts left of a region that is split at both ends of a range. -/
def splitParts (typeInfo : T) (offset length : Nat) (r : RegionTag Tag) : RegionTags Tag :=
  (splitRegion typeInfo offset r).flatMap (splitRegion typeInfo (offset + length))

/-- Splitting the tags of a type is splitting those the test for the type holds of. -/
theorem splitTags_perm (typeInfo : T) (offset : Nat) (tags : RegionTags Tag) :
    (tags.splitTags sorting typeInfo offset).Perm (tags.flatMap (splitRegion typeInfo offset)) :=
  splitTagsWhere_perm sorting (fun tag => decide (typeInfo = typeid tag)) offset tags

theorem splitRegion_cutsOut (positive : 0 < r.length) (type : typeid r.tag = typeInfo) :
    CutsOut ⟨offset, offset⟩ r (splitRegion typeInfo offset r) :=
  splitRegionWhere_cutsOut (fun tag => decide (typeInfo = typeid tag)) offset r positive
    (by simpa using type.symm)

theorem splitRegion_of_other
    (type : typeid r.tag ≠ typeInfo) : splitRegion typeInfo offset r = [r] := by
  have whole : ¬straddles typeInfo offset r = true := fun straddling =>
    type ((straddles_iff typeInfo offset r).mp straddling).1
  exact if_neg whole

theorem splitTags_wellFormed (typeInfo : T) (offset : Nat) (wf : WellFormed tags) :
    WellFormed (tags.splitTags sorting typeInfo offset) := by
  refine .perm (splitTags_perm sorting typeInfo offset tags) (wf.flatMap _ ?_ ?_)
  · intro r member piece made
    by_cases type : typeid r.tag = typeInfo
    · exact (splitRegion_cutsOut offset (wf.positive r member) type).pieceOf piece made
    · rw [splitRegion_of_other offset type, List.mem_singleton] at made
      rw [made]
      exact ⟨rfl, .refl _, wf.positive r member⟩
  · intro r member
    by_cases type : typeid r.tag = typeInfo
    · exact (splitRegion_cutsOut offset (wf.positive r member) type).apart le_rfl
    · rw [splitRegion_of_other offset type]
      exact List.pairwise_singleton _ _

theorem splitEnds_perm (typeInfo : T) (tags : RegionTags Tag) (offset length : Nat) :
    (tags.splitEnds sorting typeInfo offset length).Perm
      (tags.flatMap (splitParts typeInfo offset length)) := by
  have second := splitTags_perm sorting typeInfo (offset + length)
    (tags.splitTags sorting typeInfo offset)
  have first := splitTags_perm sorting typeInfo offset tags
  refine second.trans ((first.flatMap_right _).trans ?_)
  rw [List.flatMap_assoc]
  rfl

theorem splitEnds_wellFormed (typeInfo : T) (offset length : Nat) (wf : WellFormed tags) :
    WellFormed (tags.splitEnds sorting typeInfo offset length) :=
  splitTags_wellFormed sorting typeInfo (offset + length)
    (splitTags_wellFormed sorting typeInfo offset wf)

/-! ### The sweep -/

/-- The gap before a tag, as the sweep fills it. -/
def gapBefore (o endOffset : Nat) (r : RegionTag Tag) : RegionTags Tag :=
  if o < r.offset then [⟨o, min r.offset endOffset - o, r.tag⟩] else []

theorem mem_gapBefore (o endOffset : Nat) (r added : RegionTag Tag) :
    added ∈ gapBefore o endOffset r ↔
      o < r.offset ∧ added = ⟨o, min r.offset endOffset - o, r.tag⟩ := by
  simp [gapBefore]

theorem sweepTags_cons
    (rest : RegionTags Tag) (type : typeid r.tag = typeInfo) (open_ : o < endOffset) :
    sweepTags typeInfo endOffset (r :: rest) o =
      if endOffset ≤ max o r.getEndOffset then
        (gapBefore o endOffset r, max o r.getEndOffset)
      else
        (gapBefore o endOffset r ++
            (sweepTags typeInfo endOffset rest (max o r.getEndOffset)).1,
          (sweepTags typeInfo endOffset rest (max o r.getEndOffset)).2) := by
  have length_eq : min (r.offset - o) (endOffset - o) = min r.offset endOffset - o := by omega
  have added_eq : (if 0 < r.offset - o then
      [(⟨o, min (r.offset - o) (endOffset - o), r.tag⟩ : RegionTag Tag)] else []) =
      gapBefore o endOffset r := by
    simp only [gapBefore, length_eq, Nat.sub_pos_iff_lt]
  have offset_eq :
      (if r.getEndOffset >
          (if 0 < r.offset - o then o + min (r.offset - o) (endOffset - o) else o) then
        r.getEndOffset
      else if 0 < r.offset - o then o + min (r.offset - o) (endOffset - o) else o) =
      max o r.getEndOffset := by
    simp only [RegionTag.getEndOffset]
    split_ifs <;> omega
  rw [sweepTags, if_pos type.symm]
  simp only [added_eq, offset_eq]

/-- What a sweep from `o` has found when it stops at `last`. -/
structure SweptTo (typeInfo : T) (tags : RegionTags Tag) (o endOffset : Nat)
    (added : RegionTags Tag) (last : Nat) : Prop where
  advanced : o ≤ last
  positive : ∀ r ∈ added, 0 < r.length
  starts : ∀ r ∈ added, o ≤ r.offset
  stops : ∀ r ∈ added, r.offset + r.length ≤ min endOffset last
  separate : added.Pairwise fun x y => x.span.Apart y.span
  apart : ∀ r ∈ added, ∀ t ∈ tags, typeid t.tag = typeInfo → r.span.Apart t.span
  copied : ∀ r ∈ added, ∃ t ∈ tags, typeid t.tag = typeInfo ∧ r.tag = t.tag ∧
    r.offset + r.length ≤ t.offset
  covered : ∀ p, o ≤ p → p < min endOffset last →
    (∃ r ∈ added, p ∈ r.span) ∨ ∃ t ∈ tags, typeid t.tag = typeInfo ∧ p ∈ t.span
  passed : last < endOffset → ∀ t ∈ tags, typeid t.tag = typeInfo →
    t.offset + t.length ≤ last

omit [DecidableEq T] in
theorem SweptTo.skip {last : Nat}
    {added : RegionTags Tag} (swept : SweptTo typeInfo tags o endOffset added last)
    (other : typeid r.tag ≠ typeInfo) :
    SweptTo typeInfo (r :: tags) o endOffset added last where
  advanced := swept.advanced
  positive := swept.positive
  starts := swept.starts
  stops := swept.stops
  separate := swept.separate
  apart x member t member' type := by
    rcases List.mem_cons.mp member' with rfl | later
    · exact absurd type other
    · exact swept.apart x member t later type
  copied x member := by
    obtain ⟨t, member', facts⟩ := swept.copied x member
    exact ⟨t, List.mem_cons_of_mem r member', facts⟩
  covered p from_o before := by
    rcases swept.covered p from_o before with filled | ⟨t, member, facts⟩
    · exact .inl filled
    · exact .inr ⟨t, List.mem_cons_of_mem r member, facts⟩
  passed short t member type := by
    rcases List.mem_cons.mp member with rfl | later
    · exact absurd type other
    · exact swept.passed short t later type

omit [DecidableEq T] in
/-- A tag that reaches the end of the range stops the sweep. -/
theorem sweptTo_last {rest : RegionTags Tag}
    (type : typeid r.tag = typeInfo) (open_ : o < endOffset)
    (behind : ∀ t ∈ rest, typeid t.tag = typeInfo → r.offset ≤ t.offset)
    (reached : endOffset ≤ max o r.getEndOffset) :
    SweptTo typeInfo (r :: rest) o endOffset (gapBefore o endOffset r)
      (max o r.getEndOffset) where
  advanced := le_max_left _ _
  positive x member := by
    obtain ⟨gap, rfl⟩ := (mem_gapBefore o endOffset r x).mp member
    show 0 < min r.offset endOffset - o
    omega
  starts x member := by
    obtain ⟨gap, rfl⟩ := (mem_gapBefore o endOffset r x).mp member
    exact le_rfl
  stops x member := by
    obtain ⟨gap, rfl⟩ := (mem_gapBefore o endOffset r x).mp member
    show o + (min r.offset endOffset - o) ≤ min endOffset (max o r.getEndOffset)
    omega
  separate := by
    unfold gapBefore
    split <;> simp
  apart x member t member' type' := by
    obtain ⟨gap, rfl⟩ := (mem_gapBefore o endOffset r x).mp member
    have ordered : r.offset ≤ t.offset := by
      rcases List.mem_cons.mp member' with rfl | later
      · exact le_rfl
      · exact behind t later type'
    left
    show o + (min r.offset endOffset - o) ≤ t.offset
    omega
  copied x member := by
    obtain ⟨gap, rfl⟩ := (mem_gapBefore o endOffset r x).mp member
    refine ⟨r, List.mem_cons_self, type, rfl, ?_⟩
    show o + (min r.offset endOffset - o) ≤ r.offset
    omega
  covered p from_o before := by
    by_cases hit : r.offset ≤ p
    · right
      refine ⟨r, List.mem_cons_self, type, hit, ?_⟩
      simp only [RegionTag.span_stop, RegionTag.getEndOffset] at *
      omega
    · left
      refine ⟨_, (mem_gapBefore o endOffset r _).mpr ⟨by omega, rfl⟩, from_o, ?_⟩
      show p < o + (min r.offset endOffset - o)
      omega
  passed short := by omega

omit [DecidableEq T] in
/-- Before the end of the range the sweep goes on behind the tag. -/
theorem SweptTo.cons {rest : RegionTags Tag} {last : Nat}
    {more : RegionTags Tag} (positive : 0 < r.length) (type : typeid r.tag = typeInfo)
    (behind : ∀ t ∈ rest, typeid t.tag = typeInfo → r.offset ≤ t.offset)
    (open_ : max o r.getEndOffset < endOffset)
    (swept : SweptTo typeInfo rest (max o r.getEndOffset) endOffset more last) :
    SweptTo typeInfo (r :: rest) o endOffset (gapBefore o endOffset r ++ more) last := by
  have advanced := swept.advanced
  have end_eq : r.getEndOffset = r.offset + r.length := rfl
  have gap_spec : ∀ x ∈ gapBefore o endOffset r, o < r.offset ∧ x.offset = o ∧
      x.offset + x.length = r.offset ∧ x.tag = r.tag := by
    intro x member
    obtain ⟨gap, rfl⟩ := (mem_gapBefore o endOffset r x).mp member
    refine ⟨gap, rfl, ?_, rfl⟩
    show o + (min r.offset endOffset - o) = r.offset
    omega
  constructor
  case advanced => omega
  case positive =>
    intro x member
    rcases List.mem_append.mp member with gap | later
    · have := gap_spec x gap
      omega
    · exact swept.positive x later
  case starts =>
    intro x member
    rcases List.mem_append.mp member with gap | later
    · have := gap_spec x gap
      omega
    · have := swept.starts x later
      omega
  case stops =>
    intro x member
    rcases List.mem_append.mp member with gap | later
    · have := gap_spec x gap
      omega
    · exact swept.stops x later
  case separate =>
    refine List.pairwise_append.mpr ⟨?_, swept.separate, ?_⟩
    · unfold gapBefore
      split <;> simp
    · intro x gap y later
      have first := gap_spec x gap
      have second := swept.starts y later
      left
      show x.offset + x.length ≤ y.offset
      omega
  case apart =>
    intro x member t member' type'
    rcases List.mem_append.mp member with gap | later
    · have first := gap_spec x gap
      have ordered : r.offset ≤ t.offset := by
        rcases List.mem_cons.mp member' with rfl | later
        · exact le_rfl
        · exact behind t later type'
      left
      show x.offset + x.length ≤ t.offset
      omega
    · rcases List.mem_cons.mp member' with rfl | in_rest
      · have second := swept.starts x later
        right
        show t.offset + t.length ≤ x.offset
        omega
      · exact swept.apart x later t in_rest type'
  case copied =>
    intro x member
    rcases List.mem_append.mp member with gap | later
    · have first := gap_spec x gap
      exact ⟨r, List.mem_cons_self, type, first.2.2.2, by omega⟩
    · obtain ⟨t, in_rest, facts⟩ := swept.copied x later
      exact ⟨t, List.mem_cons_of_mem r in_rest, facts⟩
  case covered =>
    intro p from_o before
    by_cases gap : p < r.offset
    · left
      refine ⟨_, List.mem_append_left _ ((mem_gapBefore o endOffset r _).mpr
        ⟨by omega, rfl⟩), from_o, ?_⟩
      show p < o + (min r.offset endOffset - o)
      omega
    by_cases hit : p < r.offset + r.length
    · exact .inr ⟨r, List.mem_cons_self, type, by show r.offset ≤ p; omega, hit⟩
    rcases swept.covered p (by omega) before with ⟨x, later, inside⟩ | ⟨t, in_rest, facts⟩
    · exact .inl ⟨x, List.mem_append_right _ later, inside⟩
    · exact .inr ⟨t, List.mem_cons_of_mem r in_rest, facts⟩
  case passed =>
    intro short t member type'
    rcases List.mem_cons.mp member with rfl | in_rest
    · omega
    · exact swept.passed short t in_rest type'

theorem sweepTags_sweptTo (endOffset : Nat) (o : Nat)
    (open_ : o < endOffset) (positive : ∀ r ∈ tags, 0 < r.length)
    (ordered : InOrder typeInfo tags) :
    SweptTo typeInfo tags o endOffset (sweepTags typeInfo endOffset tags o).1
      (sweepTags typeInfo endOffset tags o).2 := by
  induction tags generalizing o with
  | nil =>
    constructor <;> simp [sweepTags]
    omega
  | cons r rest ih =>
    obtain ⟨first, others⟩ := List.pairwise_cons.mp ordered
    have positive_rest : ∀ t ∈ rest, 0 < t.length := fun t member =>
      positive t (List.mem_cons_of_mem r member)
    by_cases type : typeid r.tag = typeInfo
    · have behind : ∀ t ∈ rest, typeid t.tag = typeInfo → r.offset ≤ t.offset :=
        fun t member type' => first t member type type'
      rw [sweepTags_cons rest type open_]
      split
      next reached =>
        exact sweptTo_last type open_ behind reached
      next short =>
        exact .cons (positive r List.mem_cons_self) type behind (by omega)
          (ih _ (by omega) positive_rest others)
    · have skipped : sweepTags typeInfo endOffset (r :: rest) o =
          sweepTags typeInfo endOffset rest o := by
        rw [sweepTags, if_neg (Ne.symm type)]
      rw [skipped]
      exact (ih o open_ positive_rest others).skip type

/-! ### The gaps -/

/-- What the added regions are to the tags of the type they are added to. -/
structure Gaps (tags : RegionTags Tag) (offset length : Nat) (created : Tag)
    (result : RegionTags Tag) : Prop where
  type : ∀ r ∈ result, typeid r.tag = typeid created
  positive : ∀ r ∈ result, 0 < r.length
  within : ∀ r ∈ result, r.span.Within ⟨offset, offset + length⟩
  separate : result.Pairwise fun x y => x.span.Apart y.span
  apart : ∀ r ∈ result, ∀ t ∈ tags, typeid t.tag = typeid created → r.span.Apart t.span
  covered : ∀ p ∈ (⟨offset, offset + length⟩ : Span Nat),
    (∃ r ∈ result, p ∈ r.span) ∨ ∃ t ∈ tags, typeid t.tag = typeid created ∧ p ∈ t.span
  fresh : ∀ r ∈ result, (∀ t ∈ tags, typeid t.tag = typeid created →
    t.offset < r.offset + r.length) → r.tag = created

theorem absentTags_gaps
    (positive : 0 < length) (wf : WellFormed tags) (ordered : InOrder (typeid created) tags) :
    Gaps tags offset length created (tags.absentTags offset length created) := by
  have swept := sweepTags_sweptTo (offset + length) offset (by omega) wf.positive ordered
  unfold absentTags
  simp only
  generalize (sweepTags (typeid created) (offset + length) tags offset).1 = added at swept
  generalize (sweepTags (typeid created) (offset + length) tags offset).2 = o at swept
  have advanced := swept.advanced
  have type : ∀ r ∈ added, typeid r.tag = typeid created := by
    intro r member
    obtain ⟨t, _, same, copied, _⟩ := swept.copied r member
    rw [copied, same]
  have not_behind : ∀ r ∈ added, (∀ t ∈ tags, typeid t.tag = typeid created →
      t.offset < r.offset + r.length) → r.tag = created := by
    intro r member none_behind
    obtain ⟨t, in_tags, same, _, behind⟩ := swept.copied r member
    exact absurd (none_behind t in_tags same) (not_lt.mpr behind)
  have within : ∀ r ∈ added, r.span.Within ⟨offset, offset + length⟩ := by
    intro r member
    have starts := swept.starts r member
    have stops := swept.stops r member
    exact ⟨starts, by show r.offset + r.length ≤ offset + length; omega⟩
  split
  next rest_left =>
    have stopped : ∀ r ∈ added, r.offset + r.length ≤ o := by
      intro r member
      have := swept.stops r member
      omega
    constructor
    case type => simpa [or_imp, forall_and] using type
    case positive => simpa [or_imp, forall_and, rest_left] using swept.positive
    case within =>
      intro r member
      rcases List.mem_append.mp member with found | last
      · exact within r found
      · obtain rfl := List.mem_singleton.mp last
        exact ⟨advanced, by show o + (offset + length - o) ≤ offset + length; omega⟩
    case separate =>
      refine List.pairwise_append.mpr ⟨swept.separate, List.pairwise_singleton _ _, ?_⟩
      intro x member y last
      obtain rfl := List.mem_singleton.mp last
      exact .inl (stopped x member)
    case apart =>
      intro x member t in_tags same
      rcases List.mem_append.mp member with found | last
      · exact swept.apart x found t in_tags same
      · obtain rfl := List.mem_singleton.mp last
        exact .inr (swept.passed (by omega) t in_tags same)
    case covered =>
      intro p inside
      by_cases before : p < o
      · rcases swept.covered p inside.1 (lt_min inside.2 before) with ⟨x, found, at_p⟩ | taken
        · exact .inl ⟨x, List.mem_append_left _ found, at_p⟩
        · exact .inr taken
      · have stop : p < offset + length := inside.2
        refine .inl ⟨_, List.mem_append_right _ (List.mem_singleton_self _), not_lt.mp before, ?_⟩
        show p < o + (offset + length - o)
        omega
    case fresh => simpa [or_imp, forall_and] using not_behind
  next full =>
    constructor
    case type => exact type
    case positive => exact swept.positive
    case within => exact within
    case separate => exact swept.separate
    case apart => exact swept.apart
    case covered =>
      intro p inside
      have stop : p < offset + length := inside.2
      exact swept.covered p inside.1 (lt_min inside.2 (by omega))
    case fresh => exact not_behind

/-! ### The tags of a range -/

/-- A position that is covered once by a well-formed vector is covered by one tag only. -/
theorem covered_once (wf : WellFormed tags) (typeInfo : T) (p : Nat)
    (covered : ∃ r ∈ tags, typeid r.tag = typeInfo ∧ p ∈ r.span) :
    (tags.filter fun r => typeid r.tag = typeInfo ∧ p ∈ r.span).length = 1 := by
  have none_two : (tags.filter fun r => typeid r.tag = typeInfo ∧ p ∈ r.span).Pairwise
      fun _ _ => False := by
    refine List.pairwise_filter.mpr (wf.separate.imp ?_)
    intro r r' separated at_r at_r'
    simp only [decide_eq_true_eq] at at_r at_r'
    exact (separated (at_r.1.trans at_r'.1.symm)).not_mem at_r.2 at_r'.2
  obtain ⟨r, member, facts⟩ := covered
  have found : r ∈ tags.filter fun r => typeid r.tag = typeInfo ∧ p ∈ r.span := by
    simp [member, facts]
  generalize (tags.filter fun r => typeid r.tag = typeInfo ∧ p ∈ r.span) = at_p
    at none_two found ⊢
  match at_p with
  | [] => cases found
  | [_] => rfl
  | _ :: y :: _ => exact ((List.pairwise_cons.mp none_two).1 y List.mem_cons_self).elim

/-- The parts of a tag of the type hold its positions and lie within it. -/
theorem splitParts_spec (typeInfo : T) (offset length : Nat)
    (positive : 0 < r.length) (type : typeid r.tag = typeInfo) :
    (∀ part ∈ splitParts typeInfo offset length r, PieceOf r part) ∧
      ∀ p ∈ r.span, ∃ part ∈ splitParts typeInfo offset length r, p ∈ part.span := by
  have first := splitRegion_cutsOut offset positive type
  have second : ∀ x ∈ splitRegion typeInfo offset r,
      CutsOut ⟨offset + length, offset + length⟩ x
        (splitRegion typeInfo (offset + length) x) := by
    intro x member
    have piece := first.pieceOf x member
    exact splitRegion_cutsOut (offset + length) piece.positive (piece.type.trans type)
  have empty_cut : ∀ p o : Nat, p ∉ (⟨o, o⟩ : Span Nat) := fun p o inside =>
    absurd (inside.1.trans_lt inside.2) (lt_irrefl o)
  constructor
  · intro part member
    obtain ⟨x, in_first, made⟩ := List.mem_flatMap.mp member
    have outer := first.pieceOf x in_first
    have inner := (second x in_first).pieceOf part made
    exact ⟨inner.type.trans outer.type, inner.within.trans outer.within, inner.positive⟩
  · intro p inside
    obtain ⟨x, in_first, at_x⟩ := (first.mem_iff p).mpr ⟨inside, empty_cut p _⟩
    obtain ⟨part, made, at_part⟩ := ((second x in_first).mem_iff p).mpr ⟨at_x, empty_cut p _⟩
    exact ⟨part, List.mem_flatMap.mpr ⟨x, in_first, made⟩, at_part⟩

/-- A tag that straddles neither end stays as it is. -/
theorem splitParts_of_whole (typeInfo : T) (offset length : Nat) (r : RegionTag Tag)
    (whole : ¬straddles typeInfo offset r = true)
    (whole' : ¬straddles typeInfo (offset + length) r = true) :
    splitParts typeInfo offset length r = [r] := by
  simp [splitParts, splitRegion, whole, whole']

theorem splitParts_of_other (length : Nat)
    (type : typeid r.tag ≠ typeInfo) : splitParts typeInfo offset length r = [r] :=
  splitParts_of_whole typeInfo offset length r
    (fun straddling => type ((straddles_iff _ _ r).mp straddling).1)
    (fun straddling => type ((straddles_iff _ _ r).mp straddling).1)

/-- What `addTagsWhereAbsent` makes of a vector: the former tags, the ones of the type split
at the two ends, and new tags for the positions that had none. -/
structure FillsGaps (tags : RegionTags Tag) (offset length : Nat) (created : Tag)
    (outcome : RegionTags Tag × RegionTags Tag) : Prop where
  contents : outcome.1.Perm
    (tags.flatMap (splitParts (typeid created) offset length) ++ outcome.2)
  kept : ∀ r ∈ tags, (typeid r.tag = typeid created →
      ¬(r.offset < offset ∧ offset < r.offset + r.length) ∧
      ¬(r.offset < offset + length ∧ offset + length < r.offset + r.length)) →
    r ∈ outcome.1
  covered : ∀ p ∈ (⟨offset, offset + length⟩ : Span Nat),
    (outcome.1.filter fun r => typeid r.tag = typeid created ∧ p ∈ r.span).length = 1
  added : ∀ r ∈ outcome.2, typeid r.tag = typeid created ∧
    r.span.Within ⟨offset, offset + length⟩ ∧
    ∀ t ∈ tags, typeid t.tag = typeid created → r.span.Apart t.span
  fresh : ∀ r ∈ outcome.2, ∀ p ∈ r.span,
    (∀ t ∈ tags, typeid t.tag = typeid created → t.offset ≤ p) → r.tag = created

theorem addTagsWhereAbsent_perm (tags : RegionTags Tag) (offset length : Nat) (created : Tag) :
    (tags.addTagsWhereAbsent sorting offset length created).1.Perm
      (tags.splitEnds sorting (typeid created) offset length ++
        (tags.addTagsWhereAbsent sorting offset length created).2) := by
  unfold addTagsWhereAbsent
  simp only
  split
  next nothing => rw [List.isEmpty_iff.mp nothing, List.append_nil]
  next => exact sorting.perm _

theorem addTagsWhereAbsent_wellFormed {sorting : TagSort Tag} (tags : RegionTags Tag)
    {offset : Nat} (positive : 0 < length) (wf : WellFormed tags)
    (ordered : InOrder (typeid created) (tags.splitEnds sorting (typeid created) offset length)) :
    WellFormed (tags.addTagsWhereAbsent sorting offset length created).1 := by
  have wf_split := splitEnds_wellFormed sorting (typeid created) offset length wf
  have gaps := absentTags_gaps offset positive wf_split ordered
  refine .perm (addTagsWhereAbsent_perm sorting tags offset length created) ?_
  refine wf_split.append ⟨gaps.positive, gaps.separate.imp fun apart => fun _ => apart⟩ ?_
  intro t in_tags r member sameType
  exact (gaps.apart r member t in_tags (sameType.trans (gaps.type r member))).symm

theorem addTagsWhereAbsent_fillsGaps {sorting : TagSort Tag} (tags : RegionTags Tag)
    {offset : Nat} (positive : 0 < length) (wf : WellFormed tags)
    (ordered : InOrder (typeid created) (tags.splitEnds sorting (typeid created) offset length)) :
    FillsGaps tags offset length created
      (tags.addTagsWhereAbsent sorting offset length created) := by
  have wf_split := splitEnds_wellFormed sorting (typeid created) offset length wf
  have gaps := absentTags_gaps offset positive wf_split ordered
  have perm := addTagsWhereAbsent_perm sorting tags offset length created
  have parts := splitEnds_perm sorting (typeid created) tags offset length
  have parts_of := fun t (member : t ∈ tags) =>
    splitParts_spec (typeid created) offset length (wf.positive t member)
  have into_split : ∀ t ∈ tags, ∀ part ∈ splitParts (typeid created) offset length t,
      part ∈ tags.splitEnds sorting (typeid created) offset length := fun t member part made =>
    parts.mem_iff.mpr (List.mem_flatMap.mpr ⟨t, member, made⟩)
  constructor
  case contents => exact perm.trans (parts.append_right _)
  case kept =>
    intro r member inside
    refine perm.mem_iff.mpr (List.mem_append_left _ (into_split r member r ?_))
    by_cases type : typeid r.tag = typeid created
    · obtain ⟨at_start, at_end⟩ := inside type
      rw [splitParts_of_whole (typeid created) offset length r
        (fun straddling => at_start ((straddles_iff _ _ r).mp straddling).2)
        (fun straddling => at_end ((straddles_iff _ _ r).mp straddling).2)]
      exact List.mem_singleton_self r
    · rw [splitParts_of_other offset length type]
      exact List.mem_singleton_self r
  case covered =>
    intro p inside
    refine covered_once (addTagsWhereAbsent_wellFormed tags
      positive wf ordered) (typeid created) p ?_
    rcases gaps.covered p inside with ⟨r, filled, at_p⟩ | ⟨t, in_split, facts⟩
    · exact ⟨r, perm.mem_iff.mpr (List.mem_append_right _ filled), gaps.type r filled, at_p⟩
    · exact ⟨t, perm.mem_iff.mpr (List.mem_append_left _ in_split), facts⟩
  case added =>
    intro r member
    refine ⟨gaps.type r member, gaps.within r member, ?_⟩
    intro t in_tags type
    have r_pos : r.span.start < r.span.stop := by
      have := gaps.positive r member
      simpa using this
    have t_pos : t.span.start < t.span.stop := by
      have := wf.positive t in_tags
      simpa using this
    -- a shared position would lie in one of the parts of `t`
    rw [Span.apart_iff_disjoint r_pos t_pos, Set.disjoint_left]
    intro p at_r at_t
    obtain ⟨part, made, at_part⟩ := (parts_of t in_tags type).2 p at_t
    have part_type := ((parts_of t in_tags type).1 part made).type.trans type
    exact (gaps.apart r member part (into_split t in_tags part made) part_type).not_mem at_r at_part
  case fresh =>
    intro r member p at_p none_behind
    refine gaps.fresh r member ?_
    intro part in_split part_type
    obtain ⟨t, in_tags, made⟩ := List.mem_flatMap.mp (parts.mem_iff.mp in_split)
    by_contra behind
    have r_stop : p < r.offset + r.length := at_p.2
    by_cases type : typeid t.tag = typeid created
    · have piece := (parts_of t in_tags type).1 part made
      have starts := none_behind t in_tags type
      have stops : part.offset + part.length ≤ t.offset + t.length := piece.within.2
      have part_pos := piece.positive
      have at_t : p ∈ t.span := ⟨starts, by show p < t.offset + t.length; omega⟩
      obtain ⟨other, made', at_other⟩ := (parts_of t in_tags type).2 p at_t
      have other_type := ((parts_of t in_tags type).1 other made').type.trans type
      exact (gaps.apart r member other (into_split t in_tags other made') other_type).not_mem
        at_p at_other
    · rw [splitParts_of_other offset length type, List.mem_singleton] at made
      rw [made] at part_type
      exact type part_type

end RegionTags

/-! ### Runs -/

/-- The sets a call reads besides the one it changes. -/
def TagCall.sources : TagCall T Tag → List (RegionTags Tag)
  | .copyTags source _ _ _ => [source]
  | _ => []

def TagCall.Positive : TagCall T Tag → Prop
  | .addTag _ length _ => 0 < length
  | .addTagIfAbsent _ length _ => 0 < length
  | .addTagsWhereAbsent _ length _ => 0 < length
  | .updateTag _ length _ => 0 < length
  | .removeTag _ _ length => 0 < length
  | .clearTags _ length => 0 < length
  | .copyTags _ _ _ length => 0 < length
  | .moveTags _ => True

/-- The sweep of `addTagsWhereAbsent` finds the tags of its type in order. -/
def TagCall.SweepsInOrder (sorting : TagSort Tag) (tags : RegionTags Tag) :
    TagCall T Tag → Prop
  | .addTagsWhereAbsent offset length created =>
    InOrder (typeid created) (tags.splitEnds sorting (typeid created) offset length)
  | _ => True

/-- The vectors that calls with positive lengths reach from an empty set without throwing,
where each call is admitted and reads sets that are reached likewise. -/
inductive Reached (sorting : TagSort Tag) (admits : RegionTags Tag → TagCall T Tag → Prop) :
    RegionTags Tag → Prop
  | new : Reached sorting admits []
  | step {tags tags' : RegionTags Tag} (call : TagCall T Tag) (before : Reached sorting admits tags)
      (sources : ∀ source ∈ call.sources, Reached sorting admits source)
      (positive : call.Positive) (admitted : admits tags call)
      (returned : call.step sorting tags = .ok tags') : Reached sorting admits tags'

/-- One call keeps a vector well-formed, the sweep needing the order. -/
theorem TagCall.step_wellFormed {sorting : TagSort Tag} {tags' : RegionTags Tag}
    (call : TagCall T Tag) (positive : call.Positive) (wf : WellFormed tags)
    (wf_sources : ∀ source ∈ call.sources, WellFormed source)
    (inOrder : call.SweepsInOrder sorting tags)
    (returned : call.step sorting tags = .ok tags') : WellFormed tags' := by
  cases call with
  | addTag offset length created =>
    exact tags.addTag_wellFormed tags' offset length created positive wf returned
  | addTagIfAbsent offset length created =>
    exact tags.addTagIfAbsent_wellFormed tags' offset length created positive wf returned
  | addTagsWhereAbsent offset length created =>
    cases returned
    exact tags.addTagsWhereAbsent_wellFormed positive wf inOrder
  | updateTag offset length updated =>
    exact tags.updateTag_wellFormed tags' offset length updated wf returned
  | removeTag typeInfo offset length =>
    exact tags.removeTag_wellFormed tags' typeInfo offset length wf returned
  | clearTags offset length =>
    cases returned
    exact RegionTags.clearTags_wellFormed sorting tags offset length wf
  | copyTags source sourceOffset offset length =>
    cases returned
    exact tags.copyTags_wellFormed sorting source sourceOffset offset length positive wf
      (wf_sources source (List.mem_singleton_self source))
  | moveTags shift => exact tags.moveTags_wellFormed tags' shift returned wf

theorem Reached.wellFormed {sorting : TagSort Tag}
    (reached : Reached sorting (TagCall.SweepsInOrder sorting) tags) : WellFormed tags := by
  induction reached with
  | new => exact ⟨by simp, .nil⟩
  | step call before sources positive admitted returned ih ih_sources =>
    exact call.step_wellFormed positive ih ih_sources admitted returned

/-- Tags of one type never overlap, and `addTagsWhereAbsent` fills exactly the gaps. -/
theorem reached_separate_fillsGaps (sorting : TagSort Tag) (tags : RegionTags Tag)
    (reached : Reached sorting (TagCall.SweepsInOrder sorting) tags) :
    Separate tags ∧
      ∀ (offset length : Nat) (created : Tag), 0 < length →
        InOrder (typeid created) (tags.splitEnds sorting (typeid created) offset length) →
          RegionTags.FillsGaps tags offset length created
            (tags.addTagsWhereAbsent sorting offset length created) :=
  ⟨reached.wellFormed.separate, fun offset length created positive ordered =>
    tags.addTagsWhereAbsent_fillsGaps positive reached.wellFormed ordered⟩

theorem reached_separate_fillsGaps_onePresent :
    let present : RegionTags TimeOrIdentityTag := [⟨2, 2, .creationTimeTag 1⟩]
    Separate present ∧
      RegionTags.FillsGaps present 0 8 (.creationTimeTag 5)
        (present.addTagsWhereAbsent (.stable _) 0 8 (.creationTimeTag 5)) := by
  have reached : Reached (.stable TimeOrIdentityTag) (TagCall.SweepsInOrder (.stable _))
      [⟨2, 2, .creationTimeTag 1⟩] :=
    .step (.addTag 2 2 (.creationTimeTag 1)) .new (by simp [TagCall.sources])
      (by simp [TagCall.Positive]) trivial rfl
  obtain ⟨separate, fills⟩ := reached_separate_fillsGaps (.stable _) _ reached
  exact ⟨separate, fills 0 8 (.creationTimeTag 5) (by decide) (by decide)⟩

/-- Where the later region was added first, a second tag is added to the earlier one. A tag
that straddles the start of the range is cut in two. A gap before a tag gets that tag's value
and not the created one. -/
theorem addTagsWhereAbsent_overlaps_cuts_copies :
    (∃ tags : RegionTags TimeOrIdentityTag, Reached (.stable _) (fun _ _ => True) tags ∧
      tags = [⟨0, 8, .creationTimeTag 2⟩, ⟨0, 8, .creationTimeTag 1⟩, ⟨8, 8, .creationTimeTag 1⟩] ∧
      ¬Separate tags) ∧
    (∃ tags : RegionTags TimeOrIdentityTag, Reached (.stable _) (fun _ _ => True) tags ∧
      ⟨0, 16, .creationTimeTag 1⟩ ∈ tags ∧
      ⟨0, 16, .creationTimeTag 1⟩ ∉
        (tags.addTagsWhereAbsent (.stable _) 8 16 (.creationTimeTag 5)).1) ∧
    (∃ tags : RegionTags TimeOrIdentityTag, Reached (.stable _) (fun _ _ => True) tags ∧
      tags = [⟨8, 8, .creationTimeTag 1⟩] ∧
      (tags.addTagsWhereAbsent (.stable _) 0 16 (.creationTimeTag 5)).2 =
        [⟨0, 8, .creationTimeTag 1⟩]) := by
  have added : ∀ (tags tags' : RegionTags TimeOrIdentityTag) (offset length : Nat)
      (created : TimeOrIdentityTag), Reached (.stable _) (fun _ _ => True) tags → 0 < length →
      tags.addTag offset length created = .ok tags' →
      Reached (.stable _) (fun _ _ => True) tags' :=
    fun tags tags' offset length created before positive returned =>
      .step (.addTag offset length created) before (by simp [TagCall.sources]) positive trivial
        returned
  refine ⟨⟨_, ?_, rfl, by unfold Separate; decide⟩, ⟨[⟨0, 16, .creationTimeTag 1⟩], ?_, ?_, ?_⟩,
    ⟨_, ?_, rfl, rfl⟩⟩
  · have two := added _ _ 0 8 (.creationTimeTag 2)
      (added _ _ 8 8 (.creationTimeTag 1) .new (by decide) rfl) (by decide) rfl
    exact .step (.addTagsWhereAbsent 0 16 (.creationTimeTag 5)) two (by simp [TagCall.sources])
      (by simp [TagCall.Positive]) trivial rfl
  · exact added _ _ 0 16 (.creationTimeTag 1) .new (by decide) rfl
  · decide
  · decide
  · exact added _ _ 8 8 (.creationTimeTag 1) .new (by decide) rfl

end Inet.Packet
