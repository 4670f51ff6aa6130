import Inet.Lib.Span

/-!
# Region tag sets

`SharingRegionTagSet` keeps tags for regions of a packet or a chunk in a vector. The
vector is a list here, a missing vector the empty one. A set owns its vector: it becomes
shared only when a set is copied as a whole, which none of these functions does.
Offsets and lengths are natural numbers, as the assertions of `RegionTag` demand.
-/
namespace Inet.Packet

open Lib

/-- What the set uses of a tag: `typeid`, the printed type and `changeRegion`, which is
given the changes of the offset and of the length. -/
class TagBase (T : outParam Type) (Tag : Type) where
  typeid : Tag → T
  typename : T → String
  changeRegion : Tag → Int → Int → Tag
  typeid_changeRegion : ∀ tag offsetDelta lengthDelta,
    typeid (changeRegion tag offsetDelta lengthDelta) = typeid tag

export TagBase (typeid)

attribute [simp] TagBase.typeid_changeRegion

structure RegionTag (Tag : Type) where
  offset : Nat
  length : Nat
  tag : Tag
deriving DecidableEq, Repr

variable {T Tag : Type} [DecidableEq T] [TagBase T Tag]

namespace RegionTag

def getEndOffset (r : RegionTag Tag) : Nat := r.offset + r.length

def setOffset (r : RegionTag Tag) (offset : Nat) : RegionTag Tag :=
  if r.offset ≠ offset then
    { r with offset := offset, tag := TagBase.changeRegion r.tag (offset - r.offset) 0 }
  else r

def setLength (r : RegionTag Tag) (length : Nat) : RegionTag Tag :=
  if r.length ≠ length then
    { r with length := length, tag := TagBase.changeRegion r.tag 0 (length - r.length) }
  else r

/-- The test that starts every loop over the regions. -/
def misses (r : RegionTag Tag) (startOffset endOffset : Nat) : Bool :=
  endOffset ≤ r.offset || r.getEndOffset ≤ startOffset

end RegionTag

/-- The vector of a set. -/
abbrev RegionTags (Tag : Type) := List (RegionTag Tag)

/-- `std::sort` by offset, which leaves the order of equal offsets open. -/
structure TagSort (Tag : Type) where
  sort : RegionTags Tag → RegionTags Tag
  perm : ∀ tags, (sort tags).Perm tags
  sorted : ∀ tags, (sort tags).Pairwise fun r r' => r.offset ≤ r'.offset

/-- The sort that keeps tags of equal offset in their order. -/
def TagSort.stable (Tag : Type) : TagSort Tag where
  sort := List.insertionSort fun r r' => r.offset ≤ r'.offset
  perm := List.perm_insertionSort _
  sorted tags :=
    have : Std.Total fun r r' : RegionTag Tag => r.offset ≤ r'.offset :=
      ⟨fun r r' => Nat.le_total r.offset r'.offset⟩
    have : IsTrans (RegionTag Tag) fun r r' => r.offset ≤ r'.offset :=
      ⟨fun _ _ _ => Nat.le_trans⟩
    List.pairwise_insertionSort _ tags

namespace RegionTags

/-! ### Lookup -/

/-- The index of the tag with exactly this type and region. -/
def getTagIndex (typeInfo : T) (offset length : Nat) :
    RegionTags Tag → Except String (Option Nat)
  | [] => .ok none
  | r :: rest =>
    if typeInfo ≠ typeid r.tag ∨ r.misses offset (offset + length) = true then
      (getTagIndex typeInfo offset length rest).map (Option.map (· + 1))
    else if r.offset = offset ∧ r.length = length then .ok (some 0)
    else .error "Overlapping tag is present"

/-! ### Adding and removing one tag -/

/-- `addTag<T>`, given the tag that `makeShared<T>()` returns. -/
def addTag (tags : RegionTags Tag) (offset length : Nat) (created : Tag) :
    Except String (RegionTags Tag) := do
  match ← getTagIndex (typeid created) offset length tags with
  | some _ => throw ("Tag '" ++ @TagBase.typename T Tag _ (typeid created) ++ "' is present")
  | none => return tags ++ [⟨offset, length, created⟩]

/-- A tag that is there already is returned for update and keeps its value. -/
def addTagIfAbsent (tags : RegionTags Tag) (offset length : Nat) (created : Tag) :
    Except String (RegionTags Tag) := do
  match ← getTagIndex (typeid created) offset length tags with
  | some _ => return tags
  | none => return tags ++ [⟨offset, length, created⟩]

def removeTag (tags : RegionTags Tag) (typeInfo : T) (offset length : Nat) :
    Except String (RegionTags Tag) := do
  match ← getTagIndex typeInfo offset length tags with
  | none => throw ("Tag '" ++ @TagBase.typename T Tag _ typeInfo ++ "' is absent")
  | some index => return tags.eraseIdx index

/-- `getTagForUpdate<T>` and what its caller makes of the tag. -/
def updateTag (tags : RegionTags Tag) (offset length : Nat) (updated : Tag) :
    Except String (RegionTags Tag) := do
  match ← getTagIndex (typeid updated) offset length tags with
  | none => throw ("Tag '" ++ @TagBase.typename T Tag _ (typeid updated) ++ "' is absent")
  | some index => return tags.modify index fun r => { r with tag := updated }

/-! ### Clearing, copying and moving -/

/-- What one step of the loop of `clearTags` leaves of a region. -/
def clearRegion (clearStartOffset clearEndOffset : Nat) (r : RegionTag Tag) : RegionTags Tag :=
  if r.misses clearStartOffset clearEndOffset then [r]
  else if clearStartOffset ≤ r.offset ∧ r.getEndOffset ≤ clearEndOffset then []
  else if r.offset < clearStartOffset ∧ clearEndOffset < r.getEndOffset then
    let regionTag := (r.setLength (r.getEndOffset - clearEndOffset)).setOffset clearEndOffset
    let previousRegionTag :=
      (regionTag.setOffset r.offset).setLength (clearStartOffset - r.offset)
    [previousRegionTag, regionTag]
  else if r.getEndOffset ≤ clearEndOffset then [r.setLength (clearStartOffset - r.offset)]
  -- what is left starts in the cleared region, so `ASSERT(false)` is not reached
  else [(r.setLength (r.getEndOffset - clearEndOffset)).setOffset clearEndOffset]

def clearTags (sorting : TagSort Tag) (tags : RegionTags Tag) (offset length : Nat) :
    RegionTags Tag :=
  let cleared := tags.flatMap (clearRegion offset (offset + length))
  if tags.any fun r => !r.misses offset (offset + length) then sorting.sort cleared else cleared

/-- The arguments `mapAllTags` calls its function with, for one region. -/
def mapRegion (startOffset endOffset : Nat) (r : RegionTag Tag) : RegionTags Tag :=
  if r.misses startOffset endOffset then []
  else if startOffset ≤ r.offset ∧ r.getEndOffset ≤ endOffset then [r]
  else if r.offset < startOffset ∧ endOffset < r.getEndOffset then
    [⟨startOffset, endOffset - startOffset, r.tag⟩]
  else if r.getEndOffset ≤ endOffset then [⟨startOffset, r.getEndOffset - startOffset, r.tag⟩]
  else [⟨r.offset, endOffset - r.offset, r.tag⟩]

def mapAllTags (tags : RegionTags Tag) (offset length : Nat) : RegionTags Tag :=
  tags.flatMap (mapRegion offset (offset + length))

/-- The tag that `copyTags` adds for a region of the source. -/
def copyRegion (sourceOffset offset length : Nat) (r : RegionTag Tag) : RegionTag Tag :=
  let startOffset := if r.offset < sourceOffset then sourceOffset else r.offset
  let endOffset :=
    if r.getEndOffset > sourceOffset + length then sourceOffset + length else r.getEndOffset
  ⟨startOffset + offset - sourceOffset, endOffset - startOffset, r.tag⟩

def copyTags (sorting : TagSort Tag) (tags source : RegionTags Tag)
    (sourceOffset offset length : Nat) : RegionTags Tag :=
  clearTags sorting tags offset length ++
    (mapAllTags source sourceOffset length).map (copyRegion sourceOffset offset length)

/-- `moveTags(shift)`. -/
def moveTags (tags : RegionTags Tag) (shift : Int) : Except String (RegionTags Tag) :=
  tags.mapM fun r =>
    if r.offset + shift < 0 then .error "offset >= b(0)"
    else .ok (r.setOffset (r.offset + shift).toNat)

/-! ### Adding where a tag is absent -/

def straddles (typeInfo : T) (offset : Nat) (r : RegionTag Tag) : Bool :=
  typeInfo = typeid r.tag && r.offset < offset && offset < r.getEndOffset

/-- `splitTags<T>`. The parts behind the offset go to the end before the vector is sorted. -/
def splitTags (sorting : TagSort Tag) (typeInfo : T) (offset : Nat) (tags : RegionTags Tag) :
    RegionTags Tag :=
  let insertedRegionTags := (tags.filter (straddles typeInfo offset)).map fun r =>
    (r.setOffset offset).setLength (r.getEndOffset - offset)
  let shortened := tags.map fun r =>
    if straddles typeInfo offset r then r.setLength (offset - r.offset) else r
  if insertedRegionTags.isEmpty then tags else sorting.sort (shortened ++ insertedRegionTags)

def straddlesWhere (f : Tag → Bool) (offset : Nat) (r : RegionTag Tag) : Bool :=
  f r.tag && r.offset < offset && offset < r.getEndOffset

/-- `splitTags` with the predicate it is called with, for all tags or for those of a type. -/
def splitTagsWhere (sorting : TagSort Tag) (f : Tag → Bool) (offset : Nat)
    (tags : RegionTags Tag) : RegionTags Tag :=
  let insertedRegionTags := (tags.filter (straddlesWhere f offset)).map fun r =>
    (r.setOffset offset).setLength (r.getEndOffset - offset)
  let shortened := tags.map fun r =>
    if straddlesWhere f offset r then r.setLength (offset - r.offset) else r
  if insertedRegionTags.isEmpty then tags else sorting.sort (shortened ++ insertedRegionTags)

/-! ### Moving a range -/

/-- `moveTags(offset, length, shift)`. The second argument of each `clearTags` is a length. -/
def moveTagsOfRange (sorting : TagSort Tag) (tags : RegionTags Tag) (offset length : Nat)
    (shift : Int) : Except String (RegionTags Tag) :=
  let cleared :=
    if shift > 0 then
      clearTags sorting (splitTagsWhere sorting (fun _ => true) offset tags) (offset + length)
        (offset + length + shift).toNat
    else
      clearTags sorting (splitTagsWhere sorting (fun _ => true) (offset + length) tags)
        (offset - shift).toNat offset
  cleared.mapM fun r =>
    if offset ≤ r.offset ∧ r.getEndOffset ≤ offset + length then
      if r.offset + shift < 0 then .error "offset >= b(0)"
      else .ok (r.setOffset (r.offset + shift).toNat)
    else .ok r

/-- `Chunk::insertAt`, what it does to the region tags of a chunk of some length. -/
def insertAt (sorting : TagSort Tag) (tags : RegionTags Tag) (chunkLength : Nat)
    (inserted : RegionTags Tag) (insertedLength offset : Nat) :
    Except String (RegionTags Tag) := do
  if chunkLength < offset then throw "offset is invalid"
  let moved ← moveTagsOfRange sorting tags offset (chunkLength - offset) insertedLength
  return copyTags sorting moved inserted 0 offset insertedLength

/-- `Chunk::removeAt`. -/
def removeAt (sorting : TagSort Tag) (tags : RegionTags Tag) (chunkLength offset length : Nat) :
    Except String (RegionTags Tag) := do
  if chunkLength < length then throw "length is invalid"
  if chunkLength < offset + length then throw "offset is invalid"
  moveTagsOfRange sorting tags (offset + length) (chunkLength - offset - length) (-length)

/-- The loop of `addTagsWhereAbsent`: the added regions and the offset it gets to. A region
added before a tag gets a copy of that tag, whose name hides the created one. -/
def sweepTags (typeInfo : T) (endOffset : Nat) : RegionTags Tag → Nat → RegionTags Tag × Nat
  | [], o => ([], o)
  | r :: rest, o =>
    if typeInfo = typeid r.tag then
      let l := min (r.offset - o) (endOffset - o)
      let added := if 0 < r.offset - o then [⟨o, l, r.tag⟩] else []
      let o := if 0 < r.offset - o then o + l else o
      let o := if r.getEndOffset > o then r.getEndOffset else o
      if endOffset ≤ o then (added, o)
      else
        let (more, last) := sweepTags typeInfo endOffset rest o
        (added ++ more, last)
    else sweepTags typeInfo endOffset rest o

/-- The regions that `addTagsWhereAbsent` adds to the vector it finds. -/
def absentTags (tags : RegionTags Tag) (offset length : Nat) (created : Tag) :
    RegionTags Tag :=
  let endOffset := offset + length
  let (result, o) := sweepTags (typeid created) endOffset tags offset
  if 0 < endOffset - o then result ++ [⟨o, endOffset - o, created⟩] else result

/-- The set with the `T` tags split at both ends, which the sweep then goes over. -/
def splitEnds (sorting : TagSort Tag) (typeInfo : T) (tags : RegionTags Tag)
    (offset length : Nat) : RegionTags Tag :=
  splitTags sorting typeInfo (offset + length) (splitTags sorting typeInfo offset tags)

/-- The set after `addTagsWhereAbsent<T>`, and the tags it returns. -/
def addTagsWhereAbsent (sorting : TagSort Tag) (tags : RegionTags Tag) (offset length : Nat)
    (created : Tag) : RegionTags Tag × RegionTags Tag :=
  let tags := splitEnds sorting (typeid created) tags offset length
  let result := absentTags tags offset length created
  (if result.isEmpty then tags else sorting.sort (tags ++ result), result)

end RegionTags

/-! ### Calls -/

/-- The calls that change a set. `copyTags` carries the set it reads. -/
inductive TagCall (T Tag : Type) where
  | addTag (offset length : Nat) (created : Tag)
  | addTagIfAbsent (offset length : Nat) (created : Tag)
  | addTagsWhereAbsent (offset length : Nat) (created : Tag)
  | updateTag (offset length : Nat) (updated : Tag)
  | removeTag (typeInfo : T) (offset length : Nat)
  | clearTags (offset length : Nat)
  | copyTags (source : RegionTags Tag) (sourceOffset offset length : Nat)
  | moveTags (shift : Int)

def TagCall.step (sorting : TagSort Tag) (tags : RegionTags Tag) :
    TagCall T Tag → Except String (RegionTags Tag)
  | .addTag offset length created => tags.addTag offset length created
  | .addTagIfAbsent offset length created => tags.addTagIfAbsent offset length created
  | .addTagsWhereAbsent offset length created =>
    .ok (tags.addTagsWhereAbsent sorting offset length created).1
  | .updateTag offset length updated => tags.updateTag offset length updated
  | .removeTag typeInfo offset length => tags.removeTag typeInfo offset length
  | .clearTags offset length => .ok (tags.clearTags sorting offset length)
  | .copyTags source sourceOffset offset length =>
    .ok (tags.copyTags sorting source sourceOffset offset length)
  | .moveTags shift => tags.moveTags shift

/-! ### Two of the tags -/

/-- A tag that ignores its region and the one that follows it. -/
inductive TimeOrIdentityTag where
  | creationTimeTag (creationTime : Int)
  | identityTag (identityStart : Int)
deriving DecidableEq, Repr

inductive TimeOrIdentity where
  | creationTime
  | identity
deriving DecidableEq, Repr

instance : TagBase TimeOrIdentity TimeOrIdentityTag where
  typeid
    | .creationTimeTag _ => .creationTime
    | .identityTag _ => .identity
  typename
    | .creationTime => "inet::CreationTimeTag"
    | .identity => "inet::IdentityTag"
  changeRegion
    | .creationTimeTag creationTime, _, _ => .creationTimeTag creationTime
    | .identityTag identityStart, offsetDelta, _ => .identityTag (identityStart + offsetDelta)
  typeid_changeRegion tag _ _ := by cases tag <;> rfl

end Inet.Packet
