import Inet.Lib.Except
import Inet.Lib.Pieces
import Inet.Packet.PeekSound

/-!
# Chunk buffers

A chunk buffer merges chunks that arrive out of order. It keeps the list of non-overlapping,
non-connecting but continuous regions. Offsets are natural numbers, as its checks demand.
-/
namespace Inet.Packet

open Lib

variable {F : Type} [Fields F]

structure Region (F : Type) where
  offset : Nat
  data : Chunk F
deriving Repr

namespace Region

def getStartOffset (region : Region F) : Nat := region.offset

def getEndOffset (region : Region F) : Nat := region.offset + region.data.getChunkLength

@[simp] theorem getStartOffset_mk (offset : Nat) (data : Chunk F) :
    getStartOffset ⟨offset, data⟩ = offset := rfl

def compareStartOffset (a b : Region F) : Bool := a.getStartOffset < b.getStartOffset

def compareEndOffset (a b : Region F) : Bool := a.getEndOffset < b.getEndOffset

end Region

variable {regions : List (Region F)}

namespace ChunkBuffer

/-! ### The operations -/

section Operations

variable (sharing : Sharing F)

/-- `data->peek(offset, length)`. -/
def peekData (data : Chunk F) (offset length : Nat) : Except ChunkError (Chunk F) := do
  match ← Chunk.peek sharing data (.of offset) length {} with
  | none => throw .undefinedBehaviour
  | some chunk => return chunk

/-- The loop over the regions that may overlap the new one. -/
def sliceOverlapping (newRegion : Region F) : List (Region F) → Except ChunkError (List (Region F))
  | [] => .ok []
  | oldRegion :: rest =>
    if newRegion.getEndOffset ≤ oldRegion.getStartOffset ∨
        oldRegion.getEndOffset ≤ newRegion.getStartOffset then do
      -- no intersection
      let sliced ← sliceOverlapping newRegion rest
      return oldRegion :: sliced
    else if newRegion.getStartOffset ≤ oldRegion.getStartOffset ∧
        oldRegion.getEndOffset ≤ newRegion.getEndOffset then
      -- new totally covers old
      sliceOverlapping newRegion rest
    else if oldRegion.getStartOffset < newRegion.getStartOffset ∧
        newRegion.getEndOffset < oldRegion.getEndOffset then do
      -- new splits old into two parts, and the loop ends
      let previousData ← peekData sharing oldRegion.data 0
        (newRegion.getStartOffset - oldRegion.getStartOffset)
      let nextData ← peekData sharing oldRegion.data
        (newRegion.getEndOffset - oldRegion.getStartOffset)
        (oldRegion.getEndOffset - newRegion.getEndOffset)
      return ⟨oldRegion.offset, previousData⟩ :: ⟨newRegion.getEndOffset, nextData⟩ :: rest
    else if oldRegion.getEndOffset ≤ newRegion.getEndOffset then do
      -- new cuts end of old
      let data ← peekData sharing oldRegion.data 0
        (newRegion.getStartOffset - oldRegion.getStartOffset)
      let sliced ← sliceOverlapping newRegion rest
      return ⟨oldRegion.offset, data⟩ :: sliced
    else do
      -- new cuts beginning of old
      let data ← peekData sharing oldRegion.data
        (newRegion.getEndOffset - oldRegion.getStartOffset)
        (oldRegion.getEndOffset - newRegion.getEndOffset)
      let sliced ← sliceOverlapping newRegion rest
      return ⟨newRegion.getEndOffset, data⟩ :: sliced

/-- `std::lower_bound` by start offset, less one, and `std::upper_bound` by end offset, plus
one, delimit the regions that the loop looks at. -/
def sliceRegions (newRegion : Region F) (regions : List (Region F)) :
    Except ChunkError (List (Region F)) := do
  let lower := regions.findIdx (fun region => !region.compareStartOffset newRegion) - 1
  let upper := max lower (regions.findIdx (fun region => newRegion.compareEndOffset region) + 1)
  let sliced ← sliceOverlapping sharing newRegion ((regions.take upper).drop lower)
  return regions.take lower ++ sliced ++ regions.drop upper

/-- The regions that are left of two. -/
def mergeRegions (previousRegion nextRegion : Region F) : Except ChunkError (List (Region F)) :=
  if previousRegion.getEndOffset = nextRegion.getStartOffset then
    if Chunk.canInsertAt sharing .back previousRegion.data nextRegion.data then do
      -- merge into previous
      let newData ← Chunk.insertAt sharing .back previousRegion.data nextRegion.data
      return [⟨previousRegion.offset, newData.simplify⟩]
    else if Chunk.canInsertAt sharing .front nextRegion.data previousRegion.data then do
      -- merge into next
      let newData ← Chunk.insertAt sharing .front nextRegion.data previousRegion.data
      return [⟨previousRegion.offset, newData.simplify⟩]
    else do
      -- merge as a sequence
      let sequenceChunk ← Chunk.insertAt sharing .back (.sequence []) previousRegion.data
      let sequenceChunk ← Chunk.insertAt sharing .back sequenceChunk nextRegion.data
      return [⟨previousRegion.offset, sequenceChunk⟩]
  else .ok [previousRegion, nextRegion]

/-- The new region behind others, merged with the last of them. -/
def mergeBehind (regions : List (Region F)) (newRegion : Region F) :
    Except ChunkError (List (Region F)) :=
  match regions.getLast? with
  | none => .ok [newRegion]
  | some previousRegion => do
    let merged ← mergeRegions sharing previousRegion newRegion
    return regions.dropLast ++ merged

/-- Regions before others, the last one merged with the first one of those. -/
def mergeBefore (front regions : List (Region F)) : Except ChunkError (List (Region F)) :=
  match front.getLast?, regions.head? with
  | some region, some nextRegion => do
    let merged ← mergeRegions sharing region nextRegion
    return front.dropLast ++ merged ++ regions.tail
  | _, _ => .ok (front ++ regions)

def replace (regions : List (Region F)) (offset : Nat) (chunk : Chunk F) :
    Except ChunkError (List (Region F)) :=
  if chunk.getChunkLength = 0 then .error (.error "chunk is empty")
  else do
    let newRegion : Region F := ⟨offset, chunk⟩
    let regions ← sliceRegions sharing newRegion regions
    match regions.head?, regions.getLast? with
    | some front, some back =>
      if back.getEndOffset ≤ offset then mergeBehind sharing regions newRegion
      else if offset + chunk.getChunkLength ≤ front.getStartOffset then
        mergeBefore sharing [newRegion] regions
      else do
        -- `std::upper_bound` by start offset
        let it := regions.findIdx fun region => newRegion.compareStartOffset region
        let merged ← mergeBehind sharing (regions.take it) newRegion
        mergeBefore sharing merged (regions.drop it)
    | _, _ => return [newRegion]

/-- A region that is cleared as a whole is erased. Any other part is sliced off by a
`ByteCountChunk` of its length. -/
def clear (regions : List (Region F)) (offset length : Nat) :
    Except ChunkError (List (Region F)) :=
  let isWhole (region : Region F) : Bool :=
    region.offset = offset ∧ region.data.getChunkLength = length
  if regions.any isWhole then .ok (regions.eraseP isWhole)
  else if length % 8 ≠ 0 then .error (.error "Cannot convert between integer units")
  else sliceRegions sharing ⟨offset, .byteCount (length / 8) '?'.toUInt8⟩ regions

end Operations

/-! ### What a buffer stores -/

/-- The regions are non-overlapping, non-connecting but continuous. -/
structure Consistent (regions : List (Region F)) : Prop where
  wf : ∀ region ∈ regions, region.data.WellFormed
  nonempty : ∀ region ∈ regions, 0 < region.data.getChunkLength
  separated : regions.Pairwise fun region next => region.getEndOffset < next.getStartOffset

def pieces (regions : List (Region F)) : List (Piece Bool) :=
  regions.map fun region => ⟨region.offset, region.data.bits⟩

/-- The bit that a buffer stores at an offset. -/
def stored (regions : List (Region F)) : Nat → Option Bool := lookup (pieces regions)

theorem stored_append (front back : List (Region F)) (i : Nat) :
    stored (front ++ back) i = (stored front i).or (stored back i) := by
  rw [stored, pieces, List.map_append, lookup_append]
  rfl

theorem stored_cons (region : Region F) (regions : List (Region F)) (i : Nat) :
    stored (region :: regions) i =
      (Piece.get ⟨region.offset, region.data.bits⟩ i).or (stored regions i) :=
  lookup_cons _ _ i

theorem stored_eq_none_iff (wf : ∀ region ∈ regions, region.data.WellFormed) (i : Nat) :
    stored regions i = none ↔
      ∀ region ∈ regions, i < region.getStartOffset ∨ region.getEndOffset ≤ i := by
  rw [stored, lookup_eq_none_iff, pieces, List.forall_mem_map]
  refine forall₂_congr fun region member => ?_
  rw [Piece.stop, (wf region member).length_bits]
  rfl

theorem Consistent.pieces (consistent : Consistent regions) :
    Separated (pieces regions) where
  nonempty := by
    rw [ChunkBuffer.pieces, List.forall_mem_map]
    intro region member
    have positive := consistent.nonempty region member
    rw [Piece.stop, (consistent.wf region member).length_bits]
    omega
  ordered := by
    rw [ChunkBuffer.pieces, List.pairwise_map]
    apply consistent.separated.imp_of_mem
    intro region next member _ before
    rw [Piece.stop, (consistent.wf region member).length_bits]
    exact before

theorem Consistent.tail {region : Region F}
    (consistent : Consistent (region :: regions)) : Consistent regions where
  wf other member := consistent.wf other (List.mem_cons_of_mem _ member)
  nonempty other member := consistent.nonempty other (List.mem_cons_of_mem _ member)
  separated := (List.pairwise_cons.mp consistent.separated).2

end ChunkBuffer
end Inet.Packet

/-!
## Slicing the regions of a chunk buffer

Slicing erases what a region overlaps. The loop looks at a window of the regions only, and the
regions out of the window do not overlap.
-/
namespace Inet.Packet

open Lib

variable {F : Type} [Fields F]
variable (sharing : Sharing F) (kept : Prop) {data : Chunk F}

variable {newRegion old region : Region F} {regions back front : List (Region F)}

namespace ChunkBuffer

/-! ### What slicing does -/

/-- Cutting an old region loses no fill byte. -/
def SliceKeeps (sharing : Sharing F) (newRegion oldRegion : Region F) : Prop :=
  (oldRegion.getStartOffset < newRegion.getStartOffset →
    newRegion.getStartOffset < oldRegion.getEndOffset →
      Chunk.PeekKeeps sharing oldRegion.data 0
        (newRegion.getStartOffset - oldRegion.getStartOffset)) ∧
  (oldRegion.getStartOffset < newRegion.getEndOffset →
    newRegion.getEndOffset < oldRegion.getEndOffset →
      Chunk.PeekKeeps sharing oldRegion.data
        (newRegion.getEndOffset - oldRegion.getStartOffset)
        (oldRegion.getEndOffset - newRegion.getEndOffset))

/-- A new region that lies inside of an old one is not empty, so it leaves a gap. -/
def LeavesGap (newRegion oldRegion : Region F) : Prop :=
  oldRegion.getStartOffset < newRegion.getStartOffset →
    newRegion.getEndOffset < oldRegion.getEndOffset →
      newRegion.getStartOffset < newRegion.getEndOffset

/-- The old regions without what overlaps the new one. -/
structure Sliced (newRegion : Region F) (regions sliced : List (Region F)) (kept : Prop) :
    Prop where
  consistent : Consistent sliced
  apart : ∀ region ∈ sliced, region.getEndOffset ≤ newRegion.getStartOffset ∨
    newRegion.getEndOffset ≤ region.getStartOffset
  within : ∀ region ∈ sliced, ∃ old ∈ regions,
    old.getStartOffset ≤ region.getStartOffset ∧ region.getEndOffset ≤ old.getEndOffset
  held_iff : ∀ i, (stored sliced i).isSome ↔ (stored regions i).isSome ∧
    ¬(newRegion.getStartOffset ≤ i ∧ i < newRegion.getEndOffset)
  bits_eq : kept → ∀ i, stored sliced i =
    erase (stored regions) newRegion.getStartOffset newRegion.getEndOffset i

theorem stored_isSome_iff (wf : ∀ region ∈ regions, region.data.WellFormed) (i : Nat) :
    (stored regions i).isSome ↔
      ∃ region ∈ regions, region.getStartOffset ≤ i ∧ i < region.getEndOffset := by
  rw [Option.isSome_iff_ne_none, Ne, stored_eq_none_iff wf]
  push Not
  simp only [Nat.not_lt, Nat.not_le]

theorem consistent_nil : Consistent ([] : List (Region F)) where
  wf _ member := by cases member
  nonempty _ member := by cases member
  separated := .nil

theorem consistent_cons (wf : region.data.WellFormed) (positive : 0 < region.data.getChunkLength)
    (before : ∀ next ∈ regions, region.getEndOffset < next.getStartOffset)
    (consistent : Consistent regions) : Consistent (region :: regions) where
  wf := List.forall_mem_cons.mpr ⟨wf, consistent.wf⟩
  nonempty := List.forall_mem_cons.mpr ⟨positive, consistent.nonempty⟩
  separated := List.pairwise_cons.mpr ⟨before, consistent.separated⟩

theorem consistent_append (first : Consistent front) (second : Consistent back)
    (before : ∀ region ∈ front, ∀ next ∈ back, region.getEndOffset < next.getStartOffset) :
    Consistent (front ++ back) where
  wf := List.forall_mem_append.mpr ⟨first.wf, second.wf⟩
  nonempty := List.forall_mem_append.mpr ⟨first.nonempty, second.nonempty⟩
  separated := List.pairwise_append.mpr ⟨first.separated, second.separated, before⟩

theorem Consistent.append_iff :
    Consistent (front ++ back) ↔ Consistent front ∧ Consistent back ∧
      ∀ region ∈ front, ∀ next ∈ back, region.getEndOffset < next.getStartOffset := by
  constructor
  · rintro ⟨wf, nonempty, separated⟩
    obtain ⟨wf_front, wf_back⟩ := List.forall_mem_append.mp wf
    obtain ⟨nonempty_front, nonempty_back⟩ := List.forall_mem_append.mp nonempty
    obtain ⟨first, second, before⟩ := List.pairwise_append.mp separated
    exact ⟨⟨wf_front, nonempty_front, first⟩, ⟨wf_back, nonempty_back, second⟩, before⟩
  · rintro ⟨first, second, before⟩
    exact consistent_append first second before

/-- What is sliced of a region and of the later regions is sliced of all of them. -/
theorem Sliced.append {front' back' : List (Region F)}
    {kept kept' : Prop} (consistent : Consistent (front ++ back))
    (first : Sliced newRegion front front' kept) (second : Sliced newRegion back back' kept') :
    Sliced newRegion (front ++ back) (front' ++ back') (kept ∧ kept') := by
  obtain ⟨_, _, before⟩ := Consistent.append_iff.mp consistent
  constructor
  case consistent =>
    apply consistent_append first.consistent second.consistent
    intro region member next next_member
    obtain ⟨old, old_member, _, ends⟩ := first.within region member
    obtain ⟨later, later_member, starts, _⟩ := second.within next next_member
    have := before old old_member later later_member
    omega
  case apart => exact List.forall_mem_append.mpr ⟨first.apart, second.apart⟩
  case within =>
    intro region member
    rcases List.mem_append.mp member with member | member
    · obtain ⟨old, old_member, inside⟩ := first.within region member
      exact ⟨old, List.mem_append_left _ old_member, inside⟩
    · obtain ⟨old, old_member, inside⟩ := second.within region member
      exact ⟨old, List.mem_append_right _ old_member, inside⟩
  case held_iff =>
    intro i
    rw [stored_append, stored_append, Option.isSome_or, Option.isSome_or, Bool.or_eq_true,
      Bool.or_eq_true, first.held_iff, second.held_iff, ← or_and_right]
  case bits_eq =>
    rintro ⟨holds, holds'⟩ i
    rw [stored_append, first.bits_eq holds, second.bits_eq holds']
    unfold erase
    rw [stored_append]
    split <;> rfl

/-- Regions that do not overlap stay as they are. -/
theorem sliced_of_apart (newRegion : Region F) (consistent : Consistent regions)
    (apart : ∀ region ∈ regions, region.getEndOffset ≤ newRegion.getStartOffset ∨
      newRegion.getEndOffset ≤ region.getStartOffset) :
    Sliced newRegion regions regions True := by
  have missed (i : Nat) (inside : newRegion.getStartOffset ≤ i ∧ i < newRegion.getEndOffset) :
      stored regions i = none := by
    rw [stored_eq_none_iff consistent.wf]
    intro region member
    rcases apart region member with ends | starts
    · exact .inr (by omega)
    · exact .inl (by omega)
  constructor
  case consistent => exact consistent
  case apart => exact apart
  case within => exact fun region member => ⟨region, member, Nat.le_refl _, Nat.le_refl _⟩
  case held_iff =>
    intro i
    constructor
    · intro held
      refine ⟨held, fun inside => ?_⟩
      rw [missed i inside] at held
      cases held
    · exact And.left
  case bits_eq =>
    intro _ i
    unfold erase
    split
    next inside => exact missed i inside
    next => rfl

/-! ### Cutting one region -/

/-- The part of a region that is peeked as the data of a new one. -/
theorem peekData_peeked (wf : region.data.WellFormed) (offset length : Nat) (positive : 0 < length)
    (inside : offset + length ≤ region.data.getChunkLength) :
    ∃ data, peekData sharing region.data offset length = .ok data ∧ data.WellFormed ∧
      data.getChunkLength = length ∧
      (Chunk.PeekKeeps sharing region.data offset length →
        data.bits = part region.data.bits offset length) := by
  have consistent := Chunk.indexConsistent_of region.data offset
  obtain ⟨data, returned, peeked, bits_eq⟩ := Chunk.peek_peeked sharing region.data (.of offset)
    length {} wf positive inside consistent.inRange
  refine ⟨data, ?_, peeked.wf, peeked.length_eq, bits_eq rfl consistent⟩
  unfold peekData
  rw [returned]
  rfl

theorem stored_singleton (region : Region F) (i : Nat) :
    stored [region] i = Piece.get ⟨region.offset, region.data.bits⟩ i := by
  rw [stored_cons]
  exact Option.or_none

theorem consistent_singleton (wf : region.data.WellFormed)
    (positive : 0 < region.data.getChunkLength) : Consistent [region] :=
  consistent_cons wf positive (by simp) consistent_nil

/-- The bits of the front of a region. -/
theorem get_front {offset : Nat} (starts : old.getStartOffset ≤ offset)
    (bits_eq : data.bits = part old.data.bits 0 (offset - old.getStartOffset)) (i : Nat) :
    Piece.get ⟨old.offset, data.bits⟩ i =
      if i < offset then Piece.get ⟨old.offset, old.data.bits⟩ i else none := by
  have taken := Piece.get_take old.offset (offset - old.getStartOffset) old.data.bits i
  rw [show old.offset + (offset - old.getStartOffset) = offset from Nat.add_sub_of_le starts] at taken
  rw [bits_eq, part_zero_eq_take, taken]

/-- The bits of the back of a region. -/
theorem get_back {offset : Nat} (wf : old.data.WellFormed) (starts : old.getStartOffset ≤ offset)
    (bits_eq : data.bits = part old.data.bits (offset - old.getStartOffset)
      (old.getEndOffset - offset)) (i : Nat) :
    Piece.get ⟨offset, data.bits⟩ i =
      if offset ≤ i then Piece.get ⟨old.offset, old.data.bits⟩ i else none := by
  have dropped := Piece.get_drop old.offset (offset - old.getStartOffset) old.data.bits i
  rw [show old.offset + (offset - old.getStartOffset) = offset from Nat.add_sub_of_le starts]
    at dropped
  have rest : part old.data.bits (offset - old.getStartOffset) (old.getEndOffset - offset) =
      old.data.bits.drop (offset - old.getStartOffset) := by
    apply part_to_end
    rw [wf.length_bits]
    simp only [Region.getEndOffset, Region.getStartOffset] at *
    omega
  rw [bits_eq, rest, dropped]

theorem get_outside (wf : old.data.WellFormed) (i : Nat)
    (outside : i < old.getStartOffset ∨ old.getEndOffset ≤ i) :
    Piece.get ⟨old.offset, old.data.bits⟩ i = none := by
  apply (Piece.get_eq_none_iff _ i).mpr
  rw [Piece.stop, wf.length_bits]
  exact outside

/-- The front of a region, up to the start of the new one. -/
theorem sliced_front (wf : old.data.WellFormed) (wf_data : data.WellFormed)
    (starts : old.getStartOffset < newRegion.getStartOffset)
    (covered : newRegion.getStartOffset < old.getEndOffset)
    (ends : old.getEndOffset ≤ newRegion.getEndOffset)
    (length_eq : data.getChunkLength = newRegion.getStartOffset - old.getStartOffset)
    (bits_eq : kept → data.bits =
      part old.data.bits 0 (newRegion.getStartOffset - old.getStartOffset)) :
    Sliced newRegion [old] [⟨old.offset, data⟩] kept := by
  have positive : 0 < data.getChunkLength := by omega
  have stop : Region.getEndOffset ⟨old.offset, data⟩ = newRegion.getStartOffset := by
    show old.getStartOffset + data.getChunkLength = _
    omega
  constructor
  case consistent => exact consistent_singleton wf_data positive
  case apart => simpa using .inl (Nat.le_of_eq stop)
  case within => simpa using ⟨Nat.le_refl _, by rw [stop]; omega⟩
  case held_iff =>
    intro i
    rw [stored_isSome_iff (by simpa using wf_data), stored_isSome_iff (by simpa using wf)]
    simp only [List.mem_singleton, exists_eq_left, stop]
    show old.getStartOffset ≤ i ∧ _ ↔ _
    omega
  case bits_eq =>
    intro holds i
    rw [stored_singleton, get_front (Nat.le_of_lt starts) (bits_eq holds), erase,
      stored_singleton]
    by_cases before : i < newRegion.getStartOffset
    · rw [if_pos before, if_neg (by omega)]
    · rw [if_neg before]
      split
      next => rfl
      next => exact (get_outside wf i (by omega)).symm

/-- The back of a region, from the end of the new one on. -/
theorem sliced_back (wf : old.data.WellFormed) (wf_data : data.WellFormed)
    (starts : newRegion.getStartOffset ≤ old.getStartOffset)
    (covered : old.getStartOffset < newRegion.getEndOffset)
    (ends : newRegion.getEndOffset < old.getEndOffset)
    (length_eq : data.getChunkLength = old.getEndOffset - newRegion.getEndOffset)
    (bits_eq : kept → data.bits = part old.data.bits (newRegion.getEndOffset - old.getStartOffset)
      (old.getEndOffset - newRegion.getEndOffset)) :
    Sliced newRegion [old] [⟨newRegion.getEndOffset, data⟩] kept := by
  have positive : 0 < data.getChunkLength := by omega
  have stop : Region.getEndOffset ⟨newRegion.getEndOffset, data⟩ = old.getEndOffset := by
    show newRegion.getEndOffset + data.getChunkLength = _
    omega
  constructor
  case consistent => exact consistent_singleton wf_data positive
  case apart => simp
  case within => simpa using ⟨Nat.le_of_lt covered, Nat.le_of_eq stop⟩
  case held_iff =>
    intro i
    rw [stored_isSome_iff (by simpa using wf_data), stored_isSome_iff (by simpa using wf)]
    simp only [List.mem_singleton, exists_eq_left, stop]
    show newRegion.getEndOffset ≤ i ∧ _ ↔ _
    omega
  case bits_eq =>
    intro holds i
    rw [stored_singleton, get_back wf (Nat.le_of_lt covered) (bits_eq holds), erase,
      stored_singleton]
    by_cases behind : newRegion.getEndOffset ≤ i
    · rw [if_pos behind, if_neg (by omega)]
    · rw [if_neg behind]
      split
      next => rfl
      next => exact (get_outside wf i (by omega)).symm

/-- Both ends of a region that the new one lies inside of. -/
theorem sliced_split {previousData nextData : Chunk F}
    (wf : old.data.WellFormed) (wf_previous : previousData.WellFormed)
    (wf_next : nextData.WellFormed) (starts : old.getStartOffset < newRegion.getStartOffset)
    (gap : newRegion.getStartOffset < newRegion.getEndOffset)
    (ends : newRegion.getEndOffset < old.getEndOffset)
    (previous_length : previousData.getChunkLength =
      newRegion.getStartOffset - old.getStartOffset)
    (next_length : nextData.getChunkLength = old.getEndOffset - newRegion.getEndOffset)
    (previous_bits : kept → previousData.bits =
      part old.data.bits 0 (newRegion.getStartOffset - old.getStartOffset))
    (next_bits : kept → nextData.bits = part old.data.bits
      (newRegion.getEndOffset - old.getStartOffset)
      (old.getEndOffset - newRegion.getEndOffset)) :
    Sliced newRegion [old]
      [⟨old.offset, previousData⟩, ⟨newRegion.getEndOffset, nextData⟩] kept := by
  have previous_positive : 0 < previousData.getChunkLength := by omega
  have next_positive : 0 < nextData.getChunkLength := by omega
  have previous_stop : Region.getEndOffset ⟨old.offset, previousData⟩ =
      newRegion.getStartOffset := by
    show old.getStartOffset + previousData.getChunkLength = _
    omega
  have next_stop : Region.getEndOffset ⟨newRegion.getEndOffset, nextData⟩ = old.getEndOffset := by
    show newRegion.getEndOffset + nextData.getChunkLength = _
    omega
  constructor
  case consistent =>
    apply consistent_cons wf_previous previous_positive
    · simpa [previous_stop] using gap
    · exact consistent_singleton wf_next next_positive
  case apart => simpa using .inl (Nat.le_of_eq previous_stop)
  case within =>
    have inside : newRegion.getStartOffset ≤ old.getEndOffset ∧
        old.getStartOffset ≤ newRegion.getEndOffset := by omega
    simpa [previous_stop, next_stop] using ⟨⟨Nat.le_refl _, inside.1⟩, inside.2⟩
  case held_iff =>
    intro i
    rw [stored_isSome_iff (by simpa using ⟨wf_previous, wf_next⟩),
      stored_isSome_iff (by simpa using wf)]
    simp only [List.mem_cons, List.not_mem_nil, or_false, exists_eq_or_imp, exists_eq_left,
      previous_stop, next_stop]
    show (old.getStartOffset ≤ i ∧ _) ∨ (newRegion.getEndOffset ≤ i ∧ _) ↔ _
    omega
  case bits_eq =>
    intro holds i
    rw [stored_cons, stored_singleton,
      get_front (Nat.le_of_lt starts) (previous_bits holds),
      get_back wf (by omega) (next_bits holds), erase, stored_singleton]
    by_cases before : i < newRegion.getStartOffset
    · rw [if_pos before, if_neg (by omega), if_neg (by omega), Option.or_none]
    · rw [if_neg before, Option.none_or]
      by_cases behind : newRegion.getEndOffset ≤ i
      · rw [if_pos behind, if_neg (by omega)]
      · rw [if_neg behind, if_pos (by omega)]

/-! ### The loop -/

theorem sliced_covered (wf : old.data.WellFormed)
    (starts : newRegion.getStartOffset ≤ old.getStartOffset)
    (ends : old.getEndOffset ≤ newRegion.getEndOffset) : Sliced newRegion [old] [] True := by
  constructor
  case consistent => exact consistent_nil
  case apart => simp
  case within => simp
  case held_iff =>
    intro i
    rw [stored_isSome_iff (by simp), stored_isSome_iff (by simpa using wf)]
    simp only [List.not_mem_nil, false_and, exists_false, List.mem_singleton, exists_eq_left,
      false_iff]
    omega
  case bits_eq =>
    intro _ i
    rw [erase, stored_singleton]
    split
    next => rfl
    next outside => exact (get_outside wf i (by omega)).symm

theorem Sliced.mono {sliced : List (Region F)} {kept kept' : Prop}
    (slicing : Sliced newRegion regions sliced kept) (kept_of : kept' → kept) :
    Sliced newRegion regions sliced kept' where
  consistent := slicing.consistent
  apart := slicing.apart
  within := slicing.within
  held_iff := slicing.held_iff
  bits_eq holds := slicing.bits_eq (kept_of holds)

theorem sliceOverlapping_sliced
    (consistent : Consistent regions) (gaps : ∀ old ∈ regions, LeavesGap newRegion old) :
    ∃ sliced, sliceOverlapping sharing newRegion regions = .ok sliced ∧
      Sliced newRegion regions sliced (∀ old ∈ regions, SliceKeeps sharing newRegion old) := by
  have proper : newRegion.getStartOffset ≤ newRegion.getEndOffset := Nat.le_add_right _ _
  induction regions with
  | nil => exact ⟨[], rfl, (sliced_of_apart newRegion consistent_nil (by simp)).mono fun _ => trivial⟩
  | cons old rest ih =>
    obtain ⟨gap, later_gaps⟩ := List.forall_mem_cons.mp gaps
    obtain ⟨sliced, returned, slicing⟩ := ih consistent.tail later_gaps
    have wf := consistent.wf old List.mem_cons_self
    have nonempty := consistent.nonempty old List.mem_cons_self
    have stop : old.getEndOffset = old.getStartOffset + old.data.getChunkLength := rfl
    -- the later regions are sliced behind what is left of the first one
    have joined {left : List (Region F)} {kept : Prop} (first : Sliced newRegion [old] left kept)
        (kept_of : SliceKeeps sharing newRegion old → kept) :
        Sliced newRegion (old :: rest) (left ++ sliced)
          (∀ region ∈ old :: rest, SliceKeeps sharing newRegion region) := by
      apply (first.append consistent slicing).mono
      intro holds
      exact ⟨kept_of (holds old List.mem_cons_self),
        fun region member => holds region (List.mem_cons_of_mem _ member)⟩
    unfold sliceOverlapping
    by_cases apart : newRegion.getEndOffset ≤ old.getStartOffset ∨
        old.getEndOffset ≤ newRegion.getStartOffset
    · rw [if_pos apart, returned]
      have single := sliced_of_apart newRegion (consistent_singleton wf nonempty)
        (by simpa using apart.symm)
      exact ⟨_, rfl, joined single fun _ => trivial⟩
    rw [if_neg apart]
    by_cases covered : newRegion.getStartOffset ≤ old.getStartOffset ∧
        old.getEndOffset ≤ newRegion.getEndOffset
    · rw [if_pos covered]
      exact ⟨sliced, returned,
        joined (sliced_covered wf covered.1 covered.2) fun _ => trivial⟩
    rw [if_neg covered]
    by_cases splits : old.getStartOffset < newRegion.getStartOffset ∧
        newRegion.getEndOffset < old.getEndOffset
    · obtain ⟨starts, ends⟩ := splits
      rw [if_pos ⟨starts, ends⟩]
      obtain ⟨previousData, previous_eq, wf_previous, previous_length, previous_bits⟩ :=
        peekData_peeked sharing wf 0 (newRegion.getStartOffset - old.getStartOffset) (by omega)
          (by omega)
      obtain ⟨nextData, next_eq, wf_next, next_length, next_bits⟩ :=
        peekData_peeked sharing wf (newRegion.getEndOffset - old.getStartOffset)
          (old.getEndOffset - newRegion.getEndOffset) (by omega) (by omega)
      rw [previous_eq, ok_bind, next_eq, ok_bind]
      -- the loop ends, since no later region overlaps
      have untouched := sliced_of_apart newRegion consistent.tail (by
        intro region member
        have := (List.pairwise_cons.mp consistent.separated).1 region member
        exact .inr (by omega))
      have first := sliced_split
        (SliceKeeps sharing newRegion old) wf wf_previous wf_next starts (gap starts ends) ends
        previous_length next_length (fun kept => previous_bits (kept.1 starts (by omega)))
        (fun kept => next_bits (kept.2 (by omega) ends))
      refine ⟨_, rfl, (first.append consistent untouched).mono ?_⟩
      exact fun holds => ⟨holds old List.mem_cons_self, trivial⟩
    rw [if_neg splits]
    by_cases cuts : old.getEndOffset ≤ newRegion.getEndOffset
    · rw [if_pos cuts]
      obtain ⟨data, data_eq, wf_data, length_eq, bits_eq⟩ := peekData_peeked sharing wf 0
        (newRegion.getStartOffset - old.getStartOffset) (by omega) (by omega)
      rw [data_eq, ok_bind, returned]
      have first := sliced_front (SliceKeeps sharing newRegion old) wf wf_data
        (by omega) (by omega) cuts length_eq (fun kept => bits_eq (kept.1 (by omega) (by omega)))
      exact ⟨_, rfl, joined first id⟩
    · rw [if_neg cuts]
      obtain ⟨data, data_eq, wf_data, length_eq, bits_eq⟩ := peekData_peeked sharing wf
        (newRegion.getEndOffset - old.getStartOffset) (old.getEndOffset - newRegion.getEndOffset)
        (by omega) (by omega)
      rw [data_eq, ok_bind, returned]
      have first := sliced_back (SliceKeeps sharing newRegion old) wf wf_data
        (by omega) (by omega) (by omega) length_eq
        (fun kept => bits_eq (kept.2 (by omega) (by omega)))
      exact ⟨_, rfl, joined first id⟩

/-! ### The window -/

theorem sliceOverlapping_skip (back : List (Region F))
    (apart : ∀ region ∈ front, newRegion.getEndOffset ≤ region.getStartOffset ∨
      region.getEndOffset ≤ newRegion.getStartOffset) :
    sliceOverlapping sharing newRegion (front ++ back) = (do
      let sliced ← sliceOverlapping sharing newRegion back
      return front ++ sliced) := by
  induction front with
  | nil =>
    rw [List.nil_append]
    cases sliceOverlapping sharing newRegion back <;> rfl
  | cons region rest ih =>
    obtain ⟨first, later⟩ := List.forall_mem_cons.mp apart
    rw [List.cons_append, sliceOverlapping, if_pos first, ih later]
    cases sliceOverlapping sharing newRegion back <;> rfl

theorem sliceOverlapping_stop (front : List (Region F))
    (apart : ∀ region ∈ back, newRegion.getEndOffset ≤ region.getStartOffset ∨
      region.getEndOffset ≤ newRegion.getStartOffset) :
    sliceOverlapping sharing newRegion (front ++ back) = (do
      let sliced ← sliceOverlapping sharing newRegion front
      return sliced ++ back) := by
  induction front with
  | nil =>
    have skipped := sliceOverlapping_skip sharing [] apart
    rw [List.append_nil] at skipped
    rw [List.nil_append, skipped]
    show Except.ok (back ++ []) = Except.ok ([] ++ back)
    rw [List.append_nil, List.nil_append]
  | cons region rest ih =>
    rw [List.cons_append, sliceOverlapping, sliceOverlapping, ih]
    split
    · cases sliceOverlapping sharing newRegion rest <;> rfl
    split
    · rfl
    split
    · cases peekData sharing region.data 0 _ with
      | error error => rfl
      | ok previousData => cases peekData sharing region.data _ _ <;> rfl
    split
    · cases peekData sharing region.data 0 _ with
      | error error => rfl
      | ok data => cases sliceOverlapping sharing newRegion rest <;> rfl
    · cases peekData sharing region.data _ _ with
      | error error => rfl
      | ok data => cases sliceOverlapping sharing newRegion rest <;> rfl

/-- The regions out of the window do not overlap. -/
theorem sliceRegions_eq (newRegion : Region F) (regions : List (Region F))
    (consistent : Consistent regions) :
    sliceRegions sharing newRegion regions = sliceOverlapping sharing newRegion regions := by
  have ordered := List.pairwise_iff_getElem.mp consistent.separated
  unfold sliceRegions
  simp only
  generalize lower_eq : regions.findIdx (fun region => !region.compareStartOffset newRegion) = first
  generalize upper_eq : regions.findIdx (fun region => newRegion.compareEndOffset region) = last
  have before : ∀ region ∈ regions.take (first - 1),
      newRegion.getEndOffset ≤ region.getStartOffset ∨
        region.getEndOffset ≤ newRegion.getStartOffset := by
    intro region member
    obtain ⟨i, bound, rfl⟩ := List.mem_iff_getElem.mp member
    rw [List.getElem_take]
    have inside : i < first - 1 ∧ i < regions.length := by
      rw [List.length_take] at bound
      omega
    -- the next region still starts before the new one
    have present : i + 1 < regions.length := by
      have := @List.findIdx_le_length _ (fun region => !region.compareStartOffset newRegion) regions
      omega
    have next := List.not_of_lt_findIdx (show i + 1 < regions.findIdx _ by rw [lower_eq]; omega)
    have between := ordered i (i + 1) (by omega) (by omega) (Nat.lt_succ_self i)
    simp only [Region.compareStartOffset, Bool.not_eq_false', decide_eq_true_eq] at next
    exact .inr (by omega)
  have behind : ∀ region ∈ regions.drop (max (first - 1) (last + 1)),
      newRegion.getEndOffset ≤ region.getStartOffset ∨
        region.getEndOffset ≤ newRegion.getStartOffset := by
    intro region member
    obtain ⟨i, bound, rfl⟩ := List.mem_iff_getElem.mp member
    rw [List.length_drop] at bound
    rw [List.getElem_drop]
    -- an earlier region ends behind the new one
    have here : last < regions.length := by omega
    have ends := @List.findIdx_getElem _ (fun region => newRegion.compareEndOffset region) regions
      (by rw [upper_eq]; exact here)
    have between := ordered last (max (first - 1) (last + 1) + i) here (by omega) (by omega)
    simp only [upper_eq] at ends
    have stops : newRegion.getEndOffset < regions[last].getEndOffset := of_decide_eq_true ends
    exact .inl (by omega)
  have window : regions = regions.take (first - 1) ++
      ((regions.take (max (first - 1) (last + 1))).drop (first - 1) ++
        regions.drop (max (first - 1) (last + 1))) := by
    have front : (regions.take (max (first - 1) (last + 1))).take (first - 1) =
        regions.take (first - 1) := by
      rw [List.take_take, Nat.min_eq_left (Nat.le_max_left _ _)]
    rw [← List.append_assoc, ← front, List.take_append_drop, List.take_append_drop]
  conv_rhs => rw [window]
  rw [sliceOverlapping_skip sharing _ before,
    sliceOverlapping_stop sharing _ behind]
  cases sliceOverlapping sharing newRegion
    ((regions.take (max (first - 1) (last + 1))).drop (first - 1)) with
  | error error => rfl
  | ok sliced =>
    show Except.ok _ = Except.ok _
    rw [List.append_assoc]

theorem sliceRegions_sliced (newRegion : Region F)
    (regions : List (Region F)) (consistent : Consistent regions)
    (gaps : ∀ old ∈ regions, LeavesGap newRegion old) :
    ∃ sliced, sliceRegions sharing newRegion regions = .ok sliced ∧
      Sliced newRegion regions sliced (∀ old ∈ regions, SliceKeeps sharing newRegion old) := by
  rw [sliceRegions_eq sharing newRegion regions consistent]
  exact sliceOverlapping_sliced sharing consistent gaps

end ChunkBuffer
end Inet.Packet
