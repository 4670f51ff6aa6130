import Inet.Packet.PeekDesignated
import Inet.Packet.Packet

/-!
# Peeking backward

A backward iterator measures from the end. Bytes that are copied and slices take its position
for one from the beginning, so a backward peek agrees with the forward peek of the same part
only if the bits at the two positions do.
-/
namespace Inet.Packet

set_option linter.dupNamespace false

open Lib

variable {F : Type} [Fields F]

namespace Chunk

/-- The part is not turned around, or what is taken in its place looks the same. -/
inductive DirectionHonoured : Chunk F → Nat → Nat → Prop
  | bytes {bs : List UInt8} {offset length : Nat}
      (same : offset % 8 = 0 → length % 8 = 0 → part (bytesBits bs) offset length =
        part (bytesBits bs) (8 * bs.length - offset - length) length) :
      DirectionHonoured (.bytes bs) offset length
  | byteCount {count : Nat} {data : UInt8} {offset length : Nat} :
      DirectionHonoured (.byteCount count data) offset length
  | fields {content : F} {offset length : Nat} :
      DirectionHonoured (.fields content) offset length
  | slice {chunk : Chunk F} {sliceOffset sliceLength offset length : Nat}
      (same : part chunk.bits (offset + sliceOffset) length =
        part chunk.bits (sliceLength - offset - length + sliceOffset) length) :
      DirectionHonoured (.slice chunk sliceOffset sliceLength) offset length
  | element {chunks : List (Chunk F)} {element : Chunk F} {offset length inner : Nat}
      (located : locate chunks.reverse offset length = some (element, inner))
      (honoured : DirectionHonoured element inner length) :
      DirectionHonoured (.sequence chunks) offset length
  | across {chunks : List (Chunk F)} {offset length : Nat}
      (apart : locate chunks.reverse offset length = none) :
      DirectionHonoured (.sequence chunks) offset length

/-- A slice on the way loses no fill byte, neither at the position nor at the one it is taken
for. -/
inductive SlicesKeep (sharing : Sharing F) : Nat → Chunk F → Nat → Nat → Prop
  | bytes {bound : Nat} {bs : List UInt8} {offset length : Nat} :
      SlicesKeep sharing bound (.bytes bs) offset length
  | byteCount {bound count : Nat} {data : UInt8} {offset length : Nat} :
      SlicesKeep sharing bound (.byteCount count data) offset length
  | fields {bound : Nat} {content : F} {offset length : Nat} :
      SlicesKeep sharing bound (.fields content) offset length
  | slice {bound : Nat} {chunk : Chunk F} {sliceOffset sliceLength offset length : Nat}
      (keeps : (offset = 0 ∧ length = sliceLength) ∨ 2 * offset + length = sliceLength ∨
        ((keepsLevel sharing bound).peek chunk (offset + sliceOffset) length ∧
          (keepsLevel sharing bound).peek chunk
            (sliceLength - offset - length + sliceOffset) length)) :
      SlicesKeep sharing bound (.slice chunk sliceOffset sliceLength) offset length
  | element {bound : Nat} {chunks : List (Chunk F)} {element : Chunk F}
      {offset length inner : Nat}
      (located : locate chunks.reverse offset length = some (element, inner))
      (keeps : SlicesKeep sharing bound element inner length) :
      SlicesKeep sharing (bound + 1) (.sequence chunks) offset length
  | across {bound : Nat} {chunks : List (Chunk F)} {offset length : Nat}
      (apart : locate chunks.reverse offset length = none) :
      SlicesKeep sharing (bound + 1) (.sequence chunks) offset length

/-- Two outcomes of a peek do not differ in their bits. -/
def SameBits : PeekResult F → PeekResult F → Prop
  | .ok (some back), .ok (some front) => back.bits = front.bits
  | .ok none, .ok none => True
  | .error backError, .error frontError => backError = frontError
  | _, _ => False

theorem sameBits_rfl (result : PeekResult F) : SameBits result result := by
  match result with
  | .ok (some _) => exact rfl
  | .ok none => trivial
  | .error _ => exact rfl

/-! ### The mirrored position -/

theorem convertedOffset_mirrored (chunkLength offset length : Nat) (index index' : Option Nat)
    (inside : offset + length ≤ chunkLength) :
    convertedOffset chunkLength ⟨false, offset, index⟩ length =
      convertedOffset chunkLength ⟨true, chunkLength - offset - length, index'⟩ length := by
  rw [convertedOffset_nat _ _ _ inside, convertedOffset_nat _ _ _ (by simp only; omega)]
  rfl

theorem peekSlice_mirrored (chunk : Chunk F) (offset length : Nat) (index index' : Option Nat)
    (inside : offset + length ≤ chunk.getChunkLength) :
    peekSlice chunk ⟨false, offset, index⟩ length =
      peekSlice chunk ⟨true, chunk.getChunkLength - offset - length, index'⟩ length := by
  unfold peekSlice
  simp only [convertedOffset_mirrored _ _ _ index index' inside]

theorem peekSequenceChunk_mirrored (sharing : Sharing F) (below : Level F)
    (chunks : List (Chunk F)) (offset length : Nat) (index index' : Option Nat)
    (inside : offset + length ≤ lengthOfAll chunks) :
    peekSequenceChunk sharing below chunks ⟨false, offset, index⟩ length =
      peekSequenceChunk sharing below chunks
        ⟨true, lengthOfAll chunks - offset - length, index'⟩ length := by
  unfold peekSequenceChunk
  simp only [convertedOffset_mirrored _ _ _ index index' inside]

theorem locate_mirrored {chunks : List (Chunk F)} {element : Chunk F} {offset length inner : Nat}
    (positive : 0 < length) (located : locate chunks.reverse offset length = some (element, inner)) :
    locate chunks (lengthOfAll chunks - offset - length) length =
      some (element, element.getChunkLength - inner - length) := by
  obtain ⟨before, after, reversed, offset_eq, ends, _⟩ := locate_spec located
  have chunks_eq : chunks = after.reverse ++ element :: before.reverse := by
    rw [← List.reverse_reverse chunks, reversed]
    simp
  have total : lengthOfAll chunks =
      lengthOfAll after + (element.getChunkLength + lengthOfAll before) := by
    rw [chunks_eq, lengthOfAll_append, lengthOfAll, lengthOfAll_reverse, lengthOfAll_reverse]
  have position : lengthOfAll chunks - offset - length =
      lengthOfAll after.reverse + (element.getChunkLength - inner - length) := by
    rw [lengthOfAll_reverse]
    omega
  rw [position]
  subst chunks_eq
  exact locate_at after.reverse before.reverse element _ length (by omega) (by omega)

theorem locate_mirrored_none {chunks : List (Chunk F)} {offset length : Nat}
    (positive : 0 < length) (inside : offset + length ≤ lengthOfAll chunks)
    (apart : locate chunks.reverse offset length = none) :
    locate chunks (lengthOfAll chunks - offset - length) length = none := by
  cases found : locate chunks (lengthOfAll chunks - offset - length) length with
  | none => rfl
  | some place =>
    obtain ⟨element, inner⟩ := place
    rw [← List.reverse_reverse chunks] at found
    have back := locate_mirrored positive found
    have place : lengthOfAll chunks - (lengthOfAll chunks - offset - length) - length = offset := by
      omega
    rw [List.reverse_reverse, lengthOfAll_reverse, place, apart] at back
    cases back

/-! ### One level -/

/-- A whole chunk is peeked the same way by any iterator. -/
theorem peekUncheckedWith_whole (sharing : Sharing F) (below : Level F) (chunk : Chunk F)
    (iterator : Iterator) (flags : PeekFlags) (positive : 0 < chunk.getChunkLength)
    (starts : iterator.position = 0) :
    peekUncheckedWith sharing below chunk iterator chunk.getChunkLength flags =
      .ok (some chunk.simplify) := by
  cases chunk with
  | empty =>
    rw [getChunkLength] at positive
    omega
  | slice chunk offset length =>
    rw [getChunkLength] at positive ⊢
    unfold peekUncheckedWith
    rw [if_neg (by omega), if_neg (by omega), if_pos ⟨starts, .inr rfl⟩, simplify_slice]
    split <;> rfl
  | sequence chunks =>
    rw [getChunkLength] at positive ⊢
    unfold peekUncheckedWith peekSequence
    simp only
    rw [if_neg (by omega), if_neg (by omega), if_pos ⟨starts, trivial⟩]
    rfl
  | _ =>
    unfold peekUncheckedWith peekLeaf
    simp only
    rw [if_neg (by omega), if_neg (by omega), if_pos ⟨starts, .inr trivial⟩]
    rfl

/-- Peeking backward and peeking the mirrored part forward return the same bits. -/
def AgreeAt (level : Level F) (chunk : Chunk F) (offset length : Nat) (index index' : Option Nat)
    (flags : PeekFlags) : Prop :=
  SameBits (level.peekUnchecked chunk ⟨false, offset, index⟩ length flags)
    (level.peekUnchecked chunk ⟨true, chunk.getChunkLength - offset - length, index'⟩ length flags)

section Levels

variable (sharing : Sharing F) (bound : Nat)

theorem agreeAt_whole (chunk : Chunk F) (index index' : Option Nat) (flags : PeekFlags)
    (positive : 0 < chunk.getChunkLength) :
    AgreeAt (level sharing (bound + 1)) chunk 0 chunk.getChunkLength index index' flags := by
  unfold AgreeAt
  simp only [level]
  rw [peekUncheckedWith_whole sharing _ chunk _ flags positive rfl,
    peekUncheckedWith_whole sharing _ chunk _ flags positive (by simp)]
  exact sameBits_rfl _

/-- A leaf that is not peeked whole is rebuilt in either direction. -/
theorem agreeAt_leaf_iff (chunk : Chunk F) (rebuild : Iterator → Int → PeekResult F)
    (offset length : Nat) (index index' : Option Nat) (flags : PeekFlags) (positive : 0 < length)
    (inside : offset + length ≤ chunk.getChunkLength)
    (part_only : ¬(offset = 0 ∧ length = chunk.getChunkLength))
    (leaf : ∀ iterator, (level sharing (bound + 1)).peekUnchecked chunk iterator length flags =
      peekLeaf chunk rebuild iterator length flags) :
    AgreeAt (level sharing (bound + 1)) chunk offset length index index' flags ↔
      SameBits (rebuild ⟨false, offset, index⟩ length)
        (rebuild ⟨true, chunk.getChunkLength - offset - length, index'⟩ length) := by
  unfold AgreeAt
  rw [leaf, leaf]
  unfold peekLeaf
  simp only
  rw [if_neg (by omega), if_neg (by omega), if_neg (by omega), if_neg (by omega),
    if_neg (by omega), if_neg (by omega)]

theorem sameBits_peekBytes_iff (bs : List UInt8) (offset length : Nat) (index index' : Option Nat)
    (inside : offset + length ≤ 8 * bs.length) :
    SameBits (peekBytes bs ⟨false, offset, index⟩ length : PeekResult F)
        (peekBytes bs ⟨true, 8 * bs.length - offset - length, index'⟩ length) ↔
      DirectionHonoured (.bytes bs : Chunk F) offset length := by
  have honoured_iff : DirectionHonoured (.bytes bs : Chunk F) offset length ↔
      (offset % 8 = 0 → length % 8 = 0 → part (bytesBits bs) offset length =
        part (bytesBits bs) (8 * bs.length - offset - length) length) := by
    constructor
    · rintro ⟨same⟩
      assumption
    · exact .bytes
  rw [honoured_iff]
  unfold peekBytes
  by_cases aligned : offset % 8 = 0 ∧ length % 8 = 0
  · simp only [resolveLength_nat]
    rw [if_pos (by omega), if_neg (by omega), if_neg (by omega), if_pos (by omega),
      if_neg (by omega), if_neg (by omega)]
    have copied (start : Nat) (whole : start % 8 = 0) :
        (Chunk.bytes (part bs (start / 8) ((length : Int) / 8).toNat) : Chunk F).bits =
          part (bytesBits bs) start length := by
      rw [bits, bytesBits_part, show ((length : Int) / 8).toNat = length / 8 by omega]
      congr 1 <;> omega
    simp only [SameBits]
    rw [copied offset aligned.1, copied _ (by omega)]
    exact ⟨fun same _ _ => same, fun same => same aligned.1 aligned.2⟩
  · simp only
    rw [if_neg (by omega), if_neg (by omega), peekSlice_mirrored _ _ _ index index' inside]
    refine iff_of_true (sameBits_rfl _) ?_
    intro starts ends
    exact absurd ⟨starts, ends⟩ aligned

theorem peekByteCount_mirrored (count : Nat) (data : UInt8) (offset length : Nat)
    (index index' : Option Nat) (inside : offset + length ≤ 8 * count) :
    (peekByteCount count data ⟨false, offset, index⟩ length : PeekResult F) =
      peekByteCount count data ⟨true, 8 * count - offset - length, index'⟩ length := by
  unfold peekByteCount
  simp only [resolveLength_nat]
  by_cases aligned : offset % 8 = 0 ∧ length % 8 = 0
  · rw [if_pos (by omega), if_neg (by omega), if_pos (by omega)]
  · rw [if_neg (by omega), if_neg (by omega)]
    exact peekSlice_mirrored (.byteCount count data) offset length index index' inside

/-- Where slices lose no fill bytes, the directions agree exactly if the part is not turned
around or looks the same. -/
theorem SlicesKeep.agreeAt_iff {chunk : Chunk F} {offset length bound : Nat}
    (keep : SlicesKeep sharing bound chunk offset length) (wf : chunk.WellFormed)
    (fits : chunk.size ≤ bound) (positive : 0 < length)
    (inside : offset + length ≤ chunk.getChunkLength) (index index' : Option Nat)
    (flags : PeekFlags) (consistent : chunk.isIteratorConsistent ⟨false, offset, index⟩ = true)
    (consistent' : chunk.isIteratorConsistent
      ⟨true, chunk.getChunkLength - offset - length, index'⟩ = true) :
    AgreeAt (level sharing bound) chunk offset length index index' flags ↔
      DirectionHonoured chunk offset length := by
  induction keep generalizing index index' with
  | @bytes bound bs offset length =>
    cases bound with
    | zero => simp [size] at fits
    | succ bound =>
      by_cases whole : offset = 0 ∧ length = getChunkLength (.bytes bs : Chunk F)
      · obtain ⟨rfl, rfl⟩ := whole
        refine iff_of_true (agreeAt_whole sharing bound _ index index' flags positive) (.bytes ?_)
        intro _ _
        rw [getChunkLength, Nat.sub_zero, Nat.sub_self]
      · rw [agreeAt_leaf_iff sharing bound (.bytes bs) (peekBytes bs) offset length index index'
          flags positive inside whole fun iterator => rfl]
        exact sameBits_peekBytes_iff bs offset length index index' inside
  | @byteCount bound count data offset length =>
    cases bound with
    | zero => simp [size] at fits
    | succ bound =>
      refine iff_of_true ?_ .byteCount
      by_cases whole : offset = 0 ∧ length = getChunkLength (.byteCount count data : Chunk F)
      · obtain ⟨rfl, rfl⟩ := whole
        exact agreeAt_whole sharing bound _ index index' flags positive
      · rw [agreeAt_leaf_iff sharing bound (.byteCount count data) (peekByteCount count data)
          offset length index index' flags positive inside whole fun iterator => rfl,
          peekByteCount_mirrored count data offset length index index' inside]
        exact sameBits_rfl _
  | @fields bound content offset length =>
    cases bound with
    | zero => simp [size] at fits
    | succ bound =>
      refine iff_of_true ?_ .fields
      by_cases whole : offset = 0 ∧ length = getChunkLength (.fields content)
      · obtain ⟨rfl, rfl⟩ := whole
        exact agreeAt_whole sharing bound _ index index' flags positive
      · rw [agreeAt_leaf_iff sharing bound (.fields content) (peekSlice (.fields content))
          offset length index index' flags positive inside whole fun iterator => rfl,
          peekSlice_mirrored (.fields content) offset length index index' inside]
        exact sameBits_rfl _
  | @slice bound chunk sliceOffset sliceLength offset length keeps =>
    have honoured_iff : DirectionHonoured (.slice chunk sliceOffset sliceLength) offset length ↔
        part chunk.bits (offset + sliceOffset) length =
          part chunk.bits (sliceLength - offset - length + sliceOffset) length := by
      constructor
      · rintro ⟨same⟩
        assumption
      · exact .slice
    rw [honoured_iff]
    rw [getChunkLength] at inside consistent'
    cases bound with
    | zero =>
      have := chunk.size_pos
      rw [size_slice] at fits
      omega
    | succ bound =>
      by_cases whole : offset = 0 ∧ length = sliceLength
      · obtain ⟨rfl, rfl⟩ := whole
        refine iff_of_true (agreeAt_whole sharing bound (.slice chunk sliceOffset length) index
          index' flags positive) ?_
        rw [Nat.sub_zero, Nat.sub_self]
      · cases wf with
        | slice wf_chunk within =>
        rw [size_slice] at fits
        have delegated (iterator : Iterator)
            (part_only : ¬(iterator.position = 0 ∧ length = sliceLength))
            (inside : iterator.position + length ≤ sliceLength) :
            (level sharing (bound + 1)).peekUnchecked (.slice chunk sliceOffset sliceLength) iterator
                length flags =
              (level sharing (bound + 1)).peekUnchecked chunk
                (.forward (iterator.position + sliceOffset)) length flags := by
          simp only [level]
          rw [peekUncheckedWith, if_neg (by omega), if_neg (by omega), if_neg (by omega),
            if_neg (by omega)]
        unfold AgreeAt
        rw [getChunkLength, delegated _ whole inside,
          delegated _ (by simp only; omega) (by simp only; omega)]
        rcases keeps with covers | centred | ⟨kept, kept'⟩
        · exact absurd covers whole
        · rw [show sliceLength - offset - length = offset by omega]
          exact iff_of_true (sameBits_rfl _) rfl
        · have returns (start : Nat) (fitting : start + length ≤ chunk.getChunkLength)
              (kept : (keepsLevel sharing (bound + 1)).peek chunk start length) :
              ∃ result, (level sharing (bound + 1)).peekUnchecked chunk (.forward start) length
                  flags = .ok (some result) ∧ result.bits = part chunk.bits start length := by
            have pointed : IndexConsistent chunk (.forward start) := by
              apply IndexConsistent.of_check wf_chunk
              · simp only [Iterator.forward]
                omega
              · exact isIteratorConsistent_none chunk true start wf_chunk (by omega)
            obtain ⟨result, returned, _, bits_eq⟩ := (level_sound sharing (bound + 1)).peek chunk
              (.forward start) length flags wf_chunk fits positive fitting pointed.inRange
            exact ⟨result, returned, bits_eq rfl pointed kept⟩
          obtain ⟨back, back_eq, back_bits⟩ := returns _ (by omega) kept
          obtain ⟨front, front_eq, front_bits⟩ := returns _ (by omega) kept'
          simp only [back_eq, front_eq, SameBits, back_bits, front_bits]
  | @element bound chunks element offset length inner located keeps ih =>
    have honoured_iff : DirectionHonoured (.sequence chunks) offset length ↔
        DirectionHonoured element inner length := by
      constructor
      · rintro (_ | _ | _ | _ | ⟨found, honoured⟩ | apart)
        · rw [located] at found
          cases found
          exact honoured
        · rename_i apart
          rw [located] at apart
          cases apart
      · exact .element located
    rw [honoured_iff]
    rw [size] at fits
    rw [getChunkLength] at inside consistent'
    obtain ⟨before, after, reversed, offset_eq, ends, _⟩ := locate_spec located
    have member : element ∈ chunks := by
      rw [← List.mem_reverse, reversed]
      exact List.mem_append_right _ List.mem_cons_self
    have good := (wellFormed_sequence_iff chunks).mp wf element member
    have size_le := size_le_sizeOfAll member
    have element_iff := ih good.1 (by omega) positive ends none none
      (isIteratorConsistent_none element false _ good.1 (by omega))
      (isIteratorConsistent_none element true _ good.1 (by omega))
    unfold AgreeAt at element_iff ⊢
    show SameBits (peekSequence sharing (level sharing bound) chunks _ _ _)
      (peekSequence sharing (level sharing bound) chunks _ _ _) ↔ _
    rw [getChunkLength, peekSequence_eq sharing _ chunks _ length flags wf positive inside
      consistent, peekSequence_eq sharing _ chunks _ length flags wf positive
      (by simp only; omega) consistent']
    simp only [directed, Bool.false_eq_true, if_false, if_true, located,
      locate_mirrored positive located]
    by_cases whole : offset = 0 ∧ length = lengthOfAll chunks
    · -- the only element is peeked whole
      have only : inner = 0 ∧ length = element.getChunkLength := by
        have total : lengthOfAll chunks.reverse =
            lengthOfAll before + (element.getChunkLength + lengthOfAll after) := by
          rw [reversed, lengthOfAll_append, lengthOfAll]
        rw [lengthOfAll_reverse] at total
        omega
      rw [if_pos whole, if_pos (by omega)]
      refine iff_of_true (sameBits_rfl _) (element_iff.mp ?_)
      obtain ⟨rfl, rfl⟩ := only
      cases bound with
      | zero =>
        have := element.size_pos
        omega
      | succ bound => exact agreeAt_whole sharing bound element none none flags good.2
    have whole' : ¬(lengthOfAll chunks - offset - length = 0 ∧ length = lengthOfAll chunks) := by
      omega
    rw [if_neg whole, if_neg whole']
    by_cases all : inner = 0 ∧ length = element.getChunkLength
    · rw [if_pos all, if_pos (by omega)]
      refine iff_of_true (sameBits_rfl _) (element_iff.mp ?_)
      obtain ⟨rfl, rfl⟩ := all
      cases bound with
      | zero =>
        have := element.size_pos
        omega
      | succ bound => exact agreeAt_whole sharing bound element none none flags good.2
    · rw [if_neg all, if_neg (by omega)]
      exact element_iff
  | @across bound chunks offset length apart =>
    refine iff_of_true ?_ (.across apart)
    rw [getChunkLength] at inside consistent'
    unfold AgreeAt
    show SameBits (peekSequence sharing (level sharing bound) chunks _ _ _)
      (peekSequence sharing (level sharing bound) chunks _ _ _)
    rw [getChunkLength, peekSequence_eq sharing _ chunks _ length flags wf positive inside
      consistent, peekSequence_eq sharing _ chunks _ length flags wf positive
      (by simp only; omega) consistent']
    simp only [directed, Bool.false_eq_true, if_false, if_true, apart,
      locate_mirrored_none positive inside apart]
    by_cases whole : offset = 0 ∧ length = lengthOfAll chunks
    · rw [if_pos whole, if_pos (by omega)]
      exact sameBits_rfl _
    · rw [if_neg whole, if_neg (by omega),
        peekSequenceChunk_mirrored sharing _ chunks offset length index index' inside]
      exact sameBits_rfl _

end Levels

/-! ### Both directions of a peek -/

/-- A backward peek and the forward peek of the mirrored part return the same bits. -/
def PeeksAgree (sharing : Sharing F) (chunk : Chunk F) (offset length : Nat)
    (index index' : Option Nat) (flags : PeekFlags) : Prop :=
  SameBits (peek sharing chunk ⟨false, offset, index⟩ length flags)
    (peek sharing chunk ⟨true, chunk.getChunkLength - offset - length, index'⟩ length flags)

theorem peek_eq_unchecked (sharing : Sharing F) (chunk : Chunk F) (iterator : Iterator)
    (length : Nat) (flags : PeekFlags) (wf : chunk.WellFormed) (positive : 0 < length)
    (inside : iterator.position + length ≤ chunk.getChunkLength)
    (consistent : chunk.isIteratorConsistent iterator = true) :
    peek sharing chunk iterator length flags = peekUnchecked sharing chunk iterator length flags := by
  have pointed := IndexConsistent.of_check wf (by omega) consistent
  obtain ⟨result, returned, peeked, _⟩ := (level_sound sharing chunk.size).peek chunk iterator length
    flags wf (Nat.le_refl _) positive inside pointed.inRange
  rw [peek_of_unchecked returned, checkPeekResult_of_length result flags
    (by rw [peeked.length_eq]; exact positive)]
  exact returned.symm

theorem peeksAgree_zero (sharing : Sharing F) (chunk : Chunk F) (offset : Nat)
    (index index' : Option Nat) (flags : PeekFlags) (inside : offset ≤ chunk.getChunkLength) :
    PeeksAgree sharing chunk offset 0 index index' flags := by
  unfold PeeksAgree
  rw [show ((0 : Nat) : Int) = 0 from rfl, peek_zero sharing chunk _ flags inside,
    peek_zero sharing chunk _ flags (by simp only; omega)]
  exact sameBits_rfl _

theorem peeksAgree_iff (sharing : Sharing F) (chunk : Chunk F) (offset length : Nat)
    (index index' : Option Nat) (flags : PeekFlags) (wf : chunk.WellFormed) (positive : 0 < length)
    (inside : offset + length ≤ chunk.getChunkLength)
    (consistent : chunk.isIteratorConsistent ⟨false, offset, index⟩ = true)
    (consistent' : chunk.isIteratorConsistent
      ⟨true, chunk.getChunkLength - offset - length, index'⟩ = true)
    (keep : SlicesKeep sharing chunk.size chunk offset length) :
    PeeksAgree sharing chunk offset length index index' flags ↔
      DirectionHonoured chunk offset length := by
  unfold PeeksAgree
  rw [peek_eq_unchecked sharing chunk _ length flags wf positive inside consistent,
    peek_eq_unchecked sharing chunk _ length flags wf positive (by simp only; omega) consistent']
  exact keep.agreeAt_iff sharing wf (Nat.le_refl _) positive inside index index' flags consistent
    consistent'

end Chunk

open Chunk

/-! ### The back of a packet -/

namespace Packet

/-- The last bits of the data part. -/
def lastBits (packet : Packet F) (length : Nat) : List Bool :=
  packet.dataBits.drop (packet.getDataLength.toNat - length)

theorem IsConsistent.lastBits_eq {packet : Packet F} (consistent : packet.IsConsistent)
    (length : Nat) (inside : length ≤ packet.getDataLength) :
    packet.lastBits length = part packet.content.bits
      (packet.content.getChunkLength - packet.backIterator.position - length) length := by
  obtain ⟨wf, total, _, _, separated, _, _⟩ := consistent
  have data_eq : packet.getDataLength.toNat = packet.content.getChunkLength -
      packet.frontIterator.position - packet.backIterator.position := by
    unfold getDataLength
    omega
  have data_length : packet.dataBits.length = packet.getDataLength.toNat :=
    length_part _ _ _ (by rw [wf.length_bits]; omega)
  rw [lastBits, ← part_to_end packet.dataBits _ length (by rw [data_length]; omega), dataBits,
    part_part _ _ _ _ _ (by omega)]
  congr 1
  omega

/-- Peeking and popping at the back return the last bits of the data part, and popping moves
the back separator before them. -/
structure ReturnsLastBits (sharing : Sharing F) (packet : Packet F) (length : Nat)
    (flags : PeekFlags) : Prop where
  peekAtBack : ∃ result, packet.peekAtBack sharing length flags = .ok (some result) ∧
    result.bits = packet.lastBits length
  popAtBack : ∃ result popped, packet.popAtBack sharing length flags = .ok (some result, popped) ∧
    result.bits = packet.lastBits length ∧ popped.content = packet.content ∧
    popped.frontIterator = packet.frontIterator ∧
    popped.backIterator.position = packet.backIterator.position + length

theorem peekAtBack_eq (sharing : Sharing F) (packet : Packet F) (length : Nat)
    (flags : PeekFlags) (inside : length ≤ packet.getDataLength) :
    packet.peekAtBack sharing length flags =
      peek sharing packet.content packet.backIterator length flags := by
  unfold peekAtBack
  simp only
  rw [if_neg (by omega)]

theorem returnsLastBits_iff (sharing : Sharing F) (packet : Packet F) (length : Nat)
    (flags : PeekFlags) (consistent : packet.IsConsistent) (positive : 0 < length)
    (inside : length ≤ packet.getDataLength)
    (keep : SlicesKeep sharing packet.content.size packet.content packet.backIterator.position
      length)
    (kept : PeekKeeps sharing packet.content
      (packet.content.getChunkLength - packet.backIterator.position - length) length) :
    packet.ReturnsLastBits sharing length flags ↔
      DirectionHonoured packet.content packet.backIterator.position length := by
  have last := consistent.lastBits_eq length inside
  obtain ⟨wf, total, forward, backward, separated, front, back⟩ := consistent
  have fits : packet.backIterator.position + length ≤ packet.content.getChunkLength := by
    unfold getDataLength at inside
    omega
  obtain ⟨content, frontIterator, ⟨isForward, offset, index⟩, totalLength⟩ := packet
  simp only at *
  subst backward
  have consistent' := isIteratorConsistent_none content true
    (content.getChunkLength - offset - length) wf (by omega)
  rw [← peeksAgree_iff sharing content offset length index none flags wf positive fits back
    consistent' keep]
  -- the forward peek returns the last bits
  have pointed := IndexConsistent.of_check wf (by simp only; omega) consistent'
  obtain ⟨front_result, front_eq, _, front_bits⟩ := peek_peeked sharing content
    ⟨true, content.getChunkLength - offset - length, none⟩ length flags wf positive
    (by simp only; omega) pointed.inRange
  have front_last := front_bits rfl pointed kept
  have pointed_back := IndexConsistent.of_check wf (by simp only; omega) back
  obtain ⟨result, back_eq, peeked, _⟩ := peek_peeked sharing content ⟨false, offset, index⟩ length
    flags wf positive fits pointed_back.inRange
  have same_iff : PeeksAgree sharing content offset length index none flags ↔
      result.bits = front_result.bits := by
    unfold PeeksAgree
    rw [back_eq, front_eq]
    rfl
  have peeks := peekAtBack_eq sharing ⟨content, frontIterator, ⟨false, offset, index⟩, totalLength⟩
    length flags inside
  simp only [back_eq] at peeks
  rw [same_iff]
  constructor
  · rintro ⟨⟨other, returned, other_bits⟩, _⟩
    rw [peeks] at returned
    cases returned
    rw [other_bits, last, front_last]
  · intro same
    have result_bits : result.bits =
        lastBits ⟨content, frontIterator, ⟨false, offset, index⟩, totalLength⟩ length := by
      rw [same, last, front_last]
    obtain ⟨moved, moved_eq, _, moved_position, _⟩ := moveIterator_consistent content
      ⟨false, offset, index⟩ result.getChunkLength wf (by simp only; omega) back
      (by simp only; omega) (by rw [peeked.length_eq]; exact_mod_cast fits)
    refine ⟨⟨result, peeks, result_bits⟩, result,
      ⟨content, frontIterator, moved, totalLength⟩, ?_, result_bits, rfl, rfl, ?_⟩
    · unfold popAtBack
      rw [peeks]
      simp only [bind, Except.bind, moved_eq, pure, Except.pure]
    · rw [peeked.length_eq] at moved_position
      exact_mod_cast moved_position

end Packet

/-- Backward peeks agree with forward peeks, and the back of a packet is its last bits, if the
part is not turned around and slices on the way lose no fill bytes; where they lose none, they
agree only then. -/
theorem backward_agrees (sharing : Sharing F) (chunk : Chunk F) (offset length : Nat)
    (index index' : Option Nat) (flags : PeekFlags) (wf : chunk.WellFormed)
    (inside : offset + length ≤ chunk.getChunkLength)
    (consistent : chunk.isIteratorConsistent ⟨false, offset, index⟩ = true)
    (consistent' : chunk.isIteratorConsistent
      ⟨true, chunk.getChunkLength - offset - length, index'⟩ = true) :
    (length = 0 ∨ (SlicesKeep sharing chunk.size chunk offset length ∧
        DirectionHonoured chunk offset length) →
      PeeksAgree sharing chunk offset length index index' flags) ∧
    (SlicesKeep sharing chunk.size chunk offset length →
      PeeksAgree sharing chunk offset length index index' flags →
        length = 0 ∨ DirectionHonoured chunk offset length) ∧
    ∀ packet : Packet F, packet.IsConsistent → packet.content = chunk →
      packet.backIterator.position = offset → 0 < length → length ≤ packet.getDataLength →
      SlicesKeep sharing chunk.size chunk offset length →
      PeekKeeps sharing chunk (chunk.getChunkLength - offset - length) length →
        (packet.ReturnsLastBits sharing length flags ↔ DirectionHonoured chunk offset length) := by
  refine ⟨?_, ?_, ?_⟩
  · rintro (rfl | ⟨keep, honoured⟩)
    · exact peeksAgree_zero sharing chunk offset index index' flags (by omega)
    · rcases Nat.eq_zero_or_pos length with rfl | positive
      · exact peeksAgree_zero sharing chunk offset index index' flags (by omega)
      · exact (peeksAgree_iff sharing chunk offset length index index' flags wf positive inside
          consistent consistent' keep).mpr honoured
  · intro keep agree
    rcases Nat.eq_zero_or_pos length with rfl | positive
    · exact .inl rfl
    · exact .inr ((peeksAgree_iff sharing chunk offset length index index' flags wf positive inside
        consistent consistent' keep).mp agree)
  · rintro packet packet_consistent rfl rfl positive fits keep kept
    exact packet.returnsLastBits_iff sharing length flags packet_consistent positive fits keep kept

/-- The last byte of two, behind a field. -/
theorem backward_agrees_fields :
    PeeksAgree (.never _) (.sequence [.fields [true], .byteCount 2 63] : Chunk (List Bool)) 0 8
      (some 0) none {} := by
  refine (backward_agrees (.never _) (.sequence [.fields [true], .byteCount 2 63]) 0 8 (some 0)
    none {} (.sequence ?_ (by decide)) (by decide) (by decide) (by decide)).1 (.inr ⟨?_, ?_⟩)
  · simpa using ⟨.fields [true], .byteCount 2 63⟩
  · apply SlicesKeep.element
    · show locate _ _ _ = some (.byteCount 2 63, 0)
      rfl
    · exact .byteCount
  · apply DirectionHonoured.element
    · show locate _ _ _ = some (.byteCount 2 63, 0)
      rfl
    · exact .byteCount

/-- The last of two bytes is not what peeking it from the back returns. -/
theorem backward_returns_first_byte :
    ¬ PeeksAgree (.never (List Bool)) (.bytes [1, 2]) 0 8 (some 0) none {} := by
  unfold PeeksAgree
  show ¬ (Chunk.bytes [1] : Chunk (List Bool)).bits = (Chunk.bytes [2] : Chunk (List Bool)).bits
  decide

end Inet.Packet
