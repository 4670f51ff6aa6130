import Inet.Packet.Iteration

/-!
# Peeking returns the designated bits

A forward peek of an explicit length returns a chunk for the bits between its ends, unless
fill bytes are lost on the way. Where the part is cut from a single leaf, lost fill bytes
always show.
-/
namespace Inet.Packet

open Lib

theorem byteBits_injective {byte byte' : UInt8} (same : byteBits byte = byteBits byte') :
    byte = byte' := by
  apply UInt8.toNat_inj.mp
  apply Nat.eq_of_testBit_eq
  intro i
  rcases Nat.lt_or_ge i 8 with low | high
  · have at_i := congrArg (fun bits => bits[7 - i]?) same
    simpa [byteBits, List.getElem?_range (show 7 - i < 8 by omega),
      show 7 - (7 - i) = i by omega] using at_i
  · have bound : 2 ^ 8 ≤ 2 ^ i := Nat.pow_le_pow_right (by decide) high
    rw [Nat.testBit_lt_two_pow (Nat.lt_of_lt_of_le byte.toNat_lt bound),
      Nat.testBit_lt_two_pow (Nat.lt_of_lt_of_le byte'.toNat_lt bound)]

/-- Fill bytes show in the bits. -/
theorem fillBits_injective {count : Nat} {data data' : UInt8} (positive : 0 < count)
    (same : fillBits count data = fillBits count data') : data = data' := by
  obtain ⟨rest, rfl⟩ := Nat.exists_eq_succ_of_ne_zero (Nat.ne_of_gt positive)
  simp only [fillBits, List.replicate_succ, Chunk.bytesBits_cons] at same
  exact byteBits_injective (List.append_inj_left same (by simp))

variable {F : Type} [Fields F]

namespace Chunk

variable (sharing : Sharing F)

/-- The part is a part of one element wherever it is cut out of a sequence. -/
inductive InOnePart : Chunk F → Nat → Nat → Prop
  | whole {chunk : Chunk F} : InOnePart chunk 0 chunk.getChunkLength
  | bytes {bs : List UInt8} {offset length : Nat} : InOnePart (.bytes bs) offset length
  | byteCount {count : Nat} {data : UInt8} {offset length : Nat} :
      InOnePart (.byteCount count data) offset length
  | fields {content : F} {offset length : Nat} : InOnePart (.fields content) offset length
  | slice {chunk : Chunk F} {sliceOffset sliceLength offset length : Nat}
      (inner : InOnePart chunk (offset + sliceOffset) length) :
      InOnePart (.slice chunk sliceOffset sliceLength) offset length
  | element {chunks : List (Chunk F)} {element : Chunk F} {offset length innerOffset : Nat}
      (located : locate chunks offset length = some (element, innerOffset))
      (inner : InOnePart element innerOffset length) :
      InOnePart (.sequence chunks) offset length

/-- Peeking a part returns a chunk that stands for the bits of the part. -/
def PeeksDesignated (sharing : Sharing F) (chunk : Chunk F) (iterator : Iterator) (length : Nat)
    (flags : PeekFlags) : Prop :=
  ∃ result, peek sharing chunk iterator length flags = .ok (some result) ∧
    result.bits = part chunk.bits iterator.position length

/-- An empty part may be returned as an empty chunk, and any other part loses no fill bytes. -/
def PartKeeps (sharing : Sharing F) (chunk : Chunk F) (position length : Nat)
    (flags : PeekFlags) : Prop :=
  (length = 0 ∧ flags.allowEmpty = true ∧ flags.allowNullptr = false) ∨
    (0 < length ∧ PeekKeeps sharing chunk position length)

/-! ### Empty parts -/

theorem peekUncheckedWith_zero (below : Level F) (chunk : Chunk F)
    (iterator : Iterator) (flags : PeekFlags) (inside : iterator.position ≤ chunk.getChunkLength) :
    peekUncheckedWith sharing below chunk iterator 0 flags = getEmptyChunk flags := by
  cases chunk with
  | empty =>
    have start : iterator.position = 0 := Nat.le_zero.mp inside
    simp [peekUncheckedWith, peekEmpty, start]
  | sequence chunks =>
    unfold peekUncheckedWith peekSequence
    simp only
    rw [if_neg (by rw [getChunkLength] at inside; omega), if_pos (.inl trivial)]
  | slice chunk offset length =>
    unfold peekUncheckedWith
    rw [if_neg (by rw [getChunkLength] at inside; omega), if_pos (.inl rfl)]
  | _ =>
    unfold peekUncheckedWith peekLeaf
    simp only
    rw [if_neg (by omega), if_pos (.inl trivial)]

theorem peek_zero (chunk : Chunk F) (iterator : Iterator)
    (flags : PeekFlags) (inside : iterator.position ≤ chunk.getChunkLength) :
    peek sharing chunk iterator 0 flags = getEmptyChunk flags := by
  obtain ⟨bound, size_eq⟩ := Nat.exists_eq_succ_of_ne_zero (Nat.ne_of_gt chunk.size_pos)
  have returned : peekUnchecked sharing chunk iterator 0 flags = getEmptyChunk flags := by
    unfold peekUnchecked
    rw [size_eq]
    exact peekUncheckedWith_zero sharing _ chunk iterator flags inside
  obtain ⟨allowNullptr, allowEmpty⟩ := flags
  cases allowNullptr with
  | true => exact peek_of_unchecked returned
  | false =>
    cases allowEmpty with
    | true => exact peek_of_unchecked returned
    | false =>
      unfold peek
      rw [returned]
      rfl

theorem peeksDesignated_zero_iff (chunk : Chunk F) (iterator : Iterator)
    (flags : PeekFlags) (inside : iterator.position ≤ chunk.getChunkLength) :
    PeeksDesignated sharing chunk iterator 0 flags ↔
      flags.allowEmpty = true ∧ flags.allowNullptr = false := by
  unfold PeeksDesignated
  rw [show ((0 : Nat) : Int) = 0 from rfl, peek_zero sharing chunk iterator flags inside]
  obtain ⟨allowNullptr, allowEmpty⟩ := flags
  cases allowNullptr <;> cases allowEmpty <;> simp [getEmptyChunk, bits]

/-! ### Lost fill bytes show -/

theorem keepsLevel_whole (bound : Nat) (chunk : Chunk F) :
    (keepsLevel sharing (bound + 1)).peek chunk 0 chunk.getChunkLength := by
  show PeekKeepsWith sharing (level sharing bound) (keepsLevel sharing bound) chunk 0 _
  cases chunk with
  | byteCount count data => exact .inl ⟨rfl, rfl⟩
  | slice chunk offset length =>
    unfold PeekKeepsWith
    exact .inl ⟨rfl, rfl⟩
  | sequence chunks =>
    unfold PeekKeepsWith
    exact .inl ⟨rfl, rfl⟩
  | _ => trivial

theorem peekKeepsWith_byteCount (below : Level F) (keeps : KeepsLevel F)
    (count : Nat) (data : UInt8) (iterator : Iterator) (length : Nat) (flags : PeekFlags)
    (result : Chunk F) (positive : 0 < length) (inside : iterator.position + length ≤ 8 * count)
    (returned : peekUncheckedWith sharing below (.byteCount count data) iterator length flags =
      .ok (some result))
    (bits_eq : result.bits = part (fillBits count data) iterator.position length) :
    PeekKeepsWith sharing below keeps (.byteCount count data) iterator.position length := by
  by_cases whole : iterator.position = 0 ∧ length = 8 * count
  · exact .inl whole
  by_cases aligned : iterator.position % 8 = 0 ∧ length % 8 = 0
  · refine .inr (.inr ?_)
    unfold peekUncheckedWith peekLeaf peekByteCount at returned
    simp only [getChunkLength, resolveLength_nat] at returned
    rw [if_neg (by omega), if_neg (by omega), if_neg (by omega), if_pos (by omega),
      if_neg (by omega)] at returned
    obtain rfl : byteCount ((length : Int) / 8).toNat '?'.toUInt8 = result := by
      simpa using returned
    have length_eq : ((length : Int) / 8).toNat = length / 8 := by omega
    have cut := fillBits_part count data (iterator.position / 8) (length / 8) (by omega)
    rw [show 8 * (iterator.position / 8) = iterator.position by omega,
      show 8 * (length / 8) = length by omega] at cut
    rw [bits, length_eq, cut] at bits_eq
    exact (fillBits_injective (by omega) bits_eq).symm
  · exact .inr (.inl aligned)

/-- Where a part is cut from a single leaf, peeking it returns its bits only if no fill byte
is lost. -/
theorem InOnePart.keeps {chunk : Chunk F} {position length : Nat}
    (one : InOnePart chunk position length) (bound : Nat) (wf : chunk.WellFormed)
    (fits : chunk.size ≤ bound) (positive : 0 < length)
    (inside : position + length ≤ chunk.getChunkLength) (index : Option Nat) (flags : PeekFlags)
    (consistent : chunk.isIteratorConsistent ⟨true, position, index⟩ = true) (result : Chunk F)
    (returned : (level sharing bound).peekUnchecked chunk ⟨true, position, index⟩ length flags =
      .ok (some result)) (bits_eq : result.bits = part chunk.bits position length) :
    (keepsLevel sharing bound).peek chunk position length := by
  induction one generalizing bound index with
  | @whole chunk =>
    cases bound with
    | zero =>
      have := chunk.size_pos
      omega
    | succ bound => exact keepsLevel_whole sharing bound chunk
  | bytes =>
    cases bound with
    | zero => simp [size] at fits
    | succ bound => trivial
  | fields =>
    cases bound with
    | zero => simp [size] at fits
    | succ bound => trivial
  | @byteCount count data offset length =>
    cases bound with
    | zero => simp [size] at fits
    | succ bound =>
      exact peekKeepsWith_byteCount sharing (level sharing bound) (keepsLevel sharing bound) count
        data ⟨true, offset, index⟩ length flags result positive inside returned bits_eq
  | @slice chunk sliceOffset sliceLength offset length inner ih =>
    cases bound with
    | zero =>
      have := chunk.size_pos
      rw [size_slice] at fits
      omega
    | succ bound =>
      cases wf with
      | slice wf_chunk within =>
      rw [getChunkLength] at inside
      show PeekKeepsWith sharing _ _ (.slice chunk sliceOffset sliceLength) offset length
      unfold PeekKeepsWith
      by_cases whole : offset = 0 ∧ length = sliceLength
      · exact .inl whole
      refine .inr (ih (bound + 1) wf_chunk fits positive (by omega) none
        (isIteratorConsistent_none chunk true _ wf_chunk (by omega)) ?_ ?_)
      · change peekUncheckedWith sharing _ (.slice chunk sliceOffset sliceLength) _ _ _ = _ at returned
        unfold peekUncheckedWith at returned
        rw [if_neg (by simp only; omega), if_neg (by simp only; omega),
          if_neg (by simp only; omega), if_neg (by omega)] at returned
        exact returned
      · rw [bits_eq, bits, ← part, part_part _ _ _ _ _ inside, Nat.add_comm]
  | @element chunks element offset length innerOffset located inner ih =>
    cases bound with
    | zero => simp [size] at fits
    | succ bound =>
      rw [size] at fits
      rw [getChunkLength] at inside
      obtain ⟨before, after, chunks_eq, offset_eq, ends, _⟩ := locate_spec located
      have member : element ∈ chunks := by
        rw [chunks_eq]
        exact List.mem_append_right _ List.mem_cons_self
      have good := (wellFormed_sequence_iff chunks).mp wf element member
      have size_le := size_le_sizeOfAll member
      show PeekKeepsWith sharing _ _ (.sequence chunks) offset length
      unfold PeekKeepsWith
      by_cases whole : offset = 0 ∧ length = lengthOfAll chunks
      · exact .inl whole
      refine .inr ?_
      rw [located]
      simp only
      by_cases all : innerOffset = 0 ∧ length = element.getChunkLength
      · exact .inl all
      change peekSequence sharing (level sharing bound) chunks _ _ _ = _ at returned
      rw [peekSequence_eq sharing _ chunks ⟨true, offset, index⟩ length flags wf positive inside
        consistent, if_neg whole] at returned
      simp only [directed, if_true, located, if_neg all] at returned
      refine .inr (ih bound good.1 (by omega) positive ends none
        (isIteratorConsistent_none element true _ good.1 (by omega)) returned ?_)
      rw [bits_eq, bits, offset_eq]
      subst chunks_eq
      exact part_bitsOfAll before after element innerOffset length wf ends

/-! ### The designated bits -/

/-- A forward peek returns the designated bits if no fill byte is lost, and, where the part is
cut from a single leaf, only then. -/
theorem peek_designates (sharing : Sharing F) (chunk : Chunk F) (position length : Nat)
    (index : Option Nat) (flags : PeekFlags) (wf : chunk.WellFormed)
    (consistent : chunk.isIteratorConsistent ⟨true, position, index⟩ = true)
    (inside : position + length ≤ chunk.getChunkLength) :
    (PartKeeps sharing chunk position length flags →
      PeeksDesignated sharing chunk ⟨true, position, index⟩ length flags) ∧
    (length = 0 ∨ InOnePart chunk position length →
      PeeksDesignated sharing chunk ⟨true, position, index⟩ length flags →
        PartKeeps sharing chunk position length flags) := by
  have starts : position ≤ chunk.getChunkLength := by omega
  have pointed : IndexConsistent chunk ⟨true, position, index⟩ :=
    IndexConsistent.of_check wf starts consistent
  constructor
  · rintro (⟨rfl, allowed⟩ | ⟨positive, kept⟩)
    · exact (peeksDesignated_zero_iff sharing chunk ⟨true, position, index⟩ flags starts).mpr allowed
    · obtain ⟨result, returned, _, bits_eq⟩ := peek_peeked sharing chunk ⟨true, position, index⟩
        length flags wf positive inside pointed.inRange
      exact ⟨result, returned, bits_eq rfl pointed kept⟩
  · intro one designated
    rcases Nat.eq_zero_or_pos length with rfl | positive
    · exact .inl ⟨rfl, (peeksDesignated_zero_iff sharing chunk ⟨true, position, index⟩ flags
        starts).mp designated⟩
    · obtain ⟨result, returned, bits_eq⟩ := designated
      have one_part := one.resolve_left (Nat.ne_of_gt positive)
      obtain ⟨result', peeked, facts, _⟩ := (level_sound sharing chunk.size).peek chunk
        ⟨true, position, index⟩ length flags wf (Nat.le_refl _) positive inside pointed.inRange
      have same : result' = result := by
        rw [peek_of_unchecked peeked, checkPeekResult_of_length result' flags
          (by rw [facts.length_eq]; exact positive)] at returned
        simpa using returned
      subst same
      exact .inr ⟨positive, one_part.keeps sharing chunk.size wf (Nat.le_refl _) positive inside index
        flags consistent result' peeked bits_eq⟩

/-- A part across a `ByteCountChunk` and the bytes behind it. -/
def countThenBytes : Chunk (List Bool) := .sequence [.byteCount 1 63, .bytes [1, 2]]

theorem countThenBytes_wf : countThenBytes.WellFormed :=
  .sequence (by simpa using ⟨.byteCount 1 63, .bytes [1, 2]⟩) (by decide)

theorem peek_designates_across :
    PeeksDesignated (.never _) countThenBytes ⟨true, 4, none⟩ 16 {} := by
  refine (peek_designates (.never _) countThenBytes 4 16 none {} countThenBytes_wf (by decide)
    (by decide)).1 (.inr ⟨by decide, .inr ?_⟩)
  -- the count has the default data, and what is cut off it is not joined with the bytes
  refine ⟨⟨.inr (.inr rfl), ?_⟩, ?_⟩
  · rintro chunk _ outermost ⟨⟩
  · rintro next ⟨⟩
    refine ⟨⟨trivial, ?_⟩, fun _ _ => trivial⟩
    rintro chunk ⟨⟩ outermost ⟨⟩ can
    cases can

/-- One of two bytes of a `ByteCountChunk` with another fill byte has the default one. -/
theorem peek_loses_fill :
    ¬ PeeksDesignated (.never (List Bool)) (.byteCount 2 97) ⟨true, 0, some 0⟩ 8 {} := by
  rintro ⟨result, returned, bits_eq⟩
  cases returned
  revert bits_eq
  decide

end Chunk
end Inet.Packet
