import Inet.Lib.Except
import Inet.Packet.PeekSound

/-!
# Peeking beyond the end

A part that is asked to reach behind the end of a chunk is cut off at the end only if the
chunk is a sequence, or slices that share the end of one. Any other chunk returns more than
it has, or nothing at all.
-/
namespace Inet.Packet

open Lib

variable {F : Type} [Fields F]
variable (chunk : Chunk F)

namespace Chunk

/-- A sequence, or a slice with the end of one. -/
def EndsInSequence : Chunk F → Prop
  | .sequence _ => True
  | .slice chunk offset length =>
    offset + length = chunk.getChunkLength ∧ chunk.EndsInSequence
  | _ => False

/-- A slice of a chunk that is not a sequence, which may reach behind its end. -/
def IsLeafSlice (chunk : Chunk F) : Prop :=
  ∃ sliced offset length, chunk = .slice sliced offset length ∧
    ∀ elements, sliced ≠ .sequence elements

section Levels

variable {sharing : Sharing F} {below : Level F} {keeps : KeepsLevel F} {bound : Nat}

omit [Fields F] in
/-- Every iterator without an index is in range. -/
theorem inRange_of_none (iterator : Iterator) (unset : iterator.index = none) :
    IndexInRange chunk iterator := by
  cases chunk with
  | sequence chunks =>
    intro index pointed
    rw [unset] at pointed
    cases pointed
  | _ => trivial

theorem locate_beyond {chunks : List (Chunk F)} {offset length : Nat}
    (beyond : lengthOfAll chunks < offset + length) : locate chunks offset length = none := by
  cases located : locate chunks offset length with
  | none => rfl
  | some place =>
    obtain ⟨element, inner⟩ := place
    obtain ⟨before, after, rfl, offset_eq, ends, _⟩ := locate_spec located
    rw [lengthOfAll_append, lengthOfAll] at beyond
    omega

/-- What is peeked beyond the end of a sequence is its remaining elements. -/
theorem peekSequence_beyond (sound : below.Sound sharing keeps bound) (chunks : List (Chunk F))
    (position length : Nat) (flags : PeekFlags) (wf : WellFormed (.sequence chunks))
    (fits : sizeOfAll chunks ≤ bound) (started : 0 < position)
    (inside : position ≤ lengthOfAll chunks) (beyond : lengthOfAll chunks < position + length) :
    ∃ after,
      peekSequence sharing below chunks (.forward position) length flags =
        .ok (some (.sequence after)) ∧
      Peeked (.sequence chunks) (lengthOfAll chunks - position) (.sequence after) ∧
      (PeekKeepsWith sharing below keeps (.sequence chunks) position length →
        bitsOfAll after = part (bitsOfAll chunks) position (lengthOfAll chunks - position)) := by
  have empty_wf : WellFormed (.sequence ([] : List (Chunk F))) := .sequence (by simp) (by simp)
  have apart := locate_beyond beyond
  obtain ⟨after, finished, grown⟩ := doInsertSlice_reaching sound .back [] chunks position length
    empty_wf wf (by omega) (by rw [sizeOfAll]; omega)
  rw [Nat.min_eq_right (by omega)] at grown
  have reached : peekSequence sharing below chunks (.forward position) length flags =
      .ok (some (.sequence after)) := by
    unfold peekSequence peekUnindexed
    simp only [Iterator.forward]
    rw [if_neg (by omega), if_neg (by omega), if_neg (by omega), if_pos trivial,
      peekElements_eq ⟨true, position, none⟩ length flags (by omega) chunks wf 0,
      if_neg (Nat.not_lt_zero _), Nat.sub_zero, apart]
    unfold peekSequenceChunk convertedOffset
    have nonneg : ¬(position : Int) < 0 := by omega
    simp only [Bool.not_true, Bool.false_and, Bool.false_eq_true, if_false, if_true, if_neg nonneg,
      resolveLength_nat, Int.toNat_natCast, bind, Except.bind, finished]
    rfl
  refine ⟨after, reached, ⟨grown.wf, ?_, ?_⟩, ?_⟩
  · have length_eq := grown.length_eq
    rw [lengthOfAll, Nat.zero_add] at length_eq
    exact length_eq
  · have size_le := grown.size_le
    rw [sizeOfAll] at size_le
    simp only [size]
    omega
  · intro kept
    unfold PeekKeepsWith at kept
    rw [apart] at kept
    rcases kept with whole | kept
    · omega
    have bits_eq := grown.bits_eq kept
    rwa [bitsOfAll, Side.join, List.nil_append] at bits_eq

theorem peekUncheckedWith_slice (offset sliceLength position length : Nat)
    (flags : PeekFlags) (started : 0 < position) (inside : position ≤ sliceLength)
    (positive : 0 < length) :
    peekUncheckedWith sharing below (.slice chunk offset sliceLength) (.forward position) length
        flags =
      peekUncheckedWith sharing below chunk (.forward (position + offset)) length flags := by
  unfold Iterator.forward
  rw [peekUncheckedWith, if_neg (by simp only; omega), if_neg (by simp only; omega),
    if_neg (by simp only; omega), if_neg (by omega)]
  rfl

/-- Slices that share the end of a sequence return what remains of it. -/
theorem peek_beyond_sequence (sound : below.Sound sharing keeps bound) (chunk : Chunk F)
    (position length : Nat) (flags : PeekFlags) (wf : chunk.WellFormed)
    (ends : chunk.EndsInSequence) (fits : chunk.size ≤ bound + 1) (started : 0 < position)
    (inside : position ≤ chunk.getChunkLength) (beyond : chunk.getChunkLength < position + length) :
    ∃ after,
      peekUncheckedWith sharing below chunk (.forward position) length flags =
        .ok (some (.sequence after)) ∧
      Peeked chunk (chunk.getChunkLength - position) (.sequence after) ∧
      (PeekKeepsWith sharing below keeps chunk position length →
        bitsOfAll after = part chunk.bits position (chunk.getChunkLength - position)) := by
  induction wf generalizing position with
  | sequence wf positive =>
    rw [size] at fits
    exact peekSequence_beyond sound _ position length flags (.sequence wf positive) (by omega)
      started inside beyond
  | @slice chunk offset sliceLength wf within ih =>
    obtain ⟨reaches, ends⟩ := ends
    rw [getChunkLength] at inside beyond ⊢
    rw [size_slice] at fits
    obtain ⟨after, returned, peeked, bits_eq⟩ := ih (position + offset) ends fits (by omega)
      (by omega) (by omega)
    have remaining : chunk.getChunkLength - (position + offset) = sliceLength - position := by omega
    rw [remaining] at peeked bits_eq
    refine ⟨after, ?_, ⟨peeked.wf, peeked.length_eq, peeked.size_le⟩, ?_⟩
    · rw [peekUncheckedWith_slice _ _ _ _ _ _ started inside (by omega)]
      exact returned
    · intro kept
      unfold PeekKeepsWith at kept
      rcases kept with whole | kept
      · omega
      rw [bits_eq kept, bits, ← part, part_part _ _ _ _ _ (by omega), Nat.add_comm]
  | _ => cases ends

theorem peekSlice_forward (position length : Nat) :
    peekSlice chunk (.forward position) length = .ok (some (.slice chunk position length)) := by
  have nonneg : ¬(position : Int) < 0 := by omega
  have nonneg' : ¬(length : Int) < 0 := by omega
  unfold peekSlice convertedOffset
  simp only [Iterator.forward, Bool.not_true, Bool.false_and, Bool.false_eq_true, if_false, if_true,
    if_neg nonneg, if_neg nonneg', bind, Except.bind, pure, Except.pure, resolveLength_nat,
    Int.toNat_natCast]

theorem peekLeaf_started (rebuild : Iterator → Int → PeekResult F)
    (position length : Nat) (flags : PeekFlags) (started : 0 < position) (positive : 0 < length)
    (inside : position ≤ chunk.getChunkLength) :
    peekLeaf chunk rebuild (.forward position) length flags = rebuild (.forward position) length := by
  unfold Iterator.forward peekLeaf
  simp only
  rw [if_neg (by omega), if_neg (by omega), if_neg (by omega)]

/-- What any other chunk returns is longer than what remains of it. -/
theorem peek_beyond_other (sound : below.Sound sharing keeps bound) (chunk : Chunk F)
    (position length : Nat) (flags : PeekFlags) (wf : chunk.WellFormed)
    (other : ¬chunk.EndsInSequence) (fits : chunk.size ≤ bound + 1) (started : 0 < position)
    (inside : position ≤ chunk.getChunkLength) (beyond : chunk.getChunkLength < position + length)
    (peeked : Option (Chunk F))
    (returned : peekUncheckedWith sharing below chunk (.forward position) length flags =
      .ok peeked) :
    ∃ result, peeked = some result ∧ chunk.getChunkLength - position < result.getChunkLength ∧
      (result.WellFormed ∨ result.IsLeafSlice) := by
  induction wf generalizing position with
  | empty =>
    rw [getChunkLength] at inside
    omega
  | bytes bs =>
    unfold peekUncheckedWith at returned
    rw [peekLeaf_started _ _ _ _ _ started (by omega) inside] at returned
    rw [getChunkLength] at inside beyond ⊢
    unfold peekBytes at returned
    simp only [resolveLength_nat] at returned
    split at returned
    next aligned =>
      rw [if_neg (by omega), if_pos (by simp only [Iterator.forward]; omega)] at returned
      cases returned
    next =>
      rw [peekSlice_forward] at returned
      cases returned
      refine ⟨_, rfl, ?_, .inr ⟨_, _, _, rfl, by simp⟩⟩
      show _ < length
      omega
  | byteCount count data =>
    unfold peekUncheckedWith at returned
    rw [peekLeaf_started _ _ _ _ _ started (by omega) inside] at returned
    rw [getChunkLength] at inside beyond ⊢
    unfold peekByteCount at returned
    simp only [resolveLength_nat] at returned
    split at returned
    next aligned =>
      rw [if_neg (by omega)] at returned
      cases returned
      refine ⟨_, rfl, ?_, .inl (.byteCount _ _)⟩
      rw [getChunkLength]
      omega
    next =>
      rw [peekSlice_forward] at returned
      cases returned
      refine ⟨_, rfl, ?_, .inr ⟨_, _, _, rfl, by simp⟩⟩
      show _ < length
      omega
  | fields content =>
    unfold peekUncheckedWith at returned
    rw [peekLeaf_started _ _ _ _ _ started (by omega) inside, peekSlice_forward] at returned
    cases returned
    refine ⟨_, rfl, ?_, .inr ⟨_, _, _, rfl, by simp⟩⟩
    show _ < length
    omega
  | @slice chunk offset sliceLength wf within ih =>
    rw [getChunkLength] at inside beyond ⊢
    rw [size_slice] at fits
    rw [peekUncheckedWith_slice _ _ _ _ _ _ started inside (by omega)] at returned
    rcases Nat.lt_or_ge chunk.getChunkLength (position + offset + length) with past | fitting
    · by_cases ends : chunk.EndsInSequence
      · obtain ⟨after, returned', facts, _⟩ := peek_beyond_sequence sound chunk (position + offset)
          length flags wf ends fits (by omega) (by omega) past
        rw [returned'] at returned
        cases returned
        have short : offset + sliceLength ≠ chunk.getChunkLength :=
          fun reaches => other ⟨reaches, ends⟩
        refine ⟨.sequence after, rfl, ?_, .inl facts.wf⟩
        rw [facts.length_eq]
        omega
      · obtain ⟨result, rfl, longer, form⟩ := ih (position + offset) ends fits (by omega) (by omega)
          past returned
        exact ⟨result, rfl, by omega, form⟩
    · obtain ⟨result, returned', facts, _⟩ := peekUncheckedWith_peeked sound chunk
        (.forward (position + offset)) length flags wf fits (by omega) fitting
        (inRange_of_none chunk _ rfl)
      rw [returned'] at returned
      cases returned
      refine ⟨result, rfl, ?_, .inl facts.wf⟩
      rw [facts.length_eq]
      omega
  | sequence => exact absurd trivial other

/-- A slice that is inserted into a sequence adds its length, wherever it ends. -/
theorem insertAt_leafSlice_length (sharing : Sharing F) (bound : Nat)
    (elements : List (Chunk F)) (slice_ : Chunk F) (leaf : slice_.IsLeafSlice) (result : Chunk F)
    (inserted : (level sharing bound).insertAt .back (.sequence elements) slice_ = .ok result) :
    result.getChunkLength = lengthOfAll elements + slice_.getChunkLength := by
  obtain ⟨sliced, offset, length, rfl, not_sequence⟩ := leaf
  induction bound generalizing elements result with
  | zero => cases inserted
  | succ bound ih =>
    have direct : doInsert sharing (level sharing bound) .back elements
        (.slice sliced offset length) =
      doInsertChunk sharing (level sharing bound) .back elements (.slice sliced offset length) := by
      cases sliced with
      | sequence others => exact absurd rfl (not_sequence others)
      | _ => rfl
    simp only [level, insertAtWith] at inserted
    rw [direct] at inserted
    obtain ⟨after, added, ⟨⟩⟩ := bind_eq_ok.mp inserted
    show lengthOfAll after = lengthOfAll elements + length
    unfold doInsertChunk at added
    split at added
    next => cases added
    next =>
      cases found : Side.back.outermost elements with
      | none =>
        rw [found] at added
        cases added
        have nothing : elements = [] := List.getLast?_eq_none_iff.mp found
        rw [nothing, lengthOfAll_singleton, lengthOfAll, Nat.zero_add]
        rfl
      | some last =>
        rw [found] at added
        obtain ⟨others, rfl, replaced⟩ := Side.back.exists_of_outermost elements last found
        simp only at added
        split at added
        next can =>
          obtain ⟨merged, merged_eq, after_eq⟩ := bind_eq_ok.mp added
          rw [replaced] at after_eq
          cases after_eq
          have merged_length : merged.getChunkLength = last.getChunkLength + length := by
            cases bound with
            | zero => cases merged_eq
            | succ bound =>
              cases last with
              | sequence inner => exact ih inner merged merged_eq
              | slice sliced' offset' length' =>
                cases merged_eq
                rfl
              | empty => cases can
              | bytes bs => cases can
              | byteCount count data => cases can
              | fields content => cases can
          simp only [lengthOfAll_join, lengthOfAll_singleton, getChunkLength_simplify,
            merged_length, Nat.add_assoc]
        next =>
          cases added
          simp only [lengthOfAll_join, lengthOfAll_singleton]
          rfl

end Levels
end Chunk
end Inet.Packet
