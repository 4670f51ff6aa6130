import Inet.Packet.Packet
import Inet.Packet.PeekBeyond

/-!
# Editing the content of a packet

Inserting into and erasing from a content. Where the content is rebuilt as a sequence, what
is behind the edited part is peeked with a length that reaches behind the end.
-/
namespace Inet.Packet

set_option linter.dupNamespace false

open Lib

variable {F : Type} [Fields F]
variable (sharing : Sharing F) (side : Side) (elements : List (Chunk F))

namespace Chunk

/-! ### Removing from a chunk -/

/-- The chunk that is cut when bits are removed from a side loses no fill byte. -/
def DoRemoveKeeps (sharing : Sharing F) (side : Side) : List (Chunk F) → Nat → Prop
  | [], _ => True
  | chunk :: rest, length =>
    if chunk.getChunkLength ≤ length then
      if length - chunk.getChunkLength = 0 then True
      else DoRemoveKeeps sharing side rest (length - chunk.getChunkLength)
    else PeekKeeps sharing chunk (keptOffset side length) (chunk.getChunkLength - length)

def RemoveKeeps (sharing : Sharing F) (side : Side) (chunk : Chunk F) (length : Nat) : Prop :=
  match chunk with
  | .sequence chunks =>
    match side with
    | .front => DoRemoveKeeps sharing .front chunks length
    | .back => DoRemoveKeeps sharing .back chunks.reverse length
  | _ => True

/-- The elements from a side, as they are ordered in the sequence. -/
def fromSide (side : Side) (chunks : List (Chunk F)) : List (Chunk F) :=
  match side with
  | .front => chunks
  | .back => chunks.reverse

theorem wellFormed_fromSide (chunks : List (Chunk F)) :
    WellFormed (.sequence (fromSide side chunks)) ↔ WellFormed (.sequence chunks) := by
  cases side with
  | front => exact Iff.rfl
  | back =>
    refine ⟨fun wf => ?_, wellFormed_reverse chunks⟩
    have again := wellFormed_reverse _ wf
    rwa [fromSide, List.reverse_reverse] at again

theorem lengthOfAll_fromSide (chunks : List (Chunk F)) :
    lengthOfAll (fromSide side chunks) = lengthOfAll chunks := by
  cases side with
  | front => rfl
  | back => exact lengthOfAll_reverse chunks

theorem bitsOfAll_fromSide_cons (chunk : Chunk F) (rest : List (Chunk F)) :
    bitsOfAll (fromSide side (chunk :: rest)) =
      side.join (bitsOfAll (fromSide side rest)) chunk.bits := by
  cases side with
  | front => rfl
  | back => simp [fromSide, Side.join]

/-- What is left of bits when some are removed from a side. -/
def leave (side : Side) (bits : List Bool) (length : Nat) : List Bool :=
  match side with
  | .front => bits.drop length
  | .back => bits.take (bits.length - length)

theorem leave_join_over (rest outer : List Bool) (length : Nat) (exceeds : outer.length ≤ length) :
    leave side (side.join rest outer) length = leave side rest (length - outer.length) := by
  cases side with
  | front =>
    simp only [leave, Side.join, List.drop_append, List.drop_of_length_le exceeds, List.nil_append]
  | back =>
    simp only [leave, Side.join, List.length_append]
    rw [List.take_append_of_le_length (by omega)]
    congr 1
    omega

theorem leave_join_within (rest outer : List Bool) (length : Nat) (within : length ≤ outer.length) :
    leave side (side.join rest outer) length = side.join rest (leave side outer length) := by
  cases side with
  | front =>
    simp only [leave, Side.join]
    exact List.drop_append_of_le_length within
  | back =>
    simp only [leave, Side.join, List.length_append]
    rw [show rest.length + outer.length - length = rest.length + (outer.length - length) by omega,
      List.take_length_add_append]

/-- The loop removes bits from its side, cutting the last chunk it meets. -/
theorem doRemoveAt_removed {chunks : List (Chunk F)}
    (length : Nat) (wf : WellFormed (.sequence chunks)) (inside : length ≤ lengthOfAll chunks) :
    ∃ kept, doRemoveAt sharing side chunks length = .ok kept ∧ WellFormed (.sequence kept) ∧
      lengthOfAll kept = lengthOfAll chunks - length ∧
      (DoRemoveKeeps sharing side chunks length →
        bitsOfAll (fromSide side kept) = leave side (bitsOfAll (fromSide side chunks)) length) := by
  induction chunks generalizing length with
  | nil =>
    rw [lengthOfAll] at inside
    obtain rfl : length = 0 := by omega
    refine ⟨[], rfl, wf, rfl, ?_⟩
    intro _
    cases side <;> rfl
  | cons chunk rest ih =>
    obtain ⟨positive, wf_rest⟩ := wf.tail
    have wf_chunk := ((wellFormed_sequence_iff _).mp wf chunk List.mem_cons_self).1
    rw [lengthOfAll] at inside ⊢
    unfold doRemoveAt DoRemoveKeeps
    simp only
    by_cases exceeds : chunk.getChunkLength ≤ length
    · have removed := leave_join_over side (bitsOfAll (fromSide side rest)) chunk.bits length
        (by rw [wf_chunk.length_bits]; exact exceeds)
      rw [← bitsOfAll_fromSide_cons, wf_chunk.length_bits] at removed
      rw [if_pos exceeds, if_pos exceeds, removed]
      by_cases done : length - chunk.getChunkLength = 0
      · rw [if_pos done, done]
        refine ⟨rest, rfl, wf_rest, by omega, ?_⟩
        intro _
        cases side with
        | front => rfl
        | back => simp [leave]
      · rw [if_neg done, if_neg done]
        obtain ⟨kept, returned, wf_kept, length_eq, bits_eq⟩ := ih (length - chunk.getChunkLength)
          wf_rest (by omega)
        exact ⟨kept, returned, wf_kept, by omega, bits_eq⟩
    · rw [if_neg exceeds, if_neg exceeds, bitsOfAll_fromSide_cons, leave_join_within side _ _ _
        (by rw [wf_chunk.length_bits]; omega)]
      have starts : keptOffset side length + (chunk.getChunkLength - length) ≤
          chunk.getChunkLength := by
        cases side <;> simp only [keptOffset] <;> omega
      have pointed := indexConsistent_of chunk (keptOffset side length)
      obtain ⟨cut, returned, peeked, bits_eq⟩ := peek_peeked sharing chunk
        (.of (keptOffset side length)) (chunk.getChunkLength - length) {} wf_chunk (by omega) starts
        pointed.inRange
      have wf_kept : WellFormed (.sequence (cut :: rest)) := by
        rw [wellFormed_sequence_iff] at wf_rest ⊢
        intro other member
        rcases List.mem_cons.mp member with rfl | later
        · exact ⟨peeked.wf, by rw [peeked.length_eq]; omega⟩
        · exact wf_rest other later
      refine ⟨cut :: rest, ?_, wf_kept, ?_, ?_⟩
      · simp only [returned]
        rfl
      · rw [lengthOfAll, peeked.length_eq]
        omega
      · intro kept
        rw [bitsOfAll_fromSide_cons]
        congr 1
        rw [bits_eq rfl pointed kept]
        cases side with
        | front =>
          exact part_to_end _ _ _ (by
            rw [wf_chunk.length_bits]
            simp only [Iterator.of, keptOffset]
            omega)
        | back =>
          rw [leave, wf_chunk.length_bits]
          rfl

/-- Bits are removed from a side of a chunk that says they can be. -/
theorem removeAt_removed {chunk : Chunk F} {length : Nat}
    (wf : chunk.WellFormed) (can : chunk.canRemoveAt length = true)
    (inside : length ≤ chunk.getChunkLength) :
    ∃ result, removeAt sharing side chunk length = .ok result ∧ result.WellFormed ∧
      result.getChunkLength = chunk.getChunkLength - length ∧
      (RemoveKeeps sharing side chunk length → result.bits = leave side chunk.bits length) := by
  unfold removeAt
  rw [if_neg (by omega)]
  cases chunk with
  | bytes bs =>
    have aligned : length % 8 = 0 := by simpa [canRemoveAt] using can
    rw [getChunkLength] at inside ⊢
    simp only
    rw [if_neg (by omega)]
    cases side with
    | front =>
      refine ⟨_, rfl, .bytes _, ?_, ?_⟩
      · rw [getChunkLength, List.length_drop]
        omega
      · intro _
        rw [bits, bytesBits_drop, leave, bits]
        congr 1
        omega
    | back =>
      refine ⟨_, rfl, .bytes _, ?_, ?_⟩
      · rw [getChunkLength, List.length_take]
        omega
      · intro _
        rw [bits, bytesBits_take, leave, bits, length_bytesBits]
        congr 1
        omega
  | byteCount count data =>
    have aligned : length % 8 = 0 := by simpa [canRemoveAt] using can
    rw [getChunkLength] at inside ⊢
    simp only
    rw [if_neg (by omega)]
    have rest (offset : Nat) (fits : offset + (count - length / 8) ≤ count) :
        fillBits (count - length / 8) data =
          part (fillBits count data) (8 * offset) (8 * (count - length / 8)) :=
      (fillBits_part count data offset _ fits).symm
    refine ⟨_, rfl, .byteCount _ _, ?_, ?_⟩
    · rw [getChunkLength]
      omega
    · intro _
      rw [bits, bits]
      cases side with
      | front =>
        rw [rest (length / 8) (by omega), part_to_end _ _ _ (by rw [length_fillBits]; omega), leave]
        congr 1
        omega
      | back =>
        rw [rest 0 (by omega), leave, length_fillBits, Nat.mul_zero, part_zero_eq_take]
        congr 1
        omega
  | sequence chunks =>
    rw [getChunkLength] at inside ⊢
    have wf_side := (wellFormed_fromSide side chunks).mpr wf
    obtain ⟨kept, returned, wf_kept, length_eq, bits_eq⟩ := doRemoveAt_removed sharing side
      length wf_side (by rw [lengthOfAll_fromSide]; exact inside)
    rw [lengthOfAll_fromSide] at length_eq
    cases side with
    | front =>
      refine ⟨.sequence kept, ?_, wf_kept, length_eq, bits_eq⟩
      simp only
      rw [show doRemoveAt sharing .front chunks length = .ok kept from returned]
      rfl
    | back =>
      refine ⟨.sequence kept.reverse, ?_, wellFormed_reverse kept wf_kept, ?_, ?_⟩
      · simp only
        rw [show doRemoveAt sharing .back chunks.reverse length = .ok kept from returned]
        rfl
      · rw [getChunkLength, lengthOfAll_reverse, length_eq]
      · intro keeps
        have bits_kept := bits_eq keeps
        simp only [fromSide, List.reverse_reverse] at bits_kept
        exact bits_kept
  | empty => cases can
  | fields content => cases can
  | slice sliced offset sliceLength => cases can

/-! ### Building a sequence from parts -/

/-- Peeking a part and adding it to a sequence loses no fill byte. -/
def PartAdded (sharing : Sharing F) (sequenceChunk content : Chunk F) (iterator : Iterator)
    (length : Nat) (flags : PeekFlags) : Prop :=
  PeekKeeps sharing content iterator.position length ∧
    ∀ part, peek sharing content iterator length flags = .ok (some part) →
      InsertKeeps sharing .back sequenceChunk part

theorem insertAt_sequence {sharing : Sharing F} {side : Side} {elements : List (Chunk F)}
    {inserted result : Chunk F}
    (returned : insertAt sharing side (.sequence elements) inserted = .ok result) :
    ∃ after, result = .sequence after := by
  unfold insertAt at returned
  obtain ⟨bound, size_eq⟩ := Nat.exists_eq_succ_of_ne_zero
    (Nat.ne_of_gt (Nat.add_pos_left (size_pos (.sequence elements)) inserted.size))
  rw [size_eq] at returned
  obtain ⟨after, _, ⟨⟩⟩ := bind_eq_ok.mp returned
  exact ⟨after, rfl⟩

/-- Adding a chunk at the back of a sequence. -/
theorem insertAt_added {elements : List (Chunk F)} {inserted : Chunk F}
    (wf : WellFormed (.sequence elements)) (wf_inserted : inserted.WellFormed)
    (positive : 0 < inserted.getChunkLength) :
    ∃ after, insertAt sharing .back (.sequence elements) inserted = .ok (.sequence after) ∧
      WellFormed (.sequence after) ∧
      lengthOfAll after = lengthOfAll elements + inserted.getChunkLength ∧
      (InsertKeeps sharing .back (.sequence elements) inserted →
        bitsOfAll after = bitsOfAll elements ++ inserted.bits) := by
  obtain ⟨result, returned, facts⟩ := insertAt_inserted sharing .back (.sequence elements) inserted
    wf wf_inserted positive rfl
  obtain ⟨after, rfl⟩ := insertAt_sequence returned
  exact ⟨after, returned, facts.wf, facts.length_eq, facts.bits_eq⟩

/-- Adding a part that lies in the content. -/
theorem insertPart_added (content : Chunk F)
    (iterator : Iterator) (length : Nat) (flags : PeekFlags) (wf : WellFormed (.sequence elements))
    (wf_content : content.WellFormed) (forward : iterator.isForward = true)
    (pointed : IndexConsistent content iterator) (positive : 0 < length)
    (inside : iterator.position + length ≤ content.getChunkLength) :
    ∃ after, Packet.insertPart sharing (.sequence elements)
        (peek sharing content iterator length flags) = .ok (.sequence after) ∧
      WellFormed (.sequence after) ∧ lengthOfAll after = lengthOfAll elements + length ∧
      (PartAdded sharing (.sequence elements) content iterator length flags →
        bitsOfAll after = bitsOfAll elements ++ part content.bits iterator.position length) := by
  obtain ⟨result, returned, peeked, bits_eq⟩ := peek_peeked sharing content iterator length flags
    wf_content positive inside pointed.inRange
  obtain ⟨after, added, wf_after, length_eq, bits_after⟩ := insertAt_added sharing wf
    peeked.wf (by rw [peeked.length_eq]; exact positive)
  refine ⟨after, ?_, wf_after, by rw [length_eq, peeked.length_eq], ?_⟩
  · unfold Packet.insertPart
    rw [returned]
    exact added
  · intro kept
    rw [bits_after (kept.2 result returned), bits_eq forward pointed kept.1]

theorem doInsert_nil :
    insertAt sharing .back (.sequence elements) (.sequence []) = .ok (.sequence elements) := by
  unfold insertAt
  obtain ⟨bound, size_eq⟩ := Nat.exists_eq_succ_of_ne_zero (Nat.ne_of_gt
    (Nat.add_pos_left (size_pos (.sequence elements)) (size (.sequence ([] : List (Chunk F))))))
  rw [size_eq]
  rfl

/-- Adding what remains of a content that ends in a sequence. -/
theorem insertPart_remaining {elements : List (Chunk F)} {content : Chunk F}
    {position length : Nat} (flags : PeekFlags) (wf : WellFormed (.sequence elements))
    (wf_content : content.WellFormed) (ends : content.EndsInSequence) (started : 0 < position)
    (inside : position ≤ content.getChunkLength)
    (beyond : content.getChunkLength < position + length) :
    ∃ after, Packet.insertPart sharing (.sequence elements)
        (peek sharing content (.forward position) length flags) = .ok (.sequence after) ∧
      WellFormed (.sequence after) ∧
      lengthOfAll after = lengthOfAll elements + (content.getChunkLength - position) ∧
      (PartAdded sharing (.sequence elements) content (.forward position) length flags →
        bitsOfAll after = bitsOfAll elements ++ content.bits.drop position) := by
  obtain ⟨bound, size_eq⟩ := Nat.exists_eq_succ_of_ne_zero (Nat.ne_of_gt content.size_pos)
  obtain ⟨rest, returned, peeked, bits_eq⟩ := peek_beyond_sequence (level_sound sharing bound)
    content position length flags wf_content ends (by omega) started inside beyond
  have unchecked : peekUnchecked sharing content (.forward position) length flags =
      .ok (some (.sequence rest)) := by
    unfold peekUnchecked
    rw [size_eq]
    exact returned
  have peek_eq : peek sharing content (.forward position) length flags =
      .ok (some (.sequence rest)) := peek_of_unchecked unchecked
  have rest_length : lengthOfAll rest = content.getChunkLength - position := peeked.length_eq
  have kept_bits : PeekKeeps sharing content position length →
      bitsOfAll rest = content.bits.drop position := by
    intro kept
    unfold PeekKeeps at kept
    rw [size_eq] at kept
    rw [bits_eq kept]
    exact part_to_end _ _ _ (by rw [wf_content.length_bits]; omega)
  unfold Packet.insertPart
  rw [peek_eq]
  show ∃ after, insertAt sharing .back (.sequence elements) (.sequence rest) = _ ∧ _
  rcases Nat.eq_zero_or_pos (lengthOfAll rest) with nothing | positive
  · obtain rfl : rest = [] := by
      cases rest with
      | nil => rfl
      | cons chunk others =>
        have := peeked.wf.tail.1
        rw [lengthOfAll] at nothing
        omega
    refine ⟨elements, doInsert_nil sharing elements, wf, by omega, ?_⟩
    intro kept
    rw [← kept_bits kept.1, bitsOfAll, List.append_nil]
  · obtain ⟨after, added, wf_after, length_eq, bits_after⟩ := insertAt_added sharing
      wf peeked.wf positive
    refine ⟨after, added, wf_after, by rw [length_eq, getChunkLength, rest_length], ?_⟩
    intro kept
    rw [bits_after (kept.2 _ peek_eq), ← kept_bits kept.1]
    rfl

/-- Adding what a content that does not end in a sequence returns for a part that reaches
behind its end makes the sequence too long. -/
theorem insertPart_too_long (content : Chunk F)
    (position length : Nat) (flags : PeekFlags) (wf : WellFormed (.sequence elements))
    (wf_content : content.WellFormed) (other : ¬content.EndsInSequence) (started : 0 < position)
    (inside : position ≤ content.getChunkLength)
    (beyond : content.getChunkLength < position + length) (result : Chunk F)
    (added : Packet.insertPart sharing (.sequence elements)
      (peek sharing content (.forward position) length flags) = .ok result) :
    lengthOfAll elements + (content.getChunkLength - position) < result.getChunkLength := by
  obtain ⟨bound, size_eq⟩ := Nat.exists_eq_succ_of_ne_zero (Nat.ne_of_gt content.size_pos)
  obtain ⟨checked, peek_eq, inserted⟩ := bind_eq_ok.mp added
  obtain ⟨peeked, unchecked, check_eq⟩ := bind_eq_ok.mp peek_eq
  obtain rfl := checkPeekResult_eq check_eq
  unfold peekUnchecked at unchecked
  rw [size_eq] at unchecked
  obtain ⟨rest, rfl, longer, form⟩ := peek_beyond_other (level_sound sharing bound) content position
    length flags wf_content other (by omega) started inside beyond peeked unchecked
  have length_eq : result.getChunkLength = lengthOfAll elements + rest.getChunkLength := by
    rcases form with wf_rest | leaf
    · obtain ⟨after, added, _, length_eq, _⟩ := insertAt_added sharing wf wf_rest (by omega)
      simp only [added, Except.ok.injEq] at inserted
      rw [← inserted]
      exact length_eq
    · exact insertAt_leafSlice_length sharing _ elements rest leaf result inserted
  omega

end Chunk
end Inet.Packet
