import Inet.Packet.ContentEdit

/-!
# Editing packets

Inserting and erasing denote the list edits, with the separators in front of the same bits,
if the path that the representation takes is one that passes the right offset and length,
the separators are not beyond an erased part, and moved iterators have an index that the new
content has.
-/
namespace Inet.Packet

set_option linter.dupNamespace false

open Lib Chunk

variable {F : Type} [Fields F]
variable (sharing : Sharing F) (packet : Packet F) {content chunk result : Chunk F}
  {offset length : Nat}

/-! ### Rebuilding the content -/

theorem wellFormed_nil : WellFormed (.sequence ([] : List (Chunk F))) :=
  .sequence (by simp) (by simp)

/-- The part before an offset is added without loss. -/
def FrontKeeps (sharing : Sharing F) (content : Chunk F) (offset : Nat) (flags : PeekFlags) :
    Prop :=
  offset ≠ 0 → PartAdded sharing (.sequence []) content ⟨true, 0, some 0⟩ offset flags

/-- Rebuilding the content around an inserted chunk loses no fill byte. -/
def RebuildInsertingKeeps (sharing : Sharing F) (content chunk : Chunk F)
    (totalLength offset : Nat) : Prop :=
  FrontKeeps sharing content offset .allowAll ∧
    ∀ front, Packet.frontPart sharing content offset .allowAll = .ok front →
      InsertKeeps sharing .back front chunk ∧
        ∀ inserted, Chunk.insertAt sharing .back front chunk = .ok inserted →
          offset ≠ totalLength →
            PartAdded sharing inserted content (.forward offset) totalLength .allowAll

/-- Rebuilding the content around an erased part loses no fill byte. -/
def RebuildErasingKeeps (sharing : Sharing F) (content : Chunk F)
    (totalLength offset length : Nat) : Prop :=
  FrontKeeps sharing content offset {} ∧
    ∀ front, Packet.frontPart sharing content offset {} = .ok front → offset ≠ totalLength →
      PartAdded sharing front content (.forward (offset + length)) (totalLength - length) {}

theorem frontPart_added (offset : Nat)
    (flags : PeekFlags) (wf : content.WellFormed) (inside : offset ≤ content.getChunkLength) :
    ∃ front, Packet.frontPart sharing content offset flags = .ok (.sequence front) ∧
      WellFormed (.sequence front) ∧ lengthOfAll front = offset ∧
      (FrontKeeps sharing content offset flags → bitsOfAll front = content.bits.take offset) := by
  unfold Packet.frontPart
  rcases Nat.eq_zero_or_pos offset with rfl | positive
  · exact ⟨[], rfl, wellFormed_nil, rfl, fun _ => rfl⟩
  · rw [if_pos (Nat.ne_of_gt positive)]
    have pointed : IndexConsistent content ⟨true, 0, some 0⟩ := indexConsistent_of content 0
    obtain ⟨front, added, wf_front, length_eq, bits_eq⟩ := insertPart_added sharing [] content
      ⟨true, 0, some 0⟩ offset flags wellFormed_nil wf rfl pointed positive
      (by rw [Nat.zero_add]; exact inside)
    refine ⟨front, added, wf_front, by rw [length_eq, lengthOfAll, Nat.zero_add], ?_⟩
    intro kept
    rw [bits_eq (kept (Nat.ne_of_gt positive)), bitsOfAll, List.nil_append, part_zero_eq_take]

/-- What is behind a position is added, if it is peeked with its length or the content ends
in a sequence. -/
theorem backPart_added {elements : List (Chunk F)}
    {position : Nat} (length : Nat) (flags : PeekFlags) (wf : WellFormed (.sequence elements))
    (wf_content : content.WellFormed) (positive : 0 < length)
    (inside : position ≤ content.getChunkLength)
    (reaches : content.getChunkLength ≤ position + length)
    (fits : position + length = content.getChunkLength ∨ content.EndsInSequence)
    (started : position = 0 → length = content.getChunkLength) :
    ∃ after, Packet.insertPart sharing (.sequence elements)
        (peek sharing content (.forward position) length flags) = .ok (.sequence after) ∧
      WellFormed (.sequence after) ∧
      lengthOfAll after = lengthOfAll elements + (content.getChunkLength - position) ∧
      (PartAdded sharing (.sequence elements) content (.forward position) length flags →
        bitsOfAll after = bitsOfAll elements ++ content.bits.drop position) := by
  rcases Nat.lt_or_ge content.getChunkLength (position + length) with beyond | within
  · exact insertPart_remaining sharing flags wf wf_content
      (fits.resolve_left (by omega)) (by omega) inside beyond
  · have pointed : IndexConsistent content (.forward position) := by
      cases content <;> simp [IndexConsistent, Iterator.forward]
    obtain ⟨after, added, wf_after, length_eq, bits_eq⟩ := insertPart_added sharing elements content
      (.forward position) length flags wf wf_content rfl pointed positive within
    refine ⟨after, added, wf_after, by omega, ?_⟩
    intro kept
    rw [bits_eq kept]
    congr 1
    exact part_to_end _ _ _ (by rw [wf_content.length_bits]; exact reaches)

theorem rebuildInserting_inserted
    (wf : content.WellFormed) (wf_chunk : chunk.WellFormed) (positive : 0 < chunk.getChunkLength)
    (inside : offset ≤ content.getChunkLength)
    (fits : offset = 0 ∨ offset = content.getChunkLength ∨ content.EndsInSequence) :
    ∃ result, Packet.rebuildInserting sharing content chunk content.getChunkLength offset =
        .ok result ∧ result.WellFormed ∧
      result.getChunkLength = content.getChunkLength + chunk.getChunkLength ∧
      (RebuildInsertingKeeps sharing content chunk content.getChunkLength offset →
        result.bits = content.bits.take offset ++ chunk.bits ++ content.bits.drop offset) := by
  obtain ⟨front, front_eq, wf_front, front_length, front_bits⟩ := frontPart_added sharing
    offset .allowAll wf inside
  obtain ⟨middle, middle_eq, wf_middle, middle_length, middle_bits⟩ := insertAt_added sharing
    wf_front wf_chunk positive
  unfold Packet.rebuildInserting
  rw [front_eq, ok_bind, middle_eq, ok_bind]
  by_cases last : offset = content.getChunkLength
  · rw [if_neg (by simp [last])]
    refine ⟨.sequence middle, rfl, wf_middle, ?_, ?_⟩
    · rw [getChunkLength, middle_length]
      omega
    · intro kept
      rw [bits, middle_bits (kept.2 _ front_eq).1, front_bits kept.1,
        List.drop_of_length_le (by rw [wf.length_bits]; omega), List.append_nil]
  · rw [if_pos last]
    obtain ⟨after, added, wf_after, length_eq, bits_eq⟩ := backPart_added sharing
      content.getChunkLength .allowAll wf_middle wf (by omega) inside (by omega)
      (by rcases fits with rfl | whole | ends
          · exact .inl (Nat.zero_add _)
          · exact absurd whole last
          · exact .inr ends) (fun _ => rfl)
    refine ⟨.sequence after, added, wf_after, ?_, ?_⟩
    · rw [getChunkLength, length_eq, middle_length]
      omega
    · intro kept
      have rest := kept.2 _ front_eq
      rw [bits, bits_eq (rest.2 _ middle_eq last), middle_bits rest.1, front_bits kept.1]

theorem rebuildInserting_too_long {sharing : Sharing F}
    (wf : content.WellFormed) (wf_chunk : chunk.WellFormed) (positive : 0 < chunk.getChunkLength)
    (started : 0 < offset) (inside : offset < content.getChunkLength)
    (other : ¬content.EndsInSequence)
    (rebuilt : Packet.rebuildInserting sharing content chunk content.getChunkLength offset =
      .ok result) :
    content.getChunkLength + chunk.getChunkLength < result.getChunkLength := by
  obtain ⟨front, front_eq, wf_front, front_length, _⟩ := frontPart_added sharing offset
    .allowAll wf (by omega)
  obtain ⟨middle, middle_eq, wf_middle, middle_length, _⟩ := insertAt_added sharing
    wf_front wf_chunk positive
  unfold Packet.rebuildInserting at rebuilt
  rw [front_eq, ok_bind, middle_eq, ok_bind, if_pos (by omega)] at rebuilt
  have longer := insertPart_too_long sharing middle content offset content.getChunkLength .allowAll
    wf_middle wf other started (by omega) (by omega) result rebuilt
  omega

theorem rebuildErasing_erased
    (wf : content.WellFormed) (inside : offset + length ≤ content.getChunkLength)
    (left : length ≠ content.getChunkLength)
    (fits : offset = 0 ∨ offset = content.getChunkLength ∨ content.EndsInSequence) :
    ∃ result, Packet.rebuildErasing sharing content content.getChunkLength offset length =
        .ok result ∧ result.WellFormed ∧
      result.getChunkLength = content.getChunkLength - length ∧
      (RebuildErasingKeeps sharing content content.getChunkLength offset length →
        result.bits = content.bits.take offset ++ content.bits.drop (offset + length)) := by
  obtain ⟨front, front_eq, wf_front, front_length, front_bits⟩ := frontPart_added sharing
    offset {} wf (by omega)
  unfold Packet.rebuildErasing
  rw [front_eq, ok_bind]
  by_cases last : offset = content.getChunkLength
  · rw [if_neg (by simp [last])]
    refine ⟨.sequence front, rfl, wf_front, ?_, ?_⟩
    · rw [getChunkLength, front_length]
      omega
    · intro kept
      rw [bits, front_bits kept.1, List.drop_of_length_le (by rw [wf.length_bits]; omega),
        List.append_nil]
  · rw [if_pos last]
    obtain ⟨after, added, wf_after, length_eq, bits_eq⟩ := backPart_added sharing
      (content.getChunkLength - length) {} wf_front wf (by omega) inside (by omega)
      (by rcases fits with rfl | whole | ends
          · exact .inl (by omega)
          · exact absurd whole last
          · exact .inr ends) (by omega)
    refine ⟨.sequence after, added, wf_after, ?_, ?_⟩
    · rw [getChunkLength, length_eq]
      omega
    · intro kept
      rw [bits, bits_eq (kept.2 _ front_eq last), front_bits kept.1]

theorem rebuildErasing_too_long {sharing : Sharing F}
    (wf : content.WellFormed) (started : 0 < offset) (before : offset < content.getChunkLength)
    (inside : offset + length ≤ content.getChunkLength) (other : ¬content.EndsInSequence)
    (rebuilt : Packet.rebuildErasing sharing content content.getChunkLength offset length =
      .ok result) :
    content.getChunkLength - length < result.getChunkLength := by
  obtain ⟨front, front_eq, wf_front, front_length, _⟩ := frontPart_added sharing offset {} wf
    (by omega)
  unfold Packet.rebuildErasing at rebuilt
  rw [front_eq, ok_bind, if_pos (by omega)] at rebuilt
  have longer := insertPart_too_long sharing front content (offset + length)
    (content.getChunkLength - length) {} wf_front wf other (by omega) inside (by omega) result rebuilt
  omega

/-! ### Inserting into the content -/

/-- The offset and the representations for which the inserted chunk ends up at the offset. -/
def InsertFits (content chunk : Chunk F) (offset : Nat) : Prop :=
  offset = 0 ∨ offset = content.getChunkLength ∨
    match content, chunk with
    | .bytes _, .bytes _ => offset % 8 = 0
    | .byteCount count data, .byteCount count' data' =>
      fillBits count' data' = part (fillBits (count + count') data) offset (8 * count')
    | content, _ => content.EndsInSequence

/-- Inserting into the content loses no fill byte. -/
def InsertContentKeeps (sharing : Sharing F) (content chunk : Chunk F) (offset : Nat) : Prop :=
  if content.isSingleton then True
  else if offset = 0 ∧ canInsertAt sharing .front content chunk then
    InsertKeeps sharing .front content chunk
  else if offset = content.getChunkLength ∧ canInsertAt sharing .back content chunk then
    InsertKeeps sharing .back content chunk
  else if canInsertAtMiddle content chunk then True
  else RebuildInsertingKeeps sharing content chunk content.getChunkLength offset

/-- The bits of a content with others inserted. -/
def insertedBits (content inserted : List Bool) (offset : Nat) : List Bool :=
  content.take offset ++ inserted ++ content.drop offset

theorem insertFits_rebuilt (rebuilt : ¬canInsertAtMiddle content chunk = true) :
    InsertFits content chunk offset ↔
      offset = 0 ∨ offset = content.getChunkLength ∨ content.EndsInSequence := by
  unfold InsertFits
  cases content with
  | bytes bs =>
    cases chunk with
    | bytes bs' => exact absurd rfl rebuilt
    | _ => rfl
  | byteCount count data =>
    cases chunk with
    | byteCount count' data' => exact absurd rfl rebuilt
    | _ => rfl
  | _ => rfl

/-- Fill bits before and behind inserted ones are fill bits around them. -/
theorem insertedBits_fillBits {count : Nat} (count' : Nat) (data : UInt8) (inserted : List Bool)
    (inside : offset ≤ 8 * count) (length_eq : inserted.length = 8 * count') :
    fillBits (count + count') data = insertedBits (fillBits count data) inserted offset ↔
      inserted = part (fillBits (count + count') data) offset (8 * count') := by
  have front : (fillBits (count + count') data).take offset = (fillBits count data).take offset := by
    rw [fillBits_add, List.take_append_of_le_length (by rw [length_fillBits]; exact inside)]
  have back : (fillBits (count + count') data).drop (offset + 8 * count') =
      (fillBits count data).drop offset := by
    rw [Nat.add_comm count, fillBits_add, List.drop_append, length_fillBits,
      List.drop_of_length_le (by rw [length_fillBits]; omega), List.nil_append,
      Nat.add_sub_cancel]
  have whole : fillBits (count + count') data = insertedBits (fillBits count data)
      (part (fillBits (count + count') data) offset (8 * count')) offset := by
    rw [insertedBits, ← front, ← back, part, List.append_assoc, ← List.drop_drop,
      List.take_append_drop, List.take_append_drop]
  constructor
  · intro same
    have front_length : ((fillBits count data).take offset).length = offset := by
      rw [List.length_take, length_fillBits]
      omega
    rw [same, insertedBits, part_append_left _ _ _ _ (Nat.le_of_eq (by
        rw [List.length_append, front_length, length_eq])),
      part_append_right _ _ _ _ (by omega), front_length, Nat.sub_self,
      part_of_length _ _ length_eq.symm]
  · intro same
    rw [same]
    exact whole

/-- An insertion at a side, simplified. -/
theorem insertAt_simplified (side : Side) (content chunk : Chunk F)
    (wf : content.WellFormed) (wf_chunk : chunk.WellFormed) (positive : 0 < chunk.getChunkLength)
    (can : canInsertAt sharing side content chunk = true) :
    ∃ result, (do
        let newContent ← Chunk.insertAt sharing side content chunk
        return newContent.simplify) = .ok result ∧ result.WellFormed ∧
      result.getChunkLength = content.getChunkLength + chunk.getChunkLength ∧
      (InsertKeeps sharing side content chunk →
        result.bits = side.join content.bits chunk.bits) := by
  obtain ⟨result, inserted, facts⟩ := insertAt_inserted sharing side content chunk wf wf_chunk
    positive can
  refine ⟨result.simplify, ?_, facts.wf.simplify, ?_, ?_⟩
  · rw [inserted]
    rfl
  · rw [getChunkLength_simplify, facts.length_eq]
  · intro kept
    rw [bits_simplify facts.wf, facts.bits_eq kept]

theorem insertContent_inserted (content chunk : Chunk F) (offset : Nat)
    (wf : content.WellFormed) (wf_chunk : chunk.WellFormed) (positive : 0 < chunk.getChunkLength)
    (inside : offset ≤ content.getChunkLength) (fits : InsertFits content chunk offset) :
    ∃ result, Packet.insertContent sharing content chunk content.getChunkLength offset =
        .ok result ∧ result.WellFormed ∧
      result.getChunkLength = content.getChunkLength + chunk.getChunkLength ∧
      (InsertContentKeeps sharing content chunk offset →
        result.bits = insertedBits content.bits chunk.bits offset) := by
  unfold Packet.insertContent InsertContentKeeps
  by_cases nothing : content.isSingleton = true
  · rw [if_pos nothing]
    obtain rfl : content = .empty := by
      cases content <;> first | rfl | cases nothing
    rw [getChunkLength] at inside
    obtain rfl : offset = 0 := by omega
    refine ⟨chunk, rfl, wf_chunk, by rw [getChunkLength, Nat.zero_add], ?_⟩
    intro _
    simp [insertedBits, bits]
  rw [if_neg nothing, if_neg nothing]
  by_cases front : offset = 0 ∧ canInsertAt sharing .front content chunk = true
  · obtain ⟨rfl, can⟩ := front
    rw [if_pos ⟨rfl, can⟩, if_pos ⟨rfl, can⟩]
    obtain ⟨result, returned, wf_result, length_eq, bits_eq⟩ := insertAt_simplified sharing .front
      content chunk wf wf_chunk positive can
    exact ⟨result, returned, wf_result, length_eq, bits_eq⟩
  rw [if_neg front, if_neg front]
  by_cases back : offset = content.getChunkLength ∧ canInsertAt sharing .back content chunk = true
  · rw [if_pos back, if_pos back]
    obtain ⟨rfl, can⟩ := back
    obtain ⟨result, returned, wf_result, length_eq, bits_eq⟩ := insertAt_simplified sharing .back
      content chunk wf wf_chunk positive can
    refine ⟨result, returned, wf_result, length_eq, ?_⟩
    intro kept
    rw [bits_eq kept, insertedBits, List.drop_of_length_le (Nat.le_of_eq wf.length_bits),
      List.take_of_length_le (Nat.le_of_eq wf.length_bits), List.append_nil]
    rfl
  rw [if_neg back, if_neg back]
  by_cases middle : canInsertAtMiddle content chunk = true
  · rw [if_pos middle, if_pos middle]
    unfold canInsertAtMiddle at middle
    split at middle
    next bs bs' =>
      have between : offset ≠ 0 ∧ offset ≠ getChunkLength (.bytes bs : Chunk F) :=
        ⟨fun start => front ⟨start, rfl⟩, fun last => back ⟨last, rfl⟩⟩
      have aligned : offset % 8 = 0 := (fits.resolve_left between.1).resolve_left between.2
      rw [getChunkLength] at inside
      unfold insertAtMiddle
      rw [getChunkLength, if_neg (by omega)]
      simp only
      rw [if_neg (by omega)]
      refine ⟨_, rfl, .bytes _, ?_, ?_⟩
      · simp only [simplify, getChunkLength, List.length_append, List.length_take, List.length_drop]
        omega
      · intro _
        simp only [simplify, bits, bytesBits_append, bytesBits_take, bytesBits_drop, insertedBits]
        rw [show 8 * (offset / 8) = offset by omega]
    next count data count' data' =>
      have between : offset ≠ 0 ∧ offset ≠ getChunkLength (.byteCount count data : Chunk F) :=
        ⟨fun start => front ⟨start, rfl⟩, fun last => back ⟨last, rfl⟩⟩
      have same := (fits.resolve_left between.1).resolve_left between.2
      rw [getChunkLength] at inside
      unfold insertAtMiddle
      rw [getChunkLength, if_neg (by omega)]
      refine ⟨_, rfl, .byteCount _ _, ?_, ?_⟩
      · simp only [simplify, getChunkLength]
        omega
      · intro _
        exact (insertedBits_fillBits count' data _ inside (length_fillBits _ _)).mpr same
    next => cases middle
  · rw [if_neg middle, if_neg middle]
    exact rebuildInserting_inserted sharing wf wf_chunk positive inside
      ((insertFits_rebuilt middle).mp fits)

/-- Where the insertion does not fit, the content has other bits or another length. -/
theorem insertContent_misfit {sharing : Sharing F}
    (wf : content.WellFormed) (wf_chunk : chunk.WellFormed) (positive : 0 < chunk.getChunkLength)
    (inside : offset ≤ content.getChunkLength) (misfit : ¬InsertFits content chunk offset)
    (inserted : Packet.insertContent sharing content chunk content.getChunkLength offset =
      .ok result)
    (length_eq : result.getChunkLength = content.getChunkLength + chunk.getChunkLength) :
    result.bits ≠ insertedBits content.bits chunk.bits offset := by
  have between : 0 < offset ∧ offset < content.getChunkLength := by
    constructor
    · exact Nat.pos_of_ne_zero fun start => misfit (.inl start)
    · exact Nat.lt_of_le_of_ne inside fun last => misfit (.inr (.inl last))
  unfold Packet.insertContent at inserted
  rw [if_neg (by
      cases content with
      | empty =>
        rw [getChunkLength] at between
        omega
      | _ => exact Bool.false_ne_true), if_neg (by omega), if_neg (by omega)] at inserted
  by_cases middle : canInsertAtMiddle content chunk = true
  · rw [if_pos middle] at inserted
    unfold canInsertAtMiddle at middle
    split at middle
    next bs bs' =>
      have unaligned : offset % 8 ≠ 0 := fun aligned => misfit (.inr (.inr aligned))
      unfold insertAtMiddle at inserted
      rw [if_neg (by omega)] at inserted
      simp only at inserted
      rw [if_pos unaligned] at inserted
      cases inserted
    next count data count' data' =>
      unfold insertAtMiddle at inserted
      rw [if_neg (by omega)] at inserted
      cases inserted
      intro same
      exact misfit (.inr (.inr ((insertedBits_fillBits count' data _ inside
        (length_fillBits _ _)).mp same)))
    next => cases middle
  · rw [if_neg middle] at inserted
    have longer := rebuildInserting_too_long wf wf_chunk positive
      between.1 between.2 (fun ends => misfit ((insertFits_rebuilt middle).mpr (.inr (.inr ends))))
      inserted
    omega

/-! ### Erasing from the content -/

/-- The offset, the length and the representations for which the designated part is erased. -/
def EraseFits (content : Chunk F) (offset length : Nat) : Prop :=
  offset = 0 ∨ offset = content.getChunkLength ∨
    (canRemoveAtMiddle content offset length = true ∧ length = offset) ∨
    (offset + length = content.getChunkLength ∧ content.canRemoveAt length = true) ∨
    content.EndsInSequence

/-- Erasing from the content loses no fill byte. -/
def EraseContentKeeps (sharing : Sharing F) (content : Chunk F) (offset length : Nat) : Prop :=
  if content.getChunkLength = length then True
  else if offset = 0 ∧ content.canRemoveAt length then RemoveKeeps sharing .front content length
  else if offset + length = content.getChunkLength ∧ content.canRemoveAt length then
    RemoveKeeps sharing .back content length
  else if canRemoveAtMiddle content offset length then True
  else RebuildErasingKeeps sharing content content.getChunkLength offset length

/-- The bits of a content without some of them. -/
def erasedBits (content : List Bool) (offset length : Nat) : List Bool :=
  content.take offset ++ content.drop (offset + length)

/-- A removal at a side, simplified. -/
theorem removeAt_simplified (side : Side) (content : Chunk F) (length : Nat)
    (wf : content.WellFormed) (can : content.canRemoveAt length = true)
    (inside : length ≤ content.getChunkLength) :
    ∃ result, (do
        let newContent ← Chunk.removeAt sharing side content length
        return newContent.simplify) = .ok result ∧ result.WellFormed ∧
      result.getChunkLength = content.getChunkLength - length ∧
      (RemoveKeeps sharing side content length →
        result.bits = leave side content.bits length) := by
  obtain ⟨result, removed, wf_result, length_eq, bits_eq⟩ := removeAt_removed sharing side
    wf can inside
  refine ⟨result.simplify, ?_, wf_result.simplify, ?_, ?_⟩
  · rw [removed]
    rfl
  · rw [getChunkLength_simplify, length_eq]
  · intro kept
    rw [bits_simplify wf_result, bits_eq kept]

theorem removeAtMiddle_length (can : canRemoveAtMiddle content offset length = true)
    (removed : removeAtMiddle content offset offset = .ok result) :
    2 * offset ≤ content.getChunkLength ∧
      result.getChunkLength = content.getChunkLength - offset := by
  unfold removeAtMiddle at removed
  split at removed
  next => cases removed
  next =>
    split at removed
    next => cases removed
    next inside =>
      cases content with
      | bytes bs =>
        have aligned : offset % 8 = 0 ∧ length % 8 = 0 := by
          simpa [canRemoveAtMiddle] using can
        simp only at removed
        rw [if_neg (by omega)] at removed
        cases removed
        simp only [getChunkLength, List.length_append, List.length_take, List.length_drop] at *
        omega
      | byteCount count data =>
        have aligned : offset % 8 = 0 ∧ length % 8 = 0 := by
          simpa [canRemoveAtMiddle] using can
        simp only at removed
        rw [if_neg (by omega)] at removed
        cases removed
        simp only [getChunkLength] at *
        omega
      | _ => cases can

/-- The part of the length of its offset is what is removed in the middle. -/
theorem removeAtMiddle_erased (can : canRemoveAtMiddle content offset offset = true)
    (inside : offset + offset ≤ content.getChunkLength) :
    ∃ result, removeAtMiddle content offset offset = .ok result ∧ result.WellFormed ∧
      result.simplify = result ∧ result.bits = erasedBits content.bits offset offset := by
  unfold removeAtMiddle
  rw [if_neg (by omega), if_neg (by omega)]
  cases content with
  | bytes bs =>
    have aligned : offset % 8 = 0 := by simpa [canRemoveAtMiddle] using can
    simp only
    rw [if_neg (by omega)]
    refine ⟨_, rfl, .bytes _, rfl, ?_⟩
    simp only [bits, bytesBits_append, bytesBits_take, bytesBits_drop, erasedBits]
    rw [show 8 * (offset / 8) = offset by omega,
      show 8 * (offset / 8 + offset / 8) = offset + offset by omega]
  | byteCount count data =>
    have aligned : offset % 8 = 0 := by simpa [canRemoveAtMiddle] using can
    rw [getChunkLength] at inside
    simp only
    rw [if_neg (by omega)]
    refine ⟨_, rfl, .byteCount _ _, rfl, ?_⟩
    have front := fillBits_part count data 0 (offset / 8) (by omega)
    have back := fillBits_part count data (offset / 8 + offset / 8)
      (count - (offset / 8 + offset / 8)) (by omega)
    rw [part_to_end _ _ _ (by rw [length_fillBits]; omega),
      show 8 * (offset / 8 + offset / 8) = offset + offset by omega] at back
    rw [Nat.mul_zero, part_zero_eq_take, show 8 * (offset / 8) = offset by omega] at front
    rw [bits, bits, erasedBits, front, back, ← fillBits_add]
    congr 1
    omega
  | _ => cases can

theorem eraseContent_erased (content : Chunk F) (offset length : Nat)
    (wf : content.WellFormed) (inside : offset + length ≤ content.getChunkLength)
    (fits : EraseFits content offset length) :
    ∃ result, Packet.eraseContent sharing content content.getChunkLength offset length =
        .ok result ∧ result.WellFormed ∧
      result.getChunkLength = content.getChunkLength - length ∧
      (EraseContentKeeps sharing content offset length →
        result.bits = erasedBits content.bits offset length) := by
  have total := wf.length_bits
  unfold Packet.eraseContent EraseContentKeeps
  by_cases all : content.getChunkLength = length
  · rw [if_pos all]
    obtain rfl : offset = 0 := by omega
    refine ⟨.empty, rfl, .empty, by rw [getChunkLength]; omega, ?_⟩
    intro _
    rw [erasedBits, List.take_zero, List.drop_of_length_le (by omega)]
    rfl
  rw [if_neg all, if_neg all]
  by_cases front : offset = 0 ∧ content.canRemoveAt length = true
  · rw [if_pos front, if_pos front]
    obtain ⟨rfl, can⟩ := front
    obtain ⟨result, returned, wf_result, length_eq, bits_eq⟩ := removeAt_simplified sharing .front
      content length wf can (by omega)
    refine ⟨result, returned, wf_result, length_eq, ?_⟩
    intro kept
    rw [bits_eq kept, erasedBits, List.take_zero, Nat.zero_add]
    rfl
  rw [if_neg front, if_neg front]
  by_cases back : offset + length = content.getChunkLength ∧ content.canRemoveAt length = true
  · rw [if_pos back, if_pos back]
    obtain ⟨result, returned, wf_result, length_eq, bits_eq⟩ := removeAt_simplified sharing .back
      content length wf back.2 (by omega)
    refine ⟨result, returned, wf_result, length_eq, ?_⟩
    intro kept
    rw [bits_eq kept, erasedBits, List.drop_of_length_le (by omega), List.append_nil, leave, total]
    congr 1
    omega
  rw [if_neg back, if_neg back]
  by_cases middle : canRemoveAtMiddle content offset length = true
  · rw [if_pos middle, if_pos middle]
    have can : content.canRemoveAt length = true := by
      cases content <;> simp_all [canRemoveAtMiddle, canRemoveAt]
    have same : length = offset := by
      rcases fits with start | last | ⟨_, same⟩ | reaches | ends
      · exact absurd ⟨start, can⟩ front
      · exact absurd ⟨by omega, can⟩ back
      · exact same
      · exact absurd reaches back
      · cases content <;> simp_all [canRemoveAtMiddle, EndsInSequence]
    subst same
    obtain ⟨result, removed, wf_result, simplified, bits_eq⟩ := removeAtMiddle_erased middle inside
    refine ⟨result, ?_, wf_result, (removeAtMiddle_length middle removed).2, fun _ => bits_eq⟩
    rw [removed, ok_bind, simplified]
    rfl
  · rw [if_neg middle, if_neg middle]
    refine rebuildErasing_erased sharing wf inside (by omega) ?_
    rcases fits with start | last | ⟨can, _⟩ | reaches | ends
    · exact .inl start
    · exact .inr (.inl last)
    · exact absurd can middle
    · exact absurd reaches back
    · exact .inr (.inr ends)

/-- Where the erasure does not fit, the content has another length. -/
theorem eraseContent_misfit {sharing : Sharing F}
    (wf : content.WellFormed) (inside : offset + length ≤ content.getChunkLength)
    (misfit : ¬EraseFits content offset length)
    (erased : Packet.eraseContent sharing content content.getChunkLength offset length =
      .ok result) :
    result.getChunkLength ≠ content.getChunkLength - length := by
  have started : 0 < offset := Nat.pos_of_ne_zero fun start => misfit (.inl start)
  have before : offset < content.getChunkLength :=
    Nat.lt_of_le_of_ne (by omega) fun last => misfit (.inr (.inl last))
  have not_back : ¬(offset + length = content.getChunkLength ∧ content.canRemoveAt length = true) :=
    fun back => misfit (.inr (.inr (.inr (.inl back))))
  unfold Packet.eraseContent at erased
  rw [if_neg (by omega), if_neg (by omega), if_neg not_back] at erased
  by_cases middle : canRemoveAtMiddle content offset length = true
  · rw [if_pos middle] at erased
    obtain ⟨newContent, removed, ⟨⟩⟩ := bind_eq_ok.mp erased
    have removed_length := removeAtMiddle_length middle removed
    have other : length ≠ offset := fun same => misfit (.inr (.inr (.inl ⟨middle, same⟩)))
    rw [getChunkLength_simplify]
    omega
  · rw [if_neg middle] at erased
    have longer := rebuildErasing_too_long wf started before inside
      (fun ends => misfit (.inr (.inr (.inr (.inr ends))))) erased
    omega

/-! ### Moving the separators -/

theorem moveIterator_returns_iff (content : Chunk F) (iterator : Iterator) (length : Int) :
    (∃ moved, content.moveIterator iterator length = .ok moved) ↔
      IndexInRange content iterator := by
  obtain ⟨isForward, position, index⟩ := iterator
  cases content with
  | sequence chunks =>
    unfold moveIterator IndexInRange
    cases index with
    | none => simp
    | some index =>
      simp only [Option.some.injEq, forall_eq']
      by_cases last : index = chunks.length
      · simp [last]
      rw [if_neg last, getElementChunk_eq]
      rcases Nat.lt_or_ge index chunks.length with inside | beyond
      · rw [List.getElem?_eq_getElem (by rw [length_directed]; exact inside)]
        refine iff_of_true ?_ (by omega)
        simp only
        split <;> exact ⟨_, rfl⟩
      · rw [List.getElem?_eq_none (by rw [length_directed]; exact beyond)]
        refine iff_of_false (by simp) (by omega)
  | _ => exact iff_of_true ⟨_, rfl⟩ trivial

theorem moveIterator_position {iterator moved : Iterator} {length : Int}
    (returned : content.moveIterator iterator length = .ok moved) :
    moved.position = (iterator.position + length).toNat := by
  cases content with
  | sequence chunks =>
    unfold moveIterator at returned
    simp only at returned
    split at returned
    next => cases returned; rfl
    next =>
      split at returned
      next => cases returned; rfl
      next =>
        split at returned
        next => cases returned
        next =>
          split at returned
          next => cases returned; rfl
          next => cases returned; rfl
  | _ => cases returned; rfl

theorem moveIf_returns_iff (condition : Prop) [Decidable condition] (content : Chunk F)
    (iterator : Iterator) (length : Int) :
    (∃ moved, Packet.moveIf condition content iterator length = .ok moved) ↔
      (condition → IndexInRange content iterator) := by
  unfold Packet.moveIf
  by_cases holds : condition
  · simpa [holds] using moveIterator_returns_iff content iterator length
  · simp [holds]

theorem moveIf_position {condition : Prop} [Decidable condition]
    {iterator moved : Iterator} {length : Int}
    (returned : Packet.moveIf condition content iterator length = .ok moved) :
    moved.position =
      if condition then (iterator.position + length).toNat else iterator.position := by
  unfold Packet.moveIf at returned
  by_cases holds : condition
  · rw [if_pos (decide_eq_true holds)] at returned
    rw [if_pos holds, moveIterator_position returned]
  · rw [if_neg (by simpa using holds)] at returned
    cases returned
    rw [if_neg holds]

namespace Packet

/-! ### Edited packets -/

/-- The content and the positions of the separators after an edit. -/
structure EditedTo (edited : Packet F) (bits : List Bool) (front back : Nat) : Prop where
  bits_eq : edited.content.bits = bits
  total : edited.totalLength = edited.content.getChunkLength
  front : edited.frontIterator.position = front
  back : edited.backIterator.position = back

/-- A chunk is inserted at an offset; a separator behind the offset moves with its bits. -/
def InsertsAt (sharing : Sharing F) (packet : Packet F) (chunk : Chunk F) (offset : Nat) : Prop :=
  ∃ edited, packet.insertAt sharing chunk offset = .ok edited ∧
    edited.EditedTo (insertedBits packet.content.bits chunk.bits offset)
      (packet.frontIterator.position +
        if offset < packet.frontIterator.position then chunk.getChunkLength else 0)
      (packet.backIterator.position +
        if packet.totalLength - packet.backIterator.position < offset then chunk.getChunkLength
        else 0)

/-- A part is erased; a separator moves by what is erased on its outer side. -/
def ErasesAt (sharing : Sharing F) (packet : Packet F) (offset length : Nat) : Prop :=
  ∃ edited, packet.eraseAt sharing offset length = .ok edited ∧
    edited.EditedTo (erasedBits packet.content.bits offset length)
      (packet.frontIterator.position - min length (packet.frontIterator.position - offset))
      (packet.backIterator.position - min length
        (offset + length - (packet.totalLength - packet.backIterator.position)))

/-- The index of an iterator that is moved is one that the new content has. -/
def InsertMovesInRange (sharing : Sharing F) (packet : Packet F) (chunk : Chunk F)
    (offset : Nat) : Prop :=
  ∀ content, insertContent sharing packet.content chunk packet.totalLength offset = .ok content →
    (offset < packet.frontIterator.position → IndexInRange content packet.frontIterator) ∧
    (packet.totalLength - packet.backIterator.position < offset →
      IndexInRange content packet.backIterator)

/-- The index of an iterator that is moved is one that the new content has. -/
def EraseMovesInRange (sharing : Sharing F) (packet : Packet F) (offset length : Nat) : Prop :=
  ∀ content, eraseContent sharing packet.content packet.totalLength offset length = .ok content →
    (offset < packet.frontIterator.position → IndexInRange content packet.frontIterator) ∧
    (packet.totalLength - packet.backIterator.position < offset + length →
      IndexInRange content packet.backIterator)

/-- No separator is beyond the erased part. -/
def SeparatorsReached (packet : Packet F) (offset length : Nat) : Prop :=
  packet.frontIterator.position ≤ offset + length ∧
    offset ≤ packet.totalLength - packet.backIterator.position

theorem insertAt_eq_ok (offset : Nat)
    (positive : 0 < chunk.getChunkLength) (inside : offset ≤ packet.totalLength)
    (edited : Packet F) :
    packet.insertAt sharing chunk offset = .ok edited ↔
      ∃ content, insertContent sharing packet.content chunk packet.totalLength offset =
          .ok content ∧
        ∃ front, moveIf (offset < packet.getFrontOffset) content packet.frontIterator
          chunk.getChunkLength = .ok front ∧
        ∃ back, moveIf (packet.getBackOffset < offset) content packet.backIterator
          chunk.getChunkLength = .ok back ∧
        edited = ⟨content, front, back, packet.totalLength + chunk.getChunkLength⟩ := by
  unfold insertAt
  rw [if_neg (by omega), if_neg (by omega)]
  simp only [bind_eq_ok, pure, Except.pure, Except.ok.injEq, @eq_comm _ edited]

theorem eraseAt_eq_ok {packet : Packet F}
    (inside : offset + length ≤ packet.totalLength) (edited : Packet F) :
    packet.eraseAt sharing offset length = .ok edited ↔
      ∃ content, eraseContent sharing packet.content packet.totalLength offset length =
          .ok content ∧
        ∃ front, moveIf (decide ((0 : Int) < packet.getFrontOffset - offset)) content
          packet.frontIterator (-(packet.getFrontOffset - offset)) = .ok front ∧
        ∃ back, moveIf (decide ((0 : Int) < offset + length - packet.getBackOffset)) content
          packet.backIterator (-(offset + length - packet.getBackOffset)) = .ok back ∧
        edited = ⟨content, front, back, packet.totalLength - length⟩ := by
  unfold eraseAt
  rw [if_neg (by omega), if_neg (by omega)]
  simp only [bind_eq_ok, pure, Except.pure, Except.ok.injEq, @eq_comm _ edited]

theorem insertsAt_iff {sharing : Sharing F}
    (consistent : packet.IsConsistent) (wf_chunk : chunk.WellFormed)
    (positive : 0 < chunk.getChunkLength) (inside : offset ≤ packet.totalLength)
    (kept : InsertContentKeeps sharing packet.content chunk offset) :
    packet.InsertsAt sharing chunk offset ↔
      InsertFits packet.content chunk offset ∧ packet.InsertMovesInRange sharing chunk offset := by
  obtain ⟨wf, total, _, _, separated, _, _⟩ := consistent
  have back_iff : (packet.getBackOffset < offset) ↔
      packet.totalLength - packet.backIterator.position < offset := by
    unfold getBackOffset
    omega
  unfold InsertsAt InsertMovesInRange
  simp only [insertAt_eq_ok sharing packet offset positive inside]
  rw [← total] at inside ⊢
  constructor
  · rintro ⟨_, ⟨content, content_eq, front, front_eq, back, back_eq, rfl⟩, edited⟩
    refine ⟨?_, ?_⟩
    · by_contra misfit
      exact insertContent_misfit wf wf_chunk positive inside
        misfit content_eq edited.total.symm edited.bits_eq
    · intro other other_eq
      rw [content_eq] at other_eq
      cases other_eq
      refine ⟨fun moved => ?_, fun moved => ?_⟩
      · exact (moveIf_returns_iff _ content _ _).mp ⟨front, front_eq⟩ moved
      · rw [total, ← back_iff] at moved
        exact (moveIf_returns_iff _ content _ _).mp ⟨back, back_eq⟩ moved
  · rintro ⟨fits, ranges⟩
    obtain ⟨content, content_eq, _, length_eq, bits_eq⟩ := insertContent_inserted sharing
      packet.content chunk offset wf wf_chunk positive inside fits
    obtain ⟨front_range, back_range⟩ := ranges content content_eq
    rw [total, ← back_iff] at back_range
    obtain ⟨front, front_eq⟩ := (moveIf_returns_iff (offset < packet.getFrontOffset) content
      packet.frontIterator chunk.getChunkLength).mpr front_range
    obtain ⟨back, back_eq⟩ := (moveIf_returns_iff (packet.getBackOffset < offset) content
      packet.backIterator chunk.getChunkLength).mpr back_range
    refine ⟨_, ⟨content, content_eq, front, front_eq, back, back_eq, rfl⟩, bits_eq kept,
      length_eq.symm, ?_, ?_⟩
    · rw [moveIf_position front_eq]
      unfold getFrontOffset
      by_cases moved : offset < packet.frontIterator.position
      · rw [if_pos moved, if_pos moved]
        omega
      · rw [if_neg moved, if_neg moved, Nat.add_zero]
    · rw [moveIf_position back_eq, total]
      simp only [back_iff]
      split <;> omega

theorem erasesAt_iff {sharing : Sharing F}
    (consistent : packet.IsConsistent) (inside : offset + length ≤ packet.totalLength)
    (kept : EraseContentKeeps sharing packet.content offset length) :
    packet.ErasesAt sharing offset length ↔
      EraseFits packet.content offset length ∧ packet.SeparatorsReached offset length ∧
        packet.EraseMovesInRange sharing offset length := by
  obtain ⟨wf, total, _, _, separated, _, _⟩ := consistent
  have front_iff : ((0 : Int) < packet.getFrontOffset - offset) ↔
      offset < packet.frontIterator.position := by
    unfold getFrontOffset
    omega
  have back_iff : ((0 : Int) < offset + length - packet.getBackOffset) ↔
      packet.totalLength - packet.backIterator.position < offset + length := by
    unfold getBackOffset
    omega
  unfold ErasesAt EraseMovesInRange SeparatorsReached
  simp only [eraseAt_eq_ok sharing inside]
  rw [← total] at inside ⊢
  constructor
  · rintro ⟨_, ⟨content, content_eq, front, front_eq, back, back_eq, rfl⟩, edited⟩
    refine ⟨?_, ⟨?_, ?_⟩, ?_⟩
    · by_contra misfit
      exact eraseContent_misfit wf inside misfit content_eq edited.total.symm
    · have position := edited.front
      rw [moveIf_position front_eq] at position
      simp only [front_iff] at position
      unfold getFrontOffset at position
      clear front_iff back_iff
      by_contra beyond
      rw [if_pos (by clear position; omega), Nat.min_eq_left (by clear position; omega)] at position
      omega
    · have position := edited.back
      rw [moveIf_position back_eq] at position
      simp only [back_iff] at position
      unfold getBackOffset at position
      clear front_iff back_iff
      by_contra beyond
      rw [if_pos (by clear position; omega), Nat.min_eq_left (by clear position; omega)] at position
      omega
    · intro other other_eq
      rw [content_eq] at other_eq
      cases other_eq
      refine ⟨fun moved => ?_, fun moved => ?_⟩
      · rw [← front_iff] at moved
        exact (moveIf_returns_iff _ content _ _).mp ⟨front, front_eq⟩ moved
      · rw [total, ← back_iff] at moved
        exact (moveIf_returns_iff _ content _ _).mp ⟨back, back_eq⟩ moved
  · rintro ⟨fits, ⟨front_reached, back_reached⟩, ranges⟩
    obtain ⟨content, content_eq, _, length_eq, bits_eq⟩ := eraseContent_erased sharing
      packet.content offset length wf inside fits
    obtain ⟨front_range, back_range⟩ := ranges content content_eq
    rw [← front_iff] at front_range
    rw [total, ← back_iff] at back_range
    obtain ⟨front, front_eq⟩ := (moveIf_returns_iff ((0 : Int) < packet.getFrontOffset - offset)
      content packet.frontIterator (-(packet.getFrontOffset - offset))).mpr front_range
    obtain ⟨back, back_eq⟩ := (moveIf_returns_iff
      ((0 : Int) < offset + length - packet.getBackOffset) content packet.backIterator
      (-(offset + length - packet.getBackOffset))).mpr back_range
    refine ⟨_, ⟨content, content_eq, front, front_eq, back, back_eq, rfl⟩, bits_eq kept,
      length_eq.symm, ?_, ?_⟩
    · rw [moveIf_position front_eq]
      simp only [front_iff]
      unfold getFrontOffset
      clear front_iff back_iff
      rw [Nat.min_eq_right (by omega)]
      split <;> omega
    · rw [moveIf_position back_eq]
      simp only [back_iff]
      unfold getBackOffset
      rw [Nat.min_eq_right (by clear front_iff back_iff; omega)]
      clear front_iff back_iff front_reached back_reached length_eq
      split <;> omega

/-- Every edit at a legal offset that loses no fill byte denotes the list edit exactly if it fits
the representation, no separator is beyond an erased part and moved iterators have an index
that the new content has. -/
theorem edits_denote (sharing : Sharing F) (packet : Packet F) (consistent : packet.IsConsistent) :
    (∀ chunk offset, chunk.WellFormed → 0 < chunk.getChunkLength → offset ≤ packet.totalLength →
      InsertContentKeeps sharing packet.content chunk offset →
        (packet.InsertsAt sharing chunk offset ↔
          InsertFits packet.content chunk offset ∧
            packet.InsertMovesInRange sharing chunk offset)) ∧
    (∀ offset length, offset + length ≤ packet.totalLength →
      EraseContentKeeps sharing packet.content offset length →
        (packet.ErasesAt sharing offset length ↔
          EraseFits packet.content offset length ∧ packet.SeparatorsReached offset length ∧
            packet.EraseMovesInRange sharing offset length)) := by
  constructor
  · intro chunk offset wf_chunk positive inside kept
    exact packet.insertsAt_iff consistent wf_chunk positive inside kept
  · intro offset length inside kept
    exact packet.erasesAt_iff consistent inside kept

theorem ofContent_consistent (content : Chunk F) (wf : content.WellFormed) :
    (ofContent content).IsConsistent where
  wf := wf
  total := rfl
  forward := rfl
  backward := rfl
  separated := Nat.zero_le _
  front := by
    have sought := isIteratorConsistent_of_seek ⟨true, 0, none⟩ ⟨true, 0, some 0⟩ 0 wf
      (Nat.zero_le _)
    cases content <;> exact sought (by simp [seekIterator])
  back := by
    have sought := isIteratorConsistent_of_seek ⟨false, 0, none⟩ ⟨false, 0, some 0⟩ 0 wf
      (Nat.zero_le _)
    cases content <;> exact sought (by simp [seekIterator])

/-- Inserting a byte behind the first one, and erasing the second one. -/
theorem edits_denote_bytes :
    (ofContent (.bytes [1, 2, 3] : Chunk (List Bool))).InsertsAt (.never _) (.bytes [9]) 8 ∧
      (ofContent (.bytes [1, 2, 3] : Chunk (List Bool))).ErasesAt (.never _) 8 8 := by
  have edits := edits_denote (.never _) _
    (ofContent_consistent (.bytes [1, 2, 3] : Chunk (List Bool)) (.bytes _))
  constructor
  · refine (edits.1 (.bytes [9]) 8 (.bytes _) (by decide) (by decide) trivial).mpr ⟨?_, ?_⟩
    · exact .inr (.inr rfl)
    · intro content _
      exact ⟨fun moved => absurd moved (by decide), fun moved => absurd moved (by decide)⟩
  · refine (edits.2 8 8 (by decide) trivial).mpr ⟨?_, ⟨by decide, by decide⟩, ?_⟩
    · exact .inr (.inr (.inl ⟨rfl, rfl⟩))
    · intro content _
      exact ⟨fun moved => absurd moved (by decide), fun moved => absurd moved (by decide)⟩

/-- Two bytes behind the first one are not erased, and a `ByteCountChunk` is not inserted
between bytes. -/
theorem edits_go_wrong :
    ¬ (ofContent (.bytes [1, 2, 3, 4] : Chunk (List Bool))).ErasesAt (.never _) 8 16 ∧
      ¬ (ofContent (.bytes [1, 2] : Chunk (List Bool))).InsertsAt (.never _) (.byteCount 1 63) 8 := by
  constructor
  · rintro ⟨edited, returned, _, total, _, _⟩
    cases returned
    revert total
    decide
  · rintro ⟨edited, returned, _⟩
    cases returned

end Packet
end Inet.Packet
