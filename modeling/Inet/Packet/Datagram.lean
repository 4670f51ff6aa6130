import Inet.Packet.PacketEdit
import Inet.Packet.DefaultFill

/-!
# Datagrams

A datagram is a packet whose data part starts with a header. Edits at the sides of a content
with the default data keep every bit.
-/
set_option linter.dupNamespace false

namespace Inet.Packet

open Lib Chunk

variable {F : Type} [Fields F]
variable {chunk content result : Chunk F} {sharing : Sharing F} {offset : Nat} {flags : PeekFlags}

/-! ### Inserting at the sides -/

/-- Adding a part of a content with the default data to a sequence loses no fill byte. -/
theorem partAdded_of_defaultFill (sharing : Sharing F) {elements : List (Chunk F)}
    {iterator : Iterator} (length : Nat) (flags : PeekFlags)
    (wf : WellFormed (.sequence elements)) (fill : DefaultFill (.sequence elements))
    (wf_content : content.WellFormed) (fill_content : content.DefaultFill) (positive : 0 < length)
    (inside : iterator.position + length ≤ content.getChunkLength)
    (inRange : IndexInRange content iterator) :
    PartAdded sharing (.sequence elements) content iterator length flags := by
  refine ⟨peekKeeps_of_defaultFill sharing content _ _ wf_content fill_content positive inside, ?_⟩
  intro part returned
  obtain ⟨result, returned', peeked, _⟩ := peek_peeked sharing content iterator length flags
    wf_content positive inside inRange
  rw [returned] at returned'
  cases returned'
  exact insertKeeps_of_defaultFill sharing .back _ _ wf peeked.wf fill
    (peek_defaultFill fill_content returned) (by rw [peeked.length_eq]; exact positive) rfl

theorem insertPart_defaultFill {sequenceChunk : Chunk F}
    {iterator : Iterator} {length : Int} (fill : sequenceChunk.DefaultFill)
    (fill_content : content.DefaultFill)
    (returned : Packet.insertPart sharing sequenceChunk (peek sharing content iterator length flags) =
      .ok result) : result.DefaultFill := by
  unfold Packet.insertPart at returned
  obtain ⟨peeked, peeked_eq, returned⟩ := bind_eq_ok.mp returned
  cases peeked with
  | none => cases returned
  | some part => exact insertAt_defaultFill fill (peek_defaultFill fill_content peeked_eq) returned

theorem frontPart_defaultFill (fill : content.DefaultFill)
    (returned : Packet.frontPart sharing content offset flags = .ok result) :
    result.DefaultFill := by
  unfold Packet.frontPart at returned
  split at returned
  next => exact insertPart_defaultFill (.sequence (by simp)) fill returned
  next =>
    cases returned
    exact .sequence (by simp)

theorem rebuildInserting_defaultFill
    {totalLength : Nat} (fill : content.DefaultFill) (fill_chunk : chunk.DefaultFill)
    (returned : Packet.rebuildInserting sharing content chunk totalLength offset = .ok result) :
    result.DefaultFill := by
  obtain ⟨front, front_eq, returned⟩ := bind_eq_ok.mp returned
  obtain ⟨inserted, inserted_eq, returned⟩ := bind_eq_ok.mp returned
  have fill_inserted := insertAt_defaultFill (frontPart_defaultFill fill front_eq) fill_chunk
    inserted_eq
  split at returned
  next => exact insertPart_defaultFill fill_inserted fill returned
  next =>
    cases returned
    exact fill_inserted

theorem insertAtMiddle_defaultFill (fill : content.DefaultFill)
    (returned : Chunk.insertAtMiddle content chunk offset = .ok result) : result.DefaultFill := by
  unfold Chunk.insertAtMiddle at returned
  split at returned
  next => cases returned
  next =>
    split at returned
    next =>
      split at returned
      next => cases returned
      next =>
        cases returned
        exact .bytes _
    next =>
      cases fill
      cases returned
      exact .byteCount _
    next => cases returned

theorem insertContent_defaultFill
    {totalLength : Nat} (fill : content.DefaultFill) (fill_chunk : chunk.DefaultFill)
    (returned : Packet.insertContent sharing content chunk totalLength offset = .ok result) :
    result.DefaultFill := by
  unfold Packet.insertContent at returned
  split at returned
  next =>
    cases returned
    exact fill_chunk
  split at returned
  next =>
    obtain ⟨newContent, inserted, ⟨⟩⟩ := bind_eq_ok.mp returned
    exact (insertAt_defaultFill fill fill_chunk inserted).simplify
  split at returned
  next =>
    obtain ⟨newContent, inserted, ⟨⟩⟩ := bind_eq_ok.mp returned
    exact (insertAt_defaultFill fill fill_chunk inserted).simplify
  split at returned
  next =>
    obtain ⟨newContent, inserted, ⟨⟩⟩ := bind_eq_ok.mp returned
    exact (insertAtMiddle_defaultFill fill inserted).simplify
  next => exact rebuildInserting_defaultFill fill fill_chunk returned

theorem insertContentKeeps_of_defaultFill (sharing : Sharing F)
    (wf : content.WellFormed) (fill : content.DefaultFill)
    (insertable : chunk.Insertable) (side : offset = 0 ∨ offset = content.getChunkLength) :
    InsertContentKeeps sharing content chunk offset := by
  unfold InsertContentKeeps
  split
  next => trivial
  split
  next can =>
    exact insertKeeps_of_defaultFill sharing .front content chunk wf insertable.wf fill
      insertable.fill insertable.positive can.2
  split
  next can =>
    exact insertKeeps_of_defaultFill sharing .back content chunk wf insertable.wf fill
      insertable.fill insertable.positive can.2
  split
  next => trivial
  next =>
    have inside : offset ≤ content.getChunkLength := by omega
    have nil : DefaultFill (.sequence ([] : List (Chunk F))) := .sequence (by simp)
    refine ⟨?_, ?_⟩
    · intro started
      exact partAdded_of_defaultFill sharing offset _ wellFormed_nil nil wf fill
        (by omega) (by simpa using inside) (indexConsistent_of content 0).inRange
    · intro front front_eq
      obtain ⟨elements, front_eq', wf_front, _⟩ := frontPart_added sharing offset .allowAll
        wf inside
      rw [front_eq] at front_eq'
      cases front_eq'
      have fill_front := frontPart_defaultFill fill front_eq
      refine ⟨insertKeeps_of_defaultFill sharing .back _ _ wf_front insertable.wf fill_front
        insertable.fill insertable.positive rfl, ?_⟩
      intro inserted inserted_eq before
      obtain ⟨after, inserted_eq', wf_after, _⟩ := insertAt_added sharing wf_front
        insertable.wf insertable.positive
      rw [inserted_eq] at inserted_eq'
      cases inserted_eq'
      have fill_after := insertAt_defaultFill fill_front insertable.fill inserted_eq
      -- what is behind the start of the content is all of it
      obtain rfl : offset = 0 := by omega
      exact partAdded_of_defaultFill sharing _ _ wf_after fill_after wf
        fill (by omega) (by simp [Iterator.forward]) (inRange_of_none content (.forward 0) rfl)

/-- Inserting at a side of a content with the default data. -/
theorem insertContent_fill (sharing : Sharing F) (content chunk : Chunk F) (offset : Nat)
    (wf : content.WellFormed) (fill : content.DefaultFill) (insertable : chunk.Insertable)
    (side : offset = 0 ∨ offset = content.getChunkLength) :
    ∃ result, Packet.insertContent sharing content chunk content.getChunkLength offset =
        .ok result ∧ result.WellFormed ∧ result.DefaultFill ∧
      result.getChunkLength = content.getChunkLength + chunk.getChunkLength ∧
      result.bits = insertedBits content.bits chunk.bits offset := by
  obtain ⟨result, returned, wf_result, length_eq, bits_eq⟩ := insertContent_inserted sharing content
    chunk offset wf insertable.wf insertable.positive (by omega)
    (side.imp_right Or.inl)
  exact ⟨result, returned, wf_result, insertContent_defaultFill fill insertable.fill returned,
    length_eq, bits_eq (insertContentKeeps_of_defaultFill sharing wf fill insertable side)⟩

namespace Packet

/-! ### Packets with the default data -/

/-- A packet whose content has the default data, and its data part. -/
structure Carries (packet : Packet F) (bits : List Bool) : Prop where
  wf : packet.content.WellFormed
  fill : packet.content.DefaultFill
  total : packet.content.getChunkLength = packet.totalLength
  separated : packet.frontIterator.position + packet.backIterator.position ≤ packet.totalLength
  data : packet.dataBits = bits

variable {packet : Packet F} {bits : List Bool}

theorem Carries.getDataLength (carries : packet.Carries bits) :
    packet.getDataLength = bits.length := by
  have separated := carries.separated
  have length_eq := carries.wf.length_bits
  have total := carries.total
  rw [← carries.data, dataBits, length_part]
  · unfold Packet.getDataLength
    omega
  · unfold Packet.getDataLength
    omega

/-- A part of the data is peeked. -/
theorem Carries.peekDataAt (carries : packet.Carries bits) (sharing : Sharing F)
    (offset length : Nat) (positive : 0 < length) (inside : offset + length ≤ bits.length) :
    ∃ chunk, packet.peekDataAt sharing offset length {} = .ok (some chunk) ∧ chunk.Insertable ∧
      chunk.getChunkLength = length ∧ chunk.bits = part bits offset length := by
  have dataLength := carries.getDataLength
  have separated := carries.separated
  have total := carries.total
  unfold Packet.peekDataAt
  rw [if_neg (by omega), if_neg (by omega), if_neg (by omega)]
  unfold Packet.getDataLength at dataLength
  have within : packet.frontIterator.position + offset + length ≤ packet.content.getChunkLength := by
    omega
  obtain ⟨chunk, returned, peeked, bits_eq⟩ := peek_peeked sharing packet.content
    ⟨true, packet.frontIterator.position + offset, none⟩ length {} carries.wf positive within
    (inRange_of_none _ _ rfl)
  refine ⟨chunk, returned, ⟨peeked.wf, by rw [peeked.length_eq]; exact positive,
    peek_defaultFill carries.fill returned⟩, peeked.length_eq, ?_⟩
  have pointed : IndexConsistent packet.content
      ⟨true, packet.frontIterator.position + offset, none⟩ := by
    cases packet.content <;> simp [IndexConsistent]
  rw [bits_eq rfl pointed (peekKeeps_of_defaultFill sharing _ _ _ carries.wf carries.fill positive
    within), ← carries.data, dataBits, part_part]
  unfold Packet.getDataLength
  omega

/-- What is peeked is inside the data. -/
theorem Carries.peeked_inside (carries : packet.Carries bits)
    {length : Nat} {chunk : Option (Chunk F)}
    (returned : packet.peekDataAt sharing offset length flags = .ok chunk) :
    offset + length ≤ bits.length := by
  have dataLength := carries.getDataLength
  by_contra beyond
  unfold Packet.peekDataAt at returned
  by_cases before : packet.getDataLength < offset
  · rw [if_pos before] at returned
    cases returned
  · rw [if_neg before, if_pos (by omega)] at returned
    cases returned

/-- What is peeked is a part of the data. -/
theorem Carries.peekedDataAt (carries : packet.Carries bits) {length : Nat} (positive : 0 < length)
    (returned : packet.peekDataAt sharing offset length {} = .ok (some chunk)) :
    chunk.Insertable ∧ chunk.getChunkLength = length ∧ chunk.bits = part bits offset length := by
  obtain ⟨chunk', returned', peeked⟩ := carries.peekDataAt sharing offset length positive
    (carries.peeked_inside returned)
  rw [returned] at returned'
  cases returned'
  exact peeked

/-- A packet none of which is popped. -/
structure Unpopped (packet : Packet F) : Prop where
  front : packet.frontIterator.position = 0
  back : packet.backIterator.position = 0

theorem Carries.bits_content (carries : packet.Carries bits) (unpopped : packet.Unpopped) :
    packet.content.bits = bits := by
  have length_eq := carries.wf.length_bits
  have total := carries.total
  rw [← carries.data, dataBits, unpopped.front, part_of_length]
  unfold Packet.getDataLength
  rw [unpopped.front, unpopped.back]
  omega

theorem carries_of_content (wf : packet.content.WellFormed) (fill : packet.content.DefaultFill)
    (total : packet.content.getChunkLength = packet.totalLength) (unpopped : packet.Unpopped)
    (bits_eq : packet.content.bits = bits) : packet.Carries bits where
  wf := wf
  fill := fill
  total := total
  separated := by
    rw [unpopped.front, unpopped.back]
    omega
  data := by
    have length_eq := wf.length_bits
    rw [dataBits, unpopped.front, ← bits_eq, part_of_length]
    unfold Packet.getDataLength
    rw [unpopped.front, unpopped.back]
    omega

theorem empty_carries : (ofContent (.empty : Chunk F)).Carries [] :=
  carries_of_content .empty .empty rfl ⟨rfl, rfl⟩ rfl

theorem empty_unpopped : (ofContent (.empty : Chunk F)).Unpopped := ⟨rfl, rfl⟩

private theorem insertAt_side (carries : packet.Carries bits) (unpopped : packet.Unpopped)
    (sharing : Sharing F) (chunk : Chunk F) (insertable : chunk.Insertable) (offset : Nat)
    (side : offset = 0 ∨ offset = packet.totalLength) :
    ∃ edited, packet.insertAt sharing chunk offset = .ok edited ∧ edited.Unpopped ∧
      edited.Carries (insertedBits bits chunk.bits offset) := by
  have total := carries.total
  have back_offset : packet.getBackOffset = packet.totalLength := by
    unfold getBackOffset
    rw [unpopped.back]
    omega
  obtain ⟨content, content_eq, wf, fill, length_eq, bits_eq⟩ := insertContent_fill sharing
    packet.content chunk offset carries.wf carries.fill insertable (by rw [total]; exact side)
  have unmoved : ¬ offset < packet.getFrontOffset := by
    unfold getFrontOffset
    rw [unpopped.front]
    omega
  rw [total] at content_eq
  refine ⟨⟨content, packet.frontIterator, packet.backIterator,
    packet.totalLength + chunk.getChunkLength⟩, ?_, ⟨unpopped.front, unpopped.back⟩, ?_⟩
  · apply (insertAt_eq_ok sharing packet offset insertable.positive (by omega) _).mpr
    refine ⟨content, content_eq, _, ?_, _, ?_, rfl⟩
    · rw [moveIf, if_neg (by simpa using unmoved)]
    · rw [moveIf, if_neg (by simp only [decide_eq_true_eq]; omega)]
  · refine carries_of_content wf fill ?_ ⟨unpopped.front, unpopped.back⟩ ?_
    · rw [length_eq, total]
    · rw [bits_eq, carries.bits_content unpopped]

/-- A chunk is inserted before the data. -/
theorem Carries.insertAtFront (carries : packet.Carries bits) (unpopped : packet.Unpopped)
    (sharing : Sharing F) (chunk : Chunk F) (insertable : chunk.Insertable) :
    ∃ edited, packet.insertAtFront sharing chunk = .ok edited ∧ edited.Unpopped ∧
      edited.Carries (chunk.bits ++ bits) := by
  unfold Packet.insertAtFront getFrontOffset
  rw [unpopped.front]
  obtain ⟨edited, returned, unpopped, carries⟩ := insertAt_side carries unpopped sharing chunk
    insertable 0 (.inl rfl)
  exact ⟨edited, returned, unpopped, by simpa [insertedBits] using carries⟩

/-- A chunk is inserted behind the data. -/
theorem Carries.insertAtBack (carries : packet.Carries bits) (unpopped : packet.Unpopped)
    (sharing : Sharing F) (insertable : chunk.Insertable) :
    ∃ edited, packet.insertAtBack sharing chunk = .ok edited ∧ edited.Unpopped ∧
      edited.Carries (bits ++ chunk.bits) := by
  have back_offset : packet.getBackOffset.toNat = packet.totalLength := by
    unfold getBackOffset
    rw [unpopped.back]
    omega
  have whole : bits.length = packet.totalLength := by
    rw [← carries.bits_content unpopped, carries.wf.length_bits, carries.total]
  unfold Packet.insertAtBack
  rw [back_offset]
  obtain ⟨edited, returned, unpopped, carries⟩ := insertAt_side carries unpopped sharing chunk
    insertable _ (.inr rfl)
  refine ⟨edited, returned, unpopped, ?_⟩
  rw [insertedBits, ← whole, List.take_length, List.drop_length, List.append_nil] at carries
  exact carries

theorem Carries.insertedAtFront (carries : packet.Carries bits) (unpopped : packet.Unpopped)
     {edited : Packet F} (insertable : chunk.Insertable)
    (returned : packet.insertAtFront sharing chunk = .ok edited) :
    edited.Unpopped ∧ edited.Carries (chunk.bits ++ bits) := by
  obtain ⟨edited', returned', inserted⟩ := carries.insertAtFront unpopped sharing chunk insertable
  rw [returned] at returned'
  cases returned'
  exact inserted

theorem Carries.insertedAtBack (carries : packet.Carries bits) (unpopped : packet.Unpopped)
     {edited : Packet F} (insertable : chunk.Insertable)
    (returned : packet.insertAtBack sharing chunk = .ok edited) :
    edited.Unpopped ∧ edited.Carries (bits ++ chunk.bits) := by
  obtain ⟨edited', returned', inserted⟩ := carries.insertAtBack unpopped sharing insertable
  rw [returned] at returned'
  cases returned'
  exact inserted

end Packet
end Inet.Packet
