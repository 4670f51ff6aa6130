import Inet.Packet.DefaultFill

/-!
# Reassembly buffers

A reassembly buffer is a chunk buffer that is complete when it has one region, which starts at
offset 0 and has the expected length.
-/
namespace Inet.Packet

open Lib ChunkBuffer

variable {F : Type} [Fields F]

structure ReassemblyBuffer (F : Type) where
  regions : List (Region F)
  expectedLength : Int

variable {buffer : ReassemblyBuffer F}

namespace ReassemblyBuffer

/-- A new buffer. -/
def empty (F : Type) : ReassemblyBuffer F := ⟨[], -1⟩

def setExpectedLength (buffer : ReassemblyBuffer F) (expectedLength : Int) : ReassemblyBuffer F :=
  { buffer with expectedLength }

def isComplete (buffer : ReassemblyBuffer F) : Bool :=
  match buffer.regions with
  | [region] => region.offset = 0 ∧ region.data.getChunkLength = buffer.expectedLength
  | _ => false

def getReassembledData (buffer : ReassemblyBuffer F) : Except ChunkError (Chunk F) :=
  match buffer.isComplete, buffer.regions with
  | true, [region] => .ok region.data
  | _, _ => .error (.error "Reassembly is incomplete")

def replace (sharing : Sharing F) (buffer : ReassemblyBuffer F) (offset : Int) (chunk : Chunk F) :
    Except ChunkError (ReassemblyBuffer F) :=
  if offset < 0 then .error (.error "offset is invalid")
  else do
    let regions ← ChunkBuffer.replace sharing buffer.regions offset.toNat chunk
    return { buffer with regions }

/-- What a chunk changes of a buffer. -/
theorem replace_written {sharing : Sharing F} {after : ReassemblyBuffer F} {offset : Int}
    {chunk : Chunk F} (good : ConsistentFill buffer.regions) (insertable : chunk.Insertable)
    (returned : buffer.replace sharing offset chunk = .ok after) :
    0 ≤ offset ∧ after.expectedLength = buffer.expectedLength ∧ ConsistentFill after.regions ∧
      ∀ i, stored after.regions i =
        overwrite (stored buffer.regions) offset.toNat chunk.bits i := by
  unfold ReassemblyBuffer.replace at returned
  split at returned
  next => cases returned
  next nonneg =>
    obtain ⟨regions, replaced, ⟨⟩⟩ := bind_eq_ok.mp returned
    obtain ⟨regions', replaced', good_after, written⟩ := replace_fill sharing buffer.regions
      offset.toNat chunk good insertable
    rw [replaced] at replaced'
    cases replaced'
    exact ⟨by omega, rfl, good_after, written⟩

/-! ### What is returned has the expected length -/

theorem getReassembledData_length {data : Chunk F}
    (returned : buffer.getReassembledData = .ok data) :
    (data.getChunkLength : Int) = buffer.expectedLength := by
  unfold getReassembledData at returned
  split at returned
  next region complete only =>
    cases returned
    unfold isComplete at complete
    rw [only] at complete
    exact (of_decide_eq_true complete).2
  next => cases returned

/-- What is returned is all that is stored. -/
theorem getReassembledData_stored {data : Chunk F}
    (good : ConsistentFill buffer.regions) (returned : buffer.getReassembledData = .ok data) :
    (∀ i, stored buffer.regions i = data.bits[i]?) ∧ data.Insertable := by
  unfold getReassembledData at returned
  split at returned
  next region complete only =>
    cases returned
    unfold isComplete at complete
    rw [only] at complete
    have starts := (of_decide_eq_true complete).1
    have member : region ∈ buffer.regions := by simp [only]
    refine ⟨fun i => ?_, good.consistent.wf _ member, good.consistent.nonempty _ member,
      good.fill _ member⟩
    rw [stored, pieces, only]
    simp [Piece.get, starts]
  next => cases returned

/-! ### Parts of the data -/

/-- A buffer holds some bits where they are covered, and nothing else. -/
structure Holding (buffer : ReassemblyBuffer F) (bits : List Bool) (covered : Nat → Prop) :
    Prop where
  regions : ConsistentFill buffer.regions
  stored : ∀ i, covered i → stored buffer.regions i = bits[i]?
  other : ∀ i, ¬covered i → ChunkBuffer.stored buffer.regions i = none
  inside : ∀ i, covered i → i < bits.length

theorem empty_holding (bits : List Bool) : (empty F).Holding bits fun _ => False where
  regions := consistentFill_nil
  stored _ impossible := impossible.elim
  other _ _ := rfl
  inside _ impossible := impossible.elim

variable {buffer : ReassemblyBuffer F} {bits : List Bool} {covered : Nat → Prop}

theorem Holding.setExpectedLength (holding : buffer.Holding bits covered) (expectedLength : Int) :
    (buffer.setExpectedLength expectedLength).Holding bits covered where
  regions := holding.regions
  stored := holding.stored
  other := holding.other
  inside := holding.inside

/-- A part of the bits covers its offsets. -/
theorem Holding.replace (holding : buffer.Holding bits covered) (sharing : Sharing F)
    (offset : Nat) {chunk : Chunk F} (insertable : chunk.Insertable)
    (inside : offset + chunk.getChunkLength ≤ bits.length)
    (designated : chunk.bits = part bits offset chunk.getChunkLength) :
    ∃ after, buffer.replace sharing offset chunk = .ok after ∧
      after.expectedLength = buffer.expectedLength ∧
      after.Holding bits fun i => covered i ∨ offset ≤ i ∧ i < offset + chunk.getChunkLength := by
  obtain ⟨regions, returned, good, written⟩ := replace_fill sharing buffer.regions offset chunk
    holding.regions insertable
  have length_eq := insertable.wf.length_bits
  refine ⟨{ buffer with regions }, ?_, rfl, good, ?_, ?_, ?_⟩
  · unfold ReassemblyBuffer.replace
    rw [if_neg (by omega), Int.toNat_natCast, returned]
    rfl
  · intro i now
    rw [written, overwrite, length_eq]
    by_cases new : offset ≤ i ∧ i < offset + chunk.getChunkLength
    · rw [if_pos new, designated, part, List.getElem?_take, if_pos (by omega), List.getElem?_drop]
      congr 1
      omega
    · rw [if_neg new]
      exact holding.stored i (now.resolve_right new)
  · intro i not_now
    rw [written, overwrite, length_eq, if_neg fun new => not_now (.inr new)]
    exact holding.other i fun before => not_now (.inl before)
  · rintro i (before | new)
    · exact holding.inside i before
    · omega

/-- The region of a complete buffer is all of the bits. -/
theorem Holding.complete (holding : buffer.Holding bits covered) (nonempty : 0 < bits.length)
    (all : ∀ i, i < bits.length → covered i) :
    ∃ data, buffer.regions = [⟨0, data⟩] ∧ data.Insertable ∧ data.bits = bits := by
  have whole (i : Nat) : (ChunkBuffer.stored buffer.regions i).isSome ↔ i < bits.length := by
    constructor
    · intro present
      by_contra behind
      rw [holding.other i fun now => behind (holding.inside i now)] at present
      cases present
    · intro inside
      rw [holding.stored i (all i inside), List.getElem?_eq_getElem inside]
      rfl
  obtain ⟨elements, single, length_eq⟩ := holding.regions.consistent.pieces.eq_singleton nonempty
    whole
  match regions_eq : buffer.regions, single with
  | [⟨offset, data⟩], single =>
    obtain ⟨rfl, rfl⟩ : offset = 0 ∧ data.bits = elements := by simpa [pieces] using single
    have member : (⟨0, data⟩ : Region F) ∈ buffer.regions := by simp [regions_eq]
    have wf := holding.regions.consistent.wf _ member
    refine ⟨data, rfl, ⟨wf, holding.regions.consistent.nonempty _ member,
      holding.regions.fill _ member⟩, ?_⟩
    apply List.ext_getElem? fun i => ?_
    by_cases inside : i < bits.length
    · have found := holding.stored i (all i inside)
      rw [ChunkBuffer.stored, pieces, regions_eq] at found
      simpa [Piece.get] using found
    · rw [List.getElem?_eq_none (by omega), List.getElem?_eq_none (by omega)]

/-- A buffer that expects all of the bits is complete when they are covered. -/
theorem Holding.isComplete_iff (holding : buffer.Holding bits covered) (nonempty : 0 < bits.length)
    (expected : buffer.expectedLength = bits.length) :
    buffer.isComplete = true ↔ ∀ i, i < bits.length → covered i := by
  constructor
  · intro complete i inside
    by_contra missing
    unfold isComplete at complete
    split at complete
    next region only =>
      obtain ⟨starts, long⟩ := of_decide_eq_true complete
      have member : region ∈ buffer.regions := by simp [only]
      have absent := (stored_eq_none_iff holding.regions.consistent.wf i).mp
        (holding.other i missing) region member
      have stop : region.getEndOffset = region.offset + region.data.getChunkLength := rfl
      have start : region.getStartOffset = region.offset := rfl
      omega
    next => cases complete
  · intro all
    obtain ⟨data, single, insertable, bits_eq⟩ := holding.complete nonempty all
    unfold isComplete
    rw [single]
    apply decide_eq_true
    exact ⟨rfl, by rw [expected, ← bits_eq, insertable.wf.length_bits]⟩

/-- A complete buffer returns the bits. -/
theorem Holding.getReassembledData (holding : buffer.Holding bits covered)
    (nonempty : 0 < bits.length) (expected : buffer.expectedLength = bits.length)
    (complete : buffer.isComplete = true) :
    ∃ data, buffer.getReassembledData = .ok data ∧ data.Insertable ∧ data.bits = bits := by
  obtain ⟨data, single, insertable, bits_eq⟩ := holding.complete nonempty
    ((holding.isComplete_iff nonempty expected).mp complete)
  refine ⟨data, ?_, insertable, bits_eq⟩
  unfold ReassemblyBuffer.getReassembledData
  rw [complete, single]

end ReassemblyBuffer
end Inet.Packet
