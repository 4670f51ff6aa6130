import Inet.Packet.Iteration

/-!
# Packets

A packet is a content with a front and a back separator, which the iterators measure from the
two ends of the content. Its tags are left out, and so are unspecified lengths of erased
parts.
-/
namespace Inet.Packet

set_option linter.dupNamespace false

open Lib

variable {F : Type} [Fields F]

namespace Chunk

/-- Whether a chunk is the `EmptyChunk::singleton`. -/
def isSingleton : Chunk F → Bool
  | .empty => true
  | _ => false

/-! ### Editing a chunk -/

/-- `insertAt` and `canInsertAt` in the middle of a chunk. -/
def canInsertAtMiddle : Chunk F → Chunk F → Bool
  | .bytes _, .bytes _ => true
  | .byteCount _ _, .byteCount _ _ => true
  | _, _ => false

/-- The offset is converted to bytes where it is used. -/
def insertAtMiddle (chunk inserted : Chunk F) (offset : Nat) : Except ChunkError (Chunk F) :=
  if chunk.getChunkLength < offset then .error (.error "offset is invalid")
  else
    match chunk, inserted with
    | .bytes bs, .bytes bs' =>
      if offset % 8 ≠ 0 then .error (.error "Cannot convert between integer units")
      else .ok (.bytes (bs.take (offset / 8) ++ bs' ++ bs.drop (offset / 8)))
    | .byteCount length data, .byteCount length' _ => .ok (.byteCount (length + length') data)
    | _, _ => .error (.error "Invalid operation")

/-- `canRemoveAtFront` and `canRemoveAtBack`. -/
def canRemoveAt (chunk : Chunk F) (length : Nat) : Bool :=
  match chunk with
  | .bytes _ => length % 8 = 0
  | .byteCount _ _ => length % 8 = 0
  | .sequence _ => true
  | _ => false

/-- `canRemoveAt` in the middle of a chunk. -/
def canRemoveAtMiddle (chunk : Chunk F) (offset length : Nat) : Bool :=
  match chunk with
  | .bytes _ => offset % 8 = 0 ∧ length % 8 = 0
  | .byteCount _ _ => offset % 8 = 0 ∧ length % 8 = 0
  | _ => false

/-- Where the part starts that is left of a chunk when bits are removed from a side. -/
def keptOffset : Side → Nat → Nat
  | .front, length => length
  | .back, _ => 0

/-- The loop of `doRemoveAtFront` and `doRemoveAtBack`, from the side that is removed. The
last chunk it meets may be cut. -/
def doRemoveAt (sharing : Sharing F) (side : Side) :
    List (Chunk F) → Nat → Except ChunkError (List (Chunk F))
  | [], _ => .ok []
  | chunk :: rest, length =>
    let chunkLength := chunk.getChunkLength
    if chunkLength ≤ length then
      if length - chunkLength = 0 then .ok rest
      else doRemoveAt sharing side rest (length - chunkLength)
    else do
      match ← peek sharing chunk (.of (keptOffset side length)) ↑(chunkLength - length) {} with
      | none => throw .undefinedBehaviour
      | some kept => return kept :: rest

/-- `removeAtFront` and `removeAtBack`. -/
def removeAt (sharing : Sharing F) (side : Side) (chunk : Chunk F) (length : Nat) :
    Except ChunkError (Chunk F) :=
  if chunk.getChunkLength < length then .error (.error "length is invalid")
  else
    match chunk with
    | .bytes bs =>
      if length % 8 ≠ 0 then .error (.error "Cannot convert between integer units")
      else
        match side with
        | .front => .ok (.bytes (bs.drop (length / 8)))
        | .back => .ok (.bytes (bs.take (bs.length - length / 8)))
    | .byteCount count data =>
      if length % 8 ≠ 0 then .error (.error "Cannot convert between integer units")
      else .ok (.byteCount (count - length / 8) data)
    | .slice chunk offset sliceLength =>
      match side with
      | .front => .ok (.slice chunk (offset + length) (sliceLength - length))
      | .back => .ok (.slice chunk offset (sliceLength - length))
    | .sequence chunks =>
      match side with
      | .front => do
        let kept ← doRemoveAt sharing .front chunks length
        return .sequence kept
      | .back => do
        let kept ← doRemoveAt sharing .back chunks.reverse length
        return .sequence kept.reverse
    | _ => .error (.error "Invalid operation")

/-- `removeAt` in the middle of a chunk. -/
def removeAtMiddle (chunk : Chunk F) (offset length : Nat) : Except ChunkError (Chunk F) :=
  if chunk.getChunkLength < length then .error (.error "length is invalid")
  else if chunk.getChunkLength < offset + length then .error (.error "offset is invalid")
  else
    match chunk with
    | .bytes bs =>
      if offset % 8 ≠ 0 ∨ length % 8 ≠ 0 then
        .error (.error "Cannot convert between integer units")
      else .ok (.bytes (bs.take (offset / 8) ++ bs.drop (offset / 8 + length / 8)))
    | .byteCount count data =>
      if length % 8 ≠ 0 then .error (.error "Cannot convert between integer units")
      else .ok (.byteCount (count - length / 8) data)
    | _ => .error (.error "Invalid operation")

end Chunk

open Chunk

structure Packet (F : Type) where
  content : Chunk F
  frontIterator : Iterator
  backIterator : Iterator
  totalLength : Nat
deriving Repr

namespace Packet

/-- A packet with some content, none of which is popped. -/
def ofContent (content : Chunk F) : Packet F :=
  ⟨content, ⟨true, 0, some 0⟩, ⟨false, 0, some 0⟩, content.getChunkLength⟩

/-! ### Lengths and offsets -/

def getFrontOffset (packet : Packet F) : Nat := packet.frontIterator.position

def getBackOffset (packet : Packet F) : Int :=
  packet.totalLength - packet.backIterator.position

def getDataLength (packet : Packet F) : Int :=
  packet.totalLength - packet.frontIterator.position - packet.backIterator.position

/-- What the class checks of itself, together with the well-formedness of the content. -/
structure IsConsistent (packet : Packet F) : Prop where
  wf : packet.content.WellFormed
  total : packet.content.getChunkLength = packet.totalLength
  forward : packet.frontIterator.isForward = true
  backward : packet.backIterator.isForward = false
  separated : packet.frontIterator.position + packet.backIterator.position ≤ packet.totalLength
  front : packet.content.isIteratorConsistent packet.frontIterator = true
  back : packet.content.isIteratorConsistent packet.backIterator = true

/-- The bits between the two separators. -/
def dataBits (packet : Packet F) : List Bool :=
  part packet.content.bits packet.frontIterator.position packet.getDataLength.toNat

def setBackOffset (packet : Packet F) (offset : Nat) : Except ChunkError (Packet F) :=
  if offset < packet.frontIterator.position ∨ packet.totalLength < offset then
    .error (.error "offset is out of range")
  else do
    let backIterator ←
      packet.content.seekIterator packet.backIterator (packet.totalLength - offset)
    return { packet with backIterator }

section Content

variable (sharing : Sharing F)

/-! ### Peeking and popping -/

/-- A length of -1 stands for at most the data part. -/
def peekAtFront (packet : Packet F) (length : Int) (flags : PeekFlags) : PeekResult F :=
  let dataLength := packet.getDataLength
  if length < -1 ∨ dataLength < length then .error (.error "length is invalid")
  else peek sharing packet.content packet.frontIterator
    (if length = -1 then -dataLength else length) flags

def peekAtBack (packet : Packet F) (length : Int) (flags : PeekFlags) : PeekResult F :=
  let dataLength := packet.getDataLength
  if length < 0 ∨ dataLength < length then .error (.error "length is invalid")
  else peek sharing packet.content packet.backIterator length flags

def peekDataAt (packet : Packet F) (offset : Nat) (length : Int) (flags : PeekFlags) :
    PeekResult F :=
  let dataLength := packet.getDataLength
  if dataLength < offset then .error (.error "offset is out of range")
  else if length < -1 ∨ dataLength < offset + length then .error (.error "length is invalid")
  else peek sharing packet.content ⟨true, packet.frontIterator.position + offset, none⟩
    (if length = -1 then -(dataLength - offset) else length) flags

def popAtFront (packet : Packet F) (length : Int) (flags : PeekFlags) :
    Except ChunkError (Option (Chunk F) × Packet F) := do
  match ← packet.peekAtFront sharing length flags with
  | none => return (none, packet)
  | some chunk =>
    let frontIterator ← packet.content.moveIterator packet.frontIterator chunk.getChunkLength
    return (some chunk, { packet with frontIterator })

def popAtBack (packet : Packet F) (length : Int) (flags : PeekFlags) :
    Except ChunkError (Option (Chunk F) × Packet F) := do
  match ← packet.peekAtBack sharing length flags with
  | none => return (none, packet)
  | some chunk =>
    let backIterator ← packet.content.moveIterator packet.backIterator chunk.getChunkLength
    return (some chunk, { packet with backIterator })

/-! ### Inserting -/

/-- What is peeked of the content is added to the new sequence. -/
def insertPart (sequenceChunk : Chunk F) (peeked : PeekResult F) :
    Except ChunkError (Chunk F) := do
  match ← peeked with
  | none => throw .undefinedBehaviour
  | some chunk => Chunk.insertAt sharing .back sequenceChunk chunk

/-- A new sequence of what is before an offset. -/
def frontPart (content : Chunk F) (offset : Nat) (flags : PeekFlags) :
    Except ChunkError (Chunk F) :=
  if offset ≠ 0 then
    insertPart sharing (.sequence []) (peek sharing content ⟨true, 0, some 0⟩ offset flags)
  else .ok (.sequence [])

/-- The content as a sequence of what is before an offset, a chunk and what is behind. -/
def rebuildInserting (content chunk : Chunk F) (totalLength offset : Nat) :
    Except ChunkError (Chunk F) := do
  let front ← frontPart sharing content offset .allowAll
  let inserted ← Chunk.insertAt sharing .back front chunk
  if offset ≠ totalLength then
    insertPart sharing inserted
      (peek sharing content ⟨true, offset, none⟩ totalLength .allowAll)
  else return inserted

/-- Iterators are moved by the new content. -/
def moveIf (condition : Bool) (content : Chunk F) (iterator : Iterator) (length : Int) :
    Except ChunkError Iterator :=
  if condition then content.moveIterator iterator length else .ok iterator

/-- The content with a chunk inserted at an offset. -/
def insertContent (content chunk : Chunk F) (totalLength offset : Nat) :
    Except ChunkError (Chunk F) :=
  if content.isSingleton then .ok chunk
  else if offset = 0 ∧ canInsertAt sharing .front content chunk then do
    let newContent ← Chunk.insertAt sharing .front content chunk
    return newContent.simplify
  else if offset = totalLength ∧ canInsertAt sharing .back content chunk then do
    let newContent ← Chunk.insertAt sharing .back content chunk
    return newContent.simplify
  else if canInsertAtMiddle content chunk then do
    let newContent ← insertAtMiddle content chunk offset
    return newContent.simplify
  else rebuildInserting sharing content chunk totalLength offset

def insertAt (packet : Packet F) (chunk : Chunk F) (offset : Nat) :
    Except ChunkError (Packet F) :=
  if chunk.getChunkLength = 0 then .error (.error "chunk is empty")
  else if packet.totalLength < offset then .error (.error "offset is out of range")
  else do
    let content ← insertContent sharing packet.content chunk packet.totalLength offset
    let chunkLength := chunk.getChunkLength
    let frontIterator ←
      moveIf (offset < packet.getFrontOffset) content packet.frontIterator chunkLength
    let backIterator ←
      moveIf (packet.getBackOffset < offset) content packet.backIterator chunkLength
    return ⟨content, frontIterator, backIterator, packet.totalLength + chunkLength⟩

def insertAtFront (packet : Packet F) (chunk : Chunk F) : Except ChunkError (Packet F) :=
  packet.insertAt sharing chunk packet.getFrontOffset

def insertAtBack (packet : Packet F) (chunk : Chunk F) : Except ChunkError (Packet F) :=
  packet.insertAt sharing chunk packet.getBackOffset.toNat

/-! ### Erasing -/

/-- The content as a sequence of what is before and what is behind the erased part. -/
def rebuildErasing (content : Chunk F) (totalLength offset length : Nat) :
    Except ChunkError (Chunk F) := do
  let front ← frontPart sharing content offset {}
  if offset ≠ totalLength then
    insertPart sharing front
      (peek sharing content ⟨true, offset + length, none⟩ ↑(totalLength - length) {})
  else return front

/-- The content without the part of a length at an offset. -/
def eraseContent (content : Chunk F) (totalLength offset length : Nat) :
    Except ChunkError (Chunk F) :=
  if content.getChunkLength = length then .ok .empty
  else if offset = 0 ∧ Chunk.canRemoveAt content length then do
    let newContent ← Chunk.removeAt sharing .front content length
    return newContent.simplify
  else if offset + length = totalLength ∧ Chunk.canRemoveAt content length then do
    let newContent ← Chunk.removeAt sharing .back content length
    return newContent.simplify
  else if canRemoveAtMiddle content offset length then do
    -- the offset is passed as the length, too
    let newContent ← removeAtMiddle content offset offset
    return newContent.simplify
  else rebuildErasing sharing content totalLength offset length

def eraseAt (packet : Packet F) (offset length : Nat) : Except ChunkError (Packet F) :=
  if packet.totalLength < offset then .error (.error "offset is out of range")
  else if packet.totalLength < offset + length then .error (.error "length is invalid")
  else do
    let content ← eraseContent sharing packet.content packet.totalLength offset length
    let frontEraseLength : Int := packet.getFrontOffset - offset
    let backEraseLength : Int := offset + length - packet.getBackOffset
    let frontIterator ←
      moveIf (0 < frontEraseLength) content packet.frontIterator (-frontEraseLength)
    let backIterator ←
      moveIf (0 < backEraseLength) content packet.backIterator (-backEraseLength)
    return ⟨content, frontIterator, backIterator, packet.totalLength - length⟩

end Content
end Packet
end Inet.Packet
