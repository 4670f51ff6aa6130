import Inet.Lib.Part
import Inet.Packet.Chunk

/-!
# Peeking and inserting

Peeking a part of a chunk in its default representation, and inserting a chunk at one side
of another one. The two call each other: a part across several elements of a sequence is a
new sequence that the elements are inserted into. Every such call is about a chunk of
smaller size, so the functions are defined level by level.
-/
namespace Inet.Packet

open Lib

/-- A thrown error, or an access the language leaves undefined. -/
inductive ChunkError where
  | error (text : String)
  | undefinedBehaviour
deriving DecidableEq, Repr

/-- The peek flags that decide what an empty part is returned as. -/
structure PeekFlags where
  allowNullptr : Bool := false
  allowEmpty : Bool := false
deriving DecidableEq, Repr

/-- `PF_ALLOW_ALL`. -/
def PeekFlags.allowAll : PeekFlags := ⟨true, true⟩

/-- Position and index are measured from the beginning or, backward, from the end. The index
-1 is `none`. -/
structure Iterator where
  isForward : Bool
  position : Nat
  index : Option Nat
deriving DecidableEq, Repr

/-- The iterator a position converts to. -/
def Iterator.of (position : Nat) : Iterator :=
  ⟨true, position, if position = 0 then some 0 else none⟩

def Iterator.forward (position : Nat) : Iterator := ⟨true, position, none⟩

def Iterator.backward (position : Nat) : Iterator := ⟨false, position, none⟩

variable {F : Type} [Fields F]

/-- Whether two slices refer to the same chunk object, which the values do not tell. -/
structure Sharing (F : Type) where
  same : Chunk F → Chunk F → Bool
  eq_of_same : ∀ chunk offset length chunk' offset' length',
    same (.slice chunk offset length) (.slice chunk' offset' length') = true → chunk = chunk'

/-- No two slices refer to the same object. -/
def Sharing.never (F : Type) : Sharing F := ⟨fun _ _ => false, by simp⟩

/-- `nullptr` is `none`. -/
abbrev PeekResult (F : Type) := Except ChunkError (Option (Chunk F))

/-- The side of a chunk that another one is inserted at. -/
inductive Side where
  | front
  | back
deriving DecidableEq, Repr

namespace Side

variable {α : Type}

/-- What is added comes before or behind what is there. -/
def join : Side → List α → List α → List α
  | front, present, added => added ++ present
  | back, present, added => present ++ added

/-- The order in which a sequence of elements is inserted. -/
def order : Side → List α → List α
  | front, elements => elements.reverse
  | back, elements => elements

def outermost : Side → List α → Option α
  | front, elements => elements.head?
  | back, elements => elements.getLast?

def replaceOutermost : Side → List α → α → List α
  | front, elements, element => element :: elements.tail
  | back, elements, element => elements.dropLast ++ [element]

end Side

namespace Chunk

/-- What peeking an element and inserting into an element is done by. -/
structure Level (F : Type) where
  peekUnchecked : Chunk F → Iterator → Int → PeekFlags → PeekResult F
  insertAt : Side → Chunk F → Chunk F → Except ChunkError (Chunk F)

/-! ### Results -/

def getEmptyChunk (flags : PeekFlags) : PeekResult F :=
  if flags.allowNullptr then .ok none
  else if flags.allowEmpty then .ok (some .empty)
  else .error (.error "Returning an empty chunk is not allowed according to the flags")

def checkPeekResult (chunk : Option (Chunk F)) (flags : PeekFlags) : PeekResult F :=
  match chunk with
  | none =>
    if flags.allowNullptr then .ok none
    else .error (.error "Returning an empty chunk (nullptr) is not allowed according to the flags")
  | some .empty =>
    if flags.allowEmpty then .ok (some .empty)
    else .error (.error "Returning an empty chunk (EmptyChunk) is not allowed according to the flags")
  | some chunk => .ok (some chunk)

/-- The whole of a chunk, as `simplify` peeks it after something was inserted. -/
def simplify : Chunk F → Chunk F
  | .slice chunk offset length =>
    if offset = 0 ∧ length = chunk.getChunkLength then chunk else .slice chunk offset length
  | chunk => chunk

/-! ### Leaves -/

/-- What every leaf does before it makes a new chunk. -/
def peekLeaf (chunk : Chunk F) (rebuild : Iterator → Int → PeekResult F) (iterator : Iterator)
    (length : Int) (flags : PeekFlags) : PeekResult F :=
  let chunkLength := chunk.getChunkLength
  if chunkLength < iterator.position then .error (.error "iterator is out of range")
  else if length = 0 ∨ (iterator.position = chunkLength ∧ length < 0) then getEmptyChunk flags
  else if iterator.position = 0 ∧ (-length ≥ chunkLength ∨ length = chunkLength) then
    .ok (some chunk)
  else rebuild iterator length

/-- A negative length stands for at most as many bits. -/
def resolveLength (chunkLength position : Nat) (length : Int) : Int :=
  if length < 0 then min (-length) (chunkLength - position) else length

/-- The offset that `peekConverted` passes on. -/
def convertedOffset (chunkLength : Nat) (iterator : Iterator) (length : Int) :
    Except ChunkError Nat :=
  if !iterator.isForward && length < 0 then
    .error (.error
      "chunk conversion using backward iterator with undefined length is invalid")
  else
    let offset : Int :=
      if iterator.isForward then iterator.position else chunkLength - iterator.position - length
    if offset < 0 then .error .undefinedBehaviour else .ok offset.toNat

/-- `peekConverted<SliceChunk>`. -/
def peekSlice (chunk : Chunk F) (iterator : Iterator) (length : Int) :
    Except ChunkError (Option (Chunk F)) := do
  let chunkLength := chunk.getChunkLength
  let offset ← convertedOffset chunkLength iterator length
  let sliceLength : Int := if length < 0 then min (-length) chunkLength - offset else length
  return some (.slice chunk offset (resolveLength chunkLength offset sliceLength).toNat)

/-- Bytes that start and end at byte boundaries are copied. The copy starts at the position
of the iterator, whichever way it runs. -/
def peekBytes (bs : List UInt8) (iterator : Iterator) (length : Int) : PeekResult F :=
  if iterator.position % 8 = 0 ∧ (length < 0 ∨ length % 8 = 0) then
    let resultLength := resolveLength (8 * bs.length) iterator.position length
    if resultLength % 8 ≠ 0 then .error (.error "Cannot convert between integer units")
    else if iterator.position + resultLength > 8 * bs.length then .error .undefinedBehaviour
    else .ok (some (.bytes (part bs (iterator.position / 8) (resultLength / 8).toNat)))
  else peekSlice (.bytes bs) iterator length

/-- A new chunk of the requested length, which has the default data. -/
def peekByteCount (count : Nat) (data : UInt8) (iterator : Iterator) (length : Int) :
    PeekResult F :=
  if iterator.position % 8 = 0 ∧ (length < 0 ∨ length % 8 = 0) then
    let resultLength := resolveLength (8 * count) iterator.position length
    if resultLength % 8 ≠ 0 then .error (.error "Cannot convert between integer units")
    else .ok (some (.byteCount (resultLength / 8).toNat '?'.toUInt8))
  else peekSlice (.byteCount count data) iterator length

def peekEmpty (iterator : Iterator) (length : Int) (flags : PeekFlags) : PeekResult F :=
  if iterator.position ≠ 0 then .error (.error "iterator is out of range")
  else if 0 < length then .error (.error "length is invalid")
  else getEmptyChunk flags

/-! ### Insertion -/

/-- `canInsertAtFront` and `canInsertAtBack`. -/
def canInsertAt (sharing : Sharing F) (side : Side) : Chunk F → Chunk F → Bool
  | .bytes _, .bytes _ => true
  | .byteCount _ _, .byteCount _ _ => true
  | .slice chunk offset length, .slice chunk' offset' length' =>
    sharing.same (.slice chunk offset length) (.slice chunk' offset' length') &&
      match side with
      | .front => offset = offset' + length'
      | .back => offset + length = offset'
  | .sequence _, _ => true
  | _, _ => false

section Levels

variable (sharing : Sharing F) (below : Level F)

/-- `doInsertChunkAtFront` and `doInsertChunkAtBack`. -/
def doInsertChunk (side : Side) (chunks : List (Chunk F)) (chunk : Chunk F) :
    Except ChunkError (List (Chunk F)) :=
  if chunk.getChunkLength = 0 then .error (.error "chunk is empty")
  else
    match side.outermost chunks with
    | none => .ok [chunk]
    | some outermost =>
      if canInsertAt sharing side outermost chunk then do
        let merged ← below.insertAt side outermost chunk
        return side.replaceOutermost chunks merged.simplify
      else .ok (side.join chunks [chunk])

/-- Which part of an element lies in a slice: nothing, all of it, or a part to peek. -/
inductive ElementCut where
  | outside
  | whole
  | part (offset length : Nat)
deriving DecidableEq, Repr

def elementCut (sliceChunkBegin sliceChunkEnd chunkBegin chunkEnd : Nat) : ElementCut :=
  if sliceChunkBegin ≤ chunkBegin ∧ chunkEnd ≤ sliceChunkEnd then .whole
  else if chunkBegin < sliceChunkBegin ∧ sliceChunkEnd < chunkEnd then
    .part (sliceChunkBegin - chunkBegin) (sliceChunkEnd - sliceChunkBegin)
  else if chunkBegin < sliceChunkBegin ∧ sliceChunkBegin < chunkEnd then
    .part (sliceChunkBegin - chunkBegin) (chunkEnd - sliceChunkBegin)
  else if chunkBegin < sliceChunkEnd ∧ sliceChunkEnd < chunkEnd then
    .part 0 (sliceChunkEnd - chunkBegin)
  else .outside

/-- `elementChunk->peek(offset, length)`. -/
def peekElement (element : Chunk F) (offset length : Nat) : Except ChunkError (Chunk F) := do
  match ← below.peekUnchecked element (.of offset) length {} with
  | none =>
    throw (.error "Returning an empty chunk (nullptr) is not allowed according to the flags")
  | some .empty =>
    throw (.error "Returning an empty chunk (EmptyChunk) is not allowed according to the flags")
  | some chunk => return chunk

/-- One step of the loop over the elements of a sliced sequence. -/
def doInsertElement (side : Side) (sliceChunkBegin sliceChunkEnd : Nat)
    (chunks : List (Chunk F)) (element : Nat × Chunk F) : Except ChunkError (List (Chunk F)) :=
  match elementCut sliceChunkBegin sliceChunkEnd element.1
      (element.1 + element.2.getChunkLength) with
  | .outside => .ok chunks
  | .whole => doInsertChunk sharing below side chunks element.2
  | .part offset length => do
    let chunk ← peekElement below element.2 offset length
    doInsertChunk sharing below side chunks chunk

/-- The elements of a sequence with the offsets they begin at. -/
def withOffsets : Nat → List (Chunk F) → List (Nat × Chunk F)
  | _, [] => []
  | offset, chunk :: rest => (offset, chunk) :: withOffsets (offset + chunk.getChunkLength) rest

/-- `doInsertSliceChunkAtFront` and `doInsertSliceChunkAtBack` for a slice of a sequence. -/
def doInsertSlice (side : Side) (chunks elements : List (Chunk F)) (offset length : Nat) :
    Except ChunkError (List (Chunk F)) :=
  (side.order (withOffsets 0 elements)).foldlM
    (doInsertElement sharing below side offset (offset + length)) chunks

/-- `doInsertAtFront` and `doInsertAtBack` of a sequence. -/
def doInsert (side : Side) (chunks : List (Chunk F)) (chunk : Chunk F) :
    Except ChunkError (List (Chunk F)) :=
  match chunk with
  | .slice (.sequence elements) offset length =>
    doInsertSlice sharing below side chunks elements offset length
  | .sequence elements =>
    (side.order elements).foldlM (doInsertChunk sharing below side) chunks
  | chunk => doInsertChunk sharing below side chunks chunk

/-- `insertAtFront` and `insertAtBack`, each class by its own `doInsert`. -/
def insertAtWith (side : Side) (chunk inserted : Chunk F) : Except ChunkError (Chunk F) :=
  match chunk, inserted with
  | .bytes bs, .bytes bs' => .ok (.bytes (side.join bs bs'))
  | .byteCount length data, .byteCount length' _ => .ok (.byteCount (length + length') data)
  | .slice chunk offset length, .slice _ _ length' =>
    match side with
    | .front => .ok (.slice chunk (offset - length') (length + length'))
    | .back => .ok (.slice chunk offset (length + length'))
  | .sequence chunks, inserted => do
    let chunks ← doInsert sharing below side chunks inserted
    return .sequence chunks
  | _, _ => .error (.error "Invalid operation")

/-! ### Peeking -/

/-- `getElementChunk`, `none` behind the last element. -/
def getElementChunk (chunks : List (Chunk F)) (isForward : Bool) (index : Nat) :
    Option (Chunk F) :=
  if isForward then chunks[index]? else chunks.reverse[index]?

/-- The loop over the elements, in the direction of the iterator. It ends without a result
when the part does not lie in one element. -/
def peekElements (iterator : Iterator) (length : Int) (flags : PeekFlags) :
    List (Chunk F) → Nat → Option (PeekResult F)
  | [], _ => none
  | chunk :: rest, position =>
    let elementChunkLength := chunk.getChunkLength
    if iterator.position = position ∧
        (-length ≥ elementChunkLength ∨ length = elementChunkLength) then
      some (.ok (some chunk))
    else if position ≤ iterator.position ∧ iterator.position < position + elementChunkLength ∧
        (-length ≥ elementChunkLength ∨
          iterator.position + length ≤ position + elementChunkLength) then
      some (below.peekUnchecked chunk
        ⟨iterator.isForward, iterator.position - position, none⟩ length flags)
    else peekElements iterator length flags rest (position + elementChunkLength)

/-- `peekConverted<SequenceChunk>`. -/
def peekSequenceChunk (chunks : List (Chunk F)) (iterator : Iterator) (length : Int) :
    Except ChunkError (Option (Chunk F)) := do
  let chunkLength := lengthOfAll chunks
  let offset ← convertedOffset chunkLength iterator length
  let result ← doInsertSlice sharing below .back [] chunks offset
    (resolveLength chunkLength offset length).toNat
  return some (.sequence result)

/-- Everything behind the test for an element with its index. -/
def peekUnindexed (chunks : List (Chunk F)) (iterator : Iterator) (length : Int)
    (flags : PeekFlags) : PeekResult F :=
  match peekElements below iterator length flags
      (if iterator.isForward then chunks else chunks.reverse) 0 with
  | some result => result
  | none => peekSequenceChunk sharing below chunks iterator length

def peekSequence (chunks : List (Chunk F)) (iterator : Iterator) (length : Int)
    (flags : PeekFlags) : PeekResult F :=
  let chunkLength := lengthOfAll chunks
  if chunkLength < iterator.position then .error (.error "iterator is out of range")
  else if length = 0 ∨ (iterator.position = chunkLength ∧ length < 0) then getEmptyChunk flags
  else if iterator.position = 0 ∧ length = chunkLength then .ok (some (.sequence chunks))
  else
    match iterator.index with
    | none => peekUnindexed sharing below chunks iterator length flags
    | some index =>
      if index = chunks.length then peekUnindexed sharing below chunks iterator length flags
      else
        match getElementChunk chunks iterator.isForward index with
        | none => .error .undefinedBehaviour
        | some chunk =>
          if -length ≥ chunk.getChunkLength ∨ length = chunk.getChunkLength then .ok (some chunk)
          else peekUnindexed sharing below chunks iterator length flags

/-- `peekUnchecked`, each class by its own definition. -/
def peekUncheckedWith : Chunk F → Iterator → Int → PeekFlags → PeekResult F
  | .empty, iterator, length, flags => peekEmpty iterator length flags
  | .bytes bs, iterator, length, flags =>
    peekLeaf (.bytes bs) (peekBytes bs) iterator length flags
  | .byteCount count data, iterator, length, flags =>
    peekLeaf (.byteCount count data) (peekByteCount count data) iterator length flags
  | .fields content, iterator, length, flags =>
    peekLeaf (.fields content) (peekSlice (.fields content)) iterator length flags
  | .slice chunk offset sliceLength, iterator, length, flags =>
    if sliceLength < iterator.position then .error (.error "iterator is out of range")
    else if length = 0 ∨ (iterator.position = sliceLength ∧ length < 0) then getEmptyChunk flags
    else if iterator.position = 0 ∧ (-length ≥ sliceLength ∨ length = sliceLength) then
      if offset = 0 ∧ sliceLength = chunk.getChunkLength then .ok (some chunk)
      else .ok (some (.slice chunk offset sliceLength))
    else
      -- the sliced chunk is always peeked forward
      peekUncheckedWith chunk (.forward (iterator.position + offset))
        (if length < 0 then -min (-length) (sliceLength - offset) else length) flags
  | .sequence chunks, iterator, length, flags =>
    peekSequence sharing below chunks iterator length flags

end Levels

/-- Peeking and inserting for chunks up to a size. -/
def level (sharing : Sharing F) : Nat → Level F
  | 0 => ⟨fun _ _ _ _ => .error .undefinedBehaviour, fun _ _ _ => .error .undefinedBehaviour⟩
  | size + 1 =>
    ⟨peekUncheckedWith sharing (level sharing size), insertAtWith sharing (level sharing size)⟩

def peekUnchecked (sharing : Sharing F) (chunk : Chunk F) (iterator : Iterator) (length : Int)
    (flags : PeekFlags) : PeekResult F :=
  (level sharing chunk.size).peekUnchecked chunk iterator length flags

def peek (sharing : Sharing F) (chunk : Chunk F) (iterator : Iterator) (length : Int)
    (flags : PeekFlags) : Except ChunkError (Option (Chunk F)) := do
  let result ← peekUnchecked sharing chunk iterator length flags
  checkPeekResult result flags

def insertAt (sharing : Sharing F) (side : Side) (chunk inserted : Chunk F) :
    Except ChunkError (Chunk F) :=
  (level sharing (chunk.size + inserted.size)).insertAt side chunk inserted

end Chunk
end Inet.Packet

/-!
## Where fill bytes survive

A `ByteCountChunk` gives up its data in two places: a part of it that is cut at byte
boundaries is a new chunk with the default data, and a chunk that is inserted into another
one takes over the other one's data. `KeepsFill` says that a peek or an insertion does
neither to a chunk with different data. Nothing else changes bits.
-/
namespace Inet.Packet

open Lib

/-- A property of every state and item that a loop meets. -/
def Along {σ α ε : Type} (step : σ → α → Except ε σ) (holds : σ → α → Prop) :
    σ → List α → Prop
  | _, [] => True
  | state, item :: rest =>
    holds state item ∧ ∀ next, step state item = .ok next → Along step holds next rest

namespace Chunk

variable {F : Type} [Fields F]

/-- The element that a part lies in, with the offset in it. -/
def locate : List (Chunk F) → Nat → Nat → Option (Chunk F × Nat)
  | [], _, _ => none
  | chunk :: rest, offset, length =>
    if offset < chunk.getChunkLength then
      if offset + length ≤ chunk.getChunkLength then some (chunk, offset) else none
    else locate rest (offset - chunk.getChunkLength) length

/-- What peeking a part of an element, and inserting into one, has to keep. -/
structure KeepsLevel (F : Type) where
  peek : Chunk F → Nat → Nat → Prop
  insert : Side → Chunk F → Chunk F → Prop

section Levels

variable (sharing : Sharing F) (below : Level F) (keeps : KeepsLevel F)

def DoInsertChunkKeeps (side : Side) (chunks : List (Chunk F)) (chunk : Chunk F) : Prop :=
  ∀ outermost, side.outermost chunks = some outermost →
    canInsertAt sharing side outermost chunk = true → keeps.insert side outermost chunk

def DoInsertElementKeeps (side : Side) (sliceChunkBegin sliceChunkEnd : Nat)
    (chunks : List (Chunk F)) (element : Nat × Chunk F) : Prop :=
  match elementCut sliceChunkBegin sliceChunkEnd element.1
      (element.1 + element.2.getChunkLength) with
  | .outside => True
  | .whole => DoInsertChunkKeeps sharing keeps side chunks element.2
  | .part offset length =>
    keeps.peek element.2 offset length ∧
      ∀ chunk, peekElement below element.2 offset length = .ok chunk →
        DoInsertChunkKeeps sharing keeps side chunks chunk

def DoInsertSliceKeeps (side : Side) (chunks elements : List (Chunk F)) (offset length : Nat) :
    Prop :=
  Along (doInsertElement sharing below side offset (offset + length))
    (DoInsertElementKeeps sharing below keeps side offset (offset + length)) chunks
    (side.order (withOffsets 0 elements))

def DoInsertKeeps (side : Side) (chunks : List (Chunk F)) (chunk : Chunk F) : Prop :=
  match chunk with
  | .slice (.sequence elements) offset length =>
    DoInsertSliceKeeps sharing below keeps side chunks elements offset length
  | .sequence elements =>
    Along (doInsertChunk sharing below side) (DoInsertChunkKeeps sharing keeps side) chunks
      (side.order elements)
  | chunk => DoInsertChunkKeeps sharing keeps side chunks chunk

/-- An inserted `ByteCountChunk` has the data of the one it is inserted into. -/
def InsertKeepsWith (side : Side) (chunk inserted : Chunk F) : Prop :=
  match chunk, inserted with
  | .byteCount _ data, .byteCount _ data' => data' = data
  | .sequence chunks, inserted => DoInsertKeeps sharing below keeps side chunks inserted
  | _, _ => True

/-- A part of a `ByteCountChunk` that is cut at byte boundaries has the default data. -/
def PeekKeepsWith : Chunk F → Nat → Nat → Prop
  | .byteCount count data, offset, length =>
    (offset = 0 ∧ length = 8 * count) ∨ ¬(offset % 8 = 0 ∧ length % 8 = 0) ∨
      data = '?'.toUInt8
  | .slice chunk sliceOffset sliceLength, offset, length =>
    (offset = 0 ∧ length = sliceLength) ∨ PeekKeepsWith chunk (offset + sliceOffset) length
  | .sequence chunks, offset, length =>
    (offset = 0 ∧ length = lengthOfAll chunks) ∨
      match locate chunks offset length with
      | some (element, inner) =>
        (inner = 0 ∧ length = element.getChunkLength) ∨ keeps.peek element inner length
      | none => DoInsertSliceKeeps sharing below keeps .back [] chunks offset length
  | _, _, _ => True

end Levels

def keepsLevel (sharing : Sharing F) : Nat → KeepsLevel F
  | 0 => ⟨fun _ _ _ => False, fun _ _ _ => False⟩
  | size + 1 =>
    ⟨PeekKeepsWith sharing (level sharing size) (keepsLevel sharing size),
      InsertKeepsWith sharing (level sharing size) (keepsLevel sharing size)⟩

/-- Peeking the part of a chunk loses no data of a `ByteCountChunk`. -/
def PeekKeeps (sharing : Sharing F) (chunk : Chunk F) (offset length : Nat) : Prop :=
  (keepsLevel sharing chunk.size).peek chunk offset length

/-- Inserting a chunk at a side of another one loses no data of a `ByteCountChunk`. -/
def InsertKeeps (sharing : Sharing F) (side : Side) (chunk inserted : Chunk F) : Prop :=
  (keepsLevel sharing (chunk.size + inserted.size)).insert side chunk inserted

end Chunk
end Inet.Packet
