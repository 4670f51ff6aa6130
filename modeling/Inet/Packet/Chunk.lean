import Mathlib.Data.List.Basic
import Mathlib.Algebra.BigOperators.Group.List.Basic

/-!
# Chunks

A chunk is one representation of a sequence of bits. Lengths and offsets are in bits.
Chunks that a packet or another chunk holds are immutable, so they are values here. Which
slices refer to the same chunk object is kept apart, in `Sharing`.
-/
namespace Inet.Packet

/-- The fields of a `FieldsChunk` subclass and the bits its serializer makes of them. -/
class Fields (F : Type) where
  serialize : F → List Bool

/-- Fields that are given by what their serializer makes of them. -/
instance : Fields (List Bool) := ⟨id⟩

/-- The chunk classes a packet is built from. Their marks and region tags are left out. -/
inductive Chunk (F : Type) where
  | empty
  | bytes (bytes : List UInt8)
  | byteCount (length : Nat) (data : UInt8)
  | fields (content : F)
  | slice (chunk : Chunk F) (offset length : Nat)
  | sequence (chunks : List (Chunk F))
deriving Repr

/-- The bits of a byte, most significant first. -/
def byteBits (byte : UInt8) : List Bool := (List.range 8).map fun i => byte.toNat.testBit (7 - i)

@[simp] theorem length_byteBits (byte : UInt8) : (byteBits byte).length = 8 := by simp [byteBits]

/-- The bits of consecutive bytes. -/
def bytesBits (bytes : List UInt8) : List Bool := bytes.flatMap byteBits

/-- The bits of a number of equal bytes. -/
def fillBits (length : Nat) (data : UInt8) : List Bool := bytesBits (List.replicate length data)

variable {F : Type} [Fields F]

namespace Chunk

mutual

/-- The bits a chunk stands for. -/
def bits : Chunk F → List Bool
  | .empty => []
  | .bytes bs => bytesBits bs
  | .byteCount length data => fillBits length data
  | .fields content => Fields.serialize content
  | .slice chunk offset length => ((bits chunk).drop offset).take length
  | .sequence chunks => bitsOfAll chunks

def bitsOfAll : List (Chunk F) → List Bool
  | [] => []
  | chunk :: rest => bits chunk ++ bitsOfAll rest

end

mutual

def getChunkLength : Chunk F → Nat
  | .empty => 0
  | .bytes bs => 8 * bs.length
  | .byteCount length _ => 8 * length
  | .fields content => (Fields.serialize content).length
  | .slice _ _ length => length
  | .sequence chunks => lengthOfAll chunks

def lengthOfAll : List (Chunk F) → Nat
  | [] => 0
  | chunk :: rest => getChunkLength chunk + lengthOfAll rest

end

mutual

/-- The number of leaves and sequences in a chunk. -/
def size : Chunk F → Nat
  | .slice chunk _ _ => size chunk
  | .sequence chunks => 1 + sizeOfAll chunks
  | _ => 1

def sizeOfAll : List (Chunk F) → Nat
  | [] => 0
  | chunk :: rest => size chunk + sizeOfAll rest

end

@[simp] theorem bitsOfAll_append (xs ys : List (Chunk F)) :
    bitsOfAll (xs ++ ys) = bitsOfAll xs ++ bitsOfAll ys := by
  induction xs with
  | nil => rfl
  | cons chunk rest ih => simp only [List.cons_append, bitsOfAll, ih, List.append_assoc]

@[simp] theorem lengthOfAll_append (xs ys : List (Chunk F)) :
    lengthOfAll (xs ++ ys) = lengthOfAll xs + lengthOfAll ys := by
  induction xs with
  | nil => simp [lengthOfAll]
  | cons chunk rest ih => simp only [List.cons_append, lengthOfAll, ih, Nat.add_assoc]

omit [Fields F] in
@[simp] theorem sizeOfAll_append (xs ys : List (Chunk F)) :
    sizeOfAll (xs ++ ys) = sizeOfAll xs + sizeOfAll ys := by
  induction xs with
  | nil => simp [sizeOfAll]
  | cons chunk rest ih => simp only [List.cons_append, sizeOfAll, ih, Nat.add_assoc]

theorem lengthOfAll_reverse (xs : List (Chunk F)) :
    lengthOfAll xs.reverse = lengthOfAll xs := by
  induction xs with
  | nil => rfl
  | cons chunk rest ih => simp [lengthOfAll, ih, Nat.add_comm]

omit [Fields F] in
theorem size_pos : ∀ chunk : Chunk F, 0 < chunk.size
  | .slice chunk _ _ => size_pos chunk
  | .sequence chunks => by
    rw [size]
    omega
  | .empty => Nat.one_pos
  | .bytes _ => Nat.one_pos
  | .byteCount _ _ => Nat.one_pos
  | .fields _ => Nat.one_pos

omit [Fields F] in
theorem size_le_sizeOfAll {chunk : Chunk F} {chunks : List (Chunk F)} (member : chunk ∈ chunks) :
    chunk.size ≤ sizeOfAll chunks := by
  induction chunks with
  | nil => cases member
  | cons head rest ih =>
    rw [sizeOfAll]
    rcases List.mem_cons.mp member with rfl | later
    · omega
    · have := ih later
      omega

/-! ### Well-formed chunks -/

/-- Slices lie within their chunk and the elements of a sequence are not empty. -/
inductive WellFormed : Chunk F → Prop
  | empty : WellFormed .empty
  | bytes (bs : List UInt8) : WellFormed (.bytes bs)
  | byteCount (length : Nat) (data : UInt8) : WellFormed (.byteCount length data)
  | fields (content : F) : WellFormed (.fields content)
  | slice {chunk : Chunk F} {offset length : Nat} (wf : WellFormed chunk)
      (inside : offset + length ≤ chunk.getChunkLength) : WellFormed (.slice chunk offset length)
  | sequence {chunks : List (Chunk F)} (wf : ∀ chunk ∈ chunks, WellFormed chunk)
      (positive : ∀ chunk ∈ chunks, 0 < chunk.getChunkLength) : WellFormed (.sequence chunks)

@[simp] theorem length_bytesBits (bs : List UInt8) : (bytesBits bs).length = 8 * bs.length := by
  induction bs with
  | nil => rfl
  | cons byte rest ih =>
    simp only [bytesBits, List.flatMap_cons, List.length_append, length_byteBits,
      List.length_cons] at ih ⊢
    omega

@[simp] theorem length_fillBits (length : Nat) (data : UInt8) :
    (fillBits length data).length = 8 * length := by
  simp [fillBits]

/-- The bits of elements are as many as their lengths say if this holds of each of them. -/
theorem length_bitsOfAll {chunks : List (Chunk F)}
    (each : ∀ chunk ∈ chunks, chunk.bits.length = chunk.getChunkLength) :
    (bitsOfAll chunks).length = lengthOfAll chunks := by
  induction chunks with
  | nil => rfl
  | cons chunk rest ih =>
    rw [bitsOfAll, lengthOfAll, List.length_append, each chunk List.mem_cons_self,
      ih fun other member => each other (List.mem_cons_of_mem chunk member)]

/-- A well-formed chunk has as many bits as its length says. -/
theorem WellFormed.length_bits {chunk : Chunk F} (wf : WellFormed chunk) :
    chunk.bits.length = chunk.getChunkLength := by
  induction wf with
  | empty => rfl
  | bytes bs => rw [bits, getChunkLength, length_bytesBits]
  | byteCount length data => rw [bits, getChunkLength, length_fillBits]
  | fields content => rfl
  | slice wf inside ih =>
    rw [bits, getChunkLength, List.length_take, List.length_drop, ih]
    omega
  | sequence wf positive ih =>
    rw [bits, getChunkLength]
    exact length_bitsOfAll ih

end Chunk
end Inet.Packet
