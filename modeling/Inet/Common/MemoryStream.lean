import Mathlib
import Inet.Lib.Except

/-!
# Bit streams in memory

The first bit of a stream is the most significant bit of its first byte.
-/
namespace Inet.Common

inductive StreamError where
  | assertion (condition : String)
  | runtimeError (message : String)
  | outOfRange
  | undefinedBehaviour
deriving DecidableEq

/-- The value of `1 << count` as a `uint64_t`, whose left operand is an `int`. -/
def shiftedOne (count : Nat) : Except StreamError UInt64 :=
  if count < 31 then .ok (UInt64.ofNat (2 ^ count))
  else if count = 31 then .ok 0xFFFFFFFF80000000
  else .error .undefinedBehaviour

/-! ### Writing -/

structure MemoryOutputStream where
  data : List UInt8 := []
  length : Nat := 0
deriving DecidableEq

namespace MemoryOutputStream

variable (stream : MemoryOutputStream)

def isByteAligned : Bool := stream.length % 8 = 0

def writeBit (value : Bool) : MemoryOutputStream :=
  let byteIndex := stream.length / 8
  let bitIndex := stream.length % 8
  let data := if bitIndex = 0 then stream.data ++ [0] else stream.data
  { data := if value then data.modify byteIndex (· ||| UInt8.ofNat (1 <<< (7 - bitIndex))) else data
    length := stream.length + 1 }

def writeBits (bits : List Bool) : MemoryOutputStream := bits.foldl writeBit stream

def writeByte (value : UInt8) : MemoryOutputStream :=
  if stream.isByteAligned then { data := stream.data ++ [value], length := stream.length + 8 }
  else
    let l1 := stream.length % 8
    let l2 := 8 - l1
    let data := stream.data.modify (stream.data.length - 1)
      (· ||| UInt8.ofNat ((value.toNat &&& (0xFF <<< l2)) >>> l2))
    { data := data ++ [UInt8.ofNat ((value.toNat &&& (0xFF >>> l1)) <<< l1)]
      length := stream.length + 8 }

def writeBytes (bytes : List UInt8) : Except StreamError MemoryOutputStream :=
  if stream.isByteAligned then
    .ok { data := stream.data ++ bytes, length := stream.length + 8 * bytes.length }
  else .error (.assertion "isByteAligned()")

/-- The bytes of a number, the most significant one first. -/
def writeUintBe : Nat → Nat → MemoryOutputStream → MemoryOutputStream
  | 0, _, stream => stream
  | bytes + 1, value, stream =>
    writeUintBe bytes value (stream.writeByte (UInt8.ofNat (value >>> (8 * bytes))))

def writeUint16Be (value : UInt16) : MemoryOutputStream := stream.writeUintBe 2 value.toNat

def writeUint32Be (value : UInt32) : MemoryOutputStream := stream.writeUintBe 4 value.toNat

def writeUint64Be (value : UInt64) : MemoryOutputStream := stream.writeUintBe 8 value.toNat

/-- The bits of a value under a mask that moves down. -/
def writeMasked (value : UInt64) : Nat → UInt64 → MemoryOutputStream → MemoryOutputStream
  | 0, _, stream => stream
  | count + 1, mul, stream =>
    writeMasked value count (mul >>> 1) (stream.writeBit (value &&& mul != 0))

def writeNBitsOfUint64Be (value : UInt64) (n : UInt8) : Except StreamError MemoryOutputStream :=
  if n = 0 ∨ n > 64 then .error (.runtimeError "Can not write 0 bit or more than 64 bits.")
  else do
    let mul ← shiftedOne (n.toNat - 1)
    return stream.writeMasked value n.toNat mul

end MemoryOutputStream

/-! ### Reading -/

structure MemoryInputStream where
  data : List UInt8
  length : Nat
  position : Nat := 0
  isReadBeyondEnd : Bool := false
deriving DecidableEq

namespace MemoryInputStream

variable (stream : MemoryInputStream)

def isByteAligned : Bool := stream.position % 8 = 0

def readBit : Except StreamError (Bool × MemoryInputStream) :=
  if stream.position = stream.length then .ok (false, { stream with isReadBeyondEnd := true })
  else
    match stream.data[stream.position / 8]? with
    | none => .error .outOfRange
    | some byte =>
      .ok (byte &&& UInt8.ofNat (1 <<< (7 - stream.position % 8)) != 0,
        { stream with position := stream.position + 1 })

def readBits : Nat → MemoryInputStream → Except StreamError (List Bool × MemoryInputStream)
  | 0, stream => .ok ([], stream)
  | length + 1, stream =>
    if stream.isReadBeyondEnd then .ok ([], stream)
    else do
      let (bit, stream) ← stream.readBit
      let (bits, stream) ← readBits length stream
      return (bit :: bits, stream)

/-- A byte of the data by `operator[]`. -/
def byteAt (i : Nat) : Except StreamError UInt8 :=
  match stream.data[i]? with
  | none => .error .undefinedBehaviour
  | some byte => .ok byte

def readByte : Except StreamError (UInt8 × MemoryInputStream) :=
  if stream.length < stream.position + 8 then
    .ok (0, { stream with position := stream.length, isReadBeyondEnd := true })
  else if stream.isByteAligned then do
    let result ← stream.byteAt (stream.position / 8)
    return (result, { stream with position := stream.position + 8 })
  else do
    let l1 := stream.position % 8
    let l2 := 8 - l1
    let high ← stream.byteAt ((stream.position - l1) / 8)
    let low ← stream.byteAt ((stream.position + l2) / 8)
    return (UInt8.ofNat (high.toNat <<< l1) ||| UInt8.ofNat (low.toNat >>> l2),
      { stream with position := stream.position + 8 })

/-- A length in bits as a length in bytes. -/
def toBytes (length : Nat) : Except StreamError Nat :=
  if length % 8 = 0 then .ok (length / 8)
  else .error (.runtimeError "Cannot convert between integer units")

/-- The bytes that are read of some that are asked for. -/
def clipped (length : Nat) : Except StreamError Nat :=
  if stream.length < stream.position + 8 * length then toBytes (stream.length - stream.position)
  else .ok length

def readBytes (length : Nat) : Except StreamError (List UInt8 × MemoryInputStream) :=
  if stream.isByteAligned = false then .error (.assertion "isByteAligned()")
  else do
    let beyond := decide (stream.length < stream.position + 8 * length)
    let length ← stream.clipped length
    if stream.data.length < stream.position / 8 + length then
      .error (.assertion "b(0) <= end && end <= B(data.size())")
    else
      .ok ((stream.data.drop (stream.position / 8)).take length,
        { stream with
          position := stream.position + 8 * length
          isReadBeyondEnd := stream.isReadBeyondEnd || beyond })

/-- The bytes are copied to a buffer without a check of their place in the data. -/
def readBytesToBuffer (length : Nat) : Except StreamError (List UInt8 × MemoryInputStream) :=
  if stream.isByteAligned = false then .error (.assertion "isByteAligned()")
  else do
    let beyond := decide (stream.length < stream.position + 8 * length)
    let length ← stream.clipped length
    if stream.data.length < stream.position / 8 + length then .error .undefinedBehaviour
    else
      .ok ((stream.data.drop (stream.position / 8)).take length,
        { stream with
          position := stream.position + 8 * length
          isReadBeyondEnd := stream.isReadBeyondEnd || beyond })

/-- A number from bytes, the most significant one first, added to what has been read. -/
def readUintBe : Nat → Nat → MemoryInputStream → Except StreamError (Nat × MemoryInputStream)
  | 0, value, stream => .ok (value, stream)
  | bytes + 1, value, stream => do
    let (byte, stream) ← stream.readByte
    readUintBe bytes (value ||| byte.toNat <<< (8 * bytes)) stream

def readUint16Be : Except StreamError (UInt16 × MemoryInputStream) := do
  let (value, stream) ← readUintBe 2 0 stream
  return (UInt16.ofNat value, stream)

def readUint32Be : Except StreamError (UInt32 × MemoryInputStream) := do
  let (value, stream) ← readUintBe 4 0 stream
  return (UInt32.ofNat value, stream)

def readUint64Be : Except StreamError (UInt64 × MemoryInputStream) := do
  let (value, stream) ← readUintBe 8 0 stream
  return (UInt64.ofNat value, stream)

/-- The bits of a number, one for each mask. -/
def readUintBits : List Nat → Nat → MemoryInputStream → Except StreamError (Nat × MemoryInputStream)
  | [], value, stream => .ok (value, stream)
  | mask :: masks, value, stream => do
    let (bit, stream) ← stream.readBit
    readUintBits masks (if bit then value ||| mask else value) stream

def readUint2 : Except StreamError (Nat × MemoryInputStream) := readUintBits [0x2, 0x1] 0 stream

def readUint4 : Except StreamError (Nat × MemoryInputStream) :=
  readUintBits [0x8, 0x4, 0x2, 0x1] 0 stream

def readUint8 : Except StreamError (UInt8 × MemoryInputStream) := stream.readByte

/-- A number from bytes, the least significant one first, added to what has been read. -/
def readUintLe : Nat → Nat → Nat → MemoryInputStream → Except StreamError (Nat × MemoryInputStream)
  | 0, _, value, stream => .ok (value, stream)
  | bytes + 1, shift, value, stream => do
    let (byte, stream) ← stream.readByte
    readUintLe bytes (shift + 8) (value ||| byte.toNat <<< shift) stream

def readUint16Le : Except StreamError (UInt16 × MemoryInputStream) := do
  let (value, stream) ← readUintLe 2 0 0 stream
  return (UInt16.ofNat value, stream)

def readUint24Be : Except StreamError (UInt32 × MemoryInputStream) := do
  let (value, stream) ← readUintBe 3 0 stream
  return (UInt32.ofNat value, stream)

def readUint24Le : Except StreamError (UInt32 × MemoryInputStream) := do
  let (value, stream) ← readUintLe 3 0 0 stream
  return (UInt32.ofNat value, stream)

def readUint32Le : Except StreamError (UInt32 × MemoryInputStream) := do
  let (value, stream) ← readUintLe 4 0 0 stream
  return (UInt32.ofNat value, stream)

def readUint64Le : Except StreamError (UInt64 × MemoryInputStream) := do
  let (value, stream) ← readUintLe 8 0 0 stream
  return (UInt64.ofNat value, stream)

/-- The same read a number of times. -/
def readTimes {α : Type} (read : MemoryInputStream → Except StreamError (α × MemoryInputStream)) :
    Nat → MemoryInputStream → Except StreamError (List α × MemoryInputStream)
  | 0, stream => .ok ([], stream)
  | count + 1, stream => do
    let (value, stream) ← read stream
    let (values, stream) ← readTimes read count stream
    return (value :: values, stream)

def readBitRepeatedly (value : Bool) (count : Nat) : Except StreamError (Bool × MemoryInputStream) := do
  let (bits, stream) ← readTimes readBit count stream
  return (bits.all (value == ·), stream)

def readByteRepeatedly (value : UInt8) (count : Nat) :
    Except StreamError (Bool × MemoryInputStream) := do
  let (bytes, stream) ← readTimes readByte count stream
  return (bytes.all (value == ·), stream)

def readMacAddress : Except StreamError (List UInt8 × MemoryInputStream) :=
  readTimes readByte 6 stream

def readIpv4Address : Except StreamError (UInt32 × MemoryInputStream) := stream.readUint32Be

def readIpv6Address : Except StreamError (List UInt32 × MemoryInputStream) :=
  readTimes readUint32Be 4 stream

/-- The bytes up to a zero, when there are at most so many. -/
def readUntilZero : Nat → MemoryInputStream → Except StreamError (List UInt8 × MemoryInputStream)
  | 0, stream => .ok ([], stream)
  | count + 1, stream => do
    let (byte, stream) ← stream.readByte
    if byte = 0 then return ([], stream)
    else
      let (bytes, stream) ← readUntilZero count stream
      return (byte :: bytes, stream)

/-- The loop ends at the end of the stream at the latest, where the byte read is zero. -/
def readString : Except StreamError (List UInt8 × MemoryInputStream) :=
  readUntilZero ((stream.length - stream.position) / 8 + 1) stream

/-- The bits of a number under a mask that moves down, added to what has been read. -/
def readMasked : Nat → UInt64 → UInt64 → MemoryInputStream →
    Except StreamError (UInt64 × MemoryInputStream)
  | 0, _, num, stream => .ok (num, stream)
  | count + 1, mul, num, stream => do
    let (bit, stream) ← stream.readBit
    readMasked count (mul >>> 1) (if bit then num ||| mul else num) stream

def readNBitsToUint64Be (n : UInt8) : Except StreamError (UInt64 × MemoryInputStream) :=
  if n = 0 ∨ n > 64 then .error (.runtimeError "Can not read 0 bit or more than 64 bits.")
  else do
    let mul ← shiftedOne (n.toNat - 1)
    readMasked n.toNat mul 0 stream

end MemoryInputStream
end Inet.Common
