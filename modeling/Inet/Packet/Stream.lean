import Mathlib.Data.List.OfFn
import Inet.Packet.Chunk
import Inet.Lib.ReadWhile

/-!
# Memory streams

What the serializers of headers write and read.
-/
namespace Inet.Packet

/-- The conversion of a number to 16 bits. -/
def toUint16 (value : Int) : UInt16 := UInt16.ofNat (value % 65536).toNat

theorem toNat_toUint16 (value : Int) : (toUint16 value).toNat = (value % 65536).toNat := by
  have := Int.emod_lt_of_pos value (show (0 : Int) < 65536 by decide)
  simp only [toUint16, UInt16.toNat_ofNat']
  omega

theorem toNat_toUint16_of_lt {value : Int} (nonneg : 0 ≤ value) (fits : value < 65536) :
    ((toUint16 value).toNat : Int) = value := by
  rw [toNat_toUint16]
  omega

def writeUint16Be (value : UInt16) : List UInt8 :=
  [UInt8.ofNat (value.toNat / 256), UInt8.ofNat value.toNat]

def writeUint32Be (value : UInt32) : List UInt8 :=
  [UInt8.ofNat (value.toNat / 2 ^ 24), UInt8.ofNat (value.toNat / 2 ^ 16),
    UInt8.ofNat (value.toNat / 2 ^ 8), UInt8.ofNat value.toNat]

/-- The next byte, which is 0 behind the end, and what is left. -/
def readByte (stream : List UInt8) : UInt8 × List UInt8 := (stream.headD 0, stream.tail)

def readUint16Be (stream : List UInt8) : UInt16 × List UInt8 :=
  let (high, stream) := readByte stream
  let (low, stream) := readByte stream
  (UInt16.ofNat (256 * high.toNat + low.toNat), stream)

def readUint32Be (stream : List UInt8) : UInt32 × List UInt8 :=
  let (first, stream) := readByte stream
  let (second, stream) := readByte stream
  let (third, stream) := readByte stream
  let (fourth, stream) := readByte stream
  (UInt32.ofNat (2 ^ 24 * first.toNat + 2 ^ 16 * second.toNat + 2 ^ 8 * third.toNat +
    fourth.toNat), stream)

@[simp] theorem length_writeUint16Be (value : UInt16) : (writeUint16Be value).length = 2 := rfl

@[simp] theorem length_writeUint32Be (value : UInt32) : (writeUint32Be value).length = 4 := rfl

@[simp] theorem readUint16Be_write (value : UInt16) (rest : List UInt8) :
    readUint16Be (writeUint16Be value ++ rest) = (value, rest) := by
  have small := value.toNat_lt
  have same : UInt16.ofNat (256 * (UInt8.ofNat (value.toNat / 256)).toNat +
      (UInt8.ofNat value.toNat).toNat) = value := by
    apply UInt16.toNat_inj.mp
    simp only [UInt16.toNat_ofNat', UInt8.toNat_ofNat']
    omega
  simp only [readUint16Be, readByte, writeUint16Be, List.cons_append, List.nil_append,
    List.headD_cons, List.tail_cons, same]

@[simp] theorem readUint32Be_write (value : UInt32) (rest : List UInt8) :
    readUint32Be (writeUint32Be value ++ rest) = (value, rest) := by
  have small := value.toNat_lt
  have same : UInt32.ofNat (2 ^ 24 * (UInt8.ofNat (value.toNat / 2 ^ 24)).toNat +
      2 ^ 16 * (UInt8.ofNat (value.toNat / 2 ^ 16)).toNat +
      2 ^ 8 * (UInt8.ofNat (value.toNat / 2 ^ 8)).toNat +
      (UInt8.ofNat value.toNat).toNat) = value := by
    apply UInt32.toNat_inj.mp
    simp only [UInt32.toNat_ofNat', UInt8.toNat_ofNat']
    omega
  simp only [readUint32Be, readByte, writeUint32Be, List.cons_append, List.nil_append,
    List.headD_cons, List.tail_cons, same]

@[simp] theorem readByte_cons (byte : UInt8) (rest : List UInt8) :
    readByte (byte :: rest) = (byte, rest) := rfl

/-- Some bytes, one after the other. -/
def readEach : Nat → List UInt8 → List UInt8 × List UInt8
  | 0, stream => ([], stream)
  | count + 1, stream =>
    let (byte, stream) := readByte stream
    let (bytes, stream) := readEach count stream
    (byte :: bytes, stream)

@[simp] theorem readEach_append (bytes rest : List UInt8) :
    readEach bytes.length (bytes ++ rest) = (bytes, rest) := by
  induction bytes with
  | nil => rfl
  | cons byte bytes ih =>
    rw [List.length_cons, readEach, List.cons_append, readByte_cons]
    dsimp only
    rw [ih]

end Inet.Packet

/-!
## Reading a header from any bytes

The fixed part of a header is read into a buffer on the stack. What the stream lacks of it stays as it
was there.
-/
namespace Inet.Packet

open Lib

variable (stream : List UInt8)

/-- The least length of an IPv4 header and of a TCP header. -/
def MIN_HEADER_LENGTH : Nat := 20

/-- `readBytes` into a buffer of twenty bytes, with what was in the buffer, and what is left. -/
def readBuffer (uninitialised : Fin 20 → UInt8) (stream : List UInt8) :
    List UInt8 × List UInt8 :=
  (List.ofFn fun i => stream.getD i (uninitialised i), stream.drop MIN_HEADER_LENGTH)

/-- What comes back of a header: how many options were read, what is left of the stream, and whether
the header is marked as incorrect or incomplete. -/
structure Received where
  options : Nat
  left : List UInt8
  marked : Bool
deriving DecidableEq

/-- A parser, as a function of the rounds for its loop over the options, ends with few options, takes
no more than the header, and marks a header that is too short or not all there. -/
def Survives (stream : List UInt8) (announced : Nat) (parser : Nat → Option Received) : Prop :=
  ∃ rounds received, parser rounds = some received ∧ received.options ≤ announced ∧
    stream.length - received.left.length ≤ max MIN_HEADER_LENGTH announced ∧
    (announced < MIN_HEADER_LENGTH ∨ stream.length < announced → received.marked = true)

/-! ### Parsers with and without options -/

variable {α : Type} {read : List UInt8 → α × List UInt8} {size : List UInt8 → Nat}
  {stream : List UInt8} {announced : Nat} {parser : Nat → Option Received}

theorem survives_iff_marked (marked : Bool)
    (fixed : ∀ rounds, parser rounds = some ⟨0, stream.drop MIN_HEADER_LENGTH, marked⟩) :
    Survives stream announced parser ↔
      (announced < MIN_HEADER_LENGTH ∨ stream.length < announced → marked = true) := by
  constructor
  · rintro ⟨rounds, received, returned, -, -, marks⟩
    rw [fixed] at returned
    cases returned
    exact marks
  · intro marks
    refine ⟨0, _, fixed 0, Nat.zero_le _, ?_, marks⟩
    dsimp only
    rw [List.length_drop]
    omega

/-- With a loop that ends at the end of the stream or of the header, all depends on whether the
options end where the header does. -/
theorem survives_iff_tile (takes : Takes read size) (marked : Bool)
    (long : MIN_HEADER_LENGTH < announced)
    (loop : ∀ rounds, parser rounds = (readWhile read
      (fun left => stream.length - left.length < min announced stream.length) rounds
      (stream.drop MIN_HEADER_LENGTH)).map fun result => ⟨result.1.length, result.2, marked⟩)
    (marks : stream.length < announced → marked = true) :
    Survives stream announced parser ↔ stream.length ≤ announced ∨
      Tile size (announced - MIN_HEADER_LENGTH) (stream.drop MIN_HEADER_LENGTH) := by
  have length : (stream.drop MIN_HEADER_LENGTH).length = stream.length - MIN_HEADER_LENGTH :=
    List.length_drop
  have within {rounds : Nat} {items : List α} {left : List UInt8}
      (more : announced < stream.length)
      (returned : readWhile read
        (fun left => stream.length - left.length < min announced stream.length) rounds
        (stream.drop MIN_HEADER_LENGTH) = some (items, left)) :
      stream.length - left.length ≤ announced ↔
        Tile size (announced - MIN_HEADER_LENGTH) (stream.drop MIN_HEADER_LENGTH) := by
    rw [Nat.min_eq_left (by omega)] at returned
    rw [readWhile_within_iff takes more (by omega) (by omega) returned, length,
      Nat.sub_sub_self (by omega)]
  constructor
  · rintro ⟨rounds, received, returned, -, consumed, -⟩
    rw [loop] at returned
    obtain ⟨⟨items, left⟩, ended, equal⟩ := Option.map_eq_some_iff.mp returned
    cases equal
    rw [Nat.max_eq_right (by omega)] at consumed
    rcases Nat.lt_or_ge announced stream.length with more | less
    · exact .inr ((within more ended).mp consumed)
    · exact .inl less
  · intro fits
    obtain ⟨items, left, ended, few, -⟩ := readWhile_ends takes
      (min announced stream.length) (stream.drop MIN_HEADER_LENGTH) (Nat.min_le_right _ _) (by omega) (Nat.lt_succ_self _)
    refine ⟨_, ⟨items.length, left, marked⟩, by rw [loop, ended]; rfl, by dsimp only; omega, ?_,
      fun short => marks (by omega)⟩
    rw [Nat.max_eq_right (by omega)]
    rcases Nat.lt_or_ge announced stream.length with more | less
    · exact (within more ended).mpr (fits.resolve_left (by omega))
    · dsimp only
      omega

/-! ### What reading leaves -/

theorem readByte_drop (count : Nat) (stream : List UInt8) :
    readByte (stream.drop count) = (stream.getD count 0, stream.drop (count + 1)) := by
  rw [readByte, List.tail_drop, List.headD_eq_head?_getD, List.head?_drop, List.getD_eq_getElem?_getD]

theorem readByte_eq (stream : List UInt8) :
    readByte stream = (stream.getD 0 0, stream.drop 1) := readByte_drop 0 stream

theorem readUint16Be_left : (readUint16Be stream).2 = stream.drop 2 := by
  simp only [readUint16Be, readByte, ← List.drop_one, List.drop_drop]

theorem readUint32Be_left : (readUint32Be stream).2 = stream.drop 4 := by
  simp only [readUint32Be, readByte, ← List.drop_one, List.drop_drop]

theorem readEach_left (count : Nat) (stream : List UInt8) :
    (readEach count stream).2 = stream.drop count := by
  induction count generalizing stream with
  | zero => rfl
  | succ count ih =>
    change (readEach count stream.tail).2 = _
    rw [ih, List.drop_tail]

end Inet.Packet
