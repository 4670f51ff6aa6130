import Inet.Common.BitStreamRoundTrip

/-!
# Reading past the end

A read of some bits takes a stream on by them, or to its end when fewer bits are left.
-/
namespace Inet.Common

open Lib Packet
open Packet.Chunk (length_bytesBits bytesBits_part)

variable (bits : Nat) {length : Nat} {α : Type}

namespace MemoryInputStream

def getRemainingLength (stream : MemoryInputStream) : Nat := stream.length - stream.position

/-- The bits that have not been read. -/
def remaining (stream : MemoryInputStream) : List Bool :=
  part (bytesBits stream.data) stream.position stream.getRemainingLength

/-- The position is in the stream, and the data has the bits of the stream. -/
structure WellFormed (stream : MemoryInputStream) : Prop where
  inside : stream.position ≤ stream.length
  stored : stream.length ≤ 8 * stream.data.length

instance (stream : MemoryInputStream) : Decidable stream.WellFormed :=
  decidable_of_iff (stream.position ≤ stream.length ∧ stream.length ≤ 8 * stream.data.length)
    ⟨fun ⟨inside, stored⟩ => ⟨inside, stored⟩, fun ⟨inside, stored⟩ => ⟨inside, stored⟩⟩

/-! ### Taking bits -/

/-- The stream after a read that asks for some bits. -/
def taken (stream : MemoryInputStream) (bits : Nat) : MemoryInputStream :=
  if stream.length < stream.position + bits then
    { stream with position := stream.length, isReadBeyondEnd := true }
  else stream.advance bits

section Taken

variable {stream : MemoryInputStream}

theorem taken_short {bits : Nat} (short : stream.length < stream.position + bits) :
    stream.taken bits = { stream with position := stream.length, isReadBeyondEnd := true } :=
  if_pos short

theorem taken_enough {bits : Nat} (enough : stream.position + bits ≤ stream.length) :
    stream.taken bits = stream.advance bits := if_neg (by omega)

@[simp] theorem taken_data : (stream.taken bits).data = stream.data := by
  unfold taken
  split <;> rfl

@[simp] theorem taken_length : (stream.taken bits).length = stream.length := by
  unfold taken
  split <;> rfl

theorem WellFormed.taken_zero (wellFormed : stream.WellFormed) : stream.taken 0 = stream :=
  taken_enough wellFormed.inside

theorem position_taken :
    (stream.taken bits).position = min (stream.position + bits) stream.length := by
  unfold taken
  split
  · next short => exact (Nat.min_eq_right (Nat.le_of_lt short)).symm
  · next enough => exact (Nat.min_eq_left (Nat.le_of_not_lt enough)).symm

theorem WellFormed.taken (wellFormed : stream.WellFormed) (bits : Nat) :
    (stream.taken bits).WellFormed := by
  constructor
  · rw [position_taken, taken_length]
    exact Nat.min_le_right _ _
  · rw [taken_length, taken_data]
    exact wellFormed.stored

theorem WellFormed.isReadBeyondEnd_taken (wellFormed : stream.WellFormed) (bits : Nat) :
    (stream.taken bits).isReadBeyondEnd = true ↔
      stream.isReadBeyondEnd = true ∨ stream.getRemainingLength < bits := by
  have inside := wellFormed.inside
  unfold getRemainingLength
  by_cases short : stream.length < stream.position + bits
  · rw [taken_short short]
    exact iff_of_true rfl (.inr (by omega))
  · rw [taken_enough (by omega)]
    exact (or_iff_left (by omega)).symm

/-- Bits that are taken one part after the other are taken as a whole. -/
theorem WellFormed.taken_taken (wellFormed : stream.WellFormed) (bits bits' : Nat) :
    (stream.taken bits).taken bits' = stream.taken (bits + bits') := by
  have inside := wellFormed.inside
  by_cases short : stream.length < stream.position + bits
  · rw [taken_short short, taken_short (show stream.length < stream.position + (bits + bits') by omega)]
    -- the end stays the end
    cases bits' with
    | zero => exact taken_enough (Nat.le_refl _)
    | succ bits' => exact taken_short (Nat.lt_add_of_pos_right (Nat.succ_pos _))
  · rw [taken_enough (show stream.position + bits ≤ stream.length by omega)]
    by_cases short' : stream.length < stream.position + (bits + bits')
    · rw [taken_short short', taken_short (by simp only [advance]; omega)]
      rfl
    · rw [taken_enough (show stream.position + (bits + bits') ≤ stream.length by omega),
        taken_enough (by simp only [advance]; omega), advance_advance]

end Taken

/-- A read returns, and asks for some bits. -/
def Takes {α : Type} (read : MemoryInputStream → Except StreamError (α × MemoryInputStream))
    (bits : Nat) : Prop :=
  ∀ ⦃stream : MemoryInputStream⦄, stream.WellFormed →
    ∃ value, read stream = .ok (value, stream.taken bits)

variable {stream : MemoryInputStream}

theorem WellFormed.byte (wellFormed : stream.WellFormed) {i : Nat} (inside : 8 * i < stream.length) :
    ∃ byte, stream.data[i]? = some byte := by
  have stored := wellFormed.stored
  exact ⟨_, List.getElem?_eq_getElem (by omega)⟩

theorem takes_readBit : Takes readBit 1 := by
  intro stream wellFormed
  have inside := wellFormed.inside
  unfold readBit
  by_cases ended : stream.position = stream.length
  · rw [if_pos ended, taken_short (by omega)]
    refine ⟨false, ?_⟩
    rw [← ended]
  · obtain ⟨byte, found⟩ := wellFormed.byte (i := stream.position / 8) (by omega)
    rw [if_neg ended, found, taken_enough (by omega)]
    exact ⟨_, rfl⟩

theorem takes_readByte : Takes readByte 8 := by
  intro stream wellFormed
  unfold readByte
  by_cases short : stream.length < stream.position + 8
  · rw [if_pos short, taken_short short]
    exact ⟨0, rfl⟩
  · rw [if_neg short, taken_enough (by omega)]
    split
    · obtain ⟨byte, found⟩ := wellFormed.byte (i := stream.position / 8) (by omega)
      rw [byteAt_of_getElem? found, ok_bind]
      exact ⟨byte, rfl⟩
    · next unaligned =>
      have middle : stream.position % 8 ≠ 0 := by simpa [isByteAligned] using unaligned
      obtain ⟨high, found_high⟩ :=
        wellFormed.byte (i := (stream.position - stream.position % 8) / 8) (by omega)
      obtain ⟨low, found_low⟩ :=
        wellFormed.byte (i := (stream.position + (8 - stream.position % 8)) / 8) (by omega)
      dsimp only
      rw [byteAt_of_getElem? found_high, ok_bind, byteAt_of_getElem? found_low, ok_bind]
      exact ⟨_, rfl⟩

section Readers

variable {α β : Type} {read : MemoryInputStream → Except StreamError (α × MemoryInputStream)}
  {bits : Nat}

/-- What is made of a value that was read. -/
theorem Takes.map (takes : Takes read bits) (f : α → β) :
    Takes (fun stream => do
      let (value, stream) ← read stream
      return (f value, stream)) bits := by
  intro stream wellFormed
  obtain ⟨value, returned⟩ := takes wellFormed
  refine ⟨f value, ?_⟩
  dsimp only
  rw [returned, ok_bind]
  rfl

theorem Takes.times (takes : Takes read bits) (count : Nat) :
    Takes (readTimes read count) (count * bits) := by
  induction count with
  | zero =>
    intro stream wellFormed
    rw [Nat.zero_mul, wellFormed.taken_zero]
    exact ⟨[], rfl⟩
  | succ count ih =>
    intro stream wellFormed
    obtain ⟨value, first⟩ := takes wellFormed
    obtain ⟨values, later⟩ := ih (wellFormed.taken bits)
    refine ⟨value :: values, ?_⟩
    rw [readTimes, first, ok_bind]
    simp only
    rw [later, ok_bind, wellFormed.taken_taken, Nat.succ_mul, Nat.add_comm]
    rfl

theorem takes_readUintBits (masks : List Nat) (value : Nat) :
    Takes (readUintBits masks value) masks.length := by
  induction masks generalizing value with
  | nil =>
    intro stream wellFormed
    rw [List.length_nil, wellFormed.taken_zero]
    exact ⟨value, rfl⟩
  | cons mask masks ih =>
    intro stream wellFormed
    obtain ⟨bit, first⟩ := takes_readBit wellFormed
    obtain ⟨result, later⟩ := ih (if bit then value ||| mask else value) (wellFormed.taken 1)
    refine ⟨result, ?_⟩
    rw [readUintBits, first, ok_bind]
    simp only
    rw [later, wellFormed.taken_taken, List.length_cons, Nat.add_comm]

theorem takes_readUintBe (bytes value : Nat) : Takes (readUintBe bytes value) (8 * bytes) := by
  induction bytes generalizing value with
  | zero =>
    intro stream wellFormed
    rw [Nat.mul_zero, wellFormed.taken_zero]
    exact ⟨value, rfl⟩
  | succ bytes ih =>
    intro stream wellFormed
    obtain ⟨byte, first⟩ := takes_readByte wellFormed
    obtain ⟨result, later⟩ := ih (value ||| byte.toNat <<< (8 * bytes)) (wellFormed.taken 8)
    refine ⟨result, ?_⟩
    rw [readUintBe, first, ok_bind]
    simp only
    rw [later, wellFormed.taken_taken, Nat.mul_succ, Nat.add_comm]

theorem takes_readUintLe (bytes shift value : Nat) :
    Takes (readUintLe bytes shift value) (8 * bytes) := by
  induction bytes generalizing shift value with
  | zero =>
    intro stream wellFormed
    rw [Nat.mul_zero, wellFormed.taken_zero]
    exact ⟨value, rfl⟩
  | succ bytes ih =>
    intro stream wellFormed
    obtain ⟨byte, first⟩ := takes_readByte wellFormed
    obtain ⟨result, later⟩ := ih (shift + 8) (value ||| byte.toNat <<< shift) (wellFormed.taken 8)
    refine ⟨result, ?_⟩
    rw [readUintLe, first, ok_bind]
    simp only
    rw [later, wellFormed.taken_taken, Nat.mul_succ, Nat.add_comm]

theorem takes_readMasked (count : Nat) (mul num : UInt64) :
    Takes (readMasked count mul num) count := by
  induction count generalizing mul num with
  | zero =>
    intro stream wellFormed
    rw [wellFormed.taken_zero]
    exact ⟨num, rfl⟩
  | succ count ih =>
    intro stream wellFormed
    obtain ⟨bit, first⟩ := takes_readBit wellFormed
    obtain ⟨result, later⟩ :=
      ih (mul >>> 1) (if bit then num ||| mul else num) (wellFormed.taken 1)
    refine ⟨result, ?_⟩
    rw [readMasked, first, ok_bind]
    simp only
    rw [later, wellFormed.taken_taken, Nat.add_comm]

end Readers
/-! ### Bits and bytes that are left -/

section Left

variable {stream : MemoryInputStream} (wellFormed : stream.WellFormed)
include wellFormed

@[simp] theorem WellFormed.length_remaining :
    stream.remaining.length = stream.getRemainingLength := by
  have inside := wellFormed.inside
  have stored := wellFormed.stored
  exact length_part _ _ _ (by rw [length_bytesBits, getRemainingLength]; omega)

end Left

theorem readBits_beyond (beyond : stream.isReadBeyondEnd = true) (length : Nat) :
    stream.readBits length = .ok ([], stream) := by
  cases length with
  | zero => rfl
  | succ length => rw [readBits, if_pos beyond]

theorem WellFormed.readBit_left (wellFormed : stream.WellFormed)
    (within : stream.isReadBeyondEnd = false) (left : stream.position < stream.length) :
    ∃ bit, stream.readBit = .ok (bit, stream.advance 1) ∧
      stream.remaining = bit :: (stream.advance 1).remaining := by
  obtain ⟨inside, stored⟩ := wellFormed
  obtain ⟨bit, first⟩ : ∃ bit, part (bytesBits stream.data) stream.position 1 = [bit] := by
    apply List.length_eq_one_iff.mp
    exact length_part _ _ _ (by rw [length_bytesBits]; omega)
  have next : stream.Next [bit] := ⟨within, left, stored, first⟩
  refine ⟨bit, next.readBit, ?_⟩
  rw [← List.singleton_append, ← first]
  simp only [remaining, getRemainingLength, advance]
  rw [part_append_part]
  congr 1
  omega

/-- Reading more bits than are left adds one bit to them. -/
theorem WellFormed.readBits (wellFormed : stream.WellFormed)
    (within : stream.isReadBeyondEnd = false) (length : Nat) :
    stream.readBits length = .ok (if length ≤ stream.getRemainingLength
      then stream.remaining.take length else stream.remaining ++ [false], stream.taken length) := by
  have inside := wellFormed.inside
  induction length generalizing stream with
  | zero => rw [if_pos (Nat.zero_le _), wellFormed.taken_zero]; rfl
  | succ length ih =>
    rw [MemoryInputStream.readBits, within, if_neg (by decide)]
    by_cases left : stream.position < stream.length
    · obtain ⟨bit, first, rest⟩ := wellFormed.readBit_left within left
      have one : stream.taken 1 = stream.advance 1 := taken_enough left
      have kept : (stream.advance 1).WellFormed := by
        rw [← one]
        exact wellFormed.taken 1
      have later := ih kept within left
      have lengths : length + 1 ≤ stream.getRemainingLength ↔
          length ≤ (stream.advance 1).getRemainingLength := by
        simp only [getRemainingLength, advance]
        omega
      rw [first, ok_bind]
      dsimp only
      rw [later, ok_bind, ← one, wellFormed.taken_taken, Nat.add_comm 1, one, rest]
      split
      · next enough => rw [if_pos (lengths.mpr enough)]; rfl
      · next short => rw [if_neg (mt lengths.mp short)]; rfl
    · have ended : stream.position = stream.length := by omega
      have nothing : stream.remaining = [] := by
        apply List.length_eq_zero_iff.mp
        rw [wellFormed.length_remaining, getRemainingLength]
        omega
      rw [if_neg (by unfold getRemainingLength; omega), nothing, MemoryInputStream.readBit,
        if_pos ended, ok_bind]
      dsimp only
      rw [readBits_beyond rfl, ok_bind, taken_short (by omega), ← ended]
      rfl

/-- A byte that is not zero was there. -/
theorem WellFormed.less_left (wellFormed : stream.WellFormed) {byte : UInt8}
    (returned : stream.readByte = .ok (byte, stream.taken 8)) (nonzero : byte ≠ 0) :
    (stream.taken 8).getRemainingLength / 8 + 1 = stream.getRemainingLength / 8 := by
  have inside := wellFormed.inside
  by_cases short : stream.length < stream.position + 8
  · rw [readByte, if_pos short] at returned
    exact absurd (Prod.mk.inj (Except.ok.inj returned)).1.symm nonzero
  · rw [taken_enough (by omega)]
    simp only [getRemainingLength, advance]
    omega

/-- The bytes of a string and its end are taken, whatever the loop's bound is. -/
theorem WellFormed.readUntilZero (wellFormed : stream.WellFormed) {count : Nat}
    (bound : stream.getRemainingLength / 8 < count) :
    ∃ bytes, stream.readUntilZero count = .ok (bytes, stream.taken (8 * (bytes.length + 1))) := by
  induction count generalizing stream with
  | zero => exact absurd bound (Nat.not_lt_zero _)
  | succ count ih =>
    obtain ⟨byte, first⟩ := takes_readByte wellFormed
    rw [MemoryInputStream.readUntilZero, first, ok_bind]
    dsimp only
    by_cases zero : byte = 0
    · rw [if_pos zero]
      exact ⟨[], rfl⟩
    · rw [if_neg zero]
      have less := wellFormed.less_left first zero
      obtain ⟨bytes, later⟩ := ih (wellFormed.taken 8) (by omega)
      refine ⟨byte :: bytes, ?_⟩
      rw [later, ok_bind, wellFormed.taken_taken, List.length_cons, Nat.mul_succ 8, Nat.add_comm 8]
      rfl

/-! ### Bytes that are left -/

/-- What both readers of bytes do up to the place of the bytes in the data. -/
theorem WellFormed.clipped (wellFormed : stream.WellFormed)
    (whole : stream.getRemainingLength < 8 * length → stream.getRemainingLength % 8 = 0) :
    ∃ count, stream.clipped length = .ok count ∧ 8 * count ≤ stream.getRemainingLength ∧
      { stream with
        position := stream.position + 8 * count
        isReadBeyondEnd := stream.isReadBeyondEnd ||
          decide (stream.length < stream.position + 8 * length) } = stream.taken (8 * length) := by
  have inside := wellFormed.inside
  unfold getRemainingLength at whole ⊢
  unfold MemoryInputStream.clipped
  by_cases short : stream.length < stream.position + 8 * length
  · have exact_ := whole (by omega)
    refine ⟨(stream.length - stream.position) / 8, ?_, by omega, ?_⟩
    · rw [if_pos short, toBytes, if_pos exact_]
    · rw [taken_short short, decide_eq_true short, Bool.or_true]
      congr 1
      omega
  · refine ⟨length, ?_, by omega, ?_⟩
    · rw [if_neg short]
    · rw [taken_enough (by omega), decide_eq_false short, Bool.or_false]
      rfl

theorem bytes_left
    (aligned : stream.isByteAligned = true) {count : Nat}
    (enough : 8 * count ≤ stream.getRemainingLength) :
    bytesBits ((stream.data.drop (stream.position / 8)).take count) <+: stream.remaining := by
  have whole : stream.position % 8 = 0 := by simpa [isByteAligned] using aligned
  have dropped := bytesBits_part stream.data (stream.position / 8) count
  rw [show 8 * (stream.position / 8) = stream.position by omega] at dropped
  change bytesBits (part stream.data (stream.position / 8) count) <+: _
  rw [dropped]
  exact ⟨_, (part_append_part _ _ _ _).trans (by rw [remaining, Nat.add_sub_cancel' enough])⟩

end MemoryInputStream

/-! ### Calls -/

inductive ReadCall where
  | bit
  | bitRepeatedly (value : Bool) (count : Nat)
  | bits (length : Nat)
  | byte
  | byteRepeatedly (value : UInt8) (count : Nat)
  | bytes (length : Nat)
  | bytesToBuffer (length : Nat)
  | uint2
  | uint4
  | uint8
  | uint16Be
  | uint16Le
  | uint24Be
  | uint24Le
  | uint32Be
  | uint32Le
  | uint64Be
  | uint64Le
  | macAddress
  | ipv4Address
  | ipv6Address
  | string
  | nBitsToUint64Be (n : UInt8)
deriving DecidableEq

/-- What a read returns, or appends to its argument. -/
inductive ReadResult where
  | bit (value : Bool)
  | bits (values : List Bool)
  | bytes (values : List UInt8)
  | number (value : Nat)
  | address (parts : List Nat)
  | string (characters : List UInt8)
deriving DecidableEq

def ReadResult.of {α : Type} (result : α → ReadResult)
    (returned : Except StreamError (α × MemoryInputStream)) :
    Except StreamError (ReadResult × MemoryInputStream) := do
  let (value, stream) ← returned
  return (result value, stream)

namespace ReadCall

variable (stream : MemoryInputStream)

def read : ReadCall → Except StreamError (ReadResult × MemoryInputStream)
  | .bit => ReadResult.of .bit stream.readBit
  | .bitRepeatedly value count => ReadResult.of .bit (stream.readBitRepeatedly value count)
  | .bits length => ReadResult.of .bits (stream.readBits length)
  | .byte => ReadResult.of (.number ·.toNat) stream.readByte
  | .byteRepeatedly value count => ReadResult.of .bit (stream.readByteRepeatedly value count)
  | .bytes length => ReadResult.of .bytes (stream.readBytes length)
  | .bytesToBuffer length => ReadResult.of .bytes (stream.readBytesToBuffer length)
  | .uint2 => ReadResult.of .number stream.readUint2
  | .uint4 => ReadResult.of .number stream.readUint4
  | .uint8 => ReadResult.of (.number ·.toNat) stream.readUint8
  | .uint16Be => ReadResult.of (.number ·.toNat) stream.readUint16Be
  | .uint16Le => ReadResult.of (.number ·.toNat) stream.readUint16Le
  | .uint24Be => ReadResult.of (.number ·.toNat) stream.readUint24Be
  | .uint24Le => ReadResult.of (.number ·.toNat) stream.readUint24Le
  | .uint32Be => ReadResult.of (.number ·.toNat) stream.readUint32Be
  | .uint32Le => ReadResult.of (.number ·.toNat) stream.readUint32Le
  | .uint64Be => ReadResult.of (.number ·.toNat) stream.readUint64Be
  | .uint64Le => ReadResult.of (.number ·.toNat) stream.readUint64Le
  | .macAddress => ReadResult.of (fun bytes => .address (bytes.map (·.toNat))) stream.readMacAddress
  | .ipv4Address => ReadResult.of (fun value => .address [value.toNat]) stream.readIpv4Address
  | .ipv6Address => ReadResult.of (fun words => .address (words.map (·.toNat))) stream.readIpv6Address
  | .string => ReadResult.of .string stream.readString
  | .nBitsToUint64Be n => ReadResult.of (.number ·.toNat) (stream.readNBitsToUint64Be n)

/-- The bits that a read asks for. A string ends in a zero. -/
def asked : ReadCall → ReadResult → Nat
  | .bit, _ => 1
  | .bitRepeatedly _ count, _ => count
  | .bits length, _ => length
  | .byte, _ => 8
  | .byteRepeatedly _ count, _ => 8 * count
  | .bytes length, _ => 8 * length
  | .bytesToBuffer length, _ => 8 * length
  | .uint2, _ => 2
  | .uint4, _ => 4
  | .uint8, _ => 8
  | .uint16Be, _ => 16
  | .uint16Le, _ => 16
  | .uint24Be, _ => 24
  | .uint24Le, _ => 24
  | .uint32Be, _ => 32
  | .uint32Le, _ => 32
  | .uint64Be, _ => 64
  | .uint64Le, _ => 64
  | .macAddress, _ => 48
  | .ipv4Address, _ => 32
  | .ipv6Address, _ => 128
  | .string, .string characters => 8 * (characters.length + 1)
  | .string, _ => 0
  | .nBitsToUint64Be n, _ => n.toNat

/-- The calls that are answered with an error because of their arguments or place. -/
def Refused : ReadCall → StreamError → Prop
  | .bytes _, error => stream.isByteAligned = false ∧ error = .assertion "isByteAligned()"
  | .bytesToBuffer _, error => stream.isByteAligned = false ∧ error = .assertion "isByteAligned()"
  | .nBitsToUint64Be n, error => (n = 0 ∨ n > 64) ∧
      error = .runtimeError "Can not read 0 bit or more than 64 bits."
  | _, _ => False

end ReadCall

/-- Bits and bytes that are appended were left in the stream. -/
def ReadResult.Present (stream : MemoryInputStream) : ReadResult → Prop
  | .bits values => values <+: stream.remaining
  | .bytes values => bytesBits values <+: stream.remaining
  | _ => True

namespace MemoryInputStream

/-- A read stays in the stream and in its data. The flag is set after it if it was before, or if
fewer bits were left than the read asked for, and only then. What is appended was there. -/
def Contained (stream : MemoryInputStream) (call : ReadCall) : Prop :=
  match call.read stream with
  | .ok (result, after) =>
    after.data = stream.data ∧ after.length = stream.length ∧ after.position ≤ after.length ∧
      (after.isReadBeyondEnd = true ↔
        stream.isReadBeyondEnd = true ∨ stream.getRemainingLength < call.asked result) ∧
      result.Present stream
  | .error error => call.Refused stream error

/-- Bytes that are not all left are read from a byte boundary up to another one. -/
def EndsWhole (stream : MemoryInputStream) (length : Nat) : Prop :=
  stream.isByteAligned = true → stream.getRemainingLength < 8 * length →
    stream.getRemainingLength % 8 = 0

/-- Bits that are appended are not read past the end, unless the flag is set, and bytes past the
end only when whole bytes are left. Shifting a one by 32 and more is undefined. -/
def Admits (stream : MemoryInputStream) : ReadCall → Prop
  | .bits length => stream.isReadBeyondEnd = true ∨ length ≤ stream.getRemainingLength
  | .bytes length => stream.EndsWhole length
  | .bytesToBuffer length => stream.EndsWhole length
  | .nBitsToUint64Be n => n.toNat ≤ 32 ∨ 64 < n.toNat
  | _ => True

def readNext (stream : MemoryInputStream) (call : ReadCall) :
    Except StreamError MemoryInputStream := do
  let (_, after) ← call.read stream
  return after

variable {stream : MemoryInputStream}

variable {call : ReadCall}

theorem WellFormed.contained (wellFormed : stream.WellFormed)
    (result : ReadResult) (returned : call.read stream = .ok (result, stream.taken (call.asked result)))
    (present : result.Present stream) : stream.Contained call := by
  unfold Contained
  rw [returned]
  exact ⟨taken_data _, taken_length _, (wellFormed.taken _).inside,
    wellFormed.isReadBeyondEnd_taken _, present⟩

/-- A read of some bits that appends nothing is contained. -/
theorem WellFormed.contained_of_takes (wellFormed : stream.WellFormed)
    {read : MemoryInputStream → Except StreamError (α × MemoryInputStream)} {bits : Nat}
    (takes : Takes read bits) (result : α → ReadResult)
    (reads : call.read stream = ReadResult.of result (read stream))
    (asked : ∀ value, call.asked (result value) = bits)
    (present : ∀ value, (result value).Present stream) : stream.Contained call := by
  obtain ⟨value, returned⟩ := takes wellFormed
  refine wellFormed.contained (result value) ?_ (present value)
  rw [reads, returned, asked]
  rfl

theorem contained_of_ok (result : α → ReadResult)
    {returned : Except StreamError (α × MemoryInputStream)} {value : α} {after : MemoryInputStream}
    (reads : call.read stream = ReadResult.of result returned) (ok : returned = .ok (value, after)) :
    stream.Contained call ↔
      after.data = stream.data ∧ after.length = stream.length ∧ after.position ≤ after.length ∧
      (after.isReadBeyondEnd = true ↔ stream.isReadBeyondEnd = true ∨
        stream.getRemainingLength < call.asked (result value)) ∧ (result value).Present stream := by
  unfold Contained
  rw [reads, ok]
  rfl

theorem contained_of_error (result : α → ReadResult)
    {returned : Except StreamError (α × MemoryInputStream)} {error : StreamError}
    (reads : call.read stream = ReadResult.of result returned) (failed : returned = .error error) :
    stream.Contained call ↔ call.Refused stream error := by
  unfold Contained
  rw [reads, failed]
  rfl

theorem WellFormed.contained_bits_iff (wellFormed : stream.WellFormed) (length : Nat) :
    stream.Contained (.bits length) ↔ stream.Admits (.bits length) := by
  cases within : stream.isReadBeyondEnd with
  | true =>
    refine iff_of_true ?_ (.inl within)
    rw [contained_of_ok .bits rfl (readBits_beyond within length)]
    exact ⟨rfl, rfl, wellFormed.inside, by simp [within], List.nil_prefix⟩
  | false =>
    have returned := wellFormed.readBits within length
    by_cases enough : length ≤ stream.getRemainingLength
    · rw [if_pos enough] at returned
      refine iff_of_true ?_ (.inr enough)
      apply wellFormed.contained (.bits (stream.remaining.take length))
      · rw [ReadCall.read, returned]
        rfl
      · exact List.take_prefix _ _
    · rw [if_neg enough] at returned
      refine iff_of_false ?_ (not_or.mpr ⟨by simp [within], enough⟩)
      rw [contained_of_ok .bits rfl returned]
      -- one more bit than was left
      rintro ⟨-, -, -, -, present⟩
      have longer := List.IsPrefix.length_le present
      rw [List.length_append, List.length_singleton] at longer
      omega

/-- The bytes that are read stay in the data when they end at a byte boundary. -/
theorem WellFormed.readBytes (wellFormed : stream.WellFormed) (aligned : stream.isByteAligned = true)
    (whole : stream.getRemainingLength < 8 * length →
      stream.getRemainingLength % 8 = 0) :
    ∃ bytes, stream.readBytes length = .ok (bytes, stream.taken (8 * length)) ∧
      stream.readBytesToBuffer length = .ok (bytes, stream.taken (8 * length)) ∧
      bytesBits bytes <+: stream.remaining := by
  obtain ⟨count, counted, enough, after⟩ := wellFormed.clipped whole
  have inside := wellFormed.inside
  have stored := wellFormed.stored
  have not_misaligned : ¬stream.isByteAligned = false := by rw [aligned]; decide
  have in_data : ¬stream.data.length < stream.position / 8 + count := by
    have start : stream.position % 8 = 0 := by simpa [isByteAligned] using aligned
    unfold getRemainingLength at enough
    omega
  refine ⟨(stream.data.drop (stream.position / 8)).take count, ?_, ?_, bytes_left aligned enough⟩
  · unfold MemoryInputStream.readBytes
    dsimp only
    rw [if_neg not_misaligned, counted, ok_bind, if_neg in_data, after]
  · unfold MemoryInputStream.readBytesToBuffer
    dsimp only
    rw [if_neg not_misaligned, counted, ok_bind, if_neg in_data, after]

theorem readBytes_misaligned (misaligned : stream.isByteAligned = false) (length : Nat) :
    stream.readBytes length = .error (.assertion "isByteAligned()") ∧
      stream.readBytesToBuffer length = .error (.assertion "isByteAligned()") :=
  ⟨if_pos misaligned, if_pos misaligned⟩

/-- The length of a part of a byte is no length in bytes. -/
theorem readBytes_partly (aligned : stream.isByteAligned = true)
    (short : stream.getRemainingLength < 8 * length) (partly : stream.getRemainingLength % 8 ≠ 0) :
    stream.readBytes length = .error (.runtimeError "Cannot convert between integer units") ∧
      stream.readBytesToBuffer length =
        .error (.runtimeError "Cannot convert between integer units") := by
  unfold getRemainingLength at short partly
  have not_misaligned : ¬stream.isByteAligned = false := by rw [aligned]; decide
  have beyond : stream.length < stream.position + 8 * length := by omega
  constructor
  · unfold MemoryInputStream.readBytes
    dsimp only
    rw [if_neg not_misaligned, clipped, if_pos beyond, toBytes, if_neg partly]
    rfl
  · unfold MemoryInputStream.readBytesToBuffer
    dsimp only
    rw [if_neg not_misaligned, clipped, if_pos beyond, toBytes, if_neg partly]
    rfl

theorem WellFormed.contained_bytes_iff (wellFormed : stream.WellFormed) (length : Nat) :
    (stream.Contained (.bytes length) ↔ stream.EndsWhole length) ∧
      (stream.Contained (.bytesToBuffer length) ↔ stream.EndsWhole length) := by
  cases aligned : stream.isByteAligned with
  | false =>
    obtain ⟨failed, failed'⟩ := readBytes_misaligned aligned length
    have admits : stream.EndsWhole length := fun aligned' => by rw [aligned] at aligned'; cases aligned'
    exact ⟨iff_of_true ((contained_of_error .bytes rfl failed).mpr ⟨aligned, rfl⟩) admits,
      iff_of_true ((contained_of_error .bytes rfl failed').mpr ⟨aligned, rfl⟩) admits⟩
  | true =>
    by_cases whole : stream.getRemainingLength < 8 * length → stream.getRemainingLength % 8 = 0
    · obtain ⟨bytes, returned, returned', present⟩ := wellFormed.readBytes aligned whole
      refine ⟨iff_of_true ?_ fun _ => whole, iff_of_true ?_ fun _ => whole⟩
      · apply wellFormed.contained (.bytes bytes) _ present
        rw [ReadCall.read, returned]
        rfl
      · apply wellFormed.contained (.bytes bytes) _ present
        rw [ReadCall.read, returned']
        rfl
    · obtain ⟨short, partly⟩ := Classical.not_imp.mp whole
      obtain ⟨failed, failed'⟩ := readBytes_partly aligned short partly
      have not_admits : ¬stream.EndsWhole length := fun admits => whole (admits aligned)
      have not_refused : ∀ error, ¬(stream.isByteAligned = false ∧ error) := by
        rintro error ⟨misaligned, -⟩
        rw [aligned] at misaligned
        cases misaligned
      exact ⟨iff_of_false (mt (contained_of_error .bytes rfl failed).mp (not_refused _)) not_admits,
        iff_of_false (mt (contained_of_error .bytes rfl failed').mp (not_refused _)) not_admits⟩

theorem WellFormed.contained_nBits_iff (wellFormed : stream.WellFormed) (n : UInt8) :
    stream.Contained (.nBitsToUint64Be n) ↔ stream.Admits (.nBitsToUint64Be n) := by
  by_cases refused : n = 0 ∨ n > 64
  · have failed : stream.readNBitsToUint64Be n =
        .error (.runtimeError "Can not read 0 bit or more than 64 bits.") := if_pos refused
    refine iff_of_true ((contained_of_error (.number ·.toNat) rfl failed).mpr ⟨refused, rfl⟩) ?_
    rcases refused with rfl | large
    · exact .inl (by decide)
    · exact .inr (by simpa [UInt8.lt_iff_toNat_lt] using large)
  · have reads : ∀ stream : MemoryInputStream, stream.readNBitsToUint64Be n = (do
        let mul ← shiftedOne (n.toNat - 1)
        readMasked n.toNat mul 0 stream) := fun _ => if_neg refused
    have positive : n.toNat ≠ 0 := fun zero => refused (.inl (UInt8.toNat_inj.mp zero))
    have bounded : n.toNat ≤ 64 := by
      have small := not_or.mp refused
      simpa [UInt8.lt_iff_toNat_lt] using small.2
    cases shifted : shiftedOne (n.toNat - 1) with
    | ok mul =>
      have small : n.toNat ≤ 32 := by
        unfold shiftedOne at shifted
        split at shifted
        · omega
        · split at shifted
          · omega
          · cases shifted
      refine iff_of_true ?_ (.inl small)
      have takes : Takes (readNBitsToUint64Be · n) n.toNat := by
        intro stream wellFormed
        dsimp only
        rw [reads, shifted, ok_bind]
        exact takes_readMasked _ _ _ wellFormed
      exact wellFormed.contained_of_takes takes (.number ·.toNat) rfl (fun _ => rfl)
        fun _ => trivial
    | error error =>
      have large : ¬n.toNat ≤ 32 := by
        intro small
        unfold shiftedOne at shifted
        split at shifted
        · cases shifted
        · rw [if_pos (by omega)] at shifted
          cases shifted
      have failed : stream.readNBitsToUint64Be n = .error error := by
        rw [reads, shifted]
        rfl
      refine iff_of_false (mt (contained_of_error (.number ·.toNat) rfl failed).mp ?_) ?_
      · exact fun now => refused now.1
      · exact not_or.mpr ⟨large, by omega⟩

theorem WellFormed.contained_iff (wellFormed : stream.WellFormed) (call : ReadCall) :
    stream.Contained call ↔ stream.Admits call := by
  cases call with
  | bits length => exact wellFormed.contained_bits_iff length
  | bytes length => exact (wellFormed.contained_bytes_iff length).1
  | bytesToBuffer length => exact (wellFormed.contained_bytes_iff length).2
  | nBitsToUint64Be n => exact wellFormed.contained_nBits_iff n
  | string =>
    refine iff_of_true ?_ trivial
    obtain ⟨bytes, returned⟩ := wellFormed.readUntilZero (Nat.lt_succ_self _)
    apply wellFormed.contained (.string bytes) _ trivial
    change ReadResult.of .string stream.readString = _
    rw [MemoryInputStream.readString]
    unfold getRemainingLength at returned
    rw [returned]
    rfl
  | bit =>
    exact iff_of_true (wellFormed.contained_of_takes takes_readBit .bit rfl (fun _ => rfl)
      fun _ => trivial) trivial
  | bitRepeatedly value count =>
    exact iff_of_true (wellFormed.contained_of_takes
      ((takes_readBit.times count).map (·.all (value == ·))) .bit rfl
      (fun _ => (Nat.mul_one _).symm) fun _ => trivial) trivial
  | byte =>
    exact iff_of_true (wellFormed.contained_of_takes takes_readByte (.number ·.toNat) rfl (fun _ => rfl)
      fun _ => trivial) trivial
  | byteRepeatedly value count =>
    exact iff_of_true (wellFormed.contained_of_takes
      ((takes_readByte.times count).map (·.all (value == ·))) .bit rfl
      (fun _ => Nat.mul_comm _ _) fun _ => trivial) trivial
  | uint2 =>
    exact iff_of_true (wellFormed.contained_of_takes (takes_readUintBits [0x2, 0x1] 0) .number rfl
      (fun _ => rfl) fun _ => trivial) trivial
  | uint4 =>
    exact iff_of_true (wellFormed.contained_of_takes (takes_readUintBits [0x8, 0x4, 0x2, 0x1] 0)
      .number rfl (fun _ => rfl) fun _ => trivial) trivial
  | uint8 =>
    exact iff_of_true (wellFormed.contained_of_takes takes_readByte (.number ·.toNat) rfl (fun _ => rfl)
      fun _ => trivial) trivial
  | uint16Be =>
    exact iff_of_true (wellFormed.contained_of_takes ((takes_readUintBe 2 0).map UInt16.ofNat)
      (.number ·.toNat) rfl (fun _ => rfl) fun _ => trivial) trivial
  | uint16Le =>
    exact iff_of_true (wellFormed.contained_of_takes ((takes_readUintLe 2 0 0).map UInt16.ofNat)
      (.number ·.toNat) rfl (fun _ => rfl) fun _ => trivial) trivial
  | uint24Be =>
    exact iff_of_true (wellFormed.contained_of_takes ((takes_readUintBe 3 0).map UInt32.ofNat)
      (.number ·.toNat) rfl (fun _ => rfl) fun _ => trivial) trivial
  | uint24Le =>
    exact iff_of_true (wellFormed.contained_of_takes ((takes_readUintLe 3 0 0).map UInt32.ofNat)
      (.number ·.toNat) rfl (fun _ => rfl) fun _ => trivial) trivial
  | uint32Be =>
    exact iff_of_true (wellFormed.contained_of_takes ((takes_readUintBe 4 0).map UInt32.ofNat)
      (.number ·.toNat) rfl (fun _ => rfl) fun _ => trivial) trivial
  | uint32Le =>
    exact iff_of_true (wellFormed.contained_of_takes ((takes_readUintLe 4 0 0).map UInt32.ofNat)
      (.number ·.toNat) rfl (fun _ => rfl) fun _ => trivial) trivial
  | uint64Be =>
    exact iff_of_true (wellFormed.contained_of_takes ((takes_readUintBe 8 0).map UInt64.ofNat)
      (.number ·.toNat) rfl (fun _ => rfl) fun _ => trivial) trivial
  | uint64Le =>
    exact iff_of_true (wellFormed.contained_of_takes ((takes_readUintLe 8 0 0).map UInt64.ofNat)
      (.number ·.toNat) rfl (fun _ => rfl) fun _ => trivial) trivial
  | macAddress =>
    exact iff_of_true (wellFormed.contained_of_takes (takes_readByte.times 6)
      (fun bytes => .address (bytes.map (·.toNat))) rfl (fun _ => rfl) fun _ => trivial) trivial
  | ipv4Address =>
    exact iff_of_true (wellFormed.contained_of_takes ((takes_readUintBe 4 0).map UInt32.ofNat)
      (fun value => .address [value.toNat]) rfl (fun _ => rfl) fun _ => trivial) trivial
  | ipv6Address =>
    exact iff_of_true (wellFormed.contained_of_takes
      (((takes_readUintBe 4 0).map UInt32.ofNat).times 4)
      (fun words => .address (words.map (·.toNat))) rfl (fun _ => rfl) fun _ => trivial) trivial

/-- A sequence of reads is contained exactly when each read is admitted where it is made. -/
theorem readsContained_iff (stream : MemoryInputStream) (wellFormed : stream.WellFormed)
    (calls : List ReadCall) :
    HoldsAlong readNext Contained stream calls ↔ HoldsAlong readNext Admits stream calls := by
  refine HoldsAlong.iff_of_invariant WellFormed (fun _ call wellFormed => wellFormed.contained_iff call)
    ?_ wellFormed calls
  intro stream call after wellFormed contained returned
  obtain ⟨⟨result, after'⟩, read, ⟨⟩⟩ := bind_eq_ok.mp returned
  unfold Contained at contained
  rw [read] at contained
  obtain ⟨data, length, inside, -, -⟩ := contained
  exact ⟨inside, by rw [length, data]; exact wellFormed.stored⟩

/-- The first 12 bits of two bytes: half a byte, a byte that is all that is left, and nothing. -/
theorem twelveBits_contained : HoldsAlong readNext Contained { data := [0xAB, 0xC0], length := 12 }
    [.bits 4, .byte, .uint16Be, .string] :=
  (readsContained_iff _ ⟨by decide, by decide⟩ _).mpr
    ⟨.inr (by decide), fun _ _ => ⟨trivial, fun _ _ => ⟨trivial, fun _ _ => ⟨trivial, fun _ _ =>
      trivial⟩⟩⟩⟩

/-- Four bits are returned of three. -/
theorem threeBits_not_contained : ¬∀ (stream : MemoryInputStream) (calls : List ReadCall),
    stream.WellFormed → HoldsAlong readNext Contained stream calls := by
  intro all
  have wellFormed : WellFormed { data := [0xE0], length := 3 } := ⟨by decide, by decide⟩
  obtain ⟨contained, -⟩ := all _ [.bits 5] wellFormed
  rcases (wellFormed.contained_bits_iff 5).mp contained with beyond | enough
  · cases beyond
  · exact absurd enough (by decide)

example : ReadCall.read { data := [0xE0], length := 3 } (.bits 5) =
    .ok (.bits [true, true, true, false],
      { data := [0xE0], length := 3, position := 3, isReadBeyondEnd := true }) := by rfl

end MemoryInputStream
end Inet.Common
