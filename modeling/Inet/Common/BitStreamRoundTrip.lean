import Inet.Common.MemoryStream
import Inet.Lib.Bits
import Inet.Packet.PeekDesignated

/-!
# The round trip of bit streams

A stream of bytes holds some bits when its bytes are these bits and less than a byte of zeros.
-/
namespace Inet.Common

open Lib Packet
open Packet.Chunk (length_bytesBits bytesBits_append bytesBits_cons bytesBits_part)

variable (high : Nat) {i : Nat} {stream : MemoryOutputStream}

/-! ### The bits of bytes -/

theorem byteBits_eq (byte : UInt8) : byteBits byte = bitsOf 8 byte.toNat := rfl

theorem getElem?_byteBits (byte : UInt8) (inside : i < 8) :
    (byteBits byte)[i]? = some (byte.toNat.testBit (7 - i)) := getElem?_bitsOf _ inside

theorem byteBits_ofNat (value : Nat) : byteBits (UInt8.ofNat value) = bitsOf 8 value := by
  rw [byteBits_eq, UInt8.toNat_ofNat']
  exact bitsOf_mod 8 value

theorem bytesBits_singleton (byte : UInt8) : bytesBits [byte] = byteBits byte := by
  simp [bytesBits]

theorem bytesBits_injective {bytes bytes' : List UInt8} (same : bytesBits bytes = bytesBits bytes') :
    bytes = bytes' := by
  induction bytes generalizing bytes' with
  | nil =>
    cases bytes' with
    | nil => rfl
    | cons byte rest => cases same
  | cons byte rest ih =>
    cases bytes' with
    | nil => cases same
    | cons byte' rest' =>
      rw [bytesBits_cons, bytesBits_cons] at same
      obtain ⟨first, later⟩ := List.append_inj same (by simp)
      rw [byteBits_injective first, ih later]

/-- Each bit of some bytes is a bit of one of them. -/
theorem getElem?_bytesBits (bytes : List UInt8) (i : Nat) :
    (bytesBits bytes)[i]? = bytes[i / 8]?.map fun byte => byte.toNat.testBit (7 - i % 8) := by
  induction bytes generalizing i with
  | nil => simp [bytesBits]
  | cons byte rest ih =>
    rw [bytesBits_cons]
    by_cases here : i < 8
    · rw [List.getElem?_append_left (by simpa using here), getElem?_byteBits byte here,
        Nat.div_eq_of_lt here, Nat.mod_eq_of_lt here]
      rfl
    · rw [List.getElem?_append_right (by simpa using here), length_byteBits, ih,
        show i / 8 = (i - 8) / 8 + 1 by omega, show i % 8 = (i - 8) % 8 by omega,
        List.getElem?_cons_succ]

/-- Setting bits of one byte. -/
theorem getElem?_bytesBits_modify (bytes : List UInt8) (k : Nat) (mask : UInt8) (i : Nat) :
    (bytesBits (bytes.modify k (· ||| mask)))[i]? =
      (bytesBits bytes)[i]?.map fun bit =>
        bit || (decide (i / 8 = k) && mask.toNat.testBit (7 - i % 8)) := by
  rw [getElem?_bytesBits, getElem?_bytesBits, List.getElem?_modify]
  cases bytes[i / 8]? with
  | none => rfl
  | some byte =>
    by_cases here : k = i / 8
    · simp [here, UInt8.toNat_or, Nat.testBit_or]
    · simp [here, Ne.symm here]

/-! ### Masks of one bit -/

theorem toNat_mask {count : Nat} (small : count < 64) :
    (UInt64.ofNat (2 ^ count)).toNat = 2 ^ count := by
  rw [UInt64.toNat_ofNat', Nat.mod_eq_of_lt (Nat.pow_lt_pow_right (by decide) small)]

theorem and_mask (value : UInt64) {count : Nat} (small : count < 64) :
    (value &&& UInt64.ofNat (2 ^ count) != 0) = value.toNat.testBit count := by
  have masked : (value &&& UInt64.ofNat (2 ^ count)).toNat =
      (value.toNat.testBit count).toNat * 2 ^ count := by
    rw [UInt64.toNat_and, toNat_mask small, Nat.and_two_pow]
  have positive := Nat.two_pow_pos count
  cases bit : value.toNat.testBit count with
  | false =>
    have zero : value &&& UInt64.ofNat (2 ^ count) = 0 := by
      apply UInt64.toNat_inj.mp
      rw [masked, bit]
      simp
    simp [zero]
  | true =>
    apply bne_iff_ne.mpr
    intro zero
    rw [zero, bit] at masked
    simp at masked
    omega

theorem mask_shift {count : Nat} (small : count + 1 < 64) :
    UInt64.ofNat (2 ^ (count + 1)) >>> 1 = UInt64.ofNat (2 ^ count) := by
  apply UInt64.toNat_inj.mp
  rw [UInt64.toNat_shiftRight, toNat_mask small, toNat_mask (by omega)]
  have one : (1 : UInt64).toNat % 64 = 1 := by decide
  rw [one, Nat.shiftRight_eq_div_pow, Nat.pow_succ, Nat.pow_one,
    Nat.mul_div_cancel _ (by decide)]

/-! ### What a stream holds -/

/-- Some bytes are some bits, filled up to a whole byte with zeros. -/
def Packed (bytes : List UInt8) (bits : List Bool) : Prop :=
  ∃ pad < 8, bytesBits bytes = bits ++ List.replicate pad false

structure MemoryOutputStream.Holds (stream : MemoryOutputStream) (bits : List Bool) : Prop where
  length_eq : stream.length = bits.length
  packed : Packed stream.data bits

theorem Packed.length {bytes : List UInt8} {bits : List Bool} (packed : Packed bytes bits) :
    bits.length ≤ 8 * bytes.length ∧ 8 * bytes.length < bits.length + 8 := by
  obtain ⟨pad, small, same⟩ := packed
  have lengths := congrArg List.length same
  rw [length_bytesBits, List.length_append, List.length_replicate] at lengths
  omega

theorem Packed.part {bytes : List UInt8} {bits : List Bool} (packed : Packed bytes bits)
    (offset length : Nat) (inside : offset + length ≤ bits.length) :
    part (bytesBits bytes) offset length = part bits offset length := by
  obtain ⟨pad, small, same⟩ := packed
  rw [same, part_append_left _ _ _ _ inside]

namespace MemoryOutputStream

theorem new_holds : ({} : MemoryOutputStream).Holds [] := ⟨rfl, 0, by decide, rfl⟩

variable {stream : MemoryOutputStream} {bits : List Bool}

theorem Holds.writeBit (holds : stream.Holds bits) (value : Bool) :
    (stream.writeBit value).Holds (bits ++ [value]) := by
  obtain ⟨length_eq, packed⟩ := holds
  have lengths := packed.length
  refine ⟨by rw [List.length_append, ← length_eq]; rfl, ?_⟩
  -- a byte of zeros is added where the bits end with a whole byte
  obtain ⟨bytes, room, bytes_eq, small, data_eq⟩ : ∃ bytes room,
      bytesBits bytes = bits ++ List.replicate (room + 1) false ∧ room < 8 ∧
        (if stream.length % 8 = 0 then stream.data ++ [0] else stream.data) = bytes := by
    obtain ⟨pad, small, same⟩ := packed
    have whole := congrArg List.length same
    rw [length_bytesBits, List.length_append, List.length_replicate] at whole
    by_cases aligned : stream.length % 8 = 0
    · obtain rfl : pad = 0 := by omega
      refine ⟨_, 7, ?_, by decide, if_pos aligned⟩
      rw [bytesBits_append, same, bytesBits_singleton, List.append_assoc]
      rfl
    · refine ⟨_, pad - 1, ?_, by omega, if_neg aligned⟩
      rw [same, Nat.sub_add_cancel (by omega)]
  refine ⟨room, small, ?_⟩
  have data_after : (stream.writeBit value).data =
      if value then bytes.modify (stream.length / 8)
        (· ||| UInt8.ofNat (1 <<< (7 - stream.length % 8))) else bytes := by
    unfold MemoryOutputStream.writeBit
    simp only [data_eq]
  rw [data_after]
  cases value with
  | false =>
    rw [if_neg Bool.false_ne_true, bytes_eq, List.append_assoc]
    rfl
  | true =>
    rw [if_pos rfl]
    apply List.ext_getElem? fun i => ?_
    rw [getElem?_bytesBits_modify, bytes_eq, List.append_assoc]
    have mask (j : Nat) : (UInt8.ofNat (1 <<< (7 - stream.length % 8))).toNat.testBit j =
        decide (7 - stream.length % 8 = j) := by
      have fits : 2 ^ (7 - stream.length % 8) < 2 ^ 8 :=
        Nat.pow_lt_pow_right (by decide) (by omega)
      rw [UInt8.toNat_ofNat', Nat.shiftLeft_eq, Nat.one_mul, Nat.mod_eq_of_lt fits,
        Nat.testBit_two_pow]
    rw [mask]
    rcases Nat.lt_trichotomy i bits.length with before | here | behind
    · rw [List.getElem?_append_left before, List.getElem?_append_left before]
      have other : ¬(i / 8 = stream.length / 8 ∧ 7 - stream.length % 8 = 7 - i % 8) := by omega
      rw [← Bool.decide_and, decide_eq_false other]
      simp
    · subst here
      rw [List.getElem?_append_right (Nat.le_refl _), List.getElem?_append_right (Nat.le_refl _),
        Nat.sub_self, length_eq]
      simp
    · rw [List.getElem?_append_right (Nat.le_of_lt behind),
        List.getElem?_append_right (Nat.le_of_lt behind)]
      have other : ¬(i / 8 = stream.length / 8 ∧ 7 - stream.length % 8 = 7 - i % 8) := by omega
      rw [← Bool.decide_and, decide_eq_false other, List.replicate_succ]
      obtain ⟨j, j_eq⟩ := Nat.exists_eq_add_of_lt behind
      rw [show i - bits.length = j + 1 by omega]
      simp

theorem Holds.writeBits (holds : stream.Holds bits) (more : List Bool) :
    (stream.writeBits more).Holds (bits ++ more) := by
  induction more generalizing stream bits with
  | nil => simpa [MemoryOutputStream.writeBits] using holds
  | cons bit rest ih => simpa [MemoryOutputStream.writeBits] using ih (holds.writeBit bit)

/-- The masks of an unaligned byte change nothing. -/
theorem writeByte_unaligned (unaligned : stream.length % 8 ≠ 0) (value : UInt8) :
    stream.writeByte value =
      { data := stream.data.modify (stream.data.length - 1)
          (· ||| UInt8.ofNat (value.toNat >>> (8 - stream.length % 8))) ++
            [UInt8.ofNat (value.toNat <<< (stream.length % 8))]
        length := stream.length + 8 } := by
  have not_aligned : ¬stream.isByteAligned = true := by simpa [isByteAligned] using unaligned
  have small := value.toNat_lt
  have high : (value.toNat &&& (0xFF <<< (8 - stream.length % 8))) >>> (8 - stream.length % 8) =
      value.toNat >>> (8 - stream.length % 8) := by
    have below : value.toNat >>> (8 - stream.length % 8) < 2 ^ 8 :=
      Nat.lt_of_le_of_lt (Nat.shiftRight_le _ _) small
    rw [Nat.shiftRight_and_distrib, Nat.shiftLeft_shiftRight,
      show 0xFF = 2 ^ 8 - 1 from rfl, Nat.and_two_pow_sub_one_of_lt_two_pow below]
  have low : UInt8.ofNat ((value.toNat &&& (0xFF >>> (stream.length % 8))) <<<
      (stream.length % 8)) = UInt8.ofNat (value.toNat <<< (stream.length % 8)) := by
    apply UInt8.toNat_inj.mp
    rw [UInt8.toNat_ofNat', UInt8.toNat_ofNat']
    apply Nat.eq_of_testBit_eq
    intro i
    simp only [Nat.testBit_mod_two_pow, Nat.testBit_shiftLeft, Nat.testBit_and,
      Nat.testBit_shiftRight]
    by_cases inside : i < 8 ∧ stream.length % 8 ≤ i
    · have mask : (0xFF : Nat).testBit (stream.length % 8 + (i - stream.length % 8)) = true := by
        rw [show 0xFF = 2 ^ 8 - 1 from rfl, Nat.testBit_two_pow_sub_one]
        exact decide_eq_true (by omega)
      rw [mask, Bool.and_true]
    · by_cases early : i < 8
      · rw [decide_eq_false (show ¬i ≥ stream.length % 8 by omega)]
        simp
      · rw [decide_eq_false early]
        simp
  unfold MemoryOutputStream.writeByte
  rw [if_neg not_aligned]
  simp only [high, low]

theorem Holds.writeByte_aligned (holds : stream.Holds bits) (aligned : stream.length % 8 = 0)
    (value : UInt8) : (stream.writeByte value).Holds (bits ++ byteBits value) := by
  obtain ⟨length_eq, pad, small, same⟩ := holds
  have lengths := congrArg List.length same
  rw [length_bytesBits, List.length_append, List.length_replicate] at lengths
  obtain rfl : pad = 0 := by omega
  have is_aligned : stream.isByteAligned = true := by simpa [isByteAligned] using aligned
  unfold MemoryOutputStream.writeByte
  rw [if_pos is_aligned]
  refine ⟨by rw [List.length_append, length_byteBits, ← length_eq], 0, by decide, ?_⟩
  rw [bytesBits_append, same, bytesBits_singleton]
  simp

/-- An unaligned byte of zeros leaves the bits before it. -/
theorem Holds.writeByte_zero (holds : stream.Holds bits) :
    (stream.writeByte 0).Holds (bits ++ byteBits 0) := by
  by_cases aligned : stream.length % 8 = 0
  · exact holds.writeByte_aligned aligned 0
  obtain ⟨length_eq, pad, small, same⟩ := holds
  have unchanged : stream.data.modify (stream.data.length - 1)
      (· ||| UInt8.ofNat ((0 : UInt8).toNat >>> (8 - stream.length % 8))) = stream.data := by
    have zero : UInt8.ofNat ((0 : UInt8).toNat >>> (8 - stream.length % 8)) = 0 := by simp
    rw [zero]
    simp only [UInt8.or_zero]
    exact List.modify_id _ _
  have zero : UInt8.ofNat ((0 : UInt8).toNat <<< (stream.length % 8)) = 0 := by simp
  rw [writeByte_unaligned aligned, unchanged, zero]
  refine ⟨by rw [List.length_append, length_byteBits, ← length_eq], pad, small, ?_⟩
  have zeros : byteBits 0 = List.replicate 8 false := by decide
  rw [bytesBits_append, same, bytesBits_singleton, zeros, List.append_assoc, List.append_assoc,
    List.replicate_append_replicate, List.replicate_append_replicate, Nat.add_comm]

/-- In the middle of a byte both shifts are right. -/
theorem Holds.writeByte_middle (holds : stream.Holds bits) (middle : stream.length % 8 = 4)
    (value : UInt8) : (stream.writeByte value).Holds (bits ++ byteBits value) := by
  obtain ⟨length_eq, pad, small, same⟩ := holds
  have lengths := congrArg List.length same
  rw [length_bytesBits, List.length_append, List.length_replicate] at lengths
  obtain rfl : pad = 4 := by omega
  have small_value := value.toNat_lt
  rw [writeByte_unaligned (by omega), middle]
  refine ⟨by rw [List.length_append, length_byteBits, ← length_eq], 4, by decide, ?_⟩
  have split : byteBits value = bitsOf 4 (value.toNat >>> 4) ++ bitsOf 4 value.toNat :=
    bitsOf_add 4 4 value.toNat
  have last : bytesBits [UInt8.ofNat (value.toNat <<< 4)] =
      bitsOf 4 value.toNat ++ List.replicate 4 false := by
    rw [bytesBits_singleton, byteBits_ofNat, show 8 = 4 + 4 from rfl, bitsOf_add,
      Nat.shiftLeft_shiftRight]
    congr 1
    apply List.ext_getElem? fun i => ?_
    by_cases inside : i < 4
    · rw [getElem?_bitsOf _ inside, List.getElem?_replicate_of_lt inside, Nat.testBit_shiftLeft,
        decide_eq_false (by omega), Bool.false_and]
    · rw [List.getElem?_eq_none (by simpa using inside),
        List.getElem?_eq_none (by simpa using inside)]
  have front : bytesBits (stream.data.modify (stream.data.length - 1)
      (· ||| UInt8.ofNat (value.toNat >>> (8 - 4)))) = bits ++ bitsOf 4 (value.toNat >>> 4) := by
    apply List.ext_getElem? fun i => ?_
    have mask (j : Nat) : (UInt8.ofNat (value.toNat >>> (8 - 4))).toNat.testBit j =
        value.toNat.testBit (4 + j) := by
      rw [UInt8.toNat_ofNat', Nat.mod_eq_of_lt
        (Nat.lt_of_le_of_lt (Nat.shiftRight_le _ _) small_value), Nat.testBit_shiftRight]
    rw [getElem?_bytesBits_modify, same, mask]
    by_cases before : i < bits.length
    · rw [List.getElem?_append_left before, List.getElem?_append_left before]
      -- the part of the value ends at the bits that are there
      have unset : (decide (i / 8 = stream.data.length - 1) &&
          value.toNat.testBit (4 + (7 - i % 8))) = false := by
        by_cases here : i / 8 = stream.data.length - 1
        · rw [Nat.testBit_lt_two_pow (Nat.lt_of_lt_of_le small_value
            (Nat.pow_le_pow_right (by decide) (show 8 ≤ 4 + (7 - i % 8) by omega))), Bool.and_false]
        · rw [decide_eq_false here, Bool.false_and]
      rw [unset]
      simp
    · rw [List.getElem?_append_right (by omega), List.getElem?_append_right (by omega)]
      by_cases inside : i - bits.length < 4
      · rw [List.getElem?_replicate_of_lt inside, getElem?_bitsOf _ inside, Nat.testBit_shiftRight,
          decide_eq_true (show i / 8 = stream.data.length - 1 by omega)]
        simp only [Option.map_some, Bool.false_or, Bool.true_and]
        congr 2
        omega
      · rw [List.getElem?_eq_none (by simpa using inside),
          List.getElem?_eq_none (by simpa using inside)]
        rfl
  rw [bytesBits_append, front, last, split, List.append_assoc, List.append_assoc, List.append_assoc]

/-- Where a byte is written right: at a byte boundary, in the middle of a byte, or if it is zero. -/
theorem Holds.writeByte (holds : stream.Holds bits) {value : UInt8}
    (placed : stream.length % 4 = 0 ∨ value = 0) :
    (stream.writeByte value).Holds (bits ++ byteBits value) := by
  rcases placed with whole | rfl
  · by_cases aligned : stream.length % 8 = 0
    · exact holds.writeByte_aligned aligned value
    · exact holds.writeByte_middle (by omega) value
  · exact holds.writeByte_zero

theorem length_writeByte (value : UInt8) : (stream.writeByte value).length = stream.length + 8 := by
  unfold MemoryOutputStream.writeByte
  split <;> rfl

theorem Holds.writeUintBe (holds : stream.Holds bits) {bytes value : Nat}
    (placed : stream.length % 4 = 0 ∨ value % 2 ^ (8 * bytes) = 0) :
    (stream.writeUintBe bytes value).Holds (bits ++ bitsOf (8 * bytes) value) := by
  induction bytes generalizing stream bits with
  | zero => simpa [MemoryOutputStream.writeUintBe] using holds
  | succ bytes ih =>
    have digits := mod_two_pow_add 8 (8 * bytes) value
    rw [show 8 * (bytes + 1) = 8 + 8 * bytes by omega] at placed ⊢
    rw [MemoryOutputStream.writeUintBe, bitsOf_add, ← byteBits_ofNat, ← List.append_assoc]
    apply ih
    · apply holds.writeByte
      apply placed.imp_right
      intro zero
      have no_digit : value >>> (8 * bytes) % 2 ^ 8 = 0 := by
        have product : value >>> (8 * bytes) % 2 ^ 8 * 2 ^ (8 * bytes) = 0 := by omega
        exact (Nat.mul_eq_zero.mp product).resolve_right (Nat.ne_of_gt (Nat.two_pow_pos _))
      apply UInt8.toNat_inj.mp
      rw [UInt8.toNat_ofNat']
      exact no_digit
    · rw [length_writeByte]
      exact placed.imp (fun whole => by omega) (fun zero => by omega)

theorem Holds.writeBytes (holds : stream.Holds bits) (aligned : stream.length % 8 = 0)
    (bytes : List UInt8) :
    ∃ after, stream.writeBytes bytes = .ok after ∧ after.Holds (bits ++ bytesBits bytes) := by
  obtain ⟨length_eq, pad, small, same⟩ := holds
  have lengths := congrArg List.length same
  rw [length_bytesBits, List.length_append, List.length_replicate] at lengths
  obtain rfl : pad = 0 := by omega
  have is_aligned : stream.isByteAligned = true := by simpa [isByteAligned] using aligned
  refine ⟨_, by rw [MemoryOutputStream.writeBytes, if_pos is_aligned], ?_, 0, by decide, ?_⟩
  · rw [List.length_append, length_bytesBits, ← length_eq]
  · rw [bytesBits_append, same]
    simp

/-- A mask of one bit writes the bits from there on. -/
theorem Holds.writeMasked (holds : stream.Holds bits) (value : UInt64) (count : Nat)
    (small : count < 64) :
    (stream.writeMasked value (count + 1) (UInt64.ofNat (2 ^ count))).Holds
      (bits ++ bitsOf (count + 1) value.toNat) := by
  induction count generalizing stream bits with
  | zero =>
    rw [MemoryOutputStream.writeMasked, MemoryOutputStream.writeMasked, and_mask value small,
      bitsOf_succ]
    exact holds.writeBit _
  | succ count ih =>
    rw [MemoryOutputStream.writeMasked, and_mask value small, mask_shift small, bitsOf_succ,
      ← List.singleton_append, ← List.append_assoc]
    exact ih (holds.writeBit _) (by omega)

end MemoryOutputStream

/-! ### What a stream reads -/

namespace MemoryInputStream

variable {bits : List Bool}

def advance (stream : MemoryInputStream) (length : Nat) : MemoryInputStream :=
  { stream with position := stream.position + length }

@[simp] theorem advance_zero (stream : MemoryInputStream) : stream.advance 0 = stream := rfl

theorem advance_advance (stream : MemoryInputStream) (length length' : Nat) :
    (stream.advance length).advance length' = stream.advance (length + length') := by
  simp [advance, Nat.add_assoc]

/-- Some bits are next on a stream. -/
structure Next (stream : MemoryInputStream) (bits : List Bool) : Prop where
  within : stream.isReadBeyondEnd = false
  inside : stream.position + bits.length ≤ stream.length
  stored : stream.length ≤ 8 * stream.data.length
  bits_eq : part (bytesBits stream.data) stream.position bits.length = bits

variable {stream : MemoryInputStream}

theorem Next.append {bits' : List Bool} (next : stream.Next (bits ++ bits')) :
    stream.Next bits ∧ (stream.advance bits.length).Next bits' := by
  obtain ⟨within, inside, stored, bits_eq⟩ := next
  rw [List.length_append] at inside bits_eq
  rw [← part_append_part] at bits_eq
  have lengths : (part (bytesBits stream.data) stream.position bits.length).length = bits.length :=
    length_part _ _ _ (by rw [length_bytesBits]; omega)
  obtain ⟨front, back⟩ := List.append_inj bits_eq lengths
  exact ⟨⟨within, by omega, stored, front⟩, ⟨within, by simp only [advance]; omega, stored, back⟩⟩

/-- Each of the next bits is a bit of a byte of the data. -/
theorem Next.getElem? (next : stream.Next bits) (inside : i < bits.length) :
    ∃ byte, stream.data[(stream.position + i) / 8]? = some byte ∧
      bits[i]? = some (byte.toNat.testBit (7 - (stream.position + i) % 8)) := by
  have room := next.inside
  have stored := next.stored
  obtain ⟨byte, found⟩ : ∃ byte, stream.data[(stream.position + i) / 8]? = some byte := by
    rw [← Option.isSome_iff_exists, Option.isSome_iff_ne_none, Ne, List.getElem?_eq_none_iff]
    omega
  have here := congrArg (·[i]?) next.bits_eq
  simp only [part, List.getElem?_take_of_lt inside, List.getElem?_drop] at here
  rw [getElem?_bytesBits, found] at here
  exact ⟨byte, found, here.symm⟩

theorem and_mask8 (byte : UInt8) {k : Nat} (small : k < 8) :
    (byte &&& UInt8.ofNat (1 <<< k) != 0) = byte.toNat.testBit k := by
  have masked : (byte &&& UInt8.ofNat (1 <<< k)).toNat = (byte.toNat.testBit k).toNat * 2 ^ k := by
    rw [UInt8.toNat_and, UInt8.toNat_ofNat', Nat.shiftLeft_eq, Nat.one_mul,
      Nat.mod_eq_of_lt (Nat.pow_lt_pow_right (by decide) small), Nat.and_two_pow]
  have positive := Nat.two_pow_pos k
  cases bit : byte.toNat.testBit k with
  | false =>
    have zero : byte &&& UInt8.ofNat (1 <<< k) = 0 := by
      apply UInt8.toNat_inj.mp
      rw [masked, bit]
      simp
    simp [zero]
  | true =>
    apply bne_iff_ne.mpr
    intro zero
    rw [zero, bit] at masked
    simp at masked
    omega

theorem Next.readBit {bit : Bool} (next : stream.Next [bit]) :
    stream.readBit = .ok (bit, stream.advance 1) := by
  have inside := next.inside
  obtain ⟨byte, found, bit_eq⟩ := next.getElem? (i := 0) (by simp)
  simp only [Nat.add_zero, List.getElem?_cons_zero, Option.some.injEq] at found bit_eq
  unfold MemoryInputStream.readBit
  rw [if_neg (by simp only [List.length_cons] at inside; omega), found]
  simp only
  rw [and_mask8 byte (by omega), ← bit_eq]
  rfl

theorem Next.readBits (next : stream.Next bits) :
    stream.readBits bits.length = .ok (bits, stream.advance bits.length) := by
  induction bits generalizing stream with
  | nil => rfl
  | cons bit rest ih =>
    rw [← List.singleton_append] at next
    obtain ⟨first, later⟩ := next.append
    rw [List.length_cons, MemoryInputStream.readBits, if_neg (by rw [first.within]; decide),
      first.readBit, ok_bind]
    have rest_read := ih later
    rw [List.length_singleton] at rest_read
    simp only
    rw [rest_read, ok_bind, advance_advance, Nat.add_comm]
    rfl

theorem byteAt_of_getElem? {byte : UInt8} (found : stream.data[i]? = some byte) :
    stream.byteAt i = .ok byte := by
  unfold byteAt
  rw [found]

theorem Next.readByte {value : UInt8} (next : stream.Next (byteBits value)) :
    stream.readByte = .ok (value, stream.advance 8) := by
  have inside := next.inside
  rw [length_byteBits] at inside
  have bit (i : Nat) (small : i < 8) := next.getElem? (i := i) (by simpa using small)
  unfold MemoryInputStream.readByte
  rw [if_neg (by omega)]
  by_cases aligned : stream.position % 8 = 0
  · have is_aligned : stream.isByteAligned = true := by simpa [isByteAligned] using aligned
    obtain ⟨byte, found, _⟩ := bit 0 (by decide)
    have same : byte = value := by
      apply byteBits_injective
      apply List.ext_getElem? fun i => ?_
      by_cases small : i < 8
      · obtain ⟨byte', found', bit_eq⟩ := bit i small
        rw [show (stream.position + i) / 8 = (stream.position + 0) / 8 by omega, found] at found'
        cases found'
        rw [bit_eq, getElem?_byteBits byte small, show (stream.position + i) % 8 = i by omega]
      · rw [List.getElem?_eq_none (by simpa using small),
          List.getElem?_eq_none (by simpa using small)]
    rw [Nat.add_zero] at found
    rw [if_pos is_aligned, byteAt_of_getElem? found, ok_bind, same]
    rfl
  · have not_aligned : ¬stream.isByteAligned = true := by simpa [isByteAligned] using aligned
    obtain ⟨high, found_high, _⟩ := bit 0 (by decide)
    obtain ⟨low, found_low, _⟩ := bit (8 - stream.position % 8) (by omega)
    rw [show (stream.position + 0) / 8 = (stream.position - stream.position % 8) / 8 by omega]
      at found_high
    have same : UInt8.ofNat (high.toNat <<< (stream.position % 8)) |||
        UInt8.ofNat (low.toNat >>> (8 - stream.position % 8)) = value := by
      apply byteBits_injective
      apply List.ext_getElem? fun i => ?_
      by_cases small : i < 8
      · obtain ⟨byte', found', bit_eq⟩ := bit i small
        rw [bit_eq, getElem?_byteBits _ small, UInt8.toNat_or, UInt8.toNat_ofNat',
          UInt8.toNat_ofNat', Nat.testBit_or, Nat.testBit_mod_two_pow, Nat.testBit_mod_two_pow,
          Nat.testBit_shiftLeft, Nat.testBit_shiftRight, decide_eq_true (by omega),
          Bool.true_and, Bool.true_and]
        by_cases first : i < 8 - stream.position % 8
        · -- a bit of the first byte
          rw [show (stream.position + i) / 8 = (stream.position - stream.position % 8) / 8 by omega,
            found_high] at found'
          cases found'
          rw [decide_eq_true (show 7 - i ≥ stream.position % 8 by omega), Bool.true_and,
            Nat.testBit_lt_two_pow (x := low.toNat) (Nat.lt_of_lt_of_le low.toNat_lt
              (Nat.pow_le_pow_right (by decide)
                (show 8 ≤ 8 - stream.position % 8 + (7 - i) by omega))), Bool.or_false]
          congr 2
          omega
        · -- a bit of the second byte
          rw [show (stream.position + i) / 8 =
            (stream.position + (8 - stream.position % 8)) / 8 by omega, found_low] at found'
          cases found'
          rw [decide_eq_false (show ¬7 - i ≥ stream.position % 8 by omega), Bool.false_and,
            Bool.false_or]
          congr 2
          omega
      · rw [List.getElem?_eq_none (by simpa using small),
          List.getElem?_eq_none (by simpa using small)]
    rw [if_neg not_aligned]
    simp only
    rw [byteAt_of_getElem? found_high, ok_bind]
    rw [byteAt_of_getElem? found_low, ok_bind, same]
    rfl

theorem Next.readBytes {bytes : List UInt8} (next : stream.Next (bytesBits bytes))
    (aligned : stream.position % 8 = 0) :
    stream.readBytes bytes.length = .ok (bytes, stream.advance (8 * bytes.length)) := by
  obtain ⟨within, inside, stored, bits_eq⟩ := next
  rw [length_bytesBits] at inside bits_eq
  have is_aligned : stream.isByteAligned = true := by simpa [isByteAligned] using aligned
  have not_beyond : ¬stream.length < stream.position + 8 * bytes.length := by omega
  have same : (stream.data.drop (stream.position / 8)).take bytes.length = bytes := by
    apply bytesBits_injective
    have dropped := bytesBits_part stream.data (stream.position / 8) bytes.length
    rw [show 8 * (stream.position / 8) = stream.position by omega, bits_eq] at dropped
    exact dropped
  unfold MemoryInputStream.readBytes
  rw [if_neg (by rw [is_aligned]; decide)]
  simp only [decide_eq_false not_beyond, Bool.or_false, clipped, if_neg not_beyond, ok_bind]
  rw [if_neg (by omega), same]
  rfl

/-- The bytes of a number are added to what has been read. -/
theorem Next.readUintBe {bytes value : Nat} (next : stream.Next (bitsOf (8 * bytes) value)) :
    stream.readUintBe bytes (high * 2 ^ (8 * bytes)) =
      .ok (high * 2 ^ (8 * bytes) + value % 2 ^ (8 * bytes), stream.advance (8 * bytes)) := by
  induction bytes generalizing stream high with
  | zero => simp [MemoryInputStream.readUintBe, Nat.mod_one]
  | succ bytes ih =>
    rw [show 8 * (bytes + 1) = 8 + 8 * bytes by omega] at next ⊢
    rw [bitsOf_add, ← byteBits_ofNat] at next
    obtain ⟨first, later⟩ := next.append
    have digit : (UInt8.ofNat (value >>> (8 * bytes))).toNat = value >>> (8 * bytes) % 2 ^ 8 :=
      UInt8.toNat_ofNat'
    have small : value >>> (8 * bytes) % 2 ^ 8 < 2 ^ 8 := Nat.mod_lt _ (by decide)
    have next_high : (high * 2 ^ (8 + 8 * bytes) |||
        (UInt8.ofNat (value >>> (8 * bytes))).toNat <<< (8 * bytes)) =
        (high * 2 ^ 8 + value >>> (8 * bytes) % 2 ^ 8) * 2 ^ (8 * bytes) := by
      rw [digit, ← or_shift_digit high 8 _ small, ← Nat.shiftLeft_eq, ← Nat.shiftLeft_eq,
        ← Nat.shiftLeft_eq, Nat.shiftLeft_or_distrib, ← Nat.shiftLeft_add]
    have rest := ih (high * 2 ^ 8 + value >>> (8 * bytes) % 2 ^ 8) later
    rw [length_byteBits] at rest
    rw [MemoryInputStream.readUintBe, first.readByte, ok_bind]
    simp only
    rw [next_high, rest, advance_advance, mod_two_pow_add 8 (8 * bytes) value, Nat.add_mul,
      Nat.mul_assoc, ← Nat.pow_add, Nat.add_assoc]

/-- The reader adds a bit below the bits so far. -/
theorem or_mask {count : Nat} (small : count < 64) (bit : Bool) :
    (if bit then UInt64.ofNat (high * 2 ^ (count + 1)) ||| UInt64.ofNat (2 ^ count)
      else UInt64.ofNat (high * 2 ^ (count + 1))) =
      UInt64.ofNat ((high * 2 + bit.toNat) * 2 ^ count) := by
  have value : high * 2 ^ (count + 1) = high * 2 * 2 ^ count := by
    rw [Nat.pow_succ, Nat.mul_assoc, Nat.mul_comm 2]
  cases bit with
  | false => simp [value]
  | true =>
    rw [if_pos rfl]
    apply UInt64.toNat_inj.mp
    have digit := or_shift_digit high 1 1 (by decide)
    rw [UInt64.toNat_or, UInt64.toNat_ofNat', toNat_mask small, UInt64.toNat_ofNat',
      ← Nat.mod_eq_of_lt (Nat.pow_lt_pow_right (by decide) small : 2 ^ count < 2 ^ 64),
      ← Nat.or_mod_two_pow, Nat.mod_eq_of_lt (Nat.pow_lt_pow_right (by decide) small), value]
    rw [Nat.pow_one] at digit
    rw [Bool.toNat_true, ← digit, ← Nat.shiftLeft_eq (high * 2 ||| 1), Nat.shiftLeft_or_distrib,
      Nat.shiftLeft_eq, Nat.shiftLeft_eq, Nat.one_mul]

theorem add_top_bit (count value : Nat) :
    high * 2 ^ (count + 1) + value % 2 ^ (count + 1) =
      (high * 2 + (value.testBit count).toNat) * 2 ^ count + value % 2 ^ count := by
  have digits := mod_two_pow_add 1 count value
  have top : value >>> count % 2 ^ 1 = (value.testBit count).toNat := by
    rw [Nat.testBit_eq_decide_div_mod_eq, Nat.shiftRight_eq_div_pow]
    rcases Nat.mod_two_eq_zero_or_one (value / 2 ^ count) with zero | one
    · simp [zero]
    · simp [one]
  rw [Nat.add_comm count 1, digits, top, Nat.add_mul, Nat.pow_add, Nat.pow_one, Nat.mul_assoc,
    Nat.add_assoc]

/-- A mask of one bit reads the bits from there on. -/
theorem Next.readMasked {value count : Nat} (small : count < 64)
    (next : stream.Next (bitsOf (count + 1) value)) :
    stream.readMasked (count + 1) (UInt64.ofNat (2 ^ count)) (UInt64.ofNat (high * 2 ^ (count + 1))) =
      .ok (UInt64.ofNat (high * 2 ^ (count + 1) + value % 2 ^ (count + 1)),
        stream.advance (count + 1)) := by
  induction count generalizing stream high with
  | zero =>
    rw [bitsOf_succ, bitsOf_zero_width] at next
    rw [MemoryInputStream.readMasked, next.readBit, ok_bind]
    simp only
    rw [or_mask high small, add_top_bit]
    simp [MemoryInputStream.readMasked, Nat.mod_one]
  | succ count ih =>
    rw [bitsOf_succ, ← List.singleton_append] at next
    obtain ⟨first, later⟩ := next.append
    rw [MemoryInputStream.readMasked, first.readBit, ok_bind]
    simp only
    have rest := ih (high * 2 + (value.testBit (count + 1)).toNat) (by omega) later
    rw [List.length_singleton] at rest
    rw [or_mask high small, add_top_bit, mask_shift small, rest, advance_advance, Nat.add_comm 1]

end MemoryInputStream

/-! ### Sequences of operations -/

inductive WriteOperation where
  | bit (value : Bool)
  | bits (values : List Bool)
  | byte (value : UInt8)
  | bytes (values : List UInt8)
  | uint16Be (value : UInt16)
  | uint32Be (value : UInt32)
  | uint64Be (value : UInt64)
  | nBitsOfUint64Be (value : UInt64) (n : UInt8)

/-- What a read returns. -/
inductive StreamValue where
  | bit (value : Bool)
  | bits (values : List Bool)
  | byte (value : UInt8)
  | bytes (values : List UInt8)
  | uint16 (value : UInt16)
  | uint32 (value : UInt32)
  | uint64 (value : UInt64)
deriving DecidableEq

namespace WriteOperation

def write (stream : MemoryOutputStream) : WriteOperation → Except StreamError MemoryOutputStream
  | .bit value => .ok (stream.writeBit value)
  | .bits values => .ok (stream.writeBits values)
  | .byte value => .ok (stream.writeByte value)
  | .bytes values => stream.writeBytes values
  | .uint16Be value => .ok (stream.writeUint16Be value)
  | .uint32Be value => .ok (stream.writeUint32Be value)
  | .uint64Be value => .ok (stream.writeUint64Be value)
  | .nBitsOfUint64Be value n => stream.writeNBitsOfUint64Be value n

/-- The read that matches a write. -/
def read (stream : MemoryInputStream) :
    WriteOperation → Except StreamError (StreamValue × MemoryInputStream)
  | .bit _ => do
    let (value, stream) ← stream.readBit
    return (.bit value, stream)
  | .bits values => do
    let (values, stream) ← stream.readBits values.length
    return (.bits values, stream)
  | .byte _ => do
    let (value, stream) ← stream.readByte
    return (.byte value, stream)
  | .bytes values => do
    let (values, stream) ← stream.readBytes values.length
    return (.bytes values, stream)
  | .uint16Be _ => do
    let (value, stream) ← stream.readUint16Be
    return (.uint16 value, stream)
  | .uint32Be _ => do
    let (value, stream) ← stream.readUint32Be
    return (.uint32 value, stream)
  | .uint64Be _ => do
    let (value, stream) ← stream.readUint64Be
    return (.uint64 value, stream)
  | .nBitsOfUint64Be _ n => do
    let (value, stream) ← stream.readNBitsToUint64Be n
    return (.uint64 value, stream)

def width : WriteOperation → Nat
  | .bit _ => 1
  | .bits values => values.length
  | .byte _ => 8
  | .bytes values => 8 * values.length
  | .uint16Be _ => 16
  | .uint32Be _ => 32
  | .uint64Be _ => 64
  | .nBitsOfUint64Be _ n => n.toNat

/-- The written value, of which `n` bits are the low ones. -/
def value : WriteOperation → StreamValue
  | .bit value => .bit value
  | .bits values => .bits values
  | .byte value => .byte value
  | .bytes values => .bytes values
  | .uint16Be value => .uint16 value
  | .uint32Be value => .uint32 value
  | .uint64Be value => .uint64 value
  | .nBitsOfUint64Be value n => .uint64 (UInt64.ofNat (value.toNat % 2 ^ n.toNat))

def IsValid : WriteOperation → Prop
  | .nBitsOfUint64Be _ n => 1 ≤ n.toNat ∧ n.toNat ≤ 64
  | _ => True

/-- Where an operation is right: bytes that are not zero start at a byte boundary or in the middle
of a byte, byte arrays start at a byte boundary, and a shifted one fits an `int`. -/
def Fits (length : Nat) : WriteOperation → Prop
  | .byte value => length % 4 = 0 ∨ value = 0
  | .bytes _ => length % 8 = 0
  | .uint16Be value => length % 4 = 0 ∨ value = 0
  | .uint32Be value => length % 4 = 0 ∨ value = 0
  | .uint64Be value => length % 4 = 0 ∨ value = 0
  | .nBitsOfUint64Be value n => n.toNat ≤ 31 ∨ (n.toNat = 32 ∧ value = 0)
  | _ => True

/-- The bits of an operation. -/
def writtenBits : WriteOperation → List Bool
  | .bit value => [value]
  | .bits values => values
  | .byte value => byteBits value
  | .bytes values => bytesBits values
  | .uint16Be value => bitsOf 16 value.toNat
  | .uint32Be value => bitsOf 32 value.toNat
  | .uint64Be value => bitsOf 64 value.toNat
  | .nBitsOfUint64Be value n => bitsOf n.toNat value.toNat

@[simp] theorem length_writtenBits (operation : WriteOperation) :
    operation.writtenBits.length = operation.width := by
  cases operation <;> simp [writtenBits, width]

end WriteOperation

def writeAll (stream : MemoryOutputStream) (operations : List WriteOperation) :
    Except StreamError MemoryOutputStream :=
  operations.foldlM WriteOperation.write stream

def readAll : MemoryInputStream → List WriteOperation →
    Except StreamError (List StreamValue × MemoryInputStream)
  | stream, [] => .ok ([], stream)
  | stream, operation :: rest => do
    let (value, stream) ← operation.read stream
    let (values, stream) ← readAll stream rest
    return (value :: values, stream)

/-- The written values are read, up to the end of the stream and not beyond. -/
def RoundTrips (operations : List WriteOperation) : Prop :=
  ∃ output, writeAll {} operations = .ok output ∧
    output.length = (operations.map WriteOperation.width).sum ∧
    ∃ input, readAll { data := output.data, length := output.length } operations =
        .ok (operations.map WriteOperation.value, input) ∧
      input.position = input.length ∧ input.isReadBeyondEnd = false

/-- Each operation fits where the ones before it end. -/
def AllFit : Nat → List WriteOperation → Prop
  | _, [] => True
  | length, operation :: rest => operation.Fits length ∧ AllFit (length + operation.width) rest

/-! ### One operation -/

theorem n_ne_zero_and_le {n : UInt8} (valid : 1 ≤ n.toNat ∧ n.toNat ≤ 64) : ¬(n = 0 ∨ n > 64) := by
  rintro (rfl | big)
  · exact absurd valid.1 (by decide)
  · have := UInt8.lt_iff_toNat_lt.mp big
    have : (64 : UInt8).toNat = 64 := by decide
    omega

theorem shiftedOne_small {count : Nat} (small : count < 31) :
    shiftedOne count = .ok (UInt64.ofNat (2 ^ count)) := if_pos small

theorem shiftedOne_sign : shiftedOne 31 = .ok 0xFFFFFFFF80000000 := rfl

theorem MemoryOutputStream.Holds.writeMasked_zero {bits : List Bool}
    (holds : stream.Holds bits) (count : Nat) (mul : UInt64) :
    (stream.writeMasked 0 count mul).Holds (bits ++ bitsOf count 0) := by
  induction count generalizing stream bits mul with
  | zero => simpa [MemoryOutputStream.writeMasked] using holds
  | succ count ih =>
    have bit : ((0 : UInt64) &&& mul != 0) = (0 : Nat).testBit count := by simp
    rw [MemoryOutputStream.writeMasked, bit, bitsOf_succ, ← List.singleton_append,
      ← List.append_assoc]
    exact ih (holds.writeBit _) _

theorem MemoryInputStream.Next.readMasked_zero {stream : MemoryInputStream} {count : Nat}
    (mul num : UInt64) (next : stream.Next (bitsOf count 0)) :
    stream.readMasked count mul num = .ok (num, stream.advance count) := by
  induction count generalizing stream mul with
  | zero => rfl
  | succ count ih =>
    rw [bitsOf_succ, Nat.zero_testBit, ← List.singleton_append] at next
    obtain ⟨first, later⟩ := next.append
    have rest := ih (mul >>> 1) later
    rw [List.length_singleton] at rest
    rw [MemoryInputStream.readMasked, first.readBit, ok_bind]
    simp only [Bool.false_eq_true, if_false]
    rw [rest, MemoryInputStream.advance_advance, Nat.add_comm 1]

namespace WriteOperation

variable {operation : WriteOperation}

/-- An operation that fits adds its bits. -/
theorem write_holds {bits : List Bool} (holds : stream.Holds bits)
    (valid : operation.IsValid) (fits : operation.Fits stream.length) :
    ∃ after, operation.write stream = .ok after ∧
      after.Holds (bits ++ operation.writtenBits) := by
  cases operation with
  | bit value => exact ⟨_, rfl, holds.writeBit value⟩
  | bits values => exact ⟨_, rfl, holds.writeBits values⟩
  | byte value => exact ⟨_, rfl, holds.writeByte fits⟩
  | bytes values => exact holds.writeBytes fits values
  | uint16Be value =>
    exact ⟨_, rfl, holds.writeUintBe (fits.imp_right fun zero => by simp [zero])⟩
  | uint32Be value =>
    exact ⟨_, rfl, holds.writeUintBe (fits.imp_right fun zero => by simp [zero])⟩
  | uint64Be value =>
    exact ⟨_, rfl, holds.writeUintBe (fits.imp_right fun zero => by simp [zero])⟩
  | nBitsOfUint64Be value n =>
    simp only [write, MemoryOutputStream.writeNBitsOfUint64Be]
    rw [if_neg (n_ne_zero_and_le valid)]
    rcases fits with small | ⟨wide, rfl⟩
    · obtain ⟨count, count_eq⟩ := Nat.exists_eq_add_of_le' valid.1
      rw [show n.toNat - 1 = count by omega, shiftedOne_small (by omega), ok_bind]
      refine ⟨_, rfl, ?_⟩
      rw [writtenBits, count_eq]
      exact holds.writeMasked value count (by omega)
    · rw [wide, shiftedOne_sign, ok_bind]
      refine ⟨_, rfl, ?_⟩
      rw [writtenBits, wide]
      exact holds.writeMasked_zero 32 _

/-- An operation that fits reads its value back. -/
theorem read_next {stream : MemoryInputStream} (next : stream.Next operation.writtenBits)
    (valid : operation.IsValid) (fits : operation.Fits stream.position) :
    operation.read stream = .ok (operation.value, stream.advance operation.width) := by
  have uint (bytes value : Nat) (is_next : stream.Next (bitsOf (8 * bytes) value)) :
      stream.readUintBe bytes 0 = .ok (value % 2 ^ (8 * bytes), stream.advance (8 * bytes)) := by
    simpa using is_next.readUintBe 0
  cases operation with
  | bit value =>
    simp only [read, next.readBit, ok_bind]
    rfl
  | bits values =>
    have bits_read : stream.readBits values.length = .ok (values, stream.advance values.length) :=
      MemoryInputStream.Next.readBits next
    simp only [read, bits_read, ok_bind]
    rfl
  | byte value =>
    simp only [read, next.readByte, ok_bind]
    rfl
  | bytes values =>
    simp only [read, next.readBytes fits, ok_bind]
    rfl
  | uint16Be value =>
    simp only [read, MemoryInputStream.readUint16Be, uint 2 value.toNat next, ok_bind]
    simp only [pure, Except.pure, bind, Except.bind]
    rw [Nat.mod_eq_of_lt value.toNat_lt, UInt16.ofNat_toNat]
    rfl
  | uint32Be value =>
    simp only [read, MemoryInputStream.readUint32Be, uint 4 value.toNat next, ok_bind]
    simp only [pure, Except.pure, bind, Except.bind]
    rw [Nat.mod_eq_of_lt value.toNat_lt, UInt32.ofNat_toNat]
    rfl
  | uint64Be value =>
    simp only [read, MemoryInputStream.readUint64Be, uint 8 value.toNat next, ok_bind]
    simp only [pure, Except.pure, bind, Except.bind]
    rw [Nat.mod_eq_of_lt value.toNat_lt, UInt64.ofNat_toNat]
    rfl
  | nBitsOfUint64Be value n =>
    simp only [read, MemoryInputStream.readNBitsToUint64Be]
    rw [if_neg (n_ne_zero_and_le valid)]
    rcases fits with small | ⟨wide, rfl⟩
    · obtain ⟨count, count_eq⟩ := Nat.exists_eq_add_of_le' valid.1
      rw [writtenBits, count_eq] at next
      have masked : stream.readMasked (count + 1) (UInt64.ofNat (2 ^ count)) 0 =
          .ok (UInt64.ofNat (value.toNat % 2 ^ (count + 1)), stream.advance (count + 1)) := by
        simpa using next.readMasked 0 (by omega)
      rw [show n.toNat - 1 = count by omega, shiftedOne_small (by omega), ok_bind, count_eq]
      rw [masked, ok_bind, WriteOperation.value, width, count_eq]
      rfl
    · rw [writtenBits, wide] at next
      rw [wide, shiftedOne_sign, ok_bind, MemoryInputStream.Next.readMasked_zero _ _ next, ok_bind,
        WriteOperation.value, width, wide]
      rfl

end WriteOperation

/-! ### All operations -/

theorem writeAll_holds {bits : List Bool} (holds : stream.Holds bits)
    {operations : List WriteOperation} (valid : ∀ operation ∈ operations, operation.IsValid)
    (fits : AllFit stream.length operations) :
    ∃ after, writeAll stream operations = .ok after ∧
      after.Holds (bits ++ operations.flatMap WriteOperation.writtenBits) := by
  induction operations generalizing stream bits with
  | nil => exact ⟨stream, rfl, by simpa using holds⟩
  | cons operation rest ih =>
    obtain ⟨first_valid, rest_valid⟩ := List.forall_mem_cons.mp valid
    obtain ⟨first_fits, rest_fits⟩ := fits
    obtain ⟨next, written, next_holds⟩ := operation.write_holds holds first_valid first_fits
    have next_length : next.length = stream.length + operation.width := by
      rw [next_holds.length_eq, List.length_append, operation.length_writtenBits,
        holds.length_eq]
    obtain ⟨after, returned, after_holds⟩ := ih next_holds rest_valid (by rwa [next_length])
    refine ⟨after, ?_, ?_⟩
    · rw [writeAll, List.foldlM_cons, written, ok_bind]
      exact returned
    · rw [List.flatMap_cons, ← List.append_assoc]
      exact after_holds

theorem readAll_next {stream : MemoryInputStream} {operations : List WriteOperation}
    (next : stream.Next (operations.flatMap WriteOperation.writtenBits))
    (valid : ∀ operation ∈ operations, operation.IsValid)
    (fits : AllFit stream.position operations) :
    readAll stream operations = .ok (operations.map WriteOperation.value,
      stream.advance (operations.map WriteOperation.width).sum) := by
  induction operations generalizing stream with
  | nil => rfl
  | cons operation rest ih =>
    obtain ⟨first_valid, rest_valid⟩ := List.forall_mem_cons.mp valid
    obtain ⟨first_fits, rest_fits⟩ := fits
    rw [List.flatMap_cons] at next
    obtain ⟨first, later⟩ := next.append
    rw [operation.length_writtenBits] at later
    rw [readAll, operation.read_next first first_valid first_fits, ok_bind]
    simp only
    rw [ih later rest_valid rest_fits, ok_bind, MemoryInputStream.advance_advance]
    rfl

/-- Operations that fit make the round trip. -/
theorem roundTrips_of_allFit (operations : List WriteOperation)
    (valid : ∀ operation ∈ operations, operation.IsValid) (fits : AllFit 0 operations) :
    RoundTrips operations := by
  obtain ⟨output, written, holds⟩ := writeAll_holds MemoryOutputStream.new_holds valid fits
  obtain ⟨length_eq, packed⟩ := holds
  rw [List.nil_append] at length_eq packed
  have total : (operations.flatMap WriteOperation.writtenBits).length =
      (operations.map WriteOperation.width).sum := by
    rw [List.length_flatMap]
    simp only [WriteOperation.length_writtenBits]
  have lengths := packed.length
  refine ⟨output, written, by rw [length_eq, total], _, readAll_next ?_ valid fits,
    ?_, rfl⟩
  · refine ⟨rfl, by simp [length_eq], by simp only; omega, ?_⟩
    rw [packed.part _ _ (by simp), part_all]
  · simp only [MemoryInputStream.advance, Nat.zero_add]
    rw [length_eq, total]

/-- Bits, bytes in the middle of a byte and a field of 31 bits. -/
theorem roundTrips_mixed :
    RoundTrips [.bits [true, false, true, true], .byte 0xA5, .uint16Be 0x1234, .bit true,
      .nBitsOfUint64Be 0xFFFFFFFF12345678 31, .uint32Be 0xDEADBEEF] := by
  apply roundTrips_of_allFit
  · simp [WriteOperation.IsValid]
  · simp [AllFit, WriteOperation.Fits, WriteOperation.width]

/-- Byte arrays are refused inside of a byte. -/
theorem bytes_refused_unaligned :
    ¬ ∀ operations : List WriteOperation,
      (∀ operation ∈ operations, operation.IsValid) → RoundTrips operations := by
  intro trips
  obtain ⟨output, written, _⟩ := trips [.bit true, .bytes [1]] (by simp [WriteOperation.IsValid])
  cases written

end Inet.Common
