import Mathlib.Data.List.Basic
import Mathlib.Data.List.Induction
import Inet.Lib.Bits

/-!
# Bit vectors

A bit vector is a list of bits. Its bytes have their first bit as the least significant one.
-/
namespace Inet

abbrev BitVector := List Bool

variable (bits : BitVector)

namespace BitVector

/-- Sets a bit, after the vector has been extended up to it. -/
def setBit (bits : BitVector) (pos : Nat) (value : Bool) : BitVector :=
  (bits ++ List.replicate (pos + 1 - bits.length) false).set pos value

/-- The bits of a byte. -/
def byteBits (byte : UInt8) : BitVector := (List.range 8).map fun i => byte.toNat.testBit i

def ofBytes (bytes : List UInt8) : BitVector := bytes.flatMap byteBits

/-- A byte that has the bits from a position. -/
def byteAt (bits : BitVector) (pos : Nat) : UInt8 :=
  (List.range 8).foldl (fun field i =>
    if bits.getD (pos + i) false then field ||| 1 <<< i.toUInt8 else field) 0

def getBytes (bits : BitVector) : List UInt8 :=
  (List.range ((bits.length + 7) / 8)).map fun i => byteAt bits (8 * i)

/-- The first bit is the most significant one. -/
def reverseToDecimal (bits : BitVector) : Nat :=
  bits.foldl (fun decimal bit => 2 * decimal + bit.toNat) 0

/-! ### Bytes -/

@[simp] theorem length_byteBits (byte : UInt8) : (byteBits byte).length = 8 := by
  simp [byteBits]

@[simp] theorem length_ofBytes (bytes : List UInt8) : (ofBytes bytes).length = 8 * bytes.length := by
  induction bytes with
  | nil => rfl
  | cons byte bytes ih =>
    rw [ofBytes, List.flatMap_cons, List.length_append, length_byteBits, ← ofBytes, ih,
      List.length_cons]
    omega

theorem getD_ofBytes {bytes : List UInt8} {i k : Nat} (byte : i < bytes.length) (inside : k < 8) :
    (ofBytes bytes).getD (8 * i + k) false = bytes[i].toNat.testBit k := by
  induction bytes generalizing i with
  | nil => cases byte
  | cons first bytes ih =>
    rw [ofBytes, List.flatMap_cons]
    cases i with
    | zero =>
      rw [List.getD_append _ _ _ _ (by rw [length_byteBits]; omega)]
      simp [byteBits, inside]
    | succ i =>
      rw [List.getD_append_right _ _ _ _ (by rw [length_byteBits]; omega), length_byteBits,
        show 8 * (i + 1) + k - 8 = 8 * i + k by omega, ← ofBytes]
      exact ih (Nat.lt_of_succ_lt_succ byte)

theorem byte_eq (byte : UInt8) :
    (List.range 8).foldl (fun field i =>
      if byte.toNat.testBit i then field ||| 1 <<< i.toUInt8 else field) 0 = byte := by
  have all : ∀ value < 256, (List.range 8).foldl (fun field i =>
      if (UInt8.ofNat value).toNat.testBit i then field ||| 1 <<< i.toUInt8 else field) 0 =
        UInt8.ofNat value := by
    decide +kernel
  have this := all byte.toNat byte.toNat_lt
  rw [UInt8.ofNat_toNat] at this
  exact this

theorem getBytes_ofBytes (bytes : List UInt8) : getBytes (ofBytes bytes) = bytes := by
  refine List.ext_getElem ?_ fun i _ inside => ?_
  · rw [getBytes, List.length_map, List.length_range, length_ofBytes]
    omega
  · simp only [getBytes, List.getElem_map, List.getElem_range, byteAt]
    refine (List.foldl_ext _ _ 0 fun field k member => ?_).trans (byte_eq bytes[i])
    rw [getD_ofBytes inside (List.mem_range.mp member)]

/-! ### Numbers -/

theorem reverseToDecimal_concat (bit : Bool) :
    reverseToDecimal (bits ++ [bit]) = 2 * reverseToDecimal bits + bit.toNat := by
  rw [reverseToDecimal, List.foldl_append]
  rfl

theorem bitsOf_reverseToDecimal :
    Lib.bitsOf bits.length (reverseToDecimal bits) = bits := by
  induction bits using List.reverseRecOn with
  | nil => rfl
  | append_singleton bits bit ih =>
    rw [List.length_append, List.length_singleton, Lib.bitsOf_add, reverseToDecimal_concat]
    congr 1
    · rw [Nat.shiftRight_eq_div_pow]
      rw [show (2 * reverseToDecimal bits + bit.toNat) / 2 ^ 1 = reverseToDecimal bits by
        cases bit <;> simp only [Bool.toNat_false, Bool.toNat_true] <;> omega]
      exact ih
    · cases bit <;> simp [Lib.bitsOf, Nat.testBit_zero]

theorem reverseToDecimal_lt : reverseToDecimal bits < 2 ^ bits.length := by
  induction bits using List.reverseRecOn with
  | nil => decide
  | append_singleton bits bit ih =>
    rw [List.length_append, List.length_singleton, reverseToDecimal_concat, Nat.pow_succ]
    cases bit <;> simp only [Bool.toNat_false, Bool.toNat_true] <;> omega

/-! ### Positions -/

theorem length_setBit (pos : Nat) (value : Bool) :
    (setBit bits pos value).length = max bits.length (pos + 1) := by
  rw [setBit, List.length_set, List.length_append, List.length_replicate]
  omega

theorem getElem?_setBit_self (pos : Nat) (value : Bool) :
    (setBit bits pos value)[pos]? = some value := by
  rw [setBit, List.getElem?_set_self]
  rw [List.length_append, List.length_replicate]
  omega

theorem getElem?_setBit_of_ne {bits : BitVector} {pos other : Nat} (value : Bool)
    (different : pos ≠ other) {bit : Bool} (found : bits[other]? = some bit) :
    (setBit bits pos value)[other]? = some bit := by
  obtain ⟨inside, _⟩ := List.getElem?_eq_some_iff.mp found
  rw [setBit, List.getElem?_set_ne different, List.getElem?_append_left inside, found]

section
variable {α : Type} {position : α → Nat} {value : α → Bool}

theorem length_foldl_setBit (items : List α) : ∀ (bits : BitVector) {limit : Nat},
    bits.length ≤ limit → (∀ item ∈ items, position item < limit) →
      (items.foldl (fun bits item => setBit bits (position item) (value item)) bits).length ≤
        limit := by
  induction items with
  | nil => exact fun _ _ le _ => le
  | cons first rest ih =>
    intro bits limit le inside
    refine ih _ ?_ fun item member => inside item (List.mem_cons_of_mem _ member)
    rw [length_setBit]
    have := inside first List.mem_cons_self
    omega

theorem getElem?_foldl_of_forall_ne (items : List α) : ∀ (bits : BitVector) {pos : Nat} {bit : Bool},
    (∀ item ∈ items, position item ≠ pos) → bits[pos]? = some bit →
      (items.foldl (fun bits item => setBit bits (position item) (value item)) bits)[pos]? =
        some bit := by
  induction items with
  | nil => exact fun _ _ _ _ found => found
  | cons first rest ih =>
    intro bits pos bit different found
    exact ih _ (fun item member => different item (List.mem_cons_of_mem _ member))
      (getElem?_setBit_of_ne _ (different first List.mem_cons_self) found)

/-- Bits that are set at different positions are found there. -/
theorem getElem?_foldl_setBit {items : List α} : ∀ (bits : BitVector),
    items.Pairwise (fun a b => position a ≠ position b) → ∀ item ∈ items,
      (items.foldl (fun bits item => setBit bits (position item) (value item)) bits)[
        position item]? = some (value item) := by
  induction items with
  | nil => exact fun _ _ _ => nofun
  | cons first rest ih =>
    intro bits different item member
    obtain ⟨here, later⟩ := List.pairwise_cons.mp different
    rcases List.mem_cons.mp member with rfl | member
    · exact getElem?_foldl_of_forall_ne rest _ (fun other inside => (here other inside).symm)
        (getElem?_setBit_self _ _ _)
    · exact ih _ later item member

end

end BitVector

end Inet
