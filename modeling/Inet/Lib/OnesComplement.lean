import Mathlib.Data.Nat.ModEq
import Mathlib.Data.List.Basic
import Mathlib.Data.Nat.Bitwise

/-!
# One's complement sums

The sum of the 16 bit words that bytes make up in pairs, the first byte of a pair being the high
one. Modulo 65535 a carry out of a word counts as much as one into it.
-/
namespace Inet.Lib

variable (low : Bool)

/-- The sum of the words of some bytes, the first of which may be the low byte of a word. -/
def wordSum : Bool → List UInt8 → Nat
  | _, [] => 0
  | false, byte :: rest => 256 * byte.toNat + wordSum true rest
  | true, byte :: rest => byte.toNat + wordSum false rest

/-- What a byte counts at its position. -/
def weight (low : Bool) : Nat := if low then 1 else 256

/-- Whether a byte behind some others is the low byte of a word. -/
def behind (low : Bool) (count : Nat) : Bool := low ^^ decide (count % 2 = 1)

theorem wordSum_cons (byte : UInt8) (rest : List UInt8) :
    wordSum low (byte :: rest) = weight low * byte.toNat + wordSum (!low) rest := by
  cases low <;> simp [wordSum, weight]

theorem behind_succ (count : Nat) : behind low (count + 1) = behind (!low) count := by
  unfold behind
  rcases Nat.mod_two_eq_zero_or_one count with even | odd
  · rw [even, show (count + 1) % 2 = 1 by omega]
    cases low <;> rfl
  · rw [odd, show (count + 1) % 2 = 0 by omega]
    cases low <;> rfl

theorem wordSum_append (front back : List UInt8) :
    wordSum low (front ++ back) = wordSum low front + wordSum (behind low front.length) back := by
  induction front generalizing low with
  | nil => simp [wordSum, behind]
  | cons byte rest ih =>
    rw [List.cons_append, wordSum_cons, ih, wordSum_cons, List.length_cons, behind_succ]
    omega

/-- Bytes behind an even number of others. -/
theorem wordSum_append_even (front back : List UInt8) (even : front.length % 2 = 0) :
    wordSum false (front ++ back) = wordSum false front + wordSum false back := by
  rw [wordSum_append, behind, even]
  rfl

/-! ### Flipped bits -/

def flipBit (bytes : List UInt8) (i k : Nat) : List UInt8 :=
  bytes.modify i (· ^^^ UInt8.ofNat (2 ^ k))

@[simp] theorem length_flipBit (bytes : List UInt8) (i k : Nat) :
    (flipBit bytes i k).length = bytes.length := by
  simp [flipBit]

/-- Two numbers differ by a power of two below 65535. -/
def DifferByBit (n m : Nat) : Prop := ∃ k < 16, n = m + 2 ^ k ∨ m = n + 2 ^ k

theorem flip_toNat (byte : UInt8) (k : Nat) (small : k < 8) :
    (byte ^^^ UInt8.ofNat (2 ^ k)).toNat = byte.toNat + 2 ^ k ∨
      byte.toNat = (byte ^^^ UInt8.ofNat (2 ^ k)).toNat + 2 ^ k := by
  have all : ∀ n : Fin 256, ∀ k : Fin 8,
      (n.val ^^^ 2 ^ k.val) = n.val + 2 ^ k.val ∨ n.val = (n.val ^^^ 2 ^ k.val) + 2 ^ k.val := by
    decide +kernel
  have power : 2 ^ k < 2 ^ 8 := Nat.pow_lt_pow_right (by decide) small
  rw [UInt8.toNat_xor, UInt8.toNat_ofNat', Nat.mod_eq_of_lt power]
  exact all ⟨byte.toNat, byte.toNat_lt⟩ ⟨k, small⟩

/-- A flipped bit changes the sum by a power of two. -/
theorem wordSum_flipBit (bytes : List UInt8) (i k : Nat) (inside : i < bytes.length)
    (small : k < 8) : DifferByBit (wordSum low (flipBit bytes i k)) (wordSum low bytes) := by
  induction bytes generalizing low i with
  | nil => exact absurd inside (Nat.not_lt_zero i)
  | cons byte rest ih =>
    cases i with
    | zero =>
      rw [flipBit, List.modify_zero_cons, wordSum_cons, wordSum_cons]
      have changed := flip_toNat byte k small
      cases low with
      | false =>
        refine ⟨k + 8, by omega, ?_⟩
        have power : 2 ^ (k + 8) = 256 * 2 ^ k := by rw [Nat.pow_add, Nat.mul_comm]
        simp only [weight, Bool.false_eq_true, if_false, power]
        omega
      | true =>
        refine ⟨k, by omega, ?_⟩
        simp only [weight, if_true]
        omega
    | succ i =>
      obtain ⟨m, bound, changed⟩ := ih (!low) i (by simpa using inside)
      refine ⟨m, bound, ?_⟩
      unfold flipBit at changed ⊢
      rw [List.modify_succ_cons, wordSum_cons, wordSum_cons]
      omega

/-- A sum that differs by a power of two is not a multiple of 65535 as well. -/
theorem DifferByBit.not_dvd {n m : Nat} (differ : DifferByBit n m) (divides : 65535 ∣ m) :
    ¬ 65535 ∣ n := by
  obtain ⟨k, bound, changed⟩ := differ
  have positive : 0 < 2 ^ k := Nat.two_pow_pos k
  have power : 2 ^ k < 2 ^ 16 - 1 := by
    have := Nat.pow_le_pow_right (show 0 < 2 by decide) (show k ≤ 15 by omega)
    omega
  omega

end Inet.Lib
