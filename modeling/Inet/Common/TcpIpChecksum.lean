import Inet.Lib.OnesComplement

/-!
# The checksum of TCP and IP

Sums are 32 bits wide.
-/
namespace Inet.TcpIpChecksum

open Lib

variable {total : Nat}

/-- Adding one byte to the sum, and the carry that is in its upper half when it gets large. -/
def addByte (sum : Nat) (low : Bool) (byte : UInt8) : Nat :=
  let sum := (sum + if low then byte.toNat else byte.toNat <<< 8) % 2 ^ 32
  -- `sum & 0x80000000`
  if sum.testBit 31 then (sum % 65536 + sum / 65536) % 2 ^ 32 else sum

def addBytes : Nat → Bool → List UInt8 → Nat
  | sum, _, [] => sum
  | sum, low, byte :: rest => addBytes (addByte sum low byte) (!low) rest

/-- `while (sum >> 16)`. -/
def foldCarry (sum : Nat) : Nat :=
  if 65536 ≤ sum then foldCarry (sum % 65536 + sum / 65536) else sum
termination_by sum
decreasing_by omega

/-- The checksum without the final complement. -/
def sum (vec : List UInt8) : UInt16 := UInt16.ofNat (foldCarry (addBytes 0 false vec))

def checksum (vec : List UInt8) : UInt16 := ~~~ sum vec

/-! ### What the sum stands for -/

/-- A sum that stands for a number modulo 65535, and for 0 only if it is 0. -/
structure Stands (sum total : Nat) : Prop where
  same : sum % 65535 = total % 65535
  zero : sum = 0 ↔ total = 0

theorem carry_stands {sum : Nat} (stands : Stands sum total) :
    Stands (sum % 65536 + sum / 65536) total := by
  obtain ⟨same, zero⟩ := stands
  constructor
  · omega
  · omega

theorem addByte_stands {sum : Nat} (stands : Stands sum total) (small : sum < 2 ^ 31)
    (low : Bool) (byte : UInt8) :
    Stands (addByte sum low byte) (total + weight low * byte.toNat) ∧
      addByte sum low byte < 2 ^ 31 := by
  have bound := byte.toNat_lt
  have shifted : (if low then byte.toNat else byte.toNat <<< 8) = weight low * byte.toNat := by
    cases low with
    | true => simp [weight]
    | false => simp [weight, Nat.shiftLeft_eq, Nat.mul_comm]
  have word : weight low * byte.toNat < 65536 := by
    cases low <;> simp only [weight, Bool.false_eq_true, if_false, if_true] <;> omega
  have added : Stands (sum + weight low * byte.toNat) (total + weight low * byte.toNat) := by
    obtain ⟨same, zero⟩ := stands
    constructor <;> omega
  have fits : (sum + weight low * byte.toNat) % 2 ^ 32 = sum + weight low * byte.toNat :=
    Nat.mod_eq_of_lt (by omega)
  unfold addByte
  simp only [shifted, fits]
  generalize sum + weight low * byte.toNat = next at *
  split
  next high =>
    rw [Nat.mod_eq_of_lt (by omega)]
    exact ⟨carry_stands added, by omega⟩
  next low =>
    rw [Nat.testBit_eq_decide_div_mod_eq, decide_eq_true_eq] at low
    exact ⟨added, by omega⟩

theorem addBytes_stands {sum : Nat} (stands : Stands sum total) (small : sum < 2 ^ 31)
    (low : Bool) (vec : List UInt8) :
    Stands (addBytes sum low vec) (total + wordSum low vec) := by
  induction vec generalizing sum total low with
  | nil => exact stands
  | cons byte rest ih =>
    obtain ⟨next, bound⟩ := addByte_stands stands small low byte
    rw [addBytes, wordSum_cons, ← Nat.add_assoc]
    exact ih next bound (!low)

theorem foldCarry_stands {sum : Nat} (stands : Stands sum total) :
    Stands (foldCarry sum) total ∧ foldCarry sum < 65536 := by
  fun_induction foldCarry sum with
  | case1 sum large ih => exact ih (carry_stands stands)
  | case2 sum small => exact ⟨stands, by omega⟩

/-- The sum of some bytes is their one's complement sum. -/
theorem sum_stands (vec : List UInt8) : Stands (sum vec).toNat (wordSum false vec) := by
  have start : Stands 0 0 := ⟨rfl, Iff.rfl⟩
  obtain ⟨stands, bound⟩ := foldCarry_stands (addBytes_stands start (by decide) false vec)
  rw [sum, UInt16.toNat_ofNat', Nat.mod_eq_of_lt bound]
  simpa using stands

theorem toNat_checksum (vec : List UInt8) : (checksum vec).toNat = 65535 - (sum vec).toNat := by
  rw [checksum, UInt16.toNat_not]
  rfl

end Inet.TcpIpChecksum

