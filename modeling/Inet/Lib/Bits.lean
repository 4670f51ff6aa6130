import Mathlib.Data.Nat.Bitwise

/-! Numbers as lists of bits, the most significant one first. -/
namespace Inet.Lib

variable (width value : Nat)

/-- The bits of a number in a width. -/
def bitsOf (width value : Nat) : List Bool :=
  (List.range width).map fun i => value.testBit (width - 1 - i)

@[simp] theorem length_bitsOf : (bitsOf width value).length = width := by
  simp [bitsOf]

@[simp] theorem bitsOf_zero_width : bitsOf 0 value = [] := rfl

theorem getElem?_bitsOf {width i : Nat} (inside : i < width) :
    (bitsOf width value)[i]? = some (value.testBit (width - 1 - i)) := by
  rw [bitsOf, List.getElem?_map, List.getElem?_range inside]
  rfl

theorem bitsOf_add (front back value : Nat) :
    bitsOf (front + back) value = bitsOf front (value >>> back) ++ bitsOf back value := by
  apply List.ext_getElem? fun i => ?_
  by_cases early : i < front
  · rw [List.getElem?_append_left (by simpa using early), getElem?_bitsOf _ (by omega),
      getElem?_bitsOf _ early, Nat.testBit_shiftRight]
    congr 2
    omega
  · rw [List.getElem?_append_right (by simpa using early), length_bitsOf]
    by_cases late : i < front + back
    · rw [getElem?_bitsOf _ late, getElem?_bitsOf _ (by omega)]
      congr 2
      omega
    · rw [List.getElem?_eq_none (by simpa using late),
        List.getElem?_eq_none (by rw [length_bitsOf]; omega)]

theorem bitsOf_succ :
    bitsOf (width + 1) value = value.testBit width :: bitsOf width value := by
  rw [Nat.add_comm, bitsOf_add]
  simp [bitsOf]

/-- Only the low bits count. -/
theorem bitsOf_mod : bitsOf width (value % 2 ^ width) = bitsOf width value := by
  apply List.map_congr_left
  intro i member
  have inside := List.mem_range.mp member
  rw [Nat.testBit_mod_two_pow, decide_eq_true (by omega), Bool.true_and]

theorem bitsOf_inj {width value value' : Nat} :
    bitsOf width value = bitsOf width value' ↔ value % 2 ^ width = value' % 2 ^ width := by
  constructor
  · intro same
    apply Nat.eq_of_testBit_eq
    intro i
    rw [Nat.testBit_mod_two_pow, Nat.testBit_mod_two_pow]
    by_cases inside : i < width
    · have here := congrArg (·[width - 1 - i]?) same
      simp only [getElem?_bitsOf _ (show width - 1 - i < width by omega)] at here
      rw [Option.some.injEq, show width - 1 - (width - 1 - i) = i by omega] at here
      rw [here]
    · rw [decide_eq_false inside, Bool.false_and, Bool.false_and]
  · intro same
    rw [← bitsOf_mod, same, bitsOf_mod]

/-- A digit is added below the digits so far. -/
theorem or_shift_digit (high width digit : Nat) (small : digit < 2 ^ width) :
    high * 2 ^ width ||| digit = high * 2 ^ width + digit := by
  rw [← Nat.shiftLeft_eq, ← Nat.shiftLeft_add_eq_or_of_lt small]

theorem mod_two_pow_add (front back value : Nat) :
    value % 2 ^ (front + back) = (value >>> back % 2 ^ front) * 2 ^ back + value % 2 ^ back := by
  rw [Nat.shiftRight_eq_div_pow, Nat.pow_add, Nat.mul_comm (2 ^ front), Nat.mod_mul,
    Nat.mul_comm (2 ^ back)]
  exact Nat.add_comm _ _

end Inet.Lib
