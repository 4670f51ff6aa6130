import Mathlib.Data.List.Basic

/-!
# Parts of lists

`part xs offset length` is the contiguous part of a list that starts at an offset.
-/
namespace Inet.Lib

variable {α β : Type}
variable (xs ys : List α) (offset length : Nat)

def part (xs : List α) (offset length : Nat) : List α := (xs.drop offset).take length

theorem length_part (inside : offset + length ≤ xs.length) :
    (part xs offset length).length = length := by
  simp only [part, List.length_take, List.length_drop]
  omega

@[simp] theorem part_zero_length : part xs offset 0 = [] := by
  simp [part]

theorem part_all : part xs 0 xs.length = xs := by simp [part]

theorem part_of_length (whole : length = xs.length) :
    part xs 0 length = xs := by rw [whole, part_all]

theorem part_zero_eq_take : part xs 0 length = xs.take length := rfl

theorem part_to_end (reaches : xs.length ≤ offset + length) :
    part xs offset length = xs.drop offset := by
  apply List.take_of_length_le
  rw [List.length_drop]
  omega

/-- A part of a part is a part of the whole. -/
theorem part_part (offset' length' : Nat) (inside : offset' + length' ≤ length) :
    part (part xs offset length) offset' length' = part xs (offset + offset') length' := by
  simp only [part, List.drop_take, List.drop_drop, List.take_take]
  rw [Nat.min_eq_left (by omega)]

theorem part_append_part (length' : Nat) :
    part xs offset length ++ part xs (offset + length) length' =
      part xs offset (length + length') := by
  simp only [part, List.take_add, List.drop_drop]

theorem part_append_left (inside : offset + length ≤ xs.length) :
    part (xs ++ ys) offset length = part xs offset length := by
  simp only [part]
  rw [List.drop_append_of_le_length (by omega), List.take_append_of_le_length]
  rw [List.length_drop]
  omega

theorem part_append_right (behind : xs.length ≤ offset) :
    part (xs ++ ys) offset length = part ys (offset - xs.length) length := by
  simp only [part, List.drop_append, List.drop_of_length_le behind, List.nil_append]

/-- A part across the border is the end of one list and the beginning of the other. -/
theorem part_append_across (starts : offset ≤ xs.length) (stops : xs.length ≤ offset + length) :
    part (xs ++ ys) offset length =
      part xs offset (xs.length - offset) ++ part ys 0 (offset + length - xs.length) := by
  have split := part_append_part (xs ++ ys) offset (xs.length - offset)
    (offset + length - xs.length)
  rw [show xs.length - offset + (offset + length - xs.length) = length by omega,
    show offset + (xs.length - offset) = xs.length by omega,
    part_append_left xs ys offset _ (by omega), part_append_right xs ys _ _ (Nat.le_refl _),
    Nat.sub_self] at split
  exact split.symm

end Inet.Lib
