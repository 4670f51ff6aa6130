import Mathlib.Data.BitVec

/-!
# Serial-number arithmetic

Numbers of `w` bits arranged on a circle of `2 ^ w` points. Two points are compared by
the forward distance between them, so an order is only meaningful inside an arc shorter
than half of the circle. The lemmas turn comparisons of points into comparisons of
their distances from a common origin, where plain natural-number arithmetic applies.
-/
namespace Inet.Lib.Serial

variable {w : Nat}
variable (s a b : BitVec w)

/-- The number of forward steps from `a` to `b`. -/
def fwd (a b : BitVec w) : Nat := (b - a).toNat

@[simp] theorem fwd_self : fwd a a = 0 := by
  simp [fwd]

theorem fwd_lt : fwd a b < 2 ^ w := (b - a).isLt

@[simp] theorem add_fwd : a + BitVec.ofNat w (fwd a b) = b := by
  simp only [fwd, BitVec.ofNat_toNat, BitVec.setWidth_eq]
  rw [BitVec.add_comm]
  exact BitVec.sub_add_cancel b a

theorem fwd_add (n : Nat) (small : n < 2 ^ w) :
    fwd a (a + BitVec.ofNat w n) = n := by
  have cancel : a + BitVec.ofNat w n - a = BitVec.ofNat w n := by
    rw [BitVec.add_comm, BitVec.add_sub_cancel]
  simp [fwd, cancel, Nat.mod_eq_of_lt small]

theorem fwd_inj : fwd s a = fwd s b ↔ a = b := by
  constructor
  · intro equal
    rw [← add_fwd s a, equal, add_fwd]
  · rintro rfl
    rfl

theorem fwd_eq_zero_iff : fwd a b = 0 ↔ a = b := by
  rw [← fwd_self a, fwd_inj, eq_comm]

theorem fwd_eq :
    fwd a b = (2 ^ w - fwd s a + fwd s b) % 2 ^ w := by
  have split : b - a = (b - s) - (a - s) := by
    rw [sub_sub_sub_cancel_right]
  simp only [fwd]
  rw [split, BitVec.toNat_sub]

/-- Distances from a common origin subtract, when the target is not before the source. -/
theorem fwd_of_le (le : fwd s a ≤ fwd s b) :
    fwd a b = fwd s b - fwd s a := by
  have bound := fwd_lt s b
  rw [fwd_eq s a b, show 2 ^ w - fwd s a + fwd s b = fwd s b - fwd s a + 2 ^ w by omega,
    Nat.add_mod_right, Nat.mod_eq_of_lt (by omega)]

/-- Going forward to a point that lies before the source takes the way round. -/
theorem fwd_of_lt (lt : fwd s b < fwd s a) :
    fwd a b = 2 ^ w - (fwd s a - fwd s b) := by
  have bound := fwd_lt s a
  rw [fwd_eq s a b, Nat.mod_eq_of_lt (by omega)]
  omega

theorem fwd_trans (c : BitVec w) (small : fwd a b + fwd b c < 2 ^ w) :
    fwd a c = fwd a b + fwd b c := by
  have path : c = a + BitVec.ofNat w (fwd a b + fwd b c) := by
    rw [BitVec.ofNat_add, ← BitVec.add_assoc, add_fwd, add_fwd]
  conv => lhs; rw [path]
  exact fwd_add a _ small

/-- Inside an arc of at most half of the circle, forward distance decides the order. -/
theorem fwd_lt_half_iff {s a b : BitVec w} {half : Nat} (fits : 2 * half ≤ 2 ^ w)
    (ha : fwd s a ≤ half) (hb : fwd s b < half) :
    fwd a b < half ↔ fwd s a ≤ fwd s b := by
  constructor
  · intro near
    by_contra before
    have around := fwd_of_lt s a b (by omega)
    omega
  · intro le
    have direct := fwd_of_le s a b le
    omega

/-- `s` lies on the arc from `a` up to, and without, `b`. -/
def Within (a b s : BitVec w) : Prop := fwd a s < fwd a b

instance (a b s : BitVec w) : Decidable (Within a b s) := inferInstanceAs (Decidable (_ < _))

/-- Seen from an origin before both ends, an arc is an interval of distances. -/
theorem within_iff (o a b s : BitVec w) (le : fwd o a ≤ fwd o b) :
    Within a b s ↔ fwd o a ≤ fwd o s ∧ fwd o s < fwd o b := by
  have ends := fwd_of_le o a b le
  have bound := fwd_lt o b
  rw [Within, ends]
  by_cases after : fwd o a ≤ fwd o s
  · have direct := fwd_of_le o a s after
    omega
  · have around := fwd_of_lt o a s (by omega)
    omega

end Inet.Lib.Serial
