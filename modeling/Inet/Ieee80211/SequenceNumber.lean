import Mathlib.Data.Int.Basic

/-!
# Sequence numbers of frames

Sequence numbers wrap at 4096. MSDUs have numbers that do not.
-/
namespace Inet.Ieee80211

variable (n : Int)

abbrev SequenceNumber := BitVec 12

namespace SequenceNumber

/-- `operator<`. -/
def less (a b : SequenceNumber) : Bool :=
  let d := (b - a).toNat
  decide (0 < d) && decide (d < 2048)

def lessOrEqual (a b : SequenceNumber) : Bool := a == b || less a b

end SequenceNumber

open SequenceNumber

/-- The sequence number of an MSDU. -/
def seqOf (i : Int) : SequenceNumber := BitVec.ofInt 12 i

variable {i j : Int}

theorem toNat_seqOf_sub : ((seqOf j - seqOf i).toNat : Int) = (j - i) % 4096 := by
  simp only [seqOf, BitVec.toNat_sub, BitVec.toNat_ofInt]
  omega

theorem seqOf_add (n : Nat) : seqOf i + BitVec.ofNat 12 n = seqOf (i + n) := by
  apply BitVec.eq_of_toNat_eq
  simp only [seqOf, BitVec.toNat_add, BitVec.toNat_ofInt, BitVec.toNat_ofNat]
  omega

theorem seqOf_inj : seqOf i = seqOf j ↔ (j - i) % 4096 = 0 := by
  rw [← BitVec.toNat_inj]
  simp only [seqOf, BitVec.toNat_ofInt]
  omega

/-- Sequence numbers of MSDUs that are close compare as the MSDUs do. -/
theorem less_seqOf (below : i < j + 2048) (above : j < i + 2048) :
    less (seqOf i) (seqOf j) = decide (i < j) := by
  have distance := toNat_seqOf_sub (i := i) (j := j)
  rw [less, Bool.eq_iff_iff]
  simp only [Bool.and_eq_true, decide_eq_true_eq]
  omega

/-- Far away the comparison is the other way round. -/
theorem less_seqOf_far (far : i + 2048 < j) (near : j < i + 4096) :
    less (seqOf j) (seqOf i) = true := by
  have distance := toNat_seqOf_sub (i := j) (j := i)
  simp only [less, Bool.and_eq_true, decide_eq_true_eq]
  omega

/-- The MSDU is at most half of the sequence space away from another one. Each sequence number is that
of one such MSDU. -/
def InReach (n i : Int) : Prop := i < n + 2048 ∧ n ≤ i + 2048

/-- The MSDU with a sequence number that is in reach of another one. -/
def nearest (n : Int) (s : SequenceNumber) : Int :=
  if ((s - seqOf n).toNat : Int) < 2048 then n + (s - seqOf n).toNat
  else n + (s - seqOf n).toNat - 4096

variable (s : SequenceNumber)

theorem nearest_eq :
    (((s - seqOf n).toNat : Int) < 2048 ∧ nearest n s = n + (s - seqOf n).toNat) ∨
      (2048 ≤ ((s - seqOf n).toNat : Int) ∧ nearest n s = n + (s - seqOf n).toNat - 4096) := by
  by_cases ahead : ((s - seqOf n).toNat : Int) < 2048
  · left
    constructor
    · exact ahead
    · exact if_pos ahead
  · right
    exact ⟨Int.not_lt.mp ahead, if_neg ahead⟩

theorem nearest_inReach : InReach n (nearest n s) := by
  have := (s - seqOf n).isLt
  rw [InReach]
  rcases nearest_eq n s with ⟨_, eq⟩ | ⟨_, eq⟩ <;> omega

theorem nearest_seqOf {n : Int} (reach : InReach n i) : nearest n (seqOf i) = i := by
  have distance := toNat_seqOf_sub (i := n) (j := i)
  obtain ⟨below, above⟩ := reach
  rcases nearest_eq n (seqOf i) with ⟨_, eq⟩ | ⟨_, eq⟩ <;> omega

theorem seqOf_nearest : seqOf (nearest n s) = s := by
  obtain ⟨i, rfl⟩ : ∃ i, s = seqOf i := ⟨s.toNat, by simp [seqOf]⟩
  have distance := toNat_seqOf_sub (i := n) (j := i)
  rw [seqOf_inj]
  rcases nearest_eq n (seqOf i) with ⟨_, eq⟩ | ⟨_, eq⟩ <;> omega

theorem lessOrEqual_seqOf {n : Int} (reach : InReach n i) :
    lessOrEqual (seqOf n) (seqOf i) = decide (n ≤ i) := by
  have distance := toNat_seqOf_sub (i := n) (j := i)
  obtain ⟨below, above⟩ := reach
  rw [lessOrEqual, less, Bool.eq_iff_iff]
  simp only [Bool.or_eq_true, beq_iff_eq, seqOf_inj, Bool.and_eq_true, decide_eq_true_eq]
  omega

attribute [irreducible] nearest

end Inet.Ieee80211
