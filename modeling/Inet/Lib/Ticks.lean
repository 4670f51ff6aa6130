import Mathlib

/-!
# Ticks

How many ticks of a length `L` there are in an interval that begins `d` after a tick, and where that
number grows.
-/
namespace Inet.Lib

variable {K : Type} [Field K] [LinearOrder K] [IsStrictOrderedRing K]
variable {n : ℤ}

/-- From some time on until `t`, the value of `f` is less than at `t` by `δ`. -/
def StepsUpAt (f : K → K) (δ a t : K) : Prop :=
  ∃ ε > 0, ∀ u, a ≤ u → t - ε < u → u < t → f u + δ = f t

theorem StepsUpAt.unique {f : K → K} {δ δ' a t : K} (later : a < t) (up : StepsUpAt f δ a t)
    (up' : StepsUpAt f δ' a t) : δ = δ' := by
  obtain ⟨ε, positive, near⟩ := up
  obtain ⟨ε', positive', near'⟩ := up'
  have before : max a (max (t - ε) (t - ε')) < t :=
    max_lt later (max_lt (by linarith) (by linarith))
  obtain ⟨u, after, before⟩ := exists_between before
  obtain ⟨from_, after⟩ := max_lt_iff.mp after
  obtain ⟨inside, inside'⟩ := max_lt_iff.mp after
  exact add_left_cancel ((near u from_.le inside before).trans (near' u from_.le inside' before).symm)

/-- A value that follows another one, shifted and scaled, steps up with it. -/
theorem StepsUpAt.comp {f : K → K} {δ a t : K} (up : StepsUpAt f δ 0 (t - a)) (m c : K) :
    StepsUpAt (fun u => (c + f (u - a)) * m) (δ * m) a t := by
  obtain ⟨ε, positive, near⟩ := up
  refine ⟨ε, positive, fun u from_ inside before => ?_⟩
  have same := near (u - a) (by linarith) (by linarith) (by linarith)
  beta_reduce
  rw [← same]
  ring

variable [FloorRing K]

/-- The ticks in an interval of length `x`. -/
def ticks (L d x : K) : ℤ :=
  ⌊(x + d) / L⌋

variable {L d x : K}

theorem ticks_mono (positive : 0 < L) : Monotone (ticks L d) := fun _ _ le =>
  Int.floor_le_floor (div_le_div_of_nonneg_right (by linarith) positive.le)

theorem ticks_zero (positive : 0 < L) (nonneg : 0 ≤ d) (less : d < L) : ticks L d 0 = 0 := by
  rw [ticks, zero_add, Int.floor_eq_zero_iff]
  exact ⟨div_nonneg nonneg positive.le, (div_lt_one positive).mpr less⟩

theorem le_ticks_iff (positive : 0 < L) : n ≤ ticks L d x ↔ n * L - d ≤ x := by
  rw [ticks, Int.le_floor, le_div_iff₀ positive]
  exact ⟨fun le => by linarith, fun le => by linarith⟩

theorem ticks_lt_iff (positive : 0 < L) : ticks L d x < n ↔ x < n * L - d := by
  rw [← not_le, le_ticks_iff positive, not_le]

/-- The first time with `n` ticks. -/
theorem ticks_first (positive : 0 < L) (n : ℤ) : ticks L d (n * L - d) = n := by
  rw [ticks, sub_add_cancel, mul_div_cancel_right₀ _ positive.ne', Int.floor_intCast]

/-- At a whole number of tick lengths there is one more tick. -/
theorem ticks_stepsUpAt (positive : 0 < L) (whole : x + d = n * L) :
    StepsUpAt (fun u => (ticks L d u : K)) 1 0 x := by
  refine ⟨L, positive, fun u _ inside before => ?_⟩
  obtain rfl : x = n * L - d := by linarith
  have below : ticks L d u < n := (ticks_lt_iff positive).mpr before
  have above : n - 1 ≤ ticks L d u := by
    rw [le_ticks_iff positive]
    push_cast
    linarith
  have same : ticks L d u + 1 = n := by omega
  beta_reduce
  rw [ticks_first positive, ← same]
  push_cast
  rfl

/-- Elsewhere there is not. -/
theorem ticks_steadyAt (positive : 0 < L) (apart : ∀ n : ℤ, x + d ≠ n * L) :
    StepsUpAt (fun u => (ticks L d u : K)) 0 0 x := by
  have less : ticks L d x * L - d < x :=
    lt_of_le_of_ne ((le_ticks_iff positive).mp (le_refl _)) fun same =>
      apart (ticks L d x) (sub_eq_iff_eq_add.mp same).symm
  refine ⟨x - (ticks L d x * L - d), by linarith, fun u _ inside before => ?_⟩
  have above : ticks L d x ≤ ticks L d u := (le_ticks_iff positive).mpr (by linarith)
  have below : ticks L d u ≤ ticks L d x := ticks_mono positive before.le
  beta_reduce
  rw [le_antisymm below above, add_zero]

end Inet.Lib
