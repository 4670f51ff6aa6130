import Mathlib.Data.List.MinMax

/-!
# One timer for many due times

Of a family of members each of which may be due at some time, one timer is set for the earliest. It
stays right when a member is no longer due, as long as another one is due no later.
-/
namespace Inet.Lib

variable {ι : Type}

/-- If a member is due, the timer is set for the earliest time at which one is, and that time is not
in the past. -/
def Earliest (due : ι → Option ℕ) (timer : Option ℕ) (now : ℕ) : Prop :=
  ∀ i t, due i = some t →
    ∃ first, timer = some first ∧ now ≤ first ∧ first ≤ t ∧ ∃ j, due j = some first

/-- A member is not alone with the earliest time at which one is due. -/
def Spared (due : ι → Option ℕ) (i : ι) : Prop :=
  ∀ t, due i = some t →
    (∀ j, j ≠ i → due j = none) ∨ ∃ j, j ≠ i ∧ ∃ t', due j = some t' ∧ t' ≤ t

namespace Earliest
variable {due : ι → Option ℕ} {timer : Option ℕ} {now : ℕ}

theorem future (earliest : Earliest due timer now) {i : ι} {t : ℕ} (some : due i = some t) :
    now ≤ t := by
  obtain ⟨first, _, future, le, _⟩ := earliest i t some
  omega

/-- Time passes, but not beyond the timer. -/
theorem later {time : ℕ} (earliest : Earliest due timer now)
    (before : ∀ first, timer = some first → time ≤ first) : Earliest due timer time := by
  intro i t some
  obtain ⟨first, scheduled, _, le, member⟩ := earliest i t some
  exact ⟨first, scheduled, before first scheduled, le, member⟩

theorem congr {due' : ι → Option ℕ} (earliest : Earliest due timer now)
    (same : ∀ i, due' i = due i) : Earliest due' timer now := by
  rwa [funext same]

/-- A member that leaves is no longer due. -/
theorem leave {due' : ι → Option ℕ} {i : ι} (earliest : Earliest due timer now)
    (spared : Spared due i) (left : due' i = none) (others : ∀ j, j ≠ i → due' j = due j) :
    Earliest due' timer now := by
  intro j t some
  have differ : j ≠ i := by
    rintro rfl
    simp [left] at some
  rw [others j differ] at some
  obtain ⟨first, scheduled, future, le, k, member⟩ := earliest j t some
  refine ⟨first, scheduled, future, le, ?_⟩
  by_cases same : k = i
  · -- The member that leaves was due first.
    rw [same] at member
    rcases spared first member with alone | ⟨k', differ', t', member', le'⟩
    · simp [alone j differ] at some
    · obtain ⟨_, scheduled', _, le'', _⟩ := earliest k' t' member'
      obtain rfl : t' = first := by
        rw [scheduled] at scheduled'
        cases scheduled'
        omega
      exact ⟨k', (others k' differ').trans member'⟩
  · exact ⟨k, (others k same).trans member⟩

/-- The timer is set for the first member of a list that is due no later than any other. -/
theorem of_argmin {l : List ι} {time : ι → ℕ} (listed : ∀ i t, due i = some t → i ∈ l ∧ time i = t)
    (member : ∀ i, i ∈ l → due i = some (time i)) (future : ∀ i t, due i = some t → now ≤ t) :
    Earliest due ((l.argmin time).map time) now := by
  intro i t some
  obtain ⟨inside, rfl⟩ := listed i t some
  cases found : l.argmin time with
  | none =>
    rw [List.argmin_eq_none.mp found] at inside
    cases inside
  | some j =>
    have first := member j (List.argmin_mem found)
    exact ⟨time j, rfl, future j _ first, List.le_of_mem_argmin inside found, j, first⟩

end Earliest

end Inet.Lib
