import Mathlib.Data.List.Basic

/-!
# Tilings

Items with a start and a stop tile an interval when each one starts where the one before it
stops.
-/
namespace Inet.Lib

variable {α : Type} {start stop : α → Nat}

/-- Items that are not empty tile the offsets from one to another. -/
inductive Tiles (start stop : α → Nat) : Nat → List α → Nat → Prop
  | nil (offset : Nat) : Tiles start stop offset [] offset
  | cons {item : α} {rest : List α} {last : Nat} (nonempty : start item < stop item)
      (tiles : Tiles start stop (stop item) rest last) :
      Tiles start stop (start item) (item :: rest) last

namespace Tiles

variable {items others : List α} {first middle last : Nat}

theorem singleton {item : α} (nonempty : start item < stop item) :
    Tiles start stop (start item) [item] (stop item) :=
  cons nonempty (nil _)

theorem append (front : Tiles start stop first items middle)
    (back : Tiles start stop middle others last) :
    Tiles start stop first (items ++ others) last := by
  induction front with
  | nil offset => exact back
  | cons nonempty tiles ih => exact cons nonempty (ih back)

theorem le (tiles : Tiles start stop first items last) : first ≤ last := by
  induction tiles with
  | nil offset => exact Nat.le_refl _
  | cons nonempty tiles ih => omega

theorem inside (tiles : Tiles start stop first items last) :
    ∀ item ∈ items, first ≤ start item ∧ start item < stop item ∧ stop item ≤ last := by
  induction tiles with
  | nil offset => simp
  | @cons item rest last nonempty tiles ih =>
    have rest_le := tiles.le
    intro other member
    rcases List.mem_cons.mp member with rfl | later
    · exact ⟨Nat.le_refl _, nonempty, rest_le⟩
    · have := ih other later
      omega

/-- Every offset belongs to an item. -/
theorem cover (tiles : Tiles start stop first items last) {i : Nat} (started : first ≤ i)
    (inside : i < last) : ∃ item ∈ items, start item ≤ i ∧ i < stop item := by
  induction tiles with
  | nil offset => omega
  | @cons item rest last nonempty tiles ih =>
    by_cases here : i < stop item
    · exact ⟨item, List.mem_cons_self, started, here⟩
    · obtain ⟨other, member, covers⟩ := ih (by omega) inside
      exact ⟨other, List.mem_cons_of_mem _ member, covers⟩

/-- No offset belongs to two items. -/
theorem eq_of_overlap (tiles : Tiles start stop first items last) {item other : α}
    (member : item ∈ items) (other_member : other ∈ items) {i : Nat}
    (covers : start item ≤ i ∧ i < stop item) (other_covers : start other ≤ i ∧ i < stop other) :
    item = other := by
  induction tiles with
  | nil offset => cases member
  | cons nonempty tiles ih =>
    have later := tiles.inside
    rcases List.mem_cons.mp member with rfl | behind
    · rcases List.mem_cons.mp other_member with rfl | other_behind
      · rfl
      · have := later other other_behind
        omega
    · rcases List.mem_cons.mp other_member with rfl | other_behind
      · have := later item behind
        omega
      · exact ih behind other_behind

/-- Some of the items cover everything only if they are all of them. -/
theorem coverAll_iff (tiles : Tiles start stop first items last) {some : List α}
    (among : ∀ item ∈ some, item ∈ items) :
    (∀ i, first ≤ i → i < last → ∃ item ∈ some, start item ≤ i ∧ i < stop item) ↔
      ∀ item ∈ items, item ∈ some := by
  constructor
  · intro all item member
    have bounds := tiles.inside item member
    obtain ⟨other, arrived, covers⟩ := all (start item) bounds.1 (by omega)
    rw [tiles.eq_of_overlap member (among other arrived) ⟨Nat.le_refl _, bounds.2.1⟩ covers]
    exact arrived
  · intro all i started inside
    obtain ⟨item, member, covers⟩ := tiles.cover started inside
    exact ⟨item, all item member, covers⟩

end Tiles
end Inet.Lib
