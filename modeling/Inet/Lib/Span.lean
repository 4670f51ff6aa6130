import Mathlib

/-!
# Half-open spans

A span holds the positions from its start up to and without its stop. Removing one span
from another leaves at most two pieces.
-/
namespace Inet.Lib

structure Span (α : Type) where
  start : α
  stop : α
deriving DecidableEq, Repr

namespace Span

variable {α : Type} [LinearOrder α] {s t u : Span α} {p : α}

instance : Membership α (Span α) := ⟨fun s p => s.start ≤ p ∧ p < s.stop⟩

theorem mem_iff : p ∈ s ↔ s.start ≤ p ∧ p < s.stop := Iff.rfl

instance : Decidable (p ∈ s) := decidable_of_iff _ mem_iff.symm

/-- One span ends before the other starts. -/
def Apart (s t : Span α) : Prop := s.stop ≤ t.start ∨ t.stop ≤ s.start

instance : Decidable (Apart s t) := inferInstanceAs (Decidable (_ ∨ _))

theorem Apart.symm (apart : Apart s t) : Apart t s := Or.symm apart

theorem Apart.not_mem (apart : Apart s t) (inside : p ∈ s) : p ∉ t := by
  rw [mem_iff] at inside ⊢
  rcases apart with before | after
  · exact fun other => absurd (inside.2.trans_le before) (not_lt.mpr other.1)
  · exact fun other => absurd (other.2.trans_le after) (not_lt.mpr inside.1)

/-- Spans that hold a position are apart exactly if they share none. -/
theorem apart_iff_disjoint (s_pos : s.start < s.stop) (t_pos : t.start < t.stop) :
    Apart s t ↔ Disjoint (Set.Ico s.start s.stop) (Set.Ico t.start t.stop) := by
  rw [Set.Ico_disjoint_Ico, min_le_iff, le_max_iff, le_max_iff, Apart]
  grind

/-- `t` lies within `s`. -/
def Within (t s : Span α) : Prop := s.start ≤ t.start ∧ t.stop ≤ s.stop

theorem Within.refl (s : Span α) : Within s s := ⟨le_rfl, le_rfl⟩

theorem Within.trans (inner : Within u t) (outer : Within t s) : Within u s :=
  ⟨outer.1.trans inner.1, inner.2.trans outer.2⟩

theorem Within.mem (within : Within t s) (inside : p ∈ t) : p ∈ s :=
  ⟨within.1.trans inside.1, inside.2.trans_le within.2⟩

theorem Apart.mono_left (within : Within u s) (apart : Apart s t) : Apart u t :=
  apart.imp (fun h => within.2.trans h) (fun h => h.trans within.1)

theorem Apart.mono (left : Within u s) {v : Span α} (right : Within v t) (apart : Apart s t) :
    Apart u v :=
  ((apart.mono_left left).symm.mono_left right).symm

/-- The pieces of `s` before and behind `cut`, as far as they hold a position. -/
def outside (s cut : Span α) : List (Span α) :=
  (if s.start < s.stop ∧ s.start < cut.start then [⟨s.start, min s.stop cut.start⟩] else []) ++
    (if s.start < s.stop ∧ cut.stop < s.stop then [⟨max s.start cut.stop, s.stop⟩] else [])

variable {cut : Span α}

theorem mem_outside_iff :
    t ∈ s.outside cut ↔
      s.start < s.stop ∧
        ((s.start < cut.start ∧ t = ⟨s.start, min s.stop cut.start⟩) ∨
          (cut.stop < s.stop ∧ t = ⟨max s.start cut.stop, s.stop⟩)) := by
  simp only [outside, List.mem_append, List.mem_ite_nil_right, List.mem_singleton]
  tauto

theorem outside_pos (member : t ∈ s.outside cut) : t.start < t.stop := by
  obtain ⟨positive, ⟨before, rfl⟩ | ⟨behind, rfl⟩⟩ := mem_outside_iff.mp member
  · exact lt_min positive before
  · exact max_lt positive behind

theorem outside_within (member : t ∈ s.outside cut) : Within t s := by
  obtain ⟨positive, ⟨before, rfl⟩ | ⟨behind, rfl⟩⟩ := mem_outside_iff.mp member
  · exact ⟨le_rfl, min_le_left _ _⟩
  · exact ⟨le_max_left _ _, le_rfl⟩

theorem outside_apart (member : t ∈ s.outside cut) : Apart t cut := by
  obtain ⟨positive, ⟨before, rfl⟩ | ⟨behind, rfl⟩⟩ := mem_outside_iff.mp member
  · exact .inl (min_le_right _ _)
  · exact .inr (le_max_right _ _)

/-- The pieces hold the positions of `s` that `cut` does not hold. -/
theorem mem_of_outside : (∃ t ∈ s.outside cut, p ∈ t) ↔ p ∈ s ∧ p ∉ cut := by
  constructor
  · rintro ⟨t, member, inside⟩
    exact ⟨(outside_within member).mem inside, (outside_apart member).not_mem inside⟩
  · rintro ⟨inside, out⟩
    have positive : s.start < s.stop := inside.1.trans_lt inside.2
    rcases lt_or_ge p cut.start with before | behind
    · exact ⟨_, mem_outside_iff.mpr ⟨positive, .inl ⟨inside.1.trans_lt before, rfl⟩⟩,
        inside.1, lt_min inside.2 before⟩
    · have stopped : cut.stop ≤ p := not_lt.mp fun h => out ⟨behind, h⟩
      exact ⟨_, mem_outside_iff.mpr ⟨positive, .inr ⟨stopped.trans_lt inside.2, rfl⟩⟩,
        max_le inside.1 stopped, inside.2⟩

theorem outside_pairwise (s : Span α) (forward : cut.start ≤ cut.stop) :
    (s.outside cut).Pairwise Apart := by
  have ordered : Apart ⟨s.start, min s.stop cut.start⟩ ⟨max s.start cut.stop, s.stop⟩ :=
    .inl ((min_le_right _ _).trans (forward.trans (le_max_right _ _)))
  unfold outside
  refine List.pairwise_append.mpr ⟨by split <;> simp, by split <;> simp, ?_⟩
  intro first before second behind
  simp only [List.mem_ite_nil_right, List.mem_singleton] at before behind
  rw [before.2, behind.2]
  exact ordered

/-- A span apart from the cut stays in one piece. -/
theorem outside_of_apart (apart : Apart s cut) (positive : s.start < s.stop)
    (forward : cut.start ≤ cut.stop) : s.outside cut = [s] := by
  rcases apart with before | behind
  · have starts : s.start < cut.start := positive.trans_le before
    have stops : ¬cut.stop < s.stop := not_lt.mpr (before.trans forward)
    simp [outside, positive, starts, stops, min_eq_left before]
  · have starts : ¬s.start < cut.start := not_lt.mpr (forward.trans behind)
    have stops : cut.stop < s.stop := behind.trans_lt positive
    simp [outside, positive, starts, stops, max_eq_left behind]

end Span
end Inet.Lib
