import Inet.Lib.Span

/-!
# Separated spans

Spans in ascending order with a gap between each two of them hold a set of positions. Positions are
put in and taken out one at a time, and the positions below a bound are taken out at once.
-/
namespace Inet.Lib

namespace SpanList

/-- The spans are not empty, and each ends before the next one starts. -/
structure Spaced (spans : List (Span Nat)) : Prop where
  positive : ∀ s ∈ spans, s.start < s.stop
  apart : spans.Pairwise fun s t => s.stop < t.start

/-- The position is in one of the spans. -/
def Holds (spans : List (Span Nat)) (n : Nat) : Prop := ∃ s ∈ spans, n ∈ s

instance (spans : List (Span Nat)) (n : Nat) : Decidable (Holds spans n) :=
  inferInstanceAs (Decidable (∃ s ∈ spans, n ∈ s))

variable {spans before rest : List (Span Nat)} {s t : Span Nat} {n k : Nat}

@[simp] theorem holds_nil : ¬ Holds [] n := by
  rintro ⟨s, member, _⟩
  cases member

@[simp] theorem holds_cons : Holds (s :: spans) n ↔ (s.start ≤ n ∧ n < s.stop) ∨ Holds spans n := by
  constructor
  · rintro ⟨t, member, inside⟩
    rcases List.mem_cons.mp member with rfl | later
    · exact .inl inside
    · exact .inr ⟨t, later, inside⟩
  · rintro (inside | ⟨t, later, inside⟩)
    · exact ⟨s, List.mem_cons_self, inside⟩
    · exact ⟨t, List.mem_cons_of_mem _ later, inside⟩

@[simp] theorem holds_append : Holds (before ++ rest) n ↔ Holds before n ∨ Holds rest n := by
  induction before with
  | nil => simp
  | cons s before ih => simp [ih, or_assoc]

theorem spaced_nil : Spaced [] := ⟨nofun, .nil⟩

theorem spaced_cons : Spaced (s :: spans) ↔
    s.start < s.stop ∧ (∀ t ∈ spans, s.stop < t.start) ∧ Spaced spans := by
  constructor
  · rintro ⟨positive, apart⟩
    obtain ⟨first, apart⟩ := List.pairwise_cons.mp apart
    exact ⟨positive s List.mem_cons_self, first, fun t member => positive t (.tail _ member), apart⟩
  · rintro ⟨positive, first, spaced⟩
    refine ⟨?_, .cons first spaced.apart⟩
    intro t member
    rcases List.mem_cons.mp member with rfl | later
    · exact positive
    · exact spaced.positive t later

/-- What is behind a span is behind all positions of it. -/
theorem above (spaced : Spaced (s :: spans)) (held : Holds spans n) : s.stop < n := by
  obtain ⟨t, member, inside, _⟩ := held
  exact ((spaced_cons.mp spaced).2.1 t member).trans_le inside

/-- What is before a span is below all positions of it. -/
theorem not_holds_before (spaced : Spaced (before ++ s :: rest)) (inside : s.start ≤ n) :
    ¬ Holds before n := by
  rintro ⟨t, member, _, below⟩
  have apart := (List.pairwise_append.mp spaced.apart).2.2 t member s List.mem_cons_self
  omega

/-- One of two spans is before the other one. -/
theorem ordered (spaced : Spaced spans) (member : s ∈ spans) (other : t ∈ spans) :
    s = t ∨ s.stop < t.start ∨ t.stop < s.start := by
  obtain ⟨i, iInside, rfl⟩ := List.mem_iff_getElem.mp member
  obtain ⟨j, jInside, rfl⟩ := List.mem_iff_getElem.mp other
  have apart := List.pairwise_iff_getElem.mp spaced.apart
  rcases Nat.lt_trichotomy i j with lt | rfl | gt
  · exact .inr (.inl (apart i j iInside jInside lt))
  · exact .inl rfl
  · exact .inr (.inr (apart j i jInside iInside gt))

/-- There is a gap before each span. -/
theorem not_holds_pred (spaced : Spaced spans) (member : s ∈ spans) (positive : 0 < s.start) :
    ¬ Holds spans (s.start - 1) := by
  rintro ⟨t, other, starts, stops⟩
  have nonempty := spaced.positive s member
  rcases ordered spaced member other with rfl | before | behind
  · omega
  · omega
  · omega

/-- Positions are in the first spans or in the others, but not in both. -/
theorem holds_take_iff (spaced : Spaced spans) (count : Nat) :
    Holds (spans.take count) n ↔ Holds spans n ∧ ¬ Holds (spans.drop count) n := by
  have split := List.take_append_drop count spans
  constructor
  · intro held
    refine ⟨by rw [← split]; exact holds_append.mpr (.inl held), ?_⟩
    rintro ⟨s, member, starts, _⟩
    obtain ⟨before, rest, behind⟩ := List.append_of_mem member
    rw [behind, ← List.append_assoc] at split
    rw [← split] at spaced
    exact not_holds_before spaced starts (holds_append.mpr (.inl held))
  · rintro ⟨held, outside⟩
    rw [← split] at held
    exact (holds_append.mp held).resolve_right outside

theorem spaced_take (spaced : Spaced spans) (count : Nat) :
    Spaced (spans.take count) :=
  ⟨fun s member => spaced.positive s (List.mem_of_mem_take member),
    spaced.apart.sublist (List.take_sublist _ _)⟩

/-! ### Putting a position in -/

/-- The span gets longer by a position, and takes in the next span if that closes the gap. -/
def extend (s : Span Nat) (n : Nat) : List (Span Nat) → List (Span Nat)
  | [] => [⟨s.start, n + 1⟩]
  | t :: others =>
    if n + 1 = t.start then ⟨s.start, t.stop⟩ :: others else ⟨s.start, n + 1⟩ :: t :: others

/-- The position starts a span, makes one longer, closes a gap, or is there already. -/
def insert (n : Nat) : List (Span Nat) → List (Span Nat)
  | [] => [⟨n, n + 1⟩]
  | s :: rest =>
    if n + 1 < s.start then ⟨n, n + 1⟩ :: s :: rest
    else if n + 1 = s.start then ⟨n, s.stop⟩ :: rest
    else if n < s.stop then s :: rest
    else if n = s.stop then extend s n rest
    else s :: insert n rest

theorem holds_insert (spaced : Spaced spans) :
    Holds (insert n spans) k ↔ k = n ∨ Holds spans k := by
  induction spans with
  | nil =>
    simp only [insert, holds_cons, holds_nil, or_false]
    omega
  | cons s rest ih =>
    obtain ⟨positive, first, later⟩ := spaced_cons.mp spaced
    rw [insert]
    split
    · rw [holds_cons]
      apply or_congr_left
      simp only
      omega
    split
    · simp only [holds_cons, ← or_assoc]
      apply or_congr_left
      omega
    split
    · constructor
      · exact .inr
      · rintro (rfl | held)
        · exact holds_cons.mpr (.inl ⟨by omega, by omega⟩)
        · exact held
    split
    · cases rest with
      | nil =>
        simp only [extend, holds_cons, holds_nil, or_false]
        omega
      | cons t others =>
        have behind := first t List.mem_cons_self
        have nonempty := later.positive t List.mem_cons_self
        rw [extend]
        split
        · simp only [holds_cons, ← or_assoc]
          apply or_congr_left
          omega
        · simp only [holds_cons, ← or_assoc]
          apply or_congr_left
          omega
    · simp only [holds_cons, ih later]
      tauto

theorem spaced_insert (spaced : Spaced spans) : Spaced (insert n spans) := by
  induction spans with
  | nil => exact ⟨by simp [insert], by simp [insert]⟩
  | cons s rest ih =>
    obtain ⟨positive, first, later⟩ := spaced_cons.mp spaced
    rw [insert]
    split
    · refine spaced_cons.mpr ⟨Nat.lt_succ_self n, ?_, spaced⟩
      intro t member
      rcases List.mem_cons.mp member with rfl | behind
      · assumption
      · have := first t behind
        simp only
        omega
    split
    · exact spaced_cons.mpr ⟨by simp only; omega, first, later⟩
    split
    · exact spaced
    split
    · cases rest with
      | nil => exact spaced_cons.mpr ⟨by simp only; omega, nofun, spaced_nil⟩
      | cons t others =>
        obtain ⟨nonempty, second, others⟩ := spaced_cons.mp later
        have behind := first t List.mem_cons_self
        rw [extend]
        split
        · exact spaced_cons.mpr ⟨by simp only; omega, second, others⟩
        · refine spaced_cons.mpr ⟨by simp only; omega, ?_, later⟩
          intro u member
          rcases List.mem_cons.mp member with rfl | beyond
          · simp only
            omega
          · have := second u beyond
            simp only
            omega
    · refine spaced_cons.mpr ⟨positive, ?_, ih later⟩
      -- a span that starts with the position starts behind this one
      intro t member
      have nonempty := (ih later).positive t member
      have held : Holds (insert n rest) t.start := ⟨t, member, Nat.le_refl _, nonempty⟩
      rcases (holds_insert later).mp held with same | held
      · omega
      · exact above spaced held

/-- The spans before the position stay as they are. -/
theorem insert_append (below : ∀ s ∈ before, s.start < s.stop ∧ s.stop < n) :
    insert n (before ++ rest) = before ++ insert n rest := by
  induction before with
  | nil => rfl
  | cons s before ih =>
    obtain ⟨positive, behind⟩ := below s List.mem_cons_self
    rw [List.cons_append, insert, if_neg (by omega), if_neg (by omega), if_neg (by omega),
      if_neg (by omega), ih fun t member => below t (.tail _ member)]
    rfl

/-- A position that is there already changes nothing. -/
theorem insert_of_holds (spaced : Spaced spans) (held : Holds spans n) :
    insert n spans = spans := by
  induction spans with
  | nil => exact absurd held holds_nil
  | cons s rest ih =>
    obtain ⟨positive, _, later⟩ := spaced_cons.mp spaced
    rw [insert]
    rcases holds_cons.mp held with inside | behind
    · rw [if_neg (by omega), if_neg (by omega), if_pos (by omega)]
    · have := above spaced behind
      rw [if_neg (by omega), if_neg (by omega), if_neg (by omega), if_neg (by omega),
        ih later behind]

theorem length_insert_le : (insert n spans).length ≤ spans.length + 1 := by
  induction spans with
  | nil => exact Nat.le_refl _
  | cons s rest ih =>
    rw [insert]
    split
    · simp
    split
    · simp
    split
    · simp
    split
    · cases rest with
      | nil => simp [extend]
      | cons t others =>
        rw [extend]
        split <;> simp
    · simpa using ih

/-! ### Putting a span in -/

/-- All spans that the new one overlaps or touches become one with it. -/
def cover : Span Nat → List (Span Nat) → List (Span Nat)
  | new, [] => [new]
  | new, s :: rest =>
    if s.stop < new.start then s :: cover new rest
    else if new.stop < s.start then new :: s :: rest
    else cover ⟨min s.start new.start, max s.stop new.stop⟩ rest

/-! ### What the positions say about the spans -/

/-- Separated spans are determined by their positions. -/
theorem eq_of_holds {other : List (Span Nat)} (spaced : Spaced spans) (spaced' : Spaced other)
    (same : ∀ n, Holds spans n ↔ Holds other n) : spans = other := by
  induction spans generalizing other with
  | nil =>
    cases other with
    | nil => rfl
    | cons t rest' =>
      have filled := (spaced_cons.mp spaced').1
      exact absurd ((same t.start).mpr (holds_cons.mpr (.inl ⟨Nat.le_refl _, filled⟩))) holds_nil
  | cons s rest ih =>
    obtain ⟨filled, _, later⟩ := spaced_cons.mp spaced
    cases other with
    | nil => exact absurd ((same s.start).mp (holds_cons.mpr (.inl ⟨Nat.le_refl _, filled⟩))) holds_nil
    | cons t rest' =>
      obtain ⟨filled', _, later'⟩ := spaced_cons.mp spaced'
      have above_s {n : Nat} (held : Holds rest n) : s.stop < n := above spaced held
      have above_t {n : Nat} (held : Holds rest' n) : t.stop < n := above spaced' held
      have same_iff (n : Nat) : ((s.start ≤ n ∧ n < s.stop) ∨ Holds rest n) ↔
          (t.start ≤ n ∧ n < t.stop) ∨ Holds rest' n := by
        rw [← holds_cons, ← holds_cons]
        exact same n
      have starts : s.start = t.start := by
        rcases (same_iff s.start).mp (.inl ⟨Nat.le_refl _, filled⟩) with here | behind
        · rcases (same_iff t.start).mpr (.inl ⟨Nat.le_refl _, filled'⟩) with here' | behind'
          · omega
          · have := above_s behind'
            omega
        · rcases (same_iff t.start).mpr (.inl ⟨Nat.le_refl _, filled'⟩) with here' | behind'
          · have := above_t behind
            omega
          · have := above_t behind
            have := above_s behind'
            omega
      have stops : s.stop = t.stop := by
        rcases Nat.lt_trichotomy s.stop t.stop with lt | eq | gt
        · rcases (same_iff s.stop).mpr (.inl ⟨by omega, lt⟩) with here | behind
          · omega
          · have := above_s behind
            omega
        · exact eq
        · rcases (same_iff t.stop).mp (.inl ⟨by omega, gt⟩) with here | behind
          · omega
          · have := above_t behind
            omega
      have first : s = t := by
        cases s
        cases t
        simp only at starts stops
        rw [starts, stops]
      subst first
      rw [ih later later' fun n => ?_]
      constructor
      · intro held
        have beyond := above_s held
        rcases (same_iff n).mp (.inr held) with here | behind
        · omega
        · exact behind
      · intro held
        have beyond := above_t held
        rcases (same_iff n).mpr (.inr held) with here | behind
        · omega
        · exact behind

/-! ### Taking a position out -/

/-- The span of the position is dropped, gets shorter or falls apart. -/
def erase (n : Nat) : List (Span Nat) → List (Span Nat)
  | [] => []
  | s :: rest =>
    if s.start ≤ n ∧ n < s.stop then
      if s.start + 1 = s.stop then rest
      else if n + 1 = s.stop then ⟨s.start, n⟩ :: rest
      else if n = s.start then ⟨n + 1, s.stop⟩ :: rest
      else ⟨s.start, n⟩ :: ⟨n + 1, s.stop⟩ :: rest
    else s :: erase n rest

/-- A position that is not there takes nothing out. -/
theorem erase_of_not_holds (outside : ¬ Holds spans n) : erase n spans = spans := by
  induction spans with
  | nil => rfl
  | cons s rest ih =>
    rw [holds_cons] at outside
    rw [erase, if_neg fun inside => outside (.inl inside), ih fun held => outside (.inr held)]

/-- The spans before the one that holds the position stay as they are. -/
theorem erase_append (outside : ¬ Holds before n) :
    erase n (before ++ rest) = before ++ erase n rest := by
  induction before with
  | nil => rfl
  | cons s before ih =>
    rw [holds_cons] at outside
    rw [List.cons_append, erase, if_neg fun inside => outside (.inl inside),
      ih fun held => outside (.inr held)]
    rfl

theorem holds_erase (spaced : Spaced spans) :
    Holds (erase n spans) k ↔ k ≠ n ∧ Holds spans k := by
  induction spans with
  | nil => simp [erase]
  | cons s rest ih =>
    obtain ⟨positive, first, later⟩ := spaced_cons.mp spaced
    have beyond : Holds rest k → s.stop < k := above spaced
    rw [erase]
    split
    next inside =>
      split
      · rw [holds_cons]
        constructor
        · exact fun held => ⟨by have := beyond held; omega, .inr held⟩
        · rintro ⟨other, here | held⟩
          · omega
          · exact held
      split
      · simp only [holds_cons]
        constructor
        · rintro (here | held)
          · exact ⟨by omega, .inl (by omega)⟩
          · exact ⟨by have := beyond held; omega, .inr held⟩
        · rintro ⟨other, here | held⟩
          · exact .inl (by omega)
          · exact .inr held
      split
      · simp only [holds_cons]
        constructor
        · rintro (here | held)
          · exact ⟨by omega, .inl (by omega)⟩
          · exact ⟨by have := beyond held; omega, .inr held⟩
        · rintro ⟨other, here | held⟩
          · exact .inl (by omega)
          · exact .inr held
      · simp only [holds_cons]
        constructor
        · rintro (here | here | held)
          · exact ⟨by omega, .inl (by omega)⟩
          · exact ⟨by omega, .inl (by omega)⟩
          · exact ⟨by have := beyond held; omega, .inr held⟩
        · rintro ⟨other, here | held⟩
          · rcases Nat.lt_or_gt_of_ne other with below | behind
            · exact .inl (by omega)
            · exact .inr (.inl (by omega))
          · exact .inr (.inr held)
    next outside =>
      simp only [holds_cons, ih later]
      constructor
      · rintro (here | ⟨other, held⟩)
        · refine ⟨?_, .inl here⟩
          rintro rfl
          exact outside here
        · exact ⟨other, .inr held⟩
      · rintro ⟨other, here | held⟩
        · exact .inl here
        · exact .inr ⟨other, held⟩

theorem spaced_erase (spaced : Spaced spans) : Spaced (erase n spans) := by
  induction spans with
  | nil => exact spaced
  | cons s rest ih =>
    obtain ⟨positive, first, later⟩ := spaced_cons.mp spaced
    rw [erase]
    split
    next inside =>
      split
      · exact later
      split
      · refine spaced_cons.mpr ⟨by simp only; omega, fun t member => ?_, later⟩
        have := first t member
        simp only
        omega
      split
      · exact spaced_cons.mpr ⟨by simp only; omega, first, later⟩
      · refine spaced_cons.mpr ⟨by simp only; omega, fun t member => ?_,
          spaced_cons.mpr ⟨by simp only; omega, first, later⟩⟩
        rcases List.mem_cons.mp member with rfl | behind
        · simp
        · have := first t behind
          simp only
          omega
    next outside =>
      refine spaced_cons.mpr ⟨positive, fun t member => ?_, ih later⟩
      have nonempty := (ih later).positive t member
      have held : Holds (erase n rest) t.start := ⟨t, member, Nat.le_refl _, nonempty⟩
      exact above spaced ((holds_erase later).mp held).2

theorem length_erase_le : (erase n spans).length ≤ spans.length + 1 := by
  induction spans with
  | nil => exact Nat.zero_le _
  | cons s rest ih =>
    rw [erase]
    split
    · split
      · simp only [List.length_cons]
        omega
      split
      · simp
      split <;> simp
    · simpa using ih

/-! ### Taking out what is below a bound -/

/-- The spans without those that start below a bound. -/
def dropBelow (n : Nat) (spans : List (Span Nat)) : List (Span Nat) :=
  spans.dropWhile fun s => decide (s.start < n)

theorem spaced_dropBelow (spaced : Spaced spans) : Spaced (dropBelow n spans) :=
  ⟨fun s member => spaced.positive s ((List.dropWhile_sublist _).subset member),
    spaced.apart.sublist (List.dropWhile_sublist _)⟩

/-- Unless the bound is within a span, all positions from the bound on stay. -/
theorem holds_dropBelow (spaced : Spaced spans)
    (whole : ∀ s ∈ spans, s.start < n → s.stop ≤ n) :
    Holds (dropBelow n spans) k ↔ n ≤ k ∧ Holds spans k := by
  induction spans with
  | nil => simp [dropBelow]
  | cons s rest ih =>
    obtain ⟨positive, first, later⟩ := spaced_cons.mp spaced
    rw [dropBelow, List.dropWhile_cons]
    split
    next starts =>
      have starts : s.start < n := of_decide_eq_true starts
      have ends := whole s List.mem_cons_self starts
      rw [← dropBelow, ih later fun t member => whole t (.tail _ member), holds_cons]
      constructor
      · exact fun ⟨low, held⟩ => ⟨low, .inr held⟩
      · rintro ⟨low, here | held⟩
        · omega
        · exact ⟨low, held⟩
    next starts =>
      have starts : n ≤ s.start := by simpa using starts
      constructor
      · intro held
        refine ⟨?_, held⟩
        rcases holds_cons.mp held with here | behind
        · omega
        · have := above spaced behind
          omega
      · exact fun ⟨_, held⟩ => held

theorem mem_dropBelow (spaced : Spaced spans) :
    s ∈ dropBelow n spans ↔ s ∈ spans ∧ n ≤ s.start := by
  induction spans with
  | nil => simp [dropBelow]
  | cons t rest ih =>
    obtain ⟨positive, first, later⟩ := spaced_cons.mp spaced
    rw [dropBelow, List.dropWhile_cons]
    split
    next starts =>
      have starts : t.start < n := of_decide_eq_true starts
      rw [← dropBelow, ih later, List.mem_cons]
      constructor
      · exact fun ⟨member, low⟩ => ⟨.inr member, low⟩
      · rintro ⟨rfl | member, low⟩
        · omega
        · exact ⟨member, low⟩
    next starts =>
      have starts : n ≤ t.start := by simpa using starts
      refine ⟨fun member => ⟨member, ?_⟩, fun member => member.1⟩
      rcases List.mem_cons.mp member with rfl | behind
      · exact starts
      · have := first s behind
        omega

/-- All positions from one to another are held. -/
def HoldsFrom (spans : List (Span Nat)) (c n : Nat) : Prop := ∀ m, c ≤ m → m ≤ n → Holds spans m

/-- The span that a position is in goes as a whole with what is up to the position. -/
theorem holds_dropBelow_succ (spaced : Spaced spans) :
    Holds (dropBelow (n + 1) spans) k ↔ n < k ∧ Holds spans k ∧ ¬ HoldsFrom spans n k := by
  constructor
  · rintro ⟨s, member, starts, stops⟩
    obtain ⟨member, low⟩ := (mem_dropBelow spaced).mp member
    refine ⟨by omega, ⟨s, member, starts, stops⟩, fun all => ?_⟩
    exact not_holds_pred spaced member (by omega) (all (s.start - 1) (by omega) (by omega))
  · rintro ⟨behind, ⟨s, member, starts, stops⟩, gap⟩
    refine ⟨s, (mem_dropBelow spaced).mpr ⟨member, ?_⟩, starts, stops⟩
    by_contra low
    exact gap fun m from_n le => ⟨s, member, by omega, by omega⟩

end SpanList

end Inet.Lib
