import Mathlib.Data.Nat.Basic
import Mathlib.Data.List.Basic

/-!
# Spending a budget on segments

A budget of octets is spent on segments, and the start of each segment is moved over octets that
need not be sent. The budget does not change when a start is moved. Positions count from the
beginning of the window.
-/
namespace Inet.Tcp

/-- What decides how octets are cut into segments. -/
structure Outline where
  /-- Where the data ends. -/
  ending : Nat
  /-- Segments of so many octets are asked for. -/
  effectiveMss : Nat
  /-- The most octets that a segment takes. -/
  room : Nat
  /-- The octets that the start of a segment is moved over. -/
  skip : Nat → Nat
  nagle : Bool
  fin : Bool

namespace Outline

variable (o : Outline)

/-- The start and the length of a segment. -/
def segment (p n : Nat) : Option (Nat × Nat) :=
  let start := p + o.skip p
  let length := min (min n (o.ending - start)) o.room
  if length = 0 then none else some (start, length)

/-- A last segment of so many octets is not sent. -/
def held (outstanding : Bool) (p left : Nat) : Bool :=
  o.nagle && outstanding && !(o.fin && p + left == o.ending)

/-- The segments that a budget is spent on, for a number of rounds. -/
def spend : Nat → Bool → Nat → Nat → Option (List (Nat × Nat))
  | 0, _, _, _ => none
  | rounds + 1, outstanding, p, left =>
    if o.effectiveMss ≤ left then do
      let (start, length) ← o.segment p o.effectiveMss
      let later ← spend rounds true (start + length) (left - length)
      return (start, length) :: later
    else if left = 0 ∨ o.held outstanding p left then some []
    else (o.segment p left).map fun segment => [segment]

/-- All the octets are below a bound, after some number of rounds. -/
def SpendsBelow (window : Nat) (outstanding : Bool) (p left : Nat) : Prop :=
  ∃ rounds segments, o.spend rounds outstanding p left = some segments ∧
    ∀ segment ∈ segments, segment.1 + segment.2 ≤ window

/-! ### In closed form -/

/-- The octets of a segment that is not the last. -/
def size : Nat := min o.effectiveMss o.room

/-- The number of segments before the last. -/
def wholes (left : Nat) : Nat := (left + o.size - o.effectiveMss) / o.size

/-- What they leave of the budget. -/
def leftover (left : Nat) : Nat := left - o.wholes left * o.size

/-- The octets that the starts of a number of segments are moved over. -/
def skipped : Nat → Nat → Nat
  | 0, _ => 0
  | n + 1, p => o.skip p + skipped n (p + o.skip p + o.size)

/-- Nothing is sent of what is left. -/
def keeps (outstanding : Bool) (p left : Nat) : Bool :=
  o.held (outstanding || decide (0 < o.wholes left))
    (p + o.skipped (o.wholes left) p + o.wholes left * o.size) (o.leftover left)

/-- The octets that are skipped are made up for: below a window that ends before the data by the
part of the budget that is not spent, otherwise by the data that is left for the last segment. -/
def Affordable (window : Nat) (outstanding : Bool) (p left : Nat) : Prop :=
  let n := o.wholes left
  let r := o.leftover left
  if window < o.ending then
    if o.keeps outstanding p left ∨ r = 0 then o.skipped n p ≤ r
    else o.skipped (n + 1) p + min r o.size ≤ r
  else if o.keeps outstanding p left then o.skipped n p < o.effectiveMss
  else if r = 0 then o.skipped n p = 0
  else o.skipped (n + 1) p < r

variable {o} {window p left rounds : Nat} {outstanding : Bool}

theorem wholes_small (less : left < o.effectiveMss) : o.wholes left = 0 := by
  unfold wholes
  by_cases empty : o.size = 0
  · rw [empty, Nat.div_zero]
  · exact Nat.div_eq_of_lt (by omega)

theorem leftover_small (less : left < o.effectiveMss) : o.leftover left = left := by
  rw [leftover, wholes_small less, Nat.zero_mul, Nat.sub_zero]

theorem size_le : o.size ≤ o.effectiveMss := Nat.min_le_left _ _

theorem wholes_large (positive : 0 < o.size) (le : o.effectiveMss ≤ left) :
    o.wholes left = o.wholes (left - o.size) + 1 := by
  have small := size_le (o := o)
  unfold wholes
  rw [← Nat.add_div_right _ positive]
  congr 1
  omega

theorem leftover_large (positive : 0 < o.size) (le : o.effectiveMss ≤ left) :
    o.leftover left = o.leftover (left - o.size) := by
  rw [leftover, leftover, wholes_large positive le, Nat.succ_mul]
  omega

theorem wholes_mul_le (left : Nat) : o.wholes left * o.size ≤ left := by
  have small := size_le (o := o)
  have product := Nat.div_mul_le_self (left + o.size - o.effectiveMss) o.size
  unfold wholes
  by_cases empty : left + o.size - o.effectiveMss < o.size
  · rw [Nat.div_eq_of_lt empty, Nat.zero_mul]
    exact Nat.zero_le _
  · omega

theorem leftover_lt (positive : 0 < o.size) (left : Nat) : o.leftover left < o.effectiveMss := by
  have small := size_le (o := o)
  have rest := Nat.mod_lt (left + o.size - o.effectiveMss) positive
  have whole := Nat.div_add_mod' (left + o.size - o.effectiveMss) o.size
  unfold leftover wholes
  omega

theorem skip_le_skipped (n : Nat) : o.skip p ≤ o.skipped (n + 1) p := Nat.le_add_right _ _

theorem keeps_large (positive : 0 < o.size) (le : o.effectiveMss ≤ left) :
    o.keeps outstanding p left = o.keeps true (p + o.skip p + o.size) (left - o.size) := by
  have moved : p + o.skipped (o.wholes (left - o.size) + 1) p +
      (o.wholes (left - o.size) + 1) * o.size =
      p + o.skip p + o.size + o.skipped (o.wholes (left - o.size)) (p + o.skip p + o.size) +
        o.wholes (left - o.size) * o.size := by
    rw [skipped, Nat.succ_mul]
    omega
  unfold keeps
  rw [leftover_large positive le, wholes_large positive le, moved]
  simp only [Nat.zero_lt_succ, decide_true, Bool.or_true, Bool.true_or]

/-! ### The closed form is exact -/

/-- The octets that are skipped are made up for, from any position on. -/
def Fits (o : Outline) (window : Nat) (outstanding : Bool) (p left : Nat) : Prop :=
  let n := o.wholes left
  let r := o.leftover left
  if window < o.ending then
    if o.keeps outstanding p left ∨ r = 0 then p + o.skipped n p + n * o.size ≤ window
    else p + o.skipped (n + 1) p + n * o.size + min r o.size ≤ window
  else if o.keeps outstanding p left then p + left + o.skipped n p < o.ending + o.effectiveMss
  else if r = 0 then p + left + o.skipped n p = o.ending
  else p + left + o.skipped (n + 1) p < o.ending + r

theorem fits_iff_affordable (starts : p + left = min o.ending window) :
    o.Fits window outstanding p left ↔ o.Affordable window outstanding p left := by
  have whole := wholes_mul_le (o := o) left
  have rest : o.leftover left = left - o.wholes left * o.size := rfl
  unfold Fits Affordable
  dsimp only
  by_cases ends : window < o.ending
  · rw [if_pos ends, if_pos ends]
    split <;> omega
  · rw [if_neg ends, if_neg ends]
    split
    · omega
    · split <;> omega

/-- After a whole segment the same is left to be shown. -/
theorem fits_large (positive : 0 < o.size) (le : o.effectiveMss ≤ left) :
    o.Fits window outstanding p left ↔
      o.Fits window true (p + o.skip p + o.size) (left - o.size) := by
  have small := size_le (o := o)
  unfold Fits
  dsimp only
  rw [keeps_large positive le, leftover_large positive le, wholes_large positive le]
  simp only [skipped, Nat.succ_mul]
  split
  · split <;> omega
  · split
    · omega
    · split <;> omega

theorem segment_eq_some {n start length : Nat} : o.segment p n = some (start, length) ↔
    start = p + o.skip p ∧ length = min (min n (o.ending - start)) o.room ∧ 0 < length := by
  unfold segment
  dsimp only
  split
  · next empty =>
    refine ⟨nofun, ?_⟩
    rintro ⟨rfl, rfl, positive⟩
    omega
  · next some =>
    rw [Option.some.injEq, Prod.mk.injEq]
    constructor
    · rintro ⟨rfl, rfl⟩
      exact ⟨rfl, rfl, Nat.pos_of_ne_zero some⟩
    · rintro ⟨rfl, rfl, -⟩
      exact ⟨rfl, rfl⟩

theorem spendsBelow_large (le : o.effectiveMss ≤ left) :
    o.SpendsBelow window outstanding p left ↔
      ∃ start length, o.segment p o.effectiveMss = some (start, length) ∧
        start + length ≤ window ∧ o.SpendsBelow window true (start + length) (left - length) := by
  constructor
  · rintro ⟨rounds, segments, spent, below⟩
    cases rounds with
    | zero => cases spent
    | succ rounds =>
      rw [spend, if_pos le] at spent
      obtain ⟨⟨start, length⟩, first, spent⟩ := Option.bind_eq_some_iff.mp spent
      obtain ⟨later, rest, made⟩ := Option.bind_eq_some_iff.mp spent
      cases made
      rw [List.forall_mem_cons] at below
      exact ⟨start, length, first, below.1, rounds, later, rest, below.2⟩
  · rintro ⟨start, length, first, inside, rounds, later, rest, below⟩
    refine ⟨rounds + 1, (start, length) :: later, ?_, List.forall_mem_cons.mpr ⟨inside, below⟩⟩
    rw [spend, if_pos le, first, Option.bind_eq_bind, Option.bind_some]
    dsimp only
    rw [rest]
    rfl

theorem spendsBelow_small (less : left < o.effectiveMss) :
    o.SpendsBelow window outstanding p left ↔
      (left = 0 ∨ o.held outstanding p left) ∨
        ∃ start length, o.segment p left = some (start, length) ∧ start + length ≤ window := by
  by_cases nothing : left = 0 ∨ o.held outstanding p left
  · refine iff_of_true ⟨1, [], ?_, nofun⟩ (.inl nothing)
    rw [spend, if_neg (Nat.not_le.mpr less), if_pos nothing]
  · constructor
    · rintro ⟨rounds, segments, spent, below⟩
      cases rounds with
      | zero => cases spent
      | succ rounds =>
        rw [spend, if_neg (Nat.not_le.mpr less), if_neg nothing] at spent
        obtain ⟨⟨start, length⟩, last, rfl⟩ := Option.map_eq_some_iff.mp spent
        exact .inr ⟨start, length, last, below _ (List.mem_singleton_self _)⟩
    · rintro (held | ⟨start, length, last, inside⟩)
      · exact absurd held nothing
      · refine ⟨1, [(start, length)], ?_, fun segment member => ?_⟩
        · rw [spend, if_neg (Nat.not_le.mpr less), if_neg nothing, last]
          rfl
        · obtain rfl := List.mem_singleton.mp member
          exact inside

/-- With a window that ends before the data, everything that is planned has to be in the window. -/
theorem spendsBelow_iff_window (positive : 0 < o.size) (ends : window < o.ending)
    (inside : p ≤ window) :
    o.SpendsBelow window outstanding p left ↔ o.Fits window outstanding p left := by
  have bound : o.size = min o.effectiveMss o.room := rfl
  induction left using Nat.strong_induction_on generalizing p outstanding with
  | _ left ih =>
    by_cases le : o.effectiveMss ≤ left
    · rw [spendsBelow_large le, fits_large positive le]
      by_cases reaches : p + o.skip p + o.size ≤ window
      · have later : o.SpendsBelow window true (p + o.skip p + o.size) (left - o.size) ↔
            o.Fits window true (p + o.skip p + o.size) (left - o.size) :=
          ih _ (by omega) reaches
        rw [← later]
        constructor
        · rintro ⟨start, length, first, -, spends⟩
          obtain ⟨rfl, rfl, -⟩ := segment_eq_some.mp first
          rwa [show min (min o.effectiveMss (o.ending - (p + o.skip p))) o.room = o.size by omega]
            at spends
        · intro spends
          exact ⟨_, o.size, segment_eq_some.mpr ⟨rfl, by omega, positive⟩, reaches, spends⟩
      · refine iff_of_false ?_ ?_
        · rintro ⟨start, length, first, inside, -⟩
          obtain ⟨rfl, rfl, some⟩ := segment_eq_some.mp first
          omega
        · unfold Fits
          dsimp only
          rw [if_pos ends]
          split <;> omega
    · have less := Nat.not_le.mp le
      rw [spendsBelow_small less]
      unfold Fits keeps
      dsimp only
      rw [if_pos ends, wholes_small less, leftover_small less]
      simp only [skipped, Nat.zero_mul, Nat.add_zero, Nat.lt_irrefl, decide_false, Bool.or_false]
      rw [or_comm (a := left = 0)]
      split
      · next kept => exact iff_of_true (.inl kept) inside
      · next sent =>
        rw [or_iff_right sent]
        constructor
        · rintro ⟨start, length, last, inside⟩
          obtain ⟨rfl, rfl, some⟩ := segment_eq_some.mp last
          omega
        · intro inside
          exact ⟨_, min left o.size, segment_eq_some.mpr ⟨rfl, by omega, by omega⟩, by omega⟩

/-- Without room no segment can be made. -/
theorem spendsBelow_noRoom (full : o.room = 0) :
    o.SpendsBelow window outstanding p left ↔
      left < o.effectiveMss ∧ (left = 0 ∨ o.held outstanding p left) := by
  have nothing {n : Nat} : o.segment p n = none := by
    unfold segment
    exact if_pos (by omega)
  by_cases le : o.effectiveMss ≤ left
  · rw [spendsBelow_large le]
    refine iff_of_false ?_ (by omega)
    rintro ⟨start, length, first, -⟩
    cases nothing.symm.trans first
  · rw [spendsBelow_small (Nat.not_le.mp le), and_iff_right (Nat.not_le.mp le), or_iff_left]
    rintro ⟨start, length, last, -⟩
    cases nothing.symm.trans last

/-! Data that ends in the window. -/

/-- Where the data ends, nothing but a delay helps. -/
theorem spendsBelow_ending (positive : 0 < left) :
    o.SpendsBelow window true o.ending left ↔ left < o.effectiveMss ∧ o.nagle = true := by
  have nothing {n : Nat} : o.segment o.ending n = none := by
    unfold segment
    exact if_pos (by omega)
  by_cases le : o.effectiveMss ≤ left
  · rw [spendsBelow_large le]
    refine iff_of_false ?_ (by omega)
    rintro ⟨start, length, first, -⟩
    cases nothing.symm.trans first
  · have less := Nat.not_le.mp le
    have past : (o.ending + left == o.ending) = false := beq_false_of_ne (by omega)
    rw [spendsBelow_small less, held, past, Bool.and_false, Bool.not_false, Bool.and_true,
      Bool.and_true, and_iff_right less, or_iff_right (Nat.ne_of_gt positive), or_iff_left]
    rintro ⟨start, length, last, -⟩
    cases nothing.symm.trans last

/-- What is skipped and left over reaches too far. -/
theorem not_fits_of_large (positive : 0 < o.size) (ends : o.ending ≤ window)
    (le : o.effectiveMss ≤ left) (far : o.ending + o.effectiveMss ≤ p + left + o.skip p) :
    ¬o.Fits window outstanding p left := by
  have small := size_le (o := o)
  have rest := leftover_lt (o := o) positive left
  have first := skip_le_skipped (o := o) (p := p) (o.wholes (left - o.size))
  have second := skip_le_skipped (o := o) (p := p) (o.wholes (left - o.size) + 1)
  rw [← wholes_large positive le] at first second
  unfold Fits
  dsimp only
  rw [if_neg (Nat.not_lt.mpr ends)]
  split
  · omega
  · split <;> omega

/-- A segment before the last that comes to the end of the data. -/
theorem spendsBelow_iff_last (positive : 0 < o.size) (ends : o.ending ≤ window)
    (le : o.effectiveMss ≤ left) (short : o.ending < p + o.skip p + o.size)
    (enough : o.ending ≤ p + left) :
    o.SpendsBelow window outstanding p left ↔ o.Fits window outstanding p left := by
  have bound : o.size = min o.effectiveMss o.room := rfl
  rw [spendsBelow_large le]
  by_cases found : p + o.skip p < o.ending
  · have reached : p + o.skip p + (o.ending - (p + o.skip p)) = o.ending := by omega
    have moved : (∃ start length, o.segment p o.effectiveMss = some (start, length) ∧
        start + length ≤ window ∧ o.SpendsBelow window true (start + length) (left - length)) ↔
        o.SpendsBelow window true o.ending (left - (o.ending - (p + o.skip p))) := by
      constructor
      · rintro ⟨start, length, first, -, spends⟩
        obtain ⟨rfl, rfl, -⟩ := segment_eq_some.mp first
        rwa [show min (min o.effectiveMss (o.ending - (p + o.skip p))) o.room =
          o.ending - (p + o.skip p) by omega, reached] at spends
      · intro spends
        refine ⟨p + o.skip p, o.ending - (p + o.skip p),
          segment_eq_some.mpr ⟨rfl, by omega, by omega⟩, by omega, ?_⟩
        rw [reached]
        exact spends
    rw [moved, spendsBelow_ending (by omega)]
    by_cases more : o.effectiveMss ≤ left - o.size
    · exact iff_of_false (by omega) (not_fits_of_large positive ends le (by omega))
    · -- it is the only one
      have less := Nat.not_le.mp more
      have past : (o.fin && p + o.skip p + o.size + (left - o.size) == o.ending) = false := by
        rw [beq_false_of_ne (by omega), Bool.and_false]
      unfold Fits
      dsimp only
      rw [if_neg (Nat.not_lt.mpr ends), keeps_large positive le, keeps, wholes_small less,
        leftover_small less, wholes_large positive le, leftover_large positive le,
        wholes_small less, leftover_small less]
      simp only [skipped, Nat.zero_mul, Nat.add_zero, Nat.lt_irrefl, decide_false, Bool.or_false,
        held, past, Bool.not_false, Bool.and_true]
      split
      · next nagle =>
        rw [and_iff_left nagle]
        omega
      · next nagle =>
        refine iff_of_false (fun holds => nagle holds.2) ?_
        split <;> omega
  · refine iff_of_false ?_ (not_fits_of_large positive ends le (by omega))
    rintro ⟨start, length, first, -⟩
    obtain ⟨rfl, rfl, some⟩ := segment_eq_some.mp first
    omega

/-- With data that ends in the window, every segment has to find data. -/
theorem spendsBelow_iff_data (positive : 0 < o.size) (ends : o.ending ≤ window)
    (inside : p ≤ o.ending) (enough : o.ending ≤ p + left) :
    o.SpendsBelow window outstanding p left ↔ o.Fits window outstanding p left := by
  have bound : o.size = min o.effectiveMss o.room := rfl
  induction left using Nat.strong_induction_on generalizing p outstanding with
  | _ left ih =>
    by_cases le : o.effectiveMss ≤ left
    · by_cases reaches : p + o.skip p + o.size ≤ o.ending
      · have later : o.SpendsBelow window true (p + o.skip p + o.size) (left - o.size) ↔
            o.Fits window true (p + o.skip p + o.size) (left - o.size) :=
          ih _ (by omega) reaches (by omega)
        rw [spendsBelow_large le, fits_large positive le, ← later]
        constructor
        · rintro ⟨start, length, first, -, spends⟩
          obtain ⟨rfl, rfl, -⟩ := segment_eq_some.mp first
          rwa [show min (min o.effectiveMss (o.ending - (p + o.skip p))) o.room = o.size by omega]
            at spends
        · intro spends
          exact ⟨_, o.size, segment_eq_some.mpr ⟨rfl, by omega, positive⟩, by omega, spends⟩
      · exact spendsBelow_iff_last positive ends le (by omega) enough
    · have less := Nat.not_le.mp le
      rw [spendsBelow_small less]
      unfold Fits keeps
      dsimp only
      rw [if_neg (Nat.not_lt.mpr ends), wholes_small less, leftover_small less]
      simp only [skipped, Nat.zero_mul, Nat.add_zero, Nat.lt_irrefl, decide_false, Bool.or_false]
      rw [or_comm (a := left = 0)]
      by_cases held : o.held outstanding p left = true
      · rw [if_pos held]
        exact iff_of_true (.inl (.inl held)) (by omega)
      · rw [if_neg held, or_iff_right (a := o.held outstanding p left = true) held]
        by_cases nothing : left = 0
        · rw [if_pos nothing]
          exact iff_of_true (.inl nothing) (by omega)
        · rw [if_neg nothing, or_iff_right nothing]
          constructor
          · rintro ⟨start, length, last, -⟩
            obtain ⟨rfl, rfl, some⟩ := segment_eq_some.mp last
            omega
          · intro found
            exact ⟨_, _, segment_eq_some.mpr ⟨rfl, rfl, by omega⟩, by omega⟩

/-- A budget is spent in the window exactly when what is skipped is made up for. -/
theorem spendsBelow_iff (positive : 0 < o.size) (starts : p + left = min o.ending window) :
    o.SpendsBelow window outstanding p left ↔ o.Affordable window outstanding p left := by
  rw [← fits_iff_affordable starts]
  by_cases ends : window < o.ending
  · exact spendsBelow_iff_window positive ends (by omega)
  · exact spendsBelow_iff_data positive (Nat.not_lt.mp ends) (by omega) (by omega)

end Outline
end Inet.Tcp
