import Mathlib.Data.Rat.Defs
import Mathlib.Tactic.Linarith
import Mathlib.Tactic.Ring

/-!
# Token buckets

What a machine lets pass is paid from a level that time fills up to a capacity. Over any stretch of a
run it is at most the capacity and what the rate gives in the time of the stretch. Packets that stay
within these all pass.
-/
namespace Inet.Lib.TokenBucket

/-- A machine that takes packets at some times and remembers the last one. -/
structure Machine (σ P : Type) where
  step : σ → P → σ
  time : P → ℚ
  last : σ → ℚ

variable {σ P : Type}

/-- The time of the last packet, or the time before the first one. -/
def finish (time : P → ℚ) : ℚ → List P → ℚ
  | start, [] => start
  | _, packet :: rest => finish time (time packet) rest

/-- Packets come in the order of time. -/
def Ordered (time : P → ℚ) : ℚ → List P → Prop
  | _, [] => True
  | start, packet :: rest => start ≤ time packet ∧ Ordered time (time packet) rest

theorem Ordered.split {time : P → ℚ} {start : ℚ} {before rest : List P}
    (ordered : Ordered time start (before ++ rest)) :
    Ordered time start before ∧ Ordered time (finish time start before) rest := by
  induction before generalizing start with
  | nil => exact ⟨trivial, ordered⟩
  | cons packet others ih =>
    obtain ⟨earlier, later⟩ := ih ordered.2
    exact ⟨⟨ordered.1, earlier⟩, later⟩

namespace Machine

variable (machine : Machine σ P)

/-- What passes in a run. -/
def total (passed : σ → P → ℚ) : σ → List P → ℚ
  | _, [] => 0
  | state, packet :: rest => passed state packet + total passed (machine.step state packet) rest

/-- All packets of a run pass. -/
def AllPass (passes : σ → P → Prop) : σ → List P → Prop
  | _, [] => True
  | state, packet :: rest => passes state packet ∧ AllPass passes (machine.step state packet) rest

def Keeps (holds : σ → Prop) : Prop :=
  ∀ state packet, holds state → machine.last state ≤ machine.time packet →
    holds (machine.step state packet) ∧ machine.last (machine.step state packet) = machine.time packet

/-- What passes is paid from a level that is never negative. -/
structure Pays (passed : σ → P → ℚ) (holds : σ → Prop) (level : σ → ℚ) (capacity rate : ℚ) : Prop where
  nonneg : ∀ state, holds state → 0 ≤ level state
  full : ∀ state packet, holds state → machine.last state ≤ machine.time packet →
    passed state packet + level (machine.step state packet) ≤ capacity
  filled : ∀ state packet, holds state → machine.last state ≤ machine.time packet →
    passed state packet + level (machine.step state packet) ≤
      level state + rate * (machine.time packet - machine.last state)

/-- A full level stays full, another one gets what the rate gives but for a loss, and a packet that it
can pay passes. -/
def Serves (passes : σ → P → Prop) (cost : P → ℚ) (holds : σ → Prop) (level : σ → ℚ)
    (capacity rate loss : ℚ) : Prop :=
  ∀ state packet, holds state → machine.last state ≤ machine.time packet → ∃ filled,
    (filled = capacity ∨ level state ≠ capacity ∧
      level state + rate * (machine.time packet - machine.last state) - loss ≤ filled) ∧
    (cost packet ≤ filled →
      passes state packet ∧ level (machine.step state packet) = filled - cost packet)

/-- In every stretch packets cost no more than the capacity and what the rate gives, less a loss
between one packet and the next. -/
def Conforms (cost : P → ℚ) (capacity rate loss : ℚ) (packets : List P) : Prop :=
  ∀ packet stretch, packet :: stretch <:+: packets →
    cost packet + (stretch.map cost).sum + loss * stretch.length ≤
      capacity + rate * (finish machine.time (machine.time packet) stretch - machine.time packet)

variable {machine} {passed : σ → P → ℚ} {passes : σ → P → Prop} {cost : P → ℚ} {holds : σ → Prop}
  {level : σ → ℚ} {capacity rate loss : ℚ} {state : σ} {packet : P} {before rest : List P}

/-! ### What passes at most -/

theorem Pays.total_le_level (pays : machine.Pays passed holds level capacity rate)
    (keeps : machine.Keeps holds) (kept : holds state)
    (ordered : Ordered machine.time (machine.last state) rest) :
    machine.total passed state rest ≤
      level state + rate * (finish machine.time (machine.last state) rest - machine.last state) := by
  induction rest generalizing state with
  | nil =>
    rw [total, finish, sub_self, mul_zero, add_zero]
    exact pays.nonneg state kept
  | cons packet rest ih =>
    obtain ⟨later, others⟩ := ordered
    obtain ⟨after, now⟩ := keeps state packet kept later
    have here := pays.filled state packet kept later
    have behind := ih after (now ▸ others)
    rw [now] at behind
    rw [total, finish]
    -- the level in between cancels
    linarith [mul_sub rate (finish machine.time (machine.time packet) rest) (machine.time packet),
      mul_sub rate (machine.time packet) (machine.last state),
      mul_sub rate (finish machine.time (machine.time packet) rest) (machine.last state)]

theorem Keeps.foldl (keeps : machine.Keeps holds) (kept : holds state)
    (ordered : Ordered machine.time (machine.last state) before) :
    holds (before.foldl machine.step state) ∧
      machine.last (before.foldl machine.step state) =
        finish machine.time (machine.last state) before := by
  induction before generalizing state with
  | nil => exact ⟨kept, rfl⟩
  | cons packet rest ih =>
    obtain ⟨after, now⟩ := keeps state packet kept ordered.1
    rw [finish, ← now]
    exact ih after (now ▸ ordered.2)

/-- The bound holds of every stretch of a run. -/
theorem Pays.stretch_le (pays : machine.Pays passed holds level capacity rate)
    (keeps : machine.Keeps holds) (kept : holds state)
    (ordered : Ordered machine.time (machine.last state) (before ++ packet :: rest)) :
    machine.total passed (before.foldl machine.step state) (packet :: rest) ≤
      capacity + rate * (finish machine.time (machine.time packet) rest - machine.time packet) := by
  obtain ⟨earlier, later⟩ := ordered.split
  obtain ⟨held, finished⟩ := keeps.foldl kept earlier
  rw [← finished] at later
  obtain ⟨later, others⟩ := later
  obtain ⟨after, now⟩ := keeps _ packet held later
  have here := pays.full _ packet held later
  have behind := pays.total_le_level keeps after (now ▸ others)
  rw [now] at behind
  rw [total]
  linarith

/-! ### What passes at least -/

theorem Serves.all_pass (serves : machine.Serves passes cost holds level capacity rate loss)
    (keeps : machine.Keeps holds) (kept : holds state) {packets : List P}
    (ordered : Ordered machine.time (machine.last state) packets)
    (conforms : machine.Conforms cost capacity rate loss packets)
    (start : level state = capacity ∨ ∀ packet stretch, packet :: stretch <+: packets →
      cost packet + (stretch.map cost).sum + loss * (stretch.length + 1) ≤ level state +
        rate * (finish machine.time (machine.time packet) stretch - machine.last state)) :
    machine.AllPass passes state packets := by
  induction packets generalizing state with
  | nil => trivial
  | cons packet rest ih =>
    obtain ⟨later, others⟩ := ordered
    obtain ⟨after, now⟩ := keeps state packet kept later
    obtain ⟨filled, filled_cases, pays⟩ := serves state packet kept later
    -- what the packet and some next ones cost, after the level has been filled
    have paid : cost packet ≤ filled ∧ ∀ next stretch, next :: stretch <+: rest →
        cost packet + (cost next + (stretch.map cost).sum + loss * (stretch.length + 1)) ≤ filled +
          rate * (finish machine.time (machine.time next) stretch - machine.time packet) := by
      rcases filled_cases with rfl | ⟨used, enough⟩
      · constructor
        · simpa [finish] using conforms packet [] (List.prefix_append [packet] rest).isInfix
        · intro next stretch first
          have bound := conforms packet (next :: stretch)
            (List.prefix_cons_inj packet |>.mpr first).isInfix
          simp only [List.map_cons, List.sum_cons, List.length_cons, finish, Nat.cast_succ] at bound
          linarith
      · have bounds := start.resolve_left used
        constructor
        · have first : cost packet + loss ≤
              level state + rate * (machine.time packet - machine.last state) := by
            simpa [finish] using bounds packet [] (List.prefix_append [packet] rest)
          linarith
        · intro next stretch first
          have bound := bounds packet (next :: stretch) (List.prefix_cons_inj packet |>.mpr first)
          simp only [List.map_cons, List.sum_cons, List.length_cons, finish, Nat.cast_succ] at bound
          linarith [mul_sub rate (finish machine.time (machine.time next) stretch)
              (machine.time packet), mul_sub rate (machine.time packet) (machine.last state),
            mul_sub rate (finish machine.time (machine.time next) stretch) (machine.last state)]
    obtain ⟨passed, left⟩ := pays paid.1
    refine ⟨passed, ih after (now ▸ others) (fun next stretch inside =>
      conforms next stretch (inside.trans (List.suffix_cons _ _).isInfix)) (.inr ?_)⟩
    intro next stretch first
    rw [left, now]
    linarith [paid.2 next stretch first]

end Machine

end Inet.Lib.TokenBucket
