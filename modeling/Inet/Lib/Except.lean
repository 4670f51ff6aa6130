import Mathlib.Data.List.Basic
import Mathlib.Data.List.Forall2

/-!
# Results that may be errors

How a sequence of steps that may fail returns a result.
-/
namespace Inet.Lib

universe u v

variable {ε : Type u} {α β : Type v}
variable {items : List α}

theorem ok_bind (a : α) (next : α → Except ε β) : ((.ok a : Except ε α) >>= next) = next a := rfl

/-- Two steps return a result if the first one returns something the second one goes on
with. -/
theorem bind_eq_ok {first : Except ε α} {next : α → Except ε β} {result : β} :
    (first >>= next) = .ok result ↔ ∃ a, first = .ok a ∧ next a = .ok result := by
  cases first with
  | error e => exact ⟨nofun, nofun⟩
  | ok a =>
    constructor
    · exact fun returned => ⟨a, rfl, returned⟩
    · rintro ⟨_, ⟨⟩, returned⟩
      exact returned

/-- A loop that collects results returns one for each item. -/
theorem mapM_eq_ok {f : α → Except ε β} {results : List β} :
    items.mapM f = .ok results ↔ List.Forall₂ (fun a b => f a = .ok b) items results := by
  induction items generalizing results with
  | nil =>
    constructor
    · rintro ⟨⟩
      exact .nil
    · rintro ⟨⟩
      rfl
  | cons a rest ih =>
    rw [List.mapM_cons]
    constructor
    · intro returned
      obtain ⟨b, first, returned⟩ := bind_eq_ok.mp returned
      obtain ⟨later, others, ⟨⟩⟩ := bind_eq_ok.mp returned
      exact .cons first (ih.mp others)
    · rintro (_ | ⟨first, others⟩)
      rw [first, ok_bind, ih.mpr others, ok_bind]
      rfl

/-- A loop over indices puts the result of each of them at its index. -/
theorem mapM_range {γ : Type} {f : Nat → Except ε γ} {count : Nat} {results : List γ}
    (returned : (List.range count).mapM f = .ok results) {i : Nat} (inside : i < count) :
    ∃ b, results[i]? = some b ∧ f i = .ok b := by
  have each := mapM_eq_ok.mp returned
  have length := each.length_eq
  rw [List.length_range] at length
  have here := each.get (List.length_range.symm ▸ inside) (length ▸ inside)
  refine ⟨results[i], List.getElem?_eq_getElem (by omega), ?_⟩
  simpa using here

theorem mapM_returns {f : α → Except ε β}
    (each : ∀ a ∈ items, ∃ b, f a = .ok b) : ∃ results, items.mapM f = .ok results := by
  induction items with
  | nil => exact ⟨[], rfl⟩
  | cons a rest ih =>
    obtain ⟨b, first⟩ := each a List.mem_cons_self
    obtain ⟨later, others⟩ := ih fun a member => each a (List.mem_cons_of_mem _ member)
    rw [List.mapM_cons, first, ok_bind, others, ok_bind]
    exact ⟨b :: later, rfl⟩

theorem forM_returns {step : α → Except ε PUnit}
    (each : ∀ a ∈ items, step a = .ok ⟨⟩) : items.forM step = .ok ⟨⟩ := by
  induction items with
  | nil => rfl
  | cons a rest ih =>
    rw [List.forM_eq_forM, List.forM_cons, each a List.mem_cons_self, ok_bind]
    exact ih fun a member => each a (List.mem_cons_of_mem _ member)

/-- What holds at the start of a loop and is preserved by every step holds at its end. -/
theorem foldlM_invariant {σ : Type v} {step : σ → α → Except ε σ} (holds : σ → Prop)
    (items : List α)
    (preserves : ∀ state, ∀ item ∈ items, holds state →
      ∀ next, step state item = .ok next → holds next)
    (state : σ) (start : holds state) (final : σ)
    (returned : items.foldlM step state = .ok final) : holds final := by
  induction items generalizing state with
  | nil =>
    cases returned
    exact start
  | cons item rest ih =>
    rw [List.foldlM_cons] at returned
    obtain ⟨next, stepped, later⟩ := bind_eq_ok.mp returned
    exact ih (fun state item member => preserves state item (List.mem_cons_of_mem _ member)) next
      (preserves state item List.mem_cons_self start next stepped) later

/-- A loop that changes nothing in any round. -/
theorem foldlM_fixed {step : β → α → Except ε β} {b : β}
    (each : ∀ a ∈ items, step b a = .ok b) : items.foldlM step b = .ok b := by
  induction items with
  | nil => rfl
  | cons a rest ih =>
    rw [List.foldlM_cons, each a List.mem_cons_self, ok_bind]
    exact ih fun c member => each c (List.mem_cons_of_mem _ member)

end Inet.Lib

/-!
## What holds along a run

A run makes its steps one after another until one fails.
-/
namespace Inet.Lib

variable {σ α ε : Type}

/-- A property of the state on which each item of a run is handled. -/
def HoldsAlong (step : σ → α → Except ε σ) (holds : σ → α → Prop) : σ → List α → Prop
  | _, [] => True
  | state, item :: rest =>
    holds state item ∧ ∀ after, step state item = .ok after → HoldsAlong step holds after rest

/-- Properties that agree wherever an invariant holds agree along each run from there, when the
invariant is kept. -/
theorem HoldsAlong.iff_of_invariant {step : σ → α → Except ε σ} {holds holds' : σ → α → Prop}
    (invariant : σ → Prop)
    (same : ∀ state item, invariant state → (holds state item ↔ holds' state item))
    (kept : ∀ state item after, invariant state → holds state item →
      step state item = .ok after → invariant after)
    {state : σ} (initial : invariant state) (items : List α) :
    HoldsAlong step holds state items ↔ HoldsAlong step holds' state items := by
  induction items generalizing state with
  | nil => exact Iff.rfl
  | cons item rest ih =>
    constructor
    · rintro ⟨here, later⟩
      exact ⟨(same state item initial).mp here, fun after stepped =>
        (ih (kept state item after initial here stepped)).mp (later after stepped)⟩
    · rintro ⟨here', later⟩
      have here := (same state item initial).mpr here'
      exact ⟨here, fun after stepped =>
        (ih (kept state item after initial here stepped)).mpr (later after stepped)⟩

end Inet.Lib

/-!
## Programs that leave a state when they throw

A thrown error ends a program and does not take back what the program has changed before. Where the
state left is not asked for, such a program is a function that returns a state or an error.
-/
namespace Inet.Lib

/-- Programs that change a state and may throw. -/
abbrev Throwing (ε σ : Type) := ExceptT ε (StateM σ)

namespace Throwing

variable {ε σ α β : Type}

/-- What a program returns or throws, and the state it leaves. -/
def attempt (program : Throwing ε σ α) (state : σ) : Except ε α × σ := program.run state

/-- A computation that reads the state only. -/
def reading (function : σ → Except ε α) : Throwing ε σ α := fun state => (function state, state)

theorem attempt_bind (program : Throwing ε σ α) (next : α → Throwing ε σ β) (state : σ) :
    attempt (program >>= next) state = match attempt program state with
      | (.ok a, after) => attempt (next a) after
      | (.error e, left) => (.error e, left) := by
  show (match (attempt program state).1 with
      | .ok a => next a
      | .error e => pure (.error e) : StateM σ (Except ε β)) (attempt program state).2 = _
  rcases attempt program state with ⟨_ | _, _⟩
  · rfl
  · rfl

/-- A program that ends by a throw of its first part. -/
theorem attempt_bind_error {program : Throwing ε σ α} {next : α → Throwing ε σ β} {state left : σ}
    {e : ε} (thrown : attempt program state = (.error e, left)) :
    attempt (program >>= next) state = (.error e, left) := by
  rw [attempt_bind, thrown]

theorem attempt_bind_ok {program : Throwing ε σ α} {next : α → Throwing ε σ β} {state after : σ}
    {a : α} (returned : attempt program state = (.ok a, after)) :
    attempt (program >>= next) state = attempt (next a) after := by
  rw [attempt_bind, returned]

theorem attempt_reading (function : σ → Except ε α) (state : σ) :
    attempt (reading function) state = (function state, state) := rfl

end Throwing

end Inet.Lib
