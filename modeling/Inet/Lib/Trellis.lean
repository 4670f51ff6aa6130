import Mathlib.Data.List.Basic

/-!
# Shortest paths through a trellis

A trellis has a step for each state and input, whose cost depends on the time. Columns of survivors
are built one after the other by choosing the cheapest of the candidates for each state.
-/
namespace Inet.Lib

universe u v

structure Trellis (σ : Type u) (ι : Type v) where
  next : σ → ι → σ
  cost : Nat → σ → ι → Nat
  allowed : ι → Prop

namespace Trellis

variable {σ : Type u} {ι : Type v} (T : Trellis σ ι)

def walk : σ → List ι → σ := List.foldl T.next

def total : Nat → σ → List ι → Nat
  | _, _, [] => 0
  | time, s, x :: path => T.cost time s x + total (time + 1) (T.next s x) path

theorem walk_concat (s : σ) (path : List ι) (x : ι) :
    T.walk s (path ++ [x]) = T.next (T.walk s path) x := by
  rw [walk, List.foldl_append]
  rfl

theorem total_concat (path : List ι) (x : ι) : ∀ (time : Nat) (s : σ),
    T.total time s (path ++ [x]) =
      T.total time s path + T.cost (time + path.length) (T.walk s path) x := by
  induction path with
  | nil =>
    intro time s
    exact Nat.add_comm _ _
  | cons y path ih =>
    intro time s
    rw [List.cons_append, total, ih, total, List.length_cons, ← Nat.add_assoc,
      show time + 1 + path.length = time + (path.length + 1) by omega]
    rfl

/-! ### Survivors -/

/-- A path for each state that can be reached in a time, none of which is dearer than another path
to the state. -/
structure Survivors (start : σ) (time : Nat) (column : σ → Option (Nat × List ι)) : Prop where
  sound : ∀ s cost path, column s = some (cost, path) →
    path.length = time ∧ T.walk start path = s ∧ T.total 0 start path = cost ∧
      ∀ x ∈ path, T.allowed x
  least : ∀ path, path.length = time → (∀ x ∈ path, T.allowed x) →
    ∃ cost path', column (T.walk start path) = some (cost, path') ∧
      cost ≤ T.total 0 start path

/-- Survivors are extended by a step, and the cheapest candidate survives for each state. -/
structure Selects (time : Nat) (column next : σ → Option (Nat × List ι)) : Prop where
  chosen : ∀ s' cost' path', next s' = some (cost', path') →
    ∃ s cost path x, column s = some (cost, path) ∧ T.allowed x ∧ T.next s x = s' ∧
      cost' = cost + T.cost time s x ∧ path' = path ++ [x]
  least : ∀ s cost path x, column s = some (cost, path) → T.allowed x →
    ∃ cost' path', next (T.next s x) = some (cost', path') ∧ cost' ≤ cost + T.cost time s x

variable {T} {start : σ} {time : Nat} {column next : σ → Option (Nat × List ι)}

theorem Survivors.initial (first : column start = some (0, []))
    (others : ∀ s, s ≠ start → column s = none) : T.Survivors start 0 column := by
  constructor
  · intro s cost path found
    by_cases here : s = start
    · subst here
      cases first.symm.trans found
      exact ⟨rfl, rfl, rfl, nofun⟩
    · rw [others s here] at found
      cases found
  · intro path empty _
    rw [List.length_eq_zero_iff.mp empty]
    exact ⟨0, [], first, Nat.le_refl 0⟩

theorem Survivors.step (survivors : T.Survivors start time column)
    (selects : T.Selects time column next) : T.Survivors start (time + 1) next := by
  constructor
  · intro s' cost' path' found
    obtain ⟨s, cost, path, x, before, allowed, step, rfl, rfl⟩ := selects.chosen s' cost' path' found
    obtain ⟨length, walk, total, inside⟩ := survivors.sound s cost path before
    refine ⟨?_, ?_, ?_, ?_⟩
    · rw [List.length_append, length, List.length_singleton]
    · rw [walk_concat, walk, step]
    · rw [total_concat, total, walk, length, Nat.zero_add]
    · intro y member
      rcases List.mem_append.mp member with old | new
      · exact inside y old
      · exact List.mem_singleton.mp new ▸ allowed
  · intro path' length inside
    obtain ⟨path, x, rfl⟩ : ∃ path x, path' = path ++ [x] := by
      rcases path'.eq_nil_or_concat with rfl | ⟨path, x, rfl⟩
      · cases length
      · exact ⟨path, x, List.concat_eq_append⟩
    have shorter : path.length = time := by
      rw [List.length_append, List.length_singleton] at length
      omega
    obtain ⟨cost, best, found, le⟩ := survivors.least path shorter
      fun y member => inside y (List.mem_append_left _ member)
    obtain ⟨cost', path', here, le'⟩ := selects.least _ cost best x found
      (inside x (List.mem_append_right _ (List.mem_singleton_self x)))
    refine ⟨cost', path', ?_, ?_⟩
    · rw [walk_concat]
      exact here
    · rw [total_concat, shorter, Nat.zero_add]
      omega

/-! ### Paths without cost -/

/-- Steps from one state that cost nothing at the same time have the same input. -/
def Separates (T : Trellis σ ι) (inside : σ → Prop) (limit : Nat) : Prop :=
  ∀ time < limit, ∀ s x y, inside s → T.allowed x → T.allowed y → T.cost time s x = 0 →
    T.cost time s y = 0 → x = y

theorem eq_of_total_eq_zero {inside : σ → Prop} {limit : Nat} (separates : T.Separates inside limit)
    (closed : ∀ s x, inside s → T.allowed x → inside (T.next s x)) {path : List ι} :
    ∀ {time : Nat} {s : σ} {path' : List ι}, time + path.length ≤ limit → inside s →
      path.length = path'.length → (∀ x ∈ path, T.allowed x) → (∀ x ∈ path', T.allowed x) →
      T.total time s path = 0 → T.total time s path' = 0 → path = path' := by
  induction path with
  | nil =>
    intro time s path' _ _ length _ _ _ _
    exact (List.length_eq_zero_iff.mp length.symm).symm
  | cons x path ih =>
    intro time s path' early within length allowed allowed' free free'
    cases path' with
    | nil => cases length
    | cons y path' =>
      rw [List.length_cons] at early
      rw [total, Nat.add_eq_zero_iff] at free free'
      have first := allowed x List.mem_cons_self
      have same := separates time (by omega) s x y within first (allowed' y List.mem_cons_self)
        free.1 free'.1
      subst same
      rw [ih (by omega) (closed s x within first) (Nat.succ.inj length)
        (fun z member => allowed z (List.mem_cons_of_mem _ member))
        (fun z member => allowed' z (List.mem_cons_of_mem _ member)) free.2 free'.2]

/-- A path without cost survives, and no other survivor is without cost. -/
theorem Survivors.free {inside : σ → Prop} (separates : T.Separates inside time)
    (closed : ∀ s x, inside s → T.allowed x → inside (T.next s x)) (within : inside start)
    (survivors : T.Survivors start time column) {path : List ι} (length : path.length = time)
    (allowed : ∀ x ∈ path, T.allowed x) (free : T.total 0 start path = 0) :
    column (T.walk start path) = some (0, path) ∧
      ∀ s path', column s = some (0, path') → path' = path := by
  have unique : ∀ s path', column s = some (0, path') → path' = path := by
    intro s path' found
    obtain ⟨length', _, total', allowed'⟩ := survivors.sound s 0 path' found
    exact eq_of_total_eq_zero separates closed (by omega) within
      (length'.trans length.symm) allowed' allowed total' free
  obtain ⟨cost, best, found, le⟩ := survivors.least path length allowed
  rw [free, Nat.le_zero] at le
  subst le
  exact ⟨unique _ best found ▸ found, unique⟩

end Trellis

end Inet.Lib
