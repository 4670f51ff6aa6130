import Mathlib
import Inet.Lib.Except

/-!
# Insertion at the upper bound

`std::upper_bound` over a vector that is sorted by a rank, and the insertion of the value there.
Among elements of the same rank the new one stands last.
-/
namespace Inet.Lib

universe u

variable {ε α : Type u}

/-- The place of the first element that the value is less than. The range has to be partitioned:
the value is also less than all elements behind it. -/
def upperBound (unordered : ε) (less : α → α → Bool) (value : α) (range : List α) :
    Except ε Nat :=
  let before := range.takeWhile fun element => !less value element
  if (range.drop before.length).all (less value) then .ok before.length else .error unordered

variable {β : Type u} [LinearOrder β] (rank : α → β)

/-- No element is before one of a smaller rank. -/
def Ranked (range : List α) : Prop := range.Pairwise fun a b => rank a ≤ rank b

variable {rank} {unordered : ε} {less : α → α → Bool} {value : α} {range : List α}

/-- In a sorted range the upper bound parts the elements that are not greater from the others. -/
theorem upperBound_ok (unordered : ε) (value : α) (byRank : ∀ a b, less a b = decide (rank a < rank b))
    (sorted : Ranked rank range) :
    ∃ position ≤ range.length, upperBound unordered less value range = .ok position ∧
      (∀ a ∈ range.take position, rank a ≤ rank value) ∧
      ∀ a ∈ range.drop position, rank value < rank a := by
  have beyond : ∀ a ∈ range.drop (range.takeWhile fun a => !less value a).length,
      rank value < rank a := by
    induction range with
    | nil => simp
    | cons first rest ih =>
      obtain ⟨above, sorted⟩ := List.pairwise_cons.mp sorted
      by_cases before : rank value < rank first
      · simp only [byRank, before, decide_true, Bool.not_true, List.takeWhile_cons_of_neg,
          Bool.false_eq_true, not_false_eq_true, List.length_nil, List.drop_zero, List.mem_cons,
          forall_eq_or_imp, true_and]
        exact fun a member => lt_of_lt_of_le before (above a member)
      · simpa [byRank, before] using ih sorted
  have below : ∀ a ∈ range.take (range.takeWhile fun a => !less value a).length,
      rank a ≤ rank value := by
    intro a member
    rw [← List.prefix_iff_eq_take.mp (List.takeWhile_prefix _)] at member
    have holds := List.mem_takeWhile_imp member
    simpa [byRank] using holds
  refine ⟨_, (List.takeWhile_prefix _).length_le, if_pos ?_, below, beyond⟩
  rw [List.all_eq_true]
  intro a member
  rw [byRank]
  exact decide_eq_true (beyond a member)

/-- The upper bound depends on what is compared only. -/
theorem upperBound_map {f : α → α} {value' : α}
    (same : ∀ a, less value' (f a) = less value a) :
    upperBound unordered less value' (range.map f) = upperBound unordered less value range := by
  have both : less value' ∘ f = less value := funext same
  have before : (range.map f).takeWhile (fun a => !less value' a) =
      (range.takeWhile fun a => !less value a).map f := by
    rw [List.takeWhile_map]
    exact congrArg (fun p => (range.takeWhile p).map f)
      (funext fun a => congrArg (!·) (same a))
  simp only [upperBound, before, List.length_map, ← List.map_drop, List.all_map, both]

theorem insertIdx_eq {position : Nat} (inside : position ≤ range.length) :
    range.insertIdx position value = range.take position ++ value :: range.drop position := by
  induction range generalizing position with
  | nil =>
    obtain rfl : position = 0 := by simpa using inside
    rfl
  | cons first rest ih =>
    cases position with
    | zero => rfl
    | succ position =>
      rw [List.insertIdx_succ_cons, ih (by simpa using inside)]
      rfl

/-- The insertion at the upper bound keeps the range sorted. -/
theorem Ranked.insertIdx {position : Nat} (sorted : Ranked rank range)
    (inside : position ≤ range.length) (below : ∀ a ∈ range.take position, rank a ≤ rank value)
    (beyond : ∀ a ∈ range.drop position, rank value < rank a) :
    Ranked rank (range.insertIdx position value) := by
  rw [insertIdx_eq inside]
  rw [Ranked, ← List.take_append_drop position range, List.pairwise_append] at sorted
  obtain ⟨front, back, across⟩ := sorted
  refine List.pairwise_append.mpr ⟨front, List.pairwise_cons.mpr ⟨?_, back⟩, ?_⟩
  · exact fun a member => (beyond a member).le
  · intro a first b second
    rcases List.mem_cons.mp second with rfl | second
    · exact below a first
    · exact across a first b second

/-- An element of another rank may stay where it is in order with those around it. -/
theorem Ranked.rerank {rank' : α → β} {front back : List α}
    (sorted : Ranked rank (front ++ value :: back)) (nodup : (front ++ value :: back).Nodup)
    (other : ∀ a, a ≠ value → rank' a = rank a) (before : ∀ a ∈ front, rank a ≤ rank' value)
    (behind : ∀ a ∈ back, rank' value ≤ rank a) : Ranked rank' (front ++ value :: back) := by
  obtain ⟨inFront, rest, across⟩ := List.pairwise_append.mp sorted
  obtain ⟨_, inBack⟩ := List.pairwise_cons.mp rest
  obtain ⟨_, apart, notFront⟩ := List.nodup_append.mp nodup
  have frontSame (a : α) (member : a ∈ front) : rank' a = rank a :=
    other a (notFront a member value List.mem_cons_self)
  have backSame (a : α) (member : a ∈ back) : rank' a = rank a :=
    other a fun same => (List.nodup_cons.mp apart).1 (same ▸ member)
  refine List.pairwise_append.mpr ⟨?_, List.pairwise_cons.mpr ⟨?_, ?_⟩, ?_⟩
  · refine inFront.imp_of_mem fun {a b} first second le => ?_
    rw [frontSame a first, frontSame b second]
    exact le
  · intro a member
    rw [backSame a member]
    exact behind a member
  · refine inBack.imp_of_mem fun {a b} first second le => ?_
    rw [backSame a first, backSame b second]
    exact le
  · intro a first b second
    rw [frontSame a first]
    rcases List.mem_cons.mp second with rfl | second
    · exact before a first
    · rw [backSame b second]
      exact across a first b (.tail _ second)

end Inet.Lib
