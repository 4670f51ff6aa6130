import Mathlib.Data.List.Pairwise

/-!
# Pieces

A partial map from offsets to elements, kept as pieces of consecutive elements. Separated
pieces stand in ascending order, are not empty and leave a gap between each two of them.
-/
namespace Inet.Lib

variable {α : Type}
variable (start : Nat)

structure Piece (α : Type) where
  start : Nat
  elements : List α

/-! ### Partial maps -/

/-- The map with some elements written from an offset on. -/
def overwrite (map : Nat → Option α) (offset : Nat) (elements : List α) (i : Nat) : Option α :=
  if offset ≤ i ∧ i < offset + elements.length then elements[i - offset]? else map i

/-- The map without what is at the offsets from one to another. -/
def erase (map : Nat → Option α) (start stop : Nat) (i : Nat) : Option α :=
  if start ≤ i ∧ i < stop then none else map i

variable (piece : Piece α)

namespace Piece

def stop (piece : Piece α) : Nat := piece.start + piece.elements.length

def get (piece : Piece α) (i : Nat) : Option α :=
  if piece.start ≤ i then piece.elements[i - piece.start]? else none

theorem get_eq_none_iff (i : Nat) :
    piece.get i = none ↔ i < piece.start ∨ piece.stop ≤ i := by
  unfold get stop
  split
  next started =>
    rw [List.getElem?_eq_none_iff]
    omega
  next before => simpa using .inl (by omega)

theorem get_eq_some {i : Nat} (started : piece.start ≤ i) (inside : i < piece.stop) :
    ∃ element, piece.get i = some element ∧ piece.elements[i - piece.start]? = some element := by
  cases found : piece.get i with
  | none =>
    rcases (piece.get_eq_none_iff i).mp found with before | behind <;> omega
  | some element =>
    unfold get at found
    rw [if_pos started] at found
    exact ⟨element, rfl, found⟩

theorem get_take (n : Nat) (elements : List α) (i : Nat) :
    get ⟨start, elements.take n⟩ i = if i < start + n then get ⟨start, elements⟩ i else none := by
  unfold get
  simp only
  by_cases started : start ≤ i
  · simp only [if_pos started, List.getElem?_take]
    by_cases inside : i < start + n
    · rw [if_pos (by omega), if_pos inside]
    · rw [if_neg (by omega), if_neg inside]
  · simp only [if_neg started, ite_self]

theorem get_drop (n : Nat) (elements : List α) (i : Nat) :
    get ⟨start + n, elements.drop n⟩ i =
      if start + n ≤ i then get ⟨start, elements⟩ i else none := by
  unfold get
  simp only
  by_cases behind : start + n ≤ i
  · rw [if_pos behind, if_pos behind, if_pos (by omega), List.getElem?_drop]
    congr 1
    omega
  · rw [if_neg behind, if_neg behind]

/-- Consecutive pieces are one piece. -/
theorem get_append (front back : List α) (i : Nat) :
    get ⟨start, front ++ back⟩ i =
      (get ⟨start, front⟩ i).or (get ⟨start + front.length, back⟩ i) := by
  unfold get
  simp only
  by_cases started : start ≤ i
  · rw [if_pos started, if_pos started]
    by_cases inside : i < start + front.length
    · rw [List.getElem?_append_left (by omega), if_neg (by omega), Option.or_none]
    · rw [List.getElem?_append_right (by omega), if_pos (by omega),
        List.getElem?_eq_none (show front.length ≤ i - start by omega), Option.none_or]
      congr 1
      omega
  · rw [if_neg started, if_neg started, if_neg (by omega)]
    rfl

end Piece

/-- What some pieces hold at an offset. -/
def lookup (pieces : List (Piece α)) (i : Nat) : Option α := pieces.findSome? (·.get i)

@[simp] theorem lookup_nil (i : Nat) : lookup ([] : List (Piece α)) i = none := rfl

@[simp] theorem lookup_cons (pieces : List (Piece α)) (i : Nat) :
    lookup (piece :: pieces) i = (piece.get i).or (lookup pieces i) := by
  unfold lookup
  rw [List.findSome?_cons]
  cases piece.get i <;> rfl

@[simp] theorem lookup_append (front back : List (Piece α)) (i : Nat) :
    lookup (front ++ back) i = (lookup front i).or (lookup back i) := by
  induction front with
  | nil => rfl
  | cons piece rest ih => simp [ih, Option.or_assoc]

theorem lookup_eq_none_iff (pieces : List (Piece α)) (i : Nat) :
    lookup pieces i = none ↔ ∀ piece ∈ pieces, i < piece.start ∨ piece.stop ≤ i := by
  simp only [lookup, List.findSome?_eq_none_iff, Piece.get_eq_none_iff]

/-- A piece that is written where nothing is written otherwise. -/
theorem lookup_overwrite (front back : List (Piece α)) (piece : Piece α) (i : Nat)
    (free : piece.start ≤ i → i < piece.stop → lookup front i = none) :
    lookup (front ++ piece :: back) i =
      overwrite (lookup (front ++ back)) piece.start piece.elements i := by
  rw [lookup_append, lookup_cons, overwrite, lookup_append]
  by_cases inside : piece.start ≤ i ∧ i < piece.start + piece.elements.length
  · obtain ⟨element, found, indexed⟩ := piece.get_eq_some inside.1 inside.2
    rw [if_pos inside, free inside.1 inside.2, found, indexed]
    rfl
  · have missing : piece.get i = none := by
      apply (piece.get_eq_none_iff i).mpr
      unfold Piece.stop
      omega
    rw [if_neg inside, missing]
    rfl

/-! ### Separated pieces -/

structure Separated (pieces : List (Piece α)) : Prop where
  nonempty : ∀ piece ∈ pieces, piece.start < piece.stop
  ordered : pieces.Pairwise fun piece next => piece.stop < next.start

namespace Separated

variable {pieces : List (Piece α)}

theorem tail {piece : Piece α} (separated : Separated (piece :: pieces)) : Separated pieces where
  nonempty other member := separated.nonempty other (List.mem_cons_of_mem _ member)
  ordered := (List.pairwise_cons.mp separated.ordered).2

/-- Two different pieces leave a gap between them. -/
theorem apart (separated : Separated pieces) {piece other : Piece α} (member : piece ∈ pieces)
    (other_member : other ∈ pieces) (different : piece ≠ other) :
    piece.stop < other.start ∨ other.stop < piece.start := by
  have : Std.Symm fun piece other : Piece α =>
      piece.stop < other.start ∨ other.stop < piece.start := ⟨fun _ _ => Or.symm⟩
  have gaps : pieces.Pairwise fun piece other =>
      piece.stop < other.start ∨ other.stop < piece.start := separated.ordered.imp Or.inl
  exact gaps.forall member other_member different

/-- Behind the end of a piece there is a gap. -/
theorem lookup_stop (separated : Separated pieces) {piece : Piece α} (member : piece ∈ pieces) :
    lookup pieces piece.stop = none := by
  rw [lookup_eq_none_iff]
  intro other other_member
  by_cases same : piece = other
  · subst same
    exact .inr (Nat.le_refl _)
  · have filled := separated.nonempty piece member
    rcases separated.apart member other_member same with later | earlier
    · exact .inl later
    · exact .inr (by omega)

/-- Each piece tells what is at its offsets. -/
theorem lookup_eq_get (separated : Separated pieces) {piece : Piece α} (member : piece ∈ pieces)
    {i : Nat} (started : piece.start ≤ i) (inside : i < piece.stop) :
    lookup pieces i = piece.get i := by
  induction pieces with
  | nil => cases member
  | cons first rest ih =>
    have later := (List.pairwise_cons.mp separated.ordered).1
    rw [lookup_cons]
    rcases List.mem_cons.mp member with rfl | member
    · obtain ⟨element, found, _⟩ := piece.get_eq_some started inside
      rw [found]
      rfl
    · have := later piece member
      rw [(first.get_eq_none_iff i).mpr (.inr (by omega)), Option.none_or, ih separated.tail member]

/-- Pieces that hold something at exactly the first offsets are one piece. -/
theorem eq_singleton (separated : Separated pieces) {n : Nat} (positive : 0 < n)
    (whole : ∀ i, (lookup pieces i).isSome ↔ i < n) :
    ∃ elements, pieces = [⟨0, elements⟩] ∧ elements.length = n := by
  cases pieces with
  | nil => simpa using (whole 0).mpr positive
  | cons piece rest =>
    have later := (List.pairwise_cons.mp separated.ordered).1
    have nonempty := separated.nonempty piece List.mem_cons_self
    have starts : piece.start = 0 := by
      by_contra behind
      have nothing : lookup (piece :: rest) 0 = none := by
        rw [lookup_eq_none_iff]
        intro other member
        rcases List.mem_cons.mp member with rfl | member
        · exact .inl (by omega)
        · have := later other member
          exact .inl (by omega)
      have present := (whole 0).mpr positive
      rw [nothing] at present
      cases present
    -- the gap behind the piece is the first offset without anything
    have stops : piece.stop = n := by
      rcases Nat.lt_trichotomy piece.stop n with short | same | long
      · have present := (whole piece.stop).mpr short
        rw [separated.lookup_stop List.mem_cons_self] at present
        cases present
      · exact same
      · have absent : ¬(lookup (piece :: rest) n).isSome := fun present =>
          Nat.lt_irrefl n ((whole n).mp present)
        obtain ⟨element, found, _⟩ := piece.get_eq_some (by omega) long
        rw [lookup_cons, found] at absent
        exact absurd rfl absent
    have alone : rest = [] := by
      cases rest with
      | nil => rfl
      | cons next others =>
        have behind := later next List.mem_cons_self
        have filled := separated.nonempty next (by simp)
        have member : next ∈ piece :: next :: others := by simp
        have present := separated.lookup_eq_get member (Nat.le_refl _) filled
        obtain ⟨element, found, _⟩ := next.get_eq_some (Nat.le_refl _) filled
        rw [found] at present
        have := (whole next.start).mp (by rw [present]; rfl)
        omega
    obtain ⟨start, elements⟩ := piece
    simp only [Piece.stop] at starts stops
    subst starts alone
    exact ⟨elements, rfl, by omega⟩

end Separated

end Inet.Lib
