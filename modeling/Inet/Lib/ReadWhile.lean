import Mathlib.Tactic.Basic

/-!
# Reading items from a list while there is room

Items are read one after the other from a list of known length, as long as a limit of elements has not
been passed. What an item takes is known before it is read.
-/
namespace Inet.Lib

variable {α β : Type}
variable {goesOn : List β → Bool}

/-- The items that are read while a condition holds, if it does no longer after some rounds. -/
def readWhile (read : List β → α × List β) (goesOn : List β → Bool) :
    Nat → List β → Option (List α × List β)
  | 0, _ => none
  | rounds + 1, stream =>
    if goesOn stream then do
      let (item, stream) := read stream
      let (items, stream) ← readWhile read goesOn rounds stream
      return (item :: items, stream)
    else return ([], stream)

/-- An item takes as many elements as its size says, of those that are there. -/
structure Takes (read : List β → α × List β) (size : List β → Nat) : Prop where
  positive : ∀ stream, 0 < size stream
  left : ∀ stream, (read stream).2 = stream.drop (size stream)

/-- The sizes of the items from here on add up to the room. -/
inductive Tile (size : List β → Nat) : Nat → List β → Prop
  | done (stream : List β) : Tile size 0 stream
  | next {room : Nat} {stream : List β} : 0 < room → size stream ≤ room →
      Tile size (room - size stream) (stream.drop (size stream)) → Tile size room stream

variable {read : List β → α × List β} {size : List β → Nat} {total limit rounds : Nat}
  {stream : List β}

theorem tile_iff {room : Nat} (stream : List β) (some : 0 < room) : Tile size room stream ↔
    size stream ≤ room ∧ Tile size (room - size stream) (stream.drop (size stream)) := by
  refine ⟨fun tile => ?_, fun ⟨fits, tile⟩ => .next some fits tile⟩
  cases tile with
  | done => omega
  | next _ fits tile => exact ⟨fits, tile⟩

/-- One round of the loop. -/
theorem readWhile_succ (more : goesOn stream = true) :
    readWhile read goesOn (rounds + 1) stream =
      (readWhile read goesOn rounds (read stream).2).map fun result =>
        ((read stream).1 :: result.1, result.2) := by
  rw [readWhile, if_pos more]
  obtain ⟨item, left⟩ := read stream
  dsimp only
  cases readWhile read goesOn rounds left <;> rfl

theorem readWhile_stop (stops : goesOn stream = false) :
    readWhile read goesOn (rounds + 1) stream = some ([], stream) := by
  rw [readWhile, stops]
  rfl

/-- Conditions that agree on what is left of the list make the same loop. -/
theorem readWhile_congr {total : Nat} {goesOn' : List β → Bool} (takes : Takes read size)
    (same : ∀ left : List β, left.length ≤ total → goesOn left = goesOn' left)
    (inside : stream.length ≤ total) :
    readWhile read goesOn rounds stream = readWhile read goesOn' rounds stream := by
  induction rounds generalizing stream with
  | zero => rfl
  | succ rounds ih =>
    cases more : goesOn stream with
    | false => rw [readWhile_stop more, readWhile_stop ((same stream inside).symm.trans more)]
    | true =>
      rw [readWhile_succ more, readWhile_succ ((same stream inside).symm.trans more), ih]
      rw [takes.left, List.length_drop]
      omega

/-- Behind the end of the list the loop goes on for ever below a limit that is not reached. -/
theorem readWhile_stuck (misses : total < limit) :
    readWhile read (fun left => total - left.length < limit) rounds stream = none := by
  induction rounds generalizing stream with
  | zero => rfl
  | succ rounds ih =>
    rw [readWhile_succ (decide_eq_true (by omega)), ih]
    rfl

section
variable (takes : Takes read size)
include takes

/-- The loop ends when what is there reaches the limit, after one item for each element at most. -/
theorem readWhile_ends (limit : Nat) (stream : List β) (reaches : limit ≤ total)
    (inside : stream.length ≤ total) (enough : limit - (total - stream.length) < rounds) :
    ∃ items left, readWhile read (fun left => total - left.length < limit) rounds stream =
      some (items, left) ∧ items.length ≤ limit - (total - stream.length) ∧
      left.length ≤ stream.length := by
  induction rounds generalizing stream with
  | zero => omega
  | succ rounds ih =>
    by_cases more : total - stream.length < limit
    · rw [readWhile_succ (by simpa using more)]
      have shorter : (read stream).2.length = stream.length - size stream := by
        rw [takes.left, List.length_drop]
      have positive := takes.positive stream
      obtain ⟨items, left, returned, few, within⟩ := ih (read stream).2 (by omega)
        (by omega)
      refine ⟨(read stream).1 :: items, left, by rw [returned]; rfl, ?_, by omega⟩
      rw [List.length_cons]
      omega
    · exact ⟨[], stream, readWhile_stop (by simpa using more), Nat.zero_le _, Nat.le_refl _⟩

theorem left_shorter {items : List α} {left : List β}
    (returned : readWhile read goesOn rounds stream = some (items, left)) :
    left.length ≤ stream.length := by
  induction rounds generalizing stream items with
  | zero => cases returned
  | succ rounds ih =>
    cases more : goesOn stream with
    | false =>
      rw [readWhile_stop more] at returned
      cases returned
      exact Nat.le_refl _
    | true =>
      rw [readWhile_succ more] at returned
      obtain ⟨⟨items', left'⟩, rest, equal⟩ := Option.map_eq_some_iff.mp returned
      cases equal
      have := ih rest
      rw [takes.left, List.length_drop] at this
      omega

/-- The loop stays within the limit exactly when the items end there. -/
theorem readWhile_within_iff {items : List α} {left : List β} (more : limit < total)
    (inside : stream.length ≤ total) (before : total - stream.length ≤ limit)
    (returned : readWhile read (fun left => total - left.length < limit) rounds stream =
      some (items, left)) :
    total - left.length ≤ limit ↔ Tile size (limit - (total - stream.length)) stream := by
  induction rounds generalizing stream items with
  | zero => cases returned
  | succ rounds ih =>
    by_cases room : total - stream.length < limit
    · rw [readWhile_succ (by simpa using room)] at returned
      obtain ⟨⟨items', left'⟩, rest, equal⟩ := Option.map_eq_some_iff.mp returned
      cases equal
      have positive := takes.positive stream
      have shorter : (read stream).2.length = stream.length - size stream := by
        rw [takes.left, List.length_drop]
      by_cases fits : size stream ≤ limit - (total - stream.length)
      · rw [ih (by omega) (by omega) rest]
        have smaller : limit - (total - (read stream).2.length) =
            limit - (total - stream.length) - size stream := by omega
        rw [smaller, takes.left, tile_iff stream (by omega), and_iff_right fits]
      · have beyond := left_shorter takes rest
        dsimp only at beyond ⊢
        rw [tile_iff stream (by omega)]
        exact ⟨fun within => absurd within (by omega), fun tile => absurd tile.1 fits⟩
    · rw [readWhile_stop (by simpa using room)] at returned
      cases returned
      rw [show limit - (total - left.length) = 0 by omega]
      exact ⟨fun _ => .done _, fun _ => before⟩

end

end Inet.Lib
