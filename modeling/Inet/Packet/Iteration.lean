import Inet.Packet.PeekSound

/-!
# Moving and seeking iterators

An iterator of a sequence caches the index of the element that starts at its position. The
index is right when it is the one that seeking the position computes.
-/
namespace Inet.Packet

variable {F : Type} [Fields F]
variable (chunk : Chunk F) (isForward : Bool) (chunks : List (Chunk F)) (iterator : Iterator)
  (offset : Nat)

namespace Chunk

/-- The loop over the elements, in the direction of the iterator. `old` is the index the
iterator keeps if the loop runs past the last element. -/
def seekIndex (offset : Nat) (old : Option Nat) : List (Chunk F) → Nat → Nat → Option Nat
  | [], _, _ => old
  | chunk :: rest, i, p =>
    if p + chunk.getChunkLength = offset then some (i + 1)
    else if offset < p + chunk.getChunkLength then none
    else seekIndex offset old rest (i + 1) (p + chunk.getChunkLength)

def seekIterator (chunk : Chunk F) (iterator : Iterator) (offset : Nat) :
    Except ChunkError Iterator :=
  match chunk with
  | .sequence chunks =>
    if lengthOfAll chunks < offset then .error (.error "offset is out of range")
    else if offset = 0 then .ok ⟨iterator.isForward, offset, some 0⟩
    else .ok ⟨iterator.isForward, offset,
      seekIndex offset iterator.index (if iterator.isForward then chunks else chunks.reverse) 0 0⟩
  | _ => .ok ⟨iterator.isForward, offset, if offset = 0 then some 0 else none⟩

/-- A position may move either way, it stays non-negative. -/
def moveIterator (chunk : Chunk F) (iterator : Iterator) (length : Int) :
    Except ChunkError Iterator :=
  let position := (iterator.position + length).toNat
  match chunk with
  | .sequence chunks =>
    match iterator.index with
    | none => .ok ⟨iterator.isForward, position, none⟩
    | some index =>
      if index = chunks.length then .ok ⟨iterator.isForward, position, none⟩
      else
        match getElementChunk chunks iterator.isForward index with
        | none => .error .undefinedBehaviour
        | some chunk =>
          if chunk.getChunkLength = length then .ok ⟨iterator.isForward, position, some (index + 1)⟩
          else .ok ⟨iterator.isForward, position, none⟩
  | _ => .ok ⟨iterator.isForward, position, if position = 0 then some 0 else none⟩

/-- The check of `Packet` that an iterator is what seeking its position makes of it. -/
def isIteratorConsistent (chunk : Chunk F) (iterator : Iterator) : Bool :=
  match chunk.seekIterator iterator iterator.position with
  | .ok copy => iterator.index = none ∨ iterator.index = copy.index
  | .error _ => false

/-! ### Where an index points to -/

/-- The elements in the direction of an iterator. -/
def directed (isForward : Bool) (chunks : List (Chunk F)) : List (Chunk F) :=
  if isForward then chunks else chunks.reverse

omit [Fields F] in
@[simp] theorem length_directed :
    (directed isForward chunks).length = chunks.length := by
  cases isForward <;> simp [directed]

theorem lengthOfAll_directed :
    lengthOfAll (directed isForward chunks) = lengthOfAll chunks := by
  cases isForward
  · exact lengthOfAll_reverse chunks
  · rfl

theorem wellFormed_directed {chunks : List (Chunk F)}
    (wf : WellFormed (.sequence chunks)) : WellFormed (.sequence (directed isForward chunks)) := by
  cases isForward
  · exact wellFormed_reverse chunks wf
  · exact wf

omit [Fields F] in
theorem getElementChunk_eq (isForward : Bool) (index : Nat) :
    getElementChunk chunks isForward index = (directed isForward chunks)[index]? := by
  cases isForward <;> rfl

theorem WellFormed.tail {chunk : Chunk F} {rest : List (Chunk F)}
    (wf : WellFormed (.sequence (chunk :: rest))) :
    0 < chunk.getChunkLength ∧ WellFormed (.sequence rest) := by
  have each := (wellFormed_sequence_iff _).mp wf
  refine ⟨(each chunk List.mem_cons_self).2, (wellFormed_sequence_iff rest).mpr ?_⟩
  exact fun other member => each other (List.mem_cons_of_mem chunk member)

/-- The index a seek computes is the number of elements before the position. -/
theorem seekIndex_eq_some_iff (old : Option Nat) {chunks : List (Chunk F)}
    (wf : WellFormed (.sequence chunks)) (i p index : Nat) (before : p < offset)
    (inside : offset ≤ p + lengthOfAll chunks) :
    seekIndex offset old chunks i p = some index ↔
      i ≤ index ∧ index - i ≤ chunks.length ∧ p + lengthOfAll (chunks.take (index - i)) = offset := by
  induction chunks generalizing i p with
  | nil =>
    rw [lengthOfAll] at inside
    omega
  | cons chunk rest ih =>
    obtain ⟨positive, wf_rest⟩ := wf.tail
    rw [lengthOfAll] at inside
    -- the elements before an index are none, or the first one and those before the index behind
    have taken : index ≤ i ∨ ∃ k, index - i = k + 1 ∧ index - (i + 1) = k ∧
        lengthOfAll ((chunk :: rest).take (index - i)) =
          chunk.getChunkLength + lengthOfAll (rest.take k) := by
      rcases Nat.lt_or_ge i index with later | first
      · refine .inr ⟨index - (i + 1), by omega, rfl, ?_⟩
        rw [show index - i = index - (i + 1) + 1 by omega, List.take_succ_cons, lengthOfAll]
      · exact .inl first
    have first_length : index ≤ i → lengthOfAll ((chunk :: rest).take (index - i)) = 0 := by
      intro first
      rw [Nat.sub_eq_zero_of_le first, List.take_zero, lengthOfAll]
    unfold seekIndex
    split
    next here =>
      rw [Option.some.injEq]
      constructor
      · rintro rfl
        rw [show i + 1 - i = 1 by omega, List.take_succ_cons, List.take_zero, lengthOfAll,
          lengthOfAll, List.length_cons]
        omega
      · rintro ⟨above, bounded, total⟩
        rcases taken with first | ⟨k, index_eq, _, length_eq⟩
        · have := first_length first
          omega
        · cases k with
          | zero => omega
          | succ k =>
            cases rest with
            | nil =>
              rw [List.length_singleton] at bounded
              omega
            | cons next rest =>
              have := wf_rest.tail.1
              rw [List.take_succ_cons, lengthOfAll] at length_eq
              omega
    next not_here =>
      split
      next beyond =>
        simp only [reduceCtorEq, false_iff]
        rintro ⟨_, _, total⟩
        rcases taken with first | ⟨k, _, _, length_eq⟩
        · have := first_length first
          omega
        · omega
      next behind =>
        rw [ih wf_rest (i + 1) (p + chunk.getChunkLength) (by omega) (by omega)]
        rcases taken with first | ⟨k, index_eq, next_eq, length_eq⟩
        · have := first_length first
          constructor <;> rintro ⟨above, bounded, total⟩ <;> omega
        · rw [length_eq, next_eq, index_eq, List.length_cons]
          omega

theorem seekIterator_sequence {chunks : List (Chunk F)} {offset : Nat}
    (wf : WellFormed (.sequence chunks)) (inside : offset ≤ lengthOfAll chunks) :
    ∃ index, seekIterator (.sequence chunks) iterator offset =
        .ok ⟨iterator.isForward, offset, index⟩ ∧
      ∀ k, index = some k ↔ k ≤ chunks.length ∧
        lengthOfAll ((directed iterator.isForward chunks).take k) = offset := by
  unfold seekIterator
  simp only
  rw [if_neg (by omega)]
  have wf_directed := wellFormed_directed iterator.isForward wf
  split
  next start =>
    refine ⟨some 0, rfl, ?_⟩
    intro k
    subst start
    rw [Option.some.injEq]
    constructor
    · rintro rfl
      exact ⟨Nat.zero_le _, rfl⟩
    · rintro ⟨bounded, total⟩
      cases k with
      | zero => rfl
      | succ k =>
        rw [← length_directed iterator.isForward] at bounded
        generalize directed iterator.isForward chunks = ordered at *
        cases ordered with
        | nil => simp at bounded
        | cons chunk rest =>
          have := wf_directed.tail.1
          rw [List.take_succ_cons, lengthOfAll] at total
          omega
  next later =>
    refine ⟨_, rfl, ?_⟩
    intro k
    have := seekIndex_eq_some_iff offset iterator.index
      wf_directed 0 0 k (by omega) (by rw [lengthOfAll_directed]; omega)
    rw [length_directed, Nat.sub_zero, Nat.zero_add] at this
    simpa [directed] using this

theorem seekIterator_leaf {chunk : Chunk F} (leaf : ∀ chunks, chunk ≠ .sequence chunks) :
    seekIterator chunk iterator offset =
      .ok ⟨iterator.isForward, offset, if offset = 0 then some 0 else none⟩ := by
  cases chunk with
  | sequence chunks => exact absurd rfl (leaf chunks)
  | _ => rfl

/-- A position that lies in the chunk can be sought, and is found. -/
theorem seekIterator_ok (wf : chunk.WellFormed) (inside : offset ≤ chunk.getChunkLength) :
    ∃ index, chunk.seekIterator iterator offset = .ok ⟨iterator.isForward, offset, index⟩ ∧
      ∀ old, chunk.seekIterator ⟨iterator.isForward, offset, old⟩ offset =
        .ok ⟨iterator.isForward, offset, index⟩ := by
  cases chunk with
  | sequence chunks =>
    obtain ⟨index, sought, unique⟩ := seekIterator_sequence iterator wf inside
    refine ⟨index, sought, ?_⟩
    intro old
    obtain ⟨index', sought', unique'⟩ := seekIterator_sequence
      ⟨iterator.isForward, offset, old⟩ wf inside
    rw [sought']
    have same : index' = index := Option.ext fun k => by
      rw [unique' k, unique k]
    rw [same]
  | _ => exact ⟨_, rfl, fun _ => rfl⟩

theorem isIteratorConsistent_of_seek {chunk : Chunk F} (sought : Iterator) (offset : Nat)
    (wf : chunk.WellFormed) (inside : offset ≤ chunk.getChunkLength)
    (returned : chunk.seekIterator iterator offset = .ok sought) :
    chunk.isIteratorConsistent sought = true := by
  obtain ⟨index, sought_eq, again⟩ := seekIterator_ok chunk iterator offset wf inside
  rw [returned] at sought_eq
  cases sought_eq
  simp [isIteratorConsistent, again]

/-- A consistent index of a sequence points to an element that starts at the position. -/
theorem isIteratorConsistent_sequence_iff
    (wf : WellFormed (.sequence chunks)) (inside : iterator.position ≤ lengthOfAll chunks) :
    isIteratorConsistent (.sequence chunks) iterator = true ↔
      ∀ index, iterator.index = some index → index ≤ chunks.length ∧
        lengthOfAll ((directed iterator.isForward chunks).take index) = iterator.position := by
  obtain ⟨index, sought, unique⟩ :=
    seekIterator_sequence iterator wf inside
  simp only [isIteratorConsistent, sought, decide_eq_true_eq]
  cases pointed : iterator.index with
  | none => simp
  | some k =>
    simp only [reduceCtorEq, false_or, Option.some.injEq, forall_eq']
    rw [← unique k, eq_comm]

theorem isIteratorConsistent_leaf_iff (leaf : ∀ chunks, chunk ≠ .sequence chunks) :
    chunk.isIteratorConsistent iterator = true ↔
      (iterator.index = none ∨ (iterator.position = 0 ∧ iterator.index = some 0)) := by
  simp only [isIteratorConsistent, seekIterator_leaf iterator _ leaf, decide_eq_true_eq]
  split
  next start => simp [start]
  next later =>
    constructor
    · rintro (unset | unset) <;> exact .inl unset
    · rintro (unset | ⟨start, _⟩)
      · exact .inl unset
      · exact absurd start later

theorem IndexConsistent.of_check {chunk : Chunk F} {iterator : Iterator} (wf : chunk.WellFormed)
    (inside : iterator.position ≤ chunk.getChunkLength)
    (consistent : chunk.isIteratorConsistent iterator = true) :
    IndexConsistent chunk iterator := by
  cases chunk with
  | sequence chunks =>
    exact (isIteratorConsistent_sequence_iff chunks iterator wf inside).mp consistent
  | _ => trivial

/-- An iterator without an index is consistent. -/
theorem isIteratorConsistent_none (position : Nat)
    (wf : chunk.WellFormed) (inside : position ≤ chunk.getChunkLength) :
    chunk.isIteratorConsistent ⟨isForward, position, none⟩ = true := by
  obtain ⟨index, _, again⟩ := seekIterator_ok chunk ⟨isForward, position, none⟩ position wf inside
  simp [isIteratorConsistent, again]

/-- A consistent iterator that is moved within the chunk stays consistent. -/
theorem moveIterator_consistent (length : Int)
    (wf : chunk.WellFormed) (within : iterator.position ≤ chunk.getChunkLength)
    (consistent : chunk.isIteratorConsistent iterator = true)
    (above : 0 ≤ iterator.position + length)
    (inside : iterator.position + length ≤ chunk.getChunkLength) :
    ∃ moved, chunk.moveIterator iterator length = .ok moved ∧
      moved.isForward = iterator.isForward ∧ moved.position = iterator.position + length ∧
      chunk.isIteratorConsistent moved = true := by
  have fits : (iterator.position + length).toNat ≤ chunk.getChunkLength := by omega
  have position_eq : (((iterator.position + length).toNat : Nat) : Int) =
      iterator.position + length := by omega
  have unset := isIteratorConsistent_none chunk iterator.isForward _ wf fits
  cases chunk with
  | sequence chunks =>
    rw [isIteratorConsistent_sequence_iff chunks iterator wf within] at consistent
    unfold moveIterator
    simp only
    cases pointed : iterator.index with
    | none => exact ⟨_, rfl, rfl, position_eq, unset⟩
    | some index =>
      obtain ⟨bounded, starts⟩ := consistent index pointed
      simp only
      split
      next => exact ⟨_, rfl, rfl, position_eq, unset⟩
      next not_end =>
        have here : index < (directed iterator.isForward chunks).length := by
          rw [length_directed]
          omega
        rw [getElementChunk_eq, List.getElem?_eq_getElem here]
        simp only
        split
        next same =>
          refine ⟨_, rfl, rfl, position_eq, ?_⟩
          rw [isIteratorConsistent_sequence_iff chunks _ wf fits]
          rintro k ⟨⟩
          simp only
          rw [List.take_succ_eq_append_getElem here, lengthOfAll_append, lengthOfAll_singleton,
            starts]
          omega
        next => exact ⟨_, rfl, rfl, position_eq, unset⟩
  | _ =>
    refine ⟨_, rfl, rfl, position_eq, ?_⟩
    rw [isIteratorConsistent_leaf_iff _ _ (by simp)]
    simp only
    split
    next start => exact .inr ⟨start, rfl⟩
    next => exact .inl rfl

/-! ### What a consistent index leads to -/

/-- A part of an element is located at the element. -/
theorem locate_at (before after : List (Chunk F)) (element : Chunk F) (inner length : Nat)
    (starts : inner < element.getChunkLength) (ends : inner + length ≤ element.getChunkLength) :
    locate (before ++ element :: after) (lengthOfAll before + inner) length =
      some (element, inner) := by
  induction before with
  | nil =>
    rw [lengthOfAll, Nat.zero_add, List.nil_append, locate, if_pos starts, if_pos ends]
  | cons chunk before ih =>
    rw [List.cons_append, lengthOfAll, locate, if_neg (by omega),
      show chunk.getChunkLength + lengthOfAll before + inner - chunk.getChunkLength =
        lengthOfAll before + inner by omega, ih]

/-- Whether an element is found by its index or by the loop makes no difference. -/
theorem peekSequence_eq (sharing : Sharing F) (below : Level F) (chunks : List (Chunk F))
    (iterator : Iterator) (length : Nat) (flags : PeekFlags) (wf : WellFormed (.sequence chunks))
    (positive : 0 < length) (inside : iterator.position + length ≤ lengthOfAll chunks)
    (consistent : isIteratorConsistent (.sequence chunks) iterator = true) :
    peekSequence sharing below chunks iterator length flags =
      if iterator.position = 0 ∧ length = lengthOfAll chunks then .ok (some (.sequence chunks))
      else
        match locate (directed iterator.isForward chunks) iterator.position length with
        | none => peekSequenceChunk sharing below chunks iterator length
        | some (element, inner) =>
          if inner = 0 ∧ length = element.getChunkLength then .ok (some element)
          else below.peekUnchecked element ⟨iterator.isForward, inner, none⟩ length flags := by
  rw [isIteratorConsistent_sequence_iff chunks iterator wf (by omega)] at consistent
  have unindexed : peekUnindexed sharing below chunks iterator length flags =
      match locate (directed iterator.isForward chunks) iterator.position length with
      | none => peekSequenceChunk sharing below chunks iterator length
      | some (element, inner) =>
        if inner = 0 ∧ length = element.getChunkLength then .ok (some element)
        else below.peekUnchecked element ⟨iterator.isForward, inner, none⟩ length flags := by
    unfold peekUnindexed
    rw [← directed, peekElements_eq iterator length flags positive _
      (wellFormed_directed iterator.isForward wf) 0, if_neg (Nat.not_lt_zero _),
      Nat.sub_zero]
    cases locate (directed iterator.isForward chunks) iterator.position length with
    | none => rfl
    | some found =>
      simp only
      by_cases whole : found.2 = 0 ∧ length = found.1.getChunkLength
      · rw [if_pos whole, if_pos whole]
      · rw [if_neg whole, if_neg whole]
  unfold peekSequence
  simp only
  rw [if_neg (by omega), if_neg (by omega)]
  by_cases whole : iterator.position = 0 ∧ length = lengthOfAll chunks
  · rw [if_pos (by exact_mod_cast whole), if_pos whole]
  rw [if_neg (by exact_mod_cast whole), if_neg whole]
  cases pointed : iterator.index with
  | none => exact unindexed
  | some index =>
    obtain ⟨bounded, starts⟩ := consistent index pointed
    simp only
    split
    next => exact unindexed
    next not_end =>
      have here : index < (directed iterator.isForward chunks).length := by
        rw [length_directed]
        omega
      rw [getElementChunk_eq, List.getElem?_eq_getElem here]
      simp only
      split
      next same =>
        have length_eq : length = (directed iterator.isForward chunks)[index].getChunkLength := by
          omega
        have located := locate_at ((directed iterator.isForward chunks).take index)
          ((directed iterator.isForward chunks).drop (index + 1))
          (directed iterator.isForward chunks)[index] 0 length (by omega) (by omega)
        rw [← List.drop_eq_getElem_cons here, List.take_append_drop, starts,
          Nat.add_zero] at located
        rw [located]
        exact (if_pos ⟨rfl, length_eq⟩).symm
      next => exact unindexed

end Chunk
end Inet.Packet
