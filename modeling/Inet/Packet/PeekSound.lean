import Mathlib
import Inet.Packet.Peek

/-!
# Peeking and inserting are sound

A part that lies in a well-formed chunk is peeked without an error, as a chunk of its length;
a chunk that may be inserted is inserted, and the lengths add up. The bits are the ones they
should be wherever no fill byte is lost.
-/
namespace Inet.Packet

open Lib

variable {F : Type} [Fields F]
variable (bs : List UInt8) (offset length : Nat)

/-! ### Sides -/

namespace Side

variable {α β : Type}
variable (side : Side) (xs : List α)

/-- What is added by adding one list after the other at the same side. -/
def gather (side : Side) : List (List α) → List α
  | [] => []
  | xs :: rest => side.join xs (gather side rest)

theorem join_assoc (ys zs : List α) :
    side.join (side.join xs ys) zs = side.join xs (side.join ys zs) := by
  cases side <;> simp [join]

@[simp] theorem join_nil : side.join xs [] = xs := by
  cases side <;> simp [join]

theorem gather_front (xss : List (List α)) : gather front xss = xss.reverse.flatten := by
  induction xss with
  | nil => rfl
  | cons xs rest ih => simp [gather, join, ih]

theorem gather_back (xss : List (List α)) : gather back xss = xss.flatten := by
  induction xss with
  | nil => rfl
  | cons xs rest ih => simp [gather, join, ih]

/-- Elements are inserted in the order that keeps them in order. -/
theorem gather_order (f : α → List β) (xs : List α) :
    side.gather ((side.order xs).map f) = (xs.map f).flatten := by
  cases side with
  | front => rw [gather_front, order, List.map_reverse, List.reverse_reverse]
  | back => rw [gather_back, order]

theorem sum_order (f : α → Nat) (xs : List α) :
    ((side.order xs).map f).sum = (xs.map f).sum := by
  cases side with
  | front => rw [order, List.map_reverse, List.sum_reverse]
  | back => rfl

theorem mem_order (x : α) (xs : List α) : x ∈ side.order xs ↔ x ∈ xs := by
  cases side <;> simp [order]

/-- A list that is not empty is its outermost element and the others. -/
theorem exists_of_outermost (x : α) (outermost : side.outermost xs = some x) :
    ∃ others, xs = side.join others [x] ∧ ∀ y, side.replaceOutermost xs y = side.join others [y] := by
  cases side with
  | front =>
    cases xs with
    | nil => cases outermost
    | cons head rest =>
      cases outermost
      exact ⟨rest, rfl, fun y => rfl⟩
  | back =>
    obtain ⟨others, rfl⟩ := List.getLast?_eq_some_iff.mp outermost
    refine ⟨others, rfl, ?_⟩
    intro y
    simp [replaceOutermost, join]

end Side

namespace Chunk

variable (sharing : Sharing F) (side : Side) (chunk : Chunk F) (xs : List (Chunk F))
  (iterator : Iterator) (ys chunks : List (Chunk F))

/-! ### Sequences of elements -/

theorem bitsOfAll_join :
    bitsOfAll (side.join xs ys) = side.join (bitsOfAll xs) (bitsOfAll ys) := by
  cases side <;> simp [Side.join]

theorem lengthOfAll_join :
    lengthOfAll (side.join xs ys) = lengthOfAll xs + lengthOfAll ys := by
  cases side <;> simp [Side.join, Nat.add_comm]

omit [Fields F] in
theorem sizeOfAll_join :
    sizeOfAll (side.join xs ys) = sizeOfAll xs + sizeOfAll ys := by
  cases side <;> simp [Side.join, Nat.add_comm]

@[simp] theorem bitsOfAll_singleton : bitsOfAll [chunk] = chunk.bits := by
  simp [bitsOfAll]

@[simp] theorem lengthOfAll_singleton :
    lengthOfAll [chunk] = chunk.getChunkLength := by
  simp [lengthOfAll]

omit [Fields F] in
@[simp] theorem sizeOfAll_singleton : sizeOfAll [chunk] = chunk.size := by
  simp [sizeOfAll]

theorem bitsOfAll_eq_flatten :
    bitsOfAll chunks = (chunks.map bits).flatten := by
  induction chunks with
  | nil => rfl
  | cons chunk rest ih => rw [bitsOfAll, ih, List.map_cons, List.flatten_cons]

theorem lengthOfAll_eq_sum :
    lengthOfAll chunks = (chunks.map getChunkLength).sum := by
  induction chunks with
  | nil => rfl
  | cons chunk rest ih => rw [lengthOfAll, ih, List.map_cons, List.sum_cons]

omit [Fields F] in
theorem sizeOfAll_eq_sum :
    sizeOfAll chunks = (chunks.map size).sum := by
  induction chunks with
  | nil => rfl
  | cons chunk rest ih => rw [sizeOfAll, ih, List.map_cons, List.sum_cons]

theorem wellFormed_sequence_iff :
    WellFormed (.sequence chunks) ↔
      ∀ chunk ∈ chunks, chunk.WellFormed ∧ 0 < chunk.getChunkLength := by
  constructor
  · intro wf chunk member
    cases wf with
    | sequence wf positive => exact ⟨wf chunk member, positive chunk member⟩
  · intro each
    exact .sequence (fun chunk member => (each chunk member).1)
      fun chunk member => (each chunk member).2

theorem wellFormed_join :
    WellFormed (.sequence (side.join xs ys)) ↔
      WellFormed (.sequence xs) ∧ WellFormed (.sequence ys) := by
  simp only [wellFormed_sequence_iff]
  cases side with
  | front =>
    simp only [Side.join, List.mem_append, or_imp, forall_and]
    tauto
  | back => simp only [Side.join, List.mem_append, or_imp, forall_and]; tauto

theorem wellFormed_singleton :
    WellFormed (.sequence [chunk]) ↔ chunk.WellFormed ∧ 0 < chunk.getChunkLength := by
  simp [wellFormed_sequence_iff]

/-! ### Simplifying -/

theorem simplify_slice (offset length : Nat) :
    (slice chunk offset length).simplify =
      if offset = 0 ∧ length = chunk.getChunkLength then chunk else slice chunk offset length := rfl

omit [Fields F] in
theorem size_slice (offset length : Nat) :
    (slice chunk offset length).size = chunk.size := rfl

theorem WellFormed.simplify {chunk : Chunk F} (wf : chunk.WellFormed) :
    chunk.simplify.WellFormed := by
  cases wf with
  | slice wf inside =>
    rw [simplify_slice]
    split
    · exact wf
    · exact .slice wf inside
  | empty => exact .empty
  | bytes bs => exact .bytes bs
  | byteCount length data => exact .byteCount length data
  | fields content => exact .fields content
  | sequence wf positive => exact .sequence wf positive

theorem getChunkLength_simplify :
    chunk.simplify.getChunkLength = chunk.getChunkLength := by
  cases chunk with
  | slice chunk offset length =>
    rw [simplify_slice]
    split
    next whole => exact whole.2.symm
    next => rfl
  | _ => rfl

theorem size_simplify : chunk.simplify.size = chunk.size := by
  cases chunk with
  | slice chunk offset length =>
    rw [simplify_slice]
    split <;> rfl
  | _ => rfl

theorem bits_simplify {chunk : Chunk F} (wf : chunk.WellFormed) :
    chunk.simplify.bits = chunk.bits := by
  cases wf with
  | @slice chunk offset length wf inside =>
    rw [simplify_slice]
    split
    next whole =>
      obtain ⟨rfl, rfl⟩ := whole
      rw [bits, List.drop_zero, List.take_of_length_le (Nat.le_of_eq wf.length_bits)]
    next => rfl
  | _ => rfl

/-! ### What a level has to do -/

/-- The index of an iterator points to an element or behind the last one. -/
def IndexInRange : Chunk F → Iterator → Prop
  | .sequence chunks, iterator => ∀ index, iterator.index = some index → index ≤ chunks.length
  | _, _ => True

/-- The index of an iterator is -1 or belongs to an element that starts at its position. -/
def IndexConsistent : Chunk F → Iterator → Prop
  | .sequence chunks, iterator => ∀ index, iterator.index = some index →
      index ≤ chunks.length ∧
        lengthOfAll ((if iterator.isForward then chunks else chunks.reverse).take index) =
          iterator.position
  | _, _ => True

/-- What is peeked of a chunk. -/
structure Peeked (chunk : Chunk F) (length : Nat) (result : Chunk F) : Prop where
  wf : result.WellFormed
  length_eq : result.getChunkLength = length
  size_le : result.size ≤ chunk.size

/-- What a chunk becomes when another one is inserted. -/
structure Inserted (side : Side) (chunk inserted result : Chunk F) (kept : Prop) : Prop where
  wf : result.WellFormed
  length_eq : result.getChunkLength = chunk.getChunkLength + inserted.getChunkLength
  size_le : result.size ≤ chunk.size + inserted.size
  bits_eq : kept → result.bits = side.join chunk.bits inserted.bits

/-- Peeking and inserting are right for chunks up to a size. -/
structure Level.Sound (sharing : Sharing F) (below : Level F) (keeps : KeepsLevel F)
    (bound : Nat) : Prop where
  peek : ∀ (chunk : Chunk F) (iterator : Iterator) (length : Nat) (flags : PeekFlags),
    chunk.WellFormed → chunk.size ≤ bound → 0 < length →
    iterator.position + length ≤ chunk.getChunkLength → IndexInRange chunk iterator →
      ∃ result, below.peekUnchecked chunk iterator length flags = .ok (some result) ∧
        Peeked chunk length result ∧
        (iterator.isForward = true → IndexConsistent chunk iterator →
          keeps.peek chunk iterator.position length →
            result.bits = part chunk.bits iterator.position length)
  insert : ∀ (side : Side) (chunk inserted : Chunk F),
    chunk.WellFormed → inserted.WellFormed → 0 < inserted.getChunkLength →
    canInsertAt sharing side chunk inserted = true → chunk.size + inserted.size ≤ bound →
      ∃ result, below.insertAt side chunk inserted = .ok result ∧
        Inserted side chunk inserted result (keeps.insert side chunk inserted)

/-! ### Inserting into a sequence -/

/-- What inserting makes of the elements of a sequence. -/
structure Grown (side : Side) (before after : List (Chunk F)) (length size : Nat)
    (added : List Bool) (kept : Prop) : Prop where
  wf : WellFormed (.sequence after)
  length_eq : lengthOfAll after = lengthOfAll before + length
  size_le : sizeOfAll after ≤ sizeOfAll before + size
  bits_eq : kept → bitsOfAll after = side.join (bitsOfAll before) added

theorem Grown.none {side : Side} {chunks : List (Chunk F)} (wf : WellFormed (.sequence chunks))
    (size : Nat) (kept : Prop) : Grown side chunks chunks 0 size [] kept where
  wf := wf
  length_eq := rfl
  size_le := Nat.le_add_right _ _
  bits_eq _ := (side.join_nil _).symm

theorem Grown.trans {side : Side} {before middle after : List (Chunk F)}
    {length size length' size' : Nat} {added added' : List Bool} {kept kept' : Prop}
    (first : Grown side before middle length size added kept)
    (second : Grown side middle after length' size' added' kept') :
    Grown side before after (length + length') (size + size') (side.join added added')
      (kept ∧ kept') where
  wf := second.wf
  length_eq := by rw [second.length_eq, first.length_eq, Nat.add_assoc]
  size_le := by
    have := first.size_le
    have := second.size_le
    omega
  bits_eq both := by rw [second.bits_eq both.2, first.bits_eq both.1, side.join_assoc]

theorem Grown.mono {side : Side} {before after : List (Chunk F)} {length size size' : Nat}
    {added : List Bool} {kept kept' : Prop} (grown : Grown side before after length size added kept)
    (size_le : size ≤ size') (kept_of : kept' → kept) :
    Grown side before after length size' added kept' where
  wf := grown.wf
  length_eq := grown.length_eq
  size_le := by
    have := grown.size_le
    omega
  bits_eq h := grown.bits_eq (kept_of h)

/-- A loop that grows a sequence in every step grows it by what the steps add together. -/
theorem foldlM_grown {α : Type} (bound : Nat)
    (step : List (Chunk F) → α → Except ChunkError (List (Chunk F)))
    (holds : List (Chunk F) → α → Prop) (lengthOf sizeOf_ : α → Nat) (bitsOf : α → List Bool)
    (items : List α) (grows : ∀ chunks, ∀ item ∈ items, WellFormed (.sequence chunks) →
      sizeOfAll chunks + sizeOf_ item ≤ bound →
        ∃ after, step chunks item = .ok after ∧
          Grown side chunks after (lengthOf item) (sizeOf_ item) (bitsOf item)
            (holds chunks item)) (chunks : List (Chunk F)) (wf : WellFormed (.sequence chunks))
    (fits : sizeOfAll chunks + (items.map sizeOf_).sum ≤ bound) :
    ∃ after, items.foldlM step chunks = .ok after ∧
      Grown side chunks after (items.map lengthOf).sum (items.map sizeOf_).sum
        (side.gather (items.map bitsOf)) (Along step holds chunks items) := by
  induction items generalizing chunks with
  | nil => exact ⟨chunks, rfl, .none wf 0 _⟩
  | cons item rest ih =>
    simp only [List.map_cons, List.sum_cons] at fits ⊢
    obtain ⟨next, stepped, first⟩ := grows chunks item List.mem_cons_self wf (by omega)
    have first_size := first.size_le
    obtain ⟨after, finished, second⟩ := ih
      (fun chunks item member => grows chunks item (List.mem_cons_of_mem _ member)) next first.wf
      (by omega)
    refine ⟨after, ?_, (first.trans second).mono (Nat.le_refl _) ?_⟩
    · rw [List.foldlM_cons, stepped]
      exact finished
    · exact fun along => ⟨along.1, along.2 next stepped⟩

section Levels

variable {sharing : Sharing F} {below : Level F} {keeps : KeepsLevel F} {bound : Nat}

theorem doInsertChunk_grown (sound : below.Sound sharing keeps bound) (side : Side)
    (chunks : List (Chunk F)) (chunk : Chunk F) (wf : WellFormed (.sequence chunks))
    (wf_chunk : chunk.WellFormed) (positive : 0 < chunk.getChunkLength)
    (fits : sizeOfAll chunks + chunk.size ≤ bound) :
    ∃ after, doInsertChunk sharing below side chunks chunk = .ok after ∧
      Grown side chunks after chunk.getChunkLength chunk.size chunk.bits
        (DoInsertChunkKeeps sharing keeps side chunks chunk) := by
  have wf_single := (wellFormed_singleton chunk).mpr ⟨wf_chunk, positive⟩
  unfold doInsertChunk
  rw [if_neg (by omega)]
  cases found : side.outermost chunks with
  | none =>
    have nothing : chunks = [] := by
      cases side with
      | front => exact List.head?_eq_none_iff.mp found
      | back => exact List.getLast?_eq_none_iff.mp found
    subst nothing
    refine ⟨[chunk], rfl, wf_single, by simp [lengthOfAll], by simp [sizeOfAll], ?_⟩
    intro _
    cases side <;> simp [Side.join, bitsOfAll]
  | some outermost =>
    obtain ⟨others, rfl, replaced⟩ := side.exists_of_outermost chunks outermost found
    obtain ⟨wf_others, wf_outermost⟩ := (wellFormed_join side others [outermost]).mp wf
    simp only
    split
    next can =>
      have size_le := sizeOfAll_join side others [outermost]
      rw [sizeOfAll_singleton] at size_le
      obtain ⟨merged, inserted, facts⟩ := sound.insert side outermost chunk
        ((wellFormed_singleton outermost).mp wf_outermost).1 wf_chunk positive can (by omega)
      refine ⟨side.join others [merged.simplify], ?_, ?_⟩
      · rw [inserted]
        exact congrArg Except.ok (replaced merged.simplify)
      have merged_length := facts.length_eq
      have merged_size := facts.size_le
      constructor
      case wf =>
        refine (wellFormed_join side _ _).mpr ⟨wf_others, (wellFormed_singleton _).mpr
          ⟨facts.wf.simplify, ?_⟩⟩
        rw [getChunkLength_simplify]
        omega
      case length_eq =>
        simp only [lengthOfAll_join, lengthOfAll_singleton, getChunkLength_simplify]
        omega
      case size_le =>
        simp only [sizeOfAll_join, sizeOfAll_singleton, size_simplify]
        omega
      case bits_eq =>
        intro kept
        rw [bitsOfAll_join, bitsOfAll_join, bitsOfAll_singleton, bitsOfAll_singleton,
          bits_simplify facts.wf, facts.bits_eq (kept outermost found can), side.join_assoc]
    next =>
      refine ⟨_, rfl, (wellFormed_join side _ _).mpr ⟨wf, wf_single⟩, ?_, ?_, ?_⟩
      · simp only [lengthOfAll_join, lengthOfAll_singleton]
      · simp only [sizeOfAll_join, sizeOfAll_singleton, Nat.le_refl]
      · intro _
        simp only [bitsOfAll_join, bitsOfAll_singleton]

theorem indexConsistent_of (position : Nat) :
    IndexConsistent chunk (.of position) := by
  cases chunk with
  | sequence chunks =>
    intro index pointed
    simp only [Iterator.of] at pointed ⊢
    split at pointed
    next start =>
      cases pointed
      simp [start, lengthOfAll]
    next => cases pointed
  | _ => trivial

theorem IndexConsistent.inRange {chunk : Chunk F} {iterator : Iterator}
    (consistent : IndexConsistent chunk iterator) : IndexInRange chunk iterator := by
  cases chunk with
  | sequence chunks => exact fun index pointed => (consistent index pointed).1
  | _ => trivial

theorem peekElement_peeked (sound : below.Sound sharing keeps bound) (element : Chunk F)
    (offset length : Nat) (wf : element.WellFormed) (fits : element.size ≤ bound)
    (positive : 0 < length) (inside : offset + length ≤ element.getChunkLength) :
    ∃ result, peekElement below element offset length = .ok result ∧
      Peeked element length result ∧
      (keeps.peek element offset length → result.bits = part element.bits offset length) := by
  have consistent := indexConsistent_of element offset
  obtain ⟨result, returned, peeked, bits_eq⟩ := sound.peek element (.of offset) length {} wf fits
    positive inside consistent.inRange
  refine ⟨result, ?_, peeked, bits_eq rfl consistent⟩
  have length_eq := peeked.length_eq
  unfold peekElement
  rw [returned]
  cases result with
  | empty =>
    rw [getChunkLength] at length_eq
    omega
  | _ => rfl

/-- How much of an element lies in a slice. -/
def overlap (sliceChunkBegin sliceChunkEnd : Nat) (element : Nat × Chunk F) : Nat :=
  min sliceChunkEnd (element.1 + element.2.getChunkLength) - max sliceChunkBegin element.1

theorem doInsertElement_grown (sound : below.Sound sharing keeps bound) (side : Side)
    (sliceChunkBegin sliceChunkEnd : Nat) (nonempty : sliceChunkBegin < sliceChunkEnd)
    (chunks : List (Chunk F)) (element : Nat × Chunk F) (wf : WellFormed (.sequence chunks))
    (wf_element : element.2.WellFormed) (positive : 0 < element.2.getChunkLength)
    (fits : sizeOfAll chunks + element.2.size ≤ bound) :
    ∃ after,
      doInsertElement sharing below side sliceChunkBegin sliceChunkEnd chunks element = .ok after ∧
      Grown side chunks after (overlap sliceChunkBegin sliceChunkEnd element) element.2.size
        (part element.2.bits (sliceChunkBegin - element.1)
          (overlap sliceChunkBegin sliceChunkEnd element))
        (DoInsertElementKeeps sharing below keeps side sliceChunkBegin sliceChunkEnd chunks
          element) := by
  obtain ⟨chunkBegin, chunk⟩ := element
  simp only at wf_element positive fits ⊢
  unfold doInsertElement DoInsertElementKeeps
  simp only
  cases cut : elementCut sliceChunkBegin sliceChunkEnd chunkBegin
      (chunkBegin + chunk.getChunkLength) with
  | outside =>
    have apart : overlap sliceChunkBegin sliceChunkEnd (chunkBegin, chunk) = 0 := by
      simp only [elementCut] at cut
      simp only [overlap]
      grind
    rw [apart, part_zero_length]
    exact ⟨chunks, rfl, .none wf _ _⟩
  | whole =>
    have all : overlap sliceChunkBegin sliceChunkEnd (chunkBegin, chunk) = chunk.getChunkLength ∧
        sliceChunkBegin - chunkBegin = 0 := by
      simp only [elementCut] at cut
      simp only [overlap]
      grind
    rw [all.1, all.2, part_of_length _ _ wf_element.length_bits.symm]
    exact doInsertChunk_grown sound side chunks chunk wf wf_element positive fits
  | part offset length =>
    have some_ : overlap sliceChunkBegin sliceChunkEnd (chunkBegin, chunk) = length ∧
        sliceChunkBegin - chunkBegin = offset ∧ 0 < length ∧
        offset + length ≤ chunk.getChunkLength := by
      simp only [elementCut] at cut
      simp only [overlap]
      grind
    obtain ⟨length_eq, offset_eq, some_length, inside⟩ := some_
    rw [length_eq, offset_eq]
    obtain ⟨result, returned, peeked, bits_eq⟩ := peekElement_peeked sound chunk offset length
      wf_element (by omega) some_length inside
    have size_le := peeked.size_le
    obtain ⟨after, inserted, grown⟩ := doInsertChunk_grown sound side chunks result wf peeked.wf
      (by rw [peeked.length_eq]; exact some_length) (by omega)
    refine ⟨after, ?_, grown.wf, ?_, ?_, ?_⟩
    · simp only [returned]
      exact inserted
    · rw [grown.length_eq, peeked.length_eq]
    · have := grown.size_le
      omega
    · intro kept
      rw [grown.bits_eq (kept.2 result returned), bits_eq kept.1]

/-! ### Slices of a sequence -/

theorem mem_withOffsets {offset : Nat} {chunks : List (Chunk F)} {element : Nat × Chunk F}
    (member : element ∈ withOffsets offset chunks) : element.2 ∈ chunks := by
  induction chunks generalizing offset with
  | nil => cases member
  | cons chunk rest ih =>
    rcases List.mem_cons.mp member with rfl | later
    · exact List.mem_cons_self
    · exact List.mem_cons_of_mem chunk (ih later)

theorem sum_size_withOffsets :
    ((withOffsets offset chunks).map fun element => element.2.size).sum = sizeOfAll chunks := by
  induction chunks generalizing offset with
  | nil => rfl
  | cons chunk rest ih => rw [withOffsets, List.map_cons, List.sum_cons, ih, sizeOfAll]

/-- The overlaps of the elements add up to the overlap of the sequence. -/
theorem sum_overlap (sliceChunkBegin sliceChunkEnd offset : Nat) (chunks : List (Chunk F)) :
    ((withOffsets offset chunks).map (overlap sliceChunkBegin sliceChunkEnd)).sum =
      min sliceChunkEnd (offset + lengthOfAll chunks) - max sliceChunkBegin offset := by
  induction chunks generalizing offset with
  | nil =>
    simp only [withOffsets, List.map_nil, List.sum_nil, lengthOfAll]
    omega
  | cons chunk rest ih =>
    rw [withOffsets, List.map_cons, List.sum_cons, ih, lengthOfAll, overlap]
    dsimp only
    rcases Nat.le_total (offset + chunk.getChunkLength) sliceChunkBegin with behind | starts
    · rw [Nat.max_eq_left behind, Nat.max_eq_left (by omega)]
      omega
    rw [Nat.max_eq_right starts]
    rcases Nat.le_total sliceChunkEnd (offset + chunk.getChunkLength) with ends | across
    · rw [Nat.min_eq_left ends, Nat.min_eq_left (by omega), Nat.min_eq_left (by omega)]
      omega
    · rw [Nat.min_eq_right across]
      omega

/-- The overlapping parts of the elements are the overlapping part of the sequence. -/
theorem flatten_overlap (sliceChunkBegin sliceChunkEnd offset : Nat)
    (nonempty : sliceChunkBegin < sliceChunkEnd) (chunks : List (Chunk F))
    (wf : WellFormed (.sequence chunks)) :
    ((withOffsets offset chunks).map fun element =>
      part element.2.bits (sliceChunkBegin - element.1)
        (overlap sliceChunkBegin sliceChunkEnd element)).flatten =
      part (bitsOfAll chunks) (sliceChunkBegin - offset)
        (min sliceChunkEnd (offset + lengthOfAll chunks) - max sliceChunkBegin offset) := by
  induction chunks generalizing offset with
  | nil => simp [withOffsets, bitsOfAll, part]
  | cons chunk rest ih =>
    have each := (wellFormed_sequence_iff _).mp wf
    have wf_rest : WellFormed (.sequence rest) :=
      (wellFormed_sequence_iff rest).mpr fun other member =>
        each other (List.mem_cons_of_mem chunk member)
    have length_bits := (each chunk List.mem_cons_self).1.length_bits
    rw [withOffsets, List.map_cons, List.flatten_cons, ih _ wf_rest, bitsOfAll, lengthOfAll, overlap]
    simp only
    rcases Nat.le_total (offset + chunk.getChunkLength) sliceChunkBegin with behind | starts
    · rw [Nat.max_eq_left behind, Nat.max_eq_left (show offset ≤ sliceChunkBegin by omega),
        Nat.sub_eq_zero_of_le (show min sliceChunkEnd (offset + chunk.getChunkLength) ≤ sliceChunkBegin
          by omega), part_zero_length, List.nil_append, part_append_right _ _ _ _ (by omega),
        Nat.add_assoc]
      congr 1
      omega
    rw [Nat.max_eq_right starts]
    rcases Nat.le_total sliceChunkEnd (offset + chunk.getChunkLength) with ends | across
    · rw [Nat.min_eq_left ends, ← Nat.add_assoc,
        Nat.min_eq_left (Nat.le_add_right_of_le (k := lengthOfAll rest) ends),
        Nat.sub_eq_zero_of_le ends, part_zero_length, List.append_nil,
        part_append_left _ _ _ _ (by omega)]
    · rw [Nat.min_eq_right across]
      rcases Nat.lt_or_ge sliceChunkEnd offset with before | reaches
      · omega
      rw [part_append_across _ _ _ _ (by omega) (by omega)]
      congr 2 <;> omega

/-- A slice that reaches behind the last element ends there. -/
theorem doInsertSlice_reaching (sound : below.Sound sharing keeps bound) (side : Side)
    (chunks elements : List (Chunk F)) (offset length : Nat) (wf : WellFormed (.sequence chunks))
    (wf_elements : WellFormed (.sequence elements)) (positive : 0 < length)
    (fits : sizeOfAll chunks + sizeOfAll elements ≤ bound) :
    ∃ after, doInsertSlice sharing below side chunks elements offset length = .ok after ∧
      Grown side chunks after (min (offset + length) (lengthOfAll elements) - offset)
        (sizeOfAll elements)
        (part (bitsOfAll elements) offset
          (min (offset + length) (lengthOfAll elements) - offset))
        (DoInsertSliceKeeps sharing below keeps side chunks elements offset length) := by
  have each := (wellFormed_sequence_iff elements).mp wf_elements
  obtain ⟨after, finished, grown⟩ := foldlM_grown side bound
    (doInsertElement sharing below side offset (offset + length))
    (DoInsertElementKeeps sharing below keeps side offset (offset + length))
    (overlap offset (offset + length)) (fun element => element.2.size)
    (fun element => part element.2.bits (offset - element.1)
      (overlap offset (offset + length) element))
    (side.order (withOffsets 0 elements))
    (fun chunks element member wf fits =>
      have good := each _ (mem_withOffsets ((side.mem_order _ _).mp member))
      doInsertElement_grown sound side offset (offset + length) (by omega) chunks element wf
        good.1 good.2 fits)
    chunks wf (by rw [side.sum_order, sum_size_withOffsets]; exact fits)
  rw [side.sum_order, side.sum_order, side.gather_order, sum_size_withOffsets, sum_overlap,
    flatten_overlap _ _ _ (by omega) elements wf_elements] at grown
  rw [Nat.zero_add, Nat.max_zero, Nat.sub_zero] at grown
  exact ⟨after, finished, grown⟩

theorem doInsertSlice_grown (sound : below.Sound sharing keeps bound) (side : Side)
    (chunks elements : List (Chunk F)) (offset length : Nat) (wf : WellFormed (.sequence chunks))
    (wf_elements : WellFormed (.sequence elements)) (positive : 0 < length)
    (inside : offset + length ≤ lengthOfAll elements)
    (fits : sizeOfAll chunks + sizeOfAll elements ≤ bound) :
    ∃ after, doInsertSlice sharing below side chunks elements offset length = .ok after ∧
      Grown side chunks after length (sizeOfAll elements)
        (part (bitsOfAll elements) offset length)
        (DoInsertSliceKeeps sharing below keeps side chunks elements offset length) := by
  obtain ⟨after, finished, grown⟩ := doInsertSlice_reaching sound side chunks elements offset length
    wf wf_elements positive fits
  rw [Nat.min_eq_left inside, Nat.add_sub_cancel_left] at grown
  exact ⟨after, finished, grown⟩

/-! ### Inserting -/

theorem doInsert_grown (sound : below.Sound sharing keeps bound) (side : Side)
    (chunks : List (Chunk F)) (inserted : Chunk F) (wf : WellFormed (.sequence chunks))
    (wf_inserted : inserted.WellFormed) (positive : 0 < inserted.getChunkLength)
    (fits : sizeOfAll chunks + inserted.size ≤ bound) :
    ∃ after, doInsert sharing below side chunks inserted = .ok after ∧
      Grown side chunks after inserted.getChunkLength inserted.size inserted.bits
        (DoInsertKeeps sharing below keeps side chunks inserted) := by
  match inserted, wf_inserted with
  | .sequence elements, wf_elements =>
    have each := (wellFormed_sequence_iff elements).mp wf_elements
    rw [size] at fits ⊢
    obtain ⟨after, finished, grown⟩ := foldlM_grown side bound
      (doInsertChunk sharing below side) (DoInsertChunkKeeps sharing keeps side)
      getChunkLength size bits (side.order elements)
      (fun chunks element member wf fits =>
        have good := each element ((side.mem_order _ _).mp member)
        doInsertChunk_grown sound side chunks element wf good.1 good.2 fits)
      chunks wf (by rw [side.sum_order, ← sizeOfAll_eq_sum]; omega)
    rw [side.sum_order, side.sum_order, side.gather_order, ← sizeOfAll_eq_sum,
      ← lengthOfAll_eq_sum, ← bitsOfAll_eq_flatten] at grown
    exact ⟨after, finished, grown.mono (by omega) id⟩
  | .slice (.sequence elements) offset length, .slice wf_elements inside =>
    rw [size_slice, size] at fits ⊢
    obtain ⟨after, finished, grown⟩ := doInsertSlice_grown sound side chunks elements offset
      length wf wf_elements positive inside (by omega)
    exact ⟨after, finished, grown.mono (by omega) id⟩
  | .slice .empty offset length, wf_slice =>
    exact doInsertChunk_grown sound side chunks _ wf wf_slice positive fits
  | .slice (.bytes bs) offset length, wf_slice =>
    exact doInsertChunk_grown sound side chunks _ wf wf_slice positive fits
  | .slice (.byteCount count data) offset length, wf_slice =>
    exact doInsertChunk_grown sound side chunks _ wf wf_slice positive fits
  | .slice (.fields content) offset length, wf_slice =>
    exact doInsertChunk_grown sound side chunks _ wf wf_slice positive fits
  | .slice (.slice inner offset' length') offset length, wf_slice =>
    exact doInsertChunk_grown sound side chunks _ wf wf_slice positive fits
  | .empty, wf_leaf => exact doInsertChunk_grown sound side chunks _ wf wf_leaf positive fits
  | .bytes bs, wf_leaf => exact doInsertChunk_grown sound side chunks _ wf wf_leaf positive fits
  | .byteCount count data, wf_leaf =>
    exact doInsertChunk_grown sound side chunks _ wf wf_leaf positive fits
  | .fields content, wf_leaf =>
    exact doInsertChunk_grown sound side chunks _ wf wf_leaf positive fits

theorem bytesBits_append (bs' : List UInt8) :
    bytesBits (bs ++ bs') = bytesBits bs ++ bytesBits bs' := by
  simp [bytesBits]

theorem fillBits_add (length' : Nat) (data : UInt8) :
    fillBits (length + length') data = fillBits length data ++ fillBits length' data := by
  rw [fillBits, ← List.replicate_append_replicate, bytesBits_append]
  rfl

/-- Slices of one chunk that meet are a slice of it. -/
theorem insertAtWith_slice
    (offset length offset' length' : Nat) (wf : (slice chunk offset length).WellFormed)
    (wf' : (slice chunk offset' length').WellFormed)
    (can : canInsertAt sharing side (slice chunk offset length) (slice chunk offset' length') = true)
    (kept : Prop) :
    ∃ result,
      insertAtWith sharing below side (slice chunk offset length) (slice chunk offset' length') =
        .ok result ∧
      Inserted side (slice chunk offset length) (slice chunk offset' length') result kept := by
  cases wf with
  | slice wf_chunk inside =>
  cases wf' with
  | slice _ inside' =>
  cases side with
  | front =>
    have meets : offset = offset' + length' := by
      simpa [canInsertAt] using (Bool.and_eq_true_iff.mp can).2
    subst meets
    refine ⟨_, rfl, .slice wf_chunk (by omega), rfl, by simp only [size_slice]; omega, ?_⟩
    intro _
    rw [Nat.add_sub_cancel, Nat.add_comm length length']
    exact (part_append_part _ _ _ _).symm
  | back =>
    have meets : offset + length = offset' := by
      simpa [canInsertAt] using (Bool.and_eq_true_iff.mp can).2
    subst meets
    refine ⟨_, rfl, .slice wf_chunk (by omega), rfl, by simp only [size_slice]; omega, ?_⟩
    intro _
    exact (part_append_part _ _ _ _).symm

theorem insertAtWith_inserted (sound : below.Sound sharing keeps bound) (side : Side)
    (chunk inserted : Chunk F) (wf : chunk.WellFormed) (wf_inserted : inserted.WellFormed)
    (positive : 0 < inserted.getChunkLength)
    (can : canInsertAt sharing side chunk inserted = true)
    (fits : chunk.size + inserted.size ≤ bound + 1) :
    ∃ result, insertAtWith sharing below side chunk inserted = .ok result ∧
      Inserted side chunk inserted result
        (InsertKeepsWith sharing below keeps side chunk inserted) := by
  match chunk, inserted, can with
  | .sequence chunks, inserted, _ =>
    rw [size] at fits
    obtain ⟨after, finished, grown⟩ := doInsert_grown sound side chunks inserted wf wf_inserted
      positive (by omega)
    have size_le := grown.size_le
    refine ⟨.sequence after, ?_, grown.wf, grown.length_eq, ?_, grown.bits_eq⟩
    · simp only [insertAtWith, finished]
      rfl
    · simp only [size]
      omega
  | .bytes bs, .bytes bs', _ =>
    refine ⟨_, rfl, .bytes _, ?_, by simp [size], ?_⟩
    · cases side <;> simp only [getChunkLength, Side.join, List.length_append] <;> omega
    · intro _
      cases side <;> simp only [bits, Side.join, bytesBits_append]
  | .byteCount count data, .byteCount count' data', _ =>
    refine ⟨_, rfl, .byteCount _ _, ?_, by simp [size], ?_⟩
    · simp only [getChunkLength]
      omega
    · intro kept
      have same : data' = data := kept
      subst same
      cases side with
      | front =>
        rw [Nat.add_comm]
        exact fillBits_add _ _ _
      | back => exact fillBits_add _ _ _
  | .slice chunk offset length, .slice chunk' offset' length', can =>
    have shared : sharing.same (slice chunk offset length) (slice chunk' offset' length') = true :=
      (Bool.and_eq_true_iff.mp can).1
    obtain rfl := sharing.eq_of_same _ _ _ _ _ _ shared
    exact insertAtWith_slice side chunk offset length offset' length' wf wf_inserted can _

/-! ### Peeking a leaf -/

omit [Fields F] in
theorem resolveLength_nat (chunkLength position length : Nat) :
    resolveLength chunkLength position length = length := if_neg (by omega)

/-- A specified length that fits is converted in either direction. -/
theorem convertedOffset_nat (chunkLength : Nat) (iterator : Iterator) (length : Nat)
    (inside : iterator.position + length ≤ chunkLength) :
    convertedOffset chunkLength iterator length =
      .ok (if iterator.isForward then iterator.position
        else chunkLength - iterator.position - length) := by
  have nonneg : (!iterator.isForward && decide ((length : Int) < 0)) = false := by simp
  unfold convertedOffset
  rw [if_neg (by rw [nonneg]; simp)]
  cases iterator.isForward with
  | true => simp
  | false =>
    have inside' : ¬((chunkLength : Int) - iterator.position - length < 0) := by omega
    simp only [Bool.false_eq_true, if_false, if_neg inside']
    congr 1
    omega

theorem peekSlice_peeked (length : Nat)
    (wf : chunk.WellFormed) (inside : iterator.position + length ≤ chunk.getChunkLength) :
    ∃ result, peekSlice chunk iterator length = .ok (some result) ∧
      Peeked chunk length result ∧
      (iterator.isForward = true → result.bits = part chunk.bits iterator.position length) := by
  unfold peekSlice
  simp only [convertedOffset_nat _ _ _ inside]
  have nonneg : ¬(length : Int) < 0 := by omega
  refine ⟨_, rfl, ?_, ?_⟩
  · rw [if_neg nonneg, resolveLength_nat, Int.toNat_natCast]
    refine ⟨.slice wf ?_, rfl, Nat.le_refl _⟩
    split <;> omega
  · intro forward
    rw [if_neg nonneg, resolveLength_nat, Int.toNat_natCast, if_pos forward]
    rfl

theorem bytesBits_cons (byte : UInt8) (rest : List UInt8) :
    bytesBits (byte :: rest) = byteBits byte ++ bytesBits rest := rfl

theorem bytesBits_take :
    bytesBits (bs.take length) = (bytesBits bs).take (8 * length) := by
  induction bs generalizing length with
  | nil => simp [bytesBits]
  | cons byte rest ih =>
    cases length with
    | zero => rfl
    | succ length =>
      have above : (byteBits byte).length ≤ 8 * (length + 1) := by
        rw [length_byteBits]
        omega
      rw [List.take_succ_cons, bytesBits_cons, bytesBits_cons, ih, List.take_append,
        List.take_of_length_le above, length_byteBits, Nat.mul_succ, Nat.add_sub_cancel]

theorem bytesBits_drop :
    bytesBits (bs.drop offset) = (bytesBits bs).drop (8 * offset) := by
  induction bs generalizing offset with
  | nil => simp [bytesBits]
  | cons byte rest ih =>
    cases offset with
    | zero => rfl
    | succ offset =>
      have above : (byteBits byte).length ≤ 8 * (offset + 1) := by
        rw [length_byteBits]
        omega
      rw [List.drop_succ_cons, bytesBits_cons, ih, List.drop_append,
        List.drop_of_length_le above, length_byteBits, Nat.mul_succ, Nat.add_sub_cancel]
      rfl

theorem bytesBits_part :
    bytesBits (part bs offset length) = part (bytesBits bs) (8 * offset) (8 * length) := by
  rw [part, bytesBits_take, bytesBits_drop]
  rfl

theorem fillBits_part (count : Nat) (data : UInt8) (offset length : Nat)
    (inside : offset + length ≤ count) :
    part (fillBits count data) (8 * offset) (8 * length) = fillBits length data := by
  rw [fillBits, ← bytesBits_part, part, List.drop_replicate, List.take_replicate,
    Nat.min_eq_left (by omega)]
  rfl

theorem peekBytes_peeked (length : Nat) (inside : iterator.position + length ≤ 8 * bs.length) :
    ∃ result, peekBytes (F := F) bs iterator length = .ok (some result) ∧
      Peeked (.bytes bs) length result ∧
      (iterator.isForward = true → result.bits = part (bytesBits bs) iterator.position length) := by
  unfold peekBytes
  split
  next aligned =>
    have length_aligned : length % 8 = 0 := by omega
    simp only [resolveLength_nat]
    rw [if_neg (by omega), if_neg (by omega)]
    have length_eq : ((length : Int) / 8).toNat = length / 8 := by omega
    rw [length_eq]
    refine ⟨_, rfl, ⟨.bytes _, ?_, Nat.le_refl _⟩, ?_⟩
    · rw [getChunkLength, length_part _ _ _ (by omega)]
      omega
    · intro _
      rw [bits, bytesBits_part]
      congr 1 <;> omega
  next => exact peekSlice_peeked (.bytes bs) iterator length (.bytes bs) inside

theorem peekByteCount_peeked (count : Nat) (data : UInt8) (iterator : Iterator) (length : Nat)
    (inside : iterator.position + length ≤ 8 * count) :
    ∃ result, peekByteCount (F := F) count data iterator length = .ok (some result) ∧
      Peeked (.byteCount count data) length result ∧
      (iterator.isForward = true →
        ¬(iterator.position % 8 = 0 ∧ length % 8 = 0) ∨ data = '?'.toUInt8 →
          result.bits = part (fillBits count data) iterator.position length) := by
  unfold peekByteCount
  split
  next aligned =>
    have length_aligned : length % 8 = 0 := by omega
    simp only [resolveLength_nat]
    rw [if_neg (by omega)]
    have length_eq : ((length : Int) / 8).toNat = length / 8 := by omega
    rw [length_eq]
    refine ⟨_, rfl, ⟨.byteCount _ _, ?_, Nat.le_refl _⟩, ?_⟩
    · rw [getChunkLength]
      omega
    · rintro _ (unaligned | plain)
      · exact absurd ⟨aligned.1, length_aligned⟩ unaligned
      · rw [bits, ← plain, ← fillBits_part count data (iterator.position / 8) (length / 8) (by omega)]
        congr 1 <;> omega
  next =>
    obtain ⟨result, returned, peeked, bits_eq⟩ := peekSlice_peeked (F := F)
      (.byteCount count data) iterator length (.byteCount count data) inside
    exact ⟨result, returned, peeked, fun forward _ => bits_eq forward⟩

/-- A leaf is peeked right if what it makes anew is right. -/
theorem peekLeaf_peeked (rebuild : Iterator → Int → PeekResult F)
    (iterator : Iterator) (length : Nat) (flags : PeekFlags) (wf : chunk.WellFormed)
    (positive : 0 < length) (inside : iterator.position + length ≤ chunk.getChunkLength)
    (kept : Prop) (rebuilt : ∃ result, rebuild iterator length = .ok (some result) ∧
      Peeked chunk length result ∧
      (iterator.isForward = true → kept →
        result.bits = part chunk.bits iterator.position length)) :
    ∃ result, peekLeaf chunk rebuild iterator length flags = .ok (some result) ∧
      Peeked chunk length result ∧
      (iterator.isForward = true →
        (iterator.position = 0 ∧ length = chunk.getChunkLength) ∨ kept →
        result.bits = part chunk.bits iterator.position length) := by
  unfold peekLeaf
  simp only
  rw [if_neg (by omega), if_neg (by omega)]
  split
  next whole =>
    have length_eq : length = chunk.getChunkLength := by omega
    refine ⟨chunk, rfl, ⟨wf, length_eq.symm, Nat.le_refl _⟩, ?_⟩
    intro _ _
    rw [whole.1, part_of_length _ _ (by rw [wf.length_bits]; exact length_eq)]
  next not_whole =>
    obtain ⟨result, returned, peeked, bits_eq⟩ := rebuilt
    refine ⟨result, returned, peeked, ?_⟩
    rintro forward (whole | holds)
    · exact absurd ⟨whole.1, .inr (by exact_mod_cast whole.2)⟩ not_whole
    · exact bits_eq forward holds

/-! ### Peeking a sequence -/

theorem locate_spec {chunks : List (Chunk F)} {offset length inner : Nat} {element : Chunk F}
    (located : locate chunks offset length = some (element, inner)) :
    ∃ before after, chunks = before ++ element :: after ∧ offset = lengthOfAll before + inner ∧
      inner + length ≤ element.getChunkLength ∧ inner < element.getChunkLength := by
  induction chunks generalizing offset with
  | nil => cases located
  | cons chunk rest ih =>
    unfold locate at located
    split at located
    next starts =>
      split at located
      next ends =>
        cases located
        exact ⟨[], rest, rfl, by simp [lengthOfAll], ends, starts⟩
      next => cases located
    next behind =>
      obtain ⟨before, after, rfl, offset_eq, facts⟩ := ih located
      refine ⟨chunk :: before, after, rfl, ?_, facts⟩
      rw [lengthOfAll]
      omega

/-- The bits at an element of a sequence are the bits of the element. -/
theorem part_bitsOfAll (before after : List (Chunk F)) (element : Chunk F) (inner length : Nat)
    (wf : WellFormed (.sequence (before ++ element :: after)))
    (inside : inner + length ≤ element.getChunkLength) :
    part (bitsOfAll (before ++ element :: after)) (lengthOfAll before + inner) length =
      part element.bits inner length := by
  have each := (wellFormed_sequence_iff _).mp wf
  have length_before : (bitsOfAll before).length = lengthOfAll before :=
    length_bitsOfAll fun chunk member =>
      (each chunk (List.mem_append_left _ member)).1.length_bits
  have length_element := (each element (List.mem_append_right _ List.mem_cons_self)).1.length_bits
  rw [bitsOfAll_append, part_append_right _ _ _ _ (by omega), length_before,
    Nat.add_sub_cancel_left, bitsOfAll, part_append_left _ _ _ _ (by omega)]

/-- For a specified length the loop over the elements finds the one the part lies in. -/
theorem peekElements_eq (length : Nat) (flags : PeekFlags)
    (positive : 0 < length) (chunks : List (Chunk F)) (wf : WellFormed (.sequence chunks))
    (position : Nat) :
    peekElements below iterator length flags chunks position =
      if iterator.position < position then none
      else
        match locate chunks (iterator.position - position) length with
        | none => none
        | some (element, inner) =>
          if inner = 0 ∧ length = element.getChunkLength then some (.ok (some element))
          else some (below.peekUnchecked element ⟨iterator.isForward, inner, none⟩ length flags) := by
  induction chunks generalizing position with
  | nil =>
    simp only [peekElements, locate]
    split <;> rfl
  | cons chunk rest ih =>
    have each := (wellFormed_sequence_iff _).mp wf
    have chunk_positive := (each chunk List.mem_cons_self).2
    have wf_rest : WellFormed (.sequence rest) := (wellFormed_sequence_iff rest).mpr
      fun other member => each other (List.mem_cons_of_mem chunk member)
    unfold peekElements locate
    simp only
    by_cases behind : iterator.position < position
    · rw [if_neg (by omega), if_neg (by omega), ih wf_rest, if_pos (by omega), if_pos behind]
    rw [if_neg behind]
    by_cases starts : iterator.position - position < chunk.getChunkLength
    · rw [if_pos starts]
      by_cases ends : iterator.position - position + length ≤ chunk.getChunkLength
      · rw [if_pos ends]
        simp only
        by_cases whole : iterator.position - position = 0 ∧ length = chunk.getChunkLength
        · rw [if_pos (by omega), if_pos whole]
        · rw [if_neg (by omega), if_pos (by omega), if_neg whole]
      · rw [if_neg ends, if_neg (by omega), if_neg (by omega), ih wf_rest, if_pos (by omega)]
    · rw [if_neg starts, if_neg (by omega), if_neg (by omega), ih wf_rest, if_neg (by omega)]
      rw [Nat.sub_sub]

theorem wellFormed_reverse (wf : WellFormed (.sequence chunks)) :
    WellFormed (.sequence chunks.reverse) := by
  rw [wellFormed_sequence_iff] at wf ⊢
  simpa using wf

theorem peekSequenceChunk_peeked (sound : below.Sound sharing keeps bound)
    (chunks : List (Chunk F)) (iterator : Iterator) (length : Nat)
    (wf : WellFormed (.sequence chunks)) (fits : sizeOfAll chunks ≤ bound) (positive : 0 < length)
    (inside : iterator.position + length ≤ lengthOfAll chunks) :
    ∃ result, peekSequenceChunk sharing below chunks iterator length = .ok (some result) ∧
      Peeked (.sequence chunks) length result ∧
      (iterator.isForward = true →
        DoInsertSliceKeeps sharing below keeps .back [] chunks iterator.position length →
          result.bits = part (bitsOfAll chunks) iterator.position length) := by
  have empty_wf : WellFormed (.sequence ([] : List (Chunk F))) := .sequence (by simp) (by simp)
  unfold peekSequenceChunk
  simp only [convertedOffset_nat _ _ _ inside, resolveLength_nat, Int.toNat_natCast]
  generalize offset_eq : (if iterator.isForward then iterator.position
    else lengthOfAll chunks - iterator.position - length) = offset
  obtain ⟨after, finished, grown⟩ := doInsertSlice_grown sound .back [] chunks offset length
    empty_wf wf positive (by rw [← offset_eq]; split <;> omega)
    (by rw [sizeOfAll]; omega)
  refine ⟨.sequence after, ?_, ⟨grown.wf, ?_, ?_⟩, ?_⟩
  · show (do
      let result ← doInsertSlice sharing below .back [] chunks offset length
      return some (.sequence result) : Except ChunkError (Option (Chunk F))) = _
    rw [finished]
    rfl
  · have := grown.length_eq
    rw [lengthOfAll, Nat.zero_add] at this
    exact this
  · have := grown.size_le
    rw [sizeOfAll] at this
    simp only [size]
    omega
  · intro forward kept
    rw [if_pos forward] at offset_eq
    subst offset_eq
    have := grown.bits_eq kept
    rwa [bitsOfAll, Side.join, List.nil_append] at this

theorem peekUnindexed_peeked (sound : below.Sound sharing keeps bound)
    (chunks : List (Chunk F)) (iterator : Iterator) (length : Nat) (flags : PeekFlags)
    (wf : WellFormed (.sequence chunks)) (fits : sizeOfAll chunks ≤ bound) (positive : 0 < length)
    (inside : iterator.position + length ≤ lengthOfAll chunks) :
    ∃ result, peekUnindexed sharing below chunks iterator length flags = .ok (some result) ∧
      Peeked (.sequence chunks) length result ∧
      (iterator.isForward = true →
        (match locate chunks iterator.position length with
          | some (element, inner) =>
            (inner = 0 ∧ length = element.getChunkLength) ∨ keeps.peek element inner length
          | none =>
            DoInsertSliceKeeps sharing below keeps .back [] chunks iterator.position length) →
          result.bits = part (bitsOfAll chunks) iterator.position length) := by
  have wf_ordered : WellFormed (.sequence (if iterator.isForward then chunks else chunks.reverse)) := by
    split
    · exact wf
    · exact wellFormed_reverse chunks wf
  unfold peekUnindexed
  rw [peekElements_eq iterator length flags positive _ wf_ordered 0, if_neg (Nat.not_lt_zero _),
    Nat.sub_zero]
  cases located : locate (if iterator.isForward then chunks else chunks.reverse)
      iterator.position length with
  | none =>
    obtain ⟨result, returned, peeked, bits_eq⟩ := peekSequenceChunk_peeked sound chunks iterator
      length wf fits positive inside
    refine ⟨result, returned, peeked, ?_⟩
    intro forward kept
    rw [if_pos forward] at located
    rw [located] at kept
    exact bits_eq forward kept
  | some found =>
    obtain ⟨element, inner⟩ := found
    obtain ⟨before, after, chunks_eq, position_eq, ends, starts⟩ := locate_spec located
    have member : element ∈ chunks := by
      have here : element ∈ before ++ element :: after :=
        List.mem_append_right _ List.mem_cons_self
      rw [← chunks_eq] at here
      split at here
      · exact here
      · exact List.mem_reverse.mp here
    have good := (wellFormed_sequence_iff chunks).mp wf element member
    have size_le := size_le_sizeOfAll member
    have bits_eq : iterator.isForward = true →
        part (bitsOfAll chunks) iterator.position length = part element.bits inner length := by
      intro forward
      rw [if_pos forward] at chunks_eq
      subst chunks_eq
      rw [position_eq]
      exact part_bitsOfAll before after element inner length wf ends
    simp only
    by_cases whole : inner = 0 ∧ length = element.getChunkLength
    · rw [if_pos whole]
      refine ⟨element, rfl, ⟨good.1, whole.2.symm, ?_⟩, ?_⟩
      · rw [size]
        omega
      · intro forward _
        rw [bits_eq forward, whole.1, part_of_length _ _ (by rw [good.1.length_bits]; exact whole.2)]
    · rw [if_neg whole]
      have consistent : IndexConsistent element ⟨iterator.isForward, inner, none⟩ := by
        cases element <;> simp [IndexConsistent]
      obtain ⟨result, returned, peeked, inner_bits⟩ := sound.peek element
        ⟨iterator.isForward, inner, none⟩ length flags good.1 (by omega) positive ends
        consistent.inRange
      have result_size := peeked.size_le
      refine ⟨result, returned, ⟨peeked.wf, peeked.length_eq, by rw [size]; omega⟩, ?_⟩
      intro forward kept
      rw [if_pos forward] at located
      rw [located] at kept
      rcases kept with whole' | kept
      · exact absurd whole' whole
      · rw [bits_eq forward]
        exact inner_bits forward consistent kept

theorem peekSequence_peeked (sound : below.Sound sharing keeps bound)
    (chunks : List (Chunk F)) (iterator : Iterator) (length : Nat) (flags : PeekFlags)
    (wf : WellFormed (.sequence chunks)) (fits : sizeOfAll chunks ≤ bound) (positive : 0 < length)
    (inside : iterator.position + length ≤ lengthOfAll chunks)
    (inRange : IndexInRange (.sequence chunks) iterator) :
    ∃ result, peekSequence sharing below chunks iterator length flags = .ok (some result) ∧
      Peeked (.sequence chunks) length result ∧
      (iterator.isForward = true → IndexConsistent (.sequence chunks) iterator →
        PeekKeepsWith sharing below keeps (.sequence chunks) iterator.position length →
          result.bits = part (bitsOfAll chunks) iterator.position length) := by
  obtain ⟨result, returned, peeked, bits_eq⟩ := peekUnindexed_peeked sound chunks iterator length
    flags wf fits positive inside
  unfold peekSequence
  simp only
  rw [if_neg (by omega), if_neg (by omega)]
  split
  next whole =>
    have length_eq : length = lengthOfAll chunks := by omega
    refine ⟨.sequence chunks, rfl, ⟨wf, length_eq.symm, Nat.le_refl _⟩, ?_⟩
    intro _ _ _
    rw [whole.1]
    exact (part_of_length _ _ (length_eq.trans wf.length_bits.symm)).symm
  next not_whole =>
    -- what is peeked without the index is right either way
    have unindexed : iterator.isForward = true → IndexConsistent (.sequence chunks) iterator →
        PeekKeepsWith sharing below keeps (.sequence chunks) iterator.position length →
          result.bits = part (bitsOfAll chunks) iterator.position length := by
      rintro forward _ (whole | kept)
      · exact absurd ⟨whole.1, by exact_mod_cast whole.2⟩ not_whole
      · exact bits_eq forward kept
    cases pointed : iterator.index with
    | none => exact ⟨result, returned, peeked, unindexed⟩
    | some index =>
      simp only
      split
      next => exact ⟨result, returned, peeked, unindexed⟩
      next not_end =>
        have in_range := inRange index pointed
        have found : ∃ element, getElementChunk chunks iterator.isForward index = some element := by
          unfold getElementChunk
          split
          · exact ⟨_, List.getElem?_eq_getElem (by omega)⟩
          · exact ⟨_, List.getElem?_eq_getElem (by rw [List.length_reverse]; omega)⟩
        obtain ⟨element, element_eq⟩ := found
        have member : element ∈ chunks := by
          unfold getElementChunk at element_eq
          split at element_eq
          · exact List.mem_of_getElem? element_eq
          · exact List.mem_reverse.mp (List.mem_of_getElem? element_eq)
        have good := (wellFormed_sequence_iff chunks).mp wf element member
        have size_le := size_le_sizeOfAll member
        rw [element_eq]
        simp only
        split
        next whole =>
          have length_eq : length = element.getChunkLength := by omega
          refine ⟨element, rfl, ⟨good.1, length_eq.symm, by rw [size]; omega⟩, ?_⟩
          intro forward consistent _
          obtain ⟨_, starts⟩ := consistent index pointed
          rw [if_pos forward] at starts
          unfold getElementChunk at element_eq
          rw [if_pos forward] at element_eq
          obtain ⟨here, rfl⟩ := List.getElem?_eq_some_iff.mp element_eq
          have split_eq : chunks = chunks.take index ++ chunks[index] :: chunks.drop (index + 1) := by
            rw [← List.drop_eq_getElem_cons here, List.take_append_drop]
          have element_part := part_bitsOfAll (chunks.take index) (chunks.drop (index + 1))
            chunks[index] 0 length (by rw [← split_eq]; exact wf) (by omega)
          rw [← split_eq, Nat.add_zero, starts, part_of_length _ _
            (by rw [good.1.length_bits]; exact length_eq)] at element_part
          exact element_part.symm
        next => exact ⟨result, returned, peeked, unindexed⟩

/-! ### Levels -/

theorem peekUncheckedWith_peeked (sound : below.Sound sharing keeps bound) (chunk : Chunk F)
    (iterator : Iterator) (length : Nat) (flags : PeekFlags) (wf : chunk.WellFormed)
    (fits : chunk.size ≤ bound + 1) (positive : 0 < length)
    (inside : iterator.position + length ≤ chunk.getChunkLength)
    (inRange : IndexInRange chunk iterator) :
    ∃ result, peekUncheckedWith sharing below chunk iterator length flags = .ok (some result) ∧
      Peeked chunk length result ∧
      (iterator.isForward = true → IndexConsistent chunk iterator →
        PeekKeepsWith sharing below keeps chunk iterator.position length →
          result.bits = part chunk.bits iterator.position length) := by
  induction wf generalizing iterator with
  | empty =>
    rw [getChunkLength] at inside
    omega
  | bytes bs =>
    obtain ⟨result, returned, peeked, bits_eq⟩ := peekLeaf_peeked (F := F) (.bytes bs)
      (peekBytes bs) iterator length flags (.bytes bs) positive inside True (by
        obtain ⟨result, returned, peeked, bits_eq⟩ := peekBytes_peeked (F := F) bs iterator length
          inside
        exact ⟨result, returned, peeked, fun forward _ => bits_eq forward⟩)
    exact ⟨result, returned, peeked, fun forward _ _ => bits_eq forward (.inr trivial)⟩
  | byteCount count data =>
    obtain ⟨result, returned, peeked, bits_eq⟩ := peekLeaf_peeked (F := F) (.byteCount count data)
      (peekByteCount count data) iterator length flags (.byteCount count data) positive inside _
      (peekByteCount_peeked (F := F) count data iterator length inside)
    exact ⟨result, returned, peeked, fun forward _ kept => bits_eq forward kept⟩
  | fields content =>
    obtain ⟨result, returned, peeked, bits_eq⟩ := peekLeaf_peeked (.fields content)
      (peekSlice (.fields content)) iterator length flags (.fields content) positive inside True (by
        obtain ⟨result, returned, peeked, bits_eq⟩ := peekSlice_peeked (.fields content) iterator
          length (.fields content) inside
        exact ⟨result, returned, peeked, fun forward _ => bits_eq forward⟩)
    exact ⟨result, returned, peeked, fun forward _ _ => bits_eq forward (.inr trivial)⟩
  | @slice chunk offset sliceLength wf within ih =>
    rw [getChunkLength] at inside
    rw [size_slice] at fits
    have wf_slice : (slice chunk offset sliceLength).WellFormed := .slice wf within
    unfold peekUncheckedWith
    rw [if_neg (by omega), if_neg (by omega)]
    split
    next whole =>
      have length_eq : length = sliceLength := by omega
      have bits_all : (slice chunk offset sliceLength).bits =
          part (slice chunk offset sliceLength).bits iterator.position length := by
        rw [whole.1, part_of_length _ _ (length_eq.trans wf_slice.length_bits.symm)]
      split
      next covers =>
        refine ⟨chunk, rfl, ⟨wf, by omega, Nat.le_refl _⟩, ?_⟩
        intro _ _ _
        have simplified := bits_simplify wf_slice
        rw [simplify_slice, if_pos covers] at simplified
        rw [simplified]
        exact bits_all
      next => exact ⟨_, rfl, ⟨wf_slice, length_eq.symm, Nat.le_refl _⟩, fun _ _ _ => bits_all⟩
    next not_whole =>
      have nonneg : ¬(length : Int) < 0 := by omega
      rw [if_neg nonneg]
      have consistent : IndexConsistent chunk (.forward (iterator.position + offset)) := by
        cases chunk <;> simp [IndexConsistent, Iterator.forward]
      obtain ⟨result, returned, peeked, bits_eq⟩ := ih (.forward (iterator.position + offset)) fits
        (by show iterator.position + offset + length ≤ _; omega) consistent.inRange
      refine ⟨result, returned, ⟨peeked.wf, peeked.length_eq, peeked.size_le⟩, ?_⟩
      rintro forward _ (whole | kept)
      · exact absurd ⟨whole.1, .inr (by exact_mod_cast whole.2)⟩ not_whole
      · rw [bits_eq rfl consistent kept, bits, ← part, part_part _ _ _ _ _ (by omega), Nat.add_comm]
        rfl
  | sequence wf positive_all =>
    exact peekSequence_peeked sound _ iterator length flags (.sequence wf positive_all)
      (by rw [size] at fits; omega) positive inside inRange

end Levels

theorem level_sound (bound : Nat) :
    (level sharing bound).Sound sharing (keepsLevel sharing bound) bound := by
  induction bound with
  | zero =>
    constructor
    · intro chunk iterator length flags wf fits
      have := chunk.size_pos
      omega
    · intro side chunk inserted wf wf_inserted positive can fits
      have := chunk.size_pos
      omega
  | succ bound sound =>
    constructor
    · intro chunk iterator length flags wf fits positive inside inRange
      exact peekUncheckedWith_peeked sound chunk iterator length flags wf fits positive inside
        inRange
    · intro side chunk inserted wf wf_inserted positive can fits
      exact insertAtWith_inserted sound side chunk inserted wf wf_inserted positive can fits

/-! ### Peeking and inserting at the top -/

theorem checkPeekResult_of_length (flags : PeekFlags) (positive : 0 < chunk.getChunkLength) :
    checkPeekResult (some chunk) flags = .ok (some chunk) := by
  cases chunk with
  | empty =>
    rw [getChunkLength] at positive
    omega
  | _ => rfl

omit [Fields F] in
theorem checkPeekResult_eq {chunk result : Option (Chunk F)} {flags : PeekFlags}
    (checked : checkPeekResult chunk flags = .ok result) : chunk = result := by
  unfold checkPeekResult at checked
  split at checked
  · split at checked <;> cases checked
    rfl
  · split at checked <;> cases checked
    rfl
  · cases checked
    rfl

theorem peek_of_unchecked {sharing : Sharing F} {chunk : Chunk F} {iterator : Iterator}
    {length : Int} {flags : PeekFlags} {result : Option (Chunk F)}
    (returned : peekUnchecked sharing chunk iterator length flags = .ok result) :
    peek sharing chunk iterator length flags = checkPeekResult result flags := by
  unfold peek
  rw [returned]
  rfl

/-- Peeking a part that lies in a chunk returns a chunk of its length, with its bits unless
fill bytes are lost. -/
theorem peek_peeked (length : Nat)
    (flags : PeekFlags) (wf : chunk.WellFormed) (positive : 0 < length)
    (inside : iterator.position + length ≤ chunk.getChunkLength)
    (inRange : IndexInRange chunk iterator) :
    ∃ result, peek sharing chunk iterator length flags = .ok (some result) ∧
      Peeked chunk length result ∧
      (iterator.isForward = true → IndexConsistent chunk iterator →
        PeekKeeps sharing chunk iterator.position length →
          result.bits = part chunk.bits iterator.position length) := by
  obtain ⟨result, returned, peeked, bits_eq⟩ := (level_sound sharing chunk.size).peek chunk iterator
    length flags wf (Nat.le_refl _) positive inside inRange
  refine ⟨result, ?_, peeked, bits_eq⟩
  rw [peek_of_unchecked returned]
  exact checkPeekResult_of_length result flags (by rw [peeked.length_eq]; exact positive)

/-- A chunk that may be inserted is inserted, at its side. -/
theorem insertAt_inserted (inserted : Chunk F)
    (wf : chunk.WellFormed) (wf_inserted : inserted.WellFormed)
    (positive : 0 < inserted.getChunkLength)
    (can : canInsertAt sharing side chunk inserted = true) :
    ∃ result, insertAt sharing side chunk inserted = .ok result ∧
      Inserted side chunk inserted result (InsertKeeps sharing side chunk inserted) :=
  (level_sound sharing (chunk.size + inserted.size)).insert side chunk inserted wf wf_inserted
    positive can (Nat.le_refl _)

end Chunk
end Inet.Packet
