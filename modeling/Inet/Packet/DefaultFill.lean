import Inet.Packet.ChunkBufferRefinement

/-!
# Chunks with the default data

Where every `ByteCountChunk` has the default data, no fill byte is ever lost, and peeking and
inserting make no other chunks.
-/
namespace Inet.Packet

open Lib

variable {F : Type} [Fields F]
variable (sharing : Sharing F) {chunks items after : List (Chunk F)}
  {chunk result inserted : Chunk F} {side : Side} {flags : PeekFlags} {iterator : Iterator}
  {length : Int} {offset : Nat} {regions merged : List (Region F)}

/-- What holds of every state of a loop, given what is left of the items. -/
theorem Along.of_invariant {σ α ε : Type} {step : σ → α → Except ε σ} {holds : σ → α → Prop}
    (invariant : List α → σ → Prop)
    (each : ∀ item rest state, invariant (item :: rest) state → holds state item ∧
      ∀ next, step state item = .ok next → invariant rest next)
    (items : List α) (state : σ) (start : invariant items state) :
    Along step holds state items := by
  induction items generalizing state with
  | nil => trivial
  | cons item rest ih =>
    obtain ⟨here, later⟩ := each item rest state start
    exact ⟨here, fun next stepped => ih next (later next stepped)⟩

namespace Chunk

/-- Every `ByteCountChunk` in a chunk has the default data. -/
inductive DefaultFill : Chunk F → Prop
  | empty : DefaultFill .empty
  | bytes (bs : List UInt8) : DefaultFill (.bytes bs)
  | byteCount (length : Nat) : DefaultFill (.byteCount length '?'.toUInt8)
  | fields (content : F) : DefaultFill (.fields content)
  | slice {chunk : Chunk F} {offset length : Nat} (fill : DefaultFill chunk) :
      DefaultFill (.slice chunk offset length)
  | sequence {chunks : List (Chunk F)} (fill : ∀ chunk ∈ chunks, DefaultFill chunk) :
      DefaultFill (.sequence chunks)

omit [Fields F] in
theorem DefaultFill.of_slice {length : Nat}
    (fill : DefaultFill (.slice chunk offset length)) : DefaultFill chunk := by
  cases fill
  assumption

omit [Fields F] in
theorem DefaultFill.of_sequence (fill : DefaultFill (.sequence chunks)) :
    ∀ chunk ∈ chunks, DefaultFill chunk := by
  cases fill
  assumption

theorem DefaultFill.simplify (fill : DefaultFill chunk) :
    DefaultFill chunk.simplify := by
  cases fill with
  | slice inner =>
    rw [simplify_slice]
    split
    next => exact inner
    next => exact .slice inner
  | sequence each => exact .sequence each
  | empty => exact .empty
  | bytes bs => exact .bytes bs
  | byteCount length => exact .byteCount length
  | fields content => exact .fields content

/-! ### Peeking and inserting make chunks with the default data -/

/-- What a level makes of chunks with the default data has the default data. -/
structure Level.MakesDefaultFill (below : Level F) : Prop where
  peek : ∀ (chunk : Chunk F) (iterator : Iterator) (length : Int) (flags : PeekFlags)
    (result : Chunk F), chunk.DefaultFill →
      below.peekUnchecked chunk iterator length flags = .ok (some result) → result.DefaultFill
  insert : ∀ (side : Side) (chunk inserted result : Chunk F), chunk.DefaultFill →
    inserted.DefaultFill → below.insertAt side chunk inserted = .ok result → result.DefaultFill

section Levels

variable {sharing : Sharing F} {below : Level F}

theorem doInsertChunk_defaultFill (makes : below.MakesDefaultFill) 
    (fill : ∀ other ∈ chunks, DefaultFill other) (fill_chunk : chunk.DefaultFill)
    (returned : doInsertChunk sharing below side chunks chunk = .ok after) :
    ∀ other ∈ after, DefaultFill other := by
  unfold doInsertChunk at returned
  split at returned
  next => cases returned
  next =>
    split at returned
    next =>
      cases returned
      simpa using fill_chunk
    next outermost found =>
      have member : outermost ∈ chunks := by
        cases side with
        | front => exact List.mem_of_head? found
        | back => exact List.mem_of_getLast? found
      split at returned
      next =>
        obtain ⟨merged, merged_eq, ⟨⟩⟩ := bind_eq_ok.mp returned
        have merged_fill :=
          (makes.insert side outermost chunk merged (fill outermost member) fill_chunk
            merged_eq).simplify
        intro other other_member
        cases side with
        | front =>
          rcases List.mem_cons.mp other_member with rfl | other_member
          · exact merged_fill
          · exact fill other (List.mem_of_mem_tail other_member)
        | back =>
          rcases List.mem_append.mp other_member with other_member | other_member
          · exact fill other (List.dropLast_subset chunks other_member)
          · rw [List.mem_singleton.mp other_member]
            exact merged_fill
      next =>
        cases returned
        intro other other_member
        have either : other ∈ chunks ∨ other = chunk := by
          cases side <;> simpa [Side.join, or_comm] using other_member
        rcases either with either | rfl
        · exact fill other either
        · exact fill_chunk

omit [Fields F] in
theorem peekElement_defaultFill (makes : below.MakesDefaultFill) {element : Chunk F}
    {length : Nat} (fill : element.DefaultFill)
    (returned : peekElement below element offset length = .ok result) : result.DefaultFill := by
  obtain ⟨peeked, peeked_eq, checked⟩ := bind_eq_ok.mp returned
  split at checked
  next => cases checked
  next => cases checked
  next chunk _ =>
    cases checked
    exact makes.peek element _ _ _ result fill peeked_eq

theorem doInsertElement_defaultFill (makes : below.MakesDefaultFill)
    {sliceChunkBegin sliceChunkEnd : Nat}
    {element : Nat × Chunk F} (fill : ∀ other ∈ chunks, DefaultFill other)
    (fill_element : element.2.DefaultFill)
    (returned : doInsertElement sharing below side sliceChunkBegin sliceChunkEnd chunks element =
      .ok after) :
    ∀ other ∈ after, DefaultFill other := by
  unfold doInsertElement at returned
  split at returned
  next =>
    cases returned
    exact fill
  next => exact doInsertChunk_defaultFill makes fill fill_element returned
  next =>
    obtain ⟨chunk, chunk_eq, added⟩ := bind_eq_ok.mp returned
    exact doInsertChunk_defaultFill makes fill (peekElement_defaultFill makes fill_element chunk_eq)
      added

theorem doInsertSlice_defaultFill (makes : below.MakesDefaultFill)
    {elements : List (Chunk F)} {length : Nat} (fill : ∀ other ∈ chunks, DefaultFill other)
    (fill_elements : ∀ other ∈ elements, DefaultFill other)
    (returned : doInsertSlice sharing below side chunks elements offset length = .ok after) :
    ∀ other ∈ after, DefaultFill other := by
  apply foldlM_invariant (fun state => ∀ other ∈ state, DefaultFill other) _ _ chunks fill after
    returned
  intro state element member fill next stepped
  have is_element := mem_withOffsets ((side.mem_order _ _).mp member)
  exact doInsertElement_defaultFill makes fill (fill_elements _ is_element) stepped

theorem doInsert_defaultFill (makes : below.MakesDefaultFill) 
    (fill : ∀ other ∈ chunks, DefaultFill other) (fill_inserted : inserted.DefaultFill)
    (returned : doInsert sharing below side chunks inserted = .ok after) :
    ∀ other ∈ after, DefaultFill other := by
  unfold doInsert at returned
  split at returned
  next elements offset length =>
    exact doInsertSlice_defaultFill makes fill fill_inserted.of_slice.of_sequence returned
  next elements =>
    apply foldlM_invariant (fun state => ∀ other ∈ state, DefaultFill other) _ _ chunks fill after
      returned
    intro state element member fill next stepped
    have is_element := (side.mem_order _ _).mp member
    exact doInsertChunk_defaultFill makes fill (fill_inserted.of_sequence _ is_element) stepped
  next => exact doInsertChunk_defaultFill makes fill fill_inserted returned

theorem insertAtWith_defaultFill (makes : below.MakesDefaultFill)
    (fill : chunk.DefaultFill) (fill_inserted : inserted.DefaultFill)
    (returned : insertAtWith sharing below side chunk inserted = .ok result) :
    result.DefaultFill := by
  unfold insertAtWith at returned
  split at returned
  next =>
    cases returned
    exact .bytes _
  next =>
    cases returned
    cases fill
    exact .byteCount _
  next =>
    split at returned <;> cases returned <;> exact .slice fill.of_slice
  next =>
    obtain ⟨after, after_eq, ⟨⟩⟩ := bind_eq_ok.mp returned
    exact .sequence (doInsert_defaultFill makes fill.of_sequence fill_inserted after_eq)
  next => cases returned

theorem peekSlice_defaultFill
    (fill : chunk.DefaultFill) (returned : peekSlice chunk iterator length = .ok (some result)) :
    result.DefaultFill := by
  obtain ⟨offset, _, ⟨⟩⟩ := bind_eq_ok.mp returned
  exact .slice fill

omit [Fields F] in
theorem getEmptyChunk_defaultFill
    (returned : getEmptyChunk flags = .ok (some result)) : result.DefaultFill := by
  unfold getEmptyChunk at returned
  split at returned
  · cases returned
  · split at returned <;> cases returned
    exact .empty

theorem peekLeaf_defaultFill {rebuild : Iterator → Int → PeekResult F} (fill : chunk.DefaultFill)
    (rebuilt : rebuild iterator length = .ok (some result) → result.DefaultFill)
    (returned : peekLeaf chunk rebuild iterator length flags = .ok (some result)) :
    result.DefaultFill := by
  unfold peekLeaf at returned
  simp only at returned
  split at returned
  next => cases returned
  next =>
    split at returned
    next => exact getEmptyChunk_defaultFill returned
    next =>
      split at returned
      next =>
        cases returned
        exact fill
      next => exact rebuilt returned

theorem peekElements_defaultFill (makes : below.MakesDefaultFill)
     {position : Nat} (fill : ∀ chunk ∈ chunks, DefaultFill chunk)
    (returned : peekElements below iterator length flags chunks position =
      some (.ok (some result))) : result.DefaultFill := by
  induction chunks generalizing position with
  | nil => cases returned
  | cons chunk rest ih =>
    obtain ⟨first, later⟩ := List.forall_mem_cons.mp fill
    unfold peekElements at returned
    simp only at returned
    split at returned
    next =>
      cases returned
      exact first
    next =>
      split at returned
      next => exact makes.peek chunk _ _ _ result first (Option.some.inj returned)
      next => exact ih later returned

theorem peekUnindexed_defaultFill (makes : below.MakesDefaultFill) 
    (fill : ∀ chunk ∈ chunks, DefaultFill chunk)
    (returned : peekUnindexed sharing below chunks iterator length flags = .ok (some result)) :
    result.DefaultFill := by
  unfold peekUnindexed at returned
  split at returned
  next found =>
    apply peekElements_defaultFill makes _ (found.trans (congrArg some returned))
    intro chunk member
    split at member
    · exact fill chunk member
    · exact fill chunk (List.mem_reverse.mp member)
  next =>
    obtain ⟨offset, _, rebuilt⟩ := bind_eq_ok.mp returned
    obtain ⟨after, after_eq, ⟨⟩⟩ := bind_eq_ok.mp rebuilt
    exact .sequence (doInsertSlice_defaultFill makes (by simp) fill after_eq)

theorem peekSequence_defaultFill (makes : below.MakesDefaultFill) 
    (fill : ∀ chunk ∈ chunks, DefaultFill chunk)
    (returned : peekSequence sharing below chunks iterator length flags = .ok (some result)) :
    result.DefaultFill := by
  unfold peekSequence at returned
  simp only at returned
  split at returned
  next => cases returned
  next =>
    split at returned
    next => exact getEmptyChunk_defaultFill returned
    next =>
      split at returned
      next =>
        cases returned
        exact .sequence fill
      next =>
        split at returned
        next => exact peekUnindexed_defaultFill makes fill returned
        next index _ =>
          split at returned
          next => exact peekUnindexed_defaultFill makes fill returned
          next =>
            split at returned
            next => cases returned
            next chunk found =>
              split at returned
              next =>
                cases returned
                rw [getElementChunk] at found
                split at found
                · exact fill result (List.mem_of_getElem? found)
                · exact fill result (List.mem_reverse.mp (List.mem_of_getElem? found))
              next => exact peekUnindexed_defaultFill makes fill returned

theorem peekUncheckedWith_defaultFill (makes : below.MakesDefaultFill) (chunk : Chunk F)
    (iterator : Iterator) (length : Int) (flags : PeekFlags) (result : Chunk F)
    (fill : chunk.DefaultFill)
    (returned : peekUncheckedWith sharing below chunk iterator length flags = .ok (some result)) :
    result.DefaultFill := by
  induction fill generalizing iterator length with
  | empty =>
    unfold peekUncheckedWith peekEmpty at returned
    split at returned
    · cases returned
    · split at returned
      · cases returned
      · exact getEmptyChunk_defaultFill returned
  | bytes bs =>
    unfold peekUncheckedWith at returned
    apply peekLeaf_defaultFill (.bytes bs) _ returned
    intro rebuilt
    unfold peekBytes at rebuilt
    simp only at rebuilt
    split at rebuilt
    · split at rebuilt
      · cases rebuilt
      · split at rebuilt <;> cases rebuilt
        exact .bytes _
    · exact peekSlice_defaultFill (.bytes bs) rebuilt
  | byteCount count =>
    unfold peekUncheckedWith at returned
    apply peekLeaf_defaultFill (.byteCount count) _ returned
    intro rebuilt
    unfold peekByteCount at rebuilt
    simp only at rebuilt
    split at rebuilt
    · split at rebuilt <;> cases rebuilt
      exact .byteCount _
    · exact peekSlice_defaultFill (.byteCount count) rebuilt
  | fields content =>
    unfold peekUncheckedWith at returned
    exact peekLeaf_defaultFill (.fields content) (peekSlice_defaultFill (.fields content)) returned
  | slice inner ih =>
    unfold peekUncheckedWith at returned
    split at returned
    next => cases returned
    next =>
      split at returned
      next => exact getEmptyChunk_defaultFill returned
      next =>
        split at returned
        next =>
          split at returned <;> cases returned
          · exact inner
          · exact .slice inner
        next => exact ih _ _ returned
  | sequence each _ =>
    unfold peekUncheckedWith at returned
    exact peekSequence_defaultFill makes each returned

end Levels

theorem level_makesDefaultFill (bound : Nat) :
    (level sharing bound).MakesDefaultFill := by
  induction bound with
  | zero =>
    constructor
    · intro chunk iterator length flags result _ returned
      cases returned
    · intro side chunk inserted result _ _ returned
      cases returned
  | succ bound makes =>
    constructor
    · exact peekUncheckedWith_defaultFill makes
    · intro side chunk inserted result fill fill_inserted returned
      exact insertAtWith_defaultFill makes fill fill_inserted returned

theorem peek_defaultFill {sharing : Sharing F} (fill : chunk.DefaultFill)
    (returned : peek sharing chunk iterator length flags = .ok (some result)) :
    result.DefaultFill := by
  obtain ⟨peeked, peeked_eq, checked⟩ := bind_eq_ok.mp returned
  rw [checkPeekResult_eq checked] at peeked_eq
  exact (level_makesDefaultFill sharing chunk.size).peek chunk iterator length flags result fill
    peeked_eq

theorem insertAt_defaultFill {sharing : Sharing F}
    (fill : chunk.DefaultFill) (fill_inserted : inserted.DefaultFill)
    (returned : insertAt sharing side chunk inserted = .ok result) : result.DefaultFill :=
  (level_makesDefaultFill sharing (chunk.size + inserted.size)).insert side chunk inserted result
    fill fill_inserted returned

/-! ### Nothing is lost -/

/-- Nothing that a level makes of chunks with the default data loses a fill byte. -/
structure KeepsLevel.KeepsDefaultFill (keeps : KeepsLevel F) (sharing : Sharing F)
    (bound : Nat) : Prop where
  peek : ∀ (chunk : Chunk F) (offset length : Nat), chunk.WellFormed → chunk.DefaultFill →
    chunk.size ≤ bound → 0 < length → offset + length ≤ chunk.getChunkLength →
      keeps.peek chunk offset length
  insert : ∀ (side : Side) (chunk inserted : Chunk F), chunk.WellFormed → inserted.WellFormed →
    chunk.DefaultFill → inserted.DefaultFill → 0 < inserted.getChunkLength →
    canInsertAt sharing side chunk inserted = true → chunk.size + inserted.size ≤ bound →
      keeps.insert side chunk inserted

/-- A chunk that may be inserted into a sequence. -/
structure Insertable (chunk : Chunk F) : Prop where
  wf : chunk.WellFormed
  positive : 0 < chunk.getChunkLength
  fill : chunk.DefaultFill

/-- Elements that chunks are inserted into, which together stay below a size. -/
structure Growing (bound : Nat) (items chunks : List (Chunk F)) : Prop where
  wf : WellFormed (.sequence chunks)
  fill : ∀ chunk ∈ chunks, DefaultFill chunk
  fits : sizeOfAll chunks + (items.map size).sum ≤ bound
  items : ∀ chunk ∈ items, Insertable chunk

section Levels

variable {sharing : Sharing F} {below : Level F} {keeps : KeepsLevel F} {bound : Nat}

theorem doInsertChunkKeeps_of_growing (kept : keeps.KeepsDefaultFill sharing bound) 
    (growing : Growing bound (chunk :: items) chunks) :
    DoInsertChunkKeeps sharing keeps side chunks chunk := by
  intro outermost found can
  have member : outermost ∈ chunks := by
    cases side with
    | front => exact List.mem_of_head? found
    | back => exact List.mem_of_getLast? found
  have first := growing.items chunk List.mem_cons_self
  have size_le := size_le_sizeOfAll member
  have fits := growing.fits
  rw [List.map_cons, List.sum_cons] at fits
  exact kept.insert side outermost chunk ((wellFormed_sequence_iff _).mp growing.wf _ member).1
    first.wf (growing.fill outermost member) first.fill first.positive can (by omega)

theorem Growing.next (sound : below.Sound sharing keeps bound) (makes : below.MakesDefaultFill) 
    (growing : Growing bound (chunk :: items) chunks)
    (returned : doInsertChunk sharing below side chunks chunk = .ok after) :
    Growing bound items after := by
  have first := growing.items chunk List.mem_cons_self
  have fits := growing.fits
  rw [List.map_cons, List.sum_cons] at fits
  obtain ⟨after', returned', grown⟩ := doInsertChunk_grown sound side chunks chunk growing.wf first.wf
    first.positive (by omega)
  rw [returned] at returned'
  cases returned'
  have size_le := grown.size_le
  exact ⟨grown.wf, doInsertChunk_defaultFill makes growing.fill first.fill returned, by omega,
    fun other member => growing.items other (List.mem_cons_of_mem _ member)⟩

theorem along_of_growing (sound : below.Sound sharing keeps bound)
    (makes : below.MakesDefaultFill) (kept : keeps.KeepsDefaultFill sharing bound)
    (growing : Growing bound items chunks) :
    Along (doInsertChunk sharing below side) (DoInsertChunkKeeps sharing keeps side) chunks
      items := by
  apply Along.of_invariant (Growing bound) _ items chunks growing
  intro item rest state growing
  exact ⟨doInsertChunkKeeps_of_growing kept growing, fun next => growing.next sound makes⟩

theorem Growing.less
    (growing : Growing bound (chunk :: items) chunks) : Growing bound items chunks := by
  have fits := growing.fits
  rw [List.map_cons, List.sum_cons] at fits
  exact ⟨growing.wf, growing.fill, by omega,
    fun other member => growing.items other (List.mem_cons_of_mem _ member)⟩

theorem Growing.replace {smaller : Chunk F}
    (growing : Growing bound (chunk :: items) chunks) (insertable : Insertable smaller)
    (size_le : smaller.size ≤ chunk.size) : Growing bound (smaller :: items) chunks := by
  have fits := growing.fits
  rw [List.map_cons, List.sum_cons] at fits
  refine ⟨growing.wf, growing.fill, ?_, ?_⟩
  · rw [List.map_cons, List.sum_cons]
    omega
  · exact List.forall_mem_cons.mpr ⟨insertable,
      fun other member => growing.items other (List.mem_cons_of_mem _ member)⟩

theorem Growing.order (side : Side)
    (growing : Growing bound items chunks) : Growing bound (side.order items) chunks where
  wf := growing.wf
  fill := growing.fill
  fits := by
    rw [side.sum_order]
    exact growing.fits
  items other member := growing.items other ((side.mem_order _ _).mp member)

/-- An element that lies in a slice is inserted, whole or as the part that is peeked of it. -/
theorem doInsertElementKeeps_of_growing (sound : below.Sound sharing keeps bound)
    (makes : below.MakesDefaultFill) (kept : keeps.KeepsDefaultFill sharing bound)
    {sliceChunkBegin sliceChunkEnd : Nat} (nonempty : sliceChunkBegin < sliceChunkEnd)
    {element : Nat × Chunk F} (growing : Growing bound (element.2 :: items) chunks) :
    DoInsertElementKeeps sharing below keeps side sliceChunkBegin sliceChunkEnd chunks element ∧
      ∀ next, doInsertElement sharing below side sliceChunkBegin sliceChunkEnd chunks element =
        .ok next → Growing bound items next := by
  obtain ⟨chunkBegin, chunk⟩ := element
  have first := growing.items chunk List.mem_cons_self
  have size_le : chunk.size ≤ bound := by
    have fits := growing.fits
    simp only [List.map_cons, List.sum_cons] at fits
    omega
  unfold DoInsertElementKeeps doInsertElement
  simp only
  cases cut : elementCut sliceChunkBegin sliceChunkEnd chunkBegin
      (chunkBegin + chunk.getChunkLength) with
  | outside =>
    refine ⟨trivial, ?_⟩
    rintro next ⟨⟩
    exact growing.less
  | whole =>
    exact ⟨doInsertChunkKeeps_of_growing kept growing, fun next => growing.next sound makes⟩
  | part offset length =>
    have some_ : 0 < length ∧ offset + length ≤ chunk.getChunkLength := by
      simp only [elementCut] at cut
      grind
    obtain ⟨positive, inside⟩ := some_
    obtain ⟨result, result_eq, peeked, _⟩ := peekElement_peeked sound chunk offset length first.wf
      size_le positive inside
    have insertable : Insertable result :=
      ⟨peeked.wf, by rw [peeked.length_eq]; exact positive,
        peekElement_defaultFill makes first.fill result_eq⟩
    have replaced := growing.replace insertable peeked.size_le
    refine ⟨⟨kept.peek chunk offset length first.wf first.fill size_le positive inside, ?_⟩, ?_⟩
    · intro other other_eq
      rw [result_eq] at other_eq
      cases other_eq
      exact doInsertChunkKeeps_of_growing kept replaced
    · intro next returned
      simp only [result_eq] at returned
      exact replaced.next sound makes returned

theorem map_snd_withOffsets (offset : Nat) (chunks : List (Chunk F)) :
    (withOffsets offset chunks).map Prod.snd = chunks := by
  induction chunks generalizing offset with
  | nil => rfl
  | cons chunk rest ih => rw [withOffsets, List.map_cons, ih]

theorem doInsertSliceKeeps_of_growing (sound : below.Sound sharing keeps bound)
    (makes : below.MakesDefaultFill) (kept : keeps.KeepsDefaultFill sharing bound)
    {elements : List (Chunk F)} (offset length : Nat) (positive : 0 < length)
    (growing : Growing bound elements chunks) :
    DoInsertSliceKeeps sharing below keeps side chunks elements offset length := by
  have ordered : (side.order (withOffsets 0 elements)).map Prod.snd = side.order elements := by
    cases side with
    | front => rw [Side.order, List.map_reverse, map_snd_withOffsets]; rfl
    | back => exact map_snd_withOffsets 0 elements
  apply Along.of_invariant fun items state => Growing bound (items.map Prod.snd) state
  · intro item rest state growing
    exact doInsertElementKeeps_of_growing sound makes kept (by omega) growing
  · rw [ordered]
    exact growing.order side

theorem doInsertKeeps_of_growing (sound : below.Sound sharing keeps bound)
    (makes : below.MakesDefaultFill) (kept : keeps.KeepsDefaultFill sharing bound) (side : Side)
    (chunks : List (Chunk F)) (inserted : Chunk F) (growing : Growing bound [inserted] chunks) :
    DoInsertKeeps sharing below keeps side chunks inserted := by
  obtain ⟨wf_inserted, positive, fill_inserted⟩ := growing.items inserted (by simp)
  have fits := growing.fits
  simp only [List.map_cons, List.map_nil, List.sum_cons, List.sum_nil, Nat.add_zero] at fits
  -- inserted as a chunk of its own
  have single : DoInsertChunkKeeps sharing keeps side chunks inserted :=
    doInsertChunkKeeps_of_growing kept growing
  match inserted, wf_inserted with
  | .sequence elements, wf_elements =>
    rw [size] at fits
    have good := (wellFormed_sequence_iff elements).mp wf_elements
    apply along_of_growing sound makes kept
    apply Growing.order
    refine ⟨growing.wf, growing.fill, ?_, fun other member => ?_⟩
    · rw [← sizeOfAll_eq_sum]
      omega
    · exact ⟨(good other member).1, (good other member).2, fill_inserted.of_sequence other member⟩
  | .slice (.sequence elements) offset length, .slice wf_elements _ =>
    rw [size_slice, size] at fits
    have good := (wellFormed_sequence_iff elements).mp wf_elements
    apply doInsertSliceKeeps_of_growing sound makes kept offset length positive
    refine ⟨growing.wf, growing.fill, ?_, fun other member => ?_⟩
    · rw [← sizeOfAll_eq_sum]
      omega
    · exact ⟨(good other member).1, (good other member).2,
        fill_inserted.of_slice.of_sequence other member⟩
  | .slice .empty _ _, _ => exact single
  | .slice (.bytes _) _ _, _ => exact single
  | .slice (.byteCount _ _) _ _, _ => exact single
  | .slice (.fields _) _ _, _ => exact single
  | .slice (.slice _ _ _) _ _, _ => exact single
  | .empty, _ => exact single
  | .bytes _, _ => exact single
  | .byteCount _ _, _ => exact single
  | .fields _, _ => exact single

theorem insertKeepsWith_of_defaultFill (sound : below.Sound sharing keeps bound)
    (makes : below.MakesDefaultFill) (kept : keeps.KeepsDefaultFill sharing bound) (side : Side)
    (chunk inserted : Chunk F) (wf : chunk.WellFormed) (wf_inserted : inserted.WellFormed)
    (fill : chunk.DefaultFill) (fill_inserted : inserted.DefaultFill)
    (positive : 0 < inserted.getChunkLength) (fits : chunk.size + inserted.size ≤ bound + 1) :
    InsertKeepsWith sharing below keeps side chunk inserted := by
  cases fill with
  | byteCount count =>
    cases fill_inserted with
    | byteCount count' => rfl
    | _ => trivial
  | @sequence chunks each =>
    rw [size] at fits
    apply doInsertKeeps_of_growing sound makes kept side chunks inserted
    refine ⟨wf, each, ?_, ?_⟩
    · simp only [List.map_cons, List.map_nil, List.sum_cons, List.sum_nil]
      omega
    · simpa using ⟨wf_inserted, positive, fill_inserted⟩
  | _ => trivial

theorem peekKeepsWith_of_defaultFill (sound : below.Sound sharing keeps bound)
    (makes : below.MakesDefaultFill) (kept : keeps.KeepsDefaultFill sharing bound)
    (chunk : Chunk F) (offset length : Nat) (wf : chunk.WellFormed) (fill : chunk.DefaultFill)
    (fits : chunk.size ≤ bound + 1) (positive : 0 < length)
    (inside : offset + length ≤ chunk.getChunkLength) :
    PeekKeepsWith sharing below keeps chunk offset length := by
  induction wf generalizing offset with
  | byteCount count data =>
    cases fill
    exact .inr (.inr rfl)
  | slice wf_inner fitting ih =>
    rw [getChunkLength] at inside
    rw [size_slice] at fits
    exact .inr (ih (offset + _) fill.of_slice fits (by omega))
  | @sequence chunks wf_elements positives =>
    rw [size] at fits
    have fill_elements := fill.of_sequence
    refine .inr ?_
    cases located : locate chunks offset length with
    | some place =>
      obtain ⟨element, inner⟩ := place
      obtain ⟨before, after, chunks_eq, _, ends, _⟩ := locate_spec located
      have member : element ∈ chunks := by
        rw [chunks_eq]
        simp
      have size_le := size_le_sizeOfAll member
      exact .inr (kept.peek element inner length (wf_elements element member)
        (fill_elements element member) (by omega) positive ends)
    | none =>
      apply doInsertSliceKeeps_of_growing sound makes kept offset length positive
      refine ⟨.sequence (by simp) (by simp), by simp, ?_, fun other member => ?_⟩
      · rw [← sizeOfAll_eq_sum, sizeOfAll]
        omega
      · exact ⟨wf_elements other member, positives other member, fill_elements other member⟩
  | _ => trivial

end Levels

theorem keepsLevel_keepsDefaultFill (bound : Nat) :
    (keepsLevel sharing bound).KeepsDefaultFill sharing bound := by
  induction bound with
  | zero =>
    constructor
    · intro chunk offset length _ _ fits
      have := chunk.size_pos
      omega
    · intro side chunk inserted _ _ _ _ _ _ fits
      have := chunk.size_pos
      omega
  | succ bound kept =>
    have sound := level_sound sharing bound
    have makes := level_makesDefaultFill sharing bound
    constructor
    · exact peekKeepsWith_of_defaultFill sound makes kept
    · intro side chunk inserted wf wf_inserted fill fill_inserted positive _ fits
      exact insertKeepsWith_of_defaultFill sound makes kept side chunk inserted wf wf_inserted fill
        fill_inserted positive fits

theorem peekKeeps_of_defaultFill (chunk : Chunk F) (offset length : Nat)
    (wf : chunk.WellFormed) (fill : chunk.DefaultFill) (positive : 0 < length)
    (inside : offset + length ≤ chunk.getChunkLength) : PeekKeeps sharing chunk offset length :=
  (keepsLevel_keepsDefaultFill sharing chunk.size).peek chunk offset length wf fill (Nat.le_refl _)
    positive inside

theorem insertKeeps_of_defaultFill (side : Side) (chunk inserted : Chunk F)
    (wf : chunk.WellFormed) (wf_inserted : inserted.WellFormed) (fill : chunk.DefaultFill)
    (fill_inserted : inserted.DefaultFill) (positive : 0 < inserted.getChunkLength)
    (can : canInsertAt sharing side chunk inserted = true) :
    InsertKeeps sharing side chunk inserted :=
  (keepsLevel_keepsDefaultFill sharing (chunk.size + inserted.size)).insert side chunk inserted wf
    wf_inserted fill fill_inserted positive can (Nat.le_refl _)

end Chunk

namespace ChunkBuffer

open Chunk

/-! ### Chunk buffers with the default data -/

/-- The regions of a buffer that only chunks with the default data are written to. -/
structure ConsistentFill (regions : List (Region F)) : Prop where
  consistent : Consistent regions
  fill : ∀ region ∈ regions, region.data.DefaultFill

theorem consistentFill_nil : ConsistentFill ([] : List (Region F)) where
  consistent := consistent_nil
  fill := by simp

theorem peekData_defaultFill {sharing : Sharing F} {data : Chunk F} {length : Nat}
    (fill : data.DefaultFill) (returned : peekData sharing data offset length = .ok result) :
    result.DefaultFill := by
  obtain ⟨peeked, peeked_eq, checked⟩ := bind_eq_ok.mp returned
  split at checked
  next => cases checked
  next chunk =>
    cases checked
    exact peek_defaultFill fill peeked_eq

theorem sliceOverlapping_defaultFill {sharing : Sharing F} {newRegion : Region F}
    {sliced : List (Region F)} (fill : ∀ region ∈ regions, region.data.DefaultFill)
    (returned : sliceOverlapping sharing newRegion regions = .ok sliced) :
    ∀ region ∈ sliced, region.data.DefaultFill := by
  induction regions generalizing sliced with
  | nil =>
    cases returned
    simp
  | cons old rest ih =>
    obtain ⟨first, later⟩ := List.forall_mem_cons.mp fill
    unfold sliceOverlapping at returned
    split at returned
    next =>
      obtain ⟨others, others_eq, ⟨⟩⟩ := bind_eq_ok.mp returned
      exact List.forall_mem_cons.mpr ⟨first, ih later others_eq⟩
    next =>
      split at returned
      next => exact ih later returned
      next =>
        split at returned
        next =>
          obtain ⟨previousData, previous_eq, returned⟩ := bind_eq_ok.mp returned
          obtain ⟨nextData, next_eq, ⟨⟩⟩ := bind_eq_ok.mp returned
          exact List.forall_mem_cons.mpr ⟨peekData_defaultFill first previous_eq,
            List.forall_mem_cons.mpr ⟨peekData_defaultFill first next_eq, later⟩⟩
        next =>
          split at returned
          all_goals
            obtain ⟨data, data_eq, returned⟩ := bind_eq_ok.mp returned
            obtain ⟨others, others_eq, ⟨⟩⟩ := bind_eq_ok.mp returned
            exact List.forall_mem_cons.mpr ⟨peekData_defaultFill first data_eq,
              ih later others_eq⟩

theorem mergeRegions_defaultFill {sharing : Sharing F} {previousRegion nextRegion : Region F}
    (fill_previous : previousRegion.data.DefaultFill) (fill_next : nextRegion.data.DefaultFill)
    (returned : mergeRegions sharing previousRegion nextRegion = .ok merged) :
    ∀ region ∈ merged, region.data.DefaultFill := by
  unfold mergeRegions at returned
  split at returned
  next =>
    split at returned
    next =>
      obtain ⟨newData, newData_eq, ⟨⟩⟩ := bind_eq_ok.mp returned
      simpa using (insertAt_defaultFill fill_previous fill_next newData_eq).simplify
    next =>
      split at returned
      next =>
        obtain ⟨newData, newData_eq, ⟨⟩⟩ := bind_eq_ok.mp returned
        simpa using (insertAt_defaultFill fill_next fill_previous newData_eq).simplify
      next =>
        obtain ⟨first, first_eq, returned⟩ := bind_eq_ok.mp returned
        obtain ⟨both, both_eq, ⟨⟩⟩ := bind_eq_ok.mp returned
        have fill_first := insertAt_defaultFill (.sequence (by simp)) fill_previous first_eq
        simpa using insertAt_defaultFill fill_first fill_next both_eq
  next =>
    cases returned
    simpa using ⟨fill_previous, fill_next⟩

theorem mergeBehind_defaultFill {sharing : Sharing F}
    {newRegion : Region F} (fill : ∀ region ∈ regions, region.data.DefaultFill)
    (fill_new : newRegion.data.DefaultFill)
    (returned : mergeBehind sharing regions newRegion = .ok merged) :
    ∀ region ∈ merged, region.data.DefaultFill := by
  unfold mergeBehind at returned
  split at returned
  next =>
    cases returned
    simpa using fill_new
  next previousRegion found =>
    obtain ⟨joined, joined_eq, ⟨⟩⟩ := bind_eq_ok.mp returned
    have fill_previous := fill previousRegion (List.mem_of_getLast? found)
    exact List.forall_mem_append.mpr
      ⟨fun region member => fill region (List.dropLast_subset regions member),
        mergeRegions_defaultFill fill_previous fill_new joined_eq⟩

theorem mergeBefore_defaultFill {sharing : Sharing F} {front : List (Region F)}
    (fill_front : ∀ region ∈ front, region.data.DefaultFill)
    (fill : ∀ region ∈ regions, region.data.DefaultFill)
    (returned : mergeBefore sharing front regions = .ok merged) :
    ∀ region ∈ merged, region.data.DefaultFill := by
  unfold mergeBefore at returned
  split at returned
  next region nextRegion found_region found_next =>
    obtain ⟨joined, joined_eq, ⟨⟩⟩ := bind_eq_ok.mp returned
    have fill_joined := mergeRegions_defaultFill
      (fill_front region (List.mem_of_getLast? found_region))
      (fill nextRegion (List.mem_of_head? found_next)) joined_eq
    exact List.forall_mem_append.mpr ⟨List.forall_mem_append.mpr
      ⟨fun other member => fill_front other (List.dropLast_subset front member), fill_joined⟩,
      fun other member => fill other (List.mem_of_mem_tail member)⟩
  next =>
    cases returned
    exact List.forall_mem_append.mpr ⟨fill_front, fill⟩

theorem sliceKeeps_of_defaultFill (newRegion old : Region F)
    (wf : old.data.WellFormed) (fill : old.data.DefaultFill) :
    SliceKeeps sharing newRegion old := by
  have stop : old.getEndOffset = old.getStartOffset + old.data.getChunkLength := rfl
  constructor
  · intro starts covered
    exact peekKeeps_of_defaultFill sharing old.data _ _ wf fill (by omega) (by omega)
  · intro covered ends
    exact peekKeeps_of_defaultFill sharing old.data _ _ wf fill (by omega) (by omega)

theorem mergeKeeps_of_defaultFill (previousRegion nextRegion : Region F)
    (previous : Insertable previousRegion.data) (next : Insertable nextRegion.data) :
    MergeKeeps sharing previousRegion nextRegion := by
  intro _
  split
  next can =>
    exact insertKeeps_of_defaultFill sharing .back _ _ previous.wf next.wf previous.fill next.fill
      next.positive can
  next =>
    split
    next can =>
      exact insertKeeps_of_defaultFill sharing .front _ _ next.wf previous.wf next.fill
        previous.fill previous.positive can
    next =>
      have wf_nil : WellFormed (.sequence ([] : List (Chunk F))) := .sequence (by simp) (by simp)
      have fill_nil : DefaultFill (.sequence ([] : List (Chunk F))) := .sequence (by simp)
      refine ⟨insertKeeps_of_defaultFill sharing .back _ _ wf_nil previous.wf fill_nil previous.fill
        previous.positive rfl, ?_⟩
      intro sequenceChunk inserted
      obtain ⟨result, result_eq, facts⟩ := insertAt_inserted sharing .back (.sequence [])
        previousRegion.data wf_nil previous.wf previous.positive rfl
      rw [inserted] at result_eq
      cases result_eq
      have fill := insertAt_defaultFill fill_nil previous.fill inserted
      have can : canInsertAt sharing .back sequenceChunk nextRegion.data = true := by
        unfold insertAt at inserted
        obtain ⟨bound, size_eq⟩ := Nat.exists_eq_succ_of_ne_zero (Nat.ne_of_gt
          (Nat.add_pos_left (size_pos (.sequence [])) previousRegion.data.size))
        rw [size_eq] at inserted
        obtain ⟨elements, _, ⟨⟩⟩ := bind_eq_ok.mp inserted
        rfl
      exact insertKeeps_of_defaultFill sharing .back _ _ facts.wf next.wf fill next.fill
        next.positive can

theorem replaceKeeps_of_defaultFill (regions : List (Region F))
    (offset : Nat) (chunk : Chunk F) (good : ConsistentFill regions)
    (insertable : Insertable chunk) : ReplaceKeeps sharing regions offset chunk := by
  obtain ⟨consistent, fill⟩ := good
  refine ⟨fun old member => sliceKeeps_of_defaultFill sharing _ old (consistent.wf old member)
    (fill old member), ?_⟩
  intro sliced sliced_eq
  obtain ⟨sliced', sliced_eq', slicing⟩ := sliceRegions_sliced sharing ⟨offset, chunk⟩ regions
    consistent (fun old member starts ends => Nat.lt_add_of_pos_right insertable.positive)
  rw [sliced_eq] at sliced_eq'
  cases sliced_eq'
  rw [sliceRegions_eq sharing ⟨offset, chunk⟩ regions consistent] at sliced_eq
  have fill_sliced := sliceOverlapping_defaultFill fill sliced_eq
  have joined := before_append_behind sliced offset
  have consistent_joined := slicing.consistent
  rw [← joined] at consistent_joined fill_sliced
  obtain ⟨consistent_before, consistent_behind, _⟩ := Consistent.append_iff.mp consistent_joined
  obtain ⟨fill_before, fill_behind⟩ := List.forall_mem_append.mp fill_sliced
  have each {others : List (Region F)} (consistent : Consistent others)
      (fill : ∀ region ∈ others, region.data.DefaultFill) (region : Region F)
      (member : region ∈ others) : Insertable region.data :=
    ⟨consistent.wf region member, consistent.nonempty region member, fill region member⟩
  constructor
  · intro previous found
    exact mergeKeeps_of_defaultFill sharing previous ⟨offset, chunk⟩
      (each consistent_before fill_before previous (List.mem_of_getLast? found)) insertable
  · intro merged region next merged_eq found_region found_next
    obtain ⟨merged', merged_eq', consistent_merged, _⟩ := mergeBehind_merged sharing
      (before sliced offset) ⟨offset, chunk⟩ consistent_before insertable.wf insertable.positive
      (fun region member => before_ends member)
    rw [merged_eq] at merged_eq'
    cases merged_eq'
    have fill_merged := mergeBehind_defaultFill fill_before insertable.fill merged_eq
    exact mergeKeeps_of_defaultFill sharing region next
      (each consistent_merged fill_merged region (List.mem_of_getLast? found_region))
      (each consistent_behind fill_behind next (List.mem_of_head? found_next))

theorem replace_defaultFill {sharing : Sharing F} {after : List (Region F)}
    (good : ConsistentFill regions) (insertable : Insertable chunk)
    (returned : replace sharing regions offset chunk = .ok after) :
    ∀ region ∈ after, region.data.DefaultFill := by
  obtain ⟨consistent, fill⟩ := good
  obtain ⟨sliced, sliced_eq, slicing⟩ := sliceRegions_sliced sharing ⟨offset, chunk⟩ regions
    consistent (fun old member starts ends => Nat.lt_add_of_pos_right insertable.positive)
  rw [replace_eq sharing regions sliced offset chunk insertable.positive sliced_eq
    slicing.consistent slicing.apart] at returned
  rw [sliceRegions_eq sharing ⟨offset, chunk⟩ regions consistent] at sliced_eq
  have fill_sliced := sliceOverlapping_defaultFill fill sliced_eq
  rw [← before_append_behind sliced offset] at fill_sliced
  obtain ⟨fill_before, fill_behind⟩ := List.forall_mem_append.mp fill_sliced
  obtain ⟨merged, merged_eq, after_eq⟩ := bind_eq_ok.mp returned
  exact mergeBefore_defaultFill (mergeBehind_defaultFill fill_before insertable.fill merged_eq)
    fill_behind after_eq

/-- Writing a chunk with the default data. -/
theorem replace_fill (regions : List (Region F)) (offset : Nat)
    (chunk : Chunk F) (good : ConsistentFill regions) (insertable : Insertable chunk) :
    ∃ after, replace sharing regions offset chunk = .ok after ∧ ConsistentFill after ∧
      ∀ i, stored after i = overwrite (stored regions) offset chunk.bits i := by
  obtain ⟨after, returned, consistent, _, bits_eq⟩ := replace_stores sharing regions offset chunk
    good.consistent insertable.wf insertable.positive
  exact ⟨after, returned, ⟨consistent, replace_defaultFill good insertable returned⟩,
    bits_eq (replaceKeeps_of_defaultFill sharing regions offset chunk good insertable)⟩

end ChunkBuffer
end Inet.Packet
