import Inet.Packet.ChunkBufferMerge

/-!
# Chunk buffers refine partial maps

A run of replacing and clearing stores what the same run writes to and erases from a partial
map of offsets to bits, as long as no fill bytes are lost, cleared parts are whole bytes or
whole regions, and nothing of length zero is cleared inside of a region.
-/
namespace Inet.Packet

open Lib

variable {F : Type} [Fields F]
variable (sharing : Sharing F) (regions : List (Region F)) (offset : Nat) {region : Region F}

namespace ChunkBuffer

/-! ### Replacing -/

/-- The regions before an offset, and those behind. -/
def before (regions : List (Region F)) (offset : Nat) : List (Region F) :=
  regions.takeWhile fun region => region.getEndOffset ≤ offset

def behind (regions : List (Region F)) (offset : Nat) : List (Region F) :=
  regions.dropWhile fun region => region.getEndOffset ≤ offset

/-- Replacing loses no fill byte, neither of what is cut nor of what is merged. -/
def ReplaceKeeps (sharing : Sharing F) (regions : List (Region F)) (offset : Nat)
    (chunk : Chunk F) : Prop :=
  (∀ old ∈ regions, SliceKeeps sharing ⟨offset, chunk⟩ old) ∧
    ∀ sliced, sliceRegions sharing ⟨offset, chunk⟩ regions = .ok sliced →
      (∀ previous, (before sliced offset).getLast? = some previous →
        MergeKeeps sharing previous ⟨offset, chunk⟩) ∧
      ∀ merged region next, mergeBehind sharing (before sliced offset) ⟨offset, chunk⟩ =
          .ok merged → merged.getLast? = some region → (behind sliced offset).head? = some next →
        MergeKeeps sharing region next

theorem before_append_behind :
    before regions offset ++ behind regions offset = regions := List.takeWhile_append_dropWhile

theorem before_ends {regions : List (Region F)} {offset : Nat}
    (member : region ∈ before regions offset) : region.getEndOffset ≤ offset := by
  simpa using List.mem_takeWhile_imp member

theorem behind_starts (newRegion : Region F) {regions : List (Region F)}
    (consistent : Consistent regions)
    (apart : ∀ region ∈ regions, region.getEndOffset ≤ newRegion.getStartOffset ∨
      newRegion.getEndOffset ≤ region.getStartOffset)
    (member : region ∈ behind regions newRegion.offset) :
    newRegion.getEndOffset ≤ region.getStartOffset := by
  have in_order := consistent.separated
  unfold behind at member
  rw [← before_append_behind regions newRegion.offset] at in_order
  cases found : regions.dropWhile fun region => region.getEndOffset ≤ newRegion.offset with
  | nil =>
    rw [found] at member
    cases member
  | cons first rest =>
    have is_first : first ∈ regions := by
      apply (List.dropWhile_suffix _).mem
      rw [found]
      exact List.mem_cons_self
    -- the first region that does not end before the new one starts behind it
    have head := List.head?_dropWhile_not
      (fun region : Region F => region.getEndOffset ≤ newRegion.offset) regions
    rw [found] at head
    have starts : newRegion.getEndOffset ≤ first.getStartOffset := by
      apply (apart first is_first).resolve_left
      simpa [Region.getStartOffset] using head
    rw [found] at member
    rcases List.mem_cons.mp member with rfl | member
    · exact starts
    · have later := (List.pairwise_append.mp in_order).2.1
      rw [behind, found] at later
      have := (List.pairwise_cons.mp later).1 region member
      have : first.getStartOffset ≤ first.getEndOffset := Nat.le_add_right _ _
      omega

omit [Fields F] in
theorem mergeBefore_nil [Fields F] (front : List (Region F)) :
    mergeBefore sharing front [] = .ok front := by
  unfold mergeBefore
  cases front.getLast? <;> simp

/-- All three ways to insert the new region merge it with the last region before it and with
the first one behind. -/
theorem replace_eq (sliced : List (Region F)) (offset : Nat)
    (chunk : Chunk F) (positive : 0 < chunk.getChunkLength)
    (returned : sliceRegions sharing ⟨offset, chunk⟩ regions = .ok sliced)
    (consistent : Consistent sliced) (apart : ∀ region ∈ sliced, region.getEndOffset ≤ offset ∨
      offset + chunk.getChunkLength ≤ region.getStartOffset) :
    replace sharing regions offset chunk = (do
      let merged ← mergeBehind sharing (before sliced offset) ⟨offset, chunk⟩
      mergeBefore sharing merged (behind sliced offset)) := by
  unfold replace
  rw [if_neg (by omega)]
  simp only [returned, ok_bind]
  have starts (region : Region F) (member : region ∈ behind sliced offset) :
      offset + chunk.getChunkLength ≤ region.getStartOffset :=
    behind_starts ⟨offset, chunk⟩ consistent apart member
  have joined := before_append_behind sliced offset
  rcases List.eq_nil_or_concat' sliced with rfl | ⟨others, back, sliced_eq⟩
  · rfl
  cases head_eq : sliced.head? with
  | none =>
    rw [List.head?_eq_none_iff.mp head_eq] at sliced_eq
    simp at sliced_eq
  | some front =>
    rw [sliced_eq, List.getLast?_concat, ← sliced_eq]
    simp only
    by_cases last : back.getEndOffset ≤ offset
    · -- behind all regions
      have nothing : behind sliced offset = [] := by
        rcases List.eq_nil_or_concat' (behind sliced offset) with none_behind | ⟨front', back', eq⟩
        · exact none_behind
        · have same : back' = back := by
            have lasts := congrArg List.getLast? joined
            rw [eq, sliced_eq, ← List.append_assoc, List.getLast?_concat,
              List.getLast?_concat] at lasts
            exact Option.some.inj lasts
          have := starts back (by rw [eq, same]; simp)
          have : back.getStartOffset ≤ back.getEndOffset := Nat.le_add_right _ _
          omega
      rw [nothing, List.append_nil] at joined
      rw [if_pos last, nothing, joined]
      cases mergeBehind sharing sliced ⟨offset, chunk⟩ with
      | error error => rfl
      | ok merged => exact (mergeBefore_nil sharing merged).symm
    rw [if_neg last]
    by_cases first : offset + chunk.getChunkLength ≤ front.getStartOffset
    · -- before all regions
      have nothing : before sliced offset = [] := by
        cases found : before sliced offset with
        | nil => rfl
        | cons front' rest =>
          have same : front' = front := by
            have heads := congrArg List.head? joined
            rw [found, head_eq, List.cons_append, List.head?_cons] at heads
            exact Option.some.inj heads
          have ends := before_ends (show front ∈ before sliced offset by rw [found, same]; simp)
          have : front.getStartOffset ≤ front.getEndOffset := Nat.le_add_right _ _
          omega
      rw [nothing, List.nil_append] at joined
      rw [if_pos first, nothing, joined]
      rfl
    rw [if_neg first]
    have place : sliced.findIdx (fun region => Region.compareStartOffset ⟨offset, chunk⟩ region) =
        (before sliced offset).length := by
      rw [← joined, List.findIdx_append]
      have not_before : List.findIdx (fun region => Region.compareStartOffset ⟨offset, chunk⟩ region)
          (before sliced offset) = (before sliced offset).length := by
        apply List.findIdx_eq_length_of_false
        intro region member
        have ends := before_ends member
        have : region.getStartOffset ≤ region.getEndOffset := Nat.le_add_right _ _
        have later : ¬ offset < region.getStartOffset := by omega
        exact decide_eq_false later
      rw [not_before, if_neg (Nat.lt_irrefl _)]
      rw [before_append_behind]
      cases found : behind sliced offset with
      | nil => simp
      | cons next rest =>
        have := starts next (by rw [found]; simp)
        have starts_later : offset < next.getStartOffset := by omega
        have later : Region.compareStartOffset ⟨offset, chunk⟩ next = true :=
          decide_eq_true starts_later
        rw [List.findIdx_cons, later]
        simp
    have taken : sliced.take (before sliced offset).length = before sliced offset := by
      conv_lhs => rw [← joined]
      rw [List.take_left' (by rw [before_append_behind])]
    have dropped : sliced.drop (before sliced offset).length = behind sliced offset := by
      conv_lhs => rw [← joined]
      rw [List.drop_left' (by rw [before_append_behind])]
    rw [place, taken, dropped]

/-- Replacing stores the new bits and keeps all others. -/
theorem replace_stores (chunk : Chunk F) (consistent : Consistent regions) (wf : chunk.WellFormed)
    (positive : 0 < chunk.getChunkLength) :
    ∃ after, replace sharing regions offset chunk = .ok after ∧ Consistent after ∧
      (∀ i, (stored after i).isSome ↔
        (stored regions i).isSome ∨ (offset ≤ i ∧ i < offset + chunk.getChunkLength)) ∧
      (ReplaceKeeps sharing regions offset chunk →
        ∀ i, stored after i = overwrite (stored regions) offset chunk.bits i) := by
  have stop : Region.getEndOffset ⟨offset, chunk⟩ = offset + chunk.getChunkLength := rfl
  obtain ⟨sliced, sliced_eq, slicing⟩ := sliceRegions_sliced sharing ⟨offset, chunk⟩ regions
    consistent (fun old member starts ends => Nat.lt_add_of_pos_right positive)
  have starts (region : Region F) (member : region ∈ behind sliced offset) :
      offset + chunk.getChunkLength ≤ region.getStartOffset :=
    behind_starts ⟨offset, chunk⟩ slicing.consistent slicing.apart member
  have joined := before_append_behind sliced offset
  have consistent_joined := slicing.consistent
  rw [← joined] at consistent_joined
  obtain ⟨consistent_before, consistent_behind, _⟩ := Consistent.append_iff.mp consistent_joined
  obtain ⟨merged, merged_eq, consistent_merged, ⟨front, region, rfl, ends⟩, merged_held,
    merged_bits⟩ := mergeBehind_merged sharing (before sliced offset) ⟨offset, chunk⟩
      consistent_before wf positive (fun region member => before_ends member)
  obtain ⟨after, after_eq, consistent_after, after_held, after_bits⟩ := mergeBefore_merged sharing
    front region (behind sliced offset) consistent_merged consistent_behind
    (fun next member => by rw [ends, stop]; exact starts next member)
  refine ⟨after, ?_, consistent_after, ?_, ?_⟩
  · rw [replace_eq sharing regions sliced offset chunk positive sliced_eq slicing.consistent
      slicing.apart, merged_eq]
    exact after_eq
  · intro i
    have held := held_congr (merged_held i) (Iff.refl (stored (behind sliced offset) i).isSome)
    rw [after_held, held, List.append_assoc, stored_append, Option.isSome_or, Bool.or_eq_true,
      List.singleton_append, stored_cons, Option.isSome_or, Bool.or_eq_true, or_left_comm,
      ← Bool.or_eq_true, ← Option.isSome_or, ← stored_append, joined, slicing.held_iff,
      ← stored_singleton ⟨offset, chunk⟩, stored_isSome_iff (by simpa using wf)]
    simp only [List.mem_singleton, exists_eq_left, Region.getStartOffset_mk, stop]
    by_cases inside : offset ≤ i ∧ i < offset + chunk.getChunkLength
    · simp [inside]
    · simp [inside]
  · rintro ⟨cut, merges⟩ i
    obtain ⟨merge_behind, merge_before⟩ := merges sliced sliced_eq
    have bits := stored_congr (merged_bits merge_behind i) (Eq.refl (stored (behind sliced offset) i))
    rw [after_bits (fun next found => merge_before _ _ _ merged_eq (by simp) found), bits,
      List.append_assoc, List.singleton_append]
    have written := lookup_overwrite (pieces (before sliced offset)) (pieces (behind sliced offset))
      ⟨offset, chunk.bits⟩ i (by
        intro started inside
        show stored (before sliced offset) i = none
        rw [stored_eq_none_iff consistent_before.wf]
        intro other member
        exact .inr (Nat.le_trans (before_ends member) started))
    have both : stored (before sliced offset ++ behind sliced offset) i =
        erase (stored regions) offset (offset + chunk.getChunkLength) i := by
      rw [joined]
      exact slicing.bits_eq cut i
    rw [stored, pieces, List.map_append] at both ⊢
    rw [List.map_cons]
    refine written.trans ?_
    unfold overwrite
    simp only [pieces]
    rw [both, erase, wf.length_bits]
    split <;> rfl

/-! ### Clearing -/

/-- A cleared part is a whole region, or whole bytes that are some or not inside of a region. -/
def ClearFits (regions : List (Region F)) (offset length : Nat) : Prop :=
  (∃ region ∈ regions, region.offset = offset ∧ region.data.getChunkLength = length) ∨
    (length % 8 = 0 ∧ (length = 0 →
      ∀ region ∈ regions, ¬(region.getStartOffset < offset ∧ offset < region.getEndOffset)))

/-- Clearing loses no fill byte of what is cut. -/
def ClearKeeps (sharing : Sharing F) (regions : List (Region F)) (offset length : Nat) : Prop :=
  (∃ region ∈ regions, region.offset = offset ∧ region.data.getChunkLength = length) ∨
    ∀ old ∈ regions, SliceKeeps sharing ⟨offset, .byteCount (length / 8) '?'.toUInt8⟩ old

/-- Erasing a region erases its offsets. -/
theorem erased_region {front back : List (Region F)}
    (consistent : Consistent (front ++ region :: back)) :
    Consistent (front ++ back) ∧ ∀ i, stored (front ++ back) i =
      erase (stored (front ++ region :: back)) region.getStartOffset region.getEndOffset i := by
  obtain ⟨consistent_front, consistent_rest, apart⟩ := Consistent.append_iff.mp consistent
  have consistent_back := consistent_rest.tail
  have later := (List.pairwise_cons.mp consistent_rest.separated).1
  have stop : region.getStartOffset ≤ region.getEndOffset := Nat.le_add_right _ _
  constructor
  · apply consistent_append consistent_front consistent_back
    exact fun other member next next_member => apart other member next (by simp [next_member])
  · intro i
    rw [erase, stored_append, stored_append, stored_cons]
    by_cases inside : region.getStartOffset ≤ i ∧ i < region.getEndOffset
    · rw [if_pos inside, (stored_eq_none_iff consistent_front.wf i).mpr,
        (stored_eq_none_iff consistent_back.wf i).mpr]
      · rfl
      · intro next member
        have := later next member
        exact .inl (by omega)
      · intro other member
        have := apart other member region (by simp)
        exact .inr (by omega)
    · rw [if_neg inside, get_outside (consistent_rest.wf region (by simp)) i (by omega),
        Option.none_or]

theorem held_erase (map : Nat → Option Bool) (start stop i : Nat) :
    (erase map start stop i).isSome ↔ (map i).isSome ∧ ¬(start ≤ i ∧ i < stop) := by
  unfold erase
  split
  next inside => simpa using fun _ => inside
  next outside => exact ⟨fun held => ⟨held, outside⟩, And.left⟩

theorem clear_stores (length : Nat)
    (consistent : Consistent regions) (fits : ClearFits regions offset length) :
    ∃ after, clear sharing regions offset length = .ok after ∧ Consistent after ∧
      (∀ i, (stored after i).isSome ↔
        (stored regions i).isSome ∧ ¬(offset ≤ i ∧ i < offset + length)) ∧
      (ClearKeeps sharing regions offset length →
        ∀ i, stored after i = erase (stored regions) offset (offset + length) i) := by
  unfold clear
  simp only [List.any_eq_true, decide_eq_true_eq]
  by_cases whole : ∃ region ∈ regions, region.offset = offset ∧
      region.data.getChunkLength = length
  · rw [if_pos whole]
    obtain ⟨found, found_member, found_whole⟩ := whole
    obtain ⟨region, front, back, _, is_whole, rfl, erased_eq⟩ := List.exists_of_eraseP found_member
      (p := fun region => decide (region.offset = offset ∧ region.data.getChunkLength = length))
      (decide_eq_true found_whole)
    obtain ⟨rfl, rfl⟩ := of_decide_eq_true is_whole
    obtain ⟨consistent_after, bits_eq⟩ := erased_region consistent
    rw [erased_eq]
    refine ⟨_, rfl, consistent_after, ?_, fun _ => bits_eq⟩
    intro i
    rw [bits_eq, held_erase]
    rfl
  · rw [if_neg whole]
    obtain ⟨aligned, proper⟩ := fits.resolve_left whole
    rw [if_neg (by omega)]
    have stop : Region.getEndOffset (⟨offset, .byteCount (length / 8) '?'.toUInt8⟩ : Region F) =
        offset + length := by
      show offset + 8 * (length / 8) = _
      omega
    obtain ⟨sliced, sliced_eq, slicing⟩ := sliceRegions_sliced sharing
      ⟨offset, .byteCount (length / 8) '?'.toUInt8⟩ regions consistent (by
        intro old member starts ends
        rw [stop] at ends ⊢
        by_contra empty
        simp only [Region.getStartOffset_mk] at starts empty
        exact proper (by omega) old member ⟨starts, by omega⟩)
    have held_iff := slicing.held_iff
    have bits_eq := slicing.bits_eq
    rw [stop] at held_iff bits_eq
    refine ⟨sliced, sliced_eq, slicing.consistent, held_iff, ?_⟩
    intro kept
    exact bits_eq (kept.resolve_left whole)

/-! ### Runs -/

inductive BufferCall (F : Type) where
  | replace (offset : Nat) (chunk : Chunk F)
  | clear (offset length : Nat)

namespace BufferCall

def apply (sharing : Sharing F) (regions : List (Region F)) :
    BufferCall F → Except ChunkError (List (Region F))
  | .replace offset chunk => ChunkBuffer.replace sharing regions offset chunk
  | .clear offset length => ChunkBuffer.clear sharing regions offset length

/-- What a call makes of a partial map. -/
def denote (map : Nat → Option Bool) : BufferCall F → Nat → Option Bool
  | .replace offset chunk => overwrite map offset chunk.bits
  | .clear offset length => erase map offset (offset + length)

/-- The checks of the arguments; a chunk is well-formed. -/
def IsValid : BufferCall F → Prop
  | .replace _ chunk => chunk.WellFormed ∧ 0 < chunk.getChunkLength
  | .clear _ _ => True

/-- The call loses no fill byte, and a cleared part fits the regions. -/
def Fits (sharing : Sharing F) (regions : List (Region F)) : BufferCall F → Prop
  | .replace offset chunk => ReplaceKeeps sharing regions offset chunk
  | .clear offset length =>
    ClearFits regions offset length ∧ ClearKeeps sharing regions offset length

end BufferCall

/-- The regions and the map that some calls lead to. Which chunks are shared may differ from
call to call. -/
inductive Reached (allowed : Sharing F → List (Region F) → BufferCall F → Prop) :
    List (Region F) → (Nat → Option Bool) → Prop
  | new : Reached allowed [] fun _ => none
  | call (sharing : Sharing F) (call : BufferCall F) {regions after : List (Region F)}
      {map : Nat → Option Bool} (reached : Reached allowed regions map) (valid : call.IsValid)
      (meets : allowed sharing regions call) (returned : call.apply sharing regions = .ok after) :
      Reached allowed after (call.denote map)

/-- A buffer stores what a map holds, in separate regions, and the next call returns. -/
structure Refines (allowed : Sharing F → List (Region F) → BufferCall F → Prop)
    (regions : List (Region F)) (map : Nat → Option Bool) : Prop where
  consistent : Consistent regions
  stores : ∀ i, stored regions i = map i
  returns : ∀ sharing call, call.IsValid → allowed sharing regions call →
    ∃ after, call.apply sharing regions = .ok after

/-- One call keeps the regions separate and stores what the map holds. -/
theorem BufferCall.apply_stores {sharing : Sharing F} {regions : List (Region F)}
    {map : Nat → Option Bool} (call : BufferCall F) (consistent : Consistent regions)
    (stores : ∀ i, stored regions i = map i) (valid : call.IsValid)
    (fits : call.Fits sharing regions) :
    ∃ after, call.apply sharing regions = .ok after ∧ Consistent after ∧
      ∀ i, stored after i = call.denote map i := by
  have same : stored regions = map := funext stores
  subst same
  cases call with
  | replace offset chunk =>
    obtain ⟨after, returned, consistent_after, _, bits_eq⟩ := replace_stores sharing regions offset
      chunk consistent valid.1 valid.2
    exact ⟨after, returned, consistent_after, bits_eq fits⟩
  | clear offset length =>
    obtain ⟨after, returned, consistent_after, _, bits_eq⟩ := clear_stores sharing regions offset
      length consistent fits.1
    exact ⟨after, returned, consistent_after, bits_eq fits.2⟩

/-- Every run of calls that fit refines the run on the partial map. -/
theorem reached_refines (regions : List (Region F)) (map : Nat → Option Bool)
    (reached : Reached BufferCall.Fits regions map) : Refines BufferCall.Fits regions map := by
  have sound : Consistent regions ∧ ∀ i, stored regions i = map i := by
    induction reached with
    | new => exact ⟨consistent_nil, fun _ => rfl⟩
    | @call sharing call regions after map _ valid meets returned ih =>
      obtain ⟨consistent, stores⟩ := ih
      obtain ⟨after', returned', facts⟩ := call.apply_stores consistent stores valid meets
      rw [returned] at returned'
      cases returned'
      exact facts
  refine ⟨sound.1, sound.2, ?_⟩
  intro sharing call valid fits
  obtain ⟨after, returned, _⟩ := call.apply_stores sound.1 sound.2 valid fits
  exact ⟨after, returned⟩

/-- A byte is written behind another one, and the first one is cleared. -/
theorem reached_refines_bytes :
    Refines (F := List Bool) BufferCall.Fits [⟨8, .bytes [2]⟩]
      ((BufferCall.clear 0 8 : BufferCall (List Bool)).denote
        ((BufferCall.replace 0 (.bytes [1, 2]) : BufferCall (List Bool)).denote fun _ => none)) := by
  apply reached_refines
  have written : Reached (F := List Bool) BufferCall.Fits [⟨0, .bytes [1, 2]⟩]
      ((BufferCall.replace 0 (.bytes [1, 2]) : BufferCall (List Bool)).denote fun _ => none) := by
    apply Reached.call (.never (List Bool)) (.replace 0 (.bytes [1, 2])) Reached.new
      ⟨Chunk.WellFormed.bytes _, by decide⟩ _ rfl
    refine ⟨by simp, ?_⟩
    rintro sliced ⟨⟩
    refine ⟨by simp [before], ?_⟩
    rintro merged region next _ _ found
    simp [behind] at found
  apply Reached.call (.never (List Bool)) (.clear 0 8) written trivial _ rfl
  refine ⟨.inr ⟨rfl, fun empty => by cases empty⟩, .inr ?_⟩
  simp only [List.mem_singleton, forall_eq]
  exact ⟨fun _ _ => trivial, fun _ _ => trivial⟩

/-- Clearing nothing inside of a region splits it into regions that connect. -/
theorem clear_nothing_splits :
    ¬ ∀ (regions : List (Region (List Bool))) (map : Nat → Option Bool),
      Reached (fun _ _ _ => True) regions map → Refines (fun _ _ _ => True) regions map := by
  intro refines
  have reached : Reached (F := List Bool) (fun _ _ _ => True) [⟨0, .bytes [1]⟩, ⟨8, .bytes [2]⟩]
      ((BufferCall.clear 8 0 : BufferCall (List Bool)).denote
        ((BufferCall.replace 0 (.bytes [1, 2]) : BufferCall (List Bool)).denote fun _ => none)) := by
    have written : Reached (F := List Bool) (fun _ _ _ => True) [⟨0, .bytes [1, 2]⟩]
        ((BufferCall.replace 0 (.bytes [1, 2]) : BufferCall (List Bool)).denote fun _ => none) :=
      Reached.call (.never (List Bool)) (.replace 0 (.bytes [1, 2])) Reached.new
        ⟨Chunk.WellFormed.bytes _, by decide⟩ trivial rfl
    exact Reached.call (.never (List Bool)) (.clear 8 0) written trivial trivial rfl
  have separated := (refines _ _ reached).consistent.separated
  have connecting := (List.pairwise_cons.mp separated).1 ⟨8, .bytes [2]⟩ (by simp)
  revert connecting
  decide

end ChunkBuffer
end Inet.Packet
