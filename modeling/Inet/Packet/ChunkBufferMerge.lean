import Inet.Packet.ChunkBuffer

/-!
# Merging the regions of a chunk buffer

Regions that meet become one region, which stores the same bits unless merging the data loses
fill bytes.
-/
namespace Inet.Packet

open Lib

variable {F : Type} [Fields F]
variable (sharing : Sharing F)

namespace ChunkBuffer

/-- Merging two regions loses no fill byte. -/
def MergeKeeps (sharing : Sharing F) (previousRegion nextRegion : Region F) : Prop :=
  previousRegion.getEndOffset = nextRegion.getStartOffset →
    if Chunk.canInsertAt sharing .back previousRegion.data nextRegion.data then
      Chunk.InsertKeeps sharing .back previousRegion.data nextRegion.data
    else if Chunk.canInsertAt sharing .front nextRegion.data previousRegion.data then
      Chunk.InsertKeeps sharing .front nextRegion.data previousRegion.data
    else
      Chunk.InsertKeeps sharing .back (.sequence []) previousRegion.data ∧
        ∀ sequenceChunk, Chunk.insertAt sharing .back (.sequence []) previousRegion.data =
          .ok sequenceChunk → Chunk.InsertKeeps sharing .back sequenceChunk nextRegion.data

/-- What two regions are merged into. -/
structure Merged (previousRegion nextRegion : Region F) (merged : List (Region F))
    (kept : Prop) : Prop where
  consistent : Consistent merged
  starts : ∀ region ∈ merged, previousRegion.getStartOffset ≤ region.getStartOffset
  ends : ∃ front region, merged = front ++ [region] ∧
    region.getEndOffset = nextRegion.getEndOffset
  held_iff : ∀ i, (stored merged i).isSome ↔ (stored [previousRegion, nextRegion] i).isSome
  bits_eq : kept → ∀ i, stored merged i = stored [previousRegion, nextRegion] i

/-- One region with the data of two that meet. -/
theorem merged_single {previousRegion nextRegion : Region F} (data : Chunk F) (kept : Prop)
    (wf_previous : previousRegion.data.WellFormed) (wf_next : nextRegion.data.WellFormed)
    (positive : 0 < nextRegion.data.getChunkLength)
    (meets : previousRegion.getEndOffset = nextRegion.getStartOffset)
    (wf : data.WellFormed) (length_eq : data.getChunkLength =
      previousRegion.data.getChunkLength + nextRegion.data.getChunkLength)
    (bits_eq : kept → data.bits = previousRegion.data.bits ++ nextRegion.data.bits) :
    Merged previousRegion nextRegion [⟨previousRegion.offset, data⟩] kept := by
  have stop : Region.getEndOffset ⟨previousRegion.offset, data⟩ = nextRegion.getEndOffset := by
    simp only [Region.getEndOffset, Region.getStartOffset] at *
    omega
  have longer : 0 < data.getChunkLength := by omega
  constructor
  case consistent => exact consistent_singleton wf longer
  case starts =>
    intro region member
    rw [List.mem_singleton.mp member]
    exact Nat.le_refl _
  case ends => exact ⟨[], _, rfl, stop⟩
  case held_iff =>
    intro i
    rw [stored_isSome_iff (by simpa using wf),
      stored_isSome_iff (by simpa using ⟨wf_previous, wf_next⟩)]
    simp only [List.mem_cons, List.not_mem_nil, or_false, exists_eq_or_imp, exists_eq_left, stop,
      ← meets]
    simp only [Region.getEndOffset, Region.getStartOffset] at *
    omega
  case bits_eq =>
    intro holds i
    rw [stored_singleton, stored_cons, stored_singleton]
    have appended := Piece.get_append previousRegion.offset previousRegion.data.bits
      nextRegion.data.bits i
    rw [wf_previous.length_bits] at appended
    simp only [bits_eq holds, appended]
    rw [show previousRegion.offset + previousRegion.data.getChunkLength = nextRegion.offset
      from meets]

theorem mergeRegions_merged {previousRegion nextRegion : Region F}
    (wf_previous : previousRegion.data.WellFormed) (wf_next : nextRegion.data.WellFormed)
    (positive_previous : 0 < previousRegion.data.getChunkLength)
    (positive_next : 0 < nextRegion.data.getChunkLength)
    (before : previousRegion.getEndOffset ≤ nextRegion.getStartOffset) :
    ∃ merged, mergeRegions sharing previousRegion nextRegion = .ok merged ∧
      Merged previousRegion nextRegion merged (MergeKeeps sharing previousRegion nextRegion) := by
  unfold mergeRegions
  by_cases meets : previousRegion.getEndOffset = nextRegion.getStartOffset
  · rw [if_pos meets]
    have single (data : Chunk F) := merged_single data
      (MergeKeeps sharing previousRegion nextRegion) wf_previous wf_next positive_next meets
    by_cases back : Chunk.canInsertAt sharing .back previousRegion.data nextRegion.data = true
    · rw [if_pos back]
      obtain ⟨data, inserted, facts⟩ := Chunk.insertAt_inserted sharing .back previousRegion.data
        nextRegion.data wf_previous wf_next positive_next back
      rw [inserted, ok_bind]
      refine ⟨_, rfl, single _ facts.wf.simplify ?_ ?_⟩
      · rw [Chunk.getChunkLength_simplify, facts.length_eq]
      · intro kept
        have holds := kept meets
        rw [if_pos back] at holds
        rw [Chunk.bits_simplify facts.wf, facts.bits_eq holds]
        rfl
    rw [if_neg back]
    by_cases front : Chunk.canInsertAt sharing .front nextRegion.data previousRegion.data = true
    · rw [if_pos front]
      obtain ⟨data, inserted, facts⟩ := Chunk.insertAt_inserted sharing .front nextRegion.data
        previousRegion.data wf_next wf_previous positive_previous front
      rw [inserted, ok_bind]
      refine ⟨_, rfl, single _ facts.wf.simplify ?_ ?_⟩
      · rw [Chunk.getChunkLength_simplify, facts.length_eq, Nat.add_comm]
      · intro kept
        have holds := kept meets
        rw [if_neg back, if_pos front] at holds
        rw [Chunk.bits_simplify facts.wf, facts.bits_eq holds]
        rfl
    · rw [if_neg front]
      -- an empty sequence takes both, one after the other
      have wf_nil : Chunk.WellFormed (.sequence ([] : List (Chunk F))) :=
        .sequence (by simp) (by simp)
      obtain ⟨first, first_eq, first_facts⟩ := Chunk.insertAt_inserted sharing .back (.sequence [])
        previousRegion.data wf_nil wf_previous positive_previous rfl
      obtain ⟨elements, rfl⟩ : ∃ elements, first = .sequence elements := by
        obtain ⟨bound, size_eq⟩ := Nat.exists_eq_succ_of_ne_zero (Nat.ne_of_gt
          (Nat.add_pos_left (Chunk.size_pos (.sequence [])) previousRegion.data.size))
        unfold Chunk.insertAt at first_eq
        rw [size_eq] at first_eq
        obtain ⟨elements, _, ⟨⟩⟩ := bind_eq_ok.mp first_eq
        exact ⟨elements, rfl⟩
      obtain ⟨both, both_eq, both_facts⟩ := Chunk.insertAt_inserted sharing .back
        (.sequence elements) nextRegion.data first_facts.wf wf_next positive_next rfl
      rw [first_eq, ok_bind, both_eq, ok_bind]
      refine ⟨_, rfl, single _ both_facts.wf ?_ ?_⟩
      · rw [both_facts.length_eq, first_facts.length_eq, Chunk.getChunkLength, Chunk.lengthOfAll,
          Nat.zero_add]
      · intro kept
        have holds := kept meets
        rw [if_neg back, if_neg front] at holds
        rw [both_facts.bits_eq (holds.2 _ first_eq), first_facts.bits_eq holds.1]
        rfl
  · rw [if_neg meets]
    refine ⟨_, rfl, ?_, ?_, ⟨[previousRegion], nextRegion, rfl, rfl⟩, fun i => Iff.rfl,
      fun _ i => rfl⟩
    · apply consistent_cons wf_previous positive_previous
      · simpa using Nat.lt_of_le_of_ne before meets
      · exact consistent_singleton wf_next positive_next
    · have started : previousRegion.getStartOffset ≤ nextRegion.getStartOffset :=
        Nat.le_trans (Nat.le_add_right _ _) before
      simpa using started

/-! ### At the sides of a new region -/

theorem stored_congr {front back front' back' : List (Region F)} {i : Nat}
    (same_front : stored front i = stored front' i) (same_back : stored back i = stored back' i) :
    stored (front ++ back) i = stored (front' ++ back') i := by
  rw [stored_append, stored_append, same_front, same_back]

theorem held_congr {front back front' back' : List (Region F)} {i : Nat}
    (same_front : (stored front i).isSome ↔ (stored front' i).isSome)
    (same_back : (stored back i).isSome ↔ (stored back' i).isSome) :
    (stored (front ++ back) i).isSome ↔ (stored (front' ++ back') i).isSome := by
  rw [stored_append, stored_append, Option.isSome_or, Option.isSome_or, Bool.or_eq_true,
    Bool.or_eq_true, same_front, same_back]

/-- Merging a new region with the last one before it. -/
theorem mergeBehind_merged (regions : List (Region F))
    (newRegion : Region F) (consistent : Consistent regions) (wf : newRegion.data.WellFormed)
    (positive : 0 < newRegion.data.getChunkLength)
    (before : ∀ region ∈ regions, region.getEndOffset ≤ newRegion.getStartOffset) :
    ∃ merged, mergeBehind sharing regions newRegion = .ok merged ∧ Consistent merged ∧
      (∃ front region, merged = front ++ [region] ∧
        region.getEndOffset = newRegion.getEndOffset) ∧
      (∀ i, (stored merged i).isSome ↔ (stored (regions ++ [newRegion]) i).isSome) ∧
      ((∀ previous, regions.getLast? = some previous → MergeKeeps sharing previous newRegion) →
        ∀ i, stored merged i = stored (regions ++ [newRegion]) i) := by
  unfold mergeBehind
  rcases List.eq_nil_or_concat' regions with rfl | ⟨others, previous, rfl⟩
  · refine ⟨[newRegion], rfl, consistent_singleton wf positive, ⟨[], newRegion, rfl, rfl⟩, ?_, ?_⟩
    · exact fun i => Iff.rfl
    · exact fun _ i => rfl
  · obtain ⟨consistent_others, consistent_previous, apart⟩ := Consistent.append_iff.mp consistent
    have meets := before previous (by simp)
    obtain ⟨merged, merged_eq, facts⟩ := mergeRegions_merged sharing
      (consistent_previous.wf previous (by simp)) wf (consistent_previous.nonempty previous (by simp))
      positive meets
    obtain ⟨front, region, rfl, ends⟩ := facts.ends
    simp only [List.getLast?_concat, List.dropLast_concat, merged_eq, ok_bind]
    refine ⟨_, rfl, ?_, ⟨others ++ front, region, (List.append_assoc _ _ _).symm, ends⟩, ?_, ?_⟩
    · apply consistent_append consistent_others facts.consistent
      intro other other_member next next_member
      have := apart other other_member previous (by simp)
      have := facts.starts next next_member
      omega
    · intro i
      rw [List.append_assoc]
      exact held_congr Iff.rfl (facts.held_iff i)
    · intro kept i
      rw [List.append_assoc]
      exact stored_congr rfl (facts.bits_eq (kept previous rfl) i)

/-- Merging the last of some regions with the first one behind them. -/
theorem mergeBefore_merged (front : List (Region F)) (region : Region F)
    (regions : List (Region F)) (consistent : Consistent (front ++ [region]))
    (consistent_regions : Consistent regions)
    (before : ∀ next ∈ regions, region.getEndOffset ≤ next.getStartOffset) :
    ∃ merged, mergeBefore sharing (front ++ [region]) regions = .ok merged ∧ Consistent merged ∧
      (∀ i, (stored merged i).isSome ↔ (stored (front ++ [region] ++ regions) i).isSome) ∧
      ((∀ next, regions.head? = some next → MergeKeeps sharing region next) →
        ∀ i, stored merged i = stored (front ++ [region] ++ regions) i) := by
  unfold mergeBefore
  obtain ⟨consistent_front, consistent_region, apart⟩ := Consistent.append_iff.mp consistent
  cases regions with
  | nil =>
    refine ⟨front ++ [region], ?_, consistent, ?_, ?_⟩
    · simp
    · exact fun i => by rw [List.append_nil]
    · exact fun _ i => by rw [List.append_nil]
  | cons next rest =>
    obtain ⟨merged, merged_eq, facts⟩ := mergeRegions_merged sharing
      (consistent_region.wf region (by simp)) (consistent_regions.wf next (by simp))
      (consistent_region.nonempty region (by simp)) (consistent_regions.nonempty next (by simp))
      (before next (by simp))
    simp only [List.getLast?_concat, List.head?_cons, List.dropLast_concat, List.tail_cons, merged_eq,
      ok_bind]
    refine ⟨_, rfl, ?_, ?_, ?_⟩
    · apply consistent_append
      · apply consistent_append consistent_front facts.consistent
        intro other other_member later later_member
        have := apart other other_member region (by simp)
        have := facts.starts later later_member
        omega
      · exact consistent_regions.tail
      · -- every region before the rest ends where the first region behind ends, at most
        intro other other_member later later_member
        have behind := (List.pairwise_cons.mp consistent_regions.separated).1 later later_member
        have ends : other.getEndOffset ≤ next.getEndOffset := by
          rcases List.mem_append.mp other_member with member | member
          · have := apart other member region (by simp)
            have := before next (by simp)
            have : region.getStartOffset ≤ region.getEndOffset := Nat.le_add_right _ _
            have : next.getStartOffset ≤ next.getEndOffset := Nat.le_add_right _ _
            omega
          · obtain ⟨inner, last, rfl, last_ends⟩ := facts.ends
            obtain ⟨_, _, inner_before⟩ := Consistent.append_iff.mp facts.consistent
            rcases List.mem_append.mp member with member | member
            · have := inner_before other member last (by simp)
              have : last.getStartOffset ≤ last.getEndOffset := Nat.le_add_right _ _
              omega
            · rw [List.mem_singleton.mp member]
              exact Nat.le_of_eq last_ends
        omega
    · intro i
      have same : front ++ [region] ++ next :: rest = front ++ [region, next] ++ rest := by simp
      rw [same]
      exact held_congr (held_congr Iff.rfl (facts.held_iff i)) Iff.rfl
    · intro kept i
      have same : front ++ [region] ++ next :: rest = front ++ [region, next] ++ rest := by simp
      rw [same]
      exact stored_congr (stored_congr rfl (facts.bits_eq (kept next rfl) i)) rfl

end ChunkBuffer
end Inet.Packet
