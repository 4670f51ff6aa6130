import Mathlib.Data.List.ProdSigma
import Mathlib.Data.Fintype.EquivFin
import Mathlib.Data.List.Perm.Subperm
import Mathlib.Tactic.Ring
import Inet.Common.BitVector

/-!
# OFDM interleaver

Bits of each symbol are permuted twice. Deinterleaving goes the other way when the second permutation
stays inside the rows of the first one.
-/
namespace Inet.BitLevel

def NUMBER_OF_OFDM_DATA_SUBCARRIERS : Nat := 48

structure Ieee80211OfdmInterleaving where
  numberOfCodedBitsPerSymbol : Nat
  numberOfCodedBitsPerSubcarrier : Nat
  deriving DecidableEq

namespace Ieee80211OfdmInterleaving

variable (interleaving : Ieee80211OfdmInterleaving)

def s : Nat := max (interleaving.numberOfCodedBitsPerSubcarrier / 2) 1

/-- The first permutation is by rows of a sixteenth of the symbol, the second one rotates groups of
bits. -/
def interleavedIndex (j : Nat) : Nat :=
  let firstPerm := interleaving.numberOfCodedBitsPerSymbol / 16 * (j % 16) + j / 16
  interleaving.s * (firstPerm / interleaving.s) +
    (firstPerm + interleaving.numberOfCodedBitsPerSymbol -
      16 * firstPerm / interleaving.numberOfCodedBitsPerSymbol) % interleaving.s

def deinterleavedIndex (j : Nat) : Nat :=
  let firstPerm := interleaving.s * (j / interleaving.s) +
    (j + 16 * j / interleaving.numberOfCodedBitsPerSymbol) % interleaving.s
  16 * firstPerm - (interleaving.numberOfCodedBitsPerSymbol - 1) *
    (16 * firstPerm / interleaving.numberOfCodedBitsPerSymbol)

/-- Moves the bits of each symbol. -/
def permute (index : Nat → Nat) (bits : BitVector) : BitVector :=
  let numberOfSymbols := bits.length / interleaving.numberOfCodedBitsPerSymbol
  ((List.range numberOfSymbols) ×ˢ
    (List.range interleaving.numberOfCodedBitsPerSymbol)).foldl (fun permuted item =>
      permuted.setBit (index item.2 + item.1 * interleaving.numberOfCodedBitsPerSymbol)
        (bits.getD (item.1 * interleaving.numberOfCodedBitsPerSymbol + item.2) false)) []

def interleave (deinterleavedBits : BitVector) : Except String BitVector :=
  if deinterleavedBits.length % interleaving.numberOfCodedBitsPerSymbol ≠ 0 then
    .error (s!"deinterleavedBits length = {deinterleavedBits.length} must be a multiple of " ++
      s!"numberOfCodedBitsPerSymbol = {interleaving.numberOfCodedBitsPerSymbol}")
  else .ok (interleaving.permute interleaving.interleavedIndex deinterleavedBits)

def deinterleave (interleavedBits : BitVector) : Except String BitVector :=
  if interleavedBits.length % interleaving.numberOfCodedBitsPerSymbol ≠ 0 then
    .error ("interleavedBits length must be a multiple of " ++
      s!"numberOfCodedBitsPerSymbol = {interleaving.numberOfCodedBitsPerSymbol}")
  else .ok (interleaving.permute interleaving.deinterleavedIndex interleavedBits)

/-! ### Indices -/

/-- Groups of the second permutation do not cross rows of the first one. -/
structure Aligned : Prop where
  rows : ∃ groups, 0 < groups ∧
    interleaving.numberOfCodedBitsPerSymbol = 16 * (interleaving.s * groups)

variable {interleaving}

theorem s_pos : 0 < interleaving.s := by
  unfold s
  omega

/-- The row and the group of an index. -/
theorem interleaved_row {groups : Nat} (some' : 0 < groups)
    (size : interleaving.numberOfCodedBitsPerSymbol = 16 * (interleaving.s * groups))
    {row group place : Nat} (inside : group < groups) (first : row < 16)
    (small : place < interleaving.s) :
    16 * (interleaving.s * (groups * row + group) + place) /
        interleaving.numberOfCodedBitsPerSymbol = row ∧
      interleaving.s * (groups * row + group) + place < interleaving.numberOfCodedBitsPerSymbol := by
  have less : interleaving.s * group + place < interleaving.s * groups :=
    calc interleaving.s * group + place < interleaving.s * group + interleaving.s := by omega
      _ = interleaving.s * (group + 1) := by rw [Nat.mul_succ]
      _ ≤ interleaving.s * groups := Nat.mul_le_mul_left _ inside
  have split : interleaving.s * (groups * row + group) + place =
      interleaving.s * groups * row + (interleaving.s * group + place) := by
    rw [Nat.mul_add, ← Nat.mul_assoc, Nat.add_assoc]
  have positive : 0 < interleaving.s * groups := Nat.mul_pos s_pos some'
  constructor
  · rw [size, Nat.mul_div_mul_left _ _ (by decide), split, Nat.mul_add_div positive,
      Nat.div_eq_of_lt less, Nat.add_zero]
  · have rows : interleaving.s * groups * row + interleaving.s * groups ≤
        interleaving.s * groups * 16 := by
      rw [← Nat.mul_succ]
      exact Nat.mul_le_mul_left _ first
    omega

theorem Aligned.index (aligned : interleaving.Aligned) {j : Nat}
    (inside : j < interleaving.numberOfCodedBitsPerSymbol) :
    interleaving.interleavedIndex j < interleaving.numberOfCodedBitsPerSymbol ∧
      interleaving.deinterleavedIndex (interleaving.interleavedIndex j) = j := by
  obtain ⟨groups, some', size⟩ := aligned.rows
  have positive : 0 < interleaving.s := s_pos
  generalize row_eq : j % 16 = row
  generalize rest_eq : j / 16 = rest
  have row_lt : row < 16 := row_eq ▸ Nat.mod_lt _ (by decide)
  have rest_lt : rest < interleaving.s * groups := by omega
  generalize group_eq : rest / interleaving.s = group
  generalize place_eq : rest % interleaving.s = place
  have group_lt : group < groups := by
    rw [← group_eq]
    exact Nat.div_lt_of_lt_mul rest_lt
  have place_lt : place < interleaving.s := place_eq ▸ Nat.mod_lt _ positive
  have whole : rest = interleaving.s * group + place := by
    rw [← group_eq, ← place_eq]
    exact (Nat.div_add_mod rest interleaving.s).symm
  -- The first permutation puts the row first, and the second one rotates the place in the group.
  have first : interleaving.numberOfCodedBitsPerSymbol / 16 * row + rest =
      interleaving.s * (groups * row + group) + place := by
    rw [size, Nat.mul_div_cancel_left _ (by decide), whole, Nat.mul_add, ← Nat.mul_assoc,
      Nat.add_assoc]
  generalize rotated_eq : (interleaving.s * (groups * row + group) + place +
    interleaving.numberOfCodedBitsPerSymbol - row) % interleaving.s = rotated
  have rotated_lt : rotated < interleaving.s := rotated_eq ▸ Nat.mod_lt _ positive
  obtain ⟨row_of, _⟩ := interleaved_row some' size group_lt row_lt place_lt
  obtain ⟨row_of', less⟩ := interleaved_row some' size group_lt row_lt rotated_lt
  have index : interleaving.interleavedIndex j =
      interleaving.s * (groups * row + group) + rotated := by
    unfold interleavedIndex
    dsimp only
    rw [row_eq, rest_eq, first, row_of, Nat.mul_add_div positive, Nat.div_eq_of_lt place_lt,
      Nat.add_zero, rotated_eq]
  refine ⟨index ▸ less, ?_⟩
  have back : (interleaving.s * (groups * row + group) + rotated + row) % interleaving.s =
      place := by
    have more : row ≤ interleaving.numberOfCodedBitsPerSymbol := by
      have : 0 < interleaving.s * groups := Nat.mul_pos positive some'
      omega
    rw [Nat.add_assoc, Nat.mul_add_mod, ← rotated_eq, Nat.mod_add_mod,
      Nat.sub_add_cancel (by omega), Nat.add_assoc, Nat.mul_add_mod, size, ← Nat.mul_assoc,
      Nat.mul_comm 16, Nat.mul_assoc, Nat.add_mul_mod_self_left, Nat.mod_eq_of_lt place_lt]
  unfold deinterleavedIndex
  dsimp only
  rw [index, row_of', back, Nat.mul_add_div positive, Nat.div_eq_of_lt rotated_lt, Nat.add_zero,
    row_of, Nat.sub_one_mul, Nat.mul_add, ← Nat.mul_assoc, Nat.mul_add]
  have scaled : 16 * interleaving.s * (groups * row) =
      interleaving.numberOfCodedBitsPerSymbol * row := by
    rw [size]
    ring
  have rest' : 16 * (interleaving.s * group) = 16 * interleaving.s * group :=
    (Nat.mul_assoc _ _ _).symm
  have below : row ≤ interleaving.numberOfCodedBitsPerSymbol * row :=
    Nat.le_mul_of_pos_left _ (by omega)
  omega

/-- Each index is that of some bit. -/
theorem Aligned.surjective (aligned : interleaving.Aligned) {p : Nat}
    (inside : p < interleaving.numberOfCodedBitsPerSymbol) :
    ∃ j < interleaving.numberOfCodedBitsPerSymbol, interleaving.interleavedIndex j = p := by
  have injective : Function.Injective
      fun j : Fin interleaving.numberOfCodedBitsPerSymbol =>
        (⟨interleaving.interleavedIndex j, (aligned.index j.2).1⟩ :
          Fin interleaving.numberOfCodedBitsPerSymbol) := by
    intro i j same
    have indices := congrArg interleaving.deinterleavedIndex (Fin.mk.inj same)
    rw [(aligned.index i.2).2, (aligned.index j.2).2] at indices
    exact Fin.ext indices
  obtain ⟨j, found⟩ := Finite.injective_iff_surjective.mp injective ⟨p, inside⟩
  exact ⟨j, j.2, congrArg Fin.val found⟩

/-! ### Symbols -/

theorem mod_add_mul (symbol : Nat) {size index : Nat} (inside : index < size) :
    (index + symbol * size) % size = index ∧ (index + symbol * size) / size = symbol := by
  constructor
  · rw [Nat.add_mul_mod_self_right, Nat.mod_eq_of_lt inside]
  · rw [Nat.add_mul_div_right _ _ (by omega), Nat.div_eq_of_lt inside, Nat.zero_add]

/-- Bits are moved inside their symbols. -/
theorem permute_spec {index : Nat → Nat}
    (maps : ∀ j < interleaving.numberOfCodedBitsPerSymbol,
      index j < interleaving.numberOfCodedBitsPerSymbol)
    (injective : ∀ i < interleaving.numberOfCodedBitsPerSymbol,
      ∀ j < interleaving.numberOfCodedBitsPerSymbol, index i = index j → i = j) {bits : BitVector}
    (multiple : bits.length % interleaving.numberOfCodedBitsPerSymbol = 0)
    (positive : 0 < interleaving.numberOfCodedBitsPerSymbol) :
    (interleaving.permute index bits).length = bits.length ∧
      ∀ i < bits.length, (interleaving.permute index bits)[
        index (i % interleaving.numberOfCodedBitsPerSymbol) +
          i / interleaving.numberOfCodedBitsPerSymbol *
            interleaving.numberOfCodedBitsPerSymbol]? = bits[i]? := by
  generalize size_eq : interleaving.numberOfCodedBitsPerSymbol = size at *
  have whole : bits.length / size * size = bits.length :=
    Nat.div_mul_cancel (Nat.dvd_of_mod_eq_zero multiple)
  generalize items_eq : (List.range (bits.length / size)) ×ˢ (List.range size) = items
  have member : ∀ item, item ∈ items ↔ item.1 < bits.length / size ∧ item.2 < size := by
    rintro ⟨symbol, j⟩
    rw [← items_eq]
    exact List.pair_mem_product.trans (and_congr List.mem_range List.mem_range)
  have different : items.Pairwise fun a b => index a.2 + a.1 * size ≠ index b.2 + b.1 * size := by
    have nodup : items.Nodup := items_eq ▸ List.nodup_range.product List.nodup_range
    refine nodup.imp_of_mem fun {a b} first second distinct same => distinct ?_
    have left := mod_add_mul a.1 (maps _ ((member a).mp first).2)
    have right := mod_add_mul b.1 (maps _ ((member b).mp second).2)
    rw [same] at left
    exact Prod.ext (left.2.symm.trans right.2) (injective _ ((member a).mp first).2 _
      ((member b).mp second).2 (left.1.symm.trans right.1))
  have permuted : interleaving.permute index bits = items.foldl (fun permuted item =>
      BitVector.setBit permuted (index item.2 + item.1 * size)
        (bits.getD (item.1 * size + item.2) false)) [] := by
    rw [permute, size_eq, items_eq]
  have found : ∀ item ∈ items,
      (interleaving.permute index bits)[index item.2 + item.1 * size]? =
        some (bits.getD (item.1 * size + item.2) false) := by
    rw [permuted]
    exact BitVector.getElem?_foldl_setBit [] different
  have most : (interleaving.permute index bits).length ≤ bits.length := by
    rw [permuted]
    refine BitVector.length_foldl_setBit items [] (Nat.zero_le _) fun item inside => ?_
    obtain ⟨symbol, place⟩ := (member item).mp inside
    have rows := Nat.mul_le_mul_right size symbol
    rw [Nat.succ_mul, whole] at rows
    have := maps _ place
    omega
  have least : bits.length ≤ (interleaving.permute index bits).length := by
    have nodup : (items.map fun item => index item.2 + item.1 * size).Nodup :=
      List.pairwise_map.mpr different
    have subset : items.map (fun item => index item.2 + item.1 * size) ⊆
        List.range (interleaving.permute index bits).length := by
      intro position image
      obtain ⟨item, inside, rfl⟩ := List.mem_map.mp image
      exact List.mem_range.mpr (List.getElem?_eq_some_iff.mp (found item inside)).1
    have le := (nodup.subperm subset).length_le
    rw [List.length_map, ← items_eq, List.length_product, List.length_range, List.length_range,
      List.length_range, whole] at le
    exact le
  refine ⟨most.antisymm least, fun i inside => ?_⟩
  have place := Nat.mod_lt i positive
  have symbol : i / size < bits.length / size := by
    rw [Nat.div_lt_iff_lt_mul positive, whole]
    exact inside
  have here := found (i / size, i % size) ((member _).mpr ⟨symbol, place⟩)
  rw [here]
  dsimp only
  rw [Nat.mul_comm, Nat.div_add_mod, List.getD_eq_getElem?_getD, List.getElem?_eq_getElem inside]
  rfl

/-- Bits that are moved to the places of a permutation are moved back by its inverse. -/
theorem Aligned.deinterleave_interleave (aligned : interleaving.Aligned) {bits : BitVector}
    (multiple : bits.length % interleaving.numberOfCodedBitsPerSymbol = 0) :
    ∃ interleaved, interleaving.interleave bits = .ok interleaved ∧
      interleaving.deinterleave interleaved = .ok bits := by
  have positive : 0 < interleaving.numberOfCodedBitsPerSymbol := by
    obtain ⟨groups, some', size⟩ := aligned.rows
    have : 0 < interleaving.s * groups := Nat.mul_pos s_pos some'
    omega
  have injective : ∀ i < interleaving.numberOfCodedBitsPerSymbol,
      ∀ j < interleaving.numberOfCodedBitsPerSymbol,
        interleaving.interleavedIndex i = interleaving.interleavedIndex j → i = j := by
    intro i inside j inside' same
    rw [← (aligned.index inside).2, same, (aligned.index inside').2]
  obtain ⟨length, moved⟩ :=
    permute_spec (fun j inside => (aligned.index inside).1) injective multiple positive
  generalize interleaved_eq : interleaving.permute interleaving.interleavedIndex bits =
    interleaved at length moved
  have multiple' : interleaved.length % interleaving.numberOfCodedBitsPerSymbol = 0 :=
    length ▸ multiple
  have maps' : ∀ p < interleaving.numberOfCodedBitsPerSymbol,
      interleaving.deinterleavedIndex p < interleaving.numberOfCodedBitsPerSymbol := by
    intro p inside
    obtain ⟨j, inside', rfl⟩ := aligned.surjective inside
    rwa [(aligned.index inside').2]
  have injective' : ∀ p < interleaving.numberOfCodedBitsPerSymbol,
      ∀ q < interleaving.numberOfCodedBitsPerSymbol,
        interleaving.deinterleavedIndex p = interleaving.deinterleavedIndex q → p = q := by
    intro p inside q inside' same
    obtain ⟨i, small, rfl⟩ := aligned.surjective inside
    obtain ⟨j, small', rfl⟩ := aligned.surjective inside'
    rw [(aligned.index small).2, (aligned.index small').2] at same
    rw [same]
  obtain ⟨length', moved'⟩ := permute_spec maps' injective' multiple' positive
  refine ⟨interleaved, ?_, ?_⟩
  · rw [interleave, if_neg (fun other => other multiple), interleaved_eq]
  · rw [deinterleave, if_neg (fun other => other multiple')]
    congr 1
    refine List.ext_getElem? fun i => ?_
    by_cases inside : i < bits.length
    · have place := Nat.mod_lt i positive
      obtain ⟨small, back⟩ := aligned.index place
      obtain ⟨mod, div⟩ := mod_add_mul (i / interleaving.numberOfCodedBitsPerSymbol) small
      have within : interleaving.interleavedIndex (i % interleaving.numberOfCodedBitsPerSymbol) +
          i / interleaving.numberOfCodedBitsPerSymbol *
            interleaving.numberOfCodedBitsPerSymbol < interleaved.length := by
        by_contra outside
        have missing := moved i inside
        rw [List.getElem?_eq_none (not_lt.mp outside), List.getElem?_eq_getElem inside] at missing
        cases missing
      have returned := moved' _ within
      rw [mod, div, back, Nat.mul_comm, Nat.mod_add_div, Nat.mul_comm, moved i inside] at returned
      exact returned
    · rw [List.getElem?_eq_none (by omega), List.getElem?_eq_none (by omega)]

/-! ### Supported interleavings -/

/-- A symbol of one bit, or of as many bits for one axis as for the other. -/
theorem aligned_of_subcarrier {numberOfCodedBitsPerSubcarrier : Nat}
    (symbol : numberOfCodedBitsPerSubcarrier = 1 ∨
      ∃ bits, 0 < bits ∧ numberOfCodedBitsPerSubcarrier = 2 * bits) :
    Aligned ⟨numberOfCodedBitsPerSubcarrier * NUMBER_OF_OFDM_DATA_SUBCARRIERS,
      numberOfCodedBitsPerSubcarrier⟩ := by
  rcases symbol with rfl | ⟨bits, positive, rfl⟩
  · exact ⟨3, by decide, by decide⟩
  · refine ⟨6, by decide, ?_⟩
    have group : s ⟨2 * bits * NUMBER_OF_OFDM_DATA_SUBCARRIERS, 2 * bits⟩ = bits := by
      unfold s
      dsimp only
      omega
    rw [group]
    change 2 * bits * 48 = _
    omega

end Ieee80211OfdmInterleaving

end Inet.BitLevel
