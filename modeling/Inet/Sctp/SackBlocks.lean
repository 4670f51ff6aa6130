import Inet.Sctp.GapListKinds
import Inet.Sctp.SackChunk

/-!
# The blocks of a SACK chunk

What the loops copy from a gap list is a first part of its blocks, and what a receiver reads from
the chunk are the TSNs of the chunks in these blocks. Rounded shares of the blocks that are removed
add up to enough.
-/
namespace Inet.Sctp.Sack

open Lib SpanList Double

variable {b : Nat}

/-! ### Shares -/

/-- The ceiling of a number that is close to a share is at least the share. It is not greater than the
whole if not all is removed. -/
theorem ceil_share {k m : Nat} {p : ℚ} (few : m ≤ 1000) (less : b < m)
    (close : |p - b * k / m| ≤ 1 / 2 ^ 20) : b * k ≤ ⌈p⌉.toNat * m ∧ (0 < k → ⌈p⌉.toNat ≤ k) := by
  have positive : (0 : ℚ) < m := by exact_mod_cast Nat.lt_of_le_of_lt (Nat.zero_le b) less
  have few : (m : ℚ) ≤ 1000 := by exact_mod_cast few
  obtain ⟨below, above⟩ := abs_le.mp close
  have low := Int.le_ceil p
  have high := Int.ceil_lt_add_one p
  have exact_ : (b * k / m : ℚ) * m = b * k := by field_simp
  constructor
  · have scaled : ((b * k : ℕ) : ℚ) - 1 < ((⌈p⌉ * m : ℤ) : ℚ) := by
      push_cast
      have : ((b * k / m : ℚ) - 1 / 2 ^ 20) * m ≤ ⌈p⌉ * m :=
        mul_le_mul_of_nonneg_right (by linarith) positive.le
      rw [sub_mul, exact_] at this
      have : (1 / 2 ^ 20 : ℚ) * m < 1 := by linarith
      linarith
    have scaled : ((b * k : ℕ) : ℤ) - 1 < ⌈p⌉ * m := by exact_mod_cast scaled
    have nonneg : 0 ≤ ⌈p⌉ := by
      by_contra negative
      have : ⌈p⌉ * (m : ℤ) ≤ -1 * (m : ℤ) :=
        mul_le_mul_of_nonneg_right (by omega) (Int.natCast_nonneg m)
      have : (0 : ℤ) ≤ ((b * k : ℕ) : ℤ) := Int.natCast_nonneg _
      have : (1 : ℤ) ≤ m := by exact_mod_cast Nat.lt_of_le_of_lt (Nat.zero_le b) less
      omega
    zify
    rw [Int.toNat_of_nonneg nonneg]
    push_cast at scaled
    omega
  · intro some
    have some : (1 : ℚ) ≤ k := by exact_mod_cast some
    have fewer : (b : ℚ) ≤ m - 1 := by
      have : ((b + 1 : ℕ) : ℚ) ≤ m := by exact_mod_cast less
      push_cast at this
      linarith
    have bounded : (⌈p⌉ : ℚ) * m < (k + 1) * m := by
      have : (⌈p⌉ : ℚ) * m < (b * k / m + 1 / 2 ^ 20 + 1) * m :=
        mul_lt_mul_of_pos_right (by linarith) positive
      rw [add_mul, add_mul, exact_] at this
      have : (b : ℚ) * k ≤ (m - 1) * k := mul_le_mul_of_nonneg_right fewer (by linarith)
      have : (1 / 2 ^ 20 : ℚ) * m < 1 := by linarith
      linarith
    have : (⌈p⌉ : ℚ) < k + 1 := lt_of_mul_lt_mul_right bounded positive.le
    have : ⌈p⌉ < (k + 1 : ℤ) := by exact_mod_cast this
    omega

/-- A rounded product with a factor that is close to another one is close to the product with it. -/
theorem product_close {f u : ℚ} (few : b ≤ 1000) (nonneg : 0 ≤ f) (small : u ≤ 1)
    (close : |f - u| ≤ 1 / 2 ^ 40) : |toDouble (b * f) - b * u| ≤ 1 / 2 ^ 20 := by
  have few : (b : ℚ) ≤ 1000 := by exact_mod_cast few
  have bNonneg : (0 : ℚ) ≤ b := Nat.cast_nonneg b
  have product : b * f ≤ 1000 * (1 + 1 / 2 ^ 40) :=
    mul_le_mul few (by linarith [(abs_le.mp close).2]) nonneg (by norm_num)
  have rounded := toDouble_error (mul_nonneg bNonneg nonneg)
  have scaled : |b * f - b * u| ≤ 1000 * (1 / 2 ^ 40) := by
    rw [← mul_sub, abs_mul, abs_of_nonneg bNonneg]
    exact mul_le_mul few close (abs_nonneg _) (by norm_num)
  calc |toDouble (b * f) - b * u|
      ≤ |toDouble (b * f) - b * f| + |b * f - b * u| := abs_sub_le _ _ _
    _ ≤ b * f / 2 ^ 53 + 1000 * (1 / 2 ^ 40) := add_le_add rounded scaled
    _ ≤ 1 / 2 ^ 20 := by linarith

/-- The shares add up to all blocks that are to be removed, and no kind loses more than it has. -/
theorem shares_spec {r n : Nat} (few : r + n ≤ 1000) (some : 0 < n) (less : b < r + n) :
    b ≤ (shares b r n).1 + (shares b r n).2 ∧ (shares b r n).1 ≤ r ∧ (shares b r n).2 ≤ n := by
  have positive : (0 : ℚ) < (r + n : ℕ) := by exact_mod_cast Nat.add_pos_right r some
  have bFew : b ≤ 1000 := by omega
  generalize fraction : (r : ℚ) / (r + n : ℕ) = u
  have uNonneg : 0 ≤ u := fraction ▸ by positivity
  have rest : (n : ℚ) / (r + n : ℕ) = 1 - u := by
    rw [← fraction, eq_sub_iff_add_eq, ← add_div, div_eq_one_iff_eq positive.ne']
    push_cast
    ring
  have uLess : 1 / 1000 ≤ 1 - u := by
    rw [← rest, div_le_div_iff₀ (by norm_num) positive]
    exact_mod_cast (by omega : 1 * (r + n) ≤ n * 1000)
  obtain ⟨fLow, fHigh⟩ := abs_le.mp (toDouble_error uNonneg)
  obtain ⟨gLow, gHigh⟩ := abs_le.mp (toDouble_error (x := 1 - toDouble u) (by linarith))
  have fNonneg : 0 ≤ toDouble u := by linarith
  have gNonneg : 0 ≤ toDouble (1 - toDouble u) := by linarith
  have fClose := product_close bFew fNonneg (u := u) (by linarith)
    (abs_le.mpr ⟨by linarith, by linarith⟩)
  have gClose := product_close bFew gNonneg (u := 1 - u) (by linarith)
    (abs_le.mpr ⟨by linarith, by linarith⟩)
  rw [← fraction, ← mul_div_assoc] at fClose
  rw [← rest, ← mul_div_assoc] at gClose
  obtain ⟨rEnough, rMost⟩ := ceil_share few less fClose
  obtain ⟨nEnough, nMost⟩ := ceil_share few less gClose
  have values : shares b r n = (⌈toDouble (b * toDouble (r / (r + n : ℕ)))⌉.toNat,
      ⌈toDouble (b * toDouble (1 - toDouble u))⌉.toNat) := by
    rw [shares, if_pos (by omega), fraction]
  rw [values]
  refine ⟨?_, ?_, nMost some⟩
  · refine Nat.le_of_mul_le_mul_right ?_ (Nat.add_pos_right r some)
    rw [Nat.add_mul, Nat.mul_add]
    exact Nat.add_le_add rEnough nEnough
  · rcases Nat.eq_zero_or_pos r with rfl | some
    · simp [toDouble]
    · exact rMost some

/-! ### Copying and reading -/

/-- What a SACK says of a block. -/
def ends (s : Span Nat) : Tsn × Tsn := (tsn s.start, tsn (s.stop - 1))

/-- The TSNs of the chunks in blocks. -/
def tsnsOf (blocks : List (Span Nat)) : List Tsn :=
  blocks.flatMap fun s => (List.range (s.stop - s.start)).map fun n => tsn (s.start + n)

variable {list : SctpSimpleGapList} {blocks before rest : List (Span Nat)} {s : Span Nat}
  {cum p : Nat} {t : Tsn}

theorem mem_tsnsOf : t ∈ tsnsOf blocks ↔ ∃ n, tsn n = t ∧ Holds blocks n := by
  simp only [tsnsOf, List.mem_flatMap, List.mem_map, List.mem_range]
  constructor
  · rintro ⟨s, member, n, less, rfl⟩
    exact ⟨s.start + n, rfl, s, member, Nat.le_add_right _ _, by omega⟩
  · rintro ⟨n, rfl, s, member, from_, upTo⟩
    exact ⟨s, member, n - s.start, by omega, by rw [Nat.add_sub_cancel' from_]⟩

/-- The blocks are in order, and the assertions hold. -/
theorem tsnGt_start (starts : GapStarts cum p before) (sound : Sound cum (before ++ s :: rest)) :
    tsnGt (tsn s.start) (tsn (p - 1) + 1) = true := by
  have next := starts.next_start sound
  obtain ⟨beyond, _, _⟩ := starts.below sound
  have member : s ∈ before ++ s :: rest := by simp
  have positive := sound.spaced.positive s member
  have stops := sound.near s member
  rw [tsn_succ, Nat.sub_add_cancel (by omega), tsnGt_tsn (by omega) (by omega)]
  simpa using next

theorem tsnGe_stop (sound : Sound cum blocks) (member : s ∈ blocks) :
    tsnGe (tsn (s.stop - 1)) (tsn s.start) = true := by
  have positive := sound.spaced.positive s member
  have beyond := sound.beyond s member
  have stops := sound.near s member
  rw [tsnGe_tsn (by omega) (by omega)]
  simp only [decide_eq_true_eq]
  omega

theorem copyLoop_ok (represents : Represents list (before ++ rest))
    (sound : Sound cum (before ++ rest)) (starts : GapStarts cum p before) (count : Nat)
    (le : count ≤ rest.length) :
    copyLoop list count before.length (tsn (p - 1)) = .ok ((rest.take count).map ends) := by
  induction count generalizing before rest p with
  | zero => rfl
  | succ count ih =>
    cases rest with
    | nil => cases le
    | cons s rest =>
      have found : (before ++ s :: rest)[before.length]? = some s := by simp
      have inside : before.length < list.NumGaps := by
        rw [represents.numGaps, List.length_append, List.length_cons]
        omega
      have member : s ∈ before ++ s :: rest := by simp
      have start := tsnGt_start starts sound
      have stop := tsnGe_stop sound member
      have startOk := represents.start_ok found
      have stopOk := represents.stop_ok found
      rw [List.append_cons] at represents sound
      have later := ih represents sound (.inr ⟨before, s, rfl, rfl⟩) (Nat.le_of_succ_le_succ le)
      rw [List.length_append, List.length_singleton] at later
      simp only [copyLoop, getGapStart, getGapStop, assert, inside, decide_true, if_true, ok_bind,
        startOk, stopOk, Except.mapError, start, stop, later]
      rfl

/-- As many blocks are copied as there is space for. -/
theorem copyGaps_ok {gapList : SctpGapList} {type : GapType} (cumAck : gapList.CumAckTsn = tsn cum)
    (represents : Represents (gapsOf gapList type) blocks) (sound : Sound cum blocks)
    (space : Nat) :
    copyGaps gapList type space = .ok ((blocks.take (space / 4 % 2 ^ 32)).map ends) := by
  have copied := copyLoop_ok (List.nil_append blocks ▸ represents) (List.nil_append blocks ▸ sound)
    (.inl ⟨rfl, rfl⟩) (min (space / 4 % 2 ^ 32) blocks.length) (Nat.min_le_right _ _)
  rw [copyGaps, getNumGaps, represents.numGaps, cumAck]
  refine copied.trans ?_
  rw [← List.take_take, List.take_length]

theorem blockTsns_ends (sound : Sound cum blocks) (member : s ∈ blocks) :
    blockTsns (tsn s.start) (tsn (s.stop - 1)) =
      (List.range (s.stop - s.start)).map fun n => tsn (s.start + n) := by
  have positive := sound.spaced.positive s member
  have beyond := sound.beyond s member
  have stops := sound.near s member
  have ordered := tsnGe_stop sound member
  rw [blockTsns, tsnLe, if_pos ordered, toNat_sub_tsn (by omega) (by omega),
    show s.stop - 1 - s.start + 1 = s.stop - s.start by omega]
  refine List.map_congr_left fun n _ => ?_
  rw [tsn, tsn, BitVec.ofNat_add]

theorem readBlocks_ok (sound : Sound cum (before ++ rest)) (starts : GapStarts cum p before) :
    readBlocks (tsn (p - 1)) (rest.map ends) = .ok (tsnsOf rest) := by
  induction rest generalizing before p with
  | nil => rfl
  | cons s rest ih =>
    have start := tsnGt_start starts sound
    have read := blockTsns_ends sound (show s ∈ before ++ s :: rest by simp)
    rw [List.append_cons] at sound
    have later := ih sound (.inr ⟨before, s, rfl, rfl⟩)
    simp only [List.map_cons, ends, readBlocks, assert, start, if_true, ok_bind, later, read]
    rfl

end Inet.Sctp.Sack
