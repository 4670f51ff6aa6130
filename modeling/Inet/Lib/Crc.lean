import Mathlib.Data.List.GetD

/-!
# Cyclic redundancy checks

The remainder of a division by a polynomial, as a register of any width that takes one bit at a time,
the lowest place first. It is linear in exclusive or. If the polynomial has the highest place, then a
register of which nothing is left had exactly the bits that it was given.
-/
namespace Inet.Lib.Crc

variable {w : Nat} (poly : BitVec w) (a b c : BitVec w) {xs ys : List Bool}

/-- One place down, with the polynomial if a bit falls out. -/
def shift : BitVec w :=
  if c.getLsbD 0 then (c >>> 1) ^^^ poly else c >>> 1

/-- The bit meets the one that falls out. -/
def feed (bit : Bool) : BitVec w :=
  shift poly (c ^^^ (BitVec.ofBool bit).setWidth w)

def feeds (bits : List Bool) : BitVec w :=
  bits.foldl (feed poly) c

theorem getLsbD_feed (wide : 0 < w) (bit : Bool) (i : Nat) :
    (feed poly c bit).getLsbD i =
      ((c.getLsbD (i + 1)) ^^ ((c.getLsbD 0 ^^ bit) && poly.getLsbD i)) := by
  have low : (c ^^^ (BitVec.ofBool bit).setWidth w).getLsbD 0 = (c.getLsbD 0 ^^ bit) := by
    cases bit <;> simp [wide]
  have high : (c ^^^ (BitVec.ofBool bit).setWidth w).getLsbD (1 + i) = c.getLsbD (i + 1) := by
    rw [Nat.add_comm 1 i]
    cases bit <;> simp
  unfold feed shift
  rw [low]
  cases out : (c.getLsbD 0 ^^ bit) <;> simp [high]

theorem xor_xor_and : ∀ a b a' b' x y p : Bool, ((a ^^ b) ^^ ((a' ^^ b' ^^ (x ^^ y)) && p)) =
    ((a ^^ ((a' ^^ x) && p)) ^^ (b ^^ ((b' ^^ y) && p))) := by
  decide

/-- Two registers side by side are one. -/
theorem feeds_xor (same : xs.length = ys.length) :
    feeds poly (a ^^^ b) (List.zipWith xor xs ys) = feeds poly a xs ^^^ feeds poly b ys := by
  induction xs generalizing a b ys with
  | nil =>
    obtain rfl : ys = [] := List.length_eq_zero_iff.mp same.symm
    rfl
  | cons x xs ih =>
    cases ys with
    | nil => cases same
    | cons y ys =>
      have step : feed poly (a ^^^ b) (x ^^ y) = feed poly a x ^^^ feed poly b y := by
        rcases Nat.eq_zero_or_pos w with rfl | wide
        · exact BitVec.eq_of_getLsbD_eq fun i inside => absurd inside (Nat.not_lt_zero i)
        · refine BitVec.eq_of_getLsbD_eq fun i _ => ?_
          simp only [BitVec.getLsbD_xor, getLsbD_feed poly _ wide]
          exact xor_xor_and _ _ _ _ _ _ _
      have rest := ih (feed poly a x) (feed poly b y) (Nat.succ.inj same)
      rw [← step] at rest
      exact rest

variable {poly} {c}

/-- A register that ends as zero had the bits that it was given, and nothing above them. -/
theorem feeds_eq_zero_iff (high : poly.msb = true) (fits : xs.length ≤ w) :
    feeds poly c xs = 0#w ↔ ∀ i, c.getLsbD i = xs.getD i false := by
  induction xs generalizing c with
  | nil =>
    constructor
    · rintro empty i
      have zero : c = 0#w := empty
      simp [zero]
    · intro none
      have zero : c = 0#w := BitVec.eq_of_getLsbD_eq fun i _ => (none i).trans (by simp)
      exact zero
  | cons x xs ih =>
    have wide : 0 < w := Nat.lt_of_lt_of_le (Nat.succ_pos _) fits
    rw [List.length_cons] at fits
    have later : feeds poly c (x :: xs) = 0#w ↔ ∀ i, (feed poly c x).getLsbD i = xs.getD i false :=
      ih (Nat.le_of_succ_le fits)
    rw [later]
    simp only [getLsbD_feed poly c wide]
    constructor
    · intro fed
      -- the highest place shows that no bit has fallen out
      have top := fed (w - 1)
      rw [BitVec.getLsbD_of_ge c (w - 1 + 1) (by omega), ← BitVec.msb_eq_getLsbD_last, high,
        List.getD_eq_default _ _ (by omega)] at top
      have kept : (c.getLsbD 0 ^^ x) = false := by simpa using top
      rintro (_ | i)
      · simpa using kept
      · have bit := fed i
        rw [kept] at bit
        simpa using bit
    · intro given i
      have kept : (c.getLsbD 0 ^^ x) = false := by simp [given 0]
      rw [kept]
      simpa using given (i + 1)

theorem feeds_append (first second : List Bool) :
    feeds poly c (first ++ second) = feeds poly (feeds poly c first) second :=
  List.foldl_append

/-- Zeros do not make a register zero. -/
theorem eq_zero_of_feeds_zeros (high : poly.msb = true) (wide : 0 < w) {n : Nat}
    (empty : feeds poly c (List.replicate n false) = 0#w) : c = 0#w := by
  induction n generalizing c with
  | zero => exact empty
  | succ n ih =>
    have fed : feeds poly c [false] = 0#w := ih empty
    have none := (@feeds_eq_zero_iff _ poly c [false] high wide).mp fed
    refine BitVec.eq_of_getLsbD_eq fun i _ => ?_
    rw [none i]
    cases i <;> simp

theorem feeds_zeros (n : Nat) : feeds poly 0#w (List.replicate n false) = 0#w := by
  induction n with
  | zero => rfl
  | succ n ih =>
    have fed : feed poly 0#w false = 0#w := by
      rw [feed, shift]
      simp
    change feeds poly (feed poly 0#w false) (List.replicate n false) = 0#w
    rw [fed, ih]

/-- Errors that are all within so many bits in a row, one at least. -/
def IsBurst (width : Nat) (errors : List Bool) : Prop :=
  ∃ before burst behind, errors = List.replicate before false ++ burst ++ List.replicate behind false ∧
    burst.length ≤ width ∧ true ∈ burst

/-- A burst that is no longer than the register leaves something in it. -/
theorem IsBurst.feeds_ne_zero {errors : List Bool} (burst : IsBurst w errors)
    (high : poly.msb = true) : feeds poly 0#w errors ≠ 0#w := by
  obtain ⟨before, burst, behind, rfl, short, wrong⟩ := burst
  have wide : 0 < w := Nat.lt_of_lt_of_le (List.length_pos_of_mem wrong) short
  intro empty
  rw [feeds_append, feeds_append, feeds_zeros] at empty
  have none := (feeds_eq_zero_iff high short).mp (eq_zero_of_feeds_zeros high wide empty)
  obtain ⟨i, inside, found⟩ := List.getElem_of_mem wrong
  have bit := none i
  rw [List.getD_eq_getElem _ _ inside, found] at bit
  simp at bit

/-! ### Several bits at once -/

/-- The lowest bits of a register. -/
def lowBits (n : Nat) (c : BitVec w) : List Bool :=
  (List.range n).map c.getLsbD

@[simp] theorem length_lowBits (n : Nat) : (lowBits n c).length = n := by simp [lowBits]

theorem getD_lowBits (c : BitVec w) (i : Nat) : (lowBits w c).getD i false = c.getLsbD i := by
  by_cases inside : i < w
  · rw [List.getD_eq_getElem _ _ (by simpa using inside)]
    simp [lowBits]
  · rw [List.getD_eq_default _ _ (by simpa using inside), BitVec.getLsbD_of_ge c i (by omega)]

/-- A register that is given its own bits, and no other one, is empty then. -/
theorem feeds_lowBits_eq_zero_iff (high : poly.msb = true) {d : BitVec w} :
    feeds poly c (lowBits w d) = 0#w ↔ c = d := by
  rw [feeds_eq_zero_iff high (by simp)]
  simp only [getD_lowBits]
  exact ⟨fun same => BitVec.eq_of_getLsbD_eq fun i _ => same i, fun same i => by rw [same]⟩

theorem zipWith_zeros {n : Nat} (length : xs.length = n) :
    List.zipWith xor xs (List.replicate n false) = xs := by
  refine List.ext_getElem (by simp [length]) fun i _ _ => ?_
  simp

/-- Places that are zero fall out without the polynomial. -/
theorem feeds_clear {n : Nat} (clear : ∀ i < n, c.getLsbD i = false) :
    feeds poly c (List.replicate n false) = c >>> n := by
  induction n generalizing c with
  | zero => exact (BitVec.ushiftRight_zero c).symm
  | succ n ih =>
    have fed : feed poly c false = c >>> 1 := by
      rw [feed, shift]
      simp [clear 0 (Nat.succ_pos n)]
    change feeds poly (feed poly c false) (List.replicate n false) = _
    rw [fed, ih fun i inside => ?_, ← BitVec.shiftRight_add, Nat.add_comm]
    simpa [Nat.add_comm] using clear (i + 1) (Nat.succ_lt_succ inside)

/-- The bits meet the lowest ones of the register, and its other ones go down. -/
theorem feeds_at_once (high : poly.msb = true) {n : Nat} (length : xs.length = n) (fits : n ≤ w) :
    feeds poly c xs = (c >>> n) ^^^ feeds poly 0#w (List.zipWith xor (lowBits n c) xs) := by
  -- the register is its low places and its high ones
  let low : BitVec w := (c.setWidth n).setWidth w
  let met := List.zipWith xor (lowBits n c) xs
  have met_length : met.length = n := by simp [met, length]
  have again : List.zipWith xor (lowBits n c) met = xs := by
    refine List.ext_getElem (by simp [met_length, length]) fun i _ _ => ?_
    simp [met]
  have lowest (i : Nat) : low.getLsbD i = (lowBits n c).getD i false := by
    by_cases inside : i < n
    · rw [List.getD_eq_getElem _ _ (by simpa using inside)]
      simp [low, lowBits, inside, Nat.lt_of_lt_of_le inside fits]
    · rw [List.getD_eq_default _ _ (by simpa using inside)]
      simp [low, inside]
  have split := @feeds_xor _ poly low (low ^^^ c) (lowBits n c) met (by simp [met_length])
  rw [again, ← BitVec.xor_assoc, BitVec.xor_self, BitVec.zero_xor,
    (feeds_eq_zero_iff high (by simpa using fits)).mpr lowest, BitVec.zero_xor] at split
  have rest := @feeds_xor _ poly (low ^^^ c) 0#w (List.replicate n false) met (by simp [met_length])
  have same : List.zipWith xor (List.replicate n false) met = met := by
    rw [List.zipWith_comm_of_comm Bool.xor_comm, zipWith_zeros met_length]
  rw [same, BitVec.xor_zero] at rest
  have clear : ∀ i < n, (low ^^^ c).getLsbD i = false := fun i inside => by
    have wide : i < w := Nat.lt_of_lt_of_le inside fits
    simp [low, inside, wide]
  rw [split, rest, feeds_clear clear]
  congr 1
  refine BitVec.eq_of_getLsbD_eq fun i _ => ?_
  simp [low]

end Inet.Lib.Crc
