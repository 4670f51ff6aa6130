import Inet.BitLevel.Survivors

/-!
# The tables of a convolutional coder

What the checks of the constructor say about the tables. A state is followed by a state if the first
input has a memory, which is not checked.
-/
namespace Inet.BitLevel.ConvolutionalCode

open Lib

variable (code : ConvolutionalCode)

/-- The constructor makes a coder for the code. -/
structure Accepted : Prop where
  inputs : code.transferFunctionMatrix ≠ []
  checks : code.check = .ok ⟨⟩

/-- Different inputs have different outputs in each state. -/
def Distinguishes : Prop :=
  ∀ s < code.numberOfStates, ∀ x < code.numberOfInputSymbols, ∀ y < code.numberOfInputSymbols,
    code.outputSymbol s x = code.outputSymbol s y → x = y

/-! ### The checks -/

/-- A loop that throws at an item passes if there is no such item. -/
theorem passes_of_forIn {α : Type} {bad : α → Prop} [DecidablePred bad] {message : String}
    {items : List α} (returned : (forIn items PUnit.unit fun item _ =>
      if bad item then throw message else pure (.yield PUnit.unit) : Except String PUnit) =
        .ok ⟨⟩) : ∀ item ∈ items, ¬bad item := by
  induction items with
  | nil => exact nofun
  | cons first rest ih =>
    rw [List.forIn_cons] at returned
    by_cases fails : bad first
    · rw [if_pos fails] at returned
      cases returned
    · rw [if_neg fails] at returned
      exact List.forall_mem_cons.mpr ⟨fails, ih returned⟩

variable {code}

theorem Accepted.rows (accepted : code.Accepted) :
    (∀ row ∈ code.transferFunctionMatrix, row.length = code.codeRateParamaterN) ∧
      code.transferFunctionMatrix.length = code.constraintLengthVector.length := by
  obtain ⟨_, _, returned⟩ := bind_eq_ok.mp accepted.checks
  obtain ⟨_, rows, returned⟩ := bind_eq_ok.mp returned
  refine ⟨fun row member => not_not.mp (passes_of_forIn rows row member), ?_⟩
  by_contra differ
  rw [if_pos differ] at returned
  cases returned

theorem Accepted.input_pos (accepted : code.Accepted) : 0 < code.codeRateParamaterK :=
  List.length_pos_of_ne_nil accepted.inputs

/-- A symbol without bits would not show which input it is for. -/
theorem Accepted.output_pos (accepted : code.Accepted)
    (distinguishes : code.Distinguishes) (sized : ∀ s < code.numberOfStates,
      ∀ x < code.numberOfInputSymbols, (code.outputSymbol s x).length = code.codeRateParamaterN) :
    0 < code.codeRateParamaterN := by
  rcases Nat.eq_zero_or_pos code.codeRateParamaterN with none | some
  · have two : 1 < code.numberOfInputSymbols := Nat.one_lt_two_pow accepted.input_pos.ne'
    have start : 0 < code.numberOfStates := Nat.two_pow_pos _
    have empty : ∀ x < code.numberOfInputSymbols, code.outputSymbol 0 x = [] := fun x input =>
      List.length_eq_zero_iff.mp ((sized 0 start x input).trans none)
    have same := distinguishes 0 start 0 (by omega) 1 two
      ((empty 0 (by omega)).trans (empty 1 two).symm)
    cases same
  · exact some

/-! ### Output symbols -/

theorem Accepted.length_generatorPolynomials (accepted : code.Accepted) {i : Nat}
    (inside : i < code.codeRateParamaterK) :
    (code.generatorPolynomials i).length = code.codeRateParamaterN := by
  have row : code.transferFunctionMatrix.getD i [] ∈ code.transferFunctionMatrix := by
    rw [List.getD_eq_getElem _ _ inside]
    exact List.getElem_mem inside
  rw [generatorPolynomials, List.length_map, accepted.rows.1 _ row]

theorem Accepted.length_outputSymbol (accepted : code.Accepted) (s x : Nat) :
    (code.outputSymbol s x).length = code.codeRateParamaterN := by
  have kept : ∀ (indices : List Nat), (∀ i ∈ indices, i < code.codeRateParamaterK) →
      ∀ (output : BitVector × Nat), output.1.length = code.codeRateParamaterN →
      ∀ (state input : BitVector), (indices.foldl (fun (output : BitVector × Nat) i =>
        let shiftRegisters := input.getD i false ::
          (List.range (code.memorySizes.getD i 0)).map fun k => state.getD (output.2 + k) false
        (output.1.zipWith (fun bit generatorPolynomial =>
            bit != modulo2Adder shiftRegisters generatorPolynomial) (code.generatorPolynomials i),
          output.2 + code.memorySizes.getD i 0)) output).1.length = code.codeRateParamaterN := by
    intro indices
    induction indices with
    | nil => exact fun _ _ length _ _ => length
    | cons i indices ih =>
      intro inside output length state input
      refine ih (fun j member => inside j (List.mem_cons_of_mem _ member)) _ ?_ state input
      rw [List.length_zipWith, length,
        accepted.length_generatorPolynomials (inside i List.mem_cons_self), Nat.min_self]
  refine kept _ (fun i member => ?_) _ List.length_replicate _ _
  rw [List.mem_reverse, List.mem_range, length_bitsOf] at member
  exact member

/-! ### Next states -/

variable (code) in
/-- The bit of the state that an input goes to, behind those for the later inputs. -/
def place (i : Nat) : Nat := (code.memorySizes.drop (i + 1)).sum

variable (code) in
/-- A state with the bits for the inputs. -/
def setInputs (input bits : BitVector) : BitVector :=
  (List.range code.codeRateParamaterK).reverse.foldl
    (fun bits i => BitVector.setBit bits (code.place i) (input.getD i false)) bits

theorem Accepted.length_memorySizes (accepted : code.Accepted) :
    code.memorySizes.length = code.codeRateParamaterK := by
  rw [memorySizes, List.length_map]
  exact accepted.rows.2.symm

theorem Accepted.nextState_eq (accepted : code.Accepted) (state input : BitVector)
    (length : input.length = code.codeRateParamaterK) :
    code.nextState state input =
      code.setInputs input ((false :: state).take code.memorySizeSum) := by
  have memories := accepted.length_memorySizes
  have shifts : ∀ k ≤ code.codeRateParamaterK, ∀ bits : BitVector,
      ((List.range k).reverse.foldl (fun (next : BitVector × Nat) i =>
        (BitVector.setBit next.1 next.2 (input.getD i false),
          next.2 + code.memorySizes.getD i 0)) (bits, (code.memorySizes.drop k).sum)).1 =
      (List.range k).reverse.foldl
        (fun bits i => BitVector.setBit bits (code.place i) (input.getD i false)) bits := by
    intro k
    induction k with
    | zero => exact fun _ _ => rfl
    | succ k ih =>
      intro small bits
      have inside : k < code.memorySizes.length := by omega
      have next : (code.memorySizes.drop (k + 1)).sum + code.memorySizes.getD k 0 =
          (code.memorySizes.drop k).sum := by
        rw [List.drop_eq_getElem_cons inside, List.sum_cons, List.getD_eq_getElem _ _ inside,
          Nat.add_comm]
      rw [List.range_succ, List.reverse_append, List.reverse_singleton, List.singleton_append,
        List.foldl_cons, List.foldl_cons, next]
      exact ih (by omega) _
  have all := shifts code.codeRateParamaterK le_rfl ((false :: state).take code.memorySizeSum)
  rw [← memories, List.drop_length, List.sum_nil, memories] at all
  rw [nextState, length, setInputs, ← all]

theorem length_shifted (s : Nat) :
    ((false :: bitsOf code.memorySizeSum s).take code.memorySizeSum).length =
      code.memorySizeSum := by
  rw [List.length_take, List.length_cons, length_bitsOf]
  omega

/-- With a memory of the first input, no bit is set behind the state. -/
theorem Accepted.stateTransition_lt (accepted : code.Accepted)
    (memory : 0 < code.memorySizes.headD 0) (s x : Nat) :
    code.stateTransition s x < code.numberOfStates := by
  have small : ∀ i ∈ (List.range code.codeRateParamaterK).reverse,
      code.place i < code.memorySizeSum := by
    intro i _
    rw [place, memorySizeSum]
    cases sizes : code.memorySizes with
    | nil =>
      rw [sizes] at memory
      cases memory
    | cons first rest =>
      rw [sizes] at memory
      rw [List.drop_succ_cons, List.sum_cons]
      have whole := congrArg List.sum (List.take_append_drop i rest)
      rw [List.sum_append] at whole
      have positive : 0 < first := memory
      omega
  have limit : (code.setInputs (bitsOf code.codeRateParamaterK x)
      ((false :: bitsOf code.memorySizeSum s).take code.memorySizeSum)).length ≤
        code.memorySizeSum :=
    BitVector.length_foldl_setBit _ _ (length_shifted s).le small
  have bound := BitVector.reverseToDecimal_lt (code.nextState (bitsOf code.memorySizeSum s)
    (bitsOf code.codeRateParamaterK x))
  rw [accepted.nextState_eq _ _ (length_bitsOf _ _)] at bound
  rw [stateTransition, accepted.nextState_eq _ _ (length_bitsOf _ _)]
  exact bound.trans_le (Nat.pow_le_pow_right (by omega) limit)

section
variable {position : Nat → Nat} {value : Nat → Bool}

theorem foldl_setBit_true_of_true {items : List Nat} (ones : ∀ item ∈ items, value item = true) :
    ∀ {bits : BitVector} {pos : Nat}, bits[pos]? = some true →
      (items.foldl (fun bits item => BitVector.setBit bits (position item) (value item)) bits)[pos]? =
        some true := by
  induction items with
  | nil => exact fun found => found
  | cons first rest ih =>
    intro bits pos found
    obtain ⟨one, later⟩ := List.forall_mem_cons.mp ones
    refine ih later ?_
    dsimp only
    by_cases here : position first = pos
    · rw [here, BitVector.getElem?_setBit_self, one]
    · exact BitVector.getElem?_setBit_of_ne _ here found

/-- What is set and never cleared is set at the end. -/
theorem foldl_setBit_true {items : List Nat} (ones : ∀ item ∈ items, value item = true) :
    ∀ (bits : BitVector), ∀ item ∈ items,
      (items.foldl (fun bits item => BitVector.setBit bits (position item) (value item)) bits)[
        position item]? = some true := by
  induction items with
  | nil => exact fun _ _ => nofun
  | cons first rest ih =>
    intro bits item member
    obtain ⟨one, later⟩ := List.forall_mem_cons.mp ones
    rcases List.mem_cons.mp member with rfl | member
    · refine foldl_setBit_true_of_true later ?_
      dsimp only
      rw [BitVector.getElem?_setBit_self, one]
    · exact ih later _ item member

end

/-- The first bit of a vector is the most significant one. -/
theorem le_reverseToDecimal {bits : BitVector} {size : Nat} (first : bits[0]? = some true)
    (long : size < bits.length) : 2 ^ size ≤ BitVector.reverseToDecimal bits := by
  induction bits using List.reverseRecOn generalizing size with
  | nil => cases first
  | append_singleton bits bit ih =>
    rw [List.length_append, List.length_singleton] at long
    rw [BitVector.reverseToDecimal_concat]
    cases size with
    | zero =>
      cases bits with
      | nil =>
        cases Option.some_inj.mp first
        decide
      | cons head tail =>
        have more : 2 ^ 0 ≤ BitVector.reverseToDecimal (head :: tail) :=
          ih first (Nat.zero_lt_succ _)
        omega
    | succ size =>
      cases bits with
      | nil =>
        rw [List.length_nil] at long
        omega
      | cons head tail =>
        have more : 2 ^ size ≤ BitVector.reverseToDecimal (head :: tail) :=
          ih first (by omega)
        rw [Nat.pow_succ]
        omega

/-- Without a memory of the first input, its bit is set behind the state. -/
theorem Accepted.exists_state_ge (accepted : code.Accepted)
    (memory : code.memorySizes.headD 0 = 0) :
    ∃ x < code.numberOfInputSymbols, code.numberOfStates ≤ code.stateTransition 0 x := by
  have positive := accepted.input_pos
  have memories := accepted.length_memorySizes
  -- the input whose bits are all set
  have ones : (List.replicate code.codeRateParamaterK true).length = code.codeRateParamaterK :=
    List.length_replicate
  have set : ∀ i ∈ (List.range code.codeRateParamaterK).reverse,
      (List.replicate code.codeRateParamaterK true).getD i false = true := by
    intro i member
    rw [List.mem_reverse, List.mem_range] at member
    simp [member]
  have placed : ∀ i < code.codeRateParamaterK,
      (code.setInputs (List.replicate code.codeRateParamaterK true)
        ((false :: bitsOf code.memorySizeSum 0).take code.memorySizeSum))[code.place i]? =
          some true := fun i inside =>
    foldl_setBit_true set _ i (List.mem_reverse.mpr (List.mem_range.mpr inside))
  have last : code.place (code.codeRateParamaterK - 1) = 0 := by
    rw [place, Nat.sub_add_cancel positive, ← memories, List.drop_length, List.sum_nil]
  have first : code.place 0 = code.memorySizeSum := by
    rw [place, memorySizeSum]
    cases sizes : code.memorySizes with
    | nil => rfl
    | cons size rest =>
      rw [sizes] at memory
      rw [List.drop_succ_cons, List.drop_zero, List.sum_cons, show size = 0 from memory,
        Nat.zero_add]
  refine ⟨BitVector.reverseToDecimal (List.replicate code.codeRateParamaterK true), ?_, ?_⟩
  · have bound := BitVector.reverseToDecimal_lt (List.replicate code.codeRateParamaterK true)
    rwa [ones] at bound
  · have bits := BitVector.bitsOf_reverseToDecimal (List.replicate code.codeRateParamaterK true)
    rw [ones] at bits
    rw [stateTransition, bits, accepted.nextState_eq _ _ ones]
    have leading := placed (code.codeRateParamaterK - 1) (by omega)
    have behind := placed 0 positive
    rw [last] at leading
    rw [first] at behind
    exact le_reverseToDecimal leading (List.getElem?_eq_some_iff.mp behind).1

end Inet.BitLevel.ConvolutionalCode
