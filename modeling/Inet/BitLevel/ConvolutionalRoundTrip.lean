import Inet.BitLevel.Survivors

/-!
# Decoding of encoded bits

A code whose inputs differ in the bits of an output that are not punctured has only one path at no
distance, so that the decoder finds what has been encoded.
-/
namespace Inet.BitLevel.ConvolutionalCode

open Lib

variable (size count : Nat) {symbols : List (BitVector × BitVector)}

/-! ### Pieces -/

theorem length_pieces (bits : List Bool) :
    (pieces size count bits).length = count := by
  rw [pieces, List.length_map, List.length_range]

theorem pieces_succ (bits : List Bool) :
    pieces size (count + 1) bits = bits.take size :: pieces size count (bits.drop size) := by
  rw [pieces, List.range_succ_eq_map, List.map_cons, List.map_map, Nat.zero_mul, List.drop_zero]
  congr 1
  refine List.map_congr_left fun i _ => ?_
  rw [Function.comp_apply, List.drop_drop, Nat.succ_mul, Nat.add_comm]

theorem pieces_flatten {size : Nat} (parts : List (List Bool))
    (sized : ∀ part ∈ parts, part.length = size) : pieces size parts.length parts.flatten = parts := by
  induction parts with
  | nil => rfl
  | cons part parts ih =>
    have length := sized part List.mem_cons_self
    rw [List.length_cons, pieces_succ, List.flatten_cons, ← length, List.take_left, List.drop_left,
      length, ih fun other member => sized other (List.mem_cons_of_mem _ member)]

theorem flatten_pieces {size count : Nat} : ∀ {bits : List Bool}, bits.length = size * count →
    (pieces size count bits).flatten = bits := by
  induction count with
  | zero =>
    intro bits length
    exact (List.length_eq_zero_iff.mp length).symm
  | succ count ih =>
    intro bits length
    rw [Nat.mul_succ] at length
    rw [pieces_succ, List.flatten_cons, ih (by rw [List.length_drop]; omega), List.take_append_drop]

theorem length_of_mem_pieces {size count : Nat} : ∀ {bits part : List Bool},
    bits.length = size * count → part ∈ pieces size count bits → part.length = size := by
  induction count with
  | zero => exact fun _ => nofun
  | succ count ih =>
    intro bits part length member
    rw [Nat.mul_succ] at length
    rw [pieces_succ] at member
    rcases List.mem_cons.mp member with rfl | member
    · exact List.length_take_of_le (by omega)
    · exact ih (by rw [List.length_drop]; omega) member

theorem pieces_mask : ∀ counts bits : BitVector,
    pieces size count (mask counts bits) =
      (pieces size count counts).zipWith mask (pieces size count bits) := by
  induction count with
  | zero => exact fun _ _ => rfl
  | succ count ih =>
    intro counts bits
    simp only [pieces_succ, List.zipWith_cons_cons]
    rw [mask, List.take_zipWith, List.drop_zipWith, ← mask, ← mask, ih]

/-! ### Puncturing -/

theorem fillPunctured_kept {isPunctured : List Bool} : ∀ {bits : BitVector},
    bits.length = isPunctured.length →
      fillPunctured isPunctured (((bits.zip isPunctured).filter (!·.2)).map (·.1)) =
        .ok (mask (isPunctured.map (!·)) bits) := by
  induction isPunctured with
  | nil => exact fun _ => rfl
  | cons punctured isPunctured ih =>
    intro bits length
    cases bits with
    | nil => cases length
    | cons bit bits =>
      have rest := ih (Nat.succ.inj length)
      rw [List.zip_cons_cons, List.filter_cons]
      cases punctured with
      | true =>
        rw [if_neg (by simp), fillPunctured, rest]
        rfl
      | false =>
        rw [if_pos (by simp), List.map_cons, fillPunctured, rest]
        rfl

theorem length_kept {isPunctured : List Bool} : ∀ {bits : BitVector},
    bits.length = isPunctured.length →
      (((bits.zip isPunctured).filter (!·.2)).map (·.1)).length =
        (isPunctured.map (!·)).countP id := by
  induction isPunctured with
  | nil => simp
  | cons punctured isPunctured ih =>
    intro bits length
    cases bits with
    | nil => cases length
    | cons bit bits =>
      have rest := ih (Nat.succ.inj length)
      rw [List.zip_cons_cons, List.filter_cons, List.map_cons, List.countP_cons]
      cases punctured with
      | true => exact rest
      | false => exact congrArg Nat.succ rest

variable (code : ConvolutionalCode)

def puncturingMatrixSize : Nat := (code.puncturingMatrix.headD []).length

/-- The bits of the symbol of a step that are not punctured. -/
def kept (step : Nat) : BitVector :=
  (List.range code.codeRateParamaterN).map fun i =>
    (code.puncturingMatrix.getD i []).getD (step % code.puncturingMatrixSize) false

theorem length_kept_step (step : Nat) : (code.kept step).length = code.codeRateParamaterN := by
  rw [kept, List.length_map, List.length_range]

theorem kept_mod (step : Nat) : code.kept (step % code.puncturingMatrixSize) = code.kept step := by
  rw [kept, Nat.mod_mod, ← kept]

theorem not_getPuncturedIndices (outputs : 0 < code.codeRateParamaterN) (count : Nat) :
    (code.getPuncturedIndices (code.codeRateParamaterN * count)).map (!·) =
      ((List.range count).map code.kept).flatten := by
  induction count with
  | zero => rfl
  | succ count ih =>
    rw [List.range_succ, List.map_append, List.flatten_append, ← ih, Nat.mul_succ]
    simp only [getPuncturedIndices, List.range_add, List.map_append, List.map_map,
      List.map_singleton, List.flatten_singleton, kept]
    congr 1
    refine List.map_congr_left fun i member => ?_
    have inside := List.mem_range.mp member
    simp only [Function.comp_apply, Bool.not_not]
    rw [Nat.mul_add_mod, Nat.mod_eq_of_lt inside, Nat.mul_add_div outputs,
      Nat.div_eq_of_lt inside, Nat.add_zero]
    rfl

/-- A sum over whole periods. -/
theorem sum_periods (f : Nat → Nat) (period : Nat) (count : Nat) :
    ((List.range (period * count)).map fun i => f (i % period)).sum =
      count * ((List.range period).map f).sum := by
  induction count with
  | zero => simp
  | succ count ih =>
    rw [Nat.mul_succ, List.range_add, List.map_append, List.sum_append, ih, List.map_map,
      Nat.succ_mul]
    congr 2
    refine List.map_congr_left fun i member => ?_
    rw [Function.comp_apply, Nat.mul_add_mod, Nat.mod_eq_of_lt (List.mem_range.mp member)]

/-! ### Symbols -/

/-- The output symbols of input symbols from a state. -/
def outputSymbols : Nat → List Nat → List BitVector
  | _, [] => []
  | state, inputSymbol :: inputSymbols =>
    code.outputSymbol state inputSymbol ::
      outputSymbols (code.stateTransition state inputSymbol) inputSymbols

theorem encodeSymbols_eq (inputSymbols : List Nat) : ∀ state,
    code.encodeSymbols state inputSymbols = (code.outputSymbols state inputSymbols).flatten := by
  induction inputSymbols with
  | nil => exact fun _ => rfl
  | cons input inputSymbols ih =>
    intro state
    rw [encodeSymbols, outputSymbols, List.flatten_cons, ih]

theorem length_outputSymbols (inputSymbols : List Nat) : ∀ state,
    (code.outputSymbols state inputSymbols).length = inputSymbols.length := by
  induction inputSymbols with
  | nil => exact fun _ => rfl
  | cons input inputSymbols ih =>
    intro state
    rw [outputSymbols, List.length_cons, ih, List.length_cons]

/-- The inputs of a state differ in the bits that are not punctured. -/
structure Separated : Prop where
  inputs : 0 < code.codeRateParamaterK
  outputs : 0 < code.codeRateParamaterN
  state : ∀ s < code.numberOfStates, ∀ x < code.numberOfInputSymbols,
    code.stateTransition s x < code.numberOfStates
  length : ∀ s < code.numberOfStates, ∀ x < code.numberOfInputSymbols,
    (code.outputSymbol s x).length = code.codeRateParamaterN
  separated : ∀ step < code.puncturingMatrixSize, ∀ s < code.numberOfStates,
    ∀ x < code.numberOfInputSymbols, ∀ y < code.numberOfInputSymbols,
      mask (code.kept step) (code.outputSymbol s x) = mask (code.kept step) (code.outputSymbol s y) →
        x = y
  positive : 0 < code.puncturingMatrixSize
  period : code.codeRateParamaterK * code.puncturingMatrixSize = code.codeRatePuncturingK
  ones : ((List.range code.puncturingMatrixSize).map fun step => (code.kept step).countP id).sum =
    code.codeRatePuncturingN
  received : 0 < code.codeRatePuncturingN

variable {code}

theorem Separated.tables (holds : code.Separated) : code.Tables :=
  ⟨holds.state, holds.length, fun s state x input y input' same =>
    holds.separated 0 holds.positive s state x input y input' (by rw [same])⟩

theorem Separated.length_of_mem (holds : code.Separated) {inputSymbols : List Nat} :
    ∀ {state : Nat}, state < code.numberOfStates →
      (∀ x ∈ inputSymbols, x < code.numberOfInputSymbols) →
      ∀ symbol ∈ code.outputSymbols state inputSymbols, symbol.length = code.codeRateParamaterN := by
  induction inputSymbols with
  | nil => exact fun _ _ _ => nofun
  | cons input inputSymbols ih =>
    intro state inside allowed symbol member
    have first := allowed input List.mem_cons_self
    rcases List.mem_cons.mp member with rfl | member
    · exact holds.length state inside input first
    · exact ih (holds.state state inside input first)
        (fun x member => allowed x (List.mem_cons_of_mem _ member)) symbol member

/-- The received symbol of a step is what is kept of an output symbol. -/
theorem Separated.cost_eq_zero (holds : code.Separated)
    {time s x : Nat} {output : BitVector} (length : output.length = code.codeRateParamaterN)
    (received : symbols[time]? = some (mask (code.kept time) output, code.kept time))
    (state : s < code.numberOfStates) (input : x < code.numberOfInputSymbols) :
    (code.trellis symbols).cost time s x = 0 ↔
      mask (code.kept time) output = mask (code.kept time) (code.outputSymbol s x) := by
  have here : symbols.getD time ([], []) = (mask (code.kept time) output, code.kept time) := by
    rw [List.getD_eq_getElem?_getD, received]
    rfl
  simp only [trellis, here]
  rw [hammingDistance_eq_zero, mask_mask]
  · rw [mask, List.length_zipWith, length_kept_step, length, Nat.min_self]
  · rw [holds.length s state x input, length_kept_step]

theorem Separated.total_eq_zero (holds : code.Separated)
    {inputSymbols : List Nat} : ∀ {time state : Nat}, state < code.numberOfStates →
      (∀ x ∈ inputSymbols, x < code.numberOfInputSymbols) →
      (∀ i output, (code.outputSymbols state inputSymbols)[i]? = some output →
        symbols[time + i]? = some (mask (code.kept (time + i)) output, code.kept (time + i))) →
      (code.trellis symbols).total time state inputSymbols = 0 := by
  induction inputSymbols with
  | nil => exact fun _ _ _ => rfl
  | cons input inputSymbols ih =>
    intro time state inside allowed received
    have first := allowed input List.mem_cons_self
    rw [Trellis.total, Nat.add_eq_zero_iff]
    constructor
    · exact (holds.cost_eq_zero (holds.length state inside input first)
        (received 0 _ rfl) inside first).mpr rfl
    · refine ih (holds.state state inside input first)
        (fun x member => allowed x (List.mem_cons_of_mem _ member)) fun i output found => ?_
      have later := received (i + 1) output found
      rw [show time + (i + 1) = time + 1 + i by omega] at later
      exact later

/-! ### The best node -/

/-- The node has a distance that is no larger than that of the other, if that has one. -/
def NoFarther (node other : TrellisGraphNode) : Prop :=
  ∀ distance, other.comulativeHammingDistance = some distance →
    ∃ distance', node.comulativeHammingDistance = some distance' ∧ distance' ≤ distance

theorem NoFarther.refl (node : TrellisGraphNode) : NoFarther node node :=
  fun distance found => ⟨distance, found, le_rfl⟩

theorem NoFarther.trans {first second third : TrellisGraphNode} (near : NoFarther first second)
    (far : NoFarther second third) : NoFarther first third := by
  intro distance found
  obtain ⟨distance', found', le'⟩ := far distance found
  obtain ⟨distance'', found'', le''⟩ := near distance' found'
  exact ⟨distance'', found'', le''.trans le'⟩

theorem noFarther_of_less {node other : TrellisGraphNode}
    (smaller : less node.comulativeHammingDistance other.comulativeHammingDistance = true) :
    NoFarther node other := by
  intro distance found
  rw [found] at smaller
  cases found' : node.comulativeHammingDistance with
  | none =>
    rw [found'] at smaller
    cases smaller
  | some distance' =>
    rw [found'] at smaller
    exact ⟨distance', rfl, (of_decide_eq_true smaller).le⟩

theorem noFarther_of_not_less {node other : TrellisGraphNode}
    (larger : less other.comulativeHammingDistance node.comulativeHammingDistance = false) :
    NoFarther node other := by
  intro distance found
  rw [found] at larger
  exact less_some.mp larger

theorem bestNode_foldl (column : Column) (states : List Nat) : ∀ best : TrellisGraphNode,
    let result := states.foldl (fun bestNode i =>
      if (column i).symbol ≠ none ∧
          less (column i).comulativeHammingDistance bestNode.comulativeHammingDistance then
        column i
      else bestNode) best
    (result = best ∨ ∃ i ∈ states, result = column i) ∧ NoFarther result best ∧
      ∀ i ∈ states, (column i).symbol ≠ none → NoFarther result (column i) := by
  induction states with
  | nil => exact fun best => ⟨.inl rfl, .refl best, fun _ => nofun⟩
  | cons first states ih =>
    intro best
    rw [List.foldl_cons]
    obtain ⟨source, keeps, least⟩ := ih (if (column first).symbol ≠ none ∧
        less (column first).comulativeHammingDistance best.comulativeHammingDistance then
      column first else best)
    refine ⟨?_, keeps.trans ?_, fun i member symbol => ?_⟩
    · rcases source with source | ⟨i, member, source⟩
      · rw [source]
        split
        · exact .inr ⟨first, List.mem_cons_self, rfl⟩
        · exact .inl rfl
      · exact .inr ⟨i, List.mem_cons_of_mem _ member, source⟩
    · split
      · next smaller => exact noFarther_of_less smaller.2
      · exact .refl best
    · rcases List.mem_cons.mp member with rfl | member
      · refine keeps.trans ?_
        split
        · exact .refl _
        · next larger =>
          exact noFarther_of_not_less (Bool.not_eq_true _ ▸ fun both => larger ⟨symbol, both⟩)
      · exact least i member symbol

theorem bestNode_truncated (truncated : code.mode = .truncated) (column : Column) :
    (∃ s, code.bestNode column = column s) ∧
      ∀ s < code.numberOfStates, (column s).symbol ≠ none →
        NoFarther (code.bestNode column) (column s) := by
  obtain ⟨source, keeps, least⟩ := bestNode_foldl column
    ((List.range code.numberOfStates).drop 1) (column 0)
  simp only [bestNode, truncated]
  constructor
  · rcases source with source | ⟨i, _, source⟩
    · exact ⟨0, source⟩
    · exact ⟨i, source⟩
  · intro s state symbol
    cases s with
    | zero => exact keeps
    | succ s =>
      refine least (s + 1) ?_ symbol
      rw [List.mem_iff_getElem?]
      exact ⟨s, by rw [List.getElem?_drop, Nat.add_comm, List.getElem?_range state]⟩

/-- The path to the best node is the one without distance. -/
theorem Separated.bestNode_path (holds : code.Separated) (truncated : code.mode = .truncated)
    {time : Nat} {column : Column} {columns : List Column}
    (tracks : code.Tracks symbols time column columns)
    (separates : (code.trellis symbols).Separates (· < code.numberOfStates) time)
    {path : List Nat} (length : path.length = time)
    (allowed : ∀ x ∈ path, x < code.numberOfInputSymbols)
    (free : (code.trellis symbols).total 0 0 path = 0) :
    (traversePath columns (code.bestNode column).depth (code.bestNode column)).reverse = path := by
  obtain ⟨here, unique⟩ := tracks.survivors.free separates
    (fun s x inside input => holds.state s inside x input) (Nat.two_pow_pos _) length allowed free
  obtain ⟨⟨s, best⟩, least⟩ := bestNode_truncated truncated column
  generalize final : (code.trellis symbols).walk 0 path = state at here
  unfold ConvolutionalCode.survivors at here
  split at here
  next => cases here
  next reached' =>
    obtain ⟨distance, traversed⟩ := Prod.mk.inj (Option.some.inj here)
    rcases tracks.nodes state with fresh | reached
    · exact absurd (by rw [fresh]) reached'
    · rcases Nat.eq_zero_or_pos time with start | later
      · -- Without symbols the path is empty, whatever the node is.
        subst start
        rw [List.length_eq_zero_iff.mp length]
        have depth : (code.bestNode column).depth = 0 := by
          rw [best]
          rcases tracks.nodes s with fresh | reached
          · rw [fresh]
          · exact reached.depth
        rw [depth, traversePath]
        rfl
      · have zero : (column state).comulativeHammingDistance = some 0 := by
          cases found : (column state).comulativeHammingDistance with
          | none => exact absurd found (reached.distance later)
          | some value =>
            rw [found] at distance
            exact congrArg some distance
        obtain ⟨distance', free', le⟩ := least state reached.inside (reached.symbol later) 0 zero
        rw [Nat.le_zero.mp le, best] at free'
        rw [best]
        refine unique s _ ?_
        unfold ConvolutionalCode.survivors
        rcases tracks.nodes s with fresh | reached
        · rw [fresh] at free'
          cases free'
        · rw [if_neg (by rw [reached.state]; nofun), free']
          rfl

/-! ### Encoded bits -/

theorem getElem?_kept_zip (outputs : List BitVector) {i : Nat} {output : BitVector}
    (found : outputs[i]? = some output) :
    ((((List.range outputs.length).map code.kept).zipWith mask outputs).zip
      ((List.range outputs.length).map code.kept))[i]? =
        some (mask (code.kept i) output, code.kept i) := by
  obtain ⟨inside, rfl⟩ := List.getElem?_eq_some_iff.mp found
  have steps : ((List.range outputs.length).map code.kept)[i]? = some (code.kept i) := by
    rw [List.getElem?_map, List.getElem?_range inside]
    rfl
  simp only [List.getElem?_zip_eq_some, List.getElem?_zipWith, steps, found]
  trivial

theorem inputSymbols_lt (bits : BitVector)
    (multiple : bits.length % code.codeRateParamaterK = 0) :
    ∀ x ∈ code.inputSymbols bits, x < code.numberOfInputSymbols := by
  intro x member
  obtain ⟨part, piece, rfl⟩ := List.mem_map.mp member
  have whole := Nat.mul_div_cancel' (Nat.dvd_of_mod_eq_zero multiple)
  rw [numberOfInputSymbols, ← length_of_mem_pieces whole.symm piece]
  exact BitVector.reverseToDecimal_lt part

theorem inputSymbols_bits {bits : BitVector}
    (multiple : bits.length % code.codeRateParamaterK = 0) :
    (code.inputSymbols bits).flatMap (bitsOf code.codeRateParamaterK) = bits := by
  have whole := Nat.mul_div_cancel' (Nat.dvd_of_mod_eq_zero multiple)
  have parts := flatten_pieces whole.symm
  rw [inputSymbols, List.flatMap_def, List.map_map]
  conv_rhs => rw [← parts]
  congr 1
  refine (List.map_congr_left fun part member => ?_).trans (List.map_id _)
  have length := length_of_mem_pieces whole.symm member
  rw [Function.comp_apply, id, ← length, BitVector.bitsOf_reverseToDecimal]

/-- The bits of the symbols after puncturing, and what is received of them. -/
theorem Separated.received_symbols (holds : code.Separated) {symbols : List BitVector}
    {count : Nat} (steps : symbols.length = code.puncturingMatrixSize * count)
    (sized : ∀ symbol ∈ symbols, symbol.length = code.codeRateParamaterN) :
    (code.puncturing symbols.flatten).length = code.codeRatePuncturingN * count ∧
      ∃ depunctured, code.depuncturing (code.puncturing symbols.flatten) = .ok depunctured ∧
        depunctured.length = code.codeRateParamaterN * symbols.length ∧
        code.receivedSymbols depunctured =
          (((List.range symbols.length).map code.kept).zipWith mask symbols).zip
            ((List.range symbols.length).map code.kept) := by
  have length : symbols.flatten.length = code.codeRateParamaterN * symbols.length := by
    rw [List.length_flatten, List.map_congr_left sized, List.map_const', List.sum_replicate_nat,
      Nat.mul_comm]
  have kept := code.not_getPuncturedIndices holds.outputs symbols.length
  have indices : symbols.flatten.length =
      (code.getPuncturedIndices (code.codeRateParamaterN * symbols.length)).length := by
    rw [length, getPuncturedIndices, List.length_map, List.length_range]
  have count_kept : (code.puncturing symbols.flatten).length =
      code.codeRatePuncturingN * count := by
    rw [puncturing, length, length_kept indices, kept, List.countP_flatten, List.map_map,
      ← holds.ones, Nat.mul_comm, ← sum_periods, steps]
    congr 1
    refine List.map_congr_left fun step _ => ?_
    rw [Function.comp_apply, kept_mod]
  refine ⟨count_kept, mask (((List.range symbols.length).map code.kept).flatten) symbols.flatten,
    ?_, ?_, ?_⟩
  · have size : code.depuncturedLength (code.codeRatePuncturingN * count) =
        code.codeRateParamaterN * symbols.length := by
      rw [depuncturedLength, Nat.mul_div_cancel_left _ holds.received, ← holds.period, steps,
        Nat.mul_comm count, Nat.mul_assoc, Nat.mul_div_cancel_left _ holds.inputs, Nat.mul_comm]
    rw [depuncturing, count_kept, if_neg (by rw [Nat.mul_mod_right]; exact fun h => h rfl), size,
      puncturing, length, fillPunctured_kept indices, kept]
  · rw [mask, List.length_zipWith, ← kept, List.length_map, ← indices, Nat.min_self, length]
  · have whole : (mask (((List.range symbols.length).map code.kept).flatten)
        symbols.flatten).length = code.codeRateParamaterN * symbols.length := by
      rw [mask, List.length_zipWith, ← kept, List.length_map, ← indices, Nat.min_self, length]
    have sized' : ∀ part ∈ (List.range symbols.length).map code.kept,
        part.length = code.codeRateParamaterN := by
      intro part member
      obtain ⟨step, _, rfl⟩ := List.mem_map.mp member
      exact code.length_kept_step step
    have parts := pieces_flatten _ sized'
    rw [List.length_map, List.length_range] at parts
    rw [receivedSymbols, whole, Nat.mul_div_cancel_left _ holds.outputs, kept, pieces_mask,
      parts, pieces_flatten symbols sized]

/-- Encoded bits are decoded to what they have been encoded from, however ties are broken. -/
theorem Separated.decode_encode (holds : code.Separated) (truncated : code.mode = .truncated)
    (dblrand : Nat → ℚ) {bits : BitVector} {count : Nat}
    (length : bits.length = code.codeRatePuncturingK * count) :
    ∃ encoded, code.encode bits = .ok encoded ∧
      encoded.length = code.codeRatePuncturingN * count ∧
      code.decode dblrand encoded = .ok (bits, true) := by
  rw [← holds.period, Nat.mul_assoc] at length
  have multiple : bits.length % code.codeRateParamaterK = 0 := by rw [length, Nat.mul_mod_right]
  have original := inputSymbols_bits multiple
  have allowed := inputSymbols_lt bits multiple
  have sized := holds.length_of_mem (Nat.two_pow_pos _) allowed
  have inputs_length := code.length_outputSymbols (code.inputSymbols bits) 0
  have steps : (code.outputSymbols 0 (code.inputSymbols bits)).length =
      code.puncturingMatrixSize * count := by
    rw [inputs_length, inputSymbols, List.length_map, length_pieces, length,
      Nat.mul_div_cancel_left _ holds.inputs]
  obtain ⟨encoded_length, depunctured, returned, whole, received⟩ :=
    holds.received_symbols steps sized
  have found : ∀ i output, (code.outputSymbols 0 (code.inputSymbols bits))[i]? = some output →
      (code.receivedSymbols depunctured)[i]? = some (mask (code.kept i) output, code.kept i) := by
    rw [received]
    exact fun i output => code.getElem?_kept_zip _
  have count_symbols : (code.receivedSymbols depunctured).length =
      (code.inputSymbols bits).length := by
    rw [received, List.length_zip, List.length_zipWith, List.length_map, List.length_range,
      inputs_length, Nat.min_self, Nat.min_self]
  have start : code.Tracks (code.receivedSymbols depunctured)
      ([] : List (BitVector × BitVector)).length firstColumn [] := .initial _
  obtain ⟨column, columns, graph, tracks⟩ :=
    start.all holds.tables dblrand (code.receivedSymbols depunctured) 0 (List.nil_append _).symm
  have free : (code.trellis (code.receivedSymbols depunctured)).total 0 0
      (code.inputSymbols bits) = 0 := by
    refine holds.total_eq_zero (Nat.two_pow_pos _) allowed fun i output here => ?_
    rw [Nat.zero_add]
    exact found i output here
  have separates : (code.trellis (code.receivedSymbols depunctured)).Separates
      (· < code.numberOfStates) (code.receivedSymbols depunctured).length := by
    intro time early s x y state input input' free free'
    rw [count_symbols, ← inputs_length] at early
    have here := found time _ (List.getElem?_eq_getElem early)
    have sized' := sized _ (List.getElem_mem early)
    have first := (holds.cost_eq_zero sized' here state input).mp free
    have second := (holds.cost_eq_zero sized' here state input').mp free'
    refine holds.separated _ (Nat.mod_lt time holds.positive) s state x input y input' ?_
    rw [kept_mod]
    exact first.symm.trans second
  have path := holds.bestNode_path truncated tracks separates count_symbols.symm allowed free
  refine ⟨_, ?_, encoded_length, ?_⟩
  · rw [encode, if_neg (by rw [multiple]; exact fun h => h rfl), encodeSymbols_eq]
  · rw [decode, returned, ok_bind, whole, if_neg (by rw [Nat.mul_mod_right]; exact fun h => h rfl)]
    dsimp only
    rw [graph, if_neg (by rw [truncated]; exact fun both => nomatch both.1), List.headD_cons,
      List.tail_cons, path, original]

end Inet.BitLevel.ConvolutionalCode
