import Mathlib
import Inet.BitLevel.ConvolutionalRoundTrip
import Inet.BitLevel.ConvolutionalTables

/-!
# Maximum likelihood

The decoder returns an input whose encoding is as near to the received bits as that of any other
input. In terminated mode inputs have to lead to the first state.
-/
namespace Inet.BitLevel.ConvolutionalCode

open Lib

/-- The number of bits in which two vectors of one length differ. -/
def distance (bits other : BitVector) : Nat := (bits.zip other).countP fun both => both.1 != both.2

variable (code : ConvolutionalCode)

/-- The number of symbols that so many received bits are decoded to. -/
def steps (length : Nat) : Nat :=
  length / code.codeRatePuncturingN * code.codeRatePuncturingK / code.codeRateParamaterK

/-- The received bits are as many as the symbols have bits that are not punctured. -/
structure AdmissibleLength (length : Nat) : Prop where
  rate : 0 < code.codeRatePuncturingN
  whole : length % code.codeRatePuncturingN = 0
  kept : (code.getPuncturedIndices (code.depuncturedLength length)).countP (!·) = length

/-- The state after the input. -/
def finalState (input : BitVector) : Nat := (code.inputSymbols input).foldl code.stateTransition 0

/-- What so many bits can have been encoded from. -/
structure AdmissibleInput (length : Nat) (input : BitVector) : Prop where
  length : input.length = code.codeRateParamaterK * code.steps length
  ends : code.mode = .terminated → code.finalState input = 0

/-- The result is an input that can have been encoded, if there is any, and the encoding of no other
one is nearer to the received bits. -/
def Decodes (received : BitVector) (result : Except String (BitVector × Bool)) : Prop :=
  ∃ bits success, result = .ok (bits, success) ∧
    (success = true ↔ ∃ input, code.AdmissibleInput received.length input) ∧
    (success = true → code.AdmissibleInput received.length bits ∧
      ∃ own, code.encode bits = .ok own ∧ own.length = received.length ∧
        ∀ input encoded, code.AdmissibleInput received.length input →
          code.encode input = .ok encoded → distance own received ≤ distance encoded received)

/-- The decoder looks up states that exist only, and whichever way it breaks ties, it returns the best
input if there is any. -/
structure MaximumLikelihood (received : BitVector) : Prop where
  states : ∀ path : List Nat, path.length ≤ code.steps received.length →
    (∀ x ∈ path, x < code.numberOfInputSymbols) →
      path.foldl code.stateTransition 0 < code.numberOfStates
  decodes : ∀ dblrand : Nat → ℚ, code.Decodes received (code.decode dblrand received)
  unique : ∀ (dblrand : Nat → ℚ) (input : BitVector), code.AdmissibleInput received.length input →
    code.encode input = .ok received →
    (∀ other, code.AdmissibleInput received.length other → code.encode other = .ok received →
      other = input) → code.decode dblrand received = .ok (input, true)

/-! ### Distances -/

theorem distance_self (bits : BitVector) : distance bits bits = 0 := by
  induction bits with
  | nil => rfl
  | cons bit bits ih =>
    rw [distance, List.zip_cons_cons, List.countP_cons, ← distance, ih]
    simp

theorem eq_of_distance_eq_zero {bits : BitVector} : ∀ {other : BitVector},
    bits.length = other.length → distance bits other = 0 → bits = other := by
  induction bits with
  | nil => exact fun length _ => (List.length_eq_zero_iff.mp length.symm).symm
  | cons bit bits ih =>
    intro other length none
    cases other with
    | nil => cases length
    | cons bit' other =>
      rw [distance, List.zip_cons_cons, List.countP_cons, Nat.add_eq_zero_iff] at none
      rw [ih (Nat.succ.inj length) none.1]
      have same := none.2
      cases bit <;> cases bit' <;> simp_all

theorem hammingDistance_append {symbol counts other : BitVector}
    (length : symbol.length = other.length) (length' : counts.length = other.length)
    (symbol' counts' other' : BitVector) :
    hammingDistance (symbol ++ symbol') (counts ++ counts') (other ++ other') =
      hammingDistance symbol counts other + hammingDistance symbol' counts' other' := by
  have both : (symbol.zip other).length = counts.length := by
    rw [List.length_zip, length, length', Nat.min_self]
  rw [hammingDistance, List.zip_append length, List.zip_append both, List.countP_append]
  rfl

/-- Where bits are punctured, nothing counts. -/
theorem hammingDistance_fillPunctured {isPunctured : List Bool} :
    ∀ {received depunctured bits : BitVector},
      fillPunctured isPunctured received = .ok depunctured → bits.length = isPunctured.length →
        hammingDistance depunctured (isPunctured.map (!·)) bits =
          distance (((bits.zip isPunctured).filter (!·.2)).map (·.1)) received := by
  induction isPunctured with
  | nil =>
    intro received depunctured bits filled length
    cases filled
    rw [List.length_eq_zero_iff.mp length]
    rfl
  | cons punctured isPunctured ih =>
    intro received depunctured bits filled length
    cases bits with
    | nil => cases length
    | cons bit bits =>
      cases punctured with
      | true =>
        obtain ⟨later, rest, ⟨⟩⟩ := bind_eq_ok.mp filled
        have same := ih rest (Nat.succ.inj length)
        rw [List.zip_cons_cons, List.filter_cons, if_neg (by simp), ← same]
        simp [hammingDistance]
      | false =>
        cases received with
        | nil => cases filled
        | cons bit' received =>
          obtain ⟨later, rest, ⟨⟩⟩ := bind_eq_ok.mp filled
          have same := ih rest (Nat.succ.inj length)
          rw [List.zip_cons_cons, List.filter_cons, if_pos (by simp), List.map_cons, List.map_cons,
            distance, List.zip_cons_cons, List.countP_cons, ← distance, ← same]
          simp only [hammingDistance, List.zip_cons_cons, Bool.not_false, List.countP_cons]
          cases bit <;> cases bit' <;> rfl

theorem fillPunctured_returns {isPunctured : List Bool} : ∀ {received : BitVector},
    isPunctured.countP (!·) ≤ received.length →
      ∃ depunctured, fillPunctured isPunctured received = .ok depunctured ∧
        depunctured.length = isPunctured.length := by
  induction isPunctured with
  | nil => exact fun _ => ⟨[], rfl, rfl⟩
  | cons punctured isPunctured ih =>
    intro received enough
    rw [List.countP_cons] at enough
    cases punctured with
    | true =>
      obtain ⟨depunctured, filled, length⟩ := ih enough
      exact ⟨false :: depunctured, by rw [fillPunctured, filled]; rfl, congrArg Nat.succ length⟩
    | false =>
      cases received with
      | nil => simp at enough
      | cons bit received =>
        have later : isPunctured.countP (!·) ≤ received.length := by simpa using enough
        obtain ⟨depunctured, filled, length⟩ := ih later
        exact ⟨bit :: depunctured, by rw [fillPunctured, filled]; rfl, congrArg Nat.succ length⟩

/-! ### Costs of paths -/

variable {code}

theorem total_succ (first : BitVector × BitVector) (symbols : List (BitVector × BitVector))
    (path : List Nat) : ∀ (time s : Nat),
    (code.trellis (first :: symbols)).total (time + 1) s path =
      (code.trellis symbols).total time s path := by
  induction path with
  | nil => exact fun _ _ => rfl
  | cons x path ih =>
    intro time s
    rw [Trellis.total, Trellis.total, ih]
    rfl

/-- The cost of a path is the distance of its outputs. -/
theorem total_eq_hammingDistance
    (sized : ∀ s x, (code.outputSymbol s x).length = code.codeRateParamaterN) (path : List Nat) :
    ∀ {bits counts : BitVector} (s : Nat), bits.length = code.codeRateParamaterN * path.length →
      counts.length = code.codeRateParamaterN * path.length →
      (code.trellis ((pieces code.codeRateParamaterN path.length bits).zip
        (pieces code.codeRateParamaterN path.length counts))).total 0 s path =
          hammingDistance bits counts (code.encodeSymbols s path) := by
  induction path with
  | nil =>
    intro bits counts s length _
    rw [List.length_eq_zero_iff.mp length]
    rfl
  | cons x path ih =>
    intro bits counts s length length'
    rw [List.length_cons, Nat.mul_succ] at length length'
    have rest := @ih (bits.drop code.codeRateParamaterN) (counts.drop code.codeRateParamaterN)
      (code.stateTransition s x) (by rw [List.length_drop]; omega)
      (by rw [List.length_drop]; omega)
    rw [List.length_cons, pieces_succ, pieces_succ, List.zip_cons_cons, Trellis.total, total_succ]
    change hammingDistance (bits.take code.codeRateParamaterN)
      (counts.take code.codeRateParamaterN) (code.outputSymbol s x) +
        Trellis.total _ 0 (code.stateTransition s x) path = _
    rw [rest, encodeSymbols, ← hammingDistance_append, List.take_append_drop,
      List.take_append_drop]
    · rw [List.length_take_of_le (by omega), sized]
    · rw [List.length_take_of_le (by omega), sized]

/-! ### Inputs -/

theorem reverseToDecimal_bitsOf {width x : Nat} (small : x < 2 ^ width) :
    BitVector.reverseToDecimal (bitsOf width x) = x := by
  have bound := BitVector.reverseToDecimal_lt (bitsOf width x)
  have same := BitVector.bitsOf_reverseToDecimal (bitsOf width x)
  rw [length_bitsOf] at bound same
  have := bitsOf_inj.mp same
  rwa [Nat.mod_eq_of_lt bound, Nat.mod_eq_of_lt small] at this

/-- The symbols of the bits of symbols. -/
theorem inputSymbols_flatMap {path : List Nat} (positive : 0 < code.codeRateParamaterK)
    (allowed : ∀ x ∈ path, x < code.numberOfInputSymbols) :
    (path.flatMap (bitsOf code.codeRateParamaterK)).length = code.codeRateParamaterK * path.length ∧
      code.inputSymbols (path.flatMap (bitsOf code.codeRateParamaterK)) = path := by
  have length : (path.flatMap (bitsOf code.codeRateParamaterK)).length =
      code.codeRateParamaterK * path.length := by
    rw [List.length_flatMap, List.map_congr_left fun x _ => length_bitsOf _ x, List.map_const',
      List.sum_replicate_nat, Nat.mul_comm]
  refine ⟨length, ?_⟩
  have parts := pieces_flatten (path.map (bitsOf code.codeRateParamaterK)) (by
    intro part member
    obtain ⟨x, _, rfl⟩ := List.mem_map.mp member
    exact length_bitsOf _ x)
  rw [List.length_map, ← List.flatMap_def] at parts
  rw [inputSymbols, length, Nat.mul_div_cancel_left _ positive, parts, List.map_map]
  refine (List.map_congr_left fun x member => ?_).trans (List.map_id _)
  exact reverseToDecimal_bitsOf (allowed x member)

theorem encode_eq {input : BitVector} (multiple : input.length % code.codeRateParamaterK = 0) :
    code.encode input = .ok (code.puncturing (code.encodeSymbols 0 (code.inputSymbols input))) := by
  rw [encode, if_neg (by rw [multiple]; exact fun h => h rfl)]

/-! ### Received bits -/

theorem length_encodeSymbols
    (sized : ∀ s x, (code.outputSymbol s x).length = code.codeRateParamaterN) (path : List Nat) :
    ∀ s, (code.encodeSymbols s path).length = code.codeRateParamaterN * path.length := by
  induction path with
  | nil => exact fun _ => rfl
  | cons x path ih =>
    intro s
    rw [encodeSymbols, List.length_append, sized, ih, List.length_cons, Nat.mul_succ, Nat.add_comm]

/-- What the decoder makes of received bits. -/
structure Depunctured (code : ConvolutionalCode) (received depunctured : BitVector) : Prop where
  returned : code.depuncturing received = .ok depunctured
  length : depunctured.length = code.codeRateParamaterN * code.steps received.length
  count : (code.receivedSymbols depunctured).length = code.steps received.length
  cost : ∀ path : List Nat, path.length = code.steps received.length →
    (code.trellis (code.receivedSymbols depunctured)).total 0 0 path =
      distance (code.puncturing (code.encodeSymbols 0 path)) received

theorem AdmissibleLength.depunctured {received : BitVector}
    (admissible : code.AdmissibleLength received.length)
    (sized : ∀ s x, (code.outputSymbol s x).length = code.codeRateParamaterN)
    (positive : 0 < code.codeRateParamaterN) :
    ∃ depunctured, Depunctured code received depunctured := by
  have size : code.depuncturedLength received.length =
      code.codeRateParamaterN * code.steps received.length := Nat.mul_comm _ _
  obtain ⟨depunctured, filled, length⟩ := fillPunctured_returns admissible.kept.le
  have indices : (code.getPuncturedIndices (code.depuncturedLength received.length)).length =
      code.codeRateParamaterN * code.steps received.length := by
    rw [getPuncturedIndices, List.length_map, List.length_range, size]
  rw [indices] at length
  refine ⟨depunctured, ?_, length, ?_, fun path whole => ?_⟩
  · rw [depuncturing, if_neg (by rw [admissible.whole]; exact fun h => h rfl)]
    exact filled
  · rw [receivedSymbols, List.length_zip, length_pieces, length_pieces, Nat.min_self, length,
      Nat.mul_div_cancel_left _ positive]
  · have outputs := length_encodeSymbols sized path 0
    rw [whole] at outputs
    rw [receivedSymbols, length, Nat.mul_div_cancel_left _ positive, ← whole,
      total_eq_hammingDistance sized path 0 (by rw [length, whole])
        (by rw [List.length_map, getPuncturedIndices, List.length_map, List.length_range]), whole,
      ← size, hammingDistance_fillPunctured filled (by rw [outputs, indices]), puncturing,
      outputs, size]

theorem AdmissibleLength.length_puncturing {length : Nat} (admissible : code.AdmissibleLength length)
    (sized : ∀ s x, (code.outputSymbol s x).length = code.codeRateParamaterN) {path : List Nat}
    (whole : path.length = code.steps length) :
    (code.puncturing (code.encodeSymbols 0 path)).length = length := by
  have outputs := length_encodeSymbols sized path 0
  have size : code.depuncturedLength length = code.codeRateParamaterN * path.length := by
    rw [whole]
    exact Nat.mul_comm _ _
  rw [puncturing, length_kept, outputs, ← size, List.countP_map]
  · exact admissible.kept
  · rw [getPuncturedIndices, List.length_map, List.length_range]

/-! ### The best path -/

/-- A path that the mode allows. -/
structure Path (code : ConvolutionalCode) (count : Nat) (path : List Nat) : Prop where
  length : path.length = count
  allowed : ∀ x ∈ path, x < code.numberOfInputSymbols
  ends : code.mode = .terminated → path.foldl code.stateTransition 0 = 0

/-- The path to the best node is the cheapest one, or there is no path. -/
def FindsBest (code : ConvolutionalCode) (symbols : List (BitVector × BitVector)) (time : Nat)
    (columns : List Column) (bestNode : TrellisGraphNode) : Prop :=
  ((code.mode = .terminated ∧ bestNode.symbol = none) ∧ ∀ path, ¬Path code time path) ∨
    (¬(code.mode = .terminated ∧ bestNode.symbol = none) ∧
      ∃ best, Path code time best ∧
        (traversePath columns bestNode.depth bestNode).reverse = best ∧
        ∀ path, Path code time path →
          (code.trellis symbols).total 0 0 best ≤ (code.trellis symbols).total 0 0 path)

/-- A node that has been reached is the end of the cheapest path to its state. -/
theorem Tracks.path {symbols : List (BitVector × BitVector)} {time : Nat} {column : Column}
    {columns : List Column} (tracks : code.Tracks symbols time column columns) {s : Nat}
    (reached : code.Reached time s (column s)) :
    ∃ best, (traversePath columns (column s).depth (column s)).reverse = best ∧
      best.length = time ∧ (∀ x ∈ best, x < code.numberOfInputSymbols) ∧
      best.foldl code.stateTransition 0 = s ∧
      (code.trellis symbols).total 0 0 best = (column s).comulativeHammingDistance.getD 0 := by
  have found : ConvolutionalCode.survivors columns column s =
      some ((column s).comulativeHammingDistance.getD 0,
        (traversePath columns (column s).depth (column s)).reverse) := by
    rw [ConvolutionalCode.survivors, if_neg (by rw [reached.state]; rintro ⟨⟩)]
  obtain ⟨length, walk, total, allowed⟩ := tracks.survivors.sound s _ _ found
  exact ⟨_, rfl, length, allowed, walk, total⟩

/-- The node at the end of a path has been reached, and the path is not cheaper. -/
theorem Tracks.node {symbols : List (BitVector × BitVector)} {time : Nat} {column : Column}
    {columns : List Column} (tracks : code.Tracks symbols time column columns) {path : List Nat}
    (length : path.length = time) (allowed : ∀ x ∈ path, x < code.numberOfInputSymbols) :
    code.Reached time (path.foldl code.stateTransition 0)
        (column (path.foldl code.stateTransition 0)) ∧
      (column (path.foldl code.stateTransition 0)).comulativeHammingDistance.getD 0 ≤
        (code.trellis symbols).total 0 0 path := by
  obtain ⟨cost, best, found, le⟩ := tracks.survivors.least path length allowed
  change ConvolutionalCode.survivors columns column (path.foldl code.stateTransition 0) = _ at found
  unfold ConvolutionalCode.survivors at found
  split at found
  · cases found
  · next reached =>
    rcases tracks.nodes (path.foldl code.stateTransition 0) with fresh | reached'
    · rw [fresh] at reached
      exact absurd rfl reached
    · cases found
      exact ⟨reached', le⟩

theorem Tracks.terminated {symbols : List (BitVector × BitVector)} {time : Nat} {column : Column}
    {columns : List Column} (tracks : code.Tracks symbols time column columns) (later : 0 < time)
    (terminated : code.mode = .terminated) :
    FindsBest code symbols time columns (code.bestNode column) := by
  have best : code.bestNode column = column 0 := by rw [bestNode, terminated]
  rw [best]
  rcases tracks.nodes 0 with fresh | reached
  · rw [fresh]
    refine .inl ⟨⟨terminated, rfl⟩, fun path inside => ?_⟩
    have node := (tracks.node inside.length inside.allowed).1
    rw [inside.ends terminated, fresh] at node
    cases node.state
  · obtain ⟨best, traversed, length, allowed, walk, total⟩ := tracks.path reached
    refine .inr ⟨fun both => reached.symbol later both.2, best, ⟨length, allowed, fun _ => walk⟩,
      traversed, fun path inside => ?_⟩
    have least := (tracks.node inside.length inside.allowed).2
    rw [inside.ends terminated, ← total] at least
    exact least

theorem Tracks.truncated {symbols : List (BitVector × BitVector)} {time : Nat} {column : Column}
    {columns : List Column} (tracks : code.Tracks symbols time column columns) (later : 0 < time)
    (truncated : code.mode = .truncated) :
    FindsBest code symbols time columns (code.bestNode column) := by
  obtain ⟨⟨s, best⟩, least⟩ := bestNode_truncated truncated column
  have other : ¬(code.mode = .terminated ∧ (code.bestNode column).symbol = none) := by
    rw [truncated]
    exact fun both => nomatch both.1
  -- a path of the first input shows that some node has been reached
  have nearest : ∀ path : List Nat, path.length = time →
      (∀ x ∈ path, x < code.numberOfInputSymbols) →
      ∃ distance, (column s).comulativeHammingDistance = some distance ∧
        distance ≤ (code.trellis symbols).total 0 0 path := by
    intro path length allowed
    obtain ⟨reached, le⟩ := tracks.node length allowed
    cases known : (column (path.foldl code.stateTransition 0)).comulativeHammingDistance with
    | none => exact absurd known (reached.distance later)
    | some distance =>
      rw [known] at le
      obtain ⟨distance', found, le'⟩ :=
        least _ reached.inside (reached.symbol later) distance known
      rw [best] at found
      exact ⟨distance', found, le'.trans le⟩
  rcases tracks.nodes s with fresh | reached
  · obtain ⟨distance, found, _⟩ := nearest (List.replicate time 0) List.length_replicate
      fun x member => (List.eq_of_mem_replicate member) ▸ Nat.two_pow_pos _
    rw [fresh] at found
    cases found
  · rw [best] at other ⊢
    obtain ⟨path, traversed, length, allowed, _, total⟩ := tracks.path reached
    refine .inr ⟨other, path, ⟨length, allowed, fun terminated => ?_⟩, traversed,
      fun path' inside => ?_⟩
    · rw [truncated] at terminated
      cases terminated
    · obtain ⟨distance, found, le⟩ := nearest path' inside.length inside.allowed
      rw [total, found]
      exact le

/-- Without symbols, the path is empty, whatever the node is. -/
theorem Tracks.empty {symbols : List (BitVector × BitVector)} {column : Column}
    {columns : List Column} (tracks : code.Tracks symbols 0 column columns)
    (truncated : code.mode = .truncated) :
    FindsBest code symbols 0 columns (code.bestNode column) := by
  obtain ⟨⟨s, best⟩, _⟩ := bestNode_truncated truncated column
  have depth : (column s).depth = 0 := by
    rcases tracks.nodes s with fresh | reached
    · rw [fresh]
    · exact reached.depth
  rw [best]
  refine .inr ⟨fun both => ?_, [], ⟨rfl, nofun, fun _ => rfl⟩, ?_, fun path inside => ?_⟩
  · rw [truncated] at both
    cases both.1
  · rw [depth, traversePath]
    rfl
  · rw [List.length_eq_zero_iff.mp inside.length]

/-! ### Decoding -/

theorem AdmissibleInput.path {length : Nat} {input : BitVector}
    (admissible : code.AdmissibleInput length input) (positive : 0 < code.codeRateParamaterK) :
    Path code (code.steps length) (code.inputSymbols input) where
  length := by
    rw [inputSymbols, List.length_map, length_pieces, admissible.length,
      Nat.mul_div_cancel_left _ positive]
  allowed := inputSymbols_lt input (by rw [admissible.length, Nat.mul_mod_right])
  ends := admissible.ends

theorem Path.input {length : Nat} {path : List Nat} (inside : Path code (code.steps length) path)
    (positive : 0 < code.codeRateParamaterK) :
    code.AdmissibleInput length (path.flatMap (bitsOf code.codeRateParamaterK)) ∧
      code.inputSymbols (path.flatMap (bitsOf code.codeRateParamaterK)) = path := by
  obtain ⟨bits, symbols⟩ := inputSymbols_flatMap positive inside.allowed
  refine ⟨⟨by rw [bits, inside.length], fun terminated => ?_⟩, symbols⟩
  rw [finalState, symbols]
  exact inside.ends terminated

/-- What the search in the trellis is for. -/
theorem Depunctured.decodes {received depunctured : BitVector}
    (made : Depunctured code received depunctured) (accepted : code.Accepted)
    (admissible : code.AdmissibleLength received.length) {dblrand : Nat → ℚ} {column : Column}
    {columns : List Column} (graph : code.trellisGraph dblrand 0 [firstColumn]
      (code.receivedSymbols depunctured) = column :: columns)
    (finds : FindsBest code (code.receivedSymbols depunctured) (code.steps received.length) columns
      (code.bestNode column)) : code.Decodes received (code.decode dblrand received) := by
  have positive := accepted.input_pos
  unfold Decodes
  rw [decode, made.returned, ok_bind, if_neg (by
    rw [made.length, Nat.mul_mod_right]
    exact fun h => h rfl)]
  dsimp only
  rw [graph, List.headD_cons, List.tail_cons]
  rcases finds with ⟨none, noPath⟩ | ⟨found, best, inside, traversed, least⟩
  · rw [if_pos none]
    refine ⟨[], false, rfl, ⟨fun valid => (by cases valid), ?_⟩, fun valid => by cases valid⟩
    rintro ⟨input, other⟩
    exact absurd (other.path positive) (noPath _)
  · rw [if_neg found, traversed]
    obtain ⟨own, symbols⟩ := inside.input positive
    have whole : (best.flatMap (bitsOf code.codeRateParamaterK)).length %
        code.codeRateParamaterK = 0 := by rw [own.length, Nat.mul_mod_right]
    refine ⟨_, true, rfl, ⟨fun _ => ⟨_, own⟩, fun _ => rfl⟩, fun _ => ⟨own, _, encode_eq whole, ?_,
      fun input encoded other returned => ?_⟩⟩
    · rw [symbols]
      exact admissible.length_puncturing accepted.length_outputSymbol inside.length
    · have whole' : input.length % code.codeRateParamaterK = 0 := by
        rw [other.length, Nat.mul_mod_right]
      rw [encode_eq whole'] at returned
      cases returned
      have path := other.path positive
      rw [symbols, ← made.cost _ inside.length, ← made.cost _ path.length]
      exact least _ path

/-- The only input with the received encoding is the one that is decoded. -/
theorem unique_of_decodes {received : BitVector} {result : Except String (BitVector × Bool)}
    (decodes : code.Decodes received result) {input : BitVector} (admissible : code.AdmissibleInput received.length input)
    (encoded : code.encode input = .ok received)
    (only : ∀ other, code.AdmissibleInput received.length other →
      code.encode other = .ok received → other = input) : result = .ok (input, true) := by
  obtain ⟨bits, success, returned, succeeds, best⟩ := decodes
  have found := succeeds.mpr ⟨input, admissible⟩
  obtain ⟨inside, own, returned', length, least⟩ := best found
  have near := least input received admissible encoded
  rw [distance_self, Nat.le_zero] at near
  rw [eq_of_distance_eq_zero length near] at returned'
  rw [returned, found, only bits inside returned']

theorem walk_lt (states : ∀ s x, code.stateTransition s x < code.numberOfStates) (path : List Nat) :
    ∀ s < code.numberOfStates, path.foldl code.stateTransition s < code.numberOfStates := by
  induction path with
  | nil => exact fun _ inside => inside
  | cons x path ih => exact fun s _ => ih _ (states s x)

theorem steps_pos {received : BitVector} (admissible : code.AdmissibleLength received.length)
    (some : received ≠ []) : 0 < code.steps received.length := by
  by_contra none
  rw [Nat.not_lt, Nat.le_zero] at none
  have kept := admissible.kept
  rw [show code.depuncturedLength received.length = 0 by
    rw [depuncturedLength]
    exact (congrArg (· * code.codeRateParamaterN) none).trans (Nat.zero_mul _)] at kept
  exact some (List.length_eq_zero_iff.mp kept.symm)

/-- The columns at the end of the search. -/
theorem Depunctured.graph {received depunctured : BitVector}
    (made : Depunctured code received depunctured)
    (tables : 0 < code.steps received.length → code.Tables) (dblrand : Nat → ℚ) :
    ∃ column columns, code.trellisGraph dblrand 0 [firstColumn] (code.receivedSymbols depunctured) =
      column :: columns ∧ code.Tracks (code.receivedSymbols depunctured)
        (code.steps received.length) column columns := by
  rw [← made.count]
  cases symbols : code.receivedSymbols depunctured with
  | nil => exact ⟨firstColumn, [], rfl, .initial []⟩
  | cons first rest =>
    have later : 0 < code.steps received.length := by
      rw [← made.count, symbols]
      exact Nat.zero_lt_succ _
    have start : code.Tracks (first :: rest) ([] : List (BitVector × BitVector)).length firstColumn
        [] := .initial _
    exact start.all (tables later) dblrand (first :: rest) 0 rfl

/-- Nothing is received, but the path that is empty ends in the first state. -/
theorem not_likelihood_nil {depunctured : BitVector}
    (made : Depunctured code [] depunctured) (terminated : code.mode = .terminated) :
    ¬code.MaximumLikelihood [] := by
  intro likelihood
  have none : code.steps ([] : BitVector).length = 0 := by
    rw [steps, List.length_nil, Nat.zero_div, Nat.zero_mul, Nat.zero_div]
  have symbols : code.receivedSymbols depunctured = [] :=
    List.length_eq_zero_iff.mp (made.count.trans none)
  have result : code.decode (fun _ => 0) [] = .ok ([], false) := by
    rw [decode, made.returned, ok_bind, if_neg (by
      rw [made.length, Nat.mul_mod_right]
      exact fun h => h rfl)]
    dsimp only
    rw [symbols, trellisGraph, List.headD_cons, bestNode, terminated]
    rfl
  have input : code.AdmissibleInput ([] : BitVector).length [] := by
    refine ⟨by rw [none]; rfl, fun _ => ?_⟩
    rw [finalState, inputSymbols, List.length_nil, Nat.zero_div]
    rfl
  obtain ⟨bits, success, returned, succeeds, _⟩ := likelihood.decodes fun _ => 0
  rw [succeeds.mpr ⟨[], input⟩, result] at returned
  cases returned

/-- The decoder finds the best input, unless nothing is received in terminated mode, or bits are
received and the first input has no memory. -/
theorem maximumLikelihood_iff (accepted : code.Accepted) (distinguishes : code.Distinguishes)
    {received : BitVector} (admissible : code.AdmissibleLength received.length) :
    code.MaximumLikelihood received ↔
      (received = [] → code.mode = .truncated) ∧
        (received ≠ [] → 2 ≤ code.constraintLengthVector.headD 0) := by
  have sized := accepted.length_outputSymbol
  have positive := accepted.output_pos distinguishes fun s _ x _ => sized s x
  obtain ⟨depunctured, made⟩ := admissible.depunctured sized positive
  have memory : code.memorySizes.headD 0 = code.constraintLengthVector.headD 0 - 1 := by
    rw [memorySizes]
    cases code.constraintLengthVector <;> rfl
  constructor
  · intro likelihood
    refine ⟨fun none => ?_, fun some => ?_⟩
    · subst none
      cases mode : code.mode with
      | truncated => rfl
      | terminated => exact absurd likelihood (not_likelihood_nil made mode)
    · by_contra short
      obtain ⟨x, input, outside⟩ := accepted.exists_state_ge (by rw [memory]; omega)
      have inside := likelihood.states [x] (steps_pos admissible some) fun y member =>
        (List.mem_singleton.mp member) ▸ input
      exact absurd inside (Nat.not_lt.mpr outside)
  · rintro ⟨truncated, remembers⟩
    have some_of_steps : 0 < code.steps received.length → received ≠ [] := by
      rintro later rfl
      rw [steps, List.length_nil, Nat.zero_div, Nat.zero_mul, Nat.zero_div] at later
      exact Nat.lt_irrefl 0 later
    have states : 0 < code.steps received.length →
        ∀ s x, code.stateTransition s x < code.numberOfStates := fun later =>
      accepted.stateTransition_lt (by
        have := remembers (some_of_steps later)
        rw [memory]
        omega)
    have decodes : ∀ dblrand, code.Decodes received (code.decode dblrand received) := by
      intro dblrand
      obtain ⟨column, columns, graph, tracks⟩ := made.graph (fun later =>
        ⟨fun s _ x _ => states later s x, fun s _ x _ => sized s x, distinguishes⟩) dblrand
      refine made.decodes accepted admissible graph ?_
      rcases Nat.eq_zero_or_pos (code.steps received.length) with start | later
      · rw [start] at tracks ⊢
        refine tracks.empty (truncated ?_)
        by_contra some
        exact absurd (steps_pos admissible some) (by omega)
      · cases mode : code.mode with
        | truncated => exact tracks.truncated later mode
        | terminated => exact tracks.terminated later mode
    refine ⟨fun path short _ => ?_, decodes, fun dblrand input inside encoded only =>
      unique_of_decodes (decodes dblrand) inside encoded only⟩
    cases path with
    | nil => exact Nat.two_pow_pos _
    | cons x path => exact walk_lt (states (Nat.zero_lt_of_lt short)) _ 0 (Nat.two_pow_pos _)

/-- A code with one shift register, whose outputs are the input and its sum with the bit before. -/
def twoTaps (mode : Mode) : ConvolutionalCode where
  transferFunctionMatrix := [[2, 3]]
  puncturingMatrix := [[true], [true]]
  constraintLengthVector := [2]
  codeRatePuncturingK := 1
  codeRatePuncturingN := 2
  mode := mode

theorem twoTaps_accepted (mode : Mode) : (twoTaps mode).Accepted := by
  cases mode <;> exact ⟨by decide, by decide⟩

theorem twoTaps_distinguishes (mode : Mode) : (twoTaps mode).Distinguishes := by
  cases mode <;> unfold Distinguishes <;> decide

theorem maximumLikelihood_iff_twoTaps :
    (twoTaps .terminated).MaximumLikelihood [true, true, false, false] :=
  (maximumLikelihood_iff (twoTaps_accepted .terminated) (twoTaps_distinguishes .terminated)
    ⟨by decide, by decide, by decide⟩).mpr ⟨nofun, fun _ => by decide⟩

/-- The empty input of a terminated code is not decoded. -/
theorem terminated_nothing_undecoded :
    ¬∀ (code : ConvolutionalCode) (received : BitVector), code.Accepted → code.Distinguishes →
      code.AdmissibleLength received.length → code.MaximumLikelihood received := by
  intro always
  have admissible : (twoTaps .terminated).AdmissibleLength ([] : BitVector).length :=
    ⟨by decide, by decide, by decide⟩
  have accepted := twoTaps_accepted .terminated
  have distinguishes := twoTaps_distinguishes .terminated
  have sized := accepted.length_outputSymbol
  obtain ⟨depunctured, made⟩ := admissible.depunctured sized
    (accepted.output_pos distinguishes fun s _ x _ => sized s x)
  exact not_likelihood_nil made rfl
    (always (twoTaps .terminated) [] accepted distinguishes admissible)

end Inet.BitLevel.ConvolutionalCode
