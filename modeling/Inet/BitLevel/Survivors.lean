import Inet.BitLevel.ConvolutionalCoder
import Inet.Lib.Trellis

/-!
# Survivors

The trellis graph of the decoder has a cheapest path to each state, whichever way ties are broken.
-/
namespace Inet.BitLevel

open Lib

variable {offers : List (Nat × TrellisGraphNode)} {column : Column} {distance newState : Nat}
  {node : TrellisGraphNode}

/-! ### Distances -/

/-- The bits that count. -/
def mask (counts bits : BitVector) : BitVector := counts.zipWith (· && ·) bits

theorem mask_mask (counts bits : BitVector) : mask counts (mask counts bits) = mask counts bits := by
  induction counts generalizing bits with
  | nil => rfl
  | cons count counts ih =>
    cases bits with
    | nil => rfl
    | cons bit bits =>
      simp only [mask, List.zipWith_cons_cons]
      rw [← Bool.and_assoc, Bool.and_self]
      exact congrArg _ (ih bits)

namespace ConvolutionalCode

/-- Symbols are at no distance if and only if the bits that count are the same. -/
theorem hammingDistance_eq_zero {counts : BitVector} : ∀ {symbol other : BitVector},
    symbol.length = counts.length → other.length = counts.length →
      (hammingDistance symbol counts other = 0 ↔ mask counts symbol = mask counts other) := by
  induction counts with
  | nil =>
    intro symbol other length length'
    rw [List.length_eq_zero_iff.mp length, List.length_eq_zero_iff.mp length']
    exact ⟨fun _ => rfl, fun _ => rfl⟩
  | cons count counts ih =>
    intro symbol other length length'
    cases symbol with
    | nil => cases length
    | cons bit symbol =>
      cases other with
      | nil => cases length'
      | cons bit' other =>
        have rest := ih (Nat.succ.inj length) (Nat.succ.inj length')
        simp only [hammingDistance, List.zip_cons_cons, List.countP_cons, Nat.add_eq_zero_iff,
          mask, List.zipWith_cons_cons, List.cons.injEq] at rest ⊢
        rw [rest, and_comm]
        refine and_congr_left' ?_
        cases count <;> cases bit <;> cases bit' <;> decide

theorem less_some {other : Option Nat} :
    less (some distance) other = false ↔ ∃ distance', other = some distance' ∧
      distance' ≤ distance := by
  cases other with
  | none => simp [less]
  | some distance' => simp [less]

/-! ### Selection -/

/-- Nodes of a column are either initial or among those that have been offered, and have the least
distance of these. -/
structure Selected (offers : List (Nat × TrellisGraphNode)) (column : Column) : Prop where
  chosen : ∀ s, column s = {} ∨ (s, column s) ∈ offers
  least : ∀ s node distance, (s, node) ∈ offers → node.comulativeHammingDistance = some distance →
    ∃ distance', (column s).comulativeHammingDistance = some distance' ∧ distance' ≤ distance

theorem Selected.keep (selected : Selected offers column)
    (better : ∀ distance, node.comulativeHammingDistance = some distance →
      ∃ distance', (column newState).comulativeHammingDistance = some distance' ∧
        distance' ≤ distance) :
    Selected (offers ++ [(newState, node)]) column := by
  refine ⟨fun s => (selected.chosen s).imp_right (List.mem_append_left _),
    fun s other distance member found => ?_⟩
  rcases List.mem_append.mp member with old | new
  · exact selected.least s other distance old found
  · cases List.mem_singleton.mp new
    exact better distance found

theorem Selected.replace
    (selected : Selected offers column) (same : node.comulativeHammingDistance = some distance)
    (better : ∀ distance', (column newState).comulativeHammingDistance = some distance' →
      distance ≤ distance') :
    Selected (offers ++ [(newState, node)]) (Function.update column newState node) := by
  constructor
  · intro s
    by_cases here : s = newState
    · subst here
      rw [Function.update_self]
      exact .inr (List.mem_append_right _ (List.mem_singleton_self _))
    · rw [Function.update_of_ne here]
      exact (selected.chosen s).imp_right (List.mem_append_left _)
  · intro s other distance' member found
    by_cases here : s = newState
    · subst here
      rw [Function.update_self]
      refine ⟨distance, same, ?_⟩
      rcases List.mem_append.mp member with old | new
      · obtain ⟨least, found', le⟩ := selected.least s other distance' old found
        exact (better least found').trans le
      · cases List.mem_singleton.mp new
        exact (Option.some.inj (same.symm.trans found)).le
    · rw [Function.update_of_ne here]
      rcases List.mem_append.mp member with old | new
      · exact selected.least s other distance' old found
      · cases List.mem_singleton.mp new
        exact absurd rfl here

theorem Selected.offer {selection : Selection}
    (selected : Selected offers selection.column) (dblrand : Nat → ℚ) 
    (same : node.comulativeHammingDistance = some distance) :
    Selected (offers ++ [(newState, node)]) (selection.offer dblrand newState node).column := by
  unfold Selection.offer
  dsimp only
  split
  next tie =>
    dsimp only
    split
    · refine selected.replace same fun distance' found => ?_
      exact (Option.some.inj (same.symm.trans (tie.trans found))).le
    · exact selected.keep fun distance' found => ⟨distance', tie.symm.trans found, le_rfl⟩
  next =>
    split
    next smaller =>
      refine selected.replace same fun distance' found => ?_
      rw [same, found] at smaller
      exact (of_decide_eq_true smaller).le
    next larger =>
      refine selected.keep fun distance' found => ?_
      cases same.symm.trans found
      rw [same, Bool.not_eq_true] at larger
      exact less_some.mp larger

variable (code : ConvolutionalCode)

/-- The node that is offered in one round. -/
def offered (column : Column) (symbol counts : BitVector) (edge : Nat × Nat) :
    Option (Nat × TrellisGraphNode) :=
  if (column edge.1).state = none then none
  else (code.inputSymbol edge.1 edge.2).map fun input =>
    (code.stateTransition edge.1 input,
      candidate (column edge.1) edge.1 (code.stateTransition edge.1 input) input
        (hammingDistance symbol counts (bitsOf code.codeRateParamaterN edge.2)))

theorem Selected.consider {selection : Selection}
    (selected : Selected offers selection.column) (dblrand : Nat → ℚ) (column : Column)
    (symbol counts : BitVector) (edge : Nat × Nat) :
    Selected (offers ++ (code.offered column symbol counts edge).toList)
      (code.consider dblrand column symbol counts selection edge).column := by
  unfold ConvolutionalCode.consider offered
  split
  next => rwa [Option.toList_none, List.append_nil]
  next =>
    cases code.inputSymbol edge.1 edge.2 with
    | none => rwa [Option.map_none, Option.toList_none, List.append_nil]
    | some input => exact selected.offer dblrand rfl

theorem Selected.all (dblrand : Nat → ℚ) (column : Column) (symbol counts : BitVector)
    (edges : List (Nat × Nat)) : ∀ {offers : List (Nat × TrellisGraphNode)}
    {selection : Selection}, Selected offers selection.column →
      Selected (offers ++ edges.filterMap (code.offered column symbol counts))
        (edges.foldl (code.consider dblrand column symbol counts) selection).column := by
  induction edges with
  | nil =>
    intro offers selection selected
    rwa [List.filterMap_nil, List.append_nil]
  | cons edge edges ih =>
    intro offers selection selected
    have later := ih (selected.consider code dblrand column symbol counts edge)
    rw [List.append_assoc] at later
    rw [List.filterMap_cons, List.foldl_cons]
    cases first : code.offered column symbol counts edge with
    | none =>
      rw [first] at later
      exact later
    | some offer =>
      rw [first] at later
      exact later

/-- Each state and output symbol is considered once. -/
theorem updateTrellisGraph_selected (dblrand : Nat → ℚ) (draws : Nat) (column : Column)
    (symbol counts : BitVector) :
    Selected (((List.range code.numberOfStates) ×ˢ (List.range code.numberOfOutputSymbols)).filterMap
        (code.offered column symbol counts))
      (code.updateTrellisGraph dblrand draws column symbol counts).column := by
  have start : Selected [] ({ draws } : Selection).column :=
    ⟨fun _ => .inl rfl, fun _ _ _ => nofun⟩
  exact start.all code dblrand column symbol counts _

/-! ### Columns -/

/-- What the proofs need of the tables. -/
structure Tables : Prop where
  state : ∀ s < code.numberOfStates, ∀ x < code.numberOfInputSymbols,
    code.stateTransition s x < code.numberOfStates
  length : ∀ s < code.numberOfStates, ∀ x < code.numberOfInputSymbols,
    (code.outputSymbol s x).length = code.codeRateParamaterN
  input : ∀ s < code.numberOfStates, ∀ x < code.numberOfInputSymbols,
    ∀ y < code.numberOfInputSymbols, code.outputSymbol s x = code.outputSymbol s y → x = y

/-- The trellis of received symbols. -/
def trellis (symbols : List (BitVector × BitVector)) : Trellis Nat Nat where
  next := code.stateTransition
  cost time s x := hammingDistance (symbols.getD time ([], [])).1 (symbols.getD time ([], [])).2
    (code.outputSymbol s x)
  allowed x := x < code.numberOfInputSymbols

/-- The distances and paths of a column. -/
def survivors (columns : List Column) (column : Column) (s : Nat) : Option (Nat × List Nat) :=
  if (column s).state = none then none
  else some ((column s).comulativeHammingDistance.getD 0,
    (traversePath columns (column s).depth (column s)).reverse)

/-- A node that has been reached, and one that has not. -/
structure Reached (time s : Nat) (node : TrellisGraphNode) : Prop where
  state : node.state = some s
  inside : s < code.numberOfStates
  depth : node.depth = time
  distance : 0 < time → node.comulativeHammingDistance ≠ none
  symbol : 0 < time → node.symbol ≠ none

/-- The columns after a time. -/
structure Tracks (symbols : List (BitVector × BitVector)) (time : Nat) (column : Column)
    (columns : List Column) : Prop where
  nodes : ∀ s, column s = {} ∨ code.Reached time s (column s)
  survivors : (code.trellis symbols).Survivors 0 time (survivors columns column)

variable {code}

theorem Tables.inputSymbol_eq (tables : code.Tables) {s x : Nat} (state : s < code.numberOfStates)
    (input : x < code.numberOfInputSymbols) :
    code.inputSymbol s (code.outputSymbol s x).reverseToDecimal = some x := by
  unfold inputSymbol
  cases found : (List.range code.numberOfInputSymbols).reverse.find? fun inputSymbol =>
      decide ((code.outputSymbol s inputSymbol).reverseToDecimal =
        (code.outputSymbol s x).reverseToDecimal) with
  | none =>
    have different := List.find?_eq_none.mp found x
      (List.mem_reverse.mpr (List.mem_range.mpr input))
    exact absurd (decide_eq_true rfl) different
  | some y =>
    have small := List.mem_range.mp (List.mem_reverse.mp (List.mem_of_find?_eq_some found))
    have same : (code.outputSymbol s y).reverseToDecimal =
        (code.outputSymbol s x).reverseToDecimal := by simpa using List.find?_some found
    have outputs : code.outputSymbol s y = code.outputSymbol s x := by
      rw [← BitVector.bitsOf_reverseToDecimal (code.outputSymbol s y), same,
        tables.length s state y small, ← tables.length s state x input,
        BitVector.bitsOf_reverseToDecimal]
    rw [tables.input s state y small x input outputs]

theorem Tables.output_of_inputSymbol (tables : code.Tables) {s x output : Nat}
    (state : s < code.numberOfStates) (found : code.inputSymbol s output = some x) :
    x < code.numberOfInputSymbols ∧
      bitsOf code.codeRateParamaterN output = code.outputSymbol s x := by
  unfold inputSymbol at found
  have input := List.mem_range.mp (List.mem_reverse.mp (List.mem_of_find?_eq_some found))
  have same : (code.outputSymbol s x).reverseToDecimal = output := by
    simpa using List.find?_some found
  refine ⟨input, ?_⟩
  rw [← same, ← tables.length s state x input, BitVector.bitsOf_reverseToDecimal]

theorem Tracks.initial (symbols : List (BitVector × BitVector)) :
    code.Tracks symbols 0 firstColumn [] := by
  have here : firstColumn 0 = { state := some 0 } := Function.update_self ..
  have others : ∀ s, s ≠ 0 → firstColumn s = {} := fun s different =>
    Function.update_of_ne different ..
  constructor
  · intro s
    by_cases start : s = 0
    · subst start
      rw [here]
      exact .inr ⟨rfl, Nat.two_pow_pos _, rfl, fun less => absurd less (Nat.lt_irrefl 0),
        fun less => absurd less (Nat.lt_irrefl 0)⟩
    · exact .inl (others s start)
  · refine .initial ?_ fun s different => ?_
    · rw [ConvolutionalCode.survivors, here]
      rfl
    · rw [ConvolutionalCode.survivors, others s different]
      rfl

/-- The nodes that are offered to a column are the candidates for its survivors. -/
theorem Tracks.step (tables : code.Tables) {symbols : List (BitVector × BitVector)} {time : Nat}
    {columns : List Column} (tracks : code.Tracks symbols time column columns)
    {symbol counts : BitVector} (received : symbols[time]? = some (symbol, counts))
    (dblrand : Nat → ℚ) (draws : Nat) :
    code.Tracks symbols (time + 1)
      (code.updateTrellisGraph dblrand draws column symbol counts).column (column :: columns) := by
  have selected := code.updateTrellisGraph_selected dblrand draws column symbol counts
  generalize (code.updateTrellisGraph dblrand draws column symbol counts).column = next at selected
  have here : symbols.getD time ([], []) = (symbol, counts) := by
    rw [List.getD_eq_getElem?_getD, received]
    rfl
  have cost (s x : Nat) : (code.trellis symbols).cost time s x =
      hammingDistance symbol counts (code.outputSymbol s x) := by
    simp only [trellis, here]
  have source : ∀ {s node}, (s, node) ∈ ((List.range code.numberOfStates) ×ˢ
      (List.range code.numberOfOutputSymbols)).filterMap (code.offered column symbol counts) →
      ∃ prevState x, code.Reached time prevState (column prevState) ∧
        x < code.numberOfInputSymbols ∧ s = code.stateTransition prevState x ∧
        node = candidate (column prevState) prevState s x
          (hammingDistance symbol counts (code.outputSymbol prevState x)) := by
    intro s node member
    obtain ⟨⟨prevState, output⟩, edge, offer⟩ := List.mem_filterMap.mp member
    obtain ⟨state, small⟩ := List.pair_mem_product.mp edge
    rw [List.mem_range] at state small
    unfold offered at offer
    split at offer
    next => cases offer
    next reached =>
      obtain ⟨x, found, same⟩ := Option.map_eq_some_iff.mp offer
      cases same
      obtain ⟨input, outputs⟩ := tables.output_of_inputSymbol state found
      rcases tracks.nodes prevState with fresh | reached'
      · exact absurd (by rw [fresh]) reached
      · exact ⟨prevState, x, reached', input, rfl, by rw [outputs]⟩
  constructor
  · intro s
    rcases selected.chosen s with fresh | offer
    · exact .inl fresh
    · obtain ⟨prevState, x, reached, input, same, node⟩ := source offer
      rw [node]
      exact .inr ⟨rfl, same ▸ tables.state prevState reached.inside x input,
        congrArg Nat.succ reached.depth, fun _ => nofun, fun _ => nofun⟩
  · refine tracks.survivors.step ⟨fun s cost path found => ?_, fun s cost path x found input => ?_⟩
    · unfold ConvolutionalCode.survivors at found
      split at found
      next => cases found
      next reached =>
        cases found
        rcases selected.chosen s with fresh | offer
        · exact absurd (by rw [fresh]) reached
        · obtain ⟨prevState, x, reached, input, same, node⟩ := source offer
          refine ⟨prevState, (column prevState).comulativeHammingDistance.getD 0,
            (traversePath columns (column prevState).depth (column prevState)).reverse, x, ?_,
            input, same.symm, ?_, ?_⟩
          · rw [ConvolutionalCode.survivors, if_neg (by rw [reached.state]; nofun)]
          · rw [node, cost]
            exact Nat.add_comm _ _
          · rw [node]
            exact List.reverse_cons
    · unfold ConvolutionalCode.survivors at found
      split at found
      next => cases found
      next reached =>
        cases found
        rcases tracks.nodes s with fresh | reached'
        · exact absurd (by rw [fresh]) reached
        · have state := reached'.inside
          have offer : (code.stateTransition s x, candidate (column s) s (code.stateTransition s x) x
              (hammingDistance symbol counts (code.outputSymbol s x))) ∈
              ((List.range code.numberOfStates) ×ˢ
                (List.range code.numberOfOutputSymbols)).filterMap
                (code.offered column symbol counts) := by
            refine List.mem_filterMap.mpr ⟨(s, (code.outputSymbol s x).reverseToDecimal),
              List.pair_mem_product.mpr ⟨List.mem_range.mpr state, List.mem_range.mpr ?_⟩, ?_⟩
            · rw [numberOfOutputSymbols, ← tables.length s state x input]
              exact BitVector.reverseToDecimal_lt _
            · rw [offered, if_neg reached, tables.inputSymbol_eq state input,
                ← tables.length s state x input, BitVector.bitsOf_reverseToDecimal]
              rfl
          obtain ⟨distance, least, le⟩ := selected.least _ _ _ offer rfl
          have exists' : (next (code.stateTransition s x)).state ≠ none := by
            rcases selected.chosen (code.stateTransition s x) with fresh | offer'
            · rw [fresh] at least
              cases least
            · obtain ⟨_, _, _, _, _, node⟩ := source offer'
              rw [node]
              nofun
          refine ⟨distance, (traversePath (column :: columns)
            (next (code.stateTransition s x)).depth (next (code.stateTransition s x))).reverse,
            ?_, ?_⟩
          · change ConvolutionalCode.survivors _ _ (code.stateTransition s x) = _
            rw [ConvolutionalCode.survivors, if_neg exists', least]
            rfl
          · rw [cost]
            exact le.trans (Nat.add_comm _ _).le

/-- The columns after all symbols. -/
theorem Tracks.all (tables : code.Tables) (dblrand : Nat → ℚ)
    (later : List (BitVector × BitVector)) : ∀ {symbols before : List (BitVector × BitVector)}
    {column : Column} {columns : List Column} (draws : Nat), symbols = before ++ later →
      code.Tracks symbols before.length column columns →
      ∃ column' columns', code.trellisGraph dblrand draws (column :: columns) later =
        column' :: columns' ∧ code.Tracks symbols symbols.length column' columns' := by
  induction later with
  | nil =>
    intro symbols before column columns draws split tracks
    rw [List.append_nil] at split
    subst split
    exact ⟨column, columns, rfl, tracks⟩
  | cons received later ih =>
    intro symbols before column columns draws split tracks
    have found : symbols[before.length]? = some (received.1, received.2) := by
      rw [split, List.getElem?_append_right le_rfl, Nat.sub_self]
      rfl
    have next := tracks.step tables found dblrand draws
    have length : before.length + 1 = (before ++ [received]).length := by
      rw [List.length_append, List.length_singleton]
    rw [length] at next
    exact ih _ (by rw [split, List.append_assoc]; rfl) next

end ConvolutionalCode

end Inet.BitLevel
