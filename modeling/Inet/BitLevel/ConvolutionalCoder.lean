import Mathlib.Data.List.ProdSigma
import Mathlib.Data.Rat.Init
import Mathlib.Algebra.Order.Ring.Unbundled.Rat
import Mathlib.Logic.Function.Basic
import Inet.Common.BitVector
import Inet.Lib.Except

/-!
# Convolutional coder

A feedforward convolutional encoder with puncturing, and a decoder that searches the trellis for the
path whose output is nearest to the received bits. States and symbols are numbered by their bits,
the first of which is the most significant one.
-/
namespace Inet.BitLevel

open Lib

inductive Mode
  | terminated
  | truncated
  deriving DecidableEq

/-- The generator polynomials are written as octal numbers. -/
structure ConvolutionalCode where
  transferFunctionMatrix : List (List Nat)
  puncturingMatrix : List (List Bool)
  constraintLengthVector : List Nat
  codeRatePuncturingK : Nat
  codeRatePuncturingN : Nat
  mode : Mode
  deriving DecidableEq

def ieee80211ConvolutionalCode (codeRateK codeRateN : Nat) : Except String ConvolutionalCode :=
  let code (puncturingMatrix : List (List Bool)) : ConvolutionalCode :=
    { transferFunctionMatrix := [[133, 171]], puncturingMatrix
      constraintLengthVector := [7]
      codeRatePuncturingK := codeRateK
      codeRatePuncturingN := codeRateN
      mode := .truncated }
  if codeRateK = 1 ∧ codeRateN = 2 then .ok (code [[true], [true]])
  else if codeRateK = 2 ∧ codeRateN = 3 then .ok (code [[true, true], [true, false]])
  else if codeRateK = 3 ∧ codeRateN = 4 then
    .ok (code [[true, true, false], [true, false, true]])
  else if codeRateK = 5 ∧ codeRateN = 6 then
    .ok (code [[true, true, false, true, false], [true, false, true, false, true]])
  else .error s!"Unsupported code rate {codeRateK}/{codeRateN}"

namespace ConvolutionalCode

variable (code : ConvolutionalCode)

def codeRateParamaterK : Nat := code.transferFunctionMatrix.length

def codeRateParamaterN : Nat := (code.transferFunctionMatrix.headD []).length

def memorySizes : List Nat := code.constraintLengthVector.map (· - 1)

def memorySizeSum : Nat := code.memorySizes.sum

def numberOfStates : Nat := 2 ^ code.memorySizeSum

def numberOfInputSymbols : Nat := 2 ^ code.codeRateParamaterK

def numberOfOutputSymbols : Nat := 2 ^ code.codeRateParamaterN

/-- The value of at most so many octal digits that are written as a decimal number. -/
def octalDigits : Nat → Nat → Nat
  | 0, _ => 0
  | count + 1, octalNum =>
    if octalNum = 0 then 0 else octalNum % 10 + 8 * octalDigits count (octalNum / 10)

def octalToDec (octalNum : Nat) : Nat := octalDigits octalNum octalNum

/-- Generator polynomials of an input, the tap at the input comes first. -/
def generatorPolynomials (i : Nat) : List BitVector :=
  (code.transferFunctionMatrix.getD i []).map fun octalNum =>
    bitsOf (code.constraintLengthVector.getD i 0) (octalToDec octalNum)

/-- The checks of the constructor. -/
def check : Except String Unit := do
  for i in List.range code.transferFunctionMatrix.length do
    for octalNum in code.transferFunctionMatrix.getD i [] do
      if octalToDec octalNum ≥ 2 ^ code.constraintLengthVector.getD i 0 then
        throw "Code size is greater then constraint length"
  for row in code.transferFunctionMatrix do
    if row.length ≠ code.codeRateParamaterN then
      throw "Transfer function matrix must be a k-by-n matrix of octal numbers"
  if code.transferFunctionMatrix.length ≠ code.constraintLengthVector.length then
    throw "Constraint length vector must be a 1-by-k vector of integers"
  if code.puncturingMatrix.length ≠ code.codeRateParamaterN then
    throw "Puncturing matrix must be a n-by-arbitrary bool matrix"

/-! ### Tables -/

def modulo2Adder (shiftRegisters generatorPolynomial : BitVector) : Bool :=
  (generatorPolynomial.zip shiftRegisters).foldl (fun sum taps =>
    if taps.1 then sum != taps.2 else sum) false

/-- The shift registers of the last input come first in the state. -/
def inputSymbolToOutputSymbol (state inputSymbol : BitVector) : BitVector :=
  ((List.range inputSymbol.length).reverse.foldl (fun (output : BitVector × Nat) i =>
    let shiftRegisters := inputSymbol.getD i false ::
      (List.range (code.memorySizes.getD i 0)).map fun k => state.getD (output.2 + k) false
    (output.1.zipWith (fun bit generatorPolynomial =>
        bit != modulo2Adder shiftRegisters generatorPolynomial) (code.generatorPolynomials i),
      output.2 + code.memorySizes.getD i 0))
    (List.replicate code.codeRateParamaterN false, 0)).1

def nextState (state inputSymbol : BitVector) : BitVector :=
  let shiftedState := (false :: state).take code.memorySizeSum
  ((List.range inputSymbol.length).reverse.foldl (fun (next : BitVector × Nat) i =>
    (next.1.setBit next.2 (inputSymbol.getD i false), next.2 + code.memorySizes.getD i 0))
    (shiftedState, 0)).1

def outputSymbol (state inputSymbol : Nat) : BitVector :=
  code.inputSymbolToOutputSymbol (bitsOf code.memorySizeSum state)
    (bitsOf code.codeRateParamaterK inputSymbol)

def stateTransition (state inputSymbol : Nat) : Nat :=
  (code.nextState (bitsOf code.memorySizeSum state)
    (bitsOf code.codeRateParamaterK inputSymbol)).reverseToDecimal

/-- The last input symbol that gives an output symbol in a state. -/
def inputSymbol (state outputSymbol : Nat) : Option Nat :=
  (List.range code.numberOfInputSymbols).reverse.find? fun inputSymbol =>
    (code.outputSymbol state inputSymbol).reverseToDecimal = outputSymbol

/-! ### Puncturing -/

def getPuncturedIndices (length : Nat) : List Bool :=
  (List.range length).map fun i =>
    let row := code.puncturingMatrix.getD (i % code.codeRateParamaterN) []
    !row.getD (i / code.codeRateParamaterN % (code.puncturingMatrix.headD []).length) false

def puncturing (informationBits : BitVector) : BitVector :=
  ((informationBits.zip (code.getPuncturedIndices informationBits.length)).filter (!·.2)).map (·.1)

/-- A bit for each index, which is only taken from the received ones where it is not punctured. -/
def fillPunctured : List Bool → BitVector → Except String BitVector
  | [], _ => .ok []
  | true :: isPunctured, decodedBits => do
    let rest ← fillPunctured isPunctured decodedBits
    .ok (false :: rest)
  | false :: isPunctured, bit :: decodedBits => do
    let rest ← fillPunctured isPunctured decodedBits
    .ok (bit :: rest)
  | false :: _, [] => .error "Out of range with bit position"

def depuncturedLength (decodedLength : Nat) : Nat :=
  decodedLength / code.codeRatePuncturingN * code.codeRatePuncturingK /
    code.codeRateParamaterK * code.codeRateParamaterN

def depuncturing (decodedBits : BitVector) : Except String BitVector :=
  if decodedBits.length % code.codeRatePuncturingN ≠ 0 then
    .error "ASSERT: decodedBits.getSize() % codeRatePuncturingN == 0"
  else
    fillPunctured (code.getPuncturedIndices (code.depuncturedLength decodedBits.length)) decodedBits

/-! ### Encoding -/

/-- Pieces of a vector that have one size. -/
def pieces (size count : Nat) (bits : List Bool) : List (List Bool) :=
  (List.range count).map fun i => (bits.drop (i * size)).take size

/-- The encoded bits of symbols from a state. -/
def encodeSymbols : Nat → List Nat → BitVector
  | _, [] => []
  | state, inputSymbol :: inputSymbols =>
    code.outputSymbol state inputSymbol ++
      encodeSymbols (code.stateTransition state inputSymbol) inputSymbols

def inputSymbols (informationBits : BitVector) : List Nat :=
  (pieces code.codeRateParamaterK (informationBits.length / code.codeRateParamaterK)
    informationBits).map BitVector.reverseToDecimal

def encode (informationBits : BitVector) : Except String BitVector :=
  if informationBits.length % code.codeRateParamaterK ≠ 0 then
    .error ("Length of informationBits must be a multiple of " ++
      s!"codeRateParamaterK = {code.codeRateParamaterK}")
  else .ok (code.puncturing (code.encodeSymbols 0 (code.inputSymbols informationBits)))

/-! ### Decoding -/

/-- Absent numbers are -1. An absent distance is the largest integer, which no sum reaches. -/
structure TrellisGraphNode where
  symbol : Option Nat := none
  state : Option Nat := none
  prevState : Option Nat := none
  comulativeHammingDistance : Option Nat := none
  numberOfErrors : Nat := 0
  depth : Nat := 0
  deriving DecidableEq

/-- The nodes of a time by their states. -/
abbrev Column := Nat → TrellisGraphNode

def firstColumn : Column := Function.update (fun _ => {}) 0 { state := some 0 }

/-- The number of bits that count in which the symbols differ. -/
def hammingDistance (symbol countsOnHammingDistance other : BitVector) : Nat :=
  ((symbol.zip other).zip countsOnHammingDistance).countP fun bits =>
    bits.2 && bits.1.1 != bits.1.2

def less : Option Nat → Option Nat → Bool
  | some distance, some other => distance < other
  | some _, none => true
  | none, _ => false

/-- The next column so far, and the number of random numbers that have been drawn. -/
structure Selection where
  column : Column := fun _ => {}
  tieBreakingCounter : Nat := 0
  draws : Nat := 0

/-- A node that is reached from another one. -/
def candidate (node : TrellisGraphNode) (prevState newState symbol hammingDistance : Nat) :
    TrellisGraphNode where
  symbol := some symbol
  state := some newState
  prevState := some prevState
  comulativeHammingDistance := some (hammingDistance + node.comulativeHammingDistance.getD 0)
  numberOfErrors := if hammingDistance > 0 then node.numberOfErrors + 1 else node.numberOfErrors
  depth := node.depth + 1

/-- A candidate replaces a node that has a larger distance, or the same one if it wins the tie. -/
def Selection.offer (dblrand : Nat → ℚ) (selection : Selection) (newState : Nat)
    (candidate : TrellisGraphNode) : Selection :=
  let best := selection.column newState
  if candidate.comulativeHammingDistance = best.comulativeHammingDistance then
    { column :=
        if dblrand selection.draws * (selection.tieBreakingCounter + 1 : Nat) < 1 then
          Function.update selection.column newState candidate
        else selection.column
      tieBreakingCounter := selection.tieBreakingCounter + 1
      draws := selection.draws + 1 }
  else if less candidate.comulativeHammingDistance best.comulativeHammingDistance then
    { selection with
      column := Function.update selection.column newState candidate
      tieBreakingCounter := 0 }
  else selection

/-- One round of `updateTrellisGraph`, for a state and an output symbol. -/
def consider (dblrand : Nat → ℚ) (column : Column) (symbol countsOnHammingDistance : BitVector)
    (selection : Selection) (edge : Nat × Nat) : Selection :=
  if (column edge.1).state = none then selection
  else
    match code.inputSymbol edge.1 edge.2 with
    | none => selection
    | some feasibleDecodedSymbol =>
      selection.offer dblrand (code.stateTransition edge.1 feasibleDecodedSymbol)
        (candidate (column edge.1) edge.1 (code.stateTransition edge.1 feasibleDecodedSymbol)
          feasibleDecodedSymbol
          (hammingDistance symbol countsOnHammingDistance
            (bitsOf code.codeRateParamaterN edge.2)))

def updateTrellisGraph (dblrand : Nat → ℚ) (draws : Nat) (column : Column)
    (symbol countsOnHammingDistance : BitVector) : Selection :=
  ((List.range code.numberOfStates) ×ˢ (List.range code.numberOfOutputSymbols)).foldl
    (code.consider dblrand column symbol countsOnHammingDistance) { draws }

/-- The columns for received symbols, the last one first. -/
def trellisGraph (dblrand : Nat → ℚ) : Nat → List Column → List (BitVector × BitVector) →
    List Column
  | _, columns, [] => columns
  | draws, columns, (symbol, countsOnHammingDistance) :: symbols =>
    let selection := code.updateTrellisGraph dblrand draws (columns.headD firstColumn) symbol
      countsOnHammingDistance
    trellisGraph dblrand selection.draws (selection.column :: columns) symbols

/-- The input symbols on the path to a node, the last one first. -/
def traversePath : List Column → Nat → TrellisGraphNode → List Nat
  | _, 0, _ => []
  | [], depth + 1, path => path.symbol.getD 0 :: traversePath [] depth {}
  | column :: columns, depth + 1, path =>
    path.symbol.getD 0 :: traversePath columns depth (column (path.prevState.getD 0))

/-- The node where the path ends. -/
def bestNode (column : Column) : TrellisGraphNode :=
  match code.mode with
  | .terminated => column 0
  | .truncated =>
    ((List.range code.numberOfStates).drop 1).foldl (fun bestNode i =>
      if (column i).symbol ≠ none ∧
          less (column i).comulativeHammingDistance bestNode.comulativeHammingDistance then
        column i
      else bestNode) (column 0)

/-- The symbols of depunctured bits, with the bits of each that count. -/
def receivedSymbols (depuncturedBits : BitVector) : List (BitVector × BitVector) :=
  (pieces code.codeRateParamaterN (depuncturedBits.length / code.codeRateParamaterN)
    depuncturedBits).zip
    (pieces code.codeRateParamaterN (depuncturedBits.length / code.codeRateParamaterN)
      ((code.getPuncturedIndices depuncturedBits.length).map (!·)))

def decode (dblrand : Nat → ℚ) (encodedBits : BitVector) : Except String (BitVector × Bool) := do
  let depuncturedBits ← code.depuncturing encodedBits
  if depuncturedBits.length % code.codeRateParamaterN ≠ 0 then
    .error ("Length of encodedBits must be a multiple of " ++
      s!"codeRateParamaterN = {code.codeRateParamaterN}")
  else
    let columns := code.trellisGraph dblrand 0 [firstColumn] (code.receivedSymbols depuncturedBits)
    let bestNode := code.bestNode (columns.headD firstColumn)
    if code.mode = .terminated ∧ bestNode.symbol = none then .ok ([], false)
    else
      .ok ((traversePath columns.tail bestNode.depth bestNode).reverse.flatMap
        (bitsOf code.codeRateParamaterK), true)

end ConvolutionalCode

end Inet.BitLevel
