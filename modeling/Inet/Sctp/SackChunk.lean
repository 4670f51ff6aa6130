import Inet.Lib.Double
import Inet.Sctp.SctpGapList

/-!
# SACK chunks

A receiver reports the blocks of its gap lists and duplicate TSNs. What does not fit into a packet is
left out, and an NR-SACK may report blocks of the combined list instead of those of one kind. The
compression of blocks, the window that is advertised, and statistics are left out.
-/
namespace Inet.Sctp.Sack

open Lib Double

def SCTP_COMMON_HEADER : Nat := 12
def SCTP_SACK_CHUNK_LENGTH : Nat := 16
def SCTP_NRSACK_CHUNK_LENGTH : Nat := 20

inductive SackError where
  | gap (error : GapError)
  | assertion
  | compression
deriving DecidableEq

def assert (condition : Bool) : Except SackError Unit :=
  if condition then .ok () else .error .assertion

inductive AddressType where
  | IPv4
  | IPv6
deriving DecidableEq

def AddressType.hdrSize : AddressType → Nat
  | IPv4 => 20
  | IPv6 => 40

inductive GapType where
  | GT_Any
  | GT_Revokable
  | GT_NonRevokable
deriving DecidableEq

def gapsOf (gapList : SctpGapList) : GapType → SctpSimpleGapList
  | .GT_Any => gapList.CombinedGapList
  | .GT_Revokable => gapList.RevokableGapList
  | .GT_NonRevokable => gapList.NonRevokableGapList

def getNumGaps (gapList : SctpGapList) (type : GapType) : Nat := (gapsOf gapList type).NumGaps

def getGapStart (list : SctpSimpleGapList) (index : Nat) : Except SackError Tsn := do
  assert (index < list.NumGaps)
  (list.start index).mapError .gap

def getGapStop (list : SctpSimpleGapList) (index : Nat) : Except SackError Tsn := do
  assert (index < list.NumGaps)
  (list.stop index).mapError .gap

inductive GLOVariant where
  | GLOV_None
  | GLOV_Optimized1
  | GLOV_Optimized2
  | GLOV_Shrunken
deriving DecidableEq

/-- What is read of the state of an association and of its settings. -/
structure SctpStateVariables where
  gapList : SctpGapList
  dupList : List Tsn
  nrSack : Bool
  gapListOptimizationVariant : GLOVariant
  smartOverfullSACKHandling : Bool
  gapReportLimit : BitVec 32

/-- The arrays of starts and stops have the same size. -/
structure SctpSackChunk where
  cumTsnAck : Tsn
  isNrSack : Bool
  numGaps : Nat
  gaps : List (Tsn × Tsn)
  numNrGaps : Nat
  nrGaps : List (Tsn × Tsn)
  nrSubtractRGaps : Bool
  numDupTsns : Nat
  dupTsns : List Tsn
  byteLength : Nat
deriving DecidableEq

namespace SctpSackChunk

/-- The numbers have 16 bits. -/
def setNumGaps (chunk : SctpSackChunk) (number : Nat) : SctpSackChunk :=
  { chunk with numGaps := number % 2 ^ 16 }

def setNumNrGaps (chunk : SctpSackChunk) (number : Nat) : SctpSackChunk :=
  { chunk with numNrGaps := number % 2 ^ 16 }

end SctpSackChunk

/-! ### Copying blocks -/

/-- The loop over the blocks, from an index on, with the stop of the block before it. -/
def copyLoop (list : SctpSimpleGapList) : (remaining : Nat) → (key : Nat) → (last : Tsn) →
    Except SackError (List (Tsn × Tsn))
  | 0, _, _ => .ok []
  | remaining + 1, key, last => do
    let start ← getGapStart list key
    let stop ← getGapStop list key
    assert (tsnGt start (last + 1))
    assert (tsnGe stop start)
    let rest ← copyLoop list remaining (key + 1) stop
    return (start, stop) :: rest

/-- The blocks that there is space for. Each one takes four bytes. -/
def copyGaps (gapList : SctpGapList) (type : GapType) (space : Nat) :
    Except SackError (List (Tsn × Tsn)) :=
  let keys := min (space / 4 % 2 ^ 32) (getNumGaps gapList type)
  copyLoop (gapsOf gapList type) keys 0 gapList.CumAckTsn

/-- A chunk that is put together, with how much was copied into it. -/
structure Draft where
  chunk : SctpSackChunk
  numRevokableGaps : Nat
  numNonRevokableGaps : Nat
  revokableGapsSpace : Nat
  nonRevokableGapsSpace : Nat
deriving DecidableEq

def copyToRGaps (gapList : SctpGapList) (type : GapType) (space : Nat) (draft : Draft) :
    Except SackError Draft := do
  let gaps ← copyGaps gapList type space
  return { draft with
    chunk := { draft.chunk with gaps := gaps }.setNumGaps gaps.length
    numRevokableGaps := gaps.length
    revokableGapsSpace := 4 * gaps.length }

def copyToNRGaps (gapList : SctpGapList) (type : GapType) (space : Nat) (draft : Draft) :
    Except SackError Draft := do
  let gaps ← copyGaps gapList type space
  return { draft with
    chunk := { draft.chunk with nrGaps := gaps }.setNumNrGaps gaps.length
    numNonRevokableGaps := gaps.length
    nonRevokableGapsSpace := 4 * gaps.length }

/-! ### Putting the chunk together -/

namespace SctpStateVariables

variable (state : SctpStateVariables)

def numRevokable : Nat := getNumGaps state.gapList .GT_Revokable
def numNonRevokable : Nat := getNumGaps state.gapList .GT_NonRevokable
def totalGaps : Nat := getNumGaps state.gapList .GT_Any

/-- How many blocks less are reported with the combined list instead of that of a kind. -/
def optR : Int := state.numRevokable - state.totalGaps
def optNR : Int := state.numNonRevokable - state.totalGaps

def compression : Bool :=
  state.gapListOptimizationVariant = .GLOV_Shrunken ∧
    (0 < state.numRevokable ∨ 0 < state.numNonRevokable)

/-- The variant is the second one or a later one. -/
def optimized2 : Bool :=
  state.gapListOptimizationVariant = .GLOV_Optimized2 ∨
    state.gapListOptimizationVariant = .GLOV_Shrunken

/-- Optimization 1: the combined list is reported as the revokable one. -/
def reportsAll : Bool :=
  state.nrSack ∧ ((0 < state.optR ∧ state.gapListOptimizationVariant = .GLOV_Optimized1) ∨
    (0 < state.optR ∧ state.optNR ≤ state.optR ∧ state.optimized2))

/-- Optimization 2: the combined list is reported as the non-revokable one, from which the revokable
one is to be subtracted. -/
def subtracts : Bool := state.nrSack ∧ 0 < state.optNR ∧ state.optimized2

def sackHeaderLength : Nat :=
  if state.nrSack then SCTP_NRSACK_CHUNK_LENGTH else SCTP_SACK_CHUNK_LENGTH

end SctpStateVariables

/-- A `size_t` with all bits set. -/
def unlimited : Nat := 2 ^ 64 - 1

def emptyDraft (state : SctpStateVariables) : Draft where
  chunk := {
    cumTsnAck := state.gapList.CumAckTsn
    isNrSack := state.nrSack
    numGaps := 0
    gaps := []
    numNrGaps := 0
    nrGaps := []
    nrSubtractRGaps := false
    numDupTsns := 0
    dupTsns := []
    byteLength := 0 }
  numRevokableGaps := state.numRevokable
  numNonRevokableGaps := state.numNonRevokable
  revokableGapsSpace := unlimited
  nonRevokableGapsSpace := unlimited

/-- What has to be stored in the SACK. -/
def store (state : SctpStateVariables) : Except SackError Draft :=
  let gapList := state.gapList
  let draft := emptyDraft state
  if state.reportsAll then do
    assert (state.totalGaps < state.numRevokable)
    let draft ← copyToRGaps gapList .GT_Any unlimited draft
    let draft ← copyToNRGaps gapList .GT_NonRevokable unlimited draft
    assert (draft.numRevokableGaps = state.totalGaps)
    return draft
  else if state.subtracts then do
    assert (state.totalGaps < state.numNonRevokable)
    let draft := { draft with chunk := { draft.chunk with nrSubtractRGaps := true } }
    let draft ← copyToRGaps gapList .GT_Revokable unlimited draft
    let draft ← copyToNRGaps gapList .GT_Any unlimited draft
    assert (draft.numNonRevokableGaps = state.totalGaps)
    return draft
  else if state.nrSack then do
    let draft ← copyToRGaps gapList .GT_Revokable unlimited draft
    copyToNRGaps gapList .GT_NonRevokable unlimited draft
  else do
    let draft ← copyToRGaps gapList .GT_Any unlimited draft
    return { draft with numNonRevokableGaps := 0, nonRevokableGapsSpace := 0 }

/-- The length of the chunk as a `uint32_t`. -/
def Draft.sackLength (draft : Draft) (sackHeaderLength numDups : Nat) : Nat :=
  (sackHeaderLength + draft.revokableGapsSpace + draft.nonRevokableGapsSpace + numDups * 4) % 2 ^ 32

/-- How many blocks of both kinds are removed. Their shares are rounded up. -/
def shares (blocksBeRemoved numRevokableGaps numNonRevokableGaps : Nat) : Nat × Nat :=
  let revokableFraction :=
    if numRevokableGaps + numNonRevokableGaps > 0 then
      toDouble (numRevokableGaps / (numRevokableGaps + numNonRevokableGaps : Nat))
    else 1
  (⌈toDouble (blocksBeRemoved * revokableFraction)⌉.toNat,
    ⌈toDouble (blocksBeRemoved * toDouble (1 - revokableFraction))⌉.toNat)

/-- Both gap lists are shortened. -/
def shortenBoth (state : SctpStateVariables) (allowedLength sackLength : Nat) (draft : Draft) :
    Except SackError Draft := do
  let blocksBeRemoved := (sackLength - allowedLength) / 4
  let (removeRevokable, removeNonRevokable) :=
    shares blocksBeRemoved draft.numRevokableGaps draft.numNonRevokableGaps
  let numRevokableGaps :=
    draft.numRevokableGaps - min removeRevokable draft.numRevokableGaps
  let numNonRevokableGaps :=
    draft.numNonRevokableGaps - min removeNonRevokable draft.numNonRevokableGaps
  let draft ← copyToRGaps state.gapList .GT_Revokable (4 * numRevokableGaps) draft
  copyToNRGaps state.gapList .GT_NonRevokable (4 * numNonRevokableGaps) draft

/-- The gap lists are shortened. The result is the draft with its length. -/
def shorten (state : SctpStateVariables) (allowedLength : Nat) (draft : Draft) :
    Except SackError (Draft × Nat) := do
  let sackHeaderLength := state.sackHeaderLength
  let draft := { draft with chunk := { draft.chunk with nrSubtractRGaps := false } }
  let type := if state.totalGaps < state.numRevokable then .GT_Any else .GT_Revokable
  let draft ← copyToRGaps state.gapList type (allowedLength - sackHeaderLength) draft
  let sackLength := draft.sackLength sackHeaderLength 0
  if state.smartOverfullSACKHandling then
    if sackHeaderLength + draft.revokableGapsSpace < allowedLength then do
      let space := allowedLength - sackHeaderLength - draft.revokableGapsSpace
      let draft ← copyToNRGaps state.gapList .GT_NonRevokable space draft
      return (draft, draft.sackLength sackHeaderLength 0)
    else do
      let draft := { draft with nonRevokableGapsSpace := allowedLength - sackHeaderLength }
      let draft ← copyToRGaps state.gapList .GT_Any draft.revokableGapsSpace draft
      return (draft, sackLength)
  else if sackLength > allowedLength then do
    let draft ← shortenBoth state allowedLength sackLength draft
    return (draft, draft.sackLength sackHeaderLength 0)
  else return (draft, sackLength)

/-- The limit for the number of blocks is applied. -/
def applyLimit (gapReportLimit : BitVec 32) (draft : Draft) : SctpSackChunk :=
  if gapReportLimit.toNat < 1000000 then
    (draft.chunk.setNumGaps (min draft.numRevokableGaps gapReportLimit.toNat)).setNumNrGaps
      (min draft.numNonRevokableGaps gapReportLimit.toNat)
  else draft.chunk

/-- The SACK is shortened to fit, with its length and the number of duplicates that it reports. -/
def fit (state : SctpStateVariables) (allowedLength : Nat) (draft : Draft) :
    Except SackError (Draft × Nat × Nat) := do
  let numDups := state.dupList.length % 2 ^ 32
  let sackLength := draft.sackLength state.sackHeaderLength numDups
  if sackLength > allowedLength then
    -- the length stays as it is, because the number of duplicates is zero by now
    let numDups := 0
    let sackLength := sackLength - 4 * numDups
    if sackLength > allowedLength then
      let (draft, sackLength) ← shorten state allowedLength draft
      assert (sackLength ≤ allowedLength)
      return ({ draft with chunk :=
        (draft.chunk.setNumGaps draft.numRevokableGaps).setNumNrGaps draft.numNonRevokableGaps },
        sackLength, numDups)
    else return (draft, sackLength, numDups)
  else return (draft, sackLength, numDups)

def allowedLength (mtu : BitVec 32) (remoteAddr : AddressType) : Nat :=
  (mtu - BitVec.ofNat 32 (remoteAddr.hdrSize + SCTP_COMMON_HEADER + SCTP_SACK_CHUNK_LENGTH)).toNat

def createSack (mtu : BitVec 32) (remoteAddr : AddressType) (state : SctpStateVariables) :
    Except SackError (SctpSackChunk × SctpStateVariables) :=
  if state.compression then .error .compression
  else do
    let draft ← store state
    let (draft, sackLength, numDups) ← fit state (allowedLength mtu remoteAddr) draft
    let chunk := applyLimit state.gapReportLimit { draft with chunk := { draft.chunk with
      numDupTsns := numDups % 2 ^ 16
      byteLength := sackLength } }
    if 0 < numDups then
      return ({ chunk with dupTsns := state.dupList.take numDups }, { state with dupList := [] })
    else return (chunk, state)

/-! ### Reading the chunk -/

/-- The loop over the TSNs of a block. -/
def blockTsns (start stop : Tsn) : List Tsn :=
  if tsnLe start stop then
    (List.range ((stop - start).toNat + 1)).map fun n => start + BitVec.ofNat 32 n
  else []

/-- The loop over blocks, with the stop of the block before. -/
def readBlocks : (lastTsn : Tsn) → List (Tsn × Tsn) → Except SackError (List Tsn)
  | _, [] => .ok []
  | lastTsn, (start, stop) :: rest => do
    assert (tsnGt start (lastTsn + 1))
    let tsns ← readBlocks stop rest
    return blockTsns start stop ++ tsns

/-- The TSNs that `processSackArrived` puts into its gap list as revokable ones, and those that it
then puts into it as non-revokable ones. -/
def processSackArrived (sackChunk : SctpSackChunk) : Except SackError (List Tsn × List Tsn) := do
  let revokable ← readBlocks sackChunk.cumTsnAck (sackChunk.gaps.take sackChunk.numGaps)
  let tsns ← readBlocks sackChunk.cumTsnAck (sackChunk.nrGaps.take sackChunk.numNrGaps)
  if sackChunk.nrSubtractRGaps then
    return (revokable, tsns.filter fun tsn => !revokable.contains tsn)
  else return (revokable, tsns)

end Inet.Sctp.Sack
