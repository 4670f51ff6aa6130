import Mathlib.Data.BitVec
import Inet.Lib.Except

/-! Transmission sequence numbers of SCTP and the comparisons of `SctpAssociation.h`. -/
namespace Inet.Sctp

/-- A `uint32_t` transmission sequence number. -/
abbrev Tsn := BitVec 32

def tsnGt (a b : Tsn) : Bool :=
  (decide (a < b) && decide (2 ^ 31 < (b - a).toNat)) ||
    (decide (b < a) && decide ((a - b).toNat < 2 ^ 31))

def tsnGe (a b : Tsn) : Bool := tsnGt a b || a == b
def tsnLe (a b : Tsn) : Bool := tsnGe b a
def tsnBetween (tsn1 midtsn tsn2 : Tsn) : Bool := tsnGe midtsn tsn1 && tsnGe tsn2 midtsn

/-! ### Positions

Chunks are numbered without wrapping, and the low bits of their numbers are their TSNs. -/

def tsn (n : Nat) : Tsn := BitVec.ofNat 32 n

variable {a b : Nat}

theorem toNat_tsn (n : Nat) : (tsn n).toNat = n % 2 ^ 32 := BitVec.toNat_ofNat n 32

theorem tsn_succ (n : Nat) : tsn n + 1 = tsn (n + 1) := (BitVec.ofNat_add n 1).symm

theorem tsn_pred (positive : 0 < a) : tsn a - 1 = tsn (a - 1) := by
  obtain ⟨n, rfl⟩ := Nat.exists_eq_succ_of_ne_zero (Nat.ne_of_gt positive)
  rw [Nat.succ_eq_add_one, ← tsn_succ, BitVec.add_sub_cancel, Nat.add_sub_cancel]

theorem tsn_inj (below : a < b + 2 ^ 32) (above : b < a + 2 ^ 32) : tsn a = tsn b ↔ a = b := by
  rw [← BitVec.toNat_inj, toNat_tsn, toNat_tsn]
  omega

theorem toNat_sub_tsn (le : b ≤ a) (near : a < b + 2 ^ 32) : (tsn a - tsn b).toNat = a - b := by
  rw [BitVec.toNat_sub, toNat_tsn, toNat_tsn]
  omega

/-- Numbers less than half of the sequence space apart compare like their TSNs. -/
theorem tsnGt_tsn (below : a < b + 2 ^ 31) (above : b < a + 2 ^ 31) :
    tsnGt (tsn a) (tsn b) = decide (b < a) := by
  rw [Bool.eq_iff_iff]
  simp only [tsnGt, Bool.or_eq_true, Bool.and_eq_true, decide_eq_true_eq, BitVec.lt_def,
    BitVec.toNat_sub, toNat_tsn]
  omega

theorem tsnGe_tsn (below : a < b + 2 ^ 31) (above : b < a + 2 ^ 31) :
    tsnGe (tsn a) (tsn b) = decide (b ≤ a) := by
  rw [tsnGe, tsnGt_tsn below above, Bool.eq_iff_iff]
  simp only [Bool.or_eq_true, decide_eq_true_eq, beq_iff_eq,
    tsn_inj (show a < b + 2 ^ 32 by omega) (by omega)]
  omega

theorem tsnLe_tsn (below : a < b + 2 ^ 31) (above : b < a + 2 ^ 31) :
    tsnLe (tsn a) (tsn b) = decide (a ≤ b) := by
  rw [tsnLe, tsnGe_tsn above below]

theorem tsnBetween_tsn {mid : Nat} (a_below : a < mid + 2 ^ 31) (a_above : mid < a + 2 ^ 31)
    (b_below : b < mid + 2 ^ 31) (b_above : mid < b + 2 ^ 31) :
    tsnBetween (tsn a) (tsn mid) (tsn b) = (decide (a ≤ mid) && decide (mid ≤ b)) := by
  rw [tsnBetween, tsnGe_tsn a_above a_below, tsnGe_tsn b_below b_above]

end Inet.Sctp

/-!
## Gap lists

`SctpSimpleGapList` keeps blocks of TSNs in two parallel arrays. `SctpGapList` keeps three of these
lists. Array accesses are checked, and a failed `assert` is an error. Printing is left out.
-/
namespace Inet.Sctp

open Lib

def MAX_GAP_COUNT : Nat := 500

inductive GapError where
  | outOfBounds
  | assertion
deriving DecidableEq

/-- One of the arrays. -/
abbrev GapArray := Vector Tsn MAX_GAP_COUNT

namespace GapArray

def read (array : GapArray) (i : Nat) : Except GapError Tsn :=
  match array[i]? with
  | some value => .ok value
  | none => .error .outOfBounds

def write (array : GapArray) (i : Nat) (value : Tsn) : Except GapError GapArray :=
  if inside : i < MAX_GAP_COUNT then .ok (array.set i value) else .error .outOfBounds

/-- `array[j - distance] = array[j]`, for `count` indices from the first one upwards. -/
def moveDown (array : GapArray) (distance first : Nat) : (count : Nat) → Except GapError GapArray
  | 0 => .ok array
  | count + 1 => do
    let array ← moveDown array distance first count
    let value ← array.read (first + count)
    array.write (first + count - distance) value

/-- `array[j] = array[j - 1]`, for `count` indices from the last one downwards. -/
def moveUp (array : GapArray) (last : Nat) : (count : Nat) → Except GapError GapArray
  | 0 => .ok array
  | count + 1 => do
    let array ← moveUp array last count
    let value ← array.read (last - count - 1)
    array.write (last - count) value

end GapArray

/-- `i - 1` as `uint32_t`. -/
def previous (i : Nat) : Nat := (i + (2 ^ 32 - 1)) % 2 ^ 32

structure SctpSimpleGapList where
  NumGaps : Nat
  GapStartList : GapArray
  GapStopList : GapArray
deriving DecidableEq

namespace SctpSimpleGapList

def new : SctpSimpleGapList where
  NumGaps := 0
  GapStartList := Vector.replicate _ 0xffff00ff
  GapStopList := Vector.replicate _ 0xffff0000

variable (list : SctpSimpleGapList)

def start (i : Nat) : Except GapError Tsn := list.GapStartList.read i

def stop (i : Nat) : Except GapError Tsn := list.GapStopList.read i

def setStart (i : Nat) (value : Tsn) : Except GapError SctpSimpleGapList := do
  let starts ← list.GapStartList.write i value
  return { list with GapStartList := starts }

def setStop (i : Nat) (value : Tsn) : Except GapError SctpSimpleGapList := do
  let stops ← list.GapStopList.write i value
  return { list with GapStopList := stops }

/-- The loops move both arrays. -/
def moveDown (distance first count : Nat) : Except GapError SctpSimpleGapList := do
  let starts ← list.GapStartList.moveDown distance first count
  let stops ← list.GapStopList.moveDown distance first count
  return { list with GapStartList := starts, GapStopList := stops }

def moveUp (last count : Nat) : Except GapError SctpSimpleGapList := do
  let starts ← list.GapStartList.moveUp last count
  let stops ← list.GapStopList.moveUp last count
  return { list with GapStartList := starts, GapStopList := stops }

def assert (condition : Bool) : Except GapError Unit :=
  if condition then .ok () else .error .assertion

def checkBlock (cTsnAck : Tsn) (i : Nat) : Except GapError Unit := do
  let start ← list.start i
  if i = 0 then
    assert (tsnGt start (cTsnAck + 1))
  else
    let stopBefore ← list.stop (i - 1)
    assert (tsnGt start (stopBefore + 1))
  let stop ← list.stop i
  assert (tsnLe start stop)

def check (cTsnAck : Tsn) : Except GapError Unit :=
  (List.range list.NumGaps).forM (list.checkBlock cTsnAck)

def resetGaps : SctpSimpleGapList := new

/-- The loop over the blocks, from an index on. -/
def inBlocks (tsn : Tsn) : (remaining : Nat) → (i : Nat) → Except GapError Bool
  | 0, _ => .ok false
  | remaining + 1, i => do
    let start ← list.start i
    let stop ← list.stop i
    if tsnBetween start tsn stop then return true else inBlocks tsn remaining (i + 1)

def tsnInGapList (tsn : Tsn) : Except GapError Bool := list.inBlocks tsn list.NumGaps 0

/-- How many blocks start at or below the TSN. -/
def countAdvance (cTsnAck : Tsn) : (remaining : Nat) → (counter : Nat) → Except GapError Nat
  | 0, counter => .ok counter
  | remaining + 1, counter => do
    let start ← list.start counter
    if tsnGe cTsnAck start then countAdvance cTsnAck remaining (counter + 1) else return counter

def forwardCumAckTsn (cTsnAck : Tsn) : Except GapError SctpSimpleGapList := do
  let advance ← list.countAdvance cTsnAck list.NumGaps 0
  if 0 < advance then
    let moved ← list.moveDown advance advance (list.NumGaps - advance)
    return { moved with NumGaps := list.NumGaps - advance }
  else return list

/-- The loop makes one round for each block that there is at first. The number of blocks does not
change. -/
def advanceLoop : (remaining : Nat) → SctpSimpleGapList → (cTsnAck : Tsn) → (progress : Bool) →
    Except GapError (SctpSimpleGapList × Tsn × Bool)
  | 0, list, cTsnAck, progress => .ok (list, cTsnAck, progress)
  | remaining + 1, list, cTsnAck, progress => do
    let start ← list.start 0
    if cTsnAck + 1 = start then
      let stop ← list.stop 0
      let moved ← list.moveDown 1 1 (list.NumGaps - 1)
      advanceLoop remaining moved stop true
    else advanceLoop remaining list cTsnAck progress

def tryToAdvanceCumAckTsn (cTsnAck : Tsn) : Except GapError (SctpSimpleGapList × Tsn × Bool) :=
  advanceLoop list.NumGaps list cTsnAck false

/-- The block at an index is split up around a TSN. -/
def splitBlock (i : Nat) (removedTsn : Tsn) : Except GapError SctpSimpleGapList := do
  let list := { list with NumGaps := min (list.NumGaps + 1) MAX_GAP_COUNT }
  let list ← list.moveUp (list.NumGaps - 1) (list.NumGaps - 1 - i)
  let list ← list.setStop i (removedTsn - 1)
  if i + 1 < list.NumGaps then list.setStart (i + 1) (removedTsn + 1) else return list

/-- The block at an index is taken out. -/
def dropBlock (i : Nat) : Except GapError SctpSimpleGapList := do
  let initialNumGaps := list.NumGaps
  let list ← list.moveDown 1 (i + 1) (initialNumGaps - i)
  let list ← list.setStart (initialNumGaps - 1) 0
  let list ← list.setStop (initialNumGaps - 1) 0
  return { list with NumGaps := list.NumGaps - 1 }

/-- The loop runs from the last block downwards. -/
def removeLoop (removedTsn : Tsn) : (remaining : Nat) → Except GapError SctpSimpleGapList
  | 0 => .ok list
  | i + 1 => do
    let start ← list.start i
    let stop ← list.stop i
    if tsnBetween start removedTsn stop then
      let gapsize := (stop - start + 1).toInt
      if gapsize > 1 then
        if stop = removedTsn then list.setStop i (stop - 1)
        else if start = removedTsn then list.setStart i (start + 1)
        else list.splitBlock i removedTsn
      else list.dropBlock i
    else removeLoop removedTsn i

def removeFromGapList (removedTsn : Tsn) : Except GapError SctpSimpleGapList :=
  list.removeLoop removedTsn list.NumGaps

/-- What an update returns and changes. -/
structure Updated where
  list : SctpSimpleGapList
  cTsnAck : Tsn
  newChunkReceived : Bool
  returned : Bool
deriving DecidableEq

/-- A new block is put in at an index. -/
def insertBlock (i : Nat) (receivedTsn : Tsn) : Except GapError SctpSimpleGapList := do
  let list := { list with NumGaps := min (list.NumGaps + 1) MAX_GAP_COUNT }
  let list ← list.moveUp (list.NumGaps - 1) (list.NumGaps - 1 - i)
  let list ← list.setStart i receivedTsn
  list.setStop i receivedTsn

/-- The block at an index is taken out, because its TSNs are covered otherwise. -/
def closeBlock (i : Nat) : Except GapError SctpSimpleGapList := do
  let list ←
    if i = list.NumGaps - 1 then do
      let list ← list.setStart i 0
      list.setStop i 0
    else list.moveDown 1 (i + 1) (list.NumGaps - 1 - i)
  return { list with NumGaps := list.NumGaps - 1 }

/-- The received TSN is in the gap before the block at an index. -/
def fillGap (receivedTsn cTsnAck lo hi : Tsn) (i : Nat) : Except GapError Updated := do
  let gapsize := (hi - lo + 1).toNat
  if gapsize > 1 then
    if receivedTsn = hi then
      return ⟨← list.setStart i receivedTsn, cTsnAck, true, true⟩
    else if receivedTsn = lo then
      if receivedTsn = cTsnAck + 1 then return ⟨list, cTsnAck + 1, true, true⟩
      else return ⟨← list.setStop (previous i) receivedTsn, cTsnAck, true, true⟩
    else return ⟨← list.insertBlock i receivedTsn, cTsnAck, true, true⟩
  else if lo = cTsnAck + 1 then
    let stop ← list.stop i
    return ⟨← list.closeBlock i, stop, true, true⟩
  else
    let stop ← list.stop i
    let list ← list.setStop (previous i) stop
    return ⟨← list.closeBlock i, cTsnAck, true, true⟩

/-- There is no block, or the TSN is not adjacent to the last one and behind it. -/
def behindLast (receivedTsn : Tsn) : Except GapError Bool :=
  if list.NumGaps = 0 then .ok true
  else do
    let stop ← list.stop (list.NumGaps - 1)
    return tsnGt receivedTsn (stop + 1)

/-- The received TSN is behind the gaps between the blocks. -/
def appendTsn (receivedTsn cTsnAck lo : Tsn) : Except GapError Updated := do
  if receivedTsn = lo then
    if receivedTsn = cTsnAck + 1 then return ⟨list, receivedTsn, true, true⟩
    else
      let stop ← list.stop (previous list.NumGaps)
      return ⟨← list.setStop (previous list.NumGaps) (stop + 1), cTsnAck, true, true⟩
  else
    let behind ← list.behindLast receivedTsn
    if behind && decide (list.NumGaps < MAX_GAP_COUNT) then
      let appended ← list.setStart list.NumGaps receivedTsn
      let appended ← appended.setStop list.NumGaps receivedTsn
      return ⟨{ appended with NumGaps := list.NumGaps + 1 }, cTsnAck, true, true⟩
    else return ⟨list, cTsnAck, false, true⟩

/-- The loop over the blocks, from the first one upwards. -/
def updateLoop (receivedTsn cTsnAck : Tsn) : (remaining : Nat) → (lo : Tsn) →
    Except GapError Updated
  | 0, lo => list.appendTsn receivedTsn cTsnAck lo
  | remaining + 1, lo => do
    let i := list.NumGaps - (remaining + 1)
    let start ← list.start i
    if start > 0 then
      let hi := start - 1
      if tsnBetween lo receivedTsn hi then list.fillGap receivedTsn cTsnAck lo hi i
      else
        let stop ← list.stop i
        updateLoop receivedTsn cTsnAck remaining (stop + 1)
    else updateLoop receivedTsn cTsnAck remaining lo

def updateGapList (receivedTsn cTsnAck : Tsn) : Except GapError Updated :=
  if tsnLe receivedTsn cTsnAck then .ok ⟨list, cTsnAck, false, false⟩
  else list.updateLoop receivedTsn cTsnAck list.NumGaps (cTsnAck + 1)

end SctpSimpleGapList

structure SctpGapList where
  CumAckTsn : Tsn
  RevokableGapList : SctpSimpleGapList
  NonRevokableGapList : SctpSimpleGapList
  CombinedGapList : SctpSimpleGapList
deriving DecidableEq

namespace SctpGapList

def new : SctpGapList := ⟨0, .new, .new, .new⟩

variable (list : SctpGapList)

def setInitialCumAckTsn (cumAckTsn : Tsn) : Except GapError SctpGapList := do
  SctpSimpleGapList.assert (list.CombinedGapList.NumGaps = 0)
  return { list with CumAckTsn := cumAckTsn }

def check : Except GapError Unit := do
  list.CombinedGapList.check list.CumAckTsn
  list.RevokableGapList.check list.CumAckTsn
  list.NonRevokableGapList.check list.CumAckTsn

def tsnInGapList (tsn : Tsn) : Except GapError Bool := list.CombinedGapList.tsnInGapList tsn

def tsnIsRevokable (tsn : Tsn) : Except GapError Bool := list.RevokableGapList.tsnInGapList tsn

def tsnIsNonRevokable (tsn : Tsn) : Except GapError Bool :=
  list.NonRevokableGapList.tsnInGapList tsn

def forwardCumAckTsn (cumAckTsn : Tsn) : Except GapError SctpGapList := do
  let combined ← list.CombinedGapList.forwardCumAckTsn cumAckTsn
  let revokable ← list.RevokableGapList.forwardCumAckTsn cumAckTsn
  let nonRevokable ← list.NonRevokableGapList.forwardCumAckTsn cumAckTsn
  return ⟨cumAckTsn, revokable, nonRevokable, combined⟩

def tryToAdvanceCumAckTsn : Except GapError (SctpGapList × Bool) := do
  let (combined, cumAckTsn, progress) ← list.CombinedGapList.tryToAdvanceCumAckTsn list.CumAckTsn
  if progress then
    let revokable ← list.RevokableGapList.forwardCumAckTsn cumAckTsn
    let nonRevokable ← list.NonRevokableGapList.forwardCumAckTsn cumAckTsn
    return (⟨cumAckTsn, revokable, nonRevokable, combined⟩, true)
  else return ({ list with CumAckTsn := cumAckTsn, CombinedGapList := combined }, false)

def removeFromGapList (removedTsn : Tsn) : Except GapError SctpGapList := do
  let revokable ← list.RevokableGapList.removeFromGapList removedTsn
  let nonRevokable ← list.NonRevokableGapList.removeFromGapList removedTsn
  let combined ← list.CombinedGapList.removeFromGapList removedTsn
  return ⟨list.CumAckTsn, revokable, nonRevokable, combined⟩

/-- The lists of revokable or of other TSNs are updated, each with a copy of the cumulative TSN. The
last result is whether a new chunk was received. -/
def updateKind (receivedTsn : Tsn) (tsnIsRevokable : Bool) :
    Except GapError (SctpSimpleGapList × SctpSimpleGapList × Bool) :=
  if tsnIsRevokable then do
    let updated ← list.RevokableGapList.updateGapList receivedTsn list.CumAckTsn
    return (updated.list, list.NonRevokableGapList, updated.newChunkReceived)
  else do
    let updated ← list.NonRevokableGapList.updateGapList receivedTsn list.CumAckTsn
    if updated.returned then
      let revokable ← list.RevokableGapList.removeFromGapList receivedTsn
      return (revokable, updated.list, updated.newChunkReceived)
    else return (list.RevokableGapList, updated.list, updated.newChunkReceived)

/-- What an update returns and changes. -/
structure Updated where
  list : SctpGapList
  newChunkReceived : Bool
  returned : Bool

def updateGapList (receivedTsn : Tsn) (tsnIsRevokable : Bool) : Except GapError Updated := do
  let (revokable, nonRevokable, newChunk) ← list.updateKind receivedTsn tsnIsRevokable
  let updated ← list.CombinedGapList.updateGapList receivedTsn list.CumAckTsn
  let newChunk := newChunk || updated.newChunkReceived
  if list.CumAckTsn ≠ updated.cTsnAck then
    let revokable ← revokable.forwardCumAckTsn updated.cTsnAck
    let nonRevokable ← nonRevokable.forwardCumAckTsn updated.cTsnAck
    return ⟨⟨updated.cTsnAck, revokable, nonRevokable, updated.list⟩, newChunk, updated.returned⟩
  else
    return ⟨⟨updated.cTsnAck, revokable, nonRevokable, updated.list⟩, newChunk, updated.returned⟩

/-- All lists start anew. -/
def resetGaps (newCumAck : Tsn) : SctpGapList :=
  ⟨newCumAck, SctpSimpleGapList.resetGaps, SctpSimpleGapList.resetGaps,
    SctpSimpleGapList.resetGaps⟩

end SctpGapList

end Inet.Sctp
