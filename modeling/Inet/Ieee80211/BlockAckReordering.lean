import Inet.Ieee80211.SequenceNumber
import Inet.Lib.OrderedMap

/-!
# Block ack reordering

The recipient's side of a block ack agreement with one originator about one TID: `ReceiveBuffer`,
`BlockAckRecord`, `BlockAckReordering` and the bitmap of `RecipientBlockAckProcedure`. Maps are
searched by comparing sequence numbers, which is only an order among close ones.
-/
namespace Inet.Ieee80211

open Lib SequenceNumber

inductive ReorderError where
  /-- A map is searched whose keys are not in order. -/
  | unordered
  | outOfRange
  | assertion
  | error (text : String)
deriving DecidableEq

inductive AckPolicy where
  | normalAck
  | noAck
  | noExplicitAck
  | blockAck
deriving DecidableEq

/-- A fragment with the fields of `Ieee80211DataHeader` that are read, and the packet. -/
structure DataFrame (P : Type) where
  sequenceNumber : SequenceNumber
  fragmentNumber : Nat
  moreFragments : Bool
  ackPolicy : AckPolicy
  packet : P
deriving DecidableEq

variable {P : Type}

abbrev Fragments (P : Type) := List (DataFrame P)

abbrev ReorderBuffer (P : Type) := OrderedMap SequenceNumber (Fragments P)

namespace ReorderBuffer

def find (buffer : ReorderBuffer P) (s : SequenceNumber) :
    Except ReorderError (Option (Fragments P)) :=
  OrderedMap.find less .unordered buffer s

def alter (buffer : ReorderBuffer P) (s : SequenceNumber)
    (change : Option (Fragments P) → Fragments P) : Except ReorderError (ReorderBuffer P) :=
  OrderedMap.alter less .unordered buffer s change

def erase (buffer : ReorderBuffer P) (s : SequenceNumber) : Except ReorderError (ReorderBuffer P) :=
  OrderedMap.erase less .unordered buffer s

end ReorderBuffer

structure ReceiveBuffer (P : Type) where
  buffer : ReorderBuffer P
  bufferSize : Nat
  length : Int
  nextExpectedSequenceNumber : SequenceNumber
deriving DecidableEq

namespace ReceiveBuffer

def new (bufferSize : Nat) (nextExpectedSequenceNumber : SequenceNumber) : ReceiveBuffer P :=
  ⟨[], bufferSize, 0, nextExpectedSequenceNumber⟩

variable (receiveBuffer : ReceiveBuffer P)

/-- The frame is not older than the next expected one, and there is room for it. -/
def accepts (sequenceNumber : SequenceNumber) : Bool :=
  decide (receiveBuffer.length < receiveBuffer.bufferSize) &&
    lessOrEqual receiveBuffer.nextExpectedSequenceNumber sequenceNumber &&
    less sequenceNumber
      (receiveBuffer.nextExpectedSequenceNumber + BitVec.ofNat 12 receiveBuffer.bufferSize)

def insertFrame (frame : DataFrame P) : Except ReorderError (ReceiveBuffer P × Bool) :=
  if receiveBuffer.accepts frame.sequenceNumber then do
    let found ← receiveBuffer.buffer.find frame.sequenceNumber
    if (found.getD []).any fun fragment => fragment.sequenceNumber == frame.sequenceNumber &&
        fragment.fragmentNumber == frame.fragmentNumber then
      return (receiveBuffer, false)
    else
      let buffer ← receiveBuffer.buffer.alter frame.sequenceNumber fun fragments =>
        fragments.getD [] ++ [frame]
      return ({ receiveBuffer with
        buffer := buffer
        length := receiveBuffer.length + 1 }, true)
  else .ok (receiveBuffer, false)

def dropFramesUntil (sequenceNumber : SequenceNumber) : ReceiveBuffer P :=
  let dropped := receiveBuffer.buffer.filter fun entry => less entry.1 sequenceNumber
  { receiveBuffer with
    buffer := receiveBuffer.buffer.filter fun entry => !less entry.1 sequenceNumber
    length := receiveBuffer.length - (dropped.map fun entry => entry.2.length).sum }

def removeFrame (sequenceNumber : SequenceNumber) : Except ReorderError (ReceiveBuffer P) := do
  match ← receiveBuffer.buffer.find sequenceNumber with
  | some fragments =>
    let buffer ← receiveBuffer.buffer.erase sequenceNumber
    return { receiveBuffer with
      buffer := buffer
      length := receiveBuffer.length - fragments.length }
  | none => .error (.error ("Unknown sequence number: " ++ toString sequenceNumber.toNat))

def isFull : Except ReorderError Bool :=
  if receiveBuffer.length ≤ receiveBuffer.bufferSize then
    .ok (receiveBuffer.length == receiveBuffer.bufferSize)
  else .error .assertion

end ReceiveBuffer

/-- The order of the pairs of sequence and fragment numbers. -/
def pairLess (a b : SequenceNumber × Nat) : Bool :=
  less a.1 b.1 || (!less b.1 a.1 && decide (a.2 < b.2))

/-- `acknowledgmentState`. -/
abbrev BlockAckRecord := OrderedMap (SequenceNumber × Nat) Bool

namespace BlockAckRecord

variable (acknowledgmentState : BlockAckRecord)

def blockAckPolicyFrameReceived (frame : DataFrame P) : Except ReorderError BlockAckRecord :=
  OrderedMap.alter pairLess .unordered acknowledgmentState
    (frame.sequenceNumber, frame.fragmentNumber) fun _ => true

def getAckState (sequenceNumber : SequenceNumber) (fragmentNumber : Nat) :
    Except ReorderError Bool := do
  match ← OrderedMap.find pairLess .unordered acknowledgmentState
    (sequenceNumber, fragmentNumber) with
  | some _ => return true
  | none =>
    match acknowledgmentState with
    | [] => return true
    | earliest :: _ => return less sequenceNumber earliest.1.1

def removeAckStates (sequenceNumber : SequenceNumber) : BlockAckRecord :=
  acknowledgmentState.filter fun entry => !less entry.1.1 sequenceNumber

end BlockAckRecord

structure RecipientBlockAckAgreement where
  startingSequenceNumber : SequenceNumber
  bufferSize : Nat
  blockAckRecord : BlockAckRecord
deriving DecidableEq

/-- An agreement, and its receive buffer once it is made. -/
structure Recipient (P : Type) where
  agreement : RecipientBlockAckAgreement
  receiveBuffer : Option (ReceiveBuffer P)
deriving DecidableEq

namespace BlockAckReordering

def isComplete (fragments : Fragments P) : Bool :=
  let largestFragmentNumber : Int := fragments.foldl (fun largest fragment =>
    if fragment.moreFragments then largest else fragment.fragmentNumber) (-1)
  let fragNums := (fragments.map fun fragment => fragment.fragmentNumber).dedup
  largestFragmentNumber != -1 && largestFragmentNumber + 1 == fragNums.length

def createReceiveBufferIfNecessary (recipient : Recipient P) : ReceiveBuffer P :=
  match recipient.receiveBuffer with
  | some receiveBuffer => receiveBuffer
  | none => .new recipient.agreement.bufferSize recipient.agreement.startingSequenceNumber

def passedUp (agreement : RecipientBlockAckAgreement) (receiveBuffer : ReceiveBuffer P)
    (sequenceNumber : SequenceNumber) :
    Except ReorderError (RecipientBlockAckAgreement × ReceiveBuffer P) := do
  let receiveBuffer := { receiveBuffer with nextExpectedSequenceNumber := sequenceNumber + 1 }
  let receiveBuffer ← (receiveBuffer.dropFramesUntil sequenceNumber).removeFrame sequenceNumber
  return ({ agreement with
    blockAckRecord := agreement.blockAckRecord.removeAckStates sequenceNumber }, receiveBuffer)

/-- `at(0)` of the fragments. -/
def firstSequenceNumber : Fragments P → Except ReorderError SequenceNumber
  | [] => .error .outOfRange
  | fragment :: _ => .ok fragment.sequenceNumber

/-- A complete entry that is earlier than the earliest one so far replaces it. -/
def earlier (earliest : Fragments P × SequenceNumber) (entry : SequenceNumber × Fragments P) :
    Except ReorderError (Fragments P × SequenceNumber) := do
  let currentSeqNum ← firstSequenceNumber entry.2
  if less currentSeqNum earliest.2 && isComplete entry.2 then return (entry.2, currentSeqNum)
  else return earliest

def getEarliestCompleteMsduOrAMsduIfExists (receiveBuffer : ReceiveBuffer P) :
    Except ReorderError (Fragments P) :=
  match receiveBuffer.buffer.find? fun entry => isComplete entry.2 with
  | none => .ok []
  | some entry => do
    let earliestSeqNum ← firstSequenceNumber entry.2
    let earliest ← receiveBuffer.buffer.foldlM earlier (entry.2, earliestSeqNum)
    return earliest.1

/-- After a frame was inserted, the earliest complete MSDU is passed up if it is the next expected one
or the buffer is full. -/
def passUpEarliest (agreement : RecipientBlockAckAgreement) (receiveBuffer : ReceiveBuffer P) :
    Except ReorderError (Recipient P × ReorderBuffer P) := do
  let earliestCompleteMsduOrAMsdu ← getEarliestCompleteMsduOrAMsduIfExists receiveBuffer
  match earliestCompleteMsduOrAMsdu with
  | [] => return (⟨agreement, some receiveBuffer⟩, [])
  | fragment :: _ =>
    let earliestSequenceNumber := fragment.sequenceNumber
    let full ← receiveBuffer.isFull
    if full || earliestSequenceNumber == receiveBuffer.nextExpectedSequenceNumber then
      let (agreement, receiveBuffer) ← passedUp agreement receiveBuffer earliestSequenceNumber
      return (⟨agreement, some receiveBuffer⟩,
        [(earliestSequenceNumber, earliestCompleteMsduOrAMsdu)])
    else return (⟨agreement, some receiveBuffer⟩, [])

/-- Frames with the block ack policy are recorded. -/
def recordFrame (agreement : RecipientBlockAckAgreement) (frame : DataFrame P) :
    Except ReorderError RecipientBlockAckAgreement :=
  if frame.ackPolicy = .blockAck then do
    let blockAckRecord ← agreement.blockAckRecord.blockAckPolicyFrameReceived frame
    return { agreement with blockAckRecord := blockAckRecord }
  else .ok agreement

def processReceivedQoSFrame (recipient : Recipient P) (frame : DataFrame P) :
    Except ReorderError (Recipient P × ReorderBuffer P) := do
  let (receiveBuffer, inserted) ← (createReceiveBufferIfNecessary recipient).insertFrame frame
  if inserted then
    let agreement ← recordFrame recipient.agreement frame
    passUpEarliest agreement receiveBuffer
  else return (⟨recipient.agreement, some receiveBuffer⟩, [])

def collectCompletePrecedingMpdus (receiveBuffer : ReceiveBuffer P)
    (startingSequenceNumber : SequenceNumber) : Except ReorderError (ReorderBuffer P) :=
  receiveBuffer.buffer.foldlM (fun preceding entry =>
    if less entry.1 startingSequenceNumber && isComplete entry.2 then
      preceding.alter entry.1 fun _ => entry.2
    else .ok preceding) []

/-- Returns nothing if the MSDU is not complete. -/
def addMsduIfComplete (receiveBuffer : ReceiveBuffer P) (reorderBuffer : ReorderBuffer P)
    (seqNum : SequenceNumber) : Except ReorderError (Option (ReorderBuffer P)) := do
  match ← receiveBuffer.buffer.find seqNum with
  | some fragments =>
    if isComplete fragments then
      let reorderBuffer ← reorderBuffer.alter seqNum fun _ => fragments
      return some reorderBuffer
    else return none
  | none => return none

/-- The loop over the sequence numbers from an index on. -/
def collectFrom (receiveBuffer : ReceiveBuffer P) (startingSequenceNumber : SequenceNumber) :
    (remaining i : Nat) → ReorderBuffer P → Except ReorderError (ReorderBuffer P)
  | 0, _, framesToPassUp => .ok framesToPassUp
  | remaining + 1, i, framesToPassUp => do
    let added ← addMsduIfComplete receiveBuffer framesToPassUp
      (startingSequenceNumber + BitVec.ofNat 12 i)
    match added with
    | some framesToPassUp =>
      collectFrom receiveBuffer startingSequenceNumber remaining (i + 1) framesToPassUp
    | none => return framesToPassUp

def collectConsecutiveCompleteFollowingMpdus (receiveBuffer : ReceiveBuffer P)
    (startingSequenceNumber : SequenceNumber) : Except ReorderError (ReorderBuffer P) :=
  collectFrom receiveBuffer startingSequenceNumber receiveBuffer.bufferSize 0 []

def releaseReceiveBuffer (agreement : RecipientBlockAckAgreement) (receiveBuffer : ReceiveBuffer P)
    (reorderBuffer : ReorderBuffer P) :
    Except ReorderError (RecipientBlockAckAgreement × ReceiveBuffer P) :=
  reorderBuffer.foldlM (fun (agreement, receiveBuffer) entry =>
    passedUp agreement receiveBuffer entry.1) (agreement, receiveBuffer)

/-- A `Ieee80211BasicBlockAckReq`, or one of the other variants. -/
inductive BlockAckReq where
  | basic (startingSequenceNumber : SequenceNumber)
  | other
deriving DecidableEq

/-- Without a preceding or following MSDU the window moves to a newer starting sequence number. -/
def moveWindow (receiveBuffer : ReceiveBuffer P) (startingSequenceNumber : SequenceNumber)
    (numOfMsdusToPassUp : Nat) : ReceiveBuffer P :=
  if numOfMsdusToPassUp == 0 &&
      less receiveBuffer.nextExpectedSequenceNumber startingSequenceNumber then
    { receiveBuffer with nextExpectedSequenceNumber := startingSequenceNumber }
  else receiveBuffer

def processReceivedBlockAckReq (recipient : Recipient P) :
    BlockAckReq → Except ReorderError (Recipient P × ReorderBuffer P)
  | .other => .error (.error "Multi-Tid BlockAckReq is currently an unimplemented feature")
  | .basic startingSequenceNumber =>
    match recipient.receiveBuffer with
    | none => .ok (recipient, [])
    | some receiveBuffer => do
      let preceding ← collectCompletePrecedingMpdus receiveBuffer startingSequenceNumber
      let following ← collectConsecutiveCompleteFollowingMpdus receiveBuffer startingSequenceNumber
      let receiveBuffer := moveWindow receiveBuffer startingSequenceNumber
        (preceding.length + following.length)
      let (agreement, receiveBuffer) ←
        releaseReceiveBuffer recipient.agreement receiveBuffer preceding
      let (agreement, receiveBuffer) ← releaseReceiveBuffer agreement receiveBuffer following
      let passed ← following.foldlM (fun passed entry =>
        ReorderBuffer.alter passed entry.1 fun old => old.getD entry.2) preceding
      return (⟨agreement, some receiveBuffer⟩, passed)

end BlockAckReordering

namespace RecipientBlockAckProcedure

/-- The bitmaps of the 64 MSDUs from a sequence number on. -/
def buildBlockAck (agreement : RecipientBlockAckAgreement)
    (startingSequenceNumber : SequenceNumber) : Except ReorderError (List (List Bool)) :=
  (List.range 64).mapM fun i =>
    (List.range 16).mapM fun fragNum =>
      agreement.blockAckRecord.getAckState (startingSequenceNumber + BitVec.ofNat 12 i) fragNum

end RecipientBlockAckProcedure

end Inet.Ieee80211
