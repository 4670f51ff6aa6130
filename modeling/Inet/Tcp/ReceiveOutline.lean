import Inet.Lib.SpanList
import Inet.Tcp.TcpHeader

/-!
# The receive queue without the data

Which bytes are in the receive queue decides what is acknowledged, how much room there is and
which blocks are reported. The regions of the reorder buffer are kept with their ends only.
-/
namespace Inet.Tcp

open Lib Lib.Serial Lib.SpanList

/-- The offsets of the regions count bytes. -/
structure ReceiveOutline where
  rcv_nxt : SeqNum
  regions : List (Span Nat)
  expectedOffset : Nat
deriving DecidableEq, Repr

namespace ReceiveOutline

abbrev offsetToSeq (offs : Nat) : SeqNum := seqOf 0 offs

variable (queue : ReceiveOutline)

def init (startSeq : SeqNum) : ReceiveOutline where
  rcv_nxt := startSeq
  regions := []
  expectedOffset := startSeq.toNat

def seqToOffset (seq : SeqNum) : Int :=
  let expSeq := offsetToSeq queue.expectedOffset
  if seqGE seq expSeq then queue.expectedOffset + (seq - expSeq).toNat
  else queue.expectedOffset - (expSeq - seq).toNat

def str : String :=
  let ranges := queue.regions.map fun region =>
    " [" ++ toString (offsetToSeq region.start).toNat ++ ".." ++
      toString (offsetToSeq region.stop).toNat ++ ")"
  "rcv_nxt=" ++ toString queue.rcv_nxt.toNat ++ String.join ranges

/-- The check of builds without `NDEBUG`. -/
def checkRange (seq : SeqNum) (payloadLength : Nat) : Except TcpError Unit :=
  match queue.regions.head?, queue.regions.getLast? with
  | some first, some last =>
    let ob := offsetToSeq first.start
    let oe := offsetToSeq last.stop
    let ne := seq + BitVec.ofNat 32 payloadLength
    let minb := seqMin ob seq
    let maxe := seqMax oe ne
    if seqGE minb oe || seqGE minb ne || seqGE ob maxe || seqGE seq maxe then
      .error (.receiveQueue ("The new segment is [" ++ toString seq.toNat ++ ", " ++
        toString ne.toNat ++ ") out of the acceptable range at the queue " ++ queue.str))
    else .ok ()
  | _, _ => .ok ()

/-- What is before the expected offset is left out. -/
def insertBytesFromSegment (debug : Bool) (sequenceNo : SeqNum) (payloadLength : Nat) :
    Except TcpError (SeqNum × ReceiveOutline) := do
  let buffSeq := offsetToSeq queue.expectedOffset
  if debug then queue.checkRange sequenceNo payloadLength
  let offs := if seqLess sequenceNo buffSeq then (buffSeq - sequenceNo).toNat else 0
  let seq := if seqLess sequenceNo buffSeq then buffSeq else sequenceNo
  if payloadLength < offs then throw (.chunk (.error "offset is out of range"))
  else if payloadLength = offs then
    throw (.chunk (.error "Returning an empty chunk is not allowed according to the flags: 0"))
  else if queue.seqToOffset seq < 0 then throw (.chunk (.error "offset is invalid"))
  else
    let offset := (queue.seqToOffset seq).toNat
    let regions := cover ⟨offset, offset + (payloadLength - offs)⟩ queue.regions
    match regions with
    | [] => throw (.chunk .undefinedBehaviour)
    | region :: _ =>
      let rcv_nxt :=
        if seqGE queue.rcv_nxt (offsetToSeq region.start) then offsetToSeq region.stop
        else queue.rcv_nxt
      return (rcv_nxt, { queue with rcv_nxt, regions })

/-- A number of bytes from the expected offset on. -/
def popAvailableData (length : Nat) : Except TcpError (Option Nat × ReceiveOutline) :=
  match queue.regions with
  | region :: rest =>
    if region.start = queue.expectedOffset then
      let expectedOffset := queue.expectedOffset + length
      if region.stop < expectedOffset then .error (.chunk (.error "length is invalid"))
      else
        let regions :=
          if region.stop = expectedOffset then rest else ⟨expectedOffset, region.stop⟩ :: rest
        .ok (some length, { queue with regions, expectedOffset })
    else .ok (none, queue)
  | [] => .ok (none, queue)

/-- The number of bytes, if there are any. -/
def extractBytesUpTo (seq : SeqNum) : Except TcpError (Option Nat × ReceiveOutline) :=
  if seqLE seq queue.rcv_nxt = false then .error (.receiveQueue "seqLE(seq, rcv_nxt)")
  else if queue.regions.isEmpty then .ok (none, queue)
  else
    let maxLength := queue.seqToOffset seq - queue.expectedOffset
    if maxLength ≤ 0 then .ok (none, queue)
    else do
      let (data, queue) ← queue.popAvailableData maxLength.toNat
      if queue.seqToOffset seq < queue.expectedOffset then
        throw (.receiveQueue "reorderBuffer.getExpectedOffset() <= seqToOffset(seq)")
      return (data, queue)

def getAmountOfBufferedBytes : BitVec 32 :=
  BitVec.ofNat 32 (queue.regions.map fun region => region.stop - region.start).sum

def getAmountOfFreeBytes (maxRcvBuffer : BitVec 32) : BitVec 32 :=
  let usedRcvBuffer := queue.getAmountOfBufferedBytes
  if usedRcvBuffer < maxRcvBuffer then maxRcvBuffer - usedRcvBuffer else 0

def getFirstSeqNo : SeqNum :=
  match queue.regions with
  | [] => queue.rcv_nxt
  | region :: _ => seqMin (offsetToSeq region.start) queue.rcv_nxt

end ReceiveOutline
end Inet.Tcp
