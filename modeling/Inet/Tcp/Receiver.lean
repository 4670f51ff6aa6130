import Inet.Tcp.ReceiveOutline
import Inet.Tcp.SackOption

/-!
# Receiving data

What a connection does with the text and the FIN of a segment, as far as it concerns the receive
queue, the receive window and the blocks that are to be reported.
-/
namespace Inet.Tcp

open Lib

/-- What the receiver looks at in a segment without SYN and RST. -/
structure Arrival where
  sequenceNo : SeqNum
  payloadLength : Nat
  finBit : Bool := false
  /-- The segment acknowledges something new. -/
  acksNew : Bool := false
  /-- The timestamp is older than the last one, which PAWS takes for an old duplicate. -/
  tooOld : Bool := false
  short : payloadLength < 2 ^ 16
deriving DecidableEq

/-- The variables of a connection that receiving depends on. -/
structure TcpReceiver where
  rcv_nxt : SeqNum
  rcv_adv : SeqNum
  rcv_wnd : BitVec 32
  snd_mss : BitVec 32
  maxRcvBuffer : BitVec 32
  freeRcvBuffer : BitVec 32
  usedRcvBuffer : BitVec 32
  ws_enabled : Bool
  rcv_wnd_scale : Nat
  fin_rcvd : Bool
  rcv_fin_seq : SeqNum
  sack_enabled : Bool
  snd_sack : Bool
  snd_dsack : Bool
  start_seqno : SeqNum
  end_seqno : SeqNum
  sacks_array : List Sack
  receiveQueue : ReceiveOutline
deriving DecidableEq, Repr

namespace Arrival

variable (a : Arrival)

/-- The sequence number behind the text. -/
def stop : SeqNum := a.sequenceNo + BitVec.ofNat 32 a.payloadLength

end Arrival

namespace TcpReceiver

variable (r : TcpReceiver)

def isSegmentAcceptable (a : Arrival) : Bool :=
  let rcvWndEnd := r.rcv_nxt + r.rcv_wnd
  if a.payloadLength = 0 then
    (if r.rcv_wnd = 0 then a.sequenceNo == r.rcv_nxt
      else seqLE r.rcv_nxt a.sequenceNo && seqLE a.sequenceNo rcvWndEnd) || a.acksNew
  else
    r.rcv_wnd ≠ 0 &&
      ((seqLE r.rcv_nxt a.sequenceNo && seqLess a.sequenceNo rcvWndEnd) ||
        (seqLess r.rcv_nxt a.stop && seqLE a.stop rcvWndEnd))

/-- The first check of a segment. -/
def accepts (a : Arrival) : Bool := !a.tooOld && r.isSegmentAcceptable a

def updateRcvQueueVars : TcpReceiver :=
  let freeRcvBuffer := r.receiveQueue.getAmountOfFreeBytes r.maxRcvBuffer
  { r with freeRcvBuffer, usedRcvBuffer := r.maxRcvBuffer - freeRcvBuffer }

def hasEnoughSpaceForSegmentInReceiveQueue (a : Arrival) : Bool :=
  let firstSeq := r.receiveQueue.getFirstSeqNo
  let behind := seqLess a.sequenceNo firstSeq
  let payloadSeq := if behind then firstSeq else a.sequenceNo
  let payloadLength : Int :=
    if behind then a.payloadLength - (firstSeq - a.sequenceNo).toNat else a.payloadLength
  seqLE firstSeq payloadSeq &&
    seqLE (payloadSeq + BitVec.ofInt 32 payloadLength) (firstSeq + r.maxRcvBuffer)

/-- The text goes into the receive queue. -/
def insertText (debug : Bool) (a : Arrival) : Except TcpError TcpReceiver := do
  let (rcv_nxt, receiveQueue) ←
    r.receiveQueue.insertBytesFromSegment debug a.sequenceNo a.payloadLength
  return { r with rcv_nxt, receiveQueue }

/-- The loop calls once more after it got data, but `extractBytesUpTo` takes all there is. -/
def readAll : Except TcpError TcpReceiver := do
  let (data, receiveQueue) ← r.receiveQueue.extractBytesUpTo r.rcv_nxt
  match data with
  | none => return { r with receiveQueue }
  | some _ =>
    let (_, receiveQueue) ← receiveQueue.extractBytesUpTo r.rcv_nxt
    return { r with receiveQueue }

/-- All segments up to one that carried a FIN have arrived. -/
def passStoredFin : TcpReceiver :=
  if r.fin_rcvd && r.rcv_nxt == r.rcv_fin_seq then { r with rcv_nxt := r.rcv_fin_seq + 1 } else r

/-- A FIN that is above sequence is remembered. -/
def processFin (a : Arrival) : TcpReceiver :=
  if r.rcv_nxt = a.stop then { r with rcv_nxt := r.rcv_nxt + 1 }
  else { r with fin_rcvd := true, rcv_fin_seq := a.stop }

end TcpReceiver
end Inet.Tcp

/-!
## Adding SACKs to a header

`addSacks` remembers the blocks that it reported, and reports them again behind the block of the
segment that has just arrived.
-/
namespace Inet.Tcp

open Lib

namespace Sack

variable (s other : Sack)

end Sack

namespace TcpReceiver

variable (r : TcpReceiver)

end TcpReceiver
end Inet.Tcp
