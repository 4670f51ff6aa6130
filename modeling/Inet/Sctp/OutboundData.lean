import Mathlib
import Inet.Lib.Except

/-!
# Outbound data of an SCTP association

Messages of the application wait in the queues of the streams. The message at the front of a queue
is cut into fragments before it is dequeued, and what is dequeued becomes a data chunk with a TSN.
Partial reliability, counters and the data of messages that is only passed on are left out.
-/
namespace Inet.Sctp

open Lib

inductive SctpError where
  | error (message : String)
  | undefinedBehaviour
deriving DecidableEq

def SCTP_DATA_CHUNK_LENGTH : Nat := 16

def ADD_PADDING (x : Nat) : Nat := ((x + 3) >>> 2) <<< 2

/-- The conversion to `int32_t`. -/
def toInt32 (x : Int) : Int := x.bmod (2 ^ 32)

/-- What the application sends. -/
structure Message where
  sid : Nat
  ordered : Bool
  data : List UInt8
deriving DecidableEq

structure SctpDataMsg where
  sid : Nat
  ordered : Bool
  userData : List UInt8
  booksize : Nat
  fragment : Bool := false
  bBit : Bool := false
  eBit : Bool := false
deriving DecidableEq

structure SctpSendStream where
  unorderedStreamQ : List SctpDataMsg := []
  streamQ : List SctpDataMsg := []
  nextStreamSeqNum : Nat := 0
deriving DecidableEq

structure SctpDataVariables where
  sid : Nat
  ordered : Bool
  userData : List UInt8
  booksize : Nat
  bbit : Bool
  ebit : Bool
  ssn : Nat
  tsn : UInt32 := 0
deriving DecidableEq

/-- What stays as it is while data is sent. -/
structure SctpParameters where
  fragPoint : UInt32
  padding : Bool
  header : Nat

/-- The last two fields record what was queued and sent so far. -/
structure SctpAssociation where
  sendStreams : List SctpSendStream
  lastMsgWasFragment : Bool := false
  lastStreamScheduled : Nat := 0
  nextTsn : UInt32
  queued : List Message := []
  sent : List SctpDataVariables := []
deriving DecidableEq

namespace SctpSendStream

/-- The queue that messages are taken from: unordered messages come first. -/
def chosenQ (stream : SctpSendStream) : List SctpDataMsg :=
  if stream.unorderedStreamQ.isEmpty then stream.streamQ else stream.unorderedStreamQ

def setChosenQ (stream : SctpSendStream) (queue : List SctpDataMsg) : SctpSendStream :=
  if stream.unorderedStreamQ.isEmpty then { stream with streamQ := queue }
  else { stream with unorderedStreamQ := queue }

end SctpSendStream

variable (parameters : SctpParameters)

namespace SctpParameters

def booksize (msgbytes : Nat) : Nat :=
  if parameters.padding then ADD_PADDING (msgbytes + parameters.header)
  else msgbytes + parameters.header

/-- The bytes that a message takes in a packet. -/
def chunkBytes (msg : SctpDataMsg) : Int :=
  toInt32 (ADD_PADDING (msg.userData.length + SCTP_DATA_CHUNK_LENGTH))

/-- The largest chunk that stays as it is. -/
def largestChunk : Int := toInt32 parameters.fragPoint.toNat + SCTP_DATA_CHUNK_LENGTH

/-- The fragments of what is left of a message. Each round of the loop takes at least one byte. -/
def fragments (msg : SctpDataMsg) : (rounds : Nat) → (first : Bool) → (data : List UInt8) →
    List SctpDataMsg
  | 0, _, _ => []
  | rounds + 1, first, data =>
    let msgbytes := min parameters.fragPoint.toNat data.length
    let fragment : SctpDataMsg :=
      { sid := msg.sid, ordered := msg.ordered, userData := data.take msgbytes
        booksize := parameters.booksize msgbytes, fragment := true, bBit := first }
    if data.length = msgbytes then [{ fragment with eBit := true }]
    else fragment :: fragments msg rounds false (data.drop msgbytes)

/-- The queue with the message at its front cut into fragments. -/
def fragmentFront : List SctpDataMsg → Except SctpError (List SctpDataMsg)
  | [] => .ok []
  | msg :: rest =>
    if 2 ^ 31 ≤ parameters.largestChunk then .error .undefinedBehaviour
    else if chunkBytes msg > parameters.largestChunk then
      -- the number of full sized packets is computed first
      if parameters.fragPoint = 0 then .error .undefinedBehaviour
      else .ok (parameters.fragments msg (msg.userData.length + 1) true msg.userData ++ rest)
    else .ok (msg :: rest)

def fragmentStream (stream : SctpSendStream) : Except SctpError SctpSendStream := do
  let queue ← parameters.fragmentFront stream.chosenQ
  return stream.setChosenQ queue

/-- The message that is queued for what the application sends. -/
def dataMsg (message : Message) : SctpDataMsg :=
  { sid := message.sid, ordered := message.ordered, userData := message.data
    booksize := parameters.booksize message.data.length }

end SctpParameters

namespace SctpAssociation

/-- A stream is looked up that has to exist. -/
def sendStream (assoc : SctpAssociation) (sid : Nat) : Except SctpError SctpSendStream :=
  match assoc.sendStreams[sid]? with
  | some stream => .ok stream
  | none => .error .undefinedBehaviour

def setStream (assoc : SctpAssociation) (sid : Nat) (stream : SctpSendStream) : SctpAssociation :=
  { assoc with sendStreams := assoc.sendStreams.set sid stream }

def process_SEND (message : Message) (assoc : SctpAssociation) : Except SctpError SctpAssociation :=
  match assoc.sendStreams[message.sid]? with
  | none => .error (.error ("Stream with id " ++ toString message.sid ++ " not found"))
  | some stream =>
    let datMsg := parameters.dataMsg message
    let stream := if message.ordered then { stream with streamQ := stream.streamQ ++ [datMsg] }
      else { stream with unorderedStreamQ := stream.unorderedStreamQ ++ [datMsg] }
    .ok { assoc.setStream message.sid stream with queued := assoc.queued ++ [message] }

def fragmentOutboundDataMsgs (assoc : SctpAssociation) : Except SctpError SctpAssociation := do
  let streams ← assoc.sendStreams.mapM parameters.fragmentStream
  return { assoc with sendStreams := streams }

/-- What a stream scheduler returns, and the stream that it leaves as the last one scheduled. All
schedulers but `pathStreamSchedulerMapToPath` leave the stream that they return. -/
structure Scheduled where
  nextSid : Option Nat
  lastStreamScheduled : Nat

/-- The next stream. It only changes if no fragmented message has to be finished. -/
def nextStream (scheduled : Scheduled) (assoc : SctpAssociation) : Option Nat × SctpAssociation :=
  if assoc.lastMsgWasFragment then (some assoc.lastStreamScheduled, assoc)
  else (scheduled.nextSid, { assoc with lastStreamScheduled := scheduled.lastStreamScheduled })

/-- The message as it is dequeued, and whether it is a fragment with more to follow. -/
def finish (msg : SctpDataMsg) : SctpDataMsg × Bool :=
  if !msg.fragment then ({ msg with bBit := true, eBit := true }, false)
  else if msg.eBit then (msg, false) else (msg, true)

def dequeueOutboundDataMsg (scheduled : Scheduled) (availableSpace availableCwnd : Int)
    (assoc : SctpAssociation) : Except SctpError (Option SctpDataMsg × SctpAssociation) := do
  let assoc ← assoc.fragmentOutboundDataMsgs parameters
  match assoc.nextStream scheduled with
  | (none, assoc) => return (none, assoc)
  | (some sid, assoc) =>
    let stream ← assoc.sendStream sid
    match stream.chosenQ with
    | [] => return (none, assoc)
    | msg :: rest =>
      if SctpParameters.chunkBytes msg ≤ availableSpace ∧
          toInt32 msg.booksize ≤ availableCwnd then
        let (datMsg, more) := finish msg
        return (some datMsg,
          { assoc.setStream sid (stream.setChosenQ rest) with lastMsgWasFragment := more })
      else return (none, assoc)

def makeDataVarFromDataMsg (datMsg : SctpDataMsg) (assoc : SctpAssociation) :
    Except SctpError (SctpDataVariables × SctpAssociation) := do
  let stream ← assoc.sendStream datMsg.sid
  let nextSSN := stream.nextStreamSeqNum
  let datVar : SctpDataVariables :=
    { sid := datMsg.sid, ordered := datMsg.ordered, userData := datMsg.userData
      booksize := datMsg.booksize, bbit := datMsg.bBit, ebit := datMsg.eBit, ssn := 0 }
  if datMsg.ordered then
    let afterwards := if datMsg.eBit then nextSSN + 1 else nextSSN
    let stream := { stream with
      nextStreamSeqNum := if afterwards > 65535 then 0 else afterwards }
    return ({ datVar with ssn := nextSSN }, assoc.setStream datMsg.sid stream)
  else return (datVar, assoc)

/-- A message is dequeued, becomes a data chunk and gets its TSN. -/
def sendOnPath (scheduled : Scheduled) (availableSpace availableCwnd : Int)
    (assoc : SctpAssociation) : Except SctpError SctpAssociation := do
  match ← assoc.dequeueOutboundDataMsg parameters scheduled availableSpace availableCwnd with
  | (none, assoc) => return assoc
  | (some datMsg, assoc) =>
    let (datVar, assoc) ← assoc.makeDataVarFromDataMsg datMsg
    return { assoc with
      sent := assoc.sent ++ [{ datVar with tsn := assoc.nextTsn }], nextTsn := assoc.nextTsn + 1 }

end SctpAssociation

/-- Before anything is sent. -/
def initStreams (outStreams : Nat) (initialTsn : UInt32) : SctpAssociation :=
  { sendStreams := List.replicate outStreams {}, nextTsn := initialTsn }

end Inet.Sctp
