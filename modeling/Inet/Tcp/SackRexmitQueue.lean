import Inet.Tcp.TcpHeader

/-!
# The SACK retransmission queue

`TcpSackRexmitQueue` keeps the sent and not yet acknowledged part of the sequence space
as a list of adjacent regions. A failed `ASSERT` is an error carrying the condition.
-/
namespace Inet.Tcp

structure Region where
  beginSeqNum : SeqNum
  endSeqNum : SeqNum
  sacked : Bool
  rexmitted : Bool
deriving DecidableEq, Repr

structure TcpSackRexmitQueue where
  rexmitQueue : List Region
  begin_ : SeqNum
  end_ : SeqNum
deriving DecidableEq, Repr

def assert (condition : Bool) (text : String) : Except String Unit :=
  if condition then .ok () else .error text

namespace TcpSackRexmitQueue

/-- The constructor. -/
def new : TcpSackRexmitQueue := ⟨[], 0, 0⟩

/-- `init` moves both ends and leaves the list of regions alone. -/
def init (q : TcpSackRexmitQueue) (seqNum : SeqNum) : TcpSackRexmitQueue :=
  { q with begin_ := seqNum, end_ := seqNum }

/-- The loop of `checkQueue`: the regions are non-empty and each starts where the
one before it ended. -/
def checkRegions (b end_ : SeqNum) : List Region → Bool
  | [] => b == end_
  | elem :: rest =>
    b == elem.beginSeqNum && seqLess elem.beginSeqNum elem.endSeqNum &&
      checkRegions elem.endSeqNum end_ rest

def checkQueue (q : TcpSackRexmitQueue) : Bool :=
  checkRegions q.begin_ q.end_ q.rexmitQueue

/-- Acknowledged regions are erased, the one `seqNum` falls into loses its beginning. -/
def discardRegions (seqNum : SeqNum) (regions : List Region) : Except String (List Region) :=
  match regions.dropWhile (fun i => seqLE i.endSeqNum seqNum) with
  | [] => .ok []
  | i :: rest => do
    assert (seqLE i.beginSeqNum seqNum && seqLess seqNum i.endSeqNum)
      "seqLE(i->beginSeqNum, seqNum) && seqLess(seqNum, i->endSeqNum)"
    return { i with beginSeqNum := seqNum } :: rest

def discardUpTo (q : TcpSackRexmitQueue) (seqNum : SeqNum) : Except String TcpSackRexmitQueue := do
  assert (seqLE q.begin_ seqNum && seqLE seqNum q.end_) "seqLE(begin, seqNum) && seqLE(seqNum, end)"
  let regions ← discardRegions seqNum q.rexmitQueue
  let q' := { q with rexmitQueue := regions, begin_ := seqNum }
  assert q'.checkQueue "checkQueue()"
  return q'

/-- Both mutators look up the region holding `seqNum` and split it there, unless it
already starts there. The two lists are the regions before and from `seqNum` on. -/
def splitAt (regions : List Region) (seqNum : SeqNum) :
    Except String (List Region × List Region) :=
  let before := regions.takeWhile (fun i => seqLE i.endSeqNum seqNum)
  match regions.dropWhile (fun i => seqLE i.endSeqNum seqNum) with
  | [] => .error "i != rexmitQueue.end()"
  | i :: after => do
    assert (seqLE i.beginSeqNum seqNum && seqLess seqNum i.endSeqNum)
      "seqLE(i->beginSeqNum, fromSeqNum) && seqLess(fromSeqNum, i->endSeqNum)"
    if i.beginSeqNum != seqNum then
      return (before ++ [{ i with endSeqNum := seqNum }], { i with beginSeqNum := seqNum } :: after)
    else
      return (before, i :: after)

/-- The loop over the regions that end by `toSeqNum`: the marked ones, the others, and
the value `fromSeqNum` is left with. -/
def markRexmitted (toSeqNum : SeqNum) :
    List Region → SeqNum → List Region × List Region × SeqNum
  | [], fromSeqNum => ([], [], fromSeqNum)
  | i :: rest, fromSeqNum =>
    if seqLE i.endSeqNum toSeqNum then
      let (marked, others, last) := markRexmitted toSeqNum rest i.endSeqNum
      ({ i with rexmitted := true } :: marked, others, last)
    else
      ([], i :: rest, fromSeqNum)

/-- What is left of the range after the loop: the head of the region it ends in, or new
bytes behind the last region. -/
def insertRest (others : List Region) (fromSeqNum toSeqNum : SeqNum) :
    Except String (List Region) :=
  match others with
  | [] => .ok [⟨fromSeqNum, toSeqNum, false, false⟩]
  | i :: after => do
    assert (seqLess i.beginSeqNum toSeqNum)
      "i == rexmitQueue.end() || seqLess(i->beginSeqNum, toSeqNum)"
    return ⟨fromSeqNum, toSeqNum, i.sacked, true⟩ :: { i with beginSeqNum := toSeqNum } :: after

/-- The region list `enqueueSentData` builds. -/
def enqueueRegions (q : TcpSackRexmitQueue) (fromSeqNum toSeqNum : SeqNum) :
    Except String (List Region) :=
  if q.rexmitQueue.isEmpty || q.end_ == fromSeqNum then
    .ok (q.rexmitQueue ++ [⟨fromSeqNum, toSeqNum, false, false⟩])
  else do
    let (before, rest) ← splitAt q.rexmitQueue fromSeqNum
    let (marked, others, last) := markRexmitted toSeqNum rest fromSeqNum
    if last != toSeqNum then
      let others' ← insertRest others last toSeqNum
      return before ++ marked ++ others'
    else
      assert (!marked.isEmpty) "found"
      return before ++ marked ++ others

def enqueueSentData (q : TcpSackRexmitQueue) (fromSeqNum toSeqNum : SeqNum) :
    Except String TcpSackRexmitQueue := do
  assert (seqLE q.begin_ fromSeqNum && seqLE fromSeqNum q.end_)
    "seqLE(begin, fromSeqNum) && seqLE(fromSeqNum, end)"
  assert (seqLess fromSeqNum toSeqNum) "seqLess(fromSeqNum, toSeqNum)"
  let regions ← enqueueRegions q fromSeqNum toSeqNum
  let q' : TcpSackRexmitQueue :=
    { rexmitQueue := regions
      begin_ := (regions.head?.map Region.beginSeqNum).getD q.begin_
      end_ := (regions.getLast?.map Region.endSeqNum).getD q.end_ }
  assert q'.checkQueue "checkQueue()"
  return q'

/-- The loop of `setSackedBit` over the regions from `fromSeqNum` on, with the split of
the region the range ends in. -/
def markSacked (fromSeqNum toSeqNum : SeqNum) : List Region → List Region
  | [] => []
  | i :: rest =>
    if seqLE i.endSeqNum toSeqNum then
      (if seqGE i.beginSeqNum fromSeqNum then { i with sacked := true } else i) ::
        markSacked fromSeqNum toSeqNum rest
    else if seqLess i.beginSeqNum toSeqNum && seqLess toSeqNum i.endSeqNum then
      { i with endSeqNum := toSeqNum, sacked := true } :: { i with beginSeqNum := toSeqNum } :: rest
    else
      i :: rest

def setSackedBit (q : TcpSackRexmitQueue) (fromSeqNum toSeqNum : SeqNum) :
    Except String TcpSackRexmitQueue := do
  let fromSeqNum := if seqLess fromSeqNum q.begin_ then q.begin_ else fromSeqNum
  assert (seqLess fromSeqNum q.end_) "seqLess(fromSeqNum, end)"
  assert (seqLess q.begin_ toSeqNum && seqLE toSeqNum q.end_)
    "seqLess(begin, toSeqNum) && seqLE(toSeqNum, end)"
  assert (seqLess fromSeqNum toSeqNum) "seqLess(fromSeqNum, toSeqNum)"
  let regions ←
    if q.rexmitQueue.isEmpty then pure []
    else do
      let (before, rest) ← splitAt q.rexmitQueue fromSeqNum
      pure (before ++ markSacked fromSeqNum toSeqNum rest)
  let q' := { q with rexmitQueue := regions }
  assert q'.checkQueue "checkQueue()"
  return q'

def resetSackedBit (q : TcpSackRexmitQueue) : TcpSackRexmitQueue :=
  { q with rexmitQueue := q.rexmitQueue.map fun elem => { elem with sacked := false } }

def resetRexmittedBit (q : TcpSackRexmitQueue) : TcpSackRexmitQueue :=
  { q with rexmitQueue := q.rexmitQueue.map fun elem => { elem with rexmitted := false } }

/-- The region holding a sequence number, found as the code finds it. -/
def regionAt (q : TcpSackRexmitQueue) (seqNum : SeqNum) : Option Region :=
  q.rexmitQueue.find? fun i => seqLE i.beginSeqNum seqNum && seqLess seqNum i.endSeqNum

end TcpSackRexmitQueue

/-- The calls that change the queue. -/
inductive RexmitCall where
  | init (seqNum : SeqNum)
  | enqueueSentData (fromSeqNum toSeqNum : SeqNum)
  | setSackedBit (fromSeqNum toSeqNum : SeqNum)
  | discardUpTo (seqNum : SeqNum)
  | resetSackedBit
  | resetRexmittedBit
deriving DecidableEq, Repr

def RexmitCall.step (q : TcpSackRexmitQueue) : RexmitCall → Except String TcpSackRexmitQueue
  | .init seqNum => .ok (q.init seqNum)
  | .enqueueSentData fromSeqNum toSeqNum => q.enqueueSentData fromSeqNum toSeqNum
  | .setSackedBit fromSeqNum toSeqNum => q.setSackedBit fromSeqNum toSeqNum
  | .discardUpTo seqNum => q.discardUpTo seqNum
  | .resetSackedBit => .ok q.resetSackedBit
  | .resetRexmittedBit => .ok q.resetRexmittedBit

/-- A queue as constructed, after the given calls. -/
def runRexmit (calls : List RexmitCall) : Except String TcpSackRexmitQueue :=
  calls.foldlM RexmitCall.step .new

end Inet.Tcp
