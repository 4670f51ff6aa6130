import Inet.Ieee80211.SequenceNumber
import Inet.Lib.OrderedMap

/-!
# Reassembly of fragmented frames

`BasicReassembly` keeps fragments by transmitter, TID and sequence number, in a map that is
searched by comparing the keys. Sequence numbers are only in an order when they are close. An
operation on the map that the standard library leaves undefined is an error here.
-/
set_option linter.dupNamespace false

namespace Inet.Ieee80211

open Lib SequenceNumber

inductive ReassemblyError where
  /-- A map is searched whose keys are not in order. -/
  | unordered
  /-- An iterator is used that was erased or has passed the end. -/
  | invalidIterator
  | outOfRange
  | assertion
deriving DecidableEq, Repr

abbrev MacAddress := UInt64

/-- The kinds of data and management headers. -/
inductive HeaderKind where
  | mgmt
  | data
  | dataWithQos (tid : UInt8)
deriving DecidableEq, Repr

/-- The fields of `Ieee80211DataOrMgmtHeader` that are read. -/
structure FragmentHeader where
  kind : HeaderKind
  transmitterAddress : MacAddress
  sequenceNumber : SequenceNumber
  fragmentNumber : Int
  moreFragments : Bool
deriving DecidableEq, Repr

/-- A frame, with what it carries between its header and its trailer. -/
structure FragmentFrame (P : Type) where
  header : FragmentHeader
  packet : P
deriving DecidableEq

/-- A frame made of what some frames carry, one after the other. -/
structure DefragmentedFrame (P : Type) where
  header : FragmentHeader
  packets : List P
deriving DecidableEq

variable {P : Type}

/-- `defragmentFrames` takes the header of the first frame. -/
def defragmentFrames :
    List (FragmentFrame P) → Except ReassemblyError (DefragmentedFrame P)
  | [] => .error .outOfRange
  | first :: rest =>
    .ok ⟨{ first.header with
      fragmentNumber := 0
      moreFragments := false }, (first :: rest).map fun frame => frame.packet⟩

namespace BasicReassembly

structure Key where
  macAddress : MacAddress
  tid : Int8
  seqNum : SequenceNumber
deriving DecidableEq, Repr

/-- `operator<`. -/
def Key.less (a b : Key) : Bool :=
  decide (a.macAddress < b.macAddress) || (a.macAddress == b.macAddress &&
    (decide (a.tid < b.tid) || (a.tid == b.tid && SequenceNumber.less a.seqNum b.seqNum)))

structure Value (P : Type) where
  fragments : List (Option (FragmentFrame P)) := []
  /-- Each bit corresponds to a fragment number. -/
  receivedFragments : UInt16 := 0
  /-- Bits for all fragments set to one; 0 means unfilled. -/
  allFragments : UInt16 := 0
deriving DecidableEq

def MAX_NUM_FRAGMENTS : Nat := 16

namespace Value

variable (value : Value P)

/-- The fragments in their slots, which are made here. -/
def resized : List (Option (FragmentFrame P)) :=
  (value.fragments ++ List.replicate MAX_NUM_FRAGMENTS none).take MAX_NUM_FRAGMENTS

/-- The frame in the slot of a number. -/
def slot (fragNum : Nat) : Option (FragmentFrame P) := value.resized.getD fragNum none

/-- The entry is updated; a frame whose slot is taken is deleted. -/
def update (frame : FragmentFrame P) (fragNum : Nat) : Value P :=
  let fragmentBit : UInt16 := 1 <<< UInt16.ofNat fragNum
  { fragments := if (value.slot fragNum).isNone then value.resized.set fragNum (some frame)
      else value.resized
    receivedFragments := value.receivedFragments ||| fragmentBit
    allFragments := if frame.header.moreFragments then value.allFragments
      else (fragmentBit <<< 1) - 1 }

/-- All fragments arrived. -/
def isComplete : Bool := value.allFragments != 0 && value.allFragments == value.receivedFragments

/-- The fragments that are there. -/
def stored : List (FragmentFrame P) := value.fragments.filterMap id

end Value

abbrev FragmentsMap (P : Type) := OrderedMap Key (Value P)

/-- Whether a frame is returned as it is. -/
def isWhole (header : FragmentHeader) : Bool :=
  (!header.moreFragments && header.fragmentNumber == 0) || header.kind == .mgmt

/-- The key of the entry for a frame. -/
def keyOf (header : FragmentHeader) : Key where
  macAddress := header.transmitterAddress
  tid :=
    match header.kind with
    | .dataWithQos tid => tid.toInt8
    | _ => -1
  seqNum := header.sequenceNumber

section Operations

variable (fragmentsMap : FragmentsMap P)

/-- The entry of a key, made if it is not there. -/
def valueOf (key : Key) : Except ReassemblyError (Value P) := do
  let found ← OrderedMap.find Key.less .unordered fragmentsMap key
  return found.getD {}

/-- The frame that is returned, if any. -/
def addFragment (frame : FragmentFrame P) :
    Except ReassemblyError (Option (DefragmentedFrame P) × FragmentsMap P) :=
  if isWhole frame.header then .ok (some ⟨frame.header, [frame.packet]⟩, fragmentsMap)
  else if frame.header.fragmentNumber < 0 ∨ MAX_NUM_FRAGMENTS ≤ frame.header.fragmentNumber then
    .error .assertion
  else do
    let key := keyOf frame.header
    let value ← valueOf fragmentsMap key
    let value := value.update frame frame.header.fragmentNumber.toNat
    let fragmentsMap ← OrderedMap.alter Key.less .unordered fragmentsMap key fun _ => value
    -- if all fragments arrived, return assembled frame
    if value.isComplete then
      let defragmentedFrame ← defragmentFrames value.stored
      let fragmentsMap ← OrderedMap.erase Key.less .unordered fragmentsMap key
      return (some defragmentedFrame, fragmentsMap)
    else return (none, fragmentsMap)

/-- A sequence number from an `int`. -/
def toSequenceNumber (number : Int) : Except ReassemblyError SequenceNumber :=
  let value := number.bmod 65536
  if 0 ≤ value ∧ value < 4096 then .ok (BitVec.ofInt 12 value) else .error .assertion

/-- The loop from an iterator to another one. -/
def eraseRange (itStart itEnd : Nat) : Except ReassemblyError (FragmentsMap P) :=
  if itStart ≤ itEnd then .ok (fragmentsMap.take itStart ++ fragmentsMap.drop itEnd)
  else .error .invalidIterator

/-- The loop from an iterator to the end of the map, and where another iterator points to then. -/
def eraseToEnd (itStart itEnd : Nat) : Except ReassemblyError (FragmentsMap P × Nat) :=
  if itEnd = fragmentsMap.length then .ok (fragmentsMap.take itStart, (fragmentsMap.take itStart).length)
  else if itEnd < itStart then .ok (fragmentsMap.take itStart, itEnd)
  else .error .invalidIterator

def purge (address : MacAddress) (tid startSeqNumber endSeqNumber : Int) :
    Except ReassemblyError (FragmentsMap P) := do
  let startSeqNum ← toSequenceNumber startSeqNumber
  let itStart ← OrderedMap.lowerBound Key.less .unordered fragmentsMap
    ⟨address, Int8.ofInt tid, startSeqNum⟩
  let endSeqNum ← toSequenceNumber endSeqNumber
  let itEnd ← OrderedMap.upperBound Key.less .unordered fragmentsMap
    ⟨address, Int8.ofInt tid, endSeqNum⟩
  if endSeqNumber < startSeqNumber then
    let (fragmentsMap, itEnd) ← eraseToEnd fragmentsMap itStart itEnd
    eraseRange fragmentsMap 0 itEnd
  else eraseRange fragmentsMap itStart itEnd

end Operations

end BasicReassembly
end Inet.Ieee80211
