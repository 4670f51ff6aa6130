import Mathlib.Data.Set.Insert
import Inet.Ipv4.Ipv4Address
import Inet.Lib.Except

/-!
# Multicast listeners of a router interface

An interface keeps, for each multicast group that is listened to, the sources from which it is wanted: their
list, or the list of all others. The lists are searched by halves, and need not be sorted.
-/
namespace Inet.Ipv4

open Lib

def Ipv4Address.isMulticast (addr : Ipv4Address) : Bool := addr &&& 0xF0000000 == 0xE0000000

inductive McastSourceFilterMode
  | MCAST_INCLUDE_SOURCES
  | MCAST_EXCLUDE_SOURCES
deriving DecidableEq

open McastSourceFilterMode

structure Ipv4MulticastSourceList where
  filterMode : McastSourceFilterMode := MCAST_INCLUDE_SOURCES
  sources : List Ipv4Address := []
deriving DecidableEq

/-! ### Lists of sources -/

/-- `std::lower_bound`, of which each round halves what is left of the range. -/
def lowerBound (sources : List Ipv4Address) (source : Ipv4Address) : Nat → Nat → Nat → Nat
  | 0, first, _ => first
  | rounds + 1, first, length =>
    if length = 0 then first
    else
      let half := length / 2
      if (sources.getD (first + half) 0).ult source then
        lowerBound sources source rounds (first + half + 1) (length - half - 1)
      else lowerBound sources source rounds first half

/-- The source is put where the search ends, unless it stands there. -/
def insertSource (sources : List Ipv4Address) (source : Ipv4Address) : List Ipv4Address :=
  let it := lowerBound sources source sources.length 0 sources.length
  if sources[it]? = some source then sources else sources.take it ++ source :: sources.drop it

def eraseSource (sources : List Ipv4Address) (source : Ipv4Address) : List Ipv4Address :=
  sources.filter (· ≠ source)

namespace Ipv4MulticastSourceList

def ALL_SOURCES : Ipv4MulticastSourceList := { filterMode := MCAST_EXCLUDE_SOURCES, sources := [] }

def isEmpty (list : Ipv4MulticastSourceList) : Bool :=
  list.filterMode = MCAST_INCLUDE_SOURCES && list.sources.isEmpty

def containsAll (list : Ipv4MulticastSourceList) : Bool :=
  list.filterMode = MCAST_EXCLUDE_SOURCES && list.sources.isEmpty

def contains (list : Ipv4MulticastSourceList) (source : Ipv4Address) : Bool :=
  match list.filterMode with
  | MCAST_INCLUDE_SOURCES => decide (source ∈ list.sources)
  | MCAST_EXCLUDE_SOURCES => decide (source ∉ list.sources)

def add (source : Ipv4Address) (list : Ipv4MulticastSourceList) : Ipv4MulticastSourceList :=
  match list.filterMode with
  | MCAST_INCLUDE_SOURCES => { list with sources := insertSource list.sources source }
  | MCAST_EXCLUDE_SOURCES => { list with sources := eraseSource list.sources source }

def remove (source : Ipv4Address) (list : Ipv4MulticastSourceList) : Ipv4MulticastSourceList :=
  match list.filterMode with
  | MCAST_INCLUDE_SOURCES => { list with sources := eraseSource list.sources source }
  | MCAST_EXCLUDE_SOURCES => { list with sources := insertSource list.sources source }

end Ipv4MulticastSourceList

/-! ### Groups -/

structure RouterMulticastGroupData where
  multicastGroup : Ipv4Address
  sourceList : Ipv4MulticastSourceList := {}

/-- The groups with listeners on the link of an interface. -/
abbrev RouterMulticastGroupVector := List RouterMulticastGroupData

namespace RouterMulticastGroupVector

/-- The sources of the first entry for a group. -/
def findRouterGroupData (multicastAddress : Ipv4Address) :
    RouterMulticastGroupVector → Option Ipv4MulticastSourceList
  | [] => none
  | entry :: rest =>
    if entry.multicastGroup = multicastAddress then some entry.sourceList
    else findRouterGroupData multicastAddress rest

/-- The first entry for a group gets other sources. -/
def setSourceList (multicastAddress : Ipv4Address) (sourceList : Ipv4MulticastSourceList) :
    RouterMulticastGroupVector → RouterMulticastGroupVector
  | [] => []
  | entry :: rest =>
    if entry.multicastGroup = multicastAddress then { entry with sourceList } :: rest
    else entry :: setSourceList multicastAddress sourceList rest

def removeRouterGroupData (multicastAddress : Ipv4Address) :
    RouterMulticastGroupVector → RouterMulticastGroupVector
  | [] => []
  | entry :: rest =>
    if entry.multicastGroup = multicastAddress then rest
    else entry :: removeRouterGroupData multicastAddress rest

/-- The sources and the entries when the entry for a group is there: a new one is put behind the others. -/
def enterRouterGroupData (multicastAddress : Ipv4Address) (entries : RouterMulticastGroupVector) :
    Ipv4MulticastSourceList × RouterMulticastGroupVector :=
  match findRouterGroupData multicastAddress entries with
  | some sourceList => (sourceList, entries)
  | none => ({}, entries ++ [{ multicastGroup := multicastAddress }])

end RouterMulticastGroupVector

open RouterMulticastGroupVector

namespace Ipv4InterfaceData

def hasMulticastListener (multicastAddress : Ipv4Address) (entries : RouterMulticastGroupVector) :
    Except String Bool :=
  if multicastAddress.isMulticast then
    .ok (match findRouterGroupData multicastAddress entries with
      | none => false
      | some sourceList => !sourceList.isEmpty)
  else .error "ASSERT: multicastAddress.isMulticast()"

/-- `hasMulticastListener` with a source. -/
def hasMulticastListenerFrom (multicastAddress sourceAddress : Ipv4Address)
    (entries : RouterMulticastGroupVector) : Except String Bool :=
  if multicastAddress.isMulticast then
    .ok (match findRouterGroupData multicastAddress entries with
      | none => false
      | some sourceList => !sourceList.contains sourceAddress)
  else .error "ASSERT: multicastAddress.isMulticast()"

def addMulticastListener (multicastAddress : Ipv4Address) (entries : RouterMulticastGroupVector) :
    Except String RouterMulticastGroupVector :=
  if multicastAddress.isMulticast then
    let entered := enterRouterGroupData multicastAddress entries
    .ok (if entered.1.containsAll then entered.2
      else setSourceList multicastAddress .ALL_SOURCES entered.2)
  else .error "Ipv4InterfaceData::addMulticastListener(): multicast address expected"

/-- `addMulticastListener` with a source. -/
def addMulticastListenerFrom (multicastAddress sourceAddress : Ipv4Address)
    (entries : RouterMulticastGroupVector) : Except String RouterMulticastGroupVector :=
  if multicastAddress.isMulticast then
    let entered := enterRouterGroupData multicastAddress entries
    .ok (if entered.1.contains sourceAddress then entered.2
      else setSourceList multicastAddress (entered.1.add sourceAddress) entered.2)
  else .error "Ipv4InterfaceData::addMulticastListener(): multicast address expected"

def removeMulticastListener (multicastAddress : Ipv4Address) (entries : RouterMulticastGroupVector) :
    RouterMulticastGroupVector :=
  removeRouterGroupData multicastAddress entries

/-- `removeMulticastListener` with a source. -/
def removeMulticastListenerFrom (multicastAddress sourceAddress : Ipv4Address)
    (entries : RouterMulticastGroupVector) : RouterMulticastGroupVector :=
  match findRouterGroupData multicastAddress entries with
  | none => entries
  | some sourceList =>
    if (sourceList.remove sourceAddress).isEmpty then removeRouterGroupData multicastAddress entries
    else setSourceList multicastAddress (sourceList.remove sourceAddress) entries

def setMulticastListeners (multicastAddress : Ipv4Address) (filterMode : McastSourceFilterMode)
    (sources : List Ipv4Address) (entries : RouterMulticastGroupVector) :
    Except String RouterMulticastGroupVector :=
  if multicastAddress.isMulticast then
    let entered := enterRouterGroupData multicastAddress entries
    .ok (if filterMode ≠ entered.1.filterMode ∨ sources ≠ entered.1.sources then
      if filterMode ≠ MCAST_INCLUDE_SOURCES ∨ sources ≠ [] then
        setSourceList multicastAddress { filterMode, sources } entered.2
      else removeRouterGroupData multicastAddress entered.2
    else entered.2)
  else .error "Ipv4InterfaceData::setMulticastListeners(): multicast address expected"

end Ipv4InterfaceData

/-! ### Runs -/

inductive ListenerCall
  | add (multicastAddress : Ipv4Address)
  | addFrom (multicastAddress sourceAddress : Ipv4Address)
  | remove (multicastAddress : Ipv4Address)
  | removeFrom (multicastAddress sourceAddress : Ipv4Address)
  | set (multicastAddress : Ipv4Address) (filterMode : McastSourceFilterMode)
    (sources : List Ipv4Address)

open Ipv4InterfaceData

namespace ListenerCall

def perform : ListenerCall → RouterMulticastGroupVector → Except String RouterMulticastGroupVector
  | add multicastAddress, entries => addMulticastListener multicastAddress entries
  | addFrom multicastAddress sourceAddress, entries =>
    addMulticastListenerFrom multicastAddress sourceAddress entries
  | remove multicastAddress, entries => .ok (removeMulticastListener multicastAddress entries)
  | removeFrom multicastAddress sourceAddress, entries =>
    .ok (removeMulticastListenerFrom multicastAddress sourceAddress entries)
  | set multicastAddress filterMode sources, entries =>
    setMulticastListeners multicastAddress filterMode sources entries

def run (calls : List ListenerCall) (entries : RouterMulticastGroupVector) :
    Except String RouterMulticastGroupVector :=
  calls.foldlM (fun entries call => call.perform entries) entries

end ListenerCall

/-! ### Sets of sources -/

/-- The sources from which each group is wanted. -/
abbrev Listeners := Ipv4Address → Set Ipv4Address

/-- What a call should do to the sources of a group. -/
def ListenerCall.apply (listeners : Listeners) : ListenerCall → Listeners
  | add group => Function.update listeners group Set.univ
  | addFrom group source => Function.update listeners group (insert source (listeners group))
  | remove group => Function.update listeners group ∅
  | removeFrom group source => Function.update listeners group (listeners group \ {source})
  | set group MCAST_INCLUDE_SOURCES sources => Function.update listeners group {s | s ∈ sources}
  | set group MCAST_EXCLUDE_SOURCES sources => Function.update listeners group {s | s ∉ sources}

/-- The sources after some calls, from no listeners on. -/
def listenersAfter (calls : List ListenerCall) : Listeners :=
  calls.foldl ListenerCall.apply fun _ => ∅

end Inet.Ipv4
