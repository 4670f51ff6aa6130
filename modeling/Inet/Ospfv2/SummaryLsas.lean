import Inet.Ipv4.Ipv4Address
import Inet.Lib.KeyedList

/-!
# Summary LSAs

An area border router announces the networks of other areas. Networks with the same address differ in
their masks only, and all but the shortest one get other link state IDs. Options, lengths, checksums
and TOS metrics are left out, and so are AS boundary routers and address ranges that are configured.
-/
namespace Inet.Ospfv2

open Lib Ipv4

abbrev RouterId := Ipv4Address
abbrev LinkStateId := Ipv4Address
abbrev Metric := Nat

def INITIAL_SEQUENCE_NUMBER : Int := -2147483647
def MAX_SEQUENCE_NUMBER : Int := 2147483647

structure LsaKeyType where
  linkStateID : LinkStateId
  advertisingRouter : RouterId
deriving DecidableEq

structure SummaryLsa where
  lsAge : Nat
  lsSequenceNumber : Int
  linkStateID : LinkStateId
  advertisingRouter : RouterId
  networkMask : Ipv4Address
  routeCost : Metric
deriving DecidableEq

def SummaryLsa.lsaKey (lsa : SummaryLsa) : LsaKeyType := ⟨lsa.linkStateID, lsa.advertisingRouter⟩

structure Ipv4AddressRange where
  address : Ipv4Address
  mask : Ipv4Address
deriving DecidableEq

def makeBroadcastAddress (address netmask : Ipv4Address) : Ipv4Address := address ||| ~~~netmask

/-- The LSAs are found by their keys in `summaryLSAsByID`. -/
structure Ospfv2Area where
  routerID : RouterId
  summaryLSAs : List SummaryLsa

namespace Ospfv2Area

variable (area : Ospfv2Area)

def findSummaryLSA (lsaKey : LsaKeyType) : Option SummaryLsa :=
  KeyedList.find SummaryLsa.lsaKey area.summaryLSAs lsaKey

/-- An LSA that is there is overwritten. -/
def installSummaryLSA (lsa : SummaryLsa) : Ospfv2Area :=
  match area.findSummaryLSA lsa.lsaKey with
  | some _ =>
    { area with summaryLSAs :=
      area.summaryLSAs.map fun old => if old.lsaKey = lsa.lsaKey then lsa else old }
  | none => { area with summaryLSAs := area.summaryLSAs ++ [lsa] }

/-- The link state ID for a destination, with the LSA that has to be originated again. -/
def getUniqueLinkStateID (destination : Ipv4AddressRange) (destinationCost : Metric) :
    LinkStateId × Option SummaryLsa :=
  let lsaKey : LsaKeyType := ⟨destination.address, area.routerID⟩
  match area.findSummaryLSA lsaKey with
  | none => (lsaKey.linkStateID, none)
  | some foundLSA =>
    let existingMask := foundLSA.networkMask
    if destination.mask = existingMask then (lsaKey.linkStateID, none)
    else if destination.mask.toNat ≥ existingMask.toNat then
      (makeBroadcastAddress lsaKey.linkStateID destination.mask, none)
    else
      let sequenceNumber := foundLSA.lsSequenceNumber
      (makeBroadcastAddress lsaKey.linkStateID existingMask, some { foundLSA with
        lsAge := 0
        lsSequenceNumber :=
          if sequenceNumber = MAX_SEQUENCE_NUMBER then INITIAL_SEQUENCE_NUMBER
          else sequenceNumber + 1
        networkMask := destination.mask
        routeCost := destinationCost })

/-- The LSA for a network that is announced to the area, and the LSA that has to be originated again.
This is what is done for an inter-area entry, and for an intra-area entry in no address range. -/
def originateSummaryLSA (entry : Ipv4AddressRange) (cost : Metric) :
    Option (SummaryLsa × Option SummaryLsa) :=
  let (newLinkStateID, lsaToReoriginate) := area.getUniqueLinkStateID entry cost
  match lsaToReoriginate with
  | some lsaToReoriginate =>
    match area.findSummaryLSA ⟨entry.address, area.routerID⟩ with
    | none => none
    | some lsa => some ({ lsa with
        lsAge := 0
        lsSequenceNumber := INITIAL_SEQUENCE_NUMBER
        linkStateID := newLinkStateID }, some lsaToReoriginate)
  | none => some ({
      lsAge := 0
      lsSequenceNumber := INITIAL_SEQUENCE_NUMBER
      linkStateID := newLinkStateID
      advertisingRouter := area.routerID
      networkMask := entry.mask
      routeCost := cost }, none)

/-- What `notifyAboutRoutingTableChanges` does for an entry that is new or modified. -/
def notifyAboutEntry (modified : Bool) (entry : Ipv4AddressRange) (cost : Metric) : Ospfv2Area :=
  match area.originateSummaryLSA entry cost with
  | none => area
  | some (newLSA, lsaToReoriginate) =>
    let area := (lsaToReoriginate.map area.installSummaryLSA).getD area
    let sequenceNumber := newLSA.lsSequenceNumber
    area.installSummaryLSA { newLSA with
      lsSequenceNumber :=
        if modified ∧ sequenceNumber ≠ MAX_SEQUENCE_NUMBER then sequenceNumber + 1
        else sequenceNumber }

end Ospfv2Area

/-! ### Runs -/

/-- An address without bits outside a valid mask. -/
structure NetworkPrefix extends Ipv4AddressRange where
  canonical : Canonical address mask
deriving DecidableEq

structure Origination where
  modified : Bool
  network : NetworkPrefix
  cost : Metric

def Ospfv2Area.run (area : Ospfv2Area) (originations : List Origination) : Ospfv2Area :=
  originations.foldl
    (fun area o => area.notifyAboutEntry o.modified o.network.toIpv4AddressRange o.cost) area

/-- The cost with which a network was originated last. -/
def latestCost (originations : List Origination) (network : NetworkPrefix) : Option Metric :=
  (originations.reverse.find? fun o => o.network = network).map (·.cost)

/-- The LSA announces a network. -/
def SummaryLsa.Announces (lsa : SummaryLsa) (network : NetworkPrefix) : Prop :=
  lsa.networkMask = network.mask ∧ lsa.linkStateID &&& network.mask = network.address

instance (lsa : SummaryLsa) (network : NetworkPrefix) : Decidable (lsa.Announces network) :=
  inferInstanceAs (Decidable (_ ∧ _))

/-- Every network that was originated is announced by a single LSA of the router, with its latest
cost, and LSAs of different networks have different link state IDs. -/
structure Ospfv2Area.Announced (area : Ospfv2Area) (originations : List Origination) : Prop where
  single : ∀ network cost, latestCost originations network = some cost →
    ∃ lsa, (area.summaryLSAs.filter fun lsa =>
        lsa.advertisingRouter = area.routerID ∧ lsa.Announces network) = [lsa] ∧
      lsa.routeCost = cost
  only : ∀ lsa ∈ area.summaryLSAs, lsa.advertisingRouter = area.routerID →
    ∃ network cost, latestCost originations network = some cost ∧ lsa.Announces network
  apart : ∀ lsa ∈ area.summaryLSAs, ∀ other ∈ area.summaryLSAs,
    lsa.advertisingRouter = area.routerID → other.advertisingRouter = area.routerID →
    ∀ network otherNetwork, lsa.Announces network → other.Announces otherNetwork →
      network ≠ otherNetwork → lsa.linkStateID ≠ other.linkStateID

/-- No network has the address that one with a longer mask gets for its link state ID, because there
is another one with a shorter mask. -/
def Separate (originations : List Origination) : Prop :=
  ∀ o ∈ originations, ∀ shorter ∈ originations, ∀ other ∈ originations,
    shorter.network.address = o.network.address →
      shorter.network.mask.toNat < o.network.mask.toNat →
        other.network.address ≠ makeBroadcastAddress o.network.address o.network.mask

instance (originations : List Origination) : Decidable (Separate originations) :=
  inferInstanceAs (Decidable (∀ o ∈ originations, ∀ shorter ∈ originations,
    ∀ other ∈ originations, _ → _ → _))

end Inet.Ospfv2
