import Mathlib.Data.List.Sort
import Inet.Ipv4.Ipv4Address

/-!
# Assignment of addresses

The interfaces of a link are taken in groups whose specified bits go together. A group gets a
network with the longest netmask that leaves enough room, and its interfaces get addresses in it.
-/
namespace Inet.Configurator.Addresses

open Inet.Ipv4

/-- A bit of the address and of the netmask is specified if it is set in the mask for it. -/
structure InterfaceInfo where
  fullPath : String := ""
  address : Ipv4Address
  addressSpecifiedBits : Ipv4Address
  netmask : Ipv4Address
  netmaskSpecifiedBits : Ipv4Address
  deriving DecidableEq

/-! ### Bits -/

/-- How many bits are needed to represent a number of different values. -/
def getRepresentationBitCount (count : Nat) : Nat :=
  ((List.range 32).find? fun bitCount => count ≤ 2 ^ bitCount).getD 32

def getMostSignificantBitIndex (value : Ipv4Address) (bitValue : Bool) (defaultIndex : Int) : Int :=
  match (List.range 32).reverse.find? fun bitIndex => value.getLsbD bitIndex == bitValue with
  | some bitIndex => bitIndex
  | none => defaultIndex

def getLeastSignificantBitIndex (value : Ipv4Address) (bitValue : Bool) (defaultIndex : Int) :
    Int :=
  match (List.range 32).find? fun bitIndex => value.getLsbD bitIndex == bitValue with
  | some bitIndex => bitIndex
  | none => defaultIndex

/-- One round of `getPackedBits`, for the packed value so far and the index of its next bit. -/
def packBit (value valueMask : Ipv4Address) (packed : Ipv4Address × Nat) (valueIndex : Nat) :
    Ipv4Address × Nat :=
  if valueMask.getLsbD valueIndex then
    (if value.getLsbD valueIndex then packed.1 ||| 1#32 <<< packed.2 else packed.1, packed.2 + 1)
  else packed

/-- The bits of a value that a mask selects, moved together. -/
def getPackedBits (value valueMask : Ipv4Address) : Ipv4Address :=
  ((List.range 32).foldl (packBit value valueMask) (0, 0)).1

def unpackBit (valueMask packedValue : Ipv4Address) (value : Ipv4Address × Nat)
    (valueIndex : Nat) : Ipv4Address × Nat :=
  if valueMask.getLsbD valueIndex then
    (if packedValue.getLsbD value.2 then value.1 ||| 1#32 <<< valueIndex
      else value.1 &&& ~~~(1#32 <<< valueIndex), value.2 + 1)
  else value

/-- A value with the bits that a mask selects taken from packed ones. -/
def setPackedBits (value valueMask packedValue : Ipv4Address) : Ipv4Address :=
  ((List.range 32).foldl (unpackBit valueMask packedValue) (value, 0)).1

/-! ### Groups of interfaces -/

/-- Merged specifications of interfaces, with the bits where they disagree. -/
structure Merged where
  address : Ipv4Address := 0
  addressSpecifiedBits : Ipv4Address := 0
  addressIncompatibleBits : Ipv4Address := 0
  netmask : Ipv4Address := 0
  netmaskSpecifiedBits : Ipv4Address := 0
  netmaskIncompatibleBits : Ipv4Address := 0

def Merged.add (merged : Merged) (candidateInterface : InterfaceInfo) : Merged where
  address := merged.address |||
    (candidateInterface.address &&& candidateInterface.addressSpecifiedBits)
  addressSpecifiedBits := merged.addressSpecifiedBits ||| candidateInterface.addressSpecifiedBits
  addressIncompatibleBits := merged.addressIncompatibleBits |||
    ((merged.address &&&
        (merged.addressSpecifiedBits &&& candidateInterface.addressSpecifiedBits)) ^^^
      (candidateInterface.address &&&
        (merged.addressSpecifiedBits &&& candidateInterface.addressSpecifiedBits)))
  netmask := merged.netmask |||
    (candidateInterface.netmask &&& candidateInterface.netmaskSpecifiedBits)
  netmaskSpecifiedBits := merged.netmaskSpecifiedBits ||| candidateInterface.netmaskSpecifiedBits
  netmaskIncompatibleBits := merged.netmaskIncompatibleBits |||
    ((merged.netmask &&&
        (merged.netmaskSpecifiedBits &&& candidateInterface.netmaskSpecifiedBits)) ^^^
      (candidateInterface.netmask &&&
        (merged.netmaskSpecifiedBits &&& candidateInterface.netmaskSpecifiedBits)))

/-- Netmasks agree, and addresses agree where the netmask is known to be 1. -/
def Merged.accepts (merged : Merged) : Bool :=
  merged.netmaskIncompatibleBits == 0 &&
    merged.netmask &&& merged.netmaskSpecifiedBits &&& merged.addressIncompatibleBits == 0

/-- The compatible interfaces so far, and those that are left for other groups. -/
structure Group where
  merged : Merged := {}
  compatibleInterfaces : List InterfaceInfo := []
  others : List InterfaceInfo := []

def Group.add (group : Group) (candidateInterface : InterfaceInfo) : Group :=
  if (group.merged.add candidateInterface).accepts then
    { group with
      merged := group.merged.add candidateInterface
      compatibleInterfaces := group.compatibleInterfaces ++ [candidateInterface] }
  else { group with others := group.others ++ [candidateInterface] }

/-- The compatible interfaces in a stable order, the most constrained ones first. -/
def collectCompatibleInterfaces (interfaces : List InterfaceInfo) : Group :=
  let group := interfaces.foldl Group.add {}
  { group with
    compatibleInterfaces := group.compatibleInterfaces.insertionSort fun i j =>
      i.addressSpecifiedBits ≥ j.addressSpecifiedBits }

/-! ### Networks -/

/-- An interface that has been configured, and the network it is in. -/
structure Assignment where
  interfaceInfo : InterfaceInfo
  networkAddress : Ipv4Address
  networkNetmask : Ipv4Address
  completeAddress : Ipv4Address
  deriving DecidableEq

structure State where
  /-- Addresses and netmasks of the networks of all groups. -/
  assignedNetworks : List (Ipv4Address × Ipv4Address) := []
  assigned : List Assignment := []
  deriving DecidableEq

def State.assignedInterfaceAddresses (state : State) : List Ipv4Address :=
  state.assigned.map (·.completeAddress)

/-- The parameters of the module. -/
structure Parameters where
  assignUniqueAddresses : Bool
  assignDisjunctSubnetAddresses : Bool

/-- A shift of the number 1 by at most the width of an `int`, which takes its sign from the last
bit. A shift by the whole width is one by 0. -/
def shiftedOne (count : Nat) : Int :=
  if count < 31 then 2 ^ count else if count = 31 then -2 ^ 31 else 1

/-- Ranges of addresses have an address in common. -/
def overlaps (networkAddress networkNetmask : Ipv4Address) (assigned : Ipv4Address × Ipv4Address) :
    Bool :=
  decide (networkAddress ≤ assigned.1 ||| ~~~assigned.2) &&
    decide (assigned.1 ≤ networkAddress ||| ~~~networkNetmask)

/-- The netmask of a length. -/
def netmaskOf (netmaskLength : Nat) : Ipv4Address := ~~~(~~~0#32 >>> netmaskLength)

/-- The network can be used for a number of addresses. -/
def acceptsNetwork (parameters : Parameters) (state : State) (compatibleInterfaceCount : Nat)
    (netmaskLength : Nat) (networkAddress : Ipv4Address) : Bool :=
  let interfaceCount := state.assignedInterfaceAddresses.countP fun assignedInterfaceAddress =>
    assignedInterfaceAddress &&& netmaskOf netmaskLength == networkAddress
  !(parameters.assignDisjunctSubnetAddresses &&
      state.assignedNetworks.any (overlaps networkAddress (netmaskOf netmaskLength))) &&
    !(parameters.assignDisjunctSubnetAddresses && interfaceCount != 0) &&
    decide (shiftedOne (32 - netmaskLength) ≥ interfaceCount + compatibleInterfaceCount)

/-- Counts the part of the network address that is not specified up to a limit, in at most so many
rounds. -/
def findPart (accepts : Ipv4Address → Bool)
    (networkAddressUnspecifiedBits networkAddressUnspecifiedPartLimit : Ipv4Address) :
    Nat → Ipv4Address → Ipv4Address → Except String (Option Ipv4Address)
  | 0, _, _ => .error "network addresses are left"
  | fuel + 1, networkAddressUnspecifiedPart, networkAddress =>
    if networkAddressUnspecifiedPart ≤ networkAddressUnspecifiedPartLimit then
      let networkAddress := setPackedBits networkAddress networkAddressUnspecifiedBits
        networkAddressUnspecifiedPart
      if accepts networkAddress then .ok (some networkAddress)
      else findPart accepts networkAddressUnspecifiedBits networkAddressUnspecifiedPartLimit fuel
        (networkAddressUnspecifiedPart + 1) networkAddress
    else .ok none

def findNetworkAddress (parameters : Parameters) (state : State) (merged : Merged)
    (compatibleInterfaceCount netmaskLength : Nat) : Except String (Option Ipv4Address) :=
  let networkAddressUnspecifiedBits := ~~~merged.addressSpecifiedBits &&& netmaskOf netmaskLength
  let networkAddressUnspecifiedPartLimit :=
    getPackedBits (~~~0#32) networkAddressUnspecifiedBits + 1
  findPart (acceptsNetwork parameters state compatibleInterfaceCount netmaskLength)
    networkAddressUnspecifiedBits networkAddressUnspecifiedPartLimit
    (networkAddressUnspecifiedPartLimit.toNat + 2) 0
    (merged.address &&& merged.addressSpecifiedBits &&& netmaskOf netmaskLength)

/-- The first network that can be used, from the longest netmask to the shortest. -/
def findNetwork (parameters : Parameters) (state : State) (merged : Merged)
    (compatibleInterfaceCount : Nat) :
    List Nat → Except String (Option (Ipv4Address × Ipv4Address))
  | [] => .ok none
  | netmaskLength :: rest => do
    match ← findNetworkAddress parameters state merged compatibleInterfaceCount netmaskLength with
    | some networkAddress => .ok (some (networkAddress, netmaskOf netmaskLength))
    | none => findNetwork parameters state merged compatibleInterfaceCount rest

def minimumNetmaskLength (merged : Merged) : Int :=
  32 - getLeastSignificantBitIndex (merged.netmask &&& merged.netmaskSpecifiedBits) true 32

def maximumNetmaskLength (merged : Merged) (compatibleInterfaceCount : Nat) : Int :=
  min (min (32 - 1 - getMostSignificantBitIndex (~~~merged.netmask &&& merged.netmaskSpecifiedBits)
        true (-1))
      (32 - 1 - getMostSignificantBitIndex merged.addressIncompatibleBits true (-1)))
    (32 - getRepresentationBitCount compatibleInterfaceCount)

/-- Lengths from one down to another. -/
def netmaskLengths (minimum maximum : Int) : List Nat :=
  (List.range 33).reverse.filter fun netmaskLength =>
    decide (minimum ≤ netmaskLength) && decide (netmaskLength ≤ maximum)

/-! ### Interfaces -/

/-- The largest unspecified part of addresses that only differ there, or 0. -/
def maximumPart (unspecifiedBits wanted : Ipv4Address) (addresses : List Ipv4Address) :
    Ipv4Address :=
  addresses.foldl (fun maximum otherInterfaceAddress =>
    if otherInterfaceAddress &&& ~~~unspecifiedBits = wanted &&& ~~~unspecifiedBits ∧
        getPackedBits otherInterfaceAddress unspecifiedBits > maximum then
      getPackedBits otherInterfaceAddress unspecifiedBits
    else maximum) 0

def completeAddress (state : State) (networkAddress networkNetmask : Ipv4Address)
    (compatibleInterface : InterfaceInfo) : Ipv4Address :=
  let interfaceAddress := compatibleInterface.address &&& ~~~networkNetmask
  let interfaceAddressUnspecifiedBits :=
    ~~~compatibleInterface.addressSpecifiedBits &&& ~~~networkNetmask
  networkAddress ||| setPackedBits interfaceAddress interfaceAddressUnspecifiedBits
    (maximumPart interfaceAddressUnspecifiedBits (networkAddress ||| interfaceAddress)
      state.assignedInterfaceAddresses + 1)

def uniqueError (compatibleInterface : InterfaceInfo) : String :=
  s!"Failed to configure unique address for {compatibleInterface.fullPath}. " ++
    "Please refine your parameters and try again!"

def assignInterface (parameters : Parameters) (networkAddress networkNetmask : Ipv4Address)
    (state : State) (compatibleInterface : InterfaceInfo) : Except String State :=
  let completeAddress := completeAddress state networkAddress networkNetmask compatibleInterface
  if parameters.assignUniqueAddresses && state.assignedInterfaceAddresses.contains completeAddress
  then .error (uniqueError compatibleInterface)
  else
    .ok { state with
      assigned := state.assigned ++
        [{ interfaceInfo := compatibleInterface, networkAddress, networkNetmask
           completeAddress }] }

def networkError (merged : Merged) (minimum maximum : Int)
    (compatibleInterfaces : List InterfaceInfo) : String :=
  s!"Failed to find address prefix (using {merged.address.str} with specified bits " ++
    s!"{merged.addressSpecifiedBits.str}) and netmask (length from {minimum} bits to " ++
    s!"{maximum} bits) for interface " ++ (compatibleInterfaces.map (·.fullPath)).headD "" ++
    s!" and {compatibleInterfaces.length - 1} other interface(s). " ++
    "Please refine your parameters and try again!"

/-- A group gets a network, and its interfaces addresses. -/
def assignGroup (parameters : Parameters) (state : State) (merged : Merged)
    (compatibleInterfaces : List InterfaceInfo) : Except String State :=
  -- All-0 and all-1 addresses are ruled out by two more.
  let compatibleInterfaceCount := compatibleInterfaces.length + 2
  let minimum := minimumNetmaskLength merged
  let maximum := maximumNetmaskLength merged compatibleInterfaceCount
  if ¬ maximum < 32 then .error "ASSERT: maximumNetmaskLength < bitSize"
  else do
    match ← findNetwork parameters state merged compatibleInterfaceCount
        (netmaskLengths minimum maximum) with
    | none => .error (networkError merged minimum maximum compatibleInterfaces)
    | some (networkAddress, networkNetmask) =>
      let state ← compatibleInterfaces.foldlM
        (assignInterface parameters networkAddress networkNetmask) state
      .ok { state with
        assignedNetworks := state.assignedNetworks ++ [(networkAddress, networkNetmask)] }

/-- Groups of a link, with the number of groups that there may still be. -/
def assignLink (parameters : Parameters) :
    Nat → State → List InterfaceInfo → Except String State
  | _, state, [] => .ok state
  | 0, _, _ :: _ => .error "interfaces are left"
  | fuel + 1, state, unconfiguredInterfaces => do
    let group := collectCompatibleInterfaces unconfiguredInterfaces
    let state ← assignGroup parameters state group.merged group.compatibleInterfaces
    assignLink parameters fuel state group.others

def assignAddresses (parameters : Parameters) (links : List (List InterfaceInfo)) :
    Except String State :=
  links.foldlM (fun state interfaceInfos =>
    assignLink parameters interfaceInfos.length state interfaceInfos) {}

end Inet.Configurator.Addresses

/-!
## Bits of addresses

Packed bits of the host part of an address are the bits themselves. The ranges of netmask lengths
are those that agree with specified bits.
-/
namespace Inet.Configurator.Addresses

open Inet.Ipv4

variable {value mask packed : Ipv4Address}
variable {length : Nat}

/-! ### Netmasks -/

theorem netmaskOf_eq (short : length < 32) :
    netmaskOf length = Ipv4Address.makeNetmask length := by
  rw [Ipv4Address.makeNetmask, if_neg (not_le.mpr short)]
  rfl

theorem getLsbD_netmaskOf (short : length < 32) {k : Nat} (inside : k < 32) :
    (netmaskOf length).getLsbD k = decide (32 - length ≤ k) := by
  rw [netmaskOf_eq short, Ipv4Address.getLsbD_makeNetmask short.le inside]

/-- The lowest bits. -/
def IsLow (mask : Ipv4Address) (count : Nat) : Prop :=
  count ≤ 32 ∧ ∀ k < 32, mask.getLsbD k = decide (k < count)

theorem isLow_netmaskOf (short : length < 32) :
    IsLow (~~~netmaskOf length) (32 - length) := by
  refine ⟨Nat.sub_le _ _, fun k inside => ?_⟩
  rw [BitVec.getLsbD_not, getLsbD_netmaskOf short inside, decide_eq_true inside, Bool.true_and,
    ← decide_not]
  exact decide_eq_decide.mpr not_le

theorem IsLow.toNat {count : Nat} (low : IsLow mask count) : mask.toNat = 2 ^ count - 1 := by
  have each : ∀ count < 33, (BitVec.ofNat 32 (2 ^ count - 1)).toNat = 2 ^ count - 1 ∧
      ∀ k < 32, (BitVec.ofNat 32 (2 ^ count - 1)).getLsbD k = decide (k < count) := by
    decide +kernel
  obtain ⟨value, bits⟩ := each count (Nat.lt_succ_of_le low.1)
  have same : mask = BitVec.ofNat 32 (2 ^ count - 1) := by
    apply BitVec.eq_of_getLsbD_eq
    intro k inside
    rw [low.2 k inside, bits k inside]
  rw [same, value]

/-- The lowest bits are the remainder. -/
theorem IsLow.toNat_and {count : Nat} (low : IsLow mask count) (value : Ipv4Address) :
    (value &&& mask).toNat = value.toNat % 2 ^ count := by
  rw [BitVec.toNat_and, low.toNat, Nat.and_two_pow_sub_one_eq_mod]

/-! ### Packed bits -/

theorem getLsbD_setBit {k j : Nat} (inside : k < 32) :
    (value ||| 1#32 <<< k).getLsbD j = (value.getLsbD j || decide (j = k)) := by
  rw [← BitVec.twoPow_eq, BitVec.getLsbD_or, BitVec.getLsbD_twoPow, decide_eq_true inside,
    Bool.true_and]
  exact congrArg _ (decide_eq_decide.mpr eq_comm)

theorem getLsbD_clearBit {k j : Nat} (inside : k < 32) :
    (value &&& ~~~(1#32 <<< k)).getLsbD j = (value.getLsbD j && !decide (j = k)) := by
  rw [← BitVec.twoPow_eq, BitVec.getLsbD_and, BitVec.getLsbD_not, BitVec.getLsbD_twoPow,
    decide_eq_true inside, Bool.true_and]
  by_cases small : j < 32
  · rw [decide_eq_true small, Bool.true_and]
    exact congrArg _ (congrArg _ (decide_eq_decide.mpr eq_comm))
  · rw [BitVec.getLsbD_of_ge value j (not_lt.mp small), Bool.false_and, Bool.false_and]

/-- Only selected bits are set. -/
theorem getLsbD_setPackedBits {j : Nat} (unselected : mask.getLsbD j = false) :
    (setPackedBits value mask packed).getLsbD j = value.getLsbD j := by
  have rounds : ∀ (indexes : List Nat) (start : Ipv4Address × Nat), (∀ k ∈ indexes, k < 32) →
      (indexes.foldl (unpackBit mask packed) start).1.getLsbD j = start.1.getLsbD j := by
    intro indexes
    induction indexes with
    | nil => exact fun _ _ => rfl
    | cons k indexes ih =>
      intro start inside
      rw [List.foldl_cons, ih _ fun k member => inside k (List.mem_cons_of_mem _ member)]
      unfold unpackBit
      split
      next selected =>
        have apart : j ≠ k := fun same => by
          rw [same, selected] at unselected
          cases unselected
        have small := inside k List.mem_cons_self
        dsimp only
        split
        · rw [getLsbD_setBit small, decide_eq_false apart, Bool.or_false]
        · rw [getLsbD_clearBit small, decide_eq_false apart, Bool.not_false, Bool.and_true]
      next => rfl
  exact rounds _ _ fun k member => List.mem_range.mp member

section
variable {count : Nat} (low : IsLow mask count)

variable (value packed) in
include low in
theorem foldl_unpackBit (rounds : Nat) (inside : rounds ≤ 32) :
    ((List.range rounds).foldl (unpackBit mask packed) (value, 0)).2 = min rounds count ∧
      ∀ j, ((List.range rounds).foldl (unpackBit mask packed) (value, 0)).1.getLsbD j =
        if j < min rounds count then packed.getLsbD j else value.getLsbD j := by
  induction rounds with
  | zero => simp
  | succ k ih =>
    obtain ⟨index, bits⟩ := ih (Nat.le_of_succ_le inside)
    rw [List.range_succ, List.foldl_append, List.foldl_cons, List.foldl_nil, unpackBit,
      low.2 k inside]
    by_cases selected : k < count
    · rw [if_pos (decide_eq_true selected)]
      dsimp only
      rw [index]
      refine ⟨by omega, fun j => ?_⟩
      have here : min k count = k := by omega
      have next : min (k + 1) count = k + 1 := by omega
      rw [here] at bits ⊢
      rw [next]
      by_cases same : j = k
      · subst same
        rw [if_pos (Nat.lt_succ_self j)]
        split
        next bit => rw [getLsbD_setBit inside, decide_eq_true rfl, Bool.or_true, bit]
        next bit =>
          rw [getLsbD_clearBit inside, decide_eq_true rfl, Bool.not_true, Bool.and_false]
          exact ((Bool.not_eq_true _).mp bit).symm
      · have unchanged : (if packed.getLsbD k = true then
            ((List.range k).foldl (unpackBit mask packed) (value, 0)).1 ||| 1#32 <<< k
          else ((List.range k).foldl (unpackBit mask packed) (value, 0)).1 &&&
            ~~~(1#32 <<< k)).getLsbD j =
            ((List.range k).foldl (unpackBit mask packed) (value, 0)).1.getLsbD j := by
          split
          · rw [getLsbD_setBit inside, decide_eq_false same, Bool.or_false]
          · rw [getLsbD_clearBit inside, decide_eq_false same, Bool.not_false, Bool.and_true]
        rw [unchanged, bits]
        exact if_congr (by omega) rfl rfl
    · rw [if_neg (by rw [decide_eq_false selected]; decide), index]
      refine ⟨by omega, fun j => ?_⟩
      rw [bits]
      exact if_congr (by omega) rfl rfl

include low in
/-- Packed bits in the place of the lowest bits. -/
theorem IsLow.setPackedBits_eq :
    setPackedBits value mask packed = value &&& ~~~mask ||| packed &&& mask := by
  apply BitVec.eq_of_getLsbD_eq
  intro j inside
  have bits := (foldl_unpackBit value packed low 32 le_rfl).2 j
  rw [setPackedBits, bits, BitVec.getLsbD_or, BitVec.getLsbD_and, BitVec.getLsbD_and,
    BitVec.getLsbD_not, low.2 j inside, decide_eq_true inside, Bool.true_and]
  have whole : min 32 count = count := Nat.min_eq_right low.1
  rw [whole]
  by_cases selected : j < count
  · simp [selected]
  · simp [selected]

variable (value) in
include low in
theorem foldl_packBit (rounds : Nat) (inside : rounds ≤ 32) :
    ((List.range rounds).foldl (packBit value mask) (0, 0)).2 = min rounds count ∧
      ∀ j, ((List.range rounds).foldl (packBit value mask) (0, 0)).1.getLsbD j =
        (decide (j < min rounds count) && value.getLsbD j) := by
  induction rounds with
  | zero => simp
  | succ k ih =>
    obtain ⟨index, bits⟩ := ih (Nat.le_of_succ_le inside)
    rw [List.range_succ, List.foldl_append, List.foldl_cons, List.foldl_nil, packBit,
      low.2 k inside]
    by_cases selected : k < count
    · rw [if_pos (decide_eq_true selected)]
      dsimp only
      rw [index]
      refine ⟨by omega, fun j => ?_⟩
      have here : min k count = k := by omega
      have next : min (k + 1) count = k + 1 := by omega
      rw [here] at bits ⊢
      rw [next]
      cases bit : value.getLsbD k with
      | true =>
        rw [if_pos rfl, getLsbD_setBit inside, bits]
        by_cases same : j = k
        · subst same
          simp [bit]
        · simp only [same, decide_false, Bool.or_false]
          exact congrArg (· && _) (decide_eq_decide.mpr (by omega))
      | false =>
        rw [if_neg Bool.false_ne_true, bits]
        by_cases same : j = k
        · subst same
          simp [bit]
        · exact congrArg (· && _) (decide_eq_decide.mpr (by omega))
    · rw [if_neg (by rw [decide_eq_false selected]; decide), index]
      refine ⟨by omega, fun j => ?_⟩
      rw [bits]
      exact congrArg (· && _) (decide_eq_decide.mpr (by omega))

include low in
theorem IsLow.getPackedBits_eq : getPackedBits value mask = value &&& mask := by
  apply BitVec.eq_of_getLsbD_eq
  intro j inside
  have bits := (foldl_packBit value low 32 le_rfl).2 j
  rw [getPackedBits, bits, BitVec.getLsbD_and, low.2 j inside, Nat.min_eq_right low.1,
    Bool.and_comm]

end

/-! ### Significant bits -/

theorem le_mostSignificant {k : Nat} (inside : k < 32) (bit : value.getLsbD k = true)
    (defaultIndex : Int) : (k : Int) ≤ getMostSignificantBitIndex value true defaultIndex := by
  unfold getMostSignificantBitIndex
  split
  next index found =>
    by_contra less
    obtain ⟨_, front, back, split, before⟩ := List.find?_eq_some_iff_append.mp found
    have sorted : ((List.range 32).reverse).Pairwise (· > ·) := by decide
    rw [split] at sorted
    have member : k ∈ front ++ index :: back :=
      split ▸ List.mem_reverse.mpr (List.mem_range.mpr inside)
    rcases List.mem_append.mp member with early | late
    · have skipped := before k early
      rw [bit] at skipped
      exact absurd skipped (by decide)
    · rcases List.mem_cons.mp late with same | late
      · omega
      · have order := (List.pairwise_cons.mp (List.pairwise_append.mp sorted).2.1).1 k late
        omega
  next none' =>
    have skipped := List.find?_eq_none.mp none' k (List.mem_reverse.mpr (List.mem_range.mpr inside))
    rw [bit] at skipped
    exact absurd rfl skipped

theorem leastSignificant_le {k : Nat} (inside : k < 32) (bit : value.getLsbD k = true)
    (defaultIndex : Int) : getLeastSignificantBitIndex value true defaultIndex ≤ k := by
  unfold getLeastSignificantBitIndex
  split
  next index found =>
    by_contra less
    obtain ⟨_, front, back, split, before⟩ := List.find?_eq_some_iff_append.mp found
    have sorted : (List.range 32).Pairwise (· < ·) := by decide
    rw [split] at sorted
    have member : k ∈ front ++ index :: back := split ▸ List.mem_range.mpr inside
    rcases List.mem_append.mp member with early | late
    · have skipped := before k early
      rw [bit] at skipped
      exact absurd skipped (by decide)
    · rcases List.mem_cons.mp late with same | late
      · omega
      · have order := (List.pairwise_cons.mp (List.pairwise_append.mp sorted).2.1).1 k late
        omega
  next none' =>
    have skipped := List.find?_eq_none.mp none' k (List.mem_range.mpr inside)
    rw [bit] at skipped
    exact absurd rfl skipped

theorem two_le_representationBitCount {count : Nat} (large : 3 ≤ count) :
    2 ≤ getRepresentationBitCount count := by
  unfold getRepresentationBitCount
  cases found : (List.range 32).find? fun bitCount => count ≤ 2 ^ bitCount with
  | none => decide
  | some bitCount =>
    have enough : count ≤ 2 ^ bitCount := by simpa using List.find?_some found
    by_contra small
    rw [Option.getD_some] at small
    have : 2 ^ bitCount ≤ 2 ^ 1 := Nat.pow_le_pow_right (by decide) (by omega)
    omega

/-- The packed value is below the power of the number of its bits. -/
theorem packBit_lt (value mask : Ipv4Address) {packed : Ipv4Address × Nat}
    (small : packed.1.toNat < 2 ^ packed.2) (j : Nat) :
    (packBit value mask packed j).1.toNat < 2 ^ (packBit value mask packed j).2 ∧
      (packBit value mask packed j).2 ≤ packed.2 + 1 := by
  unfold packBit
  have more : 2 ^ packed.2 < 2 ^ (packed.2 + 1) := Nat.pow_lt_pow_right (by decide) (by omega)
  split
  · refine ⟨?_, le_rfl⟩
    dsimp only
    split
    · rw [BitVec.toNat_or, BitVec.toNat_shiftLeft]
      refine Nat.or_lt_two_pow (small.trans more) ((Nat.mod_le _ _).trans_lt ?_)
      change 1 <<< packed.2 < _
      rw [Nat.one_shiftLeft]
      exact more
    · exact small.trans more
  · exact ⟨small, by omega⟩

theorem foldl_packBit_lt (value mask : Ipv4Address) (indices : List Nat) :
    ∀ {packed : Ipv4Address × Nat}, packed.1.toNat < 2 ^ packed.2 →
      (indices.foldl (packBit value mask) packed).1.toNat < 2 ^ (packed.2 + indices.length) := by
  induction indices with
  | nil => exact id
  | cons j rest ih =>
    intro packed small
    obtain ⟨next, le⟩ := packBit_lt value mask small j
    refine (ih next).trans_le (Nat.pow_le_pow_right (by decide) ?_)
    rw [List.length_cons]
    omega

/-- A mask without its last bit selects less than all bits. -/
theorem getPackedBits_lt (value : Ipv4Address) {mask : Ipv4Address} (clear : mask.getLsbD 0 = false) :
    (getPackedBits value mask).toNat < 2 ^ 31 := by
  have first : packBit value mask (0, 0) 0 = (0, 0) := by
    rw [packBit, if_neg (by rw [clear]; decide)]
  have rest : List.range 32 = 0 :: (List.range 31).map Nat.succ := List.range_succ_eq_map
  rw [getPackedBits, rest, List.foldl_cons, first]
  have small := foldl_packBit_lt value mask ((List.range 31).map Nat.succ)
    (by decide : ((0 : Ipv4Address), 0).1.toNat < 2 ^ ((0 : Ipv4Address), 0).2)
  rw [List.length_map, List.length_range] at small
  exact small

/-! ### Ranges -/

/-- Addresses in one network are in its range. -/
theorem in_range {networkAddress netmask address : Ipv4Address}
    (inside : address &&& netmask = networkAddress) :
    networkAddress ≤ address ∧ address ≤ networkAddress ||| ~~~netmask := by
  constructor
  · rw [← inside, BitVec.le_def, BitVec.toNat_and]
    exact Nat.and_le_left
  · have whole : networkAddress ||| ~~~netmask = address ||| (networkAddress ||| ~~~netmask) := by
      rw [← inside]
      apply BitVec.eq_of_getLsbD_eq
      intro k small
      simp only [BitVec.getLsbD_or, BitVec.getLsbD_and, BitVec.getLsbD_not, small, decide_true,
        Bool.true_and]
      cases address.getLsbD k <;> cases netmask.getLsbD k <;> rfl
    rw [whole, BitVec.le_def, BitVec.toNat_or]
    exact Nat.left_le_or

/-- Networks whose ranges do not overlap have no address in common. -/
theorem apart_of_not_overlaps {networkAddress netmask address : Ipv4Address}
    {assigned : Ipv4Address × Ipv4Address}
    (none' : overlaps networkAddress netmask assigned = false)
    (inside : address &&& netmask = networkAddress) : address &&& assigned.2 ≠ assigned.1 := by
  intro inside'
  have first := in_range inside
  have second := in_range inside'
  have both : overlaps networkAddress netmask assigned = true := by
    rw [overlaps, decide_eq_true (BitVec.le_trans first.1 second.2),
      decide_eq_true (BitVec.le_trans second.1 first.2)]
    rfl
  rw [both] at none'
  cases none'

end Inet.Configurator.Addresses
