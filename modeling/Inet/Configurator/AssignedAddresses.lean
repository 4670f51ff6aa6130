import Mathlib.Data.List.Perm.Basic
import Inet.Configurator.AddressAssignment
import Inet.Lib.Except

/-!
# Assigned addresses

Addresses and netmasks agree with the specified bits. The host part of an interface that leaves it
free is one more than the largest in its network, which need not be a valid one.
-/
namespace Inet.Configurator.Addresses

open Inet.Ipv4 Lib

variable {merged : Merged} {k : Nat} {value : Ipv4Address}

/-! ### Groups -/

/-- The merged specification has the specified bits of the interfaces where they agree. -/
structure Merged.Includes (merged : Merged) (interfaceInfo : InterfaceInfo) : Prop where
  address : ∀ k, merged.addressIncompatibleBits.getLsbD k = false →
    interfaceInfo.addressSpecifiedBits.getLsbD k = true →
    merged.addressSpecifiedBits.getLsbD k = true ∧
      merged.address.getLsbD k = interfaceInfo.address.getLsbD k
  netmask : ∀ k, interfaceInfo.netmaskSpecifiedBits.getLsbD k = true →
    merged.netmaskSpecifiedBits.getLsbD k = true ∧
      merged.netmask.getLsbD k = interfaceInfo.netmask.getLsbD k

/-- Only bits that are specified are set. -/
structure Merged.Specified (merged : Merged) : Prop where
  address : ∀ k, merged.address.getLsbD k = true → merged.addressSpecifiedBits.getLsbD k = true
  netmask : ∀ k, merged.netmask.getLsbD k = true → merged.netmaskSpecifiedBits.getLsbD k = true

theorem Merged.Specified.add (specified : merged.Specified)
    (candidate : InterfaceInfo) : (merged.add candidate).Specified := by
  constructor
  all_goals
    intro k
    simp only [Merged.add, BitVec.getLsbD_or, BitVec.getLsbD_and, Bool.or_eq_true,
      Bool.and_eq_true]
  · rintro (old | ⟨_, new⟩)
    · exact .inl (specified.address k old)
    · exact .inr new
  · rintro (old | ⟨_, new⟩)
    · exact .inl (specified.netmask k old)
    · exact .inr new

/-- One bit of two specifications, which the first has merged. -/
theorem merged_bit {bit known other known' incompatible : Bool} (set : bit = true → known = true)
    (agree : (incompatible || ((bit && (known && known')) ^^ (other && (known && known')))) =
      false) :
    (known' = true → (bit || (other && known')) = other) ∧
      (known = true → (bit || (other && known')) = bit) := by
  revert set agree
  revert bit known other known' incompatible
  decide

theorem Merged.accepts_netmask (accepted : merged.accepts = true) (k : Nat) :
    merged.netmaskIncompatibleBits.getLsbD k = false := by
  have zero := (Bool.and_eq_true_iff.mp accepted).1
  rw [beq_iff_eq.mp zero]
  exact BitVec.getLsbD_zero

theorem Merged.Includes.add (specified : merged.Specified)
    {candidate : InterfaceInfo} (accepted : (merged.add candidate).accepts = true) :
    (merged.add candidate).Includes candidate ∧
      ∀ interfaceInfo, merged.Includes interfaceInfo →
        (merged.add candidate).Includes interfaceInfo := by
  have netmask := Merged.accepts_netmask accepted
  simp only [Merged.add, BitVec.getLsbD_or, BitVec.getLsbD_and, BitVec.getLsbD_xor] at netmask
  refine ⟨⟨fun k agree known => ?_, fun k known => ?_⟩, fun interfaceInfo includes =>
    ⟨fun k agree known => ?_, fun k known => ?_⟩⟩
  all_goals
    simp only [Merged.add, BitVec.getLsbD_or, BitVec.getLsbD_and, BitVec.getLsbD_xor] at *
  · exact ⟨by rw [known, Bool.or_true], (merged_bit (specified.address k) agree).1 known⟩
  · exact ⟨by rw [known, Bool.or_true], (merged_bit (specified.netmask k) (netmask k)).1 known⟩
  · obtain ⟨known', same⟩ := includes.address k (Bool.or_eq_false_iff.mp agree).1 known
    exact ⟨by rw [known', Bool.true_or],
      ((merged_bit (specified.address k) agree).2 known').trans same⟩
  · obtain ⟨known', same⟩ := includes.netmask k known
    exact ⟨by rw [known', Bool.true_or],
      ((merged_bit (specified.netmask k) (netmask k)).2 known').trans same⟩

/-- A group of interfaces, and those that are left of them. -/
structure Group.Parts (group : Group) (interfaces : List InterfaceInfo) : Prop where
  specified : group.merged.Specified
  includes : ∀ interfaceInfo ∈ group.compatibleInterfaces, group.merged.Includes interfaceInfo
  parts : (group.compatibleInterfaces ++ group.others).Perm interfaces

theorem Group.Parts.add {group : Group} {interfaces : List InterfaceInfo}
    (holds : group.Parts interfaces) (candidate : InterfaceInfo) :
    (group.add candidate).Parts (interfaces ++ [candidate]) := by
  unfold Group.add
  split
  next accepted =>
    obtain ⟨here, others⟩ := Merged.Includes.add holds.specified accepted
    refine ⟨holds.specified.add candidate, fun interfaceInfo member => ?_, ?_⟩
    · rcases List.mem_append.mp member with old | new
      · exact others interfaceInfo (holds.includes interfaceInfo old)
      · exact List.mem_singleton.mp new ▸ here
    · rw [List.append_assoc]
      refine (List.perm_append_comm.append_left _).trans ?_
      rw [← List.append_assoc]
      exact holds.parts.append_right _
  next =>
    refine ⟨holds.specified, holds.includes, ?_⟩
    rw [← List.append_assoc]
    exact holds.parts.append_right _

theorem Group.Parts.addAll (later : List InterfaceInfo) :
    ∀ {group : Group} {interfaces : List InterfaceInfo}, group.Parts interfaces →
      (later.foldl Group.add group).Parts (interfaces ++ later) := by
  induction later with
  | nil =>
    intro group interfaces holds
    rw [List.append_nil]
    exact holds
  | cons candidate later ih =>
    intro group interfaces holds
    have next := ih (holds.add candidate)
    rw [List.append_assoc] at next
    exact next

theorem collectCompatibleInterfaces_parts (interfaces : List InterfaceInfo) :
    (collectCompatibleInterfaces interfaces).Parts interfaces := by
  have start : Group.Parts {} [] :=
    ⟨⟨fun k => by simp, fun k => by simp⟩, fun _ => nofun, .nil⟩
  have holds := start.addAll interfaces
  rw [List.nil_append] at holds
  have sorted := List.perm_insertionSort
    (fun (i j : InterfaceInfo) => i.addressSpecifiedBits ≥ j.addressSpecifiedBits)
    (interfaces.foldl Group.add {}).compatibleInterfaces
  exact ⟨holds.specified, fun interfaceInfo member =>
    holds.includes interfaceInfo (sorted.mem_iff.mp member),
    (sorted.append_right _).trans holds.parts⟩

theorem compatible_grows (later : List InterfaceInfo) :
    ∀ {group : Group}, group.compatibleInterfaces ≠ [] →
      (later.foldl Group.add group).compatibleInterfaces ≠ [] := by
  induction later with
  | nil => exact id
  | cons candidate later ih =>
    intro group filled
    refine ih ?_
    unfold Group.add
    split
    · exact List.append_ne_nil_of_left_ne_nil filled _
    · exact filled

/-- The first interface is always in the group. -/
theorem collectCompatibleInterfaces_ne_nil (first : InterfaceInfo) (rest : List InterfaceInfo) :
    (collectCompatibleInterfaces (first :: rest)).compatibleInterfaces ≠ [] := by
  have accepted : (({} : Merged).add first).accepts = true := by
    simp [Merged.accepts, Merged.add]
  have filled : ((first :: rest).foldl Group.add {}).compatibleInterfaces ≠ [] := by
    rw [List.foldl_cons]
    refine compatible_grows rest ?_
    rw [Group.add, if_pos accepted]
    exact List.append_ne_nil_of_right_ne_nil _ (List.cons_ne_nil _ _)
  have sorted := List.perm_insertionSort
    (fun (i j : InterfaceInfo) => i.addressSpecifiedBits ≥ j.addressSpecifiedBits)
    ((first :: rest).foldl Group.add {}).compatibleInterfaces
  exact fun none' => filled (sorted.symm.trans (.of_eq none')).eq_nil

theorem collectCompatibleInterfaces_others_lt (first : InterfaceInfo) (rest : List InterfaceInfo) :
    (collectCompatibleInterfaces (first :: rest)).others.length < (first :: rest).length := by
  have whole := (collectCompatibleInterfaces_parts (first :: rest)).parts.length_eq
  have some' := List.length_pos_iff.mpr (collectCompatibleInterfaces_ne_nil first rest)
  rw [List.length_append] at whole
  omega

/-! ### Networks -/

theorem findPart_spec {accepts : Ipv4Address → Bool} {bits limit : Ipv4Address} {fuel : Nat} :
    ∀ {part start found : Ipv4Address},
      findPart accepts bits limit fuel part start = .ok (some found) →
      accepts found = true ∧ ∀ j, bits.getLsbD j = false → found.getLsbD j = start.getLsbD j := by
  induction fuel with
  | zero => exact nofun
  | succ fuel ih =>
    intro part start found returned
    rw [findPart] at returned
    split at returned
    next =>
      dsimp only at returned
      split at returned
      next accepted =>
        cases returned
        exact ⟨accepted, fun j unselected => getLsbD_setPackedBits unselected⟩
      next =>
        obtain ⟨accepted, same⟩ := ih returned
        exact ⟨accepted, fun j unselected =>
          (same j unselected).trans (getLsbD_setPackedBits unselected)⟩
    next => cases returned

/-- The part does not start again at 0 before it passes the limit. -/
theorem findPart_ends {accepts : Ipv4Address → Bool} {bits limit : Ipv4Address}
    (last : limit.toNat + 1 < 2 ^ 32) (fuel : Nat) :
    ∀ {part start : Ipv4Address}, part.toNat ≤ limit.toNat + 1 →
      limit.toNat + 1 < part.toNat + fuel →
      ∃ found, findPart accepts bits limit fuel part start = .ok found := by
  induction fuel with
  | zero =>
    intro part start reached enough
    omega
  | succ fuel ih =>
    intro part start reached enough
    rw [findPart]
    split
    next inside =>
      dsimp only
      split
      · exact ⟨_, rfl⟩
      · have le : part.toNat ≤ limit.toNat := inside
        have next : (part + 1).toNat = part.toNat + 1 := by
          rw [BitVec.toNat_add]
          exact Nat.mod_eq_of_lt (by change part.toNat + 1 < 2 ^ 32; omega)
        exact ih (by omega) (by omega)
    next => exact ⟨none, rfl⟩

theorem findNetwork_spec {parameters : Parameters} {state : State}
    {count : Nat} {lengths : List Nat} {networkAddress networkNetmask : Ipv4Address}
    (found : findNetwork parameters state merged count lengths =
      .ok (some (networkAddress, networkNetmask))) :
    ∃ length ∈ lengths, networkNetmask = netmaskOf length ∧
      findNetworkAddress parameters state merged count length = .ok (some networkAddress) := by
  induction lengths with
  | nil => cases found
  | cons length rest ih =>
    rw [findNetwork] at found
    obtain ⟨counted, here, found⟩ := bind_eq_ok.mp found
    cases counted with
    | some address =>
      cases found
      exact ⟨length, List.mem_cons_self, rfl, here⟩
    | none =>
      obtain ⟨other, member, same⟩ := ih found
      exact ⟨other, List.mem_cons_of_mem _ member, same⟩

theorem findNetwork_ends (parameters : Parameters) (state : State) (merged : Merged)
    (count : Nat) (lengths : List Nat) (short : ∀ length ∈ lengths, length ≤ 30) :
    ∃ found, findNetwork parameters state merged count lengths = .ok found := by
  induction lengths with
  | nil => exact ⟨none, rfl⟩
  | cons length rest ih =>
    have small := short length List.mem_cons_self
    have clear : (~~~merged.addressSpecifiedBits &&& netmaskOf length).getLsbD 0 = false := by
      rw [BitVec.getLsbD_and, getLsbD_netmaskOf (by omega) (by decide),
        decide_eq_false (by omega), Bool.and_false]
    have packed := getPackedBits_lt (~~~0#32) clear
    have limit : (getPackedBits (~~~0#32)
        (~~~merged.addressSpecifiedBits &&& netmaskOf length) + 1).toNat ≤ 2 ^ 31 := by
      rw [BitVec.toNat_add]
      exact (Nat.mod_le _ _).trans (Nat.succ_le_of_lt packed)
    have ends : ∃ found, findNetworkAddress parameters state merged count length = .ok found := by
      refine findPart_ends (by omega) _ (Nat.zero_le _) ?_
      change _ < 0 + _
      omega
    obtain ⟨counted, here⟩ := ends
    rw [findNetwork, here, ok_bind]
    cases counted with
    | some address => exact ⟨_, rfl⟩
    | none => exact ih fun length member => short length (List.mem_cons_of_mem _ member)

/-- A network for a group. -/
structure Network (parameters : Parameters) (state : State) (merged : Merged)
    (networkAddress networkNetmask : Ipv4Address) : Prop where
  length : ∃ length, 2 ≤ length ∧ length ≤ 30 ∧ networkNetmask = netmaskOf length
  base : networkAddress &&& ~~~networkNetmask = 0
  compatible : ∀ k, networkNetmask.getLsbD k = true →
    merged.addressIncompatibleBits.getLsbD k = false
  address : ∀ k, networkNetmask.getLsbD k = true → merged.addressSpecifiedBits.getLsbD k = true →
    networkAddress.getLsbD k = merged.address.getLsbD k
  netmask : ∀ k, merged.netmaskSpecifiedBits.getLsbD k = true →
    networkNetmask.getLsbD k = merged.netmask.getLsbD k
  apart : parameters.assignDisjunctSubnetAddresses = true → ∀ assigned ∈ state.assignedNetworks,
    overlaps networkAddress networkNetmask assigned = false

theorem lt_of_getLsbD (bit : value.getLsbD k = true) : k < 32 := by
  by_contra outside
  rw [BitVec.getLsbD_of_ge value k (not_lt.mp outside)] at bit
  cases bit

/-- Bits of the netmask are above those where the specifications of addresses disagree or that of
the netmask is 0. -/
theorem clear_of_maximum {length : Nat}
    (most : (length : Int) ≤ 32 - 1 - getMostSignificantBitIndex value true (-1))
    (above : 32 - length ≤ k) : value.getLsbD k = false := by
  by_contra set
  rw [Bool.not_eq_false] at set
  have index := le_mostSignificant (lt_of_getLsbD set) set (-1)
  omega

theorem clear_of_minimum {length : Nat}
    (least : 32 - getLeastSignificantBitIndex value true 32 ≤ length)
    (below : k < 32 - length) : value.getLsbD k = false := by
  by_contra set
  rw [Bool.not_eq_false] at set
  have index := leastSignificant_le (lt_of_getLsbD set) set 32
  omega

theorem network_found {parameters : Parameters} {state : State} {count : Nat}
    (room : 3 ≤ count) {networkAddress networkNetmask : Ipv4Address}
    (found : findNetwork parameters state merged count
      (netmaskLengths (minimumNetmaskLength merged) (maximumNetmaskLength merged count)) =
        .ok (some (networkAddress, networkNetmask))) :
    Network parameters state merged networkAddress networkNetmask := by
  obtain ⟨length, member, rfl, counted⟩ := findNetwork_spec found
  obtain ⟨accepted, same⟩ := findPart_spec counted
  simp only [netmaskLengths, List.mem_filter, Bool.and_eq_true, decide_eq_true_eq] at member
  obtain ⟨_, minimum, maximum⟩ := member
  simp only [maximumNetmaskLength, le_min_iff] at maximum
  obtain ⟨⟨zeros, incompatible⟩, enough⟩ := maximum
  have bits := two_le_representationBitCount room
  have short : length ≤ 30 := by omega
  simp only [acceptsNetwork, Bool.and_eq_true, decide_eq_true_eq, Bool.not_eq_true'] at accepted
  obtain ⟨⟨disjunct, _⟩, wide⟩ := accepted
  have long : 2 ≤ length := by
    by_contra small
    have width : 32 - length = 31 ∨ 32 - length = 32 := by omega
    have narrow : shiftedOne (32 - length) ≤ 1 := by
      rcases width with width | width <;> rw [width] <;> decide
    omega
  have mask (k : Nat) : (netmaskOf length).getLsbD k = true ↔ k < 32 ∧ 32 - length ≤ k := by
    by_cases inside : k < 32
    · rw [getLsbD_netmaskOf (by omega) inside, decide_eq_true_eq]
      exact (and_iff_right inside).symm
    · rw [BitVec.getLsbD_of_ge _ _ (not_lt.mp inside)]
      exact ⟨nofun, fun both => absurd both.1 inside⟩
  refine ⟨⟨length, long, short, rfl⟩, ?_, fun k set => ?_, fun k set known => ?_, fun k known => ?_,
    fun enabled assigned listed => ?_⟩
  · apply BitVec.eq_of_getLsbD_eq
    intro k inside
    rw [BitVec.getLsbD_and, BitVec.getLsbD_not, decide_eq_true inside, Bool.true_and]
    cases set : (netmaskOf length).getLsbD k with
    | true => simp
    | false =>
      rw [same k (by rw [BitVec.getLsbD_and, set, Bool.and_false]), BitVec.getLsbD_and, set]
      simp
  · exact clear_of_maximum incompatible ((mask k).mp set).2
  · rw [same k (by rw [BitVec.getLsbD_and, BitVec.getLsbD_not, known]; simp), BitVec.getLsbD_and,
      BitVec.getLsbD_and, known, set, Bool.and_true, Bool.and_true]
  · have inside := lt_of_getLsbD known
    cases set : (netmaskOf length).getLsbD k with
    | true =>
      have clear := clear_of_maximum zeros ((mask k).mp set).2
      rw [BitVec.getLsbD_and, BitVec.getLsbD_not, known, decide_eq_true inside, Bool.true_and,
        Bool.and_true, Bool.not_eq_false'] at clear
      exact clear.symm
    | false =>
      have below : k < 32 - length := by
        by_contra above
        rw [(mask k).mpr ⟨inside, not_lt.mp above⟩] at set
        cases set
      have clear := clear_of_minimum minimum below
      rw [BitVec.getLsbD_and, known, Bool.and_true] at clear
      exact clear.symm
  · rw [enabled, Bool.true_and] at disjunct
    have none' := List.any_eq_false.mp disjunct assigned listed
    exact (Bool.not_eq_true _).mp none'

/-! ### Interfaces -/

/-- The bits of an address outside the netmask. -/
def hostPart (address networkNetmask : Ipv4Address) : Ipv4Address := address &&& ~~~networkNetmask

/-- No host bit of the interface is specified. -/
def LeavesHost (interfaceInfo : InterfaceInfo) (networkNetmask : Ipv4Address) : Prop :=
  interfaceInfo.addressSpecifiedBits &&& ~~~networkNetmask = 0

/-- Addresses in the network are below the last two. -/
def HasRoom (addresses : List Ipv4Address) (networkAddress networkNetmask : Ipv4Address) : Prop :=
  ∀ address ∈ addresses, address &&& networkNetmask = networkAddress →
    (hostPart address networkNetmask).toNat + 1 < (~~~networkNetmask).toNat

theorem maximumPart_spec (unspecifiedBits wanted : Ipv4Address) (addresses : List Ipv4Address)
    (limit : Nat) :
    (maximumPart unspecifiedBits wanted addresses).toNat < limit ↔ 0 < limit ∧
      ∀ other ∈ addresses, other &&& ~~~unspecifiedBits = wanted &&& ~~~unspecifiedBits →
        (getPackedBits other unspecifiedBits).toNat < limit := by
  have rounds : ∀ (addresses : List Ipv4Address) (start : Ipv4Address),
      (addresses.foldl (fun maximum other =>
        if other &&& ~~~unspecifiedBits = wanted &&& ~~~unspecifiedBits ∧
            getPackedBits other unspecifiedBits > maximum then
          getPackedBits other unspecifiedBits
        else maximum) start).toNat < limit ↔ start.toNat < limit ∧
        ∀ other ∈ addresses, other &&& ~~~unspecifiedBits = wanted &&& ~~~unspecifiedBits →
          (getPackedBits other unspecifiedBits).toNat < limit := by
    intro addresses
    induction addresses with
    | nil => simp
    | cons first rest ih =>
      intro start
      rw [List.foldl_cons, ih, List.forall_mem_cons, ← and_assoc]
      refine and_congr_left' ?_
      split
      next larger =>
        have less : start.toNat < (getPackedBits first unspecifiedBits).toNat := larger.2
        exact ⟨fun small => ⟨less.trans small, fun _ => small⟩, fun both => both.2 larger.1⟩
      next smaller =>
        refine ⟨fun small => ⟨small, fun matching => ?_⟩, And.left⟩
        have le : (getPackedBits first unspecifiedBits).toNat ≤ start.toNat :=
          not_lt.mp fun less => smaller ⟨matching, less⟩
        omega
  exact rounds addresses 0

theorem clear_and {mask : Ipv4Address} (clear : value &&& mask = 0) :
    ~~~value &&& mask = mask := by
  apply BitVec.eq_of_getLsbD_eq
  intro k inside
  have zero := congrArg (·.getLsbD k) clear
  simp only [BitVec.getLsbD_and, BitVec.ofNat_eq_ofNat, BitVec.getLsbD_zero] at zero
  rw [BitVec.getLsbD_and, BitVec.getLsbD_not, decide_eq_true inside, Bool.true_and]
  revert zero
  generalize value.getLsbD k = bit, mask.getLsbD k = set
  revert bit set
  decide

section
variable {parameters : Parameters} {state : State} {merged : Merged}
  {networkAddress networkNetmask : Ipv4Address}
  (network : Network parameters state merged networkAddress networkNetmask)
  {interfaceInfo : InterfaceInfo}

include network in
theorem Network.base_bit (host : networkNetmask.getLsbD k = false) :
    networkAddress.getLsbD k = false := by
  by_contra set
  rw [Bool.not_eq_false] at set
  have zero := congrArg (·.getLsbD k) network.base
  simp only [BitVec.getLsbD_and, BitVec.getLsbD_not, host, set, lt_of_getLsbD set] at zero
  simp at zero

include network in
/-- The address of an interface has its specified bits, and is in the network. -/
theorem completeAddress_agrees (includes : merged.Includes interfaceInfo) :
    completeAddress state networkAddress networkNetmask interfaceInfo &&&
        interfaceInfo.addressSpecifiedBits =
        interfaceInfo.address &&& interfaceInfo.addressSpecifiedBits ∧
      networkNetmask &&& interfaceInfo.netmaskSpecifiedBits =
        interfaceInfo.netmask &&& interfaceInfo.netmaskSpecifiedBits ∧
      completeAddress state networkAddress networkNetmask interfaceInfo &&& networkNetmask =
        networkAddress := by
  refine ⟨?_, ?_, ?_⟩
  all_goals
    apply BitVec.eq_of_getLsbD_eq
    intro k inside
    rw [BitVec.getLsbD_and]
  · rw [BitVec.getLsbD_and]
    cases known : interfaceInfo.addressSpecifiedBits.getLsbD k with
    | false => rw [Bool.and_false, Bool.and_false]
    | true =>
      rw [Bool.and_true, Bool.and_true, completeAddress]
      rw [BitVec.getLsbD_or, getLsbD_setPackedBits (by simp [known]), BitVec.getLsbD_and,
        BitVec.getLsbD_not, decide_eq_true inside, Bool.true_and]
      cases set : networkNetmask.getLsbD k with
      | true =>
        obtain ⟨known', same⟩ := includes.address k (network.compatible k set) known
        rw [network.address k set known', same, Bool.not_true, Bool.and_false, Bool.or_false]
      | false => rw [network.base_bit set, Bool.false_or, Bool.not_false, Bool.and_true]
  · rw [BitVec.getLsbD_and]
    cases known : interfaceInfo.netmaskSpecifiedBits.getLsbD k with
    | false => rw [Bool.and_false, Bool.and_false]
    | true =>
      obtain ⟨known', same⟩ := includes.netmask k known
      rw [network.netmask k known', same]
  · cases set : networkNetmask.getLsbD k with
    | false => rw [Bool.and_false, network.base_bit set]
    | true =>
      rw [Bool.and_true, completeAddress]
      rw [BitVec.getLsbD_or, getLsbD_setPackedBits (by simp [set]), BitVec.getLsbD_and,
        BitVec.getLsbD_not, set]
      simp

include network in
/-- The host part of an interface that leaves it free is valid if and only if there is room. -/
theorem hostPart_valid_iff (free : LeavesHost interfaceInfo networkNetmask) :
    (hostPart (completeAddress state networkAddress networkNetmask interfaceInfo)
          networkNetmask ≠ 0 ∧
        hostPart (completeAddress state networkAddress networkNetmask interfaceInfo)
          networkNetmask ≠ ~~~networkNetmask) ↔
      HasRoom state.assignedInterfaceAddresses networkAddress networkNetmask := by
  obtain ⟨length, long, short, same⟩ := network.length
  have low : IsLow (~~~networkNetmask) (32 - length) := same ▸ isLow_netmaskOf (by omega)
  generalize width : 32 - length = bits at low
  have wide : 2 ^ 2 ≤ 2 ^ bits := Nat.pow_le_pow_right (by decide) (by omega)
  have fits : 2 ^ bits ≤ 2 ^ 30 := Nat.pow_le_pow_right (by decide) (by omega)
  have all : ~~~interfaceInfo.addressSpecifiedBits &&& ~~~networkNetmask = ~~~networkNetmask :=
    clear_and free
  have base : networkAddress &&& networkNetmask = networkAddress :=
    Ipv4Address.eq_masked network.base
  have wanted : (networkAddress ||| interfaceInfo.address &&& ~~~networkNetmask) &&&
      ~~~(~~~networkNetmask) = networkAddress := by
    rw [BitVec.not_not, BitVec.and_or_distrib_right, base, BitVec.and_assoc,
      BitVec.and_comm (~~~networkNetmask), BitVec.and_not_self]
    simp
  generalize largest : maximumPart (~~~networkNetmask) (networkAddress |||
    interfaceInfo.address &&& ~~~networkNetmask) state.assignedInterfaceAddresses = maximum
  have bound (limit : Nat) : maximum.toNat < limit ↔ 0 < limit ∧
      ∀ address ∈ state.assignedInterfaceAddresses, address &&& networkNetmask = networkAddress →
        (hostPart address networkNetmask).toNat < limit := by
    have spec := maximumPart_spec (~~~networkNetmask) (networkAddress |||
      interfaceInfo.address &&& ~~~networkNetmask) state.assignedInterfaceAddresses limit
    rw [largest, wanted] at spec
    simp only [BitVec.not_not, low.getPackedBits_eq] at spec
    exact spec
  have host : hostPart (completeAddress state networkAddress networkNetmask interfaceInfo)
      networkNetmask = (maximum + 1) &&& ~~~networkNetmask := by
    rw [completeAddress, all, low.setPackedBits_eq, largest, hostPart,
      BitVec.and_or_distrib_right, network.base, BitVec.and_assoc, BitVec.and_not_self,
      BitVec.and_or_distrib_right, BitVec.and_assoc, BitVec.and_assoc (maximum + 1),
      BitVec.and_self]
    simp
  have small : maximum.toNat < 2 ^ bits :=
    (bound _).mpr ⟨by omega, fun address _ _ => by
      rw [hostPart, low.toNat_and]
      exact Nat.mod_lt _ (by omega)⟩
  have value : (maximum + 1 &&& ~~~networkNetmask).toNat = (maximum.toNat + 1) % 2 ^ bits := by
    rw [low.toNat_and, BitVec.toNat_add]
    change (maximum.toNat + 1) % 2 ^ 32 % 2 ^ bits = _
    rw [Nat.mod_eq_of_lt (by omega : maximum.toNat + 1 < 2 ^ 32)]
  have room : HasRoom state.assignedInterfaceAddresses networkAddress networkNetmask ↔
      maximum.toNat < 2 ^ bits - 2 := by
    rw [bound, HasRoom, low.toNat]
    constructor
    · exact fun room => ⟨by omega, fun address member inside => by
        have := room address member inside
        omega⟩
    · exact fun both address member inside => by
        have := both.2 address member inside
        omega
  rw [room, host, Ne, Ne, ← BitVec.toNat_inj, ← BitVec.toNat_inj, value, low.toNat]
  change ¬(maximum.toNat + 1) % 2 ^ bits = 0 ∧ _ ↔ _
  rcases Nat.lt_or_ge (maximum.toNat + 1) (2 ^ bits) with inside | last
  · rw [Nat.mod_eq_of_lt inside]
    omega
  · have exact' : maximum.toNat + 1 = 2 ^ bits := by omega
    rw [exact', Nat.mod_self]
    omega

end

end Inet.Configurator.Addresses
