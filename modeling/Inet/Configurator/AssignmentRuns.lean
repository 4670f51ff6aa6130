import Inet.Configurator.AssignedAddresses

/-!
# Runs of the assignment

Interfaces are configured one after the other. What holds of an assignment depends only on the
addresses that have been assigned before it.
-/
namespace Inet.Configurator.Addresses

open Inet.Ipv4 Lib

variable {interfaces : List InterfaceInfo} {next state : State}

theorem isValidNetmask_netmaskOf {length : Nat} (short : length < 32) :
    (netmaskOf length).isValidNetmask = true := by
  rw [netmaskOf_eq short]
  exact Ipv4Address.isValidNetmask_makeNetmask (by omega)

/-- The host part is neither all zeros nor all ones. -/
def Assignment.ValidHost (assignment : Assignment) : Prop :=
  hostPart assignment.completeAddress assignment.networkNetmask ≠ 0 ∧
    hostPart assignment.completeAddress assignment.networkNetmask ≠ ~~~assignment.networkNetmask

/-- An assignment is correct apart from its host part, after those of the earlier addresses. -/
structure Assignment.Sound (assignment : Assignment) (earlier : List Ipv4Address) : Prop where
  address : assignment.completeAddress &&& assignment.interfaceInfo.addressSpecifiedBits =
    assignment.interfaceInfo.address &&& assignment.interfaceInfo.addressSpecifiedBits
  netmask : assignment.networkNetmask &&& assignment.interfaceInfo.netmaskSpecifiedBits =
    assignment.interfaceInfo.netmask &&& assignment.interfaceInfo.netmaskSpecifiedBits
  valid : assignment.networkNetmask.isValidNetmask = true
  inside : assignment.completeAddress &&& assignment.networkNetmask = assignment.networkAddress
  host : LeavesHost assignment.interfaceInfo assignment.networkNetmask →
    (assignment.ValidHost ↔
      HasRoom earlier assignment.networkAddress assignment.networkNetmask)

/-- Networks without a common address. -/
def Apart (first second : Ipv4Address × Ipv4Address) : Prop :=
  ∀ address, address &&& first.2 = first.1 → address &&& second.2 ≠ second.1

/-- The assignments of a state, each after those before it. -/
structure Run (parameters : Parameters) (state : State) : Prop where
  each : ∀ before assignment after, state.assigned = before ++ assignment :: after →
    assignment.Sound (before.map (·.completeAddress))
  unique : parameters.assignUniqueAddresses = true → state.assignedInterfaceAddresses.Nodup

/-- The state after the groups of some interfaces. -/
structure State.Sound (parameters : Parameters) (interfaces : List InterfaceInfo) (state : State) :
    Prop extends Run parameters state where
  disjunct : parameters.assignDisjunctSubnetAddresses = true → state.assignedNetworks.Pairwise Apart
  networks : ∀ assignment ∈ state.assigned,
    (assignment.networkAddress, assignment.networkNetmask) ∈ state.assignedNetworks
  interfaces : (state.assigned.map (·.interfaceInfo)).Perm interfaces

/-! ### Interfaces of a group -/

theorem Network.congr {parameters : Parameters} {merged : Merged}
    {networkAddress networkNetmask : Ipv4Address}
    (network : Network parameters state merged networkAddress networkNetmask)
    (same : next.assignedNetworks = state.assignedNetworks) :
    Network parameters next merged networkAddress networkNetmask :=
  ⟨network.length, network.base, network.compatible, network.address, network.netmask,
    same ▸ network.apart⟩

/-- A decomposition of a list with one more element. -/
theorem snoc_eq {α : Type} {items before after : List α} {last item : α}
    (same : items ++ [last] = before ++ item :: after) :
    (before = items ∧ item = last) ∨ ∃ between, items = before ++ item :: between := by
  rcases after.eq_nil_or_concat with rfl | ⟨between, other, rfl⟩
  · obtain ⟨rfl, end'⟩ := List.append_inj' same rfl
    exact .inl ⟨rfl, (List.head_eq_of_cons_eq end').symm⟩
  · rw [List.concat_eq_append, ← List.cons_append, ← List.append_assoc] at same
    exact .inr ⟨between, (List.append_inj' same rfl).1⟩

section
variable {parameters : Parameters} {merged : Merged} {networkAddress networkNetmask : Ipv4Address}

/-- What the interfaces of a group add to a state, before the network is registered. -/
structure Extends (networkAddress networkNetmask : Ipv4Address)
    (interfaces : List InterfaceInfo) (state next : State) : Prop where
  networks : next.assignedNetworks = state.assignedNetworks
  assigned : ∃ added, next.assigned = state.assigned ++ added ∧
    added.map (·.interfaceInfo) = interfaces ∧
    ∀ assignment ∈ added, assignment.networkAddress = networkAddress ∧
      assignment.networkNetmask = networkNetmask

theorem assignInterface_run
    (network : Network parameters state merged networkAddress networkNetmask)
    {interfaceInfo : InterfaceInfo} (includes : merged.Includes interfaceInfo)
    (holds : Run parameters state)
    (returned : assignInterface parameters networkAddress networkNetmask state interfaceInfo =
      .ok next) :
    Run parameters next ∧
      Extends networkAddress networkNetmask [interfaceInfo] state next := by
  obtain ⟨address, netmask, inside⟩ := completeAddress_agrees network includes
  obtain ⟨length, _, short, mask⟩ := network.length
  unfold assignInterface at returned
  dsimp only at returned
  split at returned
  next => cases returned
  next fresh =>
    cases returned
    refine ⟨⟨fun before assignment after same => ?_, fun enabled => ?_⟩, rfl, _, rfl, rfl,
      fun assignment member => ?_⟩
    · rcases snoc_eq same with ⟨rfl, rfl⟩ | ⟨between, old⟩
      · exact ⟨address, netmask, mask ▸ isValidNetmask_netmaskOf (by omega), inside,
          fun free => hostPart_valid_iff network free⟩
      · exact holds.each before assignment between old
    · rw [enabled, Bool.true_and, List.contains_iff_mem] at fresh
      rw [State.assignedInterfaceAddresses, List.map_append, List.nodup_append]
      refine ⟨holds.unique enabled, List.nodup_singleton _, fun address old other new same => ?_⟩
      rw [List.map_singleton, List.mem_singleton] at new
      dsimp only at new
      subst new
      exact fresh (same ▸ old)
    · rw [List.mem_singleton.mp member]
      exact ⟨rfl, rfl⟩

theorem assignInterfaces_run :
    ∀ {state next : State}, Network parameters state merged networkAddress networkNetmask →
      (∀ interfaceInfo ∈ interfaces, merged.Includes interfaceInfo) → Run parameters state →
      interfaces.foldlM (assignInterface parameters networkAddress networkNetmask) state =
        .ok next →
      Run parameters next ∧ Extends networkAddress networkNetmask interfaces state next := by
  induction interfaces with
  | nil =>
    intro state next network includes holds returned
    cases returned
    exact ⟨holds, rfl, [], (List.append_nil _).symm, rfl, nofun⟩
  | cons interfaceInfo rest ih =>
    intro state next network includes holds returned
    rw [List.foldlM_cons] at returned
    obtain ⟨between, first, later⟩ := bind_eq_ok.mp returned
    obtain ⟨holds, networks, added, assigned, infos, here⟩ :=
      assignInterface_run network (includes _ List.mem_cons_self) holds first
    obtain ⟨holds, networks', added', assigned', infos', here'⟩ :=
      ih (network.congr networks)
        (fun other member => includes other (List.mem_cons_of_mem _ member)) holds later
    refine ⟨holds, networks'.trans networks, added ++ added', ?_, ?_, fun assignment member => ?_⟩
    · rw [assigned', assigned, List.append_assoc]
    · rw [List.map_append, infos, infos']
      rfl
    · rcases List.mem_append.mp member with first | later
      · exact here assignment first
      · exact here' assignment later

end

/-! ### Groups of a link -/

section
variable {parameters : Parameters}

theorem three_le_count (some' : interfaces ≠ []) :
    3 ≤ interfaces.length + 2 := by
  have := List.length_pos_iff.mpr some'
  omega

theorem assignGroup_sound {compatibleInterfaces : List InterfaceInfo} {merged : Merged}
    (holds : state.Sound parameters interfaces) (some' : compatibleInterfaces ≠ [])
    (includes : ∀ interfaceInfo ∈ compatibleInterfaces, merged.Includes interfaceInfo)
    (returned : assignGroup parameters state merged compatibleInterfaces = .ok next) :
    next.Sound parameters (interfaces ++ compatibleInterfaces) := by
  unfold assignGroup at returned
  dsimp only at returned
  split at returned
  next => cases returned
  next =>
    obtain ⟨found, search, returned⟩ := bind_eq_ok.mp returned
    cases found with
    | none => cases returned
    | some found =>
      obtain ⟨networkAddress, networkNetmask⟩ := found
      obtain ⟨final, rounds, returned⟩ := bind_eq_ok.mp returned
      cases returned
      have network := network_found (three_le_count some') search
      obtain ⟨run, networks, added, assigned, infos, here⟩ :=
        assignInterfaces_run network includes holds.toRun rounds
      refine ⟨⟨run.each, run.unique⟩, fun enabled => ?_, fun assignment member => ?_, ?_⟩
      · rw [networks, List.pairwise_append]
        refine ⟨holds.disjunct enabled, List.pairwise_singleton _ _,
          fun other listed new same => ?_⟩
        rw [List.mem_singleton.mp same]
        intro address first second
        exact apart_of_not_overlaps (network.apart enabled other listed) second first
      · rw [assigned] at member
        rw [networks]
        rcases List.mem_append.mp member with old | new
        · exact List.mem_append_left _ (holds.networks assignment old)
        · obtain ⟨first, second⟩ := here assignment new
          rw [first, second]
          exact List.mem_append_right _ (List.mem_singleton_self _)
      · rw [assigned, List.map_append, infos]
        exact holds.interfaces.append_right _

theorem maximumNetmaskLength_le (merged : Merged) {count : Nat} (large : 3 ≤ count) :
    maximumNetmaskLength merged count ≤ 30 := by
  have bits := two_le_representationBitCount large
  have le : maximumNetmaskLength merged count ≤ 32 - getRepresentationBitCount count :=
    min_le_right _ _
  omega

/-- The ways in which an assignment stops without a result. -/
def Fails (message : String) : Prop :=
  (∃ merged minimum maximum compatibleInterfaces,
    message = networkError merged minimum maximum compatibleInterfaces) ∨
    ∃ interfaceInfo, message = uniqueError interfaceInfo

/-- A computation that ends as it is meant to. -/
def Ends (result : Except String State) : Prop :=
  (∃ state, result = .ok state) ∨ ∃ message, result = .error message ∧ Fails message

theorem Ends.bind {first : Except String State} {next : State → Except String State}
    (ends : Ends first) (later : ∀ state, first = .ok state → Ends (next state)) :
    Ends (first >>= next) := by
  rcases ends with ⟨state, rfl⟩ | ⟨message, rfl, fails⟩
  · exact later state rfl
  · exact .inr ⟨message, rfl, fails⟩

theorem Ends.foldlM {step : State → InterfaceInfo → Except String State}
    (each : ∀ state item, Ends (step state item)) (items : List InterfaceInfo) :
    ∀ state, Ends (items.foldlM step state) := by
  induction items with
  | nil => exact fun state => .inl ⟨state, rfl⟩
  | cons item rest ih =>
    intro state
    rw [List.foldlM_cons]
    exact (each state item).bind fun next _ => ih next

theorem assignInterface_ends (networkAddress networkNetmask : Ipv4Address) (state : State)
    (interfaceInfo : InterfaceInfo) :
    Ends (assignInterface parameters networkAddress networkNetmask state interfaceInfo) := by
  unfold assignInterface
  dsimp only
  split
  · exact .inr ⟨_, rfl, .inr ⟨interfaceInfo, rfl⟩⟩
  · exact .inl ⟨_, rfl⟩

theorem assignGroup_ends (state : State) (merged : Merged)
    {compatibleInterfaces : List InterfaceInfo} (some' : compatibleInterfaces ≠ []) :
    Ends (assignGroup parameters state merged compatibleInterfaces) := by
  have maximum := maximumNetmaskLength_le merged (three_le_count some')
  unfold assignGroup
  dsimp only
  rw [if_neg (by omega)]
  obtain ⟨found, search⟩ := findNetwork_ends parameters state merged
    (compatibleInterfaces.length + 2) (netmaskLengths (minimumNetmaskLength merged)
      (maximumNetmaskLength merged (compatibleInterfaces.length + 2)))
    (fun length member => by
      simp only [netmaskLengths, List.mem_filter, Bool.and_eq_true, decide_eq_true_eq] at member
      omega)
  rw [search, ok_bind]
  cases found with
  | none => exact .inr ⟨_, rfl, .inl ⟨_, _, _, _, rfl⟩⟩
  | some found =>
    exact (Ends.foldlM (assignInterface_ends found.1 found.2) compatibleInterfaces state).bind
      fun next _ => .inl ⟨_, rfl⟩

/-- Every group has an interface, so that there are enough rounds. -/
theorem assignLink_ends (fuel : Nat) : ∀ (state : State) (interfaces : List InterfaceInfo),
    interfaces.length ≤ fuel → Ends (assignLink parameters fuel state interfaces) := by
  induction fuel with
  | zero =>
    intro state interfaces short
    rw [List.length_eq_zero_iff.mp (Nat.le_zero.mp short)]
    exact .inl ⟨state, rfl⟩
  | succ fuel ih =>
    intro state interfaces short
    cases interfaces with
    | nil => exact .inl ⟨state, rfl⟩
    | cons first rest =>
      have fewer := collectCompatibleInterfaces_others_lt first rest
      have some' := collectCompatibleInterfaces_ne_nil first rest
      exact (assignGroup_ends state _ some').bind fun next _ => ih next _ (by omega)

theorem assignLink_sound {fuel : Nat} : ∀ {state next : State}
    {interfaces unconfiguredInterfaces : List InterfaceInfo}, state.Sound parameters interfaces →
      assignLink parameters fuel state unconfiguredInterfaces = .ok next →
      next.Sound parameters (interfaces ++ unconfiguredInterfaces) := by
  induction fuel with
  | zero =>
    intro state next interfaces unconfigured holds returned
    cases unconfigured with
    | nil =>
      cases returned
      rw [List.append_nil]
      exact holds
    | cons first rest => cases returned
  | succ fuel ih =>
    intro state next interfaces unconfigured holds returned
    cases unconfigured with
    | nil =>
      cases returned
      rw [List.append_nil]
      exact holds
    | cons first rest =>
      obtain ⟨between, group, later⟩ := bind_eq_ok.mp returned
      have parts := collectCompatibleInterfaces_parts (first :: rest)
      have grouped := assignGroup_sound holds (collectCompatibleInterfaces_ne_nil first rest)
        parts.includes group
      have all := ih grouped later
      refine ⟨all.toRun, all.disjunct, all.networks, all.interfaces.trans ?_⟩
      rw [List.append_assoc]
      exact parts.parts.append_left _

/-! ### Links -/

theorem assignLinks_ends (links : List (List InterfaceInfo)) : ∀ state : State,
    Ends (links.foldlM (fun state interfaceInfos =>
      assignLink parameters interfaceInfos.length state interfaceInfos) state) := by
  induction links with
  | nil => exact fun state => .inl ⟨state, rfl⟩
  | cons link rest ih =>
    intro state
    rw [List.foldlM_cons]
    exact (assignLink_ends _ state link le_rfl).bind fun next _ => ih next

theorem assignLinks_sound {links : List (List InterfaceInfo)} :
    ∀ {state next : State} {interfaces : List InterfaceInfo}, state.Sound parameters interfaces →
      links.foldlM (fun state interfaceInfos =>
        assignLink parameters interfaceInfos.length state interfaceInfos) state = .ok next →
      next.Sound parameters (interfaces ++ links.flatten) := by
  induction links with
  | nil =>
    intro state next interfaces holds returned
    cases returned
    rw [List.flatten_nil, List.append_nil]
    exact holds
  | cons link rest ih =>
    intro state next interfaces holds returned
    rw [List.foldlM_cons] at returned
    obtain ⟨between, first, later⟩ := bind_eq_ok.mp returned
    have all := ih (assignLink_sound holds first) later
    rw [List.append_assoc] at all
    exact all

theorem State.Sound.initial : State.Sound parameters [] {} :=
  ⟨⟨fun before assignment after same => by simp at same, fun _ => List.nodup_nil⟩,
    fun _ => .nil, nofun, .nil⟩

end

/-- Every interface that leaves its host part free gets a valid one. -/
def State.HostsValid (state : State) : Prop :=
  ∀ assignment ∈ state.assigned,
    LeavesHost assignment.interfaceInfo assignment.networkNetmask → assignment.ValidHost

/-- Whenever an interface that leaves its host part free gets an address, the addresses that have
been assigned in its network are below the last two. -/
def State.RoomBefore (state : State) : Prop :=
  ∀ before assignment after, state.assigned = before ++ assignment :: after →
    LeavesHost assignment.interfaceInfo assignment.networkNetmask →
    HasRoom (before.map (·.completeAddress)) assignment.networkAddress assignment.networkNetmask

/-- Assignments end, and they are correct if they succeed. The host parts are valid if and only if
there is room for them. -/
theorem assignAddresses_correct (parameters : Parameters) (links : List (List InterfaceInfo)) :
    Ends (assignAddresses parameters links) ∧
      ∀ state, assignAddresses parameters links = .ok state →
        state.Sound parameters links.flatten ∧ (state.HostsValid ↔ state.RoomBefore) := by
  refine ⟨assignLinks_ends links {}, fun state returned => ?_⟩
  have sound := assignLinks_sound .initial returned
  refine ⟨sound, fun valid before assignment after same free => ?_,
    fun room assignment member free => ?_⟩
  · have member : assignment ∈ state.assigned := by
      rw [same]
      exact List.mem_append_right _ List.mem_cons_self
    exact ((sound.each before assignment after same).host free).mp (valid assignment member free)
  · obtain ⟨before, after, same⟩ := List.append_of_mem member
    exact ((sound.each before assignment after same).host free).mpr
      (room before assignment after same free)

/-- An interface of 10.0.0.2 and one of 10.0.0.x, both with the netmask 255.255.255.252. -/
def fixedInterface : InterfaceInfo where
  fullPath := "a"
  address := 0x0a000002
  addressSpecifiedBits := 0xffffffff
  netmask := 0xfffffffc
  netmaskSpecifiedBits := 0xffffffff

def freeInterface (fullPath : String) : InterfaceInfo where
  fullPath := fullPath
  address := 0x0a000000
  addressSpecifiedBits := 0xffffff00
  netmask := 0xfffffffc
  netmaskSpecifiedBits := 0xffffffff

/-- Two interfaces that leave their host parts free. -/
def freePair : State where
  assignedNetworks := [(0x0a000000, 0xfffffffc)]
  assigned :=
    [⟨freeInterface "b", 0x0a000000, 0xfffffffc, 0x0a000001⟩,
      ⟨freeInterface "c", 0x0a000000, 0xfffffffc, 0x0a000002⟩]

theorem assignAddresses_correct_pair :
    freePair.Sound ⟨true, true⟩ [freeInterface "b", freeInterface "c"] ∧
      (freePair.HostsValid ↔ freePair.RoomBefore) :=
  (assignAddresses_correct ⟨true, true⟩ [[freeInterface "b", freeInterface "c"]]).2 freePair
    (by decide +kernel)

/-- The free interface gets the broadcast address, one more than the fixed one, while 10.0.0.1 is
not used. -/
def broadcastState : State where
  assignedNetworks := [(0x0a000000, 0xfffffffc)]
  assigned :=
    [⟨fixedInterface, 0x0a000000, 0xfffffffc, 0x0a000002⟩,
      ⟨freeInterface "b", 0x0a000000, 0xfffffffc, 0x0a000003⟩]

theorem assignAddresses_broadcast :
    ¬ ∀ parameters links state, assignAddresses parameters links = .ok state →
      state.Sound parameters links.flatten ∧ state.HostsValid := by
  intro correct
  have valid := (correct ⟨true, true⟩ [[fixedInterface, freeInterface "b"]] broadcastState
    (by decide +kernel)).2
  have host := valid ⟨freeInterface "b", 0x0a000000, 0xfffffffc, 0x0a000003⟩
    (List.mem_cons_of_mem _ (List.mem_singleton_self _)) (by unfold LeavesHost; decide)
  exact host.2 (by decide)

end Inet.Configurator.Addresses
