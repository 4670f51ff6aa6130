import Inet.Ospfv2.SummaryLsas

/-!
# Link state IDs of summary LSAs

The network with the shortest mask keeps its address as link state ID, and the others with this
address get the last address that they have. That keeps all of them apart as long as no host address
is among these.
-/
namespace Inet.Ospfv2

open Lib Ipv4 Ipv4Address

variable {network : NetworkPrefix}

/-! ### The database -/

namespace Ospfv2Area

variable {area : Ospfv2Area} {lsa : SummaryLsa} {key : LsaKeyType}

def Unique (area : Ospfv2Area) : Prop := KeyedList.Unique SummaryLsa.lsaKey area.summaryLSAs

@[simp] theorem installSummaryLSA_routerID : (area.installSummaryLSA lsa).routerID = area.routerID := by
  rw [installSummaryLSA]
  split <;> rfl

/-- The keys stay apart, and what was installed is found. -/
theorem installSummaryLSA_spec (unique : area.Unique) :
    (area.installSummaryLSA lsa).Unique ∧
      ∀ key, (area.installSummaryLSA lsa).findSummaryLSA key =
        if key = lsa.lsaKey then some lsa else area.findSummaryLSA key := by
  cases found : area.findSummaryLSA lsa.lsaKey with
  | none =>
    have installed : area.installSummaryLSA lsa =
        { area with summaryLSAs := area.summaryLSAs ++ [lsa] } := by
      rw [installSummaryLSA, found]
    have absent := KeyedList.find_eq_none.mp found
    rw [installed]
    constructor
    · rw [Unique, KeyedList.unique_middle, List.append_nil]
      exact ⟨absent, unique⟩
    · intro key
      rw [findSummaryLSA, findSummaryLSA, KeyedList.find, List.find?_append, ← KeyedList.find]
      split
      next same =>
        rw [same]
        rw [findSummaryLSA] at found
        rw [found]
        simp
      next differ => simp [Ne.symm differ]
  | some old =>
    have installed : area.installSummaryLSA lsa = { area with summaryLSAs :=
        (area.summaryLSAs.map fun old => if old.lsaKey = lsa.lsaKey then lsa else old) } := by
      rw [installSummaryLSA, found]
    obtain ⟨member, oldKey⟩ := (KeyedList.find_eq_some unique).mp found
    have kept : (area.installSummaryLSA lsa).Unique := by
      rw [installed, Unique, KeyedList.Unique, List.map_map]
      refine (congrArg List.Nodup (List.map_congr_left fun old _ => ?_)).mpr unique
      rw [Function.comp_apply]
      split
      next same => exact same.symm
      next => rfl
    refine ⟨kept, fun key => Option.ext fun a => ?_⟩
    rw [findSummaryLSA, KeyedList.find_eq_some kept, installed, List.mem_map]
    split
    next same =>
      rw [same]
      constructor
      · rintro ⟨⟨b, _, rfl⟩, key⟩
        split at key
        next same => rw [if_pos same]
        next differ => exact absurd key differ
      · rintro ⟨⟩
        exact ⟨⟨old, member, if_pos oldKey⟩, rfl⟩
    next differ =>
      rw [findSummaryLSA, KeyedList.find_eq_some unique]
      constructor
      · rintro ⟨⟨b, inside, rfl⟩, rfl⟩
        split at differ
        next => exact absurd rfl differ
        next other =>
          rw [if_neg other]
          exact ⟨inside, rfl⟩
      · rintro ⟨inside, rfl⟩
        exact ⟨⟨a, inside, if_neg differ⟩, rfl⟩

/-- The mask and the cost that are announced with a link state ID. -/
def announced (area : Ospfv2Area) (id : LinkStateId) : Option (Ipv4Address × Metric) :=
  (area.findSummaryLSA ⟨id, area.routerID⟩).map fun lsa => (lsa.networkMask, lsa.routeCost)

theorem announced_install (unique : area.Unique) (own : lsa.advertisingRouter = area.routerID)
    (id : LinkStateId) : (area.installSummaryLSA lsa).announced id =
      if id = lsa.linkStateID then some (lsa.networkMask, lsa.routeCost) else area.announced id := by
  have found := (@installSummaryLSA_spec _ lsa unique).2 ⟨id, area.routerID⟩
  rw [announced, installSummaryLSA_routerID, found, SummaryLsa.lsaKey, own]
  by_cases same : id = lsa.linkStateID
  · rw [if_pos same, if_pos (by rw [same])]
    rfl
  · rw [if_neg same, if_neg fun equal => same (congrArg LsaKeyType.linkStateID equal)]
    rfl

/-- What an origination does to the masks and costs that are announced. -/
theorem announced_notify (unique : area.Unique) (modified : Bool) (entry : Ipv4AddressRange)
    (cost : Metric) :
    let next := area.notifyAboutEntry modified entry cost
    next.Unique ∧ next.routerID = area.routerID ∧ ∀ id, next.announced id =
      match area.announced entry.address with
      | none => if id = entry.address then some (entry.mask, cost) else area.announced id
      | some (mask, oldCost) =>
        if entry.mask = mask then
          if id = entry.address then some (entry.mask, cost) else area.announced id
        else if mask.toNat ≤ entry.mask.toNat then
          if id = makeBroadcastAddress entry.address entry.mask then some (entry.mask, cost)
          else area.announced id
        else if id = makeBroadcastAddress entry.address mask then some (mask, oldCost)
        else if id = entry.address then some (entry.mask, cost) else area.announced id := by
  have direct (lsa : SummaryLsa) (own : lsa.advertisingRouter = area.routerID) :
      (area.installSummaryLSA lsa).Unique ∧
        (area.installSummaryLSA lsa).routerID = area.routerID ∧
        ∀ id, (area.installSummaryLSA lsa).announced id =
          if id = lsa.linkStateID then some (lsa.networkMask, lsa.routeCost)
          else area.announced id :=
    ⟨(installSummaryLSA_spec unique).1, installSummaryLSA_routerID, announced_install unique own⟩
  cases found : area.findSummaryLSA ⟨entry.address, area.routerID⟩ with
  | none =>
    have none : area.announced entry.address = none := by rw [announced, found]; rfl
    simp only [notifyAboutEntry, originateSummaryLSA, getUniqueLinkStateID, found, none]
    exact direct _ rfl
  | some old =>
    have some : area.announced entry.address = some (old.networkMask, old.routeCost) := by
      rw [announced, found]
      rfl
    obtain ⟨_, key⟩ := (KeyedList.find_eq_some unique).mp found
    have own : old.advertisingRouter = area.routerID := congrArg LsaKeyType.advertisingRouter key
    have id : old.linkStateID = entry.address := congrArg LsaKeyType.linkStateID key
    simp only [some]
    by_cases same : entry.mask = old.networkMask
    · simp only [notifyAboutEntry, originateSummaryLSA, getUniqueLinkStateID, found, if_pos same]
      exact direct _ rfl
    by_cases longer : old.networkMask.toNat ≤ entry.mask.toNat
    · simp only [notifyAboutEntry, originateSummaryLSA, getUniqueLinkStateID, found, if_neg same,
        ge_iff_le, if_pos longer]
      exact direct _ rfl
    · simp only [notifyAboutEntry, originateSummaryLSA, getUniqueLinkStateID, found, if_neg same,
        ge_iff_le, if_neg longer, Option.map_some, Option.getD_some]
      obtain ⟨again, router, first⟩ := direct { old with
        lsAge := 0
        lsSequenceNumber :=
          if old.lsSequenceNumber = MAX_SEQUENCE_NUMBER then INITIAL_SEQUENCE_NUMBER
          else old.lsSequenceNumber + 1
        networkMask := entry.mask
        routeCost := cost } own
      refine ⟨(installSummaryLSA_spec again).1, installSummaryLSA_routerID.trans router,
        fun id' => (announced_install again ?_ id').trans ?_⟩
      · exact own.trans router.symm
      · rw [first]
        simp only [id]

end Ospfv2Area

/-! ### Link state IDs -/

theorem broadcast_masked (network : NetworkPrefix) :
    makeBroadcastAddress network.address network.mask &&& network.mask = network.address := by
  have masked := eq_masked network.canonical.masked
  rw [makeBroadcastAddress]
  apply BitVec.eq_of_getLsbD_eq
  intro i inside
  have bit := congrArg (·.getLsbD i) masked
  simp only [BitVec.getLsbD_and, BitVec.getLsbD_or, BitVec.getLsbD_not, inside, decide_true,
    Bool.true_and] at bit ⊢
  revert bit
  generalize network.address.getLsbD i = inAddress, network.mask.getLsbD i = set
  revert inAddress set
  decide

theorem eq_of_mask {other : NetworkPrefix} (address : network.address = other.address)
    (mask : network.mask = other.mask) : network = other := by
  obtain ⟨⟨_, _⟩, _⟩ := network
  obtain ⟨⟨_, _⟩, _⟩ := other
  cases address
  cases mask
  rfl

theorem getLsbD_mask (network : NetworkPrefix) {i : Nat} (inside : i < 32) :
    network.mask.getLsbD i = decide (32 - network.mask.getNetmaskLength ≤ i) := by
  conv_lhs => rw [beq_iff_eq.mp network.canonical.valid]
  exact getLsbD_makeNetmask (getNetmaskLength_le _) inside

/-- An address with a shorter mask has no bit where the longer mask ends, and the last address behind
another mask has one. -/
theorem mask_le_of_broadcast {other shorter : NetworkPrefix}
    (address : shorter.address = other.address) (less : shorter.mask.toNat < other.mask.toNat)
    (same : makeBroadcastAddress network.address network.mask =
      makeBroadcastAddress other.address other.mask) : other.mask.toNat ≤ network.mask.toNat := by
  by_contra longer
  rw [not_le] at longer
  have shortLength := (length_lt_iff shorter.canonical.valid other.canonical.valid).mpr less
  have length := (length_lt_iff network.canonical.valid other.canonical.valid).mpr longer
  have bound := getNetmaskLength_le other.mask
  obtain ⟨i, bit⟩ : ∃ i, i = 32 - other.mask.getNetmaskLength := ⟨_, rfl⟩
  have inside : i < 32 := by omega
  have inMask : other.mask.getLsbD i = true := by
    rw [getLsbD_mask other inside]
    exact decide_eq_true (by omega)
  have behind : network.mask.getLsbD i = false := by
    rw [getLsbD_mask network inside]
    exact decide_eq_false (by omega)
  have behindShorter : shorter.mask.getLsbD i = false := by
    rw [getLsbD_mask shorter inside]
    exact decide_eq_false (by omega)
  have clear : other.address.getLsbD i = false := by
    have masked := congrArg (·.getLsbD i) (eq_masked shorter.canonical.masked)
    simp only [BitVec.getLsbD_and, behindShorter, Bool.and_false] at masked
    rw [← address]
    exact masked.symm
  have bits := congrArg (·.getLsbD i) same
  simp only [makeBroadcastAddress, BitVec.getLsbD_or, BitVec.getLsbD_not, inside, decide_true,
    Bool.true_and, inMask, behind, clear, Bool.not_false, Bool.or_true, Bool.not_true,
    Bool.or_false, reduceCtorEq] at bits

/-! ### The networks that were originated -/

section Filing

variable (latest : NetworkPrefix → Option Metric)

/-- There is another network with the same address and a shorter mask. -/
def Moved (network : NetworkPrefix) : Prop :=
  ∃ shorter, (latest shorter).isSome ∧ shorter.address = network.address ∧
    shorter.mask.toNat < network.mask.toNat

/-- The link state ID of a network. -/
def Placed (network : NetworkPrefix) (id : LinkStateId) : Prop :=
  (Moved latest network → id = makeBroadcastAddress network.address network.mask) ∧
    (¬ Moved latest network → id = network.address)

/-- No network has the address that one that is moved gets. -/
def SeparateFrom : Prop :=
  ∀ network, (latest network).isSome → Moved latest network →
    ∀ other, (latest other).isSome →
      other.address ≠ makeBroadcastAddress network.address network.mask

/-- The masks and costs are those of the networks that were originated, at their places. -/
def Files (announced : LinkStateId → Option (Ipv4Address × Metric)) : Prop :=
  ∀ id mask cost, announced id = some (mask, cost) ↔
    ∃ network, latest network = some cost ∧ network.mask = mask ∧ Placed latest network id

variable {latest} {announced : LinkStateId → Option (Ipv4Address × Metric)}
  {network other : NetworkPrefix} {id : LinkStateId} {mask : Ipv4Address} {cost : Metric}

theorem placed_moved (moved : Moved latest network) :
    Placed latest network id ↔ id = makeBroadcastAddress network.address network.mask :=
  ⟨fun placed => placed.1 moved, fun same => ⟨fun _ => same, fun unmoved => absurd moved unmoved⟩⟩

theorem placed_unmoved (unmoved : ¬ Moved latest network) :
    Placed latest network id ↔ id = network.address :=
  ⟨fun placed => placed.2 unmoved, fun same => ⟨fun moved => absurd moved unmoved, fun _ => same⟩⟩

theorem exists_placed (latest : NetworkPrefix → Option Metric) (network : NetworkPrefix) :
    ∃ id, Placed latest network id := by
  by_cases moved : Moved latest network
  · exact ⟨_, (placed_moved moved).mpr rfl⟩
  · exact ⟨_, (placed_unmoved moved).mpr rfl⟩

/-- The link state ID and the mask tell the network. -/
theorem Placed.address (placed : Placed latest network id) : id &&& network.mask = network.address := by
  by_cases moved : Moved latest network
  · rw [(placed_moved moved).mp placed, broadcast_masked]
  · rw [(placed_unmoved moved).mp placed, eq_masked network.canonical.masked]

theorem Placed.eq_of_mask (placed : Placed latest network id) (other' : Placed latest other id)
    (mask : network.mask = other.mask) : network = other :=
  Ospfv2.eq_of_mask (by rw [← placed.address, ← other'.address, mask]) mask

/-- Networks that are separate have different link state IDs. -/
theorem Placed.eq (separate : SeparateFrom latest) (known : (latest network).isSome)
    (otherKnown : (latest other).isSome) (placed : Placed latest network id)
    (otherPlaced : Placed latest other id) : network = other := by
  by_cases moved : Moved latest network
  · have at_ := (placed_moved moved).mp placed
    by_cases otherMoved : Moved latest other
    · have otherAt := (placed_moved otherMoved).mp otherPlaced
      have same := at_.symm.trans otherAt
      obtain ⟨shorter, _, address, less⟩ := moved
      obtain ⟨otherShorter, _, otherAddress, otherLess⟩ := otherMoved
      have le := mask_le_of_broadcast otherAddress otherLess same
      have ge := mask_le_of_broadcast address less same.symm
      exact placed.eq_of_mask otherPlaced (BitVec.eq_of_toNat_eq (le_antisymm ge le))
    · have otherAt := (placed_unmoved otherMoved).mp otherPlaced
      exact absurd (otherAt.symm.trans at_) (separate network known moved other otherKnown)
  · have at_ := (placed_unmoved moved).mp placed
    by_cases otherMoved : Moved latest other
    · have otherAt := (placed_moved otherMoved).mp otherPlaced
      exact absurd (at_.symm.trans otherAt) (separate other otherKnown otherMoved network known)
    · have otherAt := (placed_unmoved otherMoved).mp otherPlaced
      have address := at_.symm.trans otherAt
      rcases Nat.lt_trichotomy network.mask.toNat other.mask.toNat with less | same | greater
      · exact absurd ⟨network, known, address, less⟩ otherMoved
      · exact Ospfv2.eq_of_mask address (BitVec.eq_of_toNat_eq same)
      · exact absurd ⟨other, otherKnown, address.symm, greater⟩ moved

/-- Of the networks with an address, the one with the shortest mask is not moved. -/
theorem exists_unmoved (known : (latest network).isSome) :
    ∃ first, (latest first).isSome ∧ first.address = network.address ∧
      first.mask.toNat ≤ network.mask.toNat ∧ ¬ Moved latest first := by
  generalize size : network.mask.toNat = n
  induction n using Nat.strong_induction_on generalizing network with
  | _ n ih =>
    by_cases moved : Moved latest network
    · obtain ⟨shorter, shorterKnown, address, less⟩ := moved
      obtain ⟨first, firstKnown, firstAddress, le, unmoved⟩ :=
        ih _ (size ▸ less) shorterKnown rfl
      exact ⟨first, firstKnown, firstAddress.trans address, by omega, unmoved⟩
    · exact ⟨network, known, rfl, size.le, moved⟩

/-! ### One origination -/

/-- The cost of a network that is originated becomes its latest one. -/
def update (latest : NetworkPrefix → Option Metric) (network : NetworkPrefix) (cost : Metric)
    (other : NetworkPrefix) : Option Metric :=
  if other = network then some cost else latest other

@[simp] theorem update_self : update latest network cost network = some cost := if_pos rfl

theorem update_other (differ : other ≠ network) : update latest network cost other = latest other :=
  if_neg differ

theorem update_isSome : (update latest network cost other).isSome ↔
    other = network ∨ (latest other).isSome := by
  rw [update]
  split
  next same => simp [same]
  next differ => simp [differ]

theorem moved_update : Moved (update latest network cost) other ↔
    Moved latest other ∨
      network.address = other.address ∧ network.mask.toNat < other.mask.toNat := by
  constructor
  · rintro ⟨shorter, known, address, less⟩
    rcases update_isSome.mp known with rfl | known
    · exact .inr ⟨address, less⟩
    · exact .inl ⟨shorter, known, address, less⟩
  · rintro (⟨shorter, known, address, less⟩ | ⟨address, less⟩)
    · exact ⟨shorter, update_isSome.mpr (.inr known), address, less⟩
    · exact ⟨network, update_isSome.mpr (.inl rfl), address, less⟩

theorem Placed.unique {place : LinkStateId} (placed : Placed latest network id)
    (again : Placed latest network place) : place = id := by
  by_cases moved : Moved latest network
  · exact (again.1 moved).trans (placed.1 moved).symm
  · exact (again.2 moved).trans (placed.2 moved).symm

theorem placed_congr {latest' : NetworkPrefix → Option Metric}
    (same : Moved latest' network ↔ Moved latest network) :
    Placed latest' network id ↔ Placed latest network id := by
  rw [Placed, Placed, same]

/-- Some networks get new entries, at places that take in their old ones, and the others keep
theirs. -/
theorem Files.change {next : LinkStateId → Option (Ipv4Address × Metric)}
    {Changed : NetworkPrefix → Prop} (files : Files latest announced)
    (separate : SeparateFrom (update latest network cost)) (changes : Changed network)
    (others : ∀ s, (latest s).isSome → ¬ Changed s →
      (Moved (update latest network cost) s ↔ Moved latest s))
    (changed : ∀ s, Changed s → ∃ place c, update latest network cost s = some c ∧
      Placed (update latest network cost) s place ∧ next place = some (s.mask, c))
    (rest : ∀ id, (∀ s, Changed s → ¬ Placed (update latest network cost) s id) →
      next id = announced id)
    (gone : ∀ s, Changed s → (latest s).isSome → ∀ id, Placed latest s id →
      ∃ t, Changed t ∧ Placed (update latest network cost) t id) :
    Files (update latest network cost) next := by
  intro id mask c
  by_cases taken : ∃ s, Changed s ∧ Placed (update latest network cost) s id
  · obtain ⟨s, inChanged, placed⟩ := taken
    obtain ⟨place, c', known, at_, found⟩ := changed s inChanged
    cases placed.unique at_
    rw [found]
    constructor
    · intro same
      cases same
      exact ⟨s, known, rfl, placed⟩
    · rintro ⟨t, tKnown, rfl, tPlaced⟩
      cases placed.eq separate (known ▸ rfl) (tKnown ▸ rfl) tPlaced
      rw [known] at tKnown
      cases tKnown
      rfl
  · have free : ∀ s, Changed s → ¬ Placed (update latest network cost) s id :=
      fun s inChanged placed => taken ⟨s, inChanged, placed⟩
    rw [rest id free, files]
    refine exists_congr fun t => ?_
    by_cases inChanged : Changed t
    · constructor
      · rintro ⟨known, _, placed⟩
        obtain ⟨s, sChanged, sPlaced⟩ := gone t inChanged (known ▸ rfl) id placed
        exact absurd sPlaced (free s sChanged)
      · rintro ⟨_, _, placed⟩
        exact absurd placed (free t inChanged)
    · have differ : t ≠ network := fun same => inChanged (same ▸ changes)
      rw [update_other differ]
      refine and_congr_right fun known => and_congr_right fun _ => ?_
      exact (placed_congr (others t (known ▸ rfl) inChanged)).symm

/-- An origination keeps the entries at their places. -/
theorem Files.next {next : LinkStateId → Option (Ipv4Address × Metric)}
    (files : Files latest announced) (separate : SeparateFrom (update latest network cost))
    (announces : ∀ id, next id =
      match announced network.address with
      | none => if id = network.address then some (network.mask, cost) else announced id
      | some (mask, oldCost) =>
        if network.mask = mask then
          if id = network.address then some (network.mask, cost) else announced id
        else if mask.toNat ≤ network.mask.toNat then
          if id = makeBroadcastAddress network.address network.mask then some (network.mask, cost)
          else announced id
        else if id = makeBroadcastAddress network.address mask then some (mask, oldCost)
        else if id = network.address then some (network.mask, cost) else announced id) :
    Files (update latest network cost) next := by
  -- of a network with the same address, the first one is announced with the address
  have first {s : NetworkPrefix} (known : (latest s).isSome) :
      ∃ first c, announced s.address = some (first.mask, c) ∧ latest first = some c ∧
        first.address = s.address ∧ first.mask.toNat ≤ s.mask.toNat ∧ ¬ Moved latest first := by
    obtain ⟨first, firstKnown, address, le, unmoved⟩ := exists_unmoved known
    obtain ⟨c, cost⟩ := Option.isSome_iff_exists.mp firstKnown
    exact ⟨first, c, (files _ _ _).mpr ⟨first, cost, rfl,
      (placed_unmoved unmoved).mpr address.symm⟩, cost, address, le, unmoved⟩
  have irreflexive : Moved (update latest network cost) network ↔ Moved latest network := by
    rw [moved_update]
    exact or_iff_left fun self => absurd self.2 (lt_irrefl _)
  cases found : announced network.address with
  | none =>
    simp only [found] at announces
    have noOne {s : NetworkPrefix} (known : (latest s).isSome) : s.address ≠ network.address := by
      intro same
      obtain ⟨_, _, taken, _⟩ := first known
      rw [same, found] at taken
      cases taken
    have unmoved : ¬ Moved (update latest network cost) network := by
      rw [irreflexive]
      rintro ⟨shorter, known, address, _⟩
      exact noOne known address
    refine @Files.change _ _ _ _ _ (· = network) files separate rfl ?_ ?_ ?_ ?_
    · intro s known _
      rw [moved_update]
      exact or_iff_left fun behind => noOne known behind.1.symm
    · rintro s rfl
      exact ⟨_, _, update_self, (placed_unmoved unmoved).mpr rfl, (announces _).trans (if_pos rfl)⟩
    · intro id free
      rw [announces, if_neg fun same => free network rfl ((placed_unmoved unmoved).mpr same)]
    · rintro s rfl known
      exact absurd rfl (noOne known)
  | some existing =>
    obtain ⟨mask, oldCost⟩ := existing
    obtain ⟨q, qCost, rfl, qPlaced⟩ := (files _ _ _).mp found
    have qKnown : (latest q).isSome := qCost ▸ rfl
    simp only [found] at announces
    by_cases same : network.mask = q.mask
    · -- the network was originated before
      simp only [if_pos same] at announces
      have again : q = network := by
        refine eq_of_mask ?_ same.symm
        rw [← qPlaced.address, ← same, eq_masked network.canonical.masked]
      subst again
      have placed := (placed_congr irreflexive).mpr qPlaced
      refine @Files.change _ _ _ _ _ (· = q) files separate rfl ?_ ?_ ?_ ?_
      · intro s _ _
        rw [moved_update]
        exact or_iff_left_of_imp fun behind => ⟨q, qKnown, behind⟩
      · rintro s rfl
        exact ⟨_, _, update_self, placed, (announces _).trans (if_pos rfl)⟩
      · intro id free
        rw [announces, if_neg]
        rintro rfl
        exact free q rfl placed
      · rintro s rfl _ id at_
        exact ⟨s, rfl, (placed_congr irreflexive).mpr at_⟩
    simp only [if_neg same] at announces
    have qUnmoved : ¬ Moved latest q := fun moved =>
      separate q (update_isSome.mpr (.inr qKnown)) (moved_update.mpr (.inl moved)) network
        (update_isSome.mpr (.inl rfl)) ((placed_moved moved).mp qPlaced)
    have address : network.address = q.address := (placed_unmoved qUnmoved).mp qPlaced
    by_cases longer : q.mask.toNat ≤ network.mask.toNat
    · -- a network with a shorter mask has the address
      simp only [if_pos longer] at announces
      have less : q.mask.toNat < network.mask.toNat :=
        lt_of_le_of_ne longer fun equal => same (BitVec.eq_of_toNat_eq equal.symm)
      have moved : Moved latest network := ⟨q, qKnown, address.symm, less⟩
      have placed {id : LinkStateId} : Placed (update latest network cost) network id ↔
          id = makeBroadcastAddress network.address network.mask :=
        placed_moved (irreflexive.mpr moved)
      refine @Files.change _ _ _ _ _ (· = network) files separate rfl ?_ ?_ ?_ ?_
      · intro s _ _
        rw [moved_update]
        exact or_iff_left_of_imp fun behind =>
          ⟨q, qKnown, address.symm.trans behind.1, less.trans behind.2⟩
      · rintro s rfl
        exact ⟨_, _, update_self, placed.mpr rfl, (announces _).trans (if_pos rfl)⟩
      · intro id free
        rw [announces, if_neg fun same => free network rfl (placed.mpr same)]
      · rintro s rfl _ id at_
        exact ⟨s, rfl, (placed_congr irreflexive).mpr at_⟩
    · -- the network takes the address over
      simp only [if_neg longer] at announces
      rw [not_le] at longer
      have qMoved : Moved (update latest network cost) q :=
        moved_update.mpr (.inr ⟨address, longer⟩)
      have differ : q ≠ network := by
        rintro rfl
        exact lt_irrefl _ longer
      have unmoved : ¬ Moved (update latest network cost) network := by
        rw [irreflexive]
        rintro ⟨shorter, known, sameAddress, less⟩
        exact qUnmoved ⟨shorter, known, sameAddress.trans address, less.trans longer⟩
      have apart : network.address ≠ makeBroadcastAddress network.address q.mask := by
        rw [address]
        exact address ▸ separate q (update_isSome.mpr (.inr qKnown)) qMoved network
          (update_isSome.mpr (.inl rfl))
      refine @Files.change _ _ _ _ _ (fun s => s = network ∨ s = q) files separate (.inl rfl) ?_ ?_ ?_ ?_
      · intro s known other
        rw [moved_update]
        refine or_iff_left_of_imp fun behind => ?_
        have sameAddress := address.symm.trans behind.1
        rcases Nat.lt_trichotomy q.mask.toNat s.mask.toNat with less | equal | greater
        · exact ⟨q, qKnown, sameAddress, less⟩
        · exact absurd (eq_of_mask sameAddress (BitVec.eq_of_toNat_eq equal)).symm
            fun equal => other (.inr equal)
        · exact absurd ⟨s, known, sameAddress.symm, greater⟩ qUnmoved
      · rintro s (rfl | rfl)
        · refine ⟨_, _, update_self, (placed_unmoved unmoved).mpr rfl, ?_⟩
          rw [announces, if_neg apart, if_pos rfl]
        · refine ⟨_, _, (update_other differ).trans qCost, (placed_moved qMoved).mpr rfl, ?_⟩
          rw [announces, if_pos (by rw [address])]
      · intro id free
        have notMoved := free q (.inr rfl)
        rw [placed_moved qMoved] at notMoved
        have notHere := free network (.inl rfl)
        rw [placed_unmoved unmoved] at notHere
        rw [announces, if_neg (by rwa [address]), if_neg notHere]
      · rintro s (rfl | rfl) known id at_
        · exact absurd ⟨s, known, address, longer⟩ qUnmoved
        · refine ⟨network, .inl rfl, (placed_unmoved unmoved).mpr ?_⟩
          exact ((placed_unmoved qUnmoved).mp at_).trans address.symm

end Filing

/-! ### Runs -/

variable {area : Ospfv2Area} {originations : List Origination} {o : Origination}

theorem latestCost_append :
    latestCost (originations ++ [o]) = update (latestCost originations) o.network o.cost := by
  funext network
  rw [latestCost, List.reverse_append, List.reverse_singleton, List.singleton_append,
    List.find?_cons, update]
  by_cases same : network = o.network
  · rw [if_pos same, decide_eq_true same.symm]
    rfl
  · rw [if_neg same, decide_eq_false (Ne.symm same)]
    rfl

theorem latestCost_isSome :
    (latestCost originations network).isSome ↔ ∃ o ∈ originations, o.network = network := by
  rw [latestCost, Option.isSome_map, List.find?_isSome]
  simp

theorem Separate.from (separate : Separate originations) :
    SeparateFrom (latestCost originations) := by
  rintro network known ⟨shorter, shorterKnown, address, less⟩ other otherKnown
  obtain ⟨o, member, rfl⟩ := latestCost_isSome.mp known
  obtain ⟨s, sMember, rfl⟩ := latestCost_isSome.mp shorterKnown
  obtain ⟨t, tMember, rfl⟩ := latestCost_isSome.mp otherKnown
  exact separate o member s sMember t tMember address less

theorem Separate.of_append {more : List Origination} (separate : Separate (originations ++ more)) :
    Separate originations := fun o member s sMember t tMember =>
  separate o (List.mem_append_left _ member) s (List.mem_append_left _ sMember) t
    (List.mem_append_left _ tMember)

/-- An area without LSAs of its own router. -/
structure Ospfv2Area.Fresh (area : Ospfv2Area) : Prop where
  unique : area.Unique
  others : ∀ lsa ∈ area.summaryLSAs, lsa.advertisingRouter ≠ area.routerID

theorem Ospfv2Area.Fresh.announced (fresh : area.Fresh) (id : LinkStateId) :
    area.announced id = none := by
  rw [Ospfv2Area.announced, Option.map_eq_none_iff]
  refine KeyedList.find_eq_none.mpr fun lsa member same => ?_
  exact fresh.others lsa member (congrArg LsaKeyType.advertisingRouter same)

theorem run_append : area.run (originations ++ [o]) =
    (area.run originations).notifyAboutEntry o.modified o.network.toIpv4AddressRange o.cost :=
  List.foldl_append

/-- Separate networks are announced at their places after any run. -/
theorem run_files (fresh : area.Fresh) (separate : Separate originations) :
    (area.run originations).Unique ∧ (area.run originations).routerID = area.routerID ∧
      Files (latestCost originations) (area.run originations).announced := by
  induction originations using List.reverseRecOn with
  | nil =>
    refine ⟨fresh.unique, rfl, fun id mask cost => ?_⟩
    rw [Ospfv2Area.run, List.foldl_nil, fresh.announced]
    exact ⟨nofun, fun ⟨_, absent, _⟩ => nomatch absent⟩
  | append_singleton originations o ih =>
    obtain ⟨unique, router, files⟩ := ih separate.of_append
    obtain ⟨nextUnique, nextRouter, announces⟩ := Ospfv2Area.announced_notify unique o.modified
      o.network.toIpv4AddressRange o.cost
    have separateFrom := separate.from
    rw [latestCost_append] at separateFrom ⊢
    rw [run_append]
    exact ⟨nextUnique, nextRouter.trans router, files.next separateFrom announces⟩

/-- Entries at their places are single and have link state IDs of their own. -/
theorem Files.announced (files : Files (latestCost originations) area.announced)
    (unique : area.Unique) : area.Announced originations := by
  -- the network of an LSA of the router
  have known {lsa : SummaryLsa} (member : lsa ∈ area.summaryLSAs)
      (own : lsa.advertisingRouter = area.routerID) : ∃ network,
      latestCost originations network = some lsa.routeCost ∧ network.mask = lsa.networkMask ∧
        Placed (latestCost originations) network lsa.linkStateID := by
    refine (files lsa.linkStateID lsa.networkMask lsa.routeCost).mp ?_
    have found : area.findSummaryLSA ⟨lsa.linkStateID, area.routerID⟩ = some lsa :=
      (KeyedList.find_eq_some unique).mpr ⟨member, by rw [SummaryLsa.lsaKey, own]⟩
    rw [Ospfv2Area.announced, found]
    rfl
  have sameKey {lsa other : SummaryLsa} (member : lsa ∈ area.summaryLSAs)
      (otherMember : other ∈ area.summaryLSAs) (own : lsa.advertisingRouter = area.routerID)
      (otherOwn : other.advertisingRouter = area.routerID)
      (same : lsa.linkStateID = other.linkStateID) : lsa = other := by
    have key : lsa.lsaKey = other.lsaKey := by
      rw [SummaryLsa.lsaKey, SummaryLsa.lsaKey, own, otherOwn, same]
    have found := (KeyedList.find_eq_some unique).mpr ⟨member, key⟩
    rw [(KeyedList.find_eq_some unique).mpr ⟨otherMember, rfl⟩] at found
    cases found
    rfl
  refine ⟨fun network cost latest => ?_, fun lsa member own => ?_, ?_⟩
  · obtain ⟨id, placed⟩ := exists_placed (latestCost originations) network
    have announced := (files id network.mask cost).mpr ⟨network, latest, rfl, placed⟩
    obtain ⟨lsa, found, same⟩ := Option.map_eq_some_iff.mp announced
    obtain ⟨member, key⟩ := (KeyedList.find_eq_some unique).mp found
    have idEq : lsa.linkStateID = id := congrArg LsaKeyType.linkStateID key
    have own : lsa.advertisingRouter = area.routerID := congrArg LsaKeyType.advertisingRouter key
    have mask : lsa.networkMask = network.mask := congrArg Prod.fst same
    have announces : lsa.Announces network := ⟨mask, by rw [idEq, placed.address]⟩
    refine ⟨lsa, ?_, congrArg Prod.snd same⟩
    obtain ⟨front, back, split⟩ := List.append_of_mem member
    have none (other : SummaryLsa) (otherMember : other ∈ front ++ back) :
        ¬ (other.advertisingRouter = area.routerID ∧ other.Announces network) := by
      rintro ⟨otherOwn, otherMask, otherAddress⟩
      have inside : other ∈ area.summaryLSAs := by
        rw [split, List.mem_append, List.mem_cons]
        exact (List.mem_append.mp otherMember).imp_right .inr
      obtain ⟨s, _, sMask, sPlaced⟩ := known inside otherOwn
      have again : s = network := by
        refine eq_of_mask ?_ (sMask.trans otherMask)
        rw [← sPlaced.address, sMask.trans otherMask, otherAddress]
      subst again
      have sameId := placed.unique sPlaced
      rw [Ospfv2Area.Unique, split, KeyedList.unique_middle] at unique
      refine unique.1 other otherMember ?_
      rw [SummaryLsa.lsaKey, SummaryLsa.lsaKey, otherOwn, own, idEq, sameId]
    rw [split, List.filter_append, List.filter_cons_of_pos (by simp [own, announces]),
      List.filter_eq_nil_iff.mpr fun other inFront => by
        simpa using none other (List.mem_append_left _ inFront),
      List.filter_eq_nil_iff.mpr fun other inBack => by
        simpa using none other (List.mem_append_right _ inBack)]
    rfl
  · obtain ⟨network, latest, mask, placed⟩ := known member own
    exact ⟨network, _, latest, mask.symm, placed.address⟩
  · intro lsa member other otherMember own otherOwn network otherNetwork announces otherAnnounces
      differ same
    have equal := sameKey member otherMember own otherOwn same
    subst equal
    refine differ (eq_of_mask ?_ (announces.1.symm.trans otherAnnounces.1))
    rw [← announces.2, ← otherAnnounces.2, ← announces.1, ← otherAnnounces.1]

/-- At every point of a run that originates separate networks only, all that were originated are
announced with their latest costs. -/
theorem originations_announced (fresh : area.Fresh) (separate : Separate originations) (n : Nat) :
    (area.run (originations.take n)).Announced (originations.take n) := by
  have earlier : Separate (originations.take n) :=
    Separate.of_append (by rwa [List.take_append_drop])
  obtain ⟨unique, _, files⟩ := run_files fresh earlier
  exact files.announced unique

/-- The network 10.0.0.0 with a mask. -/
def netTen (length : Nat) (le : length ≤ 32) (long : 8 ≤ length) : NetworkPrefix where
  address := 0x0a000000
  mask := makeNetmask length
  canonical := by
    refine ⟨isValidNetmask_makeNetmask le, ?_⟩
    have each : ∀ length < 33, 8 ≤ length → 0x0a000000#32 &&& ~~~makeNetmask length = 0 := by decide
    exact each length (by omega) long

/-- The networks come with shorter and longer masks, and one of them again with another cost. -/
def nested : List Origination :=
  [⟨false, netTen 16 (by decide) (by decide), 3⟩, ⟨false, netTen 24 (by decide) (by decide), 5⟩,
    ⟨false, netTen 8 (by decide) (by decide), 7⟩, ⟨true, netTen 16 (by decide) (by decide), 4⟩]

theorem emptyArea_fresh : (Ospfv2Area.mk 0x01010101 []).Fresh where
  unique := List.nodup_nil
  others _ member := absurd member List.not_mem_nil

theorem originations_announced_nested :
    ((Ospfv2Area.mk 0x01010101 []).run (nested.take 4)).Announced (nested.take 4) :=
  originations_announced emptyArea_fresh (by decide +kernel) 4

/-- The last address of a host mask is the address itself. -/
theorem host_overwrites : ¬ ((Ospfv2Area.mk 0x01010101 []).run
    [⟨false, netTen 8 (by decide) (by decide), 3⟩,
      ⟨false, netTen 32 (by decide) (by decide), 5⟩]).Announced
    [⟨false, netTen 8 (by decide) (by decide), 3⟩,
      ⟨false, netTen 32 (by decide) (by decide), 5⟩] := by
  intro announced
  obtain ⟨lsa, single, _⟩ := announced.single (netTen 8 (by decide) (by decide)) 3 (by decide +kernel)
  have empty : (((Ospfv2Area.mk 0x01010101 []).run
      [⟨false, netTen 8 (by decide) (by decide), 3⟩,
        ⟨false, netTen 32 (by decide) (by decide), 5⟩]).summaryLSAs.filter fun lsa =>
      lsa.advertisingRouter = 0x01010101 ∧ lsa.Announces (netTen 8 (by decide) (by decide))) = [] := by
    decide +kernel
  exact absurd (empty.symm.trans single) nofun

end Inet.Ospfv2
