import Inet.Ieee8021d.RstpCoherence

/-!
# Several ports of a bridge at one LAN

The bridge receives its own BPDUs at its other ports and makes one port of each two a backup. The
BPDUs do not carry the priority of the port that they are sent through.
-/
namespace Inet.Ieee8021d.Rstp

variable {n : Nat}

/-- The BPDU that is sent through a port. The port priority is not set. -/
def sendBPDU (s : Rstp n) (interfaceId : Fin n) : Option BpduCfg :=
  if (s.ports interfaceId).role = .DISABLED then none
  else
    match s.getRootInterfaceId with
    | some r =>
      some
        { rootPriority := (s.ports r).rootPriority % 2 ^ 16
          rootAddress := (s.ports r).rootAddress
          rootPathCost := (s.ports r).rootPathCost
          bridgePriority := s.bridgePriority % 2 ^ 16
          bridgeAddress := s.bridgeAddress
          portPriority := 0
          portNum := interfaceId
          messageAge := (s.ports r).age
          maxAge := s.maxAge }
    | none =>
      some
        { rootPriority := s.bridgePriority % 2 ^ 16
          rootAddress := s.bridgeAddress
          rootPathCost := 0
          bridgePriority := s.bridgePriority % 2 ^ 16
          bridgeAddress := s.bridgeAddress
          portPriority := 0
          portNum := interfaceId
          messageAge := 0
          maxAge := s.maxAge }

/-- A BPDU of the bridge on its way from one of its ports to another one. -/
structure Delivery (n : Nat) where
  sender : Fin n
  arrival : Fin n
  frame : BpduCfg

/-- The bridge may have sent the BPDU through the port, at any time. -/
def Delivery.Own (d : Delivery n) : Prop := ∃ s : Rstp n, s.sendBPDU d.sender = some d.frame

def receiveAll (s : Rstp n) (deliveries : List (Delivery n)) : Except String (Rstp n) :=
  deliveries.foldlM (fun s d => s.handleBackup d.frame d.arrival) s

/-- The ports of a LAN receive each other's BPDUs, in any order and any number of times. -/
structure Exchange (lan : Finset (Fin n)) (deliveries : List (Delivery n)) : Prop where
  own : ∀ d ∈ deliveries, d.Own ∧ d.sender ∈ lan ∧ d.arrival ∈ lan ∧ d.sender ≠ d.arrival
  all : ∀ i ∈ lan, ∀ j ∈ lan, i ≠ j → ∃ d ∈ deliveries, d.sender = i ∧ d.arrival = j

/-- One port of the LAN is left, whatever the order. -/
def Elects (s : Rstp n) (lan : Finset (Fin n)) : Prop :=
  ∃ winner ∈ lan, ∀ deliveries, Exchange lan deliveries →
    ∃ after, s.receiveAll deliveries = .ok after ∧
      ∀ i ∈ lan, (after.ports i).role ≠ .BACKUP ↔ i = winner

/-- The port with the lowest number has stored the port priority 0, and is not a backup. -/
def LowestWins (s : Rstp n) (lan : Finset (Fin n)) : Prop :=
  ∃ lowest ∈ lan, (∀ i ∈ lan, lowest ≤ i) ∧ (s.ports lowest).portPriority = 0 ∧
    (s.ports lowest).role ≠ .BACKUP

/-! ### One BPDU -/

variable {s : Rstp n} {lan : Finset (Fin n)} {d : Delivery n} {deliveries : List (Delivery n)}

theorem Delivery.Own.fields (own : d.Own) : d.frame.portPriority = 0 ∧ d.frame.portNum = d.sender := by
  obtain ⟨s, sent⟩ := own
  unfold sendBPDU at sent
  split at sent
  · cases sent
  · split at sent
    · rw [← Option.some.inj sent]
      exact ⟨rfl, rfl⟩
    · rw [← Option.some.inj sent]
      exact ⟨rfl, rfl⟩

/-- The port that a BPDU makes a backup. -/
def loser (s : Rstp n) (d : Delivery n) : Fin n :=
  if 0 < (s.ports d.arrival).portPriority ∨ d.sender < d.arrival then d.arrival else d.sender

/-- Ports are the same but for the role, state and counter of those that become backups. -/
structure Demoted (s after : Rstp n) (lost : Fin n → Prop) : Prop where
  priorities : ∀ i, (after.ports i).portPriority = (s.ports i).portPriority
  roles : ∀ i, (after.ports i).role = .BACKUP ↔ (s.ports i).role = .BACKUP ∨ lost i

theorem demoted_backup (s : Rstp n) (i : Fin n) :
    Demoted s ((s.setRoleState i .BACKUP .DISCARDING).setLostBPDU i 0) (· = i) where
  priorities j := by
    by_cases same : j = i
    · subst same
      simp [setLostBPDU, setRoleState]
    · simp [setLostBPDU, setRoleState, same]
  roles j := by
    by_cases same : j = i
    · subst same
      simp [setLostBPDU, setRoleState]
    · simp [setLostBPDU, setRoleState, same]

/-- One of the two ports becomes a backup. -/
theorem handleBackup_demotes (s : Rstp n) (own : d.Own) (apart : d.sender ≠ d.arrival) :
    ∃ after, s.handleBackup d.frame d.arrival = .ok after ∧ Demoted s after (· = s.loser d) := by
  obtain ⟨priority, number⟩ := own.fields
  have differ : d.sender.val ≠ d.arrival.val := fun same => apart (Fin.ext same)
  unfold handleBackup
  simp only [priority, number]
  by_cases arrival : 0 < (s.ports d.arrival).portPriority ∨ d.sender < d.arrival
  · rw [loser, if_pos arrival]
    refine ⟨_, if_pos ?_, demoted_backup s d.arrival⟩
    rcases arrival with lower | lower
    · exact .inl lower
    · by_cases zero : 0 = (s.ports d.arrival).portPriority
      · exact .inr ⟨zero, lower⟩
      · exact .inl (by omega)
  · rw [loser, if_neg arrival]
    push Not at arrival
    obtain ⟨zero, above⟩ := arrival
    have higher : d.arrival.val < d.sender.val := by
      have le : d.arrival.val ≤ d.sender.val := above
      omega
    refine ⟨_, ?_, demoted_backup s d.sender⟩
    rw [if_neg (by omega), dif_pos d.sender.isLt, if_pos (.inr ⟨by omega, higher⟩)]

/-! ### All BPDUs -/

theorem Demoted.loser {after : Rstp n} {lost : Fin n → Prop} (demoted : Demoted s after lost)
    (d : Delivery n) : after.loser d = s.loser d := by
  unfold Rstp.loser
  rw [demoted.priorities]

/-- After all BPDUs the backups are those before and the losers of the pairs. -/
theorem receiveAll_demotes (s : Rstp n)
    (own : ∀ d ∈ deliveries, d.Own ∧ d.sender ≠ d.arrival) :
    ∃ after, s.receiveAll deliveries = .ok after ∧
      Demoted s after fun i => ∃ d ∈ deliveries, i = s.loser d := by
  induction deliveries generalizing s with
  | nil => exact ⟨s, rfl, fun _ => rfl, by simp⟩
  | cons d rest ih =>
    obtain ⟨sent, apart⟩ := own d List.mem_cons_self
    obtain ⟨between, handled, first⟩ := handleBackup_demotes s sent apart
    obtain ⟨after, received, later⟩ := ih between fun d member => own d (.tail _ member)
    refine ⟨after, ?_, fun i => (later.priorities i).trans (first.priorities i), fun i => ?_⟩
    · rw [receiveAll, List.foldlM_cons, handled]
      exact received
    · rw [later.roles, first.roles, List.exists_mem_cons_iff, or_assoc]
      simp only [first.loser]

theorem Exchange.receiveAll_ok (exchange : Exchange lan deliveries) (s : Rstp n) :
    ∃ after, s.receiveAll deliveries = .ok after ∧
      Demoted s after fun i => ∃ d ∈ deliveries, i = s.loser d :=
  receiveAll_demotes s fun d member =>
    have facts := exchange.own d member
    ⟨facts.1, facts.2.2.2⟩

/-- A port of the LAN loses no pair if it has stored the port priority 0 and has the lowest
number. -/
theorem Exchange.wins_iff (exchange : Exchange lan deliveries) (two : 1 < lan.card) {i : Fin n}
    (member : i ∈ lan) : (¬ ∃ d ∈ deliveries, i = s.loser d) ↔
      (s.ports i).portPriority = 0 ∧ ∀ j ∈ lan, i ≤ j := by
  constructor
  · intro wins
    have receives (j : Fin n) (other : j ∈ lan) (apart : j ≠ i) :
        ¬(0 < (s.ports i).portPriority ∨ j < i) := by
      obtain ⟨d, delivered, rfl, rfl⟩ := exchange.all j other i member apart
      intro lower
      exact wins ⟨d, delivered, (if_pos lower).symm⟩
    obtain ⟨j, other, apart⟩ := Finset.exists_mem_ne two i
    have first := receives j other apart
    push Not at first
    refine ⟨by omega, fun k inLan => ?_⟩
    by_cases same : k = i
    · exact same.ge
    · have beaten := receives k inLan same
      push Not at beaten
      exact beaten.2
  · rintro ⟨zero, lowest⟩ ⟨d, delivered, lost⟩
    obtain ⟨_, sender, arrival, apart⟩ := exchange.own d delivered
    unfold Rstp.loser at lost
    split at lost
    next lower =>
      subst lost
      rcases lower with above | below
      · omega
      · exact absurd below (not_lt.mpr (lowest d.sender sender))
    next notLower =>
      subst lost
      push Not at notLower
      exact apart (le_antisymm (lowest d.arrival arrival) notLower.2)

/-- A port is not a backup after the exchange if it has not been one and has won. -/
theorem Exchange.left_iff (exchange : Exchange lan deliveries) (two : 1 < lan.card) {after : Rstp n}
    (demoted : Demoted s after fun i => ∃ d ∈ deliveries, i = s.loser d) {i : Fin n}
    (member : i ∈ lan) : (after.ports i).role ≠ .BACKUP ↔
      (s.ports i).role ≠ .BACKUP ∧ (s.ports i).portPriority = 0 ∧ ∀ j ∈ lan, i ≤ j := by
  rw [ne_eq, demoted.roles, not_or, exchange.wins_iff two member]

theorem exists_sent (s : Rstp n) (i : Fin n) :
    ∃ frame, ∃ t : Rstp n, t.sendBPDU i = some frame := by
  have enabled : ((s.setRole i .DESIGNATED).ports i).role ≠ .DISABLED := by simp [setRole]
  refine exists_comm.mp ⟨s.setRole i .DESIGNATED, Option.isSome_iff_exists.mp ?_⟩
  unfold sendBPDU
  rw [if_neg enabled]
  split
  · rfl
  · rfl

theorem exists_exchange (s : Rstp n) (lan : Finset (Fin n)) :
    ∃ deliveries, Exchange lan deliveries := by
  choose frame sent using exists_sent s
  refine ⟨((lan ×ˢ lan).filter fun pair => pair.1 ≠ pair.2).toList.map fun pair =>
    ⟨pair.1, pair.2, frame pair.1⟩, ?_, ?_⟩
  · intro d member
    obtain ⟨⟨i, j⟩, inside, rfl⟩ := List.mem_map.mp member
    rw [Finset.mem_toList, Finset.mem_filter, Finset.mem_product] at inside
    exact ⟨sent i, inside.1.1, inside.1.2, inside.2⟩
  · intro i first j second apart
    refine ⟨_, List.mem_map.mpr ⟨(i, j), ?_, rfl⟩, rfl, rfl⟩
    rw [Finset.mem_toList, Finset.mem_filter, Finset.mem_product]
    exact ⟨⟨first, second⟩, apart⟩

theorem lowestWins_of_elects (two : 1 < lan.card) (elects : s.Elects lan) : s.LowestWins lan := by
  obtain ⟨winner, member, elected⟩ := elects
  obtain ⟨deliveries, exchange⟩ := exists_exchange s lan
  obtain ⟨after, received, demoted⟩ := exchange.receiveAll_ok s
  obtain ⟨after', received', left⟩ := elected deliveries exchange
  cases received.symm.trans received'
  obtain ⟨role, zero, lowest⟩ := (exchange.left_iff two demoted member).mp
    ((left winner member).mpr rfl)
  exact ⟨winner, member, lowest, zero, role⟩

theorem elects_of_lowestWins (two : 1 < lan.card) (wins : s.LowestWins lan) : s.Elects lan := by
  obtain ⟨winner, member, lowest, zero, role⟩ := wins
  refine ⟨winner, member, fun deliveries exchange => ?_⟩
  obtain ⟨after, received, demoted⟩ := exchange.receiveAll_ok s
  refine ⟨after, received, fun i inLan => ?_⟩
  rw [exchange.left_iff two demoted inLan]
  constructor
  · rintro ⟨_, _, least⟩
    exact le_antisymm (least winner member) (lowest i inLan)
  · rintro rfl
    exact ⟨role, zero, lowest⟩

/-- One port of the LAN is left if and only if the one with the lowest number has stored the port
priority 0 and is not a backup yet. -/
theorem elects_iff (s : Rstp n) (lan : Finset (Fin n)) (two : 1 < lan.card) :
    s.Elects lan ↔ s.LowestWins lan :=
  ⟨lowestWins_of_elects two, elects_of_lowestWins two⟩

/-! ### Two ports -/

/-- A bridge with two ports that have stored vectors with a port priority. -/
def twoPorts (portPriority : Nat) : Rstp 2 where
  bridgePriority := 32768
  bridgeAddress := 1
  maxAge := 20
  forwardDelay := 6
  migrateTime := 3
  ports _ :=
    { priority := 128, linkCost := 19, role := .DESIGNATED, rootPriority := 32768
      rootAddress := 1, rootPathCost := 0, bridgePriority := 32768, bridgeAddress := 1
      portPriority := portPriority, portNum := 2 ^ 32 - 1, maxAge := 20, edge := false
      state := .FORWARDING, age := 0, lostBPDU := 0, nextUpgrade := 0, hasCarrier := true }
  upgradeTimer := none

theorem elects_iff_zero : (1 : Nat) < (Finset.univ : Finset (Fin 2)).card ∧
    ((twoPorts 0).Elects Finset.univ ↔ (twoPorts 0).LowestWins Finset.univ) :=
  ⟨by decide, elects_iff (twoPorts 0) Finset.univ (by decide)⟩

/-- Ports that have started store the port priority -1, and both become backups. -/
theorem start_not_elects : ¬ ((twoPorts 0).initPorts 0).Elects Finset.univ := by
  intro elects
  obtain ⟨lowest, _, _, zero, _⟩ := lowestWins_of_elects (by decide) elects
  cases zero

end Inet.Ieee8021d.Rstp
