import Inet.Ieee8021d.Stp

/-!
# What an election of a bridge decides

The comparison of ports is that of their vectors in lexicographic order. After an election the
bridge is the root and all of its ports are designated, or it follows the best vector it stores.
-/
namespace Inet.Ieee8021d

/-! ### Vectors -/

/-- Priority and address. -/
abbrev BridgeId := ℕ ×ₗ ℕ

/-- Root, cost, bridge, priority and number of the port. The smaller one is better. -/
abbrev PriorityVector := BridgeId ×ₗ ℕ ×ₗ BridgeId ×ₗ ℕ ×ₗ ℕ

namespace Ieee8021dInterfaceData

def rootId (port : Ieee8021dInterfaceData) : BridgeId := toLex (port.rootPriority, port.rootAddress)

def bridgeId (port : Ieee8021dInterfaceData) : BridgeId :=
  toLex (port.bridgePriority, port.bridgeAddress)

def vector (port : Ieee8021dInterfaceData) : PriorityVector :=
  toLex (port.rootId, toLex (port.rootPathCost, toLex (port.bridgeId,
    toLex (port.portPriority, port.portNum))))

@[simp] theorem vector_setRole (role : PortRole) (port : Ieee8021dInterfaceData) :
    (Stp.setRole role port).vector = port.vector := rfl

theorem rootId_le_of_vector {a b : Ieee8021dInterfaceData} (le : a.vector ≤ b.vector) :
    a.rootId ≤ b.rootId := by
  rcases (Prod.Lex.toLex_le_toLex).mp le with less | ⟨same, _⟩
  · exact less.le
  · exact same.le

end Ieee8021dInterfaceData

/-- A comparison that is positive if the first one comes first, and negative if the second one
does. -/
def Compares {α : Type} [LT α] (result : Int) (a b : α) : Prop :=
  (a < b ∧ result = 1) ∨ (a = b ∧ result = 0) ∨ (b < a ∧ result = -1)

theorem Compares.pos {α : Type} [Preorder α] {result : Int} {a b : α}
    (compares : Compares result a b) : 0 < result ↔ a < b := by
  rcases compares with ⟨less, rfl⟩ | ⟨rfl, rfl⟩ | ⟨greater, rfl⟩
  · simpa using less
  · simp
  · simpa using greater.not_gt

theorem Compares.neg {α : Type} [Preorder α] {result : Int} {a b : α}
    (compares : Compares result a b) : result < 0 ↔ b < a := by
  rcases compares with ⟨less, rfl⟩ | ⟨rfl, rfl⟩ | ⟨greater, rfl⟩
  · simpa using less.not_gt
  · simp
  · simpa using greater

theorem compareBridgeIDs_compares (aPriority aAddress bPriority bAddress : Nat) :
    Compares (compareBridgeIDs aPriority aAddress bPriority bAddress)
      (toLex (aPriority, aAddress) : BridgeId) (toLex (bPriority, bAddress)) := by
  unfold Compares compareBridgeIDs
  simp only [Prod.Lex.toLex_lt_toLex, toLex_inj, Prod.mk.injEq]
  split_ifs <;> simp <;> omega

theorem comparePortIDs_compares (aPriority aNum bPriority bNum : Nat) :
    Compares (comparePortIDs aPriority aNum bPriority bNum)
      (toLex (aPriority, aNum) : ℕ ×ₗ ℕ) (toLex (bPriority, bNum)) :=
  compareBridgeIDs_compares aPriority aNum bPriority bNum

theorem comparePorts_compares (a b : Ieee8021dInterfaceData) :
    Compares (comparePorts a b) a.vector b.vector := by
  unfold Compares Ieee8021dInterfaceData.vector comparePorts
  simp only [Prod.Lex.toLex_lt_toLex, toLex_inj, Prod.mk.injEq]
  -- The components are compared one after the other.
  rcases compareBridgeIDs_compares a.rootPriority a.rootAddress b.rootPriority b.rootAddress with
    ⟨less, result⟩ | ⟨same, result⟩ | ⟨greater, result⟩
  · exact .inl ⟨.inl less, by rw [result]; rfl⟩
  · rw [result, if_neg (by decide)]
    have root : a.rootId = b.rootId := same
    rcases lt_trichotomy a.rootPathCost b.rootPathCost with less | cost | greater
    · exact .inl ⟨.inr ⟨root, .inl less⟩, if_pos less⟩
    · rw [if_neg cost.not_lt, if_neg cost.not_gt]
      rcases compareBridgeIDs_compares a.bridgePriority a.bridgeAddress b.bridgePriority
        b.bridgeAddress with ⟨less, result⟩ | ⟨same, result⟩ | ⟨greater, result⟩
      · exact .inl ⟨.inr ⟨root, .inr ⟨cost, .inl less⟩⟩, by rw [result]; rfl⟩
      · rw [result, if_neg (by decide)]
        have bridge : a.bridgeId = b.bridgeId := same
        rcases comparePortIDs_compares a.portPriority a.portNum b.portPriority b.portNum with
          ⟨less, result⟩ | ⟨same, result⟩ | ⟨greater, result⟩
        · rw [Prod.Lex.toLex_lt_toLex] at less
          exact .inl ⟨.inr ⟨root, .inr ⟨cost, .inr ⟨bridge, less⟩⟩⟩, result⟩
        · rw [toLex_inj, Prod.mk.injEq] at same
          exact .inr (.inl ⟨⟨root, cost, bridge, same⟩, result⟩)
        · rw [Prod.Lex.toLex_lt_toLex] at greater
          exact .inr (.inr ⟨.inr ⟨root.symm, .inr ⟨cost.symm, .inr ⟨bridge.symm, greater⟩⟩⟩, result⟩)
      · exact .inr (.inr ⟨.inr ⟨root.symm, .inr ⟨cost.symm, .inl greater⟩⟩, by rw [result]; rfl⟩)
    · exact .inr (.inr ⟨.inr ⟨root.symm, .inl greater⟩,
        by rw [if_neg greater.not_gt, if_pos greater]⟩)
  · exact .inr (.inr ⟨.inl greater, by rw [result]; rfl⟩)

namespace Stp

variable {stp : Stp}

def id (stp : Stp) : BridgeId := toLex (stp.bridgePriority, stp.bridgeAddress)

def root (stp : Stp) : BridgeId := toLex (stp.rootPriority, stp.rootAddress)

theorem checkRootEligibility_iff :
    stp.checkRootEligibility = true ↔ ∀ port ∈ stp.ports, stp.id ≤ port.rootId := by
  unfold checkRootEligibility
  rw [List.all_eq_true]
  refine forall₂_congr fun port _ => ?_
  rw [decide_eq_true_iff, ← not_lt, (compareBridgeIDs_compares _ _ _ _).pos, not_lt]
  rfl

/-! ### The root port -/

/-- The best port is one of the list or the one before it, and no vector is better. -/
theorem bestPort_spec (ports : List Ieee8021dInterfaceData) (i : Nat)
    (best : Nat × Ieee8021dInterfaceData) :
    (bestPort ports i best = best ∨
      ∃ j, ports[j]? = some (bestPort ports i best).2 ∧ (bestPort ports i best).1 = i + j) ∧
    (bestPort ports i best).2.vector ≤ best.2.vector ∧
    ∀ port ∈ ports, (bestPort ports i best).2.vector ≤ port.vector := by
  induction ports generalizing i best with
  | nil => exact ⟨.inl rfl, le_refl _, by simp⟩
  | cons currentPort rest ih =>
    have compares := comparePorts_compares currentPort best.2
    -- Whichever of the two goes on, its vector is not worse than both.
    have goesOn : ∃ next, bestPort (currentPort :: rest) i best = bestPort rest (i + 1) next ∧
        (next = best ∨ next = (i, currentPort)) ∧ next.2.vector ≤ best.2.vector ∧
        next.2.vector ≤ currentPort.vector := by
      refine ⟨_, rfl, ?_⟩
      simp only [gt_iff_lt, compares.pos, compares.neg]
      split_ifs with better worse prior
      · exact ⟨.inr rfl, better.le, le_refl _⟩
      · exact ⟨.inl rfl, le_refl _, worse.le⟩
      · exact ⟨.inr rfl, not_lt.mp worse, le_refl _⟩
      · exact ⟨.inl rfl, le_refl _, not_lt.mp better⟩
    obtain ⟨next, same, which, leBest, leCurrent⟩ := goesOn
    obtain ⟨place, leNext, leRest⟩ := ih (i + 1) next
    rw [same]
    refine ⟨?_, leNext.trans leBest, ?_⟩
    · rcases place with place | ⟨j, found, index⟩
      · rcases which with rfl | rfl
        · exact .inl place
        · exact .inr ⟨0, by rw [place]; rfl, by rw [place]; rfl⟩
      · exact .inr ⟨j + 1, found, by omega⟩
    · intro port member
      rcases List.mem_cons.mp member with rfl | member
      · exact leNext.trans leCurrent
      · exact leRest port member

/-! ### Elections -/

/-- The bridge is the root, as no port stores a better one. -/
structure Leads (stp : Stp) : Prop where
  isRoot : stp.isRoot = true
  root : stp.root = stp.id
  cost : stp.rootPathCost = 0
  best : ∀ port ∈ stp.ports, stp.id ≤ port.rootId
  roles : ∀ port ∈ stp.ports, port.role ≠ .DISABLED → port.role = .DESIGNATED

/-- The bridge has the root of the best vector, which one of its ports stores. -/
structure Follows (stp : Stp) (i : Nat) (best : Ieee8021dInterfaceData) : Prop where
  isRoot : stp.isRoot = false
  port : stp.ports[i]? = some best
  role : best.role = .ROOT
  root : stp.root = best.rootId
  cost : stp.rootPathCost = best.rootPathCost
  better : best.rootId < stp.id
  best : ∀ port ∈ stp.ports, best.vector ≤ port.vector
  others : ∀ j port, j ≠ i → stp.ports[j]? = some port → port.role ≠ .ROOT ∧
    (port.role = .DESIGNATED ↔ (stp.bridgeGlobal j port).vector < port.vector)

theorem Leads.of_eligible (eligible : stp.checkRootEligibility = true) : Leads stp.tryRoot := by
  have best := checkRootEligibility_iff.mp eligible
  unfold tryRoot
  rw [if_pos eligible]
  refine ⟨rfl, rfl, rfl, ?_, ?_⟩
  · intro port member
    obtain ⟨old, inside, rfl⟩ := List.mem_map.mp member
    split
    · exact best old inside
    · exact best old inside
  · intro port member enabled
    obtain ⟨old, inside, rfl⟩ := List.mem_map.mp member
    split at enabled
    next disabled => exact absurd disabled enabled
    next other => rw [if_neg other]; rfl

/-- The port at an index after the choice of the root port and of the designated ports. -/
theorem getElem?_selectDesignatedPorts (stp : Stp) (j : Nat) :
    stp.selectDesignatedPorts.ports[j]? =
      stp.ports[j]?.map fun port => setRole (stp.selectRole j port) port :=
  List.getElem?_mapIdx

theorem selectRole_iff {j : Nat} {port : Ieee8021dInterfaceData}
    (unassigned : port.role = .NOTASSIGNED) :
    stp.selectRole j port ≠ .ROOT ∧
      (stp.selectRole j port = .DESIGNATED ↔ (stp.bridgeGlobal j port).vector < port.vector) := by
  have compares := comparePorts_compares (stp.bridgeGlobal j port) port
  have eligible : ¬(port.role = .ROOT ∨ port.role = .DISABLED) := by simp [unassigned]
  unfold selectRole
  rw [if_neg eligible, ← compares.pos]
  by_cases better : 0 < comparePorts (stp.bridgeGlobal j port) port
  · simp [better]
  · by_cases worse : comparePorts (stp.bridgeGlobal j port) port < 0
    · simp [better, worse]
    · simp [better, worse, unassigned]

theorem selectRootPort_ports (stp : Stp) {first : Ieee8021dInterfaceData}
    {rest : List Ieee8021dInterfaceData} (ports : stp.ports = first :: rest) (j : Nat) :
    stp.selectRootPort.ports[j]? = stp.ports[j]?.map fun port =>
      if (bestPort stp.ports 0 (0, first)).1 = j then setRole .ROOT (setRole .NOTASSIGNED port)
      else setRole .NOTASSIGNED port := by
  unfold selectRootPort
  rw [ports]
  simp only [List.getElem?_modify, List.getElem?_map]
  cases (first :: rest)[j]? <;> rfl

theorem Follows.of_ineligible (ineligible : stp.checkRootEligibility = false) :
    ∃ i best, Follows stp.tryRoot i best := by
  cases shape : stp.ports with
  | nil =>
    rw [checkRootEligibility, shape] at ineligible
    cases ineligible
  | cons first rest =>
    -- The bridge before the designated ports are chosen.
    let chosen : Stp := ({ stp with isRoot := false } : Stp).selectRootPort
    let best := bestPort stp.ports 0 (0, first)
    have after : stp.tryRoot = chosen.selectDesignatedPorts := by
      rw [tryRoot, ineligible]
      rfl
    have vars : chosen = { stp with
        isRoot := false, ports := chosen.ports, rootInterfaceId := best.1, desPorts := []
        rootPathCost := best.2.rootPathCost, rootAddress := best.2.rootAddress
        rootPriority := best.2.rootPriority, currentMaxAge := best.2.maxAge } := by
      simp only [chosen, best, selectRootPort, shape]
    obtain ⟨place, leFirst, least⟩ := bestPort_spec stp.ports 0 (0, first)
    have found : stp.ports[best.1]? = some best.2 := by
      rcases place with place | ⟨j, inside, index⟩
      · simp only [best, place, shape, List.getElem?_cons_zero]
      · rw [show best.1 = j from index.trans (Nat.zero_add j)]
        exact inside
    have ports (j : Nat) : stp.tryRoot.ports[j]? = stp.ports[j]?.map fun port =>
        if best.1 = j then setRole .ROOT port
        else setRole (chosen.selectRole j (setRole .NOTASSIGNED port)) port := by
      rw [after, getElem?_selectDesignatedPorts,
        selectRootPort_ports { stp with isRoot := false } shape]
      cases stp.ports[j]? with
      | none => rfl
      | some port =>
        simp only [Option.map_some]
        split
        · rfl
        · rfl
    have member (port : Ieee8021dInterfaceData) (inside : port ∈ stp.tryRoot.ports) :
        ∃ old ∈ stp.ports, port.vector = old.vector := by
      obtain ⟨j, found⟩ := List.getElem?_of_mem inside
      rw [ports, Option.map_eq_some_iff] at found
      obtain ⟨old, found, rfl⟩ := found
      refine ⟨old, List.mem_of_getElem? found, ?_⟩
      split
      · rfl
      · rfl
    have global (j : Nat) (port : Ieee8021dInterfaceData) (role : PortRole) :
        (stp.tryRoot.bridgeGlobal j (setRole role port)).vector =
          (chosen.bridgeGlobal j (setRole .NOTASSIGNED port)).vector := by
      rw [after]
      rfl
    refine ⟨best.1, setRole .ROOT best.2, ?_, ?_, rfl, ?_, ?_, ?_, ?_, ?_⟩
    · rw [after, vars]
      rfl
    · rw [ports, found]
      simp
    · rw [after, vars]
      rfl
    · rw [after, vars]
      rfl
    · have some : ¬ ∀ port ∈ stp.ports, stp.id ≤ port.rootId := fun all => by
        rw [checkRootEligibility_iff.mpr all] at ineligible
        cases ineligible
      push Not at some
      obtain ⟨port, inside, less⟩ := some
      have same : stp.tryRoot.id = stp.id := by
        rw [after, vars]
        rfl
      rw [same]
      exact lt_of_le_of_lt (Ieee8021dInterfaceData.rootId_le_of_vector (least port inside)) less
    · intro port inside
      obtain ⟨old, inside, same⟩ := member port inside
      rw [same]
      exact least old inside
    · intro j port apart found
      rw [ports, Option.map_eq_some_iff] at found
      obtain ⟨old, _, rfl⟩ := found
      rw [if_neg apart.symm, global]
      have unassigned : (setRole .NOTASSIGNED old).role = .NOTASSIGNED := rfl
      exact selectRole_iff unassigned

/-- An election makes the bridge the root or lets it follow one of its ports. -/
theorem tryRoot_cases (stp : Stp) : Leads stp.tryRoot ∨ ∃ i best, Follows stp.tryRoot i best := by
  cases eligible : stp.checkRootEligibility with
  | true => exact .inl (Leads.of_eligible eligible)
  | false => exact .inr (Follows.of_ineligible eligible)

/-- An election changes nothing but the roles of the ports. -/
theorem tryRoot_ports (stp : Stp) (j : Nat) :
    ∃ role, stp.tryRoot.ports[j]? = stp.ports[j]?.map (setRole role) := by
  have selected (s : Stp) : ∃ role, s.selectDesignatedPorts.ports[j]? =
      s.ports[j]?.map (setRole role) := by
    rw [getElem?_selectDesignatedPorts]
    cases s.ports[j]? with
    | none => exact ⟨.ROOT, rfl⟩
    | some port => exact ⟨_, rfl⟩
  unfold tryRoot
  split
  · cases found : stp.ports[j]? with
    | none => exact ⟨.ROOT, by simp [setAllDesignated, found]⟩
    | some port =>
      refine ⟨if port.role = .DISABLED then port.role else .DESIGNATED, ?_⟩
      simp only [setAllDesignated, List.getElem?_map, found, Option.map_some]
      split
      · rfl
      · rfl
  · obtain ⟨role, after⟩ := selected ({ stp with isRoot := false } : Stp).selectRootPort
    refine ⟨role, ?_⟩
    rw [after]
    by_cases empty : stp.ports = []
    · simp only [selectRootPort, empty]
    · obtain ⟨first, rest, shape⟩ := List.exists_cons_of_ne_nil empty
      rw [selectRootPort_ports { stp with isRoot := false } shape]
      cases stp.ports[j]? with
      | none => rfl
      | some port =>
        simp only [Option.map_some]
        split
        · rfl
        · rfl

end Stp

end Inet.Ieee8021d
