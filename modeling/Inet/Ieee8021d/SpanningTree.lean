import Inet.Ieee8021d.StpElection
import Inet.Lib.Descent

/-!
# A quiescent network is a spanning tree

Bridges with links between their ports. If no port stores anything but what its peer sends now, and
nothing that is sent changes anything, then the bridges follow their root ports along the cheapest
paths to the bridge of the smallest identifier.
-/
namespace Inet.Ieee8021d

open Lib Stp

/-- The bridges, and the port at the other end of the link at a port. -/
structure Network (B : Type) where
  bridge : B → Stp
  peer : B → Nat → Option (B × Nat)

namespace Network

variable {B : Type} (net : Network B)
variable {r : B} {p q : Nat} {x y : Ieee8021dInterfaceData}

def port (b : B) (p : Nat) : Option Ieee8021dInterfaceData := (net.bridge b).ports[p]?

/-- A link with the data of the ports at its ends. -/
structure Link (b : B) (p : Nat) (c : B) (q : Nat) (x y : Ieee8021dInterfaceData) : Prop where
  peer : net.peer b p = some (c, q)
  left : net.port b p = some x
  right : net.port c q = some y

/-- Point-to-point links of positive costs that are equal at both ends join all bridges, which have
different identifiers. -/
structure WellFormed : Prop where
  symm : ∀ b p c q, net.peer b p = some (c, q) → net.peer c q = some (b, p)
  apart : ∀ b p c q, net.peer b p = some (c, q) → b ≠ c
  ports : ∀ b p c q, net.peer b p = some (c, q) → ∃ x, net.port b p = some x
  cost : ∀ b p c q x y, net.Link b p c q x y → x.linkCost = y.linkCost ∧ 0 < x.linkCost
  distinct : Function.Injective fun b => (net.bridge b).id
  connected : ∀ b c, Relation.ReflTransGen (fun b c => ∃ p q, net.peer b p = some (c, q)) b c

/-- Every port stores the initial vector of its bridge or what its peer would send now. -/
def Stored : Prop :=
  ∀ b p x, net.port b p = some x → x.vector = ((net.bridge b).initInterfacedata x).vector ∨
    ∃ c q y, net.Link b p c q x y ∧
      x.vector = (received x ((net.bridge c).generateBPDU q y)).vector

/-- No BPDU of a designated port changes anything. -/
def Quiescent : Prop :=
  ∀ b p c q x y, net.Link b p c q x y → x.role = .DESIGNATED →
    (net.bridge c).handleBPDU q ((net.bridge b).generateBPDU p x) = net.bridge c

/-! ### Spanning trees -/

/-- The cost of a way from one bridge to another. -/
inductive PathCost : B → B → Nat → Prop
  | here (b : B) : PathCost b b 0
  | link {b c r : B} {p q k : Nat} {x y : Ieee8021dInterfaceData} :
      net.Link b p c q x y → PathCost c r k → PathCost b r (x.linkCost + k)

/-- A link whose first end is a root port and whose other end is designated. -/
def TreeLink (b : B) (p : Nat) (c : B) (q : Nat) : Prop :=
  ∃ x y, net.Link b p c q x y ∧ x.role = .ROOT ∧ y.role = .DESIGNATED

def treeGraph : SimpleGraph B := SimpleGraph.fromRel fun b c => ∃ p q, net.TreeLink b p c q

structure IsSpanningTree (r : B) : Prop where
  root : ∀ b, (net.bridge b).isRoot = true ↔ b = r
  smallest : ∀ b, (net.bridge r).id ≤ (net.bridge b).id
  cost : ∀ b, b ≠ r → IsLeast { k | net.PathCost b r k } (net.bridge b).rootPathCost
  rootPort : ∀ b, b ≠ r → ∃! p, ∃ x, net.port b p = some x ∧ x.role = .ROOT
  designated : ∀ b p c q x y, net.Link b p c q x y →
    Xor (x.role = .DESIGNATED) (y.role = .DESIGNATED)
  tree : net.treeGraph.IsTree
  single : ∀ b p c q, net.TreeLink b p c q →
    (∀ p' q', net.TreeLink b p' c q' → p' = p ∧ q' = q) ∧ ∀ p' q', ¬ net.TreeLink c q' b p'

/-- The bridges have held their elections, no port is disabled, BPDUs are not out of date when they
are sent, and priorities and costs fit their types. -/
structure Settled : Prop where
  wellFormed : net.WellFormed
  stored : net.Stored
  quiescent : net.Quiescent
  elected : ∀ b, ∃ before : Stp, net.bridge b = before.tryRoot
  enabled : ∀ b p x, net.port b p = some x → x.role ≠ .DISABLED
  maxAge : ∀ b, 0 < (net.bridge b).currentMaxAge
  priority : ∀ b, (net.bridge b).bridgePriority < 2 ^ 16
  cost : ∀ b p c q x y, net.Link b p c q x y →
    (net.bridge b).rootPathCost + x.linkCost < 2 ^ 32

variable {net}

theorem WellFormed.symmetric (wellFormed : net.WellFormed) {b c : B}
    (link : net.Link b p c q x y) : net.Link c q b p y x :=
  ⟨wellFormed.symm b p c q link.peer, link.right, link.left⟩

/-- The other end of a link is determined by the first one. -/
theorem Link.unique {b c c' : B} {q' : Nat} {y' : Ieee8021dInterfaceData}
    (link : net.Link b p c q x y) (link' : net.Link b p c' q' x y') : c' = c ∧ q' = q ∧ y' = y := by
  have same := link.peer.symm.trans link'.peer
  cases same
  have equal := link.right.symm.trans link'.right
  cases equal
  exact ⟨rfl, rfl, rfl⟩

/-! ### What a bridge offers -/

/-- The vector that a bridge offers on a port. -/
def offer (net : Network B) (b : B) (p : Nat) (x : Ieee8021dInterfaceData) : PriorityVector :=
  toLex ((net.bridge b).root, toLex ((net.bridge b).rootPathCost + x.linkCost,
    toLex ((net.bridge b).id, toLex (x.priority, p))))

namespace Settled

variable (settled : net.Settled) {b c : B} {p q : Nat} {x y : Ieee8021dInterfaceData}

include settled

theorem leads_or_follows (b : B) :
    Leads (net.bridge b) ∨ ∃ i best, Follows (net.bridge b) i best := by
  obtain ⟨before, same⟩ := settled.elected b
  rw [same]
  exact before.tryRoot_cases

/-- A stored root other than the bridge itself has come with a BPDU, and so has 16 bits. -/
theorem root_fits (b : B) : (net.bridge b).rootPriority < 2 ^ 16 := by
  have priority (root : BridgeId) (same : (net.bridge b).root = root) (fits : root.1 < 2 ^ 16) :
      (net.bridge b).rootPriority < 2 ^ 16 := by
    rw [← same] at fits
    exact fits
  rcases settled.leads_or_follows b with leads | ⟨i, best, follows⟩
  · exact priority _ leads.root (settled.priority b)
  · rcases settled.stored b i best follows.port with initial | ⟨c, q, y, _, received⟩
    · have same : best.rootId = (net.bridge b).id := congrArg (·.1) initial
      exact absurd (same ▸ follows.better) (lt_irrefl _)
    · have same : best.rootId = _ := congrArg (·.1) received
      exact priority _ (follows.root.trans same) (Nat.mod_lt _ (by decide))

theorem bridgeGlobal_vector (link : net.Link b p c q x y) :
    ((net.bridge b).bridgeGlobal p x).vector = net.offer b p x := by
  have sum : addCost (net.bridge b).rootPathCost x.linkCost =
      (net.bridge b).rootPathCost + x.linkCost :=
    Nat.mod_eq_of_lt (settled.cost b p c q x y link)
  unfold offer Ieee8021dInterfaceData.vector
  rw [← sum]
  rfl

theorem received_vector (link : net.Link b p c q x y) :
    (received y ((net.bridge b).generateBPDU p x)).vector = net.offer b p x := by
  have sum : addCost (net.bridge b).rootPathCost y.linkCost =
      (net.bridge b).rootPathCost + x.linkCost := by
    rw [← (settled.wellFormed.cost b p c q x y link).1]
    exact Nat.mod_eq_of_lt (settled.cost b p c q x y link)
  have root := Nat.mod_eq_of_lt (settled.root_fits b)
  have bridge := Nat.mod_eq_of_lt (settled.priority b)
  unfold offer Ieee8021dInterfaceData.vector Ieee8021dInterfaceData.rootId
    Ieee8021dInterfaceData.bridgeId received generateBPDU Stp.root Stp.id
  rw [← sum]
  simp only [root, bridge]

/-- A port stores a vector with the bridge itself as the root, or what its peer offers. -/
theorem stored_cases (found : net.port b p = some x) :
    x.rootId = (net.bridge b).id ∨ ∃ c q y, net.Link b p c q x y ∧ x.vector = net.offer c q y := by
  rcases settled.stored b p x found with initial | ⟨c, q, y, link, same⟩
  · exact .inl (congrArg (·.1) initial)
  · refine .inr ⟨c, q, y, link, ?_⟩
    rw [same, settled.received_vector (settled.wellFormed.symmetric link)]

/-- The vector a bridge follows is what the bridge at the root port offers. -/
theorem follows_link {i : Nat} {best : Ieee8021dInterfaceData}
    (follows : Follows (net.bridge b) i best) : ∃ c q y, net.Link b i c q best y ∧
      best.vector = net.offer c q y ∧ (net.bridge b).root = (net.bridge c).root ∧
      (net.bridge b).rootPathCost = (net.bridge c).rootPathCost + y.linkCost := by
  rcases settled.stored_cases follows.port with own | ⟨c, q, y, link, same⟩
  · exact absurd (own ▸ follows.better) (lt_irrefl _)
  · have root : best.rootId = (net.bridge c).root := congrArg (·.1) same
    have cost : best.rootPathCost = _ := congrArg (·.2.1) same
    exact ⟨c, q, y, link, same, follows.root.trans root, follows.cost.trans cost⟩

/-- What a designated port sends does not change what its peer stores. -/
theorem kept (link : net.Link b p c q x y) (designated : x.role = .DESIGNATED) :
    y.vector ≤ net.offer b p x := by
  have unchanged := settled.quiescent b p c q x y link designated
  unfold handleBPDU at unchanged
  obtain ⟨role, after⟩ := tryRoot_ports { net.bridge c with
    ports := (net.bridge c).ports.modify q fun port =>
      (isSuperiorBPDU port ((net.bridge b).generateBPDU p x)).2 } q
  have found : (net.bridge c).ports[q]? = some y := link.right
  rw [unchanged, List.getElem?_modify, found] at after
  simp only [if_true, Option.map_eq_map, Option.map_some, Option.some.injEq] at after
  have stored := congrArg (·.vector) after
  simp only [Ieee8021dInterfaceData.vector_setRole] at stored
  have compares := comparePorts_compares y (received y ((net.bridge b).generateBPDU p x))
  rw [settled.received_vector link] at compares
  rw [stored]
  unfold isSuperiorBPDU
  split_ifs with superior
  · exact (compares.pos.mp superior).le
  · have current : ¬((net.bridge b).generateBPDU p x).messageAge ≥
        ((net.bridge b).generateBPDU p x).maxAge := not_le.mpr (settled.maxAge b)
    unfold setSuperiorBPDU
    rw [if_neg current]
    exact (settled.received_vector link).le

/-! ### The root -/

theorem root_ge (smallest : ∀ b, (net.bridge r).id ≤ (net.bridge b).id) (b : B) :
    (net.bridge r).id ≤ (net.bridge b).root := by
  induction bound : (net.bridge b).rootPathCost using Nat.strong_induction_on generalizing b with
  | h n ih =>
    rcases settled.leads_or_follows b with leads | ⟨i, best, follows⟩
    · rw [leads.root]
      exact smallest b
    · obtain ⟨c, q, y, link, _, root, cost⟩ := settled.follows_link follows
      have positive := (settled.wellFormed.cost b i c q best y link)
      rw [root]
      exact ih _ (by omega) c rfl

theorem leads_smallest (smallest : ∀ b, (net.bridge r).id ≤ (net.bridge b).id) :
    Leads (net.bridge r) := by
  rcases settled.leads_or_follows r with leads | ⟨i, best, follows⟩
  · exact leads
  · have ge := settled.root_ge smallest r
    rw [follows.root] at ge
    exact absurd follows.better ge.not_gt

/-- A port that stores something worse than the bridge offers is designated. -/
theorem designated_of (link : net.Link b p c q x y)
    (better : (∃ i best, Follows (net.bridge b) i best) → net.offer b p x < x.vector)
    (other : x.role ≠ .ROOT) : x.role = .DESIGNATED := by
  rcases settled.leads_or_follows b with leads | ⟨i, best, follows⟩
  · exact leads.roles x (List.mem_of_getElem? link.left) (settled.enabled b p x link.left)
  · have apart : p ≠ i := by
      rintro rfl
      have same := link.left.symm.trans follows.port
      cases same
      exact other follows.role
    refine (follows.others p x apart link.left).2.mpr ?_
    rw [settled.bridgeGlobal_vector link]
    exact better ⟨i, best, follows⟩

/-- A root port stores the root and the cost that the bridge has taken. -/
theorem stored_of_root (found : net.port b p = some x) (role : x.role = .ROOT) :
    Follows (net.bridge b) p x := by
  rcases settled.leads_or_follows b with leads | ⟨i, best, follows⟩
  · have designated := leads.roles x (List.mem_of_getElem? found) (settled.enabled b p x found)
    rw [role] at designated
    cases designated
  · by_cases same : p = i
    · subst same
      have equal := found.symm.trans follows.port
      cases equal
      exact follows
    · exact absurd role (follows.others p x same found).1

/-- A bridge that follows another one is not the one of the smallest identifier. -/
theorem larger_of_follows (smallest : ∀ b, (net.bridge r).id ≤ (net.bridge b).id)
    {i : Nat} {best : Ieee8021dInterfaceData} (follows : Follows (net.bridge b) i best) :
    (net.bridge r).id < (net.bridge b).id :=
  lt_of_le_of_lt (settled.root_ge smallest b) (follows.root ▸ follows.better)

/-- The bridges joined to one that has the right root have it, too. -/
theorem root_next (smallest : ∀ b, (net.bridge r).id ≤ (net.bridge b).id)
    (link : net.Link b p c q x y) (root : (net.bridge b).root = (net.bridge r).id) :
    (net.bridge c).root = (net.bridge r).id := by
  by_contra wrong
  have worse : (net.bridge r).id < (net.bridge c).root :=
    lt_of_le_of_ne (settled.root_ge smallest c) (Ne.symm wrong)
  -- What the port stores is the root of one of the two bridges, none of which is the right one.
  have stored (follows : ∃ i best, Follows (net.bridge b) i best) :
      (net.bridge b).root < x.rootId := by
    obtain ⟨i, best, follows⟩ := follows
    rw [root]
    rcases settled.stored_cases link.left with own | ⟨c', q', y', link', same⟩
    · rw [own]
      exact settled.larger_of_follows smallest follows
    · obtain ⟨rfl, rfl, rfl⟩ := link.unique link'
      have equal : x.rootId = (net.bridge c').root := congrArg (·.1) same
      rw [equal]
      exact worse
  have other : x.role ≠ .ROOT := by
    intro role
    have follows := settled.stored_of_root link.left role
    exact absurd (stored ⟨p, x, follows⟩) (follows.root ▸ lt_irrefl _)
  have designated := settled.designated_of link
    (fun follows => Prod.Lex.toLex_lt_toLex.mpr (.inl (stored follows))) other
  have kept := settled.kept link designated
  have le : y.rootId ≤ (net.bridge b).root := by
    rcases Prod.Lex.toLex_le_toLex.mp kept with less | ⟨same, _⟩
    · exact less.le
    · exact same.le
  rw [root] at le
  rcases settled.leads_or_follows c with leads | ⟨i, best, follows⟩
  · have own := leads.best y (List.mem_of_getElem? link.right)
    rw [leads.root] at worse
    exact absurd (own.trans le) worse.not_ge
  · have best_le := Ieee8021dInterfaceData.rootId_le_of_vector
      (follows.best y (List.mem_of_getElem? link.right))
    rw [← follows.root] at best_le
    exact absurd (best_le.trans le) worse.not_ge

theorem root_eq (smallest : ∀ b, (net.bridge r).id ≤ (net.bridge b).id) (b : B) :
    (net.bridge b).root = (net.bridge r).id := by
  induction settled.wellFormed.connected r b with
  | refl => exact (settled.leads_smallest smallest).root
  | tail _ joined root =>
    obtain ⟨p, q, peer⟩ := joined
    obtain ⟨x, left⟩ := settled.wellFormed.ports _ _ _ _ peer
    obtain ⟨y, right⟩ := settled.wellFormed.ports _ _ _ _ (settled.wellFormed.symm _ _ _ _ peer)
    exact settled.root_next smallest ⟨peer, left, right⟩ root

theorem leads_iff (smallest : ∀ b, (net.bridge r).id ≤ (net.bridge b).id) :
    Leads (net.bridge b) ↔ b = r := by
  constructor
  · intro leads
    exact settled.wellFormed.distinct (leads.root.symm.trans (settled.root_eq smallest b))
  · rintro rfl
    exact settled.leads_smallest smallest

theorem follows_of_ne (smallest : ∀ b, (net.bridge r).id ≤ (net.bridge b).id)
    (apart : b ≠ r) : ∃ i best, Follows (net.bridge b) i best := by
  rcases settled.leads_or_follows b with leads | follows
  · exact absurd ((settled.leads_iff smallest).mp leads) apart
  · exact follows

/-! ### Costs -/

/-- With one root, offers compare by their costs, and then by the bridges. -/
theorem offer_lt_iff (smallest : ∀ b, (net.bridge r).id ≤ (net.bridge b).id)
    (link : net.Link b p c q x y) : net.offer b p x < net.offer c q y ↔
      (net.bridge b).rootPathCost < (net.bridge c).rootPathCost ∨
        ((net.bridge b).rootPathCost = (net.bridge c).rootPathCost ∧
          (net.bridge b).id < (net.bridge c).id) := by
  have same : (net.bridge b).root = (net.bridge c).root :=
    (settled.root_eq smallest b).trans (settled.root_eq smallest c).symm
  have cost := (settled.wellFormed.cost b p c q x y link).1
  have apart : (net.bridge b).id ≠ (net.bridge c).id := fun equal =>
    settled.wellFormed.apart b p c q link.peer (settled.wellFormed.distinct equal)
  unfold offer
  rw [Prod.Lex.toLex_lt_toLex, Prod.Lex.toLex_lt_toLex, Prod.Lex.toLex_lt_toLex]
  simp only [same, lt_irrefl, false_or, true_and, apart, false_and, or_false, cost,
    Nat.add_lt_add_iff_right, Nat.add_right_cancel_iff]

/-- A bridge other than the root stores something worse than its own offer at a port whose peer
offers something worse. -/
theorem offer_lt_stored (smallest : ∀ b, (net.bridge r).id ≤ (net.bridge b).id)
    (link : net.Link b p c q x y) (less : net.offer b p x < net.offer c q y)
    (follows : ∃ i best, Follows (net.bridge b) i best) : net.offer b p x < x.vector := by
  obtain ⟨i, best, follows⟩ := follows
  rcases settled.stored_cases link.left with own | ⟨c', q', y', link', same⟩
  · refine Prod.Lex.toLex_lt_toLex.mpr (.inl ?_)
    rw [own]
    simp only
    rw [settled.root_eq smallest b]
    exact settled.larger_of_follows smallest follows
  · obtain ⟨rfl, rfl, rfl⟩ := link.unique link'
    rw [same]
    exact less

/-- The end of a link that offers less is designated, and the other one is not. -/
theorem designated_of_less (smallest : ∀ b, (net.bridge r).id ≤ (net.bridge b).id)
    (link : net.Link b p c q x y) (less : net.offer b p x < net.offer c q y) :
    x.role = .DESIGNATED ∧ y.role ≠ .DESIGNATED ∧ y.vector = net.offer b p x := by
  have cheaper := (settled.offer_lt_iff smallest link).mp less
  have other : x.role ≠ .ROOT := by
    intro role
    have follows := settled.stored_of_root link.left role
    obtain ⟨c', q', y', link', _, _, cost⟩ := settled.follows_link follows
    obtain ⟨rfl, rfl, rfl⟩ := link.unique link'
    have positive := settled.wellFormed.cost b p c' q' x y' link
    rcases cheaper with cheaper | ⟨same, _⟩ <;> omega
  have designated := settled.designated_of link (settled.offer_lt_stored smallest link less) other
  have back := settled.wellFormed.symmetric link
  have apart : c ≠ r := by
    rintro rfl
    have leads := settled.leads_smallest smallest
    rw [leads.cost] at cheaper
    rcases cheaper with cheaper | ⟨_, smaller⟩
    · omega
    · exact absurd (smallest b) smaller.not_ge
  obtain ⟨i, best, follows⟩ := settled.follows_of_ne smallest apart
  have kept := settled.kept link designated
  have stored : y.vector = net.offer b p x := by
    rcases settled.stored_cases link.right with own | ⟨b', p', x', link', same⟩
    · have worse : net.offer b p x < y.vector := by
        refine Prod.Lex.toLex_lt_toLex.mpr (.inl ?_)
        rw [own]
        simp only
        rw [settled.root_eq smallest b]
        exact settled.larger_of_follows smallest follows
      exact absurd kept worse.not_ge
    · obtain ⟨rfl, rfl, rfl⟩ := back.unique link'
      exact same
  refine ⟨designated, fun both => ?_, stored⟩
  by_cases same : q = i
  · subst same
    have equal := link.right.symm.trans follows.port
    cases equal
    rw [follows.role] at both
    cases both
  · have superior := (follows.others q y same link.right).2.mp both
    rw [settled.bridgeGlobal_vector back, stored] at superior
    exact absurd less superior.not_gt

theorem offer_ne (link : net.Link b p c q x y) : net.offer b p x ≠ net.offer c q y := by
  intro same
  have equal : (net.bridge b).id = (net.bridge c).id := congrArg (·.2.2.1) same
  exact settled.wellFormed.apart b p c q link.peer (settled.wellFormed.distinct equal)

theorem cost_le (smallest : ∀ b, (net.bridge r).id ≤ (net.bridge b).id)
    (link : net.Link b p c q x y) :
    (net.bridge c).rootPathCost ≤ (net.bridge b).rootPathCost + x.linkCost := by
  by_contra dearer
  have less := (settled.offer_lt_iff smallest link).mpr (.inl (by omega))
  obtain ⟨_, _, stored⟩ := settled.designated_of_less smallest link less
  have apart : c ≠ r := by
    rintro rfl
    rw [(settled.leads_smallest smallest).cost] at dearer
    omega
  obtain ⟨i, best, follows⟩ := settled.follows_of_ne smallest apart
  have le := follows.best y (List.mem_of_getElem? link.right)
  rw [stored] at le
  rcases Prod.Lex.toLex_le_toLex.mp le with lower | ⟨_, rest⟩
  · simp only at lower
    rw [← follows.root, settled.root_eq smallest b, settled.root_eq smallest c] at lower
    exact lower.false
  · rcases Prod.Lex.toLex_le_toLex.mp rest with lower | ⟨equal, _⟩
    · simp only at lower
      rw [← follows.cost] at lower
      omega
    · simp only at equal
      rw [← follows.cost] at equal
      omega

theorem cost_isLeast (smallest : ∀ b, (net.bridge r).id ≤ (net.bridge b).id) (b : B) :
    IsLeast { k | net.PathCost b r k } (net.bridge b).rootPathCost := by
  constructor
  · show net.PathCost b r (net.bridge b).rootPathCost
    induction bound : (net.bridge b).rootPathCost using Nat.strong_induction_on generalizing b with
    | h n ih =>
      by_cases here : b = r
      · subst here
        rw [(settled.leads_smallest smallest).cost] at bound
        subst bound
        exact .here b
      · obtain ⟨i, best, follows⟩ := settled.follows_of_ne smallest here
        obtain ⟨c, q, y, link, _, _, cost⟩ := settled.follows_link follows
        obtain ⟨equal, positive⟩ := settled.wellFormed.cost b i c q best y link
        have sum : n = best.linkCost + (net.bridge c).rootPathCost := by omega
        rw [sum]
        exact .link link (ih _ (by omega) c rfl)
  · intro k path
    induction path with
    | here b =>
      have root := settled.leads_smallest smallest
      exact root.cost.le
    | link step _ ih =>
      have le := settled.cost_le smallest (settled.wellFormed.symmetric step)
      have equal := (settled.wellFormed.cost _ _ _ _ _ _ step).1
      have bound := ih smallest
      omega

/-! ### The tree -/

/-- A link whose first end is a root port leads to a bridge nearer to the root. -/
theorem nearer (link : net.Link b p c q x y) (role : x.role = .ROOT) :
    (net.bridge c).rootPathCost < (net.bridge b).rootPathCost := by
  obtain ⟨c', q', y', link', _, _, cost⟩ :=
    settled.follows_link (settled.stored_of_root link.left role)
  obtain ⟨rfl, rfl, rfl⟩ := link.unique link'
  have positive := settled.wellFormed.cost b p c' q' x y' link
  omega

theorem rootPort_unique {p' : Nat} {x' : Ieee8021dInterfaceData} (found : net.port b p = some x)
    (role : x.role = .ROOT) (found' : net.port b p' = some x') (role' : x'.role = .ROOT) :
    p' = p := by
  by_contra apart
  exact ((settled.stored_of_root found role).others p' x' apart found').1 role'

theorem designated_xor (smallest : ∀ b, (net.bridge r).id ≤ (net.bridge b).id)
    (link : net.Link b p c q x y) : Xor (x.role = .DESIGNATED) (y.role = .DESIGNATED) := by
  rcases lt_or_gt_of_ne (settled.offer_ne link) with less | greater
  · obtain ⟨designated, other, _⟩ := settled.designated_of_less smallest link less
    exact .inl ⟨designated, other⟩
  · obtain ⟨designated, other, _⟩ :=
      settled.designated_of_less smallest (settled.wellFormed.symmetric link) greater
    exact .inr ⟨designated, other⟩

/-- The root port of a bridge is the end of a link of the tree. -/
theorem treeLink_of_ne (smallest : ∀ b, (net.bridge r).id ≤ (net.bridge b).id)
    (apart : b ≠ r) : ∃ c p q, net.TreeLink b p c q := by
  obtain ⟨i, best, follows⟩ := settled.follows_of_ne smallest apart
  obtain ⟨c, q, y, link, _⟩ := settled.follows_link follows
  rcases settled.designated_xor smallest link with ⟨designated, _⟩ | ⟨designated, _⟩
  · rw [follows.role] at designated
    cases designated
  · exact ⟨c, i, q, best, y, link, follows.role, designated⟩

theorem treeLink_unique {c' : B} {p' q' : Nat} (link : net.TreeLink b p c q)
    (link' : net.TreeLink b p' c' q') : c' = c ∧ p' = p ∧ q' = q := by
  obtain ⟨x, y, link, role, _⟩ := link
  obtain ⟨x', y', link', role', _⟩ := link'
  obtain rfl := settled.rootPort_unique link.left role link'.left role'
  have same := link.left.symm.trans link'.left
  cases same
  obtain ⟨rfl, rfl, _⟩ := link.unique link'
  exact ⟨rfl, rfl, rfl⟩

theorem treeLink_apart (smallest : ∀ b, (net.bridge r).id ≤ (net.bridge b).id)
    (link : net.TreeLink b p c q) : b ≠ r := by
  rintro rfl
  obtain ⟨x, y, link, role, _⟩ := link
  have leads := settled.leads_smallest smallest
  have designated := leads.roles x (List.mem_of_getElem? link.left) (settled.enabled b p x link.left)
  rw [role] at designated
  cases designated

theorem treeGraph_isTree [Finite B]
    (smallest : ∀ b, (net.bridge r).id ≤ (net.bridge b).id) : net.treeGraph.IsTree := by
  have parents : ∀ b, ∃ c, b ≠ r → ∃ p q, net.TreeLink b p c q := by
    intro b
    by_cases apart : b = r
    · exact ⟨b, fun ne => absurd apart ne⟩
    · obtain ⟨c, p, q, link⟩ := settled.treeLink_of_ne smallest apart
      exact ⟨c, fun _ => ⟨p, q, link⟩⟩
  choose parent links using parents
  have nearer (b : B) (apart : b ≠ r) :
      (net.bridge (parent b)).rootPathCost < (net.bridge b).rootPathCost := by
    obtain ⟨p, q, x, y, link, role, _⟩ := links b apart
    exact settled.nearer link role
  have same : net.treeGraph = parentGraph r parent := by
    unfold treeGraph parentGraph
    congr 1
    funext b c
    refine propext ⟨?_, ?_⟩
    · rintro ⟨p, q, link⟩
      have apart := settled.treeLink_apart smallest link
      obtain ⟨p', q', link'⟩ := links b apart
      exact ⟨apart, (settled.treeLink_unique link' link).1⟩
    · rintro ⟨apart, rfl⟩
      exact links b apart
  rw [same]
  exact parentGraph_isTree (fun b => (net.bridge b).rootPathCost) nearer

end Settled

/-- A quiescent network of bridges that have held their elections is a spanning tree. -/
theorem settled_isSpanningTree [Finite B] [Nonempty B] (settled : net.Settled) :
    ∃ r, net.IsSpanningTree r := by
  obtain ⟨r, smallest⟩ := Finite.exists_min fun b => (net.bridge b).id
  refine ⟨r, ?_, smallest, fun b _ => settled.cost_isLeast smallest b, ?_, ?_,
    settled.treeGraph_isTree smallest, ?_⟩
  · intro b
    rw [← settled.leads_iff smallest]
    rcases settled.leads_or_follows b with leads | ⟨i, best, follows⟩
    · exact ⟨fun _ => leads, fun _ => leads.isRoot⟩
    · rw [follows.isRoot]
      exact ⟨nofun, fun leads => absurd leads.isRoot (follows.isRoot ▸ nofun)⟩
  · intro b apart
    obtain ⟨i, best, follows⟩ := settled.follows_of_ne smallest apart
    refine ⟨i, ⟨best, follows.port, follows.role⟩, ?_⟩
    rintro p ⟨x, found, role⟩
    exact settled.rootPort_unique follows.port follows.role found role
  · exact fun b p c q x y link => settled.designated_xor smallest link
  · intro b p c q link
    refine ⟨fun p' q' link' => (settled.treeLink_unique link link').2, ?_⟩
    rintro p' q' ⟨x', y', back, role', _⟩
    obtain ⟨x, y, link, role, _⟩ := link
    exact absurd (settled.nearer link role) (settled.nearer back role').not_gt

/-! ### Two bridges -/

/-- Two bridges with links between their first ports. -/
def pair (links : Nat) (left right : Stp) : Network Bool where
  bridge b := if b then right else left
  peer b p := if p < links then some (!b, p) else none

/-- The conditions of a network for a port of the first bridge and its peer. -/
def PortQuiet (near far : Stp) (p : Nat) (x y : Ieee8021dInterfaceData) : Prop :=
  (x.linkCost = y.linkCost ∧ 0 < x.linkCost) ∧
    (x.vector = (near.initInterfacedata x).vector ∨
      x.vector = (received x (far.generateBPDU p y)).vector) ∧
    (x.role = .DESIGNATED → far.handleBPDU p (near.generateBPDU p x) = far)

instance (near far : Stp) (p : Nat) (x y : Ieee8021dInterfaceData) :
    Decidable (PortQuiet near far p x y) :=
  inferInstanceAs (Decidable (_ ∧ _ ∧ (_ → _)))

/-- The conditions of a network for two bridges. -/
structure PairQuiet (links : Nat) (left right : Stp) : Prop where
  joined : 0 < links
  distinct : left.id ≠ right.id
  length : left.ports.length = links ∧ right.ports.length = links
  ports : ∀ p < links, ∀ x ∈ left.ports[p]?, ∀ y ∈ right.ports[p]?,
    PortQuiet left right p x y ∧ PortQuiet right left p y x

section

variable {links : Nat} {left right : Stp}

theorem Link.of_pair {b c : Bool}
    (link : (pair links left right).Link b p c q x y) : p < links ∧ c = (!b) ∧ q = p := by
  have peer := link.peer
  unfold pair at peer
  simp only at peer
  split at peer
  next inside =>
    cases peer
    exact ⟨inside, rfl, rfl⟩
  · cases peer

variable (quiet : PairQuiet links left right)

include quiet

theorem PairQuiet.port {b : Bool} (inside : p < links)
    (found : (pair links left right).port b p = some x)
    (other : (pair links left right).port (!b) p = some y) :
    PortQuiet ((pair links left right).bridge b) ((pair links left right).bridge !b) p x y := by
  cases b with
  | false => exact (quiet.ports p inside x found y other).1
  | true => exact (quiet.ports p inside y other x found).2

theorem PairQuiet.length_ports (b : Bool) :
    ((pair links left right).bridge b).ports.length = links := by
  cases b with
  | false => exact quiet.length.1
  | true => exact quiet.length.2

theorem PairQuiet.wellFormed : (pair links left right).WellFormed where
  symm b p c q peer := by
    unfold pair at peer ⊢
    simp only at peer ⊢
    split at peer
    next inside =>
      cases peer
      rw [if_pos inside, Bool.not_not]
    · cases peer
  apart b p c q peer := by
    unfold pair at peer
    simp only at peer
    split at peer
    · cases peer
      cases b <;> decide
    · cases peer
  ports b p c q peer := by
    unfold pair at peer
    simp only at peer
    split at peer
    next inside =>
      have length := quiet.length_ports b
      exact ⟨_, List.getElem?_eq_getElem (by omega)⟩
    · cases peer
  cost b p c q x y link := by
    obtain ⟨inside, rfl, rfl⟩ := link.of_pair
    exact (quiet.port inside link.left link.right).1
  distinct := by
    intro b c same
    have apart := quiet.distinct
    cases b <;> cases c
    · rfl
    · exact absurd same apart
    · exact absurd same.symm apart
    · rfl
  connected b c := by
    by_cases same : b = c
    · rw [same]
    · have other : c = !b := by cases b <;> cases c <;> simp_all
      refine .single ⟨0, 0, ?_⟩
      rw [other]
      exact if_pos quiet.joined

theorem PairQuiet.stored : (pair links left right).Stored := by
  intro b p x found
  have inside : p < links := by
    have length := quiet.length_ports b
    have bound := (List.getElem?_eq_some_iff.mp found).1
    omega
  have length := quiet.length_ports (!b)
  have other : (pair links left right).port (!b) p = some _ :=
    List.getElem?_eq_getElem (by omega)
  rcases (quiet.port inside found other).2.1 with initial | received
  · exact .inl initial
  · exact .inr ⟨!b, p, _, ⟨if_pos inside, found, other⟩, received⟩

theorem PairQuiet.quiescent : (pair links left right).Quiescent := by
  intro b p c q x y link designated
  obtain ⟨inside, rfl, rfl⟩ := link.of_pair
  exact (quiet.port inside link.left link.right).2.2 designated

end

/-- A port with the initial vector of a bridge. -/
def unheard (priority address linkCost : Nat) (role : PortRole) : Ieee8021dInterfaceData where
  priority := 128
  linkCost := linkCost
  role := role
  rootPriority := priority
  rootAddress := address
  rootPathCost := 0
  bridgePriority := priority
  bridgeAddress := address
  portPriority := 2 ^ 32 - 1
  portNum := 2 ^ 32 - 1
  maxAge := 20

/-- A bridge that takes itself for the root. -/
def leader (priority address : Nat) (maxAge : Int) (ports : List Ieee8021dInterfaceData)
    (desPorts : List Nat) : Stp where
  bridgePriority := priority
  bridgeAddress := address
  maxAge := maxAge
  ports := ports
  isRoot := true
  rootInterfaceId := 0
  desPorts := desPorts
  rootPathCost := 0
  rootPriority := priority
  rootAddress := address
  currentMaxAge := maxAge

/-- A port that stores the vector of the bridge of address 1. -/
def heard (priority linkCost portNum : Nat) (role : PortRole) : Ieee8021dInterfaceData where
  priority := 128
  linkCost := linkCost
  role := role
  rootPriority := priority
  rootAddress := 1
  rootPathCost := linkCost
  bridgePriority := priority
  bridgeAddress := 1
  portPriority := 128
  portNum := portNum
  maxAge := 20

/-- A bridge of address 2 that follows the bridge of address 1. -/
def follower (priority linkCost : Nat) (ports : List Ieee8021dInterfaceData)
    (desPorts : List Nat) : Stp where
  bridgePriority := 1
  bridgeAddress := 2
  maxAge := 20
  ports := ports
  isRoot := false
  rootInterfaceId := 0
  desPorts := desPorts
  rootPathCost := linkCost
  rootPriority := priority
  rootAddress := 1
  currentMaxAge := 20

/-- The second bridge follows the first one. -/
theorem tree_quiet : PairQuiet 1 (leader 1 1 20 [unheard 1 1 4 .DESIGNATED] [0])
    (follower 1 4 [heard 1 4 0 .ROOT] []) :=
  ⟨by decide, by decide, by decide, by decide⟩

theorem tree_settled : (pair 1 (leader 1 1 20 [unheard 1 1 4 .DESIGNATED] [0])
    (follower 1 4 [heard 1 4 0 .ROOT] [])).Settled where
  wellFormed := tree_quiet.wellFormed
  stored := tree_quiet.stored
  quiescent := tree_quiet.quiescent
  elected b := by
    cases b with
    | false => exact ⟨leader 1 1 20 [unheard 1 1 4 .DESIGNATED] [0], by decide⟩
    | true => exact ⟨follower 1 4 [heard 1 4 0 .ROOT] [], by decide⟩
  enabled b p x found := by
    have inside := List.mem_of_getElem? found
    cases b with
    | false =>
      obtain rfl := List.mem_singleton.mp inside
      decide
    | true =>
      obtain rfl := List.mem_singleton.mp inside
      decide
  maxAge b := by cases b <;> decide
  priority b := by cases b <;> decide
  cost b p c q x y link := by
    have inside := List.mem_of_getElem? link.left
    cases b with
    | false =>
      obtain rfl := List.mem_singleton.mp inside
      decide
    | true =>
      obtain rfl := List.mem_singleton.mp inside
      decide

theorem settled_isSpanningTree_pair : ∃ r,
    (pair 1 (leader 1 1 20 [unheard 1 1 4 .DESIGNATED] [0])
      (follower 1 4 [heard 1 4 0 .ROOT] [])).IsSpanningTree r :=
  settled_isSpanningTree tree_settled

/-! ### Networks that are no trees -/

/-- A quiescent network whose bridges store nothing but initial vectors and what their peers
send, and that is no spanning tree. -/
def Fails (net : Network Bool) : Prop :=
  net.WellFormed ∧ net.Stored ∧ net.Quiescent ∧ ¬ ∃ r, net.IsSpanningTree r

/-- A link with two designated ends, or with none. -/
theorem PairQuiet.fails {links : Nat} {left right : Stp} (quiet : PairQuiet links left right)
     (inside : p < links) (found : left.ports[p]? = some x)
    (other : right.ports[p]? = some y) (same : x.role = .DESIGNATED ↔ y.role = .DESIGNATED) :
    Fails (pair links left right) := by
  refine ⟨quiet.wellFormed, quiet.stored, quiet.quiescent, ?_⟩
  rintro ⟨r, spanning⟩
  have link : (pair links left right).Link false p true p x y := ⟨if_pos inside, found, other⟩
  rcases spanning.designated false p true p x y link with ⟨one, none⟩ | ⟨one, none⟩
  · exact none (same.mp one)
  · exact none (same.mpr one)

/-- The bridges have not held elections. -/
theorem unelected_fails : Fails (pair 1
    { leader 1 1 20 [unheard 1 1 4 .ALTERNATE] [] with isRoot := false }
    { leader 1 2 20 [unheard 1 2 4 .ALTERNATE] [] with isRoot := false }) :=
  PairQuiet.fails ⟨by decide, by decide, by decide, by decide⟩ (p := 0) (by decide) rfl rfl
    (by decide)

/-- The ports of bridges that take themselves for the root are disabled. -/
theorem disabled_fails : Fails (pair 1 (leader 1 1 20 [unheard 1 1 4 .DISABLED] [])
    (leader 1 2 20 [unheard 1 2 4 .DISABLED] [])) :=
  PairQuiet.fails ⟨by decide, by decide, by decide, by decide⟩ (p := 0) (by decide) rfl rfl
    (by decide)

/-- BPDUs are out of date when they are sent. -/
theorem outdated_fails : Fails (pair 1 (leader 1 1 0 [unheard 1 1 4 .DESIGNATED] [0])
    (leader 1 2 0 [unheard 1 2 4 .DESIGNATED] [0])) :=
  PairQuiet.fails ⟨by decide, by decide, by decide, by decide⟩ (p := 0) (by decide) rfl rfl
    (by decide)

/-- On the second of two links the cost of the second bridge wraps to zero. -/
theorem wrapped_fails : Fails (pair 2
    (leader 1 1 20 [unheard 1 1 (2 ^ 31) .DESIGNATED, unheard 1 1 (2 ^ 31) .DESIGNATED] [0, 1])
    (follower 1 (2 ^ 31) [heard 1 (2 ^ 31) 0 .ROOT, heard 1 (2 ^ 31) 1 .DESIGNATED] [1])) :=
  PairQuiet.fails ⟨by decide, by decide, by decide, by decide⟩ (p := 1) (by decide) rfl rfl
    (by decide)

/-- The priority 65536 of the first bridge becomes 0 in a BPDU, for which the second bridge, that
has the smaller identifier, follows it. -/
theorem truncated_fails : Fails (pair 1 (leader 65536 1 20 [unheard 65536 1 4 .DESIGNATED] [0])
    (follower 0 4 [heard 0 4 0 .ROOT] [])) := by
  have quiet : PairQuiet 1 (leader 65536 1 20 [unheard 65536 1 4 .DESIGNATED] [0])
      (follower 0 4 [heard 0 4 0 .ROOT] []) := ⟨by decide, by decide, by decide, by decide⟩
  refine ⟨quiet.wellFormed, quiet.stored, quiet.quiescent, ?_⟩
  rintro ⟨r, spanning⟩
  have root := (spanning.root false).mp rfl
  have smallest := spanning.smallest true
  rw [← root] at smallest
  exact absurd smallest (by decide)

/-- Networks that are quiescent and no spanning trees, of each kind that `Settled` excludes. -/
theorem quiescent_fails :
    Fails (pair 1 { leader 1 1 20 [unheard 1 1 4 .ALTERNATE] [] with isRoot := false }
      { leader 1 2 20 [unheard 1 2 4 .ALTERNATE] [] with isRoot := false }) ∧
    Fails (pair 1 (leader 1 1 20 [unheard 1 1 4 .DISABLED] [])
      (leader 1 2 20 [unheard 1 2 4 .DISABLED] [])) ∧
    Fails (pair 1 (leader 1 1 0 [unheard 1 1 4 .DESIGNATED] [0])
      (leader 1 2 0 [unheard 1 2 4 .DESIGNATED] [0])) ∧
    Fails (pair 2
      (leader 1 1 20 [unheard 1 1 (2 ^ 31) .DESIGNATED, unheard 1 1 (2 ^ 31) .DESIGNATED] [0, 1])
      (follower 1 (2 ^ 31) [heard 1 (2 ^ 31) 0 .ROOT, heard 1 (2 ^ 31) 1 .DESIGNATED] [1])) ∧
    Fails (pair 1 (leader 65536 1 20 [unheard 65536 1 4 .DESIGNATED] [0])
      (follower 0 4 [heard 0 4 0 .ROOT] [])) :=
  ⟨unelected_fails, disabled_fails, outdated_fails, wrapped_fails, truncated_fails⟩

end Network

end Inet.Ieee8021d
