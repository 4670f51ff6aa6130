import Inet.Ieee8021d.Rstp
import Inet.Lib.DueTimes

/-!
# The comparison of vectors

A comparison orders the vectors it is given lexicographically, and the result says whether their
roots differ. The best alternate is one whose vector is least.
-/
namespace Inet.Ieee8021d

variable {result : CompareResult} {α : Type}

/-- Priority and address of a root, as they are compared. -/
abbrev RstpRoot := ℤ ×ₗ ℕ

/-- Root, cost, priority and address of the bridge, priority and number of the port. The smaller one
is better. -/
abbrev RstpVector := RstpRoot ×ₗ ℤ ×ₗ ℤ ×ₗ ℕ ×ₗ ℤ ×ₗ ℤ

def rstpVector (rootPriority : ℤ) (rootAddress : ℕ) (rootPathCost bridgePriority : ℤ)
    (bridgeAddress : ℕ) (portPriority portNum : ℤ) : RstpVector :=
  toLex (toLex (rootPriority, rootAddress), toLex (rootPathCost, toLex (bridgePriority,
    toLex (bridgeAddress, toLex (portPriority, portNum)))))

/-- A result for two values of which the smaller one is better. -/
def Ranks {α : Type} [LT α] (result : CompareResult) (a b : α) : Prop :=
  (a < b ∧ result.value < 0) ∨ (a = b ∧ result = .SIMILAR) ∨ (b < a ∧ 0 < result.value)

theorem Ranks.worse_iff [Preorder α] {a b : α}
    (ranks : Ranks result a b) : result.value < 0 ↔ a < b := by
  rcases ranks with ⟨less, value⟩ | ⟨rfl, rfl⟩ | ⟨greater, value⟩
  · exact iff_of_true value less
  · simp [CompareResult.value]
  · exact iff_of_false value.not_gt greater.not_gt

theorem Ranks.better_iff [Preorder α] {a b : α}
    (ranks : Ranks result a b) : 0 < result.value ↔ b < a := by
  rcases ranks with ⟨less, value⟩ | ⟨rfl, rfl⟩ | ⟨greater, value⟩
  · exact iff_of_false value.not_gt less.not_gt
  · simp [CompareResult.value]
  · exact iff_of_true value greater

/-- The components of a vector are compared one after the other. -/
theorem Ranks.lex {β : Type} [LinearOrder α] [LT β] {worse better : CompareResult}
    {x y : α} {a b : β} (rest : Ranks result a b) (negative : worse.value < 0)
    (positive : 0 < better.value) :
    Ranks (if x ≠ y then if x < y then worse else better else result) (toLex (x, a))
      (toLex (y, b)) := by
  simp only [Ranks, Prod.Lex.toLex_lt_toLex, toLex_inj, Prod.mk.injEq]
  rcases lt_trichotomy x y with less | same | greater
  · exact .inl ⟨.inl less, by rwa [if_pos less.ne, if_pos less]⟩
  · rw [if_neg (not_not.mpr same)]
    rcases rest with ⟨less, value⟩ | ⟨equal, similar⟩ | ⟨greater, value⟩
    · exact .inl ⟨.inr ⟨same, less⟩, value⟩
    · exact .inr (.inl ⟨⟨same, equal⟩, similar⟩)
    · exact .inr (.inr ⟨.inr ⟨same.symm, greater⟩, value⟩)
  · exact .inr (.inr ⟨.inl greater, by rwa [if_pos greater.ne', if_neg greater.not_gt]⟩)

theorem Ranks.assoc {β γ : Type} [LinearOrder α] [LinearOrder β] [LinearOrder γ]
    {x x' : α} {y y' : β} {z z' : γ}
    (ranks : Ranks result (toLex (x, toLex (y, z))) (toLex (x', toLex (y', z')))) :
    Ranks result (toLex (toLex (x, y), z)) (toLex (toLex (x', y'), z')) := by
  simp only [Ranks, Prod.Lex.toLex_lt_toLex, toLex_inj, Prod.mk.injEq] at ranks ⊢
  grind

section
variable (rootPriority1 rootPriority2 : Int) (rootAddress1 rootAddress2 : Nat)
    (rootPathCost1 rootPathCost2 : Int) (bridgePriority1 bridgePriority2 : Int)
    (bridgeAddress1 bridgeAddress2 : Nat) (portPriority1 portPriority2 : Int)
    (portNum1 portNum2 : Int)

theorem compareRSTPData_ranks :
    Ranks (compareRSTPData rootPriority1 rootPriority2 rootAddress1 rootAddress2 rootPathCost1
      rootPathCost2 bridgePriority1 bridgePriority2 bridgeAddress1 bridgeAddress2 portPriority1
      portPriority2 portNum1 portNum2)
      (rstpVector rootPriority1 rootAddress1 rootPathCost1 bridgePriority1 bridgeAddress1
        portPriority1 portNum1)
      (rstpVector rootPriority2 rootAddress2 rootPathCost2 bridgePriority2 bridgeAddress2
        portPriority2 portNum2) := by
  have port : Ranks (if portNum1 ≠ portNum2 then
      if portNum1 < portNum2 then .WORSE_PORT else .BETTER_PORT else .SIMILAR)
      portNum1 portNum2 := by
    unfold Ranks
    split_ifs with differ less
    · exact .inl ⟨less, by decide⟩
    · exact .inr (.inr ⟨by omega, by decide⟩)
    · exact .inr (.inl ⟨not_not.mp differ, rfl⟩)
  refine Ranks.assoc (.lex (.lex (.lex (.lex (.lex (.lex port ?_ ?_) ?_ ?_) ?_ ?_) ?_ ?_) ?_ ?_)
    ?_ ?_) <;> decide

/-- Only the results about roots compare vectors with different roots. -/
def RanksRoot (result : CompareResult) (a b : RstpRoot) : Prop :=
  match result with
  | .WORSE_ROOT => a < b
  | .BETTER_ROOT => b < a
  | _ => a = b

theorem compareRSTPData_ranksRoot :
    RanksRoot (compareRSTPData rootPriority1 rootPriority2 rootAddress1 rootAddress2 rootPathCost1
      rootPathCost2 bridgePriority1 bridgePriority2 bridgeAddress1 bridgeAddress2 portPriority1
      portPriority2 portNum1 portNum2) (toLex (rootPriority1, rootAddress1))
      (toLex (rootPriority2, rootAddress2)) := by
  unfold RanksRoot
  simp only [Prod.Lex.toLex_lt_toLex, toLex_inj, Prod.mk.injEq]
  unfold compareRSTPData
  split_ifs <;> simp only <;> omega

end

/-! ### Vectors of ports and of BPDUs -/

namespace RstpInterfaceData

def root (port : RstpInterfaceData) : RstpRoot := toLex (asInt port.rootPriority, port.rootAddress)

/-- The best vector that the port has received. -/
def stored (port : RstpInterfaceData) : RstpVector :=
  rstpVector (asInt port.rootPriority) port.rootAddress (asInt port.rootPathCost)
    (asInt port.bridgePriority) port.bridgeAddress (asInt port.portPriority) (asInt port.portNum)

end RstpInterfaceData

namespace BpduCfg

def root (frame : BpduCfg) : RstpRoot := toLex (asInt frame.rootPriority, frame.rootAddress)

/-- The vector of a BPDU at a port with the given cost. -/
def offered (frame : BpduCfg) (linkCost : Nat) : RstpVector :=
  rstpVector (asInt frame.rootPriority) frame.rootAddress
    (asInt (addCost frame.rootPathCost linkCost)) (asInt frame.bridgePriority) frame.bridgeAddress
    (asInt frame.portPriority) (asInt frame.portNum)

end BpduCfg

namespace Rstp
variable {n : Nat} {s : Rstp n}

/-- The bridge as a root. -/
def ownRoot (s : Rstp n) : RstpRoot := toLex (asInt s.bridgePriority, s.bridgeAddress)

theorem compareInterfacedata_ranks (s : Rstp n) (i : Fin n) (msg : BpduCfg) (linkCost : Nat) :
    Ranks (s.compareInterfacedata i msg linkCost) (s.ports i).stored (msg.offered linkCost) := by
  simp only [compareInterfacedata, RstpInterfaceData.stored, BpduCfg.offered, compareRSTPData_ranks]

theorem compareInterfacedata_ranksRoot (s : Rstp n) (i : Fin n) (msg : BpduCfg) (linkCost : Nat) :
    RanksRoot (s.compareInterfacedata i msg linkCost) (s.ports i).root msg.root := by
  simp only [compareInterfacedata, RstpInterfaceData.root, BpduCfg.root, compareRSTPData_ranksRoot]

theorem getRootInterfaceId_eq_some {r : Fin n} (found : s.getRootInterfaceId = some r) :
    (s.ports r).role = .ROOT := by
  simpa using List.find?_some found

theorem getRootInterfaceId_eq_none (missing : s.getRootInterfaceId = none) (i : Fin n) :
    (s.ports i).role ≠ .ROOT := by
  simpa using List.find?_eq_none.mp missing i (List.mem_finRange i)

theorem getBestAlternate_eq (s : Rstp n) : s.getBestAlternate =
    ((List.finRange n).filter fun j => (s.ports j).role = .ALTERNATE).argmin
      fun j => (s.ports j).stored := by
  unfold getBestAlternate List.argmin
  congr 1
  funext candidate j
  cases candidate with
  | none => rfl
  | some k =>
    have ranks : Ranks (s.comparePorts j k) (s.ports j).stored (s.ports k).stored :=
      compareRSTPData_ranks ..
    simp only [ranks.worse_iff, List.argAux]

theorem getBestAlternate_eq_some {k : Fin n} (found : s.getBestAlternate = some k) :
    (s.ports k).role = .ALTERNATE ∧
      ∀ j, (s.ports j).role = .ALTERNATE → (s.ports k).stored ≤ (s.ports j).stored := by
  rw [getBestAlternate_eq] at found
  refine ⟨by simpa using List.argmin_mem found, fun j alternate => ?_⟩
  have member : j ∈ (List.finRange n).filter fun j => (s.ports j).role = .ALTERNATE := by simpa
  exact List.le_of_mem_argmin (f := fun j => (s.ports j).stored) member found

theorem getBestAlternate_eq_none (missing : s.getBestAlternate = none) (j : Fin n) :
    (s.ports j).role ≠ .ALTERNATE := by
  rw [getBestAlternate_eq, List.argmin_eq_none] at missing
  simpa using List.filter_eq_nil_iff.mp missing j (List.mem_finRange j)

end Rstp

end Inet.Ieee8021d

/-!
## Coherent roles

What the roles, states and stored vectors of the ports of a bridge have to do with each other, and
how a change of one port keeps it.
-/
namespace Inet.Ieee8021d

open Inet.Lib

namespace Rstp
variable {n : Nat} {s s' : Rstp n} {now : ℕ}

/-! ### The fields after a change -/

theorem ports_modify (s : Rstp n) (i j : Fin n) (f : RstpInterfaceData → RstpInterfaceData) :
    (s.modify i f).ports j = if j = i then f (s.ports i) else s.ports j := by
  simp [modify, Function.update_apply]

@[simp] theorem ports_modify_self (s : Rstp n) (i : Fin n)
    (f : RstpInterfaceData → RstpInterfaceData) : (s.modify i f).ports i = f (s.ports i) := by
  simp [ports_modify]

@[simp] theorem ports_modify_of_ne {i j : Fin n} (differ : j ≠ i) (s : Rstp n)
    (f : RstpInterfaceData → RstpInterfaceData) : (s.modify i f).ports j = s.ports j := by
  simp [ports_modify, differ]

@[simp] theorem ownRoot_modify (s : Rstp n) (i : Fin n)
    (f : RstpInterfaceData → RstpInterfaceData) : (s.modify i f).ownRoot = s.ownRoot := rfl

@[simp] theorem ports_scheduleNextUpgrade (s : Rstp n) : s.scheduleNextUpgrade.ports = s.ports := rfl

@[simp] theorem ownRoot_scheduleNextUpgrade (s : Rstp n) :
    s.scheduleNextUpgrade.ownRoot = s.ownRoot := rfl

/-! ### The upgrade timer -/

/-- The time at which a port is upgraded. -/
def due (port : RstpInterfaceData) : Option ℕ := if waits port then some port.nextUpgrade else none

def dues (s : Rstp n) (i : Fin n) : Option ℕ := due (s.ports i)

/-- The timer is set as it has to be. -/
def Timely (s : Rstp n) (now : ℕ) : Prop := Earliest s.dues s.upgradeTimer now

theorem nextInterface_eq (s : Rstp n) : s.nextInterface =
    ((List.finRange n).filter fun i => waits (s.ports i)).argmin
      fun i => (s.ports i).nextUpgrade := by
  unfold nextInterface List.argmin
  congr 1
  funext next i
  cases next <;> rfl

theorem timely_scheduleNextUpgrade (future : ∀ i t, s.dues i = some t → now ≤ t) :
    Timely s.scheduleNextUpgrade now := by
  have timer : s.scheduleNextUpgrade.upgradeTimer =
      (((List.finRange n).filter fun i => waits (s.ports i)).argmin
        fun i => (s.ports i).nextUpgrade).map fun i => (s.ports i).nextUpgrade := by
    rw [← nextInterface_eq]
    rfl
  unfold Timely
  rw [timer]
  refine Earliest.of_argmin (fun i t found => ?_) (fun i member => ?_) future
  · change due (s.ports i) = some t at found
    simp only [due, Option.ite_none_right_eq_some, Option.some.injEq] at found
    exact ⟨by simpa using found.1, found.2⟩
  · exact if_pos (by simpa using member)

/-- Changes that nothing about upgrades depends on. -/
theorem dues_modify {i : Fin n} {f : RstpInterfaceData → RstpInterfaceData}
    (same : due (f (s.ports i)) = due (s.ports i)) : (s.modify i f).dues = s.dues := by
  funext j
  by_cases h : j = i
  · rw [h]
    simpa [dues] using same
  · simp [dues, h]

theorem Timely.modify {i : Fin n} {f : RstpInterfaceData → RstpInterfaceData}
    (timely : Timely s now) (same : due (f (s.ports i)) = due (s.ports i)) :
    Timely (s.modify i f) now := by
  unfold Timely
  rw [dues_modify same]
  exact timely

/-- A port that waits no longer, or begins to wait for a time in the future. -/
theorem Timely.reschedule {i : Fin n} {f : RstpInterfaceData → RstpInterfaceData}
    (timely : Timely s now) (future : ∀ t, due (f (s.ports i)) = some t → now ≤ t) :
    Timely (s.modify i f).scheduleNextUpgrade now := by
  refine timely_scheduleNextUpgrade fun j t found => ?_
  by_cases h : j = i
  · rw [h] at found
    exact future t (by simpa [dues] using found)
  · exact Earliest.future timely (i := j) (by simpa [dues, h] using found)

/-- A port that waits no longer, without a change of the timer. -/
theorem Timely.leave {i : Fin n} {f : RstpInterfaceData → RstpInterfaceData}
    (timely : Timely s now) (spared : Spared s.dues i) (left : due (f (s.ports i)) = none) :
    Timely (s.modify i f) now :=
  Earliest.leave timely spared (by simpa [dues] using left)
    fun j differ => by simp [dues, differ]

theorem Timely.setDesignated (timely : Timely s now) (i : Fin n) :
    Timely (s.setDesignated now i) now := by
  refine timely.reschedule fun t found => ?_
  simp only [due, Option.ite_none_right_eq_some, Option.some.injEq] at found
  omega

/-! ### Roles -/

/-- A port beside a root port that stores the given vector, if there is one. -/
structure Follows (own : RstpRoot) (best : Option RstpVector) (port : RstpInterfaceData) : Prop where
  role : port.role ≠ .ROOT
  discarding : port.role = .ALTERNATE ∨ port.role = .BACKUP ∨ port.role = .DISABLED →
    port.state = .DISCARDING
  better : port.role = .ALTERNATE → port.root < own
  worse : port.role = .ALTERNATE → ∀ vector, best = some vector → vector ≤ port.stored

namespace Follows
variable {own : RstpRoot} {best : Option RstpVector} {port : RstpInterfaceData}

theorem of_active (active : port.role = .NOTASSIGNED ∨ port.role = .DESIGNATED) :
    Follows own best port := by
  constructor <;> grind

theorem of_idle (idle : port.role = .BACKUP ∨ port.role = .DISABLED)
    (discarding : port.state = .DISCARDING) : Follows own best port := by
  constructor <;> grind

theorem forget (follows : Follows own best port) : Follows own none port :=
  { follows with worse := by simp }

theorem trans {vector vector' : RstpVector} (follows : Follows own (some vector) port)
    (le : vector' ≤ vector) : Follows own (some vector') port :=
  { follows with
    worse := fun alternate v same => by
      cases same
      exact le.trans (follows.worse alternate vector rfl) }

/-- The port announces something else, or nothing new. -/
theorem congr {port' : RstpInterfaceData} (follows : Follows own best port)
    (role : port'.role = port.role) (state : port'.state = port.state)
    (root : port.role = .ALTERNATE → port'.root = port.root)
    (stored : port.role = .ALTERNATE → port'.stored = port.stored) : Follows own best port' := by
  constructor
  · rw [role]
    exact follows.role
  · rw [role, state]
    exact follows.discarding
  · intro alternate
    rw [role] at alternate
    rw [root alternate]
    exact follows.better alternate
  · intro alternate
    rw [role] at alternate
    rw [stored alternate]
    exact follows.worse alternate

end Follows

/-- There is a root port that all others follow, or there is none. -/
inductive Rooted (s : Rstp n) : Prop
  | root (r : Fin n) (role : (s.ports r).role = .ROOT) (forwarding : (s.ports r).state = .FORWARDING)
      (better : (s.ports r).root < s.ownRoot)
      (others : ∀ j, j ≠ r → Follows s.ownRoot (some (s.ports r).stored) (s.ports j)) : Rooted s
  | rootless (all : ∀ j, Follows s.ownRoot none (s.ports j)) : Rooted s

namespace Rooted

theorem follows (rooted : Rooted s) {r : Fin n} (role : (s.ports r).role = .ROOT) :
    (s.ports r).state = .FORWARDING ∧ (s.ports r).root < s.ownRoot ∧
      ∀ j, j ≠ r → Follows s.ownRoot (some (s.ports r).stored) (s.ports j) := by
  cases rooted with
  | root r' _ forwarding better others =>
    obtain rfl : r = r' := by
      by_contra differ
      exact (others r differ).role role
    exact ⟨forwarding, better, others⟩
  | rootless all => exact absurd role (all r).role

theorem all_follow (rooted : Rooted s) (missing : ∀ i, (s.ports i).role ≠ .ROOT) (j : Fin n) :
    Follows s.ownRoot none (s.ports j) := by
  cases rooted with
  | root r role => exact absurd role (missing r)
  | rootless all => exact all j

/-- Whatever the root port is, another port follows it. -/
theorem follows_of_ne (rooted : Rooted s) {j : Fin n} (role : (s.ports j).role ≠ .ROOT) :
    Follows s.ownRoot none (s.ports j) := by
  cases rooted with
  | root r role' _ _ others => exact (others j (by rintro rfl; exact role role')).forget
  | rootless all => exact all j

/-- Ports with the same roles, states and vectors. -/
theorem congr (rooted : Rooted s) (own : s'.ownRoot = s.ownRoot)
    (same : ∀ j, (s'.ports j).role = (s.ports j).role ∧ (s'.ports j).state = (s.ports j).state ∧
      (s'.ports j).root = (s.ports j).root ∧ (s'.ports j).stored = (s.ports j).stored) :
    Rooted s' := by
  cases rooted with
  | root r role forwarding better others =>
    obtain ⟨role', state', root', stored'⟩ := same r
    refine .root r (role'.trans role) (state'.trans forwarding) ?_ fun j differ => ?_
    · rwa [root', own]
    · obtain ⟨role', state', root', stored'⟩ := same j
      rw [own, (same r).2.2.2]
      exact (others j differ).congr role' state' (fun _ => root') fun _ => stored'
  | rootless all =>
    refine .rootless fun j => ?_
    obtain ⟨role', state', root', stored'⟩ := same j
    rw [own]
    exact (all j).congr role' state' (fun _ => root') fun _ => stored'

theorem scheduleNextUpgrade (rooted : Rooted s) : Rooted s.scheduleNextUpgrade :=
  rooted.congr (ownRoot_scheduleNextUpgrade s) fun _ => ⟨rfl, rfl, rfl, rfl⟩

/-- A change of a port that neither its role nor its state nor its vector depends on. -/
theorem touch (rooted : Rooted s) (i : Fin n) {f : RstpInterfaceData → RstpInterfaceData}
    (same : ∀ port, (f port).role = port.role ∧ (f port).state = port.state ∧
      (f port).root = port.root ∧ (f port).stored = port.stored) : Rooted (s.modify i f) := by
  refine rooted.congr rfl fun j => ?_
  by_cases here : j = i
  · rw [here, ports_modify_self]
    exact same _
  · rw [ports_modify_of_ne here]
    exact ⟨rfl, rfl, rfl, rfl⟩

/-- A port that is not the root port changes to one that follows the same root port. -/
theorem replace {i : Fin n} (rooted : Rooted s) (own : s'.ownRoot = s.ownRoot)
    (kept : ∀ j, j ≠ i → s'.ports j = s.ports j) (role : (s.ports i).role ≠ .ROOT)
    (changed : ∀ best, (∀ r, (s.ports r).role = .ROOT → best = some (s.ports r).stored) →
      Follows s.ownRoot best (s.ports i) → Follows s.ownRoot best (s'.ports i)) : Rooted s' := by
  cases rooted with
  | root r role' forwarding better others =>
    have differ : r ≠ i := by
      rintro rfl
      exact role role'
    have same := kept r differ
    refine .root r (by rwa [same]) (by rwa [same]) (by rwa [same, own]) fun j differ' => ?_
    rw [own, same]
    by_cases arrived : j = i
    · subst arrived
      refine changed _ (fun r' other => ?_) (others j differ')
      -- There is no other root port.
      by_contra different
      have : r' ≠ r := by
        rintro rfl
        exact different rfl
      exact (others r' this).role other
    · rw [kept j arrived]
      exact others j differ'
  | rootless all =>
    refine .rootless fun j => ?_
    rw [own]
    by_cases arrived : j = i
    · subst arrived
      exact changed _ (fun r other => absurd other (all r).role) (all j)
    · rw [kept j arrived]
      exact all j

/-- A port, the root port or not, changes to one that follows any root port. -/
theorem retire {i : Fin n} (rooted : Rooted s) (own : s'.ownRoot = s.ownRoot)
    (kept : ∀ j, j ≠ i → s'.ports j = s.ports j)
    (follows : ∀ best, Follows s.ownRoot best (s'.ports i)) : Rooted s' := by
  by_cases role : (s.ports i).role = .ROOT
  · obtain ⟨_, _, others⟩ := rooted.follows role
    refine .rootless fun j => ?_
    rw [own]
    by_cases same : j = i
    · rw [same]
      exact follows none
    · rw [kept j same]
      exact (others j same).forget
  · exact rooted.replace own kept role fun best _ _ => follows best

end Rooted

end Rstp

end Inet.Ieee8021d
