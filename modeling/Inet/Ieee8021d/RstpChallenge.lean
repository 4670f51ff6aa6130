import Inet.Ieee8021d.RstpHandlers

/-!
# BPDUs and coherent roles

A BPDU that takes a port out of the contest, or lets one become the root port, keeps roles and timer
right under a condition on the state before.
-/
namespace Inet.Ieee8021d.Rstp

open Inet.Lib

attribute [local irreducible] asInt

variable {n : Nat} {s s' : Rstp n} {now : ℕ} {i : Fin n}

/-! ### A better root -/

/-- A port after it has been reset. -/
def resetData (s : Rstp n) (now : ℕ) (port : RstpInterfaceData) : RstpInterfaceData :=
  s.initData { port with
    role := .NOTASSIGNED
    state := .DISCARDING
    nextUpgrade := now + s.migrateTime }

theorem ports_resetPort (s : Rstp n) (now : ℕ) (i : Fin n) :
    (s.resetPort now i).ports = Function.update s.ports i (s.resetData now (s.ports i)) := by
  funext j
  by_cases same : j = i
  · rw [same]
    simp [resetPort, initInterfacedata, resetData, initData, scheduleNextUpgrade, modify]
  · simp [resetPort, initInterfacedata, same]

theorem Timely.resetPort (timely : Timely s now) (i : Fin n) : Timely (s.resetPort now i) now := by
  refine Timely.initInterfacedata (timely.reschedule fun t found => ?_) i
  simp only [due, Option.ite_none_right_eq_some, Option.some.injEq] at found
  omega

theorem foldl_resetPort (ports : List (Fin n)) (nodup : ports.Nodup) (timely : Timely s now) :
    ∀ t, t = ports.foldl (fun s j =>
      if ¬ (s.ports j).edge ∧ j ≠ i then s.resetPort now j else s) s →
    t.ownRoot = s.ownRoot ∧ Timely t now ∧ ∀ j, t.ports j =
      if j ∈ ports ∧ ¬ (s.ports j).edge ∧ j ≠ i then s.resetData now (s.ports j)
      else s.ports j := by
  induction ports generalizing s with
  | nil =>
    rintro t rfl
    exact ⟨rfl, timely, fun j => by simp⟩
  | cons k rest ih =>
    rintro t rfl
    obtain ⟨new, nodup⟩ := List.nodup_cons.mp nodup
    rw [List.foldl_cons]
    split
    · next reset =>
      obtain ⟨own, timely', ports⟩ := ih nodup (timely.resetPort k) _ rfl
      refine ⟨own, timely', fun j => ?_⟩
      rw [ports j, ports_resetPort]
      change (if _ then s.resetData now _ else _) = _
      by_cases same : j = k
      · subst same
        simp only [new, false_and, if_false, Function.update_self, List.mem_cons, true_or, true_and]
        rw [if_pos reset]
      · simp [same]
    · next kept =>
      obtain ⟨own, timely', ports⟩ := ih nodup timely _ rfl
      refine ⟨own, timely', fun j => ?_⟩
      rw [ports j]
      by_cases same : j = k
      · subst same
        rw [if_neg (by simp [new]), if_neg (fun h => kept h.2)]
      · simp [same]

theorem ports_resetOthers (timely : Timely s now) (j : Fin n) : (s.resetOthers now i).ports j =
    if ¬ (s.ports j).edge ∧ j ≠ i then s.resetData now (s.ports j) else s.ports j := by
  obtain ⟨_, _, ports⟩ := foldl_resetPort (i := i) (List.finRange n) (List.nodup_finRange n) timely
    _ rfl
  unfold Rstp.resetOthers
  rw [ports j]
  simp

theorem Timely.resetOthers (timely : Timely s now) (i : Fin n) :
    Timely (s.resetOthers now i) now :=
  (foldl_resetPort (i := i) (List.finRange n) (List.nodup_finRange n) timely _ rfl).2.1

theorem ownRoot_resetOthers (timely : Timely s now) : (s.resetOthers now i).ownRoot = s.ownRoot :=
  (foldl_resetPort (i := i) (List.finRange n) (List.nodup_finRange n) timely _ rfl).1

/-! ### Conditions -/

/-- The times at which ports are upgraded after those other than one have been reset. -/
def resetDues (s : Rstp n) (now : ℕ) (i j : Fin n) : Option ℕ :=
  if j = i ∨ (s.ports j).edge then s.dues j
  else if (s.ports j).hasCarrier then some (now + s.migrateTime) else none

theorem dues_resetOthers (timely : Timely s now) :
    (s.resetOthers now i).dues = s.resetDues now i := by
  funext j
  unfold dues resetDues
  rw [ports_resetOthers timely]
  by_cases same : j = i
  · simp [same, dues]
  · by_cases edge : (s.ports j).edge
    · simp [edge, dues]
    · rw [if_pos ⟨edge, same⟩, if_neg (by simp [same, edge])]
      simp [resetData, initData, due, waits]

/-- The port that a BPDU of the bridge itself takes out of the contest is not alone with the
earliest upgrade. -/
def RegularBackup (s : Rstp n) (frame : BpduCfg) (i : Fin n) : Prop :=
  if frame.portPriority < (s.ports i).portPriority ∨
      frame.portPriority = (s.ports i).portPriority ∧ frame.portNum < i then Spared s.dues i
  else ∀ inside : frame.portNum < n, Spared s.dues ⟨frame.portNum, inside⟩

/-- The root port that has to give way to a better root is not an edge port, and a port that leaves
the contest without a new schedule is not alone with the earliest upgrade. -/
def RegularChallenge (s : Rstp n) (now : ℕ) (frame : BpduCfg) (i r : Fin n) : CompareResult → Prop
  | .SIMILAR => Spared s.dues i
  | .BETTER_ROOT => ¬ (s.ports r).edge ∧ Spared (s.resetDues now i) i
  | .BETTER_RPC | .BETTER_SRC | .BETTER_PORT => ∀ case3,
    ((s.updateInterfacedata frame i).takeOver i r).contestInterfacedata r = .ok case3 →
      0 ≤ case3.value → Spared s.dues i
  | .WORSE_ROOT => True
  | .WORSE_RPC | .WORSE_SRC | .WORSE_PORT => ∀ case3,
    (s.updateInterfacedata frame i).contestBpdu frame i = .ok case3 →
      0 ≤ case3.value → Spared s.dues i

/-- A BPDU that is better than what its port stores and finds no root port is good enough for one. -/
def RegularBetter (s : Rstp n) (now : ℕ) (frame : BpduCfg) (i : Fin n) : Prop :=
  match s.getRootInterfaceId with
  | none => frame.root < s.ownRoot ∧ Spared s.dues i ∧
      ∀ j, j ≠ i → (s.ports j).role = .ALTERNATE →
        frame.offered (s.ports i).linkCost ≤ (s.ports j).stored
  | some r => r ≠ i → s.RegularChallenge now frame i r
      (s.compareInterfacedata r frame (s.ports i).linkCost)

/-! ### BPDUs -/

theorem handleBackup_keeps {frame : BpduCfg} (rooted : Rooted s) (timely : Timely s now)
    (regular : RegularBackup s frame i) (returned : s.handleBackup frame i = .ok s') :
    Rooted s' ∧ Timely s' now := by
  have idle : ∀ (k : Fin n) (role : PortRole), role = .BACKUP ∨ role = .DISABLED →
      Spared s.dues k → Rooted (s.setRoleState k role .DISCARDING) ∧
        Timely (s.setRoleState k role .DISCARDING) now := by
    intro k role out spared
    constructor
    · exact rooted.retire (i := k) rfl (fun j differ => by simp [setRoleState, differ])
        fun best => .of_idle (by simpa [setRoleState] using out) (by simp [setRoleState])
    · exact timely.leave spared (by rcases out with rfl | rfl <;> simp [due, waits])
  unfold RegularBackup at regular
  unfold handleBackup at returned
  split at regular
  · next first =>
    rw [if_pos first] at returned
    cases returned
    obtain ⟨rooted', timely'⟩ := idle i .BACKUP (.inl rfl) regular
    exact ⟨rooted'.setLostBPDU i 0, timely'.setLostBPDU i 0⟩
  · next first =>
    rw [if_neg first] at returned
    split at returned
    · next inside =>
      split at returned
      · cases returned
        obtain ⟨rooted', timely'⟩ := idle _ .BACKUP (.inl rfl) (regular inside)
        exact ⟨rooted'.setLostBPDU _ 0, timely'.setLostBPDU _ 0⟩
      · cases returned
        exact idle _ .DISABLED (.inr rfl) (regular inside)
    · cases returned

section
variable {frame : BpduCfg}

theorem root_updateInterfacedata : ((s.updateInterfacedata frame i).ports i).root = frame.root := by
  simp [updateInterfacedata, RstpInterfaceData.root, BpduCfg.root]

theorem stored_updateInterfacedata : ((s.updateInterfacedata frame i).ports i).stored =
    frame.offered (s.ports i).linkCost := by
  simp [updateInterfacedata, RstpInterfaceData.stored, BpduCfg.offered]

@[simp] theorem role_updateInterfacedata (j : Fin n) :
    ((s.updateInterfacedata frame i).ports j).role = (s.ports j).role := by
  unfold updateInterfacedata
  rw [ports_modify]
  split
  · next same => rw [same]
  · rfl

theorem getRootInterfaceId_updateInterfacedata :
    (s.updateInterfacedata frame i).getRootInterfaceId = s.getRootInterfaceId := by
  unfold getRootInterfaceId
  simp

theorem root_le_of_offered {linkCost : ℕ} {port : RstpInterfaceData}
    (le : frame.offered linkCost ≤ port.stored) : frame.root ≤ port.root := by
  rcases Prod.Lex.toLex_le_toLex.mp le with less | ⟨same, _⟩
  · exact less.le
  · exact same.le

/-- The arrival port becomes the root port. -/
theorem rooted_arrived (frame : BpduCfg) {t : Rstp n} (own : t.ownRoot = s.ownRoot)
    (arrival : (t.ports i).role = .ROOT ∧ (t.ports i).state = .FORWARDING ∧
      (t.ports i).root = frame.root ∧ (t.ports i).stored = frame.offered (s.ports i).linkCost)
    (better : frame.root < s.ownRoot)
    (others : ∀ j, j ≠ i →
      Follows s.ownRoot (some (frame.offered (s.ports i).linkCost)) (t.ports j)) : Rooted t := by
  obtain ⟨role, forwarding, root, stored⟩ := arrival
  refine .root i role forwarding ?_ fun j differ => ?_
  · rwa [root, own]
  · rw [stored, own]
    exact others j differ

theorem processBetterSource_eq {r : Fin n}
    (found : (s.updateInterfacedata frame i).getRootInterfaceId = some r) :
    s.processBetterSource now frame i = (s.updateInterfacedata frame i).challenge now frame i r
      ((s.updateInterfacedata frame i).compareInterfacedata r frame
        ((s.updateInterfacedata frame i).ports i).linkCost) := by
  unfold processBetterSource challengeRoot
  rw [found]

/-- A better BPDU on the root port leaves it the root port. -/
theorem rootPort_keeps (rooted : Rooted s) (timely : Timely s now) (role : (s.ports i).role = .ROOT)
    (improved : frame.offered (s.ports i).linkCost < (s.ports i).stored)
    (returned : s.processBetterSource now frame i = .ok s') : Rooted s' ∧ Timely s' now := by
  obtain ⟨forwarding, better, others⟩ := rooted.follows role
  have found : (s.updateInterfacedata frame i).getRootInterfaceId = some i := by
    cases h : (s.updateInterfacedata frame i).getRootInterfaceId with
    | none => exact absurd role (by simpa using getRootInterfaceId_eq_none h i)
    | some r =>
      have role' : (s.ports r).role = .ROOT := by simpa using getRootInterfaceId_eq_some h
      by_contra differ
      exact (others r (by rintro rfl; exact differ rfl)).role role'
  -- The BPDU is compared with the port that has stored it.
  have similar : (s.updateInterfacedata frame i).compareInterfacedata i frame
      ((s.updateInterfacedata frame i).ports i).linkCost = .SIMILAR := by
    have ranks := compareInterfacedata_ranks (s.updateInterfacedata frame i) i frame
      ((s.updateInterfacedata frame i).ports i).linkCost
    have cost : ((s.updateInterfacedata frame i).ports i).linkCost = (s.ports i).linkCost := by
      simp [updateInterfacedata]
    rw [stored_updateInterfacedata, cost] at ranks
    rw [cost]
    rcases ranks with ⟨less, _⟩ | ⟨_, similar⟩ | ⟨less, _⟩
    · exact absurd less (lt_irrefl _)
    · exact similar
    · exact absurd less (lt_irrefl _)
  rw [processBetterSource_eq found, similar] at returned
  rw [challenge] at returned
  rw [if_neg (by simp)] at returned
  cases returned
  constructor
  · refine rooted_arrived (i := i) (s := s) frame rfl ?_ ?_ fun j differ => ?_
    · simp [Rstp.setLostBPDU, setRoleState, updateInterfacedata, RstpInterfaceData.root,
        BpduCfg.root, RstpInterfaceData.stored, BpduCfg.offered]
    · exact (root_le_of_offered improved.le).trans_lt better
    · simp only [Rstp.setLostBPDU, setRoleState, updateInterfacedata, ports_modify_of_ne differ]
      exact (others j differ).trans improved.le
  · refine Timely.setLostBPDU (Timely.setRoleState (Timely.setRoleState
      (timely.updateInterfacedata frame i) ?_ (by decide)) ?_ (by decide)) _ _
    · apply due_of_role <;> simp [role]
    · apply due_of_role <;> simp [setRoleState]

@[simp] theorem ports_updateInterfacedata_of_ne {j : Fin n} (differ : j ≠ i) :
    (s.updateInterfacedata frame i).ports j = s.ports j := by
  simp [updateInterfacedata, differ]

@[simp] theorem ownRoot_updateInterfacedata :
    (s.updateInterfacedata frame i).ownRoot = s.ownRoot := rfl

theorem dues_updateInterfacedata : (s.updateInterfacedata frame i).dues = s.dues := dues_modify rfl

variable {r : Fin n}

/-- The port becomes an alternate, or stays one, beside a root port with the same root. -/
theorem rooted_alternate (rooted : Rooted s) (role : (s.ports r).role = .ROOT) (differ : r ≠ i)
    {t : Rstp n} (own : t.ownRoot = s.ownRoot) (kept : ∀ j, j ≠ i → t.ports j = s.ports j)
    (arrival : (t.ports i).role = .ALTERNATE ∧ (t.ports i).state = .DISCARDING ∧
      (t.ports i).root = frame.root ∧ (t.ports i).stored = frame.offered (s.ports i).linkCost)
    (better : frame.root < s.ownRoot)
    (worse : (s.ports r).stored ≤ frame.offered (s.ports i).linkCost) : Rooted t := by
  obtain ⟨alternate, discarding, root, stored⟩ := arrival
  obtain ⟨_, _, others⟩ := rooted.follows role
  refine rooted.replace own kept (others i differ.symm).role fun best isBest _ => ?_
  constructor
  · rw [alternate]
    decide
  · exact fun _ => discarding
  · intro _
    rwa [root]
  · rintro _ vector rfl
    obtain rfl : vector = (s.ports r).stored := by simpa using isBest r role
    rwa [stored]

theorem challenge_similar (rooted : Rooted s) (timely : Timely s now)
    (role : (s.ports r).role = .ROOT) (differ : r ≠ i) (spared : Spared s.dues i)
    (same : (s.ports r).stored = frame.offered (s.ports i).linkCost)
    (sameRoot : (s.ports r).root = frame.root)
    (returned : (s.updateInterfacedata frame i).challenge now frame i r .SIMILAR = .ok s') :
    Rooted s' ∧ Timely s' now := by
  obtain ⟨forwarding, better, others⟩ := rooted.follows role
  rw [sameRoot] at better
  rw [challenge] at returned
  split at returned
  · -- The root port has the better local port.
    cases returned
    constructor
    · refine rooted_alternate rooted role differ rfl (fun j other => ?_) ?_ better same.le
      · simp [Rstp.setLostBPDU, setRoleState, other]
      · simp [Rstp.setLostBPDU, setRoleState, updateInterfacedata, RstpInterfaceData.root,
          BpduCfg.root, RstpInterfaceData.stored, BpduCfg.offered]
    · refine Timely.setLostBPDU (Timely.leave (timely.updateInterfacedata frame i) ?_ ?_) _ _
      · rwa [dues_updateInterfacedata]
      · simp [due, waits]
  · cases returned
    constructor
    · refine rooted_arrived (i := i) (s := s) frame rfl ?_ better fun j other => ?_
      · simp [Rstp.setLostBPDU, setRoleState, updateInterfacedata, RstpInterfaceData.root,
          BpduCfg.root, RstpInterfaceData.stored, BpduCfg.offered, differ.symm]
      · simp only [Rstp.setLostBPDU, setRoleState, ports_modify_of_ne other]
        by_cases old : j = r
        · subst old
          rw [ports_modify_self, ports_updateInterfacedata_of_ne differ, ← same]
          constructor
          · simp
          · simp
          · intro _
            change (s.ports j).root < s.ownRoot
            rwa [sameRoot]
          · rintro _ vector same'
            cases same'
            exact le_refl _
        · rw [ports_modify_of_ne old, ports_updateInterfacedata_of_ne other]
          exact (others j old).trans same.ge
    · refine Timely.setLostBPDU (Timely.leave (Timely.setRoleState
        (timely.updateInterfacedata frame i) ?_ (by decide)) ?_ ?_) _ _
      · rw [ports_updateInterfacedata_of_ne differ]
        apply due_of_role <;> simp [role]
      · have kept : ((s.updateInterfacedata frame i).setRoleState r .ALTERNATE .DISCARDING).dues =
            s.dues := by
          unfold setRoleState
          rw [dues_modify, dues_updateInterfacedata]
          rw [ports_updateInterfacedata_of_ne differ, due_of_role (by simp) (by simp),
            due_of_role (by simp [role]) (by simp [role])]
        rwa [kept]
      · simp [due, waits]

theorem challenge_betterRoot (rooted : Rooted s) (timely : Timely s now)
    (role : (s.ports r).role = .ROOT) (edge : ¬ (s.ports r).edge)
    (spared : Spared (s.resetDues now i) i) (better : frame.root < s.ownRoot)
    (improved : frame.offered (s.ports i).linkCost ≤ (s.ports r).stored)
    (returned : (s.updateInterfacedata frame i).challenge now frame i r .BETTER_ROOT = .ok s') :
    Rooted s' ∧ Timely s' now := by
  obtain ⟨_, _, others⟩ := rooted.follows role
  have timely' := timely.updateInterfacedata frame i
  rw [challenge] at returned
  cases returned
  constructor
  · refine rooted_arrived (i := i) (s := s) frame (ownRoot_resetOthers timely') ?_ better
      fun j other => ?_
    · have arrival : ((s.updateInterfacedata frame i).resetOthers now i).ports i =
          (s.updateInterfacedata frame i).ports i := by
        rw [ports_resetOthers timely', if_neg (by simp)]
      simp only [Rstp.setLostBPDU, setRoleState, ports_modify_self, arrival]
      simp [updateInterfacedata, RstpInterfaceData.root, BpduCfg.root, RstpInterfaceData.stored,
        BpduCfg.offered]
    · simp only [Rstp.setLostBPDU, setRoleState, ports_modify_of_ne other, ports_resetOthers timely',
        ports_updateInterfacedata_of_ne other]
      by_cases client : (s.ports j).edge
      · rw [if_neg (by simp [client])]
        exact (others j (by rintro rfl; exact edge client)).trans improved
      · rw [if_pos ⟨client, other⟩]
        exact .of_active (.inl rfl)
  · refine Timely.setLostBPDU (Timely.leave (timely'.resetOthers i) ?_ ?_) _ _
    · rw [dues_resetOthers timely']
      have same : (s.updateInterfacedata frame i).resetDues now i = s.resetDues now i := by
        funext j
        unfold resetDues
        rw [dues_updateInterfacedata]
        by_cases here : j = i
        · simp [here]
        · rw [ports_updateInterfacedata_of_ne here]
          rfl
      rwa [same]
    · simp [due, waits]

theorem challenge_better {result : CompareResult} (rooted : Rooted s) (timely : Timely s now)
    (role : (s.ports r).role = .ROOT) (differ : r ≠ i)
    (kind : result = .BETTER_RPC ∨ result = .BETTER_SRC ∨ result = .BETTER_PORT)
    (spared : ∀ case3,
      ((s.updateInterfacedata frame i).takeOver i r).contestInterfacedata r = .ok case3 →
        0 ≤ case3.value → Spared s.dues i)
    (sameRoot : (s.ports r).root = frame.root)
    (improved : frame.offered (s.ports i).linkCost ≤ (s.ports r).stored)
    (returned : (s.updateInterfacedata frame i).challenge now frame i r result = .ok s') :
    Rooted s' ∧ Timely s' now := by
  obtain ⟨_, better, others⟩ := rooted.follows role
  have better' : frame.root < s.ownRoot := sameRoot ▸ better
  have other : ∀ j, j ≠ i → j ≠ r →
      ((s.updateInterfacedata frame i).takeOver i r).ports j = s.ports j := fun j arrival old => by
    simp [takeOver, Rstp.setLostBPDU, setRoleState, setRole, arrival, old]
  have arrival : (((s.updateInterfacedata frame i).takeOver i r).ports i).role = .ROOT ∧
      (((s.updateInterfacedata frame i).takeOver i r).ports i).state = .FORWARDING ∧
      (((s.updateInterfacedata frame i).takeOver i r).ports i).root = frame.root ∧
      (((s.updateInterfacedata frame i).takeOver i r).ports i).stored =
        frame.offered (s.ports i).linkCost := by
    simp [takeOver, Rstp.setLostBPDU, setRoleState, setRole, differ.symm, updateInterfacedata,
      RstpInterfaceData.root, BpduCfg.root, RstpInterfaceData.stored, BpduCfg.offered]
  have old : ((s.updateInterfacedata frame i).takeOver i r).ports r =
      { s.ports r with role := .ALTERNATE } := by
    simp [takeOver, Rstp.setLostBPDU, setRoleState, setRole, differ]
  have waiting : ∀ j, j ≠ i → ((s.updateInterfacedata frame i).takeOver i r).dues j =
      s.dues j := by
    intro j away
    unfold dues
    by_cases same : j = r
    · rw [same, old, due_of_role (by simp) (by simp),
        due_of_role (by simp [role]) (by simp [role])]
    · rw [other j away same]
  cases contest : ((s.updateInterfacedata frame i).takeOver i r).contestInterfacedata r with
  | error e =>
    rcases kind with rfl | rfl | rfl <;> rw [challenge, contest] at returned <;> cases returned
  | ok case3 =>
    have returned : (if case3.value ≥ 0 then
          .ok (((s.updateInterfacedata frame i).takeOver i r).setRoleState r .ALTERNATE .DISCARDING)
        else .ok (((s.updateInterfacedata frame i).takeOver i r).setDesignated now r) :
          Except String (Rstp n)) = .ok s' := by
      rcases kind with rfl | rfl | rfl <;> rwa [challenge, contest] at returned
    split at returned
    · next keep =>
      cases returned
      constructor
      · refine rooted_arrived (i := i) (s := s) frame rfl ?_ better'
          fun j away => ?_
        · simpa only [setRoleState, ports_modify_of_ne differ.symm] using arrival
        · unfold setRoleState
          by_cases same : j = r
          · rw [same, ports_modify_self, old]
            constructor
            · simp
            · simp
            · exact fun _ => better
            · rintro _ vector same'
              cases same'
              exact improved
          · rw [ports_modify_of_ne same, other j away same]
            exact (others j same).trans improved
      · refine Earliest.leave timely (spared case3 contest keep) ?_ fun j away => ?_
        · unfold dues setRoleState
          rw [ports_modify_of_ne differ.symm]
          exact due_of_role (by simp [arrival.1]) (by simp [arrival.1])
        · unfold setRoleState
          rw [dues_modify, waiting j away]
          rw [old]
          simp [due, waits]
    · cases returned
      constructor
      · refine rooted_arrived (i := i) (s := s) frame (by simp) ?_ better'
          fun j away => ?_
        · simpa only [setDesignated, ports_scheduleNextUpgrade, ports_modify_of_ne differ.symm]
            using arrival
        · unfold setDesignated
          rw [ports_scheduleNextUpgrade]
          by_cases same : j = r
          · rw [same, ports_modify_self]
            exact .of_active (.inr rfl)
          · rw [ports_modify_of_ne same, other j away same]
            exact (others j same).trans improved
      · refine timely_scheduleNextUpgrade fun j t found => ?_
        unfold dues at found
        by_cases same : j = r
        · rw [same, ports_modify_self] at found
          simp only [due, Option.ite_none_right_eq_some, Option.some.injEq] at found
          omega
        · rw [ports_modify_of_ne same] at found
          by_cases away : j = i
          · rw [away, due_of_role (by simp [arrival.1]) (by simp [arrival.1])] at found
            cases found
          · exact Earliest.future timely ((waiting j away).symm.trans found)

theorem challenge_worseRoot (rooted : Rooted s) (timely : Timely s now)
    (role : (s.ports r).role = .ROOT) (differ : r ≠ i)
    (improved : frame.offered (s.ports i).linkCost ≤ (s.ports i).stored)
    (worse : (s.ports r).stored ≤ frame.offered (s.ports i).linkCost)
    (returned : (s.updateInterfacedata frame i).challenge now frame i r .WORSE_ROOT = .ok s') :
    Rooted s' ∧ Timely s' now := by
  obtain ⟨_, _, others⟩ := rooted.follows role
  rw [challenge] at returned
  cases returned
  refine ⟨?_, timely.updateInterfacedata frame i⟩
  refine rooted.replace rfl (fun j away => by simp [away]) (others i differ.symm).role
    fun best isBest follows => ?_
  constructor
  · rw [role_updateInterfacedata]
    exact follows.role
  · intro idle
    rw [role_updateInterfacedata] at idle
    simpa [updateInterfacedata] using follows.discarding idle
  · intro alternate
    rw [role_updateInterfacedata] at alternate
    rw [root_updateInterfacedata]
    exact (root_le_of_offered improved).trans_lt (follows.better alternate)
  · rintro _ vector rfl
    obtain rfl : vector = (s.ports r).stored := by simpa using isBest r role
    rwa [stored_updateInterfacedata]

theorem challenge_worse {result : CompareResult} (rooted : Rooted s) (timely : Timely s now)
    (role : (s.ports r).role = .ROOT) (differ : r ≠ i)
    (kind : result = .WORSE_RPC ∨ result = .WORSE_SRC ∨ result = .WORSE_PORT)
    (spared : ∀ case3, (s.updateInterfacedata frame i).contestBpdu frame i = .ok case3 →
      0 ≤ case3.value → Spared s.dues i)
    (sameRoot : (s.ports r).root = frame.root)
    (worse : (s.ports r).stored ≤ frame.offered (s.ports i).linkCost)
    (returned : (s.updateInterfacedata frame i).challenge now frame i r result = .ok s') :
    Rooted s' ∧ Timely s' now := by
  obtain ⟨_, better, others⟩ := rooted.follows role
  have better' : frame.root < s.ownRoot := sameRoot ▸ better
  have timely' := timely.updateInterfacedata frame i
  cases contest : (s.updateInterfacedata frame i).contestBpdu frame i with
  | error e =>
    rcases kind with rfl | rfl | rfl <;> rw [challenge, contest] at returned <;> cases returned
  | ok case3 =>
    have returned : (if case3.value < 0 then
          .ok ((s.updateInterfacedata frame i).setDesignated now i)
        else
          .ok (((s.updateInterfacedata frame i).setRoleState i .ALTERNATE .DISCARDING).setLostBPDU
            i 0) : Except String (Rstp n)) = .ok s' := by
      rcases kind with rfl | rfl | rfl <;> rwa [challenge, contest] at returned
    split at returned
    · cases returned
      have designated : (((s.updateInterfacedata frame i).setDesignated now i).ports i).role =
          .DESIGNATED := by
        simp [setDesignated]
      refine ⟨?_, timely'.setDesignated i⟩
      refine rooted.retire (i := i) rfl (fun j away => ?_) fun best =>
        Follows.of_active (.inr designated)
      simp [setDesignated, away]
    · next keep =>
      cases returned
      constructor
      · refine rooted_alternate rooted role differ rfl (fun j away => ?_) ?_ better' worse
        · simp [Rstp.setLostBPDU, setRoleState, away]
        · simp [Rstp.setLostBPDU, setRoleState, updateInterfacedata, RstpInterfaceData.root,
            BpduCfg.root, RstpInterfaceData.stored, BpduCfg.offered]
      · refine Timely.setLostBPDU (Timely.leave timely' ?_ ?_) _ _
        · rw [dues_updateInterfacedata]
          exact spared case3 contest (by omega)
        · simp [due, waits]

theorem processBetterSource_keeps (rooted : Rooted s) (timely : Timely s now)
    (regular : RegularBetter s now frame i)
    (improved : frame.offered (s.ports i).linkCost < (s.ports i).stored)
    (returned : s.processBetterSource now frame i = .ok s') : Rooted s' ∧ Timely s' now := by
  unfold RegularBetter at regular
  cases found : s.getRootInterfaceId with
  | none =>
    rw [found] at regular
    obtain ⟨better, spared, best⟩ := regular
    have missing := getRootInterfaceId_eq_none found
    unfold processBetterSource challengeRoot at returned
    rw [getRootInterfaceId_updateInterfacedata, found] at returned
    cases returned
    constructor
    · refine rooted_arrived (i := i) (s := s) frame rfl ?_ better fun j away => ?_
      · simp [Rstp.setLostBPDU, setRoleState, updateInterfacedata, RstpInterfaceData.root,
          BpduCfg.root, RstpInterfaceData.stored, BpduCfg.offered]
      · simp only [Rstp.setLostBPDU, setRoleState, updateInterfacedata, ports_modify_of_ne away]
        exact { rooted.all_follow missing j with
          worse := fun alternate vector same => by
            cases same
            exact best j away alternate }
    · refine Timely.setLostBPDU (Timely.leave (timely.updateInterfacedata frame i) ?_ ?_) _ _
      · rwa [dues_updateInterfacedata]
      · simp [due, waits]
  | some r =>
    rw [found] at regular
    have role := getRootInterfaceId_eq_some found
    by_cases differ : r = i
    · subst differ
      exact rootPort_keeps rooted timely role improved returned
    · have regular := regular differ
      obtain ⟨_, better, others⟩ := rooted.follows role
      have compared : (s.updateInterfacedata frame i).compareInterfacedata r frame
          ((s.updateInterfacedata frame i).ports i).linkCost =
          s.compareInterfacedata r frame (s.ports i).linkCost := by
        have cost : ((s.updateInterfacedata frame i).ports i).linkCost = (s.ports i).linkCost := by
          simp [updateInterfacedata]
        unfold compareInterfacedata
        rw [ports_updateInterfacedata_of_ne differ, cost]
      rw [processBetterSource_eq (getRootInterfaceId_updateInterfacedata.trans found), compared]
        at returned
      have ranks := compareInterfacedata_ranks s r frame (s.ports i).linkCost
      have ranksRoot := compareInterfacedata_ranksRoot s r frame (s.ports i).linkCost
      generalize s.compareInterfacedata r frame (s.ports i).linkCost = result at *
      have up : 0 < result.value → frame.offered (s.ports i).linkCost ≤ (s.ports r).stored :=
        fun value => (ranks.better_iff.mp value).le
      have down : result.value < 0 → (s.ports r).stored ≤ frame.offered (s.ports i).linkCost :=
        fun value => (ranks.worse_iff.mp value).le
      cases result with
      | SIMILAR =>
        have same : (s.ports r).stored = frame.offered (s.ports i).linkCost := by
          rcases ranks with ⟨_, value⟩ | ⟨same, _⟩ | ⟨_, value⟩
          · exact absurd value (by decide)
          · exact same
          · exact absurd value (by decide)
        exact challenge_similar rooted timely role differ regular same ranksRoot returned
      | BETTER_ROOT =>
        exact challenge_betterRoot rooted timely role regular.1 regular.2
          (lt_trans ranksRoot better) (up (by decide)) returned
      | BETTER_RPC =>
        exact challenge_better rooted timely role differ (.inl rfl) regular ranksRoot
          (up (by decide)) returned
      | BETTER_SRC =>
        exact challenge_better rooted timely role differ (.inr (.inl rfl)) regular ranksRoot
          (up (by decide)) returned
      | BETTER_PORT =>
        exact challenge_better rooted timely role differ (.inr (.inr rfl)) regular ranksRoot
          (up (by decide)) returned
      | WORSE_ROOT =>
        exact challenge_worseRoot rooted timely role differ improved.le (down (by decide)) returned
      | WORSE_RPC =>
        exact challenge_worse rooted timely role differ (.inl rfl) regular ranksRoot
          (down (by decide)) returned
      | WORSE_SRC =>
        exact challenge_worse rooted timely role differ (.inr (.inl rfl)) regular ranksRoot
          (down (by decide)) returned
      | WORSE_PORT =>
        exact challenge_worse rooted timely role differ (.inr (.inr rfl)) regular ranksRoot
          (down (by decide)) returned

end

end Inet.Ieee8021d.Rstp
