import Inet.Ieee8021d.RstpCoherence

/-!
# Start and timers keep the roles coherent

The handlers of the upgrade timer and of the hello timer keep roles and timer right, without a
condition.
-/
namespace Inet.Ieee8021d.Rstp

open Inet.Lib

attribute [local irreducible] asInt

variable {n : Nat} {s s' : Rstp n} {now : ℕ} {i : Fin n}

/-! ### Changes of a port -/

@[simp] theorem due_initData (s : Rstp n) (port : RstpInterfaceData) :
    due (s.initData port) = due port := rfl

theorem Timely.initInterfacedata (timely : Timely s now) (i : Fin n) :
    Timely (s.initInterfacedata i) now := timely.modify rfl

theorem Timely.updateInterfacedata (timely : Timely s now) (frame : BpduCfg) (i : Fin n) :
    Timely (s.updateInterfacedata frame i) now := timely.modify rfl

theorem Timely.setLostBPDU (timely : Timely s now) (i : Fin n) (lostBPDU : Nat) :
    Timely (s.setLostBPDU i lostBPDU) now := timely.modify rfl

theorem Rooted.setLostBPDU (rooted : Rooted s) (i : Fin n) (lostBPDU : Nat) :
    Rooted (s.setLostBPDU i lostBPDU) := rooted.touch i fun _ => ⟨rfl, rfl, rfl, rfl⟩

/-- A port that does not wait becomes the root port or an alternate, or leaves the contest. -/
theorem Timely.setRoleState {role : PortRole} {state : PortState} (timely : Timely s now)
    (idle : due (s.ports i) = none) (active : role ≠ .NOTASSIGNED ∧ role ≠ .DESIGNATED) :
    Timely (s.setRoleState i role state) now := by
  refine timely.modify ?_
  rw [idle]
  simp [due, waits, active]

theorem due_of_role {port : RstpInterfaceData} (role : port.role ≠ .NOTASSIGNED)
    (designated : port.role ≠ .DESIGNATED) : due port = none := by
  simp [due, waits, role, designated]

@[simp] theorem ownRoot_setDesignated (s : Rstp n) (now : ℕ) (i : Fin n) :
    (s.setDesignated now i).ownRoot = s.ownRoot := by
  unfold setDesignated
  rw [ownRoot_scheduleNextUpgrade, ownRoot_modify]

@[simp] theorem ownRoot_takeOver (s : Rstp n) (i r : Fin n) :
    (s.takeOver i r).ownRoot = s.ownRoot := rfl

/-! ### Start -/

theorem rooted_initPorts (s : Rstp n) (now : ℕ) : Rooted (s.initPorts now) := by
  refine .rootless fun j => .of_active ?_
  change (s.initPort now (s.ports j)).role = _ ∨ (s.initPort now (s.ports j)).role = _
  unfold initPort
  split
  · exact .inr rfl
  · exact .inl rfl

/-- All ports that wait do so for the same time. -/
theorem due_initPorts {t : ℕ} (found : (s.initPorts now).dues i = some t) :
    t = now + s.migrateTime := by
  change due (s.initPort now (s.ports i)) = some t at found
  unfold initPort at found
  split at found
  · simp [due, waits] at found
  · simp only [due, Option.ite_none_right_eq_some, Option.some.injEq] at found
    exact found.2.symm

theorem timely_initPorts (s : Rstp n) (now : ℕ) : Timely (s.initPorts now) now := by
  refine timely_scheduleNextUpgrade fun i t found => ?_
  rw [due_initPorts (s := s) found]
  omega

/-! ### Timers -/

theorem rooted_handleUpgrade (rooted : Rooted s) : Rooted (s.handleUpgrade now) := by
  have same : ∀ j, (s.ports j).role ≠ .NOTASSIGNED → (s.ports j).role ≠ .DESIGNATED →
      (s.handleUpgrade now).ports j = s.ports j := by
    intro j role designated
    change s.upgradePort now (s.ports j) = s.ports j
    unfold upgradePort
    simp [role, designated]
  have active : ∀ j, (s.ports j).role = .NOTASSIGNED ∨ (s.ports j).role = .DESIGNATED →
      ((s.handleUpgrade now).ports j).role = .NOTASSIGNED ∨
        ((s.handleUpgrade now).ports j).role = .DESIGNATED := by
    intro j role
    change (s.upgradePort now (s.ports j)).role = _ ∨ (s.upgradePort now (s.ports j)).role = _
    unfold upgradePort
    grind
  have follows : ∀ best j, Follows s.ownRoot best (s.ports j) →
      Follows s.ownRoot best ((s.handleUpgrade now).ports j) := by
    intro best j follows
    by_cases role : (s.ports j).role = .NOTASSIGNED ∨ (s.ports j).role = .DESIGNATED
    · exact .of_active (active j role)
    · rw [same j (fun h => role (.inl h)) fun h => role (.inr h)]
      exact follows
  cases rooted with
  | root r role forwarding better others =>
    have kept := same r (by simp [role]) (by simp [role])
    refine .root r (by rwa [kept]) (by rwa [kept]) (by rw [kept]; exact better) fun j differ => ?_
    rw [kept]
    exact follows _ j (others j differ)
  | rootless all => exact .rootless fun j => follows _ j (all j)

theorem timely_handleUpgrade (timely : Timely s now) : Timely (s.handleUpgrade now) now := by
  refine timely_scheduleNextUpgrade fun j t found => ?_
  change due (s.upgradePort now (s.ports j)) = some t at found
  have future : ∀ t, due (s.ports j) = some t → now ≤ t := fun t found =>
    Earliest.future timely (i := j) found
  unfold upgradePort due waits at found
  unfold due waits at future
  grind

theorem rooted_expirePort (rooted : Rooted s)
    (role : (s.ports i).role = .ROOT ∨ (s.ports i).role = .ALTERNATE ∨ (s.ports i).role = .BACKUP) :
    Rooted (s.expirePort now i) := by
  unfold expirePort
  split
  · next root =>
    split
    · next c found =>
      refine Rooted.setLostBPDU (Rooted.setLostBPDU ?_ _ _) _ _
      obtain ⟨alternate, least⟩ := getBestAlternate_eq_some found
      obtain ⟨_, _, others⟩ := rooted.follows root
      have differ : c ≠ i := by
        rintro rfl
        simp [root] at alternate
      have candidate : ((s.setDesignated now i).initInterfacedata i).ports c = s.ports c := by
        simp [initInterfacedata, setDesignated, differ]
      refine .root c ?_ ?_ ?_ fun j other => ?_
      · simp [setRoleState]
      · simp [setRoleState]
      · simp only [setRoleState, ports_modify_self, candidate]
        exact (others c differ).better alternate
      · simp only [setRoleState, ports_modify_of_ne other, ports_modify_self, candidate]
        by_cases same : j = i
        · subst same
          refine .of_active (.inr ?_)
          simp [initInterfacedata, setDesignated, initData]
        · simp only [initInterfacedata, setDesignated, ports_modify_of_ne same,
            ports_scheduleNextUpgrade]
          exact { (others j same) with
            worse := fun alternate' vector same => by
              cases same
              exact least j alternate' }
    · exact (rooted_initPorts s now).setLostBPDU i 0
  · next root =>
    refine Rooted.setLostBPDU ?_ _ _
    exact rooted.retire (i := i) rfl
      (fun j differ => by simp [initInterfacedata, setDesignated, differ])
      fun best => .of_active (.inr (by simp [initInterfacedata, setDesignated, initData]))

theorem timely_expirePort (timely : Timely s now) : Timely (s.expirePort now i) now := by
  unfold expirePort
  split
  · next root =>
    split
    · next c found =>
      refine Timely.setLostBPDU (Timely.setLostBPDU (Timely.setRoleState
        ((timely.setDesignated i).initInterfacedata i) ?_ (by decide)) _ _) _ _
      have alternate := (getBestAlternate_eq_some found).1
      have differ : c ≠ i := by
        rintro rfl
        simp [root] at alternate
      apply due_of_role <;> simp [initInterfacedata, setDesignated, differ, alternate]
    · exact (timely_initPorts s now).setLostBPDU i 0
  · exact ((timely.setDesignated i).initInterfacedata i).setLostBPDU i 0

theorem helloPort_keeps (rooted : Rooted s) (timely : Timely s now) (i : Fin n) :
    Rooted (s.helloPort now i) ∧ Timely (s.helloPort now i) now := by
  have rooted' := rooted.setLostBPDU i ((s.ports i).lostBPDU + 1)
  have timely' := timely.setLostBPDU i ((s.ports i).lostBPDU + 1)
  dsimp only [helloPort]
  split
  · next waiting =>
    split
    · refine ⟨rooted_expirePort rooted' ?_, timely_expirePort timely'⟩
      simpa [Rstp.setLostBPDU] using waiting.2
    · exact ⟨rooted', timely'⟩
  · exact ⟨rooted, timely⟩

theorem handleHelloTime_keeps (rooted : Rooted s) (timely : Timely s now) :
    Rooted (s.handleHelloTime now) ∧ Timely (s.handleHelloTime now) now := by
  unfold handleHelloTime
  generalize List.finRange n = ports
  induction ports generalizing s with
  | nil => exact ⟨rooted, timely⟩
  | cons i rest ih =>
    obtain ⟨rooted', timely'⟩ := helloPort_keeps rooted timely i
    exact ih rooted' timely'

end Inet.Ieee8021d.Rstp
