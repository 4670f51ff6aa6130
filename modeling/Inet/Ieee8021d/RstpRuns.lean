import Inet.Ieee8021d.RstpChallenge

/-!
# Runs of a bridge

The roles of the ports, their states and vectors and the upgrade timer stay coherent in every run of
a bridge whose events are regular: no better root arrives while an edge port is the root port, no
port becomes the root port that is not better than all alternates and the bridge, and no port that
leaves the contest is alone with the earliest upgrade.
-/
namespace Inet.Ieee8021d.Rstp

open Inet.Lib

attribute [local irreducible] asInt

variable {n : Nat} {s s' : Rstp n} {now : ℕ} {i : Fin n} {frame : BpduCfg}

/-! ### BPDUs from the same source -/

theorem root_initPorts (s : Rstp n) (now : ℕ) (j : Fin n) :
    ((s.initPorts now).ports j).root = s.ownRoot := rfl

theorem role_initPorts (s : Rstp n) (now : ℕ) (j : Fin n) :
    ((s.initPorts now).ports j).role = .NOTASSIGNED ∨
      ((s.initPorts now).ports j).role = .DESIGNATED := by
  change (s.initPort now (s.ports j)).role = _ ∨ (s.initPort now (s.ports j)).role = _
  unfold initPort
  split
  · exact .inr rfl
  · exact .inl rfl

/-- All ports have started again, and one of them becomes the root port. -/
theorem keepRoot_keeps (address : frame.rootAddress ≠ s.bridgeAddress) :
    Rooted ((s.initPorts now).keepRoot frame i) ∧ Timely ((s.initPorts now).keepRoot frame i) now := by
  have timely := timely_initPorts s now
  unfold keepRoot
  split
  · next value =>
    have better : frame.root < s.ownRoot := by
      have ranks := compareInterfacedata_ranks (s.initPorts now) i frame
        ((s.initPorts now).ports i).linkCost
      have le := root_le_of_offered (ranks.better_iff.mp value).le
      rw [root_initPorts] at le
      refine lt_of_le_of_ne le fun same => address ?_
      exact congrArg (fun root : RstpRoot => (ofLex root).2) same
    constructor
    · refine .root i ?_ ?_ ?_ fun j away => .of_active ?_
      · simp [setRoleState]
      · simp [setRoleState]
      · simp only [setRoleState, ports_modify_self]
        change ((((s.initPorts now).updateInterfacedata frame i).ports i)).root < s.ownRoot
        rwa [root_updateInterfacedata]
      · simp only [setRoleState, ports_modify_of_ne away, role_updateInterfacedata]
        exact role_initPorts s now j
    · refine Timely.leave (timely.updateInterfacedata frame i) ?_ ?_
      · -- All ports that wait do so for the same time.
        rw [dues_updateInterfacedata]
        intro t found
        by_cases alone : ∀ j, j ≠ i → (s.initPorts now).dues j = none
        · exact .inl alone
        · push Not at alone
          obtain ⟨j, away, waits⟩ := alone
          obtain ⟨t', found'⟩ := Option.ne_none_iff_exists'.mp waits
          refine .inr ⟨j, away, t', found', ?_⟩
          rw [due_initPorts (s := s) found, due_initPorts (s := s) found']
      · simp [due, waits]
  · exact ⟨rooted_initPorts s now, timely⟩

theorem processWorseRoot_keeps (rooted : Rooted s) (timely : Timely s now)
    (address : frame.rootAddress ≠ s.bridgeAddress) :
    Rooted (s.processWorseRoot now frame i) ∧ Timely (s.processWorseRoot now frame i) now := by
  unfold processWorseRoot
  split
  · next role =>
    obtain ⟨_, _, others⟩ := rooted.follows role
    cases found : s.getBestAlternate with
    | none => exact keepRoot_keeps address
    | some c =>
      obtain ⟨alternate, least⟩ := getBestAlternate_eq_some found
      have differ : c ≠ i := by
        rintro rfl
        simp [role] at alternate
      have candidate : (s.setDesignated now i).ports c = s.ports c := by
        simp [setDesignated, differ]
      constructor
      · refine .root c ?_ ?_ ?_ fun j away => ?_
        · simp [setRoleState, updateInterfacedata, differ]
        · simp [setRoleState, updateInterfacedata, differ]
        · simp only [ports_updateInterfacedata_of_ne differ, ownRoot_updateInterfacedata,
            setRoleState, ports_modify_self, candidate, ownRoot_modify, ownRoot_setDesignated]
          exact (others c differ).better alternate
        · simp only [ports_updateInterfacedata_of_ne differ, ownRoot_updateInterfacedata,
            setRoleState, ports_modify_self, candidate, ownRoot_modify, ownRoot_setDesignated]
          by_cases same : j = i
          · subst same
            refine .of_active (.inr ?_)
            simp [away, setDesignated]
          · rw [ports_updateInterfacedata_of_ne same, ports_modify_of_ne away]
            simp only [setDesignated, ports_scheduleNextUpgrade, ports_modify_of_ne same]
            exact { others j same with
              worse := fun alternate' vector same => by
                cases same
                exact least j alternate' }
      · refine Timely.updateInterfacedata (Timely.setRoleState (timely.setDesignated i) ?_
          (by decide)) frame i
        rw [candidate]
        apply due_of_role <;> simp [alternate]
  · next other =>
    split
    · have designated : (((s.setDesignated now i).updateInterfacedata frame i).ports i).role =
          .DESIGNATED := by
        simp [setDesignated]
      refine ⟨?_, (timely.setDesignated i).updateInterfacedata frame i⟩
      refine rooted.retire (i := i) (by simp) (fun j away => ?_) fun best =>
        .of_active (.inr designated)
      simp [setDesignated, away]
    · exact ⟨rooted, timely⟩

/-- The root port announces a worse route and there is a better alternative. -/
theorem giveWay_keeps {c : Fin n} (rooted : Rooted s) (timely : Timely s now)
    (role : (s.ports i).role = .ROOT) (alternate : (s.ports c).role = .ALTERNATE)
    (least : ∀ j, (s.ports j).role = .ALTERNATE → (s.ports c).stored ≤ (s.ports j).stored)
    (sameRoot : (s.ports i).root = frame.root)
    (worse : (s.ports c).stored ≤ frame.offered (s.ports i).linkCost)
    (returned : (((s.setLostBPDU i 0).setRoleState c .ROOT .FORWARDING).setRole i
      .DESIGNATED).giveWay now frame i = .ok s') : Rooted s' ∧ Timely s' now := by
  obtain ⟨_, better, others⟩ := rooted.follows role
  have differ : c ≠ i := by
    rintro rfl
    simp [role] at alternate
  generalize elected : ((s.setLostBPDU i 0).setRoleState c .ROOT .FORWARDING).setRole i
    .DESIGNATED = u at returned
  have own : u.ownRoot = s.ownRoot := by
    rw [← elected]
    rfl
  have leader : u.ports c = { s.ports c with role := .ROOT, state := .FORWARDING } := by
    rw [← elected]
    simp [setRole, setRoleState, Rstp.setLostBPDU, differ]
  have arrival : u.ports i = { s.ports i with role := .DESIGNATED, lostBPDU := 0 } := by
    rw [← elected]
    simp [setRole, setRoleState, Rstp.setLostBPDU, differ.symm]
  have other : ∀ j, j ≠ i → j ≠ c → u.ports j = s.ports j := by
    intro j away next
    rw [← elected]
    simp [setRole, setRoleState, Rstp.setLostBPDU, away, next]
  -- A port that is neither the old root port nor the new one.
  have follows : ∀ j, j ≠ i → j ≠ c →
      Follows s.ownRoot (some (u.ports c).stored) (s.ports j) := fun j away next =>
    { others j away with
      worse := fun alternate' vector same => by
        cases same
        rw [leader]
        exact least j alternate' }
  have elect : ∀ t : Rstp n, t.ownRoot = u.ownRoot → (∀ j, j ≠ i → t.ports j = u.ports j) →
      Follows s.ownRoot (some (u.ports c).stored) (t.ports i) → Rooted t := by
    intro t same kept arrived
    have lead : t.ports c = u.ports c := kept c differ
    refine .root c (by rw [lead, leader]) (by rw [lead, leader]) ?_ fun j away => ?_
    · rw [lead, leader, same, own]
      exact (others c differ).better alternate
    · rw [lead, same, own]
      by_cases here : j = i
      · rwa [here]
      · rw [kept j here, other j here away]
        exact follows j here away
  unfold giveWay at returned
  cases contest : u.contestBpdu frame i with
  | error e =>
    rw [contest] at returned
    cases returned
  | ok case3 =>
    rw [contest] at returned
    change (if _ then _ else _) = _ at returned
    split at returned
    · cases returned
      constructor
      · refine elect _ (by simp) (fun j away => by simp [setDesignated, away]) (.of_active (.inr ?_))
        simp [setDesignated]
      · refine Timely.updateInterfacedata (timely_scheduleNextUpgrade fun j t found => ?_) frame i
        unfold dues at found
        by_cases here : j = i
        · rw [here, ports_modify_self] at found
          simp only [due, Option.ite_none_right_eq_some, Option.some.injEq] at found
          omega
        · rw [ports_modify_of_ne here] at found
          by_cases next : j = c
          · rw [next, leader, due_of_role (by simp) (by simp)] at found
            cases found
          · rw [other j here next] at found
            exact Earliest.future timely found
    · cases returned
      constructor
      · refine elect _ rfl (fun j away => by simp [setRoleState, away]) ?_
        have stored : (((u.setRoleState i .ALTERNATE .DISCARDING).updateInterfacedata frame
            i).ports i).stored = frame.offered (s.ports i).linkCost := by
          rw [stored_updateInterfacedata]
          simp [setRoleState, arrival]
        constructor
        · simp [setRoleState]
        · simp [setRoleState, updateInterfacedata]
        · intro _
          rw [root_updateInterfacedata, ← sameRoot]
          exact better
        · rintro _ vector same
          cases same
          rw [stored, leader]
          exact worse
      · refine Timely.updateInterfacedata ?_ frame i
        have timer : (u.setRoleState i .ALTERNATE .DISCARDING).upgradeTimer = s.upgradeTimer := by
          rw [← elected]
          rfl
        unfold Timely
        rw [timer]
        refine Earliest.congr timely fun j => ?_
        unfold dues setRoleState
        by_cases here : j = i
        · rw [here, ports_modify_self, due_of_role (by simp) (by simp),
            due_of_role (by simp [role]) (by simp [role])]
        · rw [ports_modify_of_ne here]
          by_cases next : j = c
          · rw [next, leader, due_of_role (by simp) (by simp),
              due_of_role (by simp [alternate]) (by simp [alternate])]
          · rw [other j here next]

theorem processWorseRoute_keeps (rooted : Rooted s) (timely : Timely s now)
    (sameRoot : (s.ports i).root = frame.root)
    (worse : (s.ports i).stored ≤ frame.offered (s.ports i).linkCost)
    (returned : s.processWorseRoute now frame i = .ok s') : Rooted s' ∧ Timely s' now := by
  have timely' := timely.updateInterfacedata frame i
  unfold processWorseRoute at returned
  split at returned
  · next role =>
    obtain ⟨forwarding, better, others⟩ := rooted.follows role
    -- The root port stays the root port if no alternate is better than the BPDU.
    have stays : (∀ j, (s.ports j).role = .ALTERNATE →
        frame.offered (s.ports i).linkCost ≤ (s.ports j).stored) →
        Rooted (s.updateInterfacedata frame i) := by
      intro best
      refine rooted_arrived (i := i) (s := s) frame rfl ?_ (sameRoot ▸ better)
        fun j away => ?_
      · refine ⟨(role_updateInterfacedata i).trans role, ?_, root_updateInterfacedata,
          stored_updateInterfacedata⟩
        simpa [updateInterfacedata] using forwarding
      · rw [ports_updateInterfacedata_of_ne away]
        exact { others j away with
          worse := fun alternate vector same => by
            cases same
            exact best j alternate }
    cases found : s.getBestAlternate with
    | none =>
      rw [found] at returned
      cases returned
      exact ⟨stays fun j alternate => absurd alternate (getBestAlternate_eq_none found j), timely'⟩
    | some c =>
      rw [found] at returned
      obtain ⟨alternate, least⟩ := getBestAlternate_eq_some found
      have ranks := compareInterfacedata_ranks s c frame (s.ports i).linkCost
      change (if _ then _ else _) = _ at returned
      split at returned
      · next value =>
        exact giveWay_keeps rooted timely role alternate least sameRoot
          (ranks.worse_iff.mp value).le returned
      · next value =>
        cases returned
        refine ⟨stays fun j other => ?_, timely'⟩
        exact (not_lt.mp (mt ranks.worse_iff.mpr value)).trans (least j other)
  · next role =>
    split at returned
    · next alternate =>
      cases contest : s.contestBpdu frame i with
      | error e =>
        rw [contest] at returned
        cases returned
      | ok case2 =>
        rw [contest] at returned
        change (if _ then _ else _) = _ at returned
        split at returned
        · cases returned
          refine ⟨rooted.retire (i := i) (by simp) (fun j away => ?_) fun best =>
            .of_active (.inr ?_), (timely.setDesignated i).updateInterfacedata frame i⟩
          · simp [setDesignated, away]
          · simp [setDesignated]
        · cases returned
          refine ⟨?_, (timely.setLostBPDU i 0).updateInterfacedata frame i⟩
          refine rooted.replace (i := i) rfl (fun j away => by simp [Rstp.setLostBPDU, away]) role
            fun best isBest follows => ?_
          have stored : (((s.setLostBPDU i 0).updateInterfacedata frame i).ports i).stored =
              frame.offered (s.ports i).linkCost := by
            rw [stored_updateInterfacedata]
            simp [Rstp.setLostBPDU]
          constructor
          · simpa [Rstp.setLostBPDU] using role
          · simpa [Rstp.setLostBPDU, updateInterfacedata] using follows.discarding
          · intro _
            rw [root_updateInterfacedata, ← sameRoot]
            exact follows.better alternate
          · rintro _ vector rfl
            rw [stored]
            exact (follows.worse alternate vector rfl).trans worse
    · next alternate =>
      cases returned
      refine ⟨?_, timely'⟩
      refine rooted.replace (i := i) rfl (fun j away => by simp [away]) role
        fun best isBest follows => ?_
      constructor
      · simpa using role
      · simpa [updateInterfacedata] using follows.discarding
      · simpa using fun other => absurd other alternate
      · simpa using fun other => absurd other alternate

theorem processSameSource_keeps (rooted : Rooted s) (timely : Timely s now)
    (address : frame.rootAddress ≠ s.bridgeAddress)
    (returned : s.processSameSource now frame i = .ok s') : Rooted s' ∧ Timely s' now := by
  have ranks := compareInterfacedata_ranks s i frame (s.ports i).linkCost
  have ranksRoot := compareInterfacedata_ranksRoot s i frame (s.ports i).linkCost
  unfold processSameSource at returned
  generalize s.compareInterfacedata i frame (s.ports i).linkCost = result at *
  have down : result.value < 0 → (s.ports i).stored ≤ frame.offered (s.ports i).linkCost :=
    fun value => (ranks.worse_iff.mp value).le
  cases result with
  | SIMILAR =>
    rw [updateSource] at returned
    cases returned
    exact ⟨rooted.setLostBPDU i 0, timely.setLostBPDU i 0⟩
  | WORSE_ROOT =>
    rw [updateSource] at returned
    cases returned
    exact processWorseRoot_keeps rooted timely address
  | WORSE_RPC =>
    exact processWorseRoute_keeps rooted timely ranksRoot (down (by decide)) returned
  | WORSE_SRC =>
    exact processWorseRoute_keeps rooted timely ranksRoot (down (by decide)) returned
  | WORSE_PORT =>
    exact processWorseRoute_keeps rooted timely ranksRoot (down (by decide)) returned
  | BETTER_ROOT =>
    cases returned
    exact ⟨rooted, timely⟩
  | BETTER_RPC =>
    cases returned
    exact ⟨rooted, timely⟩
  | BETTER_SRC =>
    cases returned
    exact ⟨rooted, timely⟩
  | BETTER_PORT =>
    cases returned
    exact ⟨rooted, timely⟩

/-! ### Carrier -/

theorem rooted_receiveSignal (rooted : Rooted s) (hasCarrier : Bool) :
    Rooted (s.receiveSignal now i hasCarrier) := by
  have rooted' := rooted.touch (f := fun port => { port with hasCarrier }) i
    fun _ => ⟨rfl, rfl, rfl, rfl⟩
  dsimp only [receiveSignal]
  split
  · refine Rooted.scheduleNextUpgrade (rooted'.touch i fun port => ?_)
    split
    · exact ⟨rfl, rfl, rfl, rfl⟩
    · split <;> exact ⟨rfl, rfl, rfl, rfl⟩
  · exact rooted'

theorem timely_receiveSignal {hasCarrier : Bool} (timely : Timely s now)
    (regular : hasCarrier = true ∨ Spared s.dues i) :
    Timely (s.receiveSignal now i hasCarrier) now := by
  dsimp only [receiveSignal]
  split
  · refine timely_scheduleNextUpgrade fun j t found => ?_
    unfold dues at found
    by_cases here : j = i
    · rw [here, ports_modify_self, ports_modify_self] at found
      unfold due waits at found
      grind
    · rw [ports_modify_of_ne here, ports_modify_of_ne here] at found
      exact Earliest.future timely (i := j) found
  · next lost =>
    exact timely.leave (regular.resolve_left lost) (by simp [due, waits, lost])

/-! ### Runs -/

/-- The condition under which an event keeps roles and timer coherent. -/
def Regular (s : Rstp n) (now : ℕ) : Event n → Prop
  | .hello => True
  | .upgrade => True
  | .carrier i hasCarrier => hasCarrier = true ∨ Spared s.dues i
  | .bpdu src frame i => frame.messageAge < s.maxAge →
    if src = s.bridgeAddress then s.RegularBackup frame i
    else 0 < (s.compareInterfacedata i frame (s.ports i).linkCost).value →
      frame.rootAddress ≠ s.bridgeAddress → s.RegularBetter now frame i

/-- The states of a bridge and the times at which it has reached them. Time does not pass beyond the
upgrade timer, and the upgrade timer goes off when it is due. -/
inductive Reached (regular : Rstp n → ℕ → Event n → Prop) : Rstp n → ℕ → Prop
  | start (s : Rstp n) (now : ℕ) : Reached regular (s.initPorts now) now
  | step {s s' : Rstp n} {before now : ℕ} (event : Event n) (reached : Reached regular s before)
      (passed : before ≤ now) (timer : ∀ time, s.upgradeTimer = some time → now ≤ time)
      (due : event = .upgrade → s.upgradeTimer = some now) (holds : regular s now event)
      (returned : s.step now event = .ok s') : Reached regular s' now

theorem step_keeps {event : Event n} (rooted : Rooted s) (timely : Timely s now)
    (regular : s.Regular now event) (returned : s.step now event = .ok s') :
    Rooted s' ∧ Timely s' now := by
  cases event with
  | hello =>
    cases returned
    exact handleHelloTime_keeps rooted timely
  | upgrade =>
    cases returned
    exact ⟨rooted_handleUpgrade rooted, timely_handleUpgrade timely⟩
  | carrier i hasCarrier =>
    cases returned
    exact ⟨rooted_receiveSignal rooted hasCarrier, timely_receiveSignal timely regular⟩
  | bpdu src frame i =>
    change s.handleIncomingFrame now src frame i = .ok s' at returned
    change frame.messageAge < s.maxAge → _ at regular
    unfold handleIncomingFrame at returned
    split at returned
    · next fresh =>
      have regular := regular fresh
      split at returned
      · next own =>
        rw [if_pos own] at regular
        exact handleBackup_keeps rooted timely regular returned
      · next foreign =>
        rw [if_neg foreign] at regular
        have ranks := compareInterfacedata_ranks s i frame (s.ports i).linkCost
        unfold processBPDU at returned
        split at returned
        · next better =>
          exact processBetterSource_keeps rooted timely (regular better.1 better.2)
            (ranks.better_iff.mp better.1) returned
        · split at returned
          · next source =>
            exact processSameSource_keeps rooted timely source.2 returned
          · cases returned
            exact ⟨rooted, timely⟩
    · cases returned
      exact ⟨rooted, timely⟩

theorem reached_keeps (reached : Reached Regular s now) : Rooted s ∧ Timely s now := by
  induction reached with
  | start s now => exact ⟨rooted_initPorts s now, timely_initPorts s now⟩
  | step event _ _ timer _ holds returned ih =>
    exact step_keeps ih.1 (Earliest.later ih.2 timer) holds returned

/-- The port has a carrier and is not assigned yet, or designated but not yet forwarding. -/
def Contends (port : RstpInterfaceData) : Prop :=
  port.hasCarrier = true ∧ (port.role = .NOTASSIGNED ∨
    port.role = .DESIGNATED ∧ port.state ≠ .FORWARDING)

structure Coherent (s : Rstp n) (now : ℕ) : Prop where
  unique : ∀ i j, (s.ports i).role = .ROOT → (s.ports j).role = .ROOT → i = j
  forwarding : ∀ i, (s.ports i).role = .ROOT → (s.ports i).state = .FORWARDING
  discarding : ∀ i, (s.ports i).role = .ALTERNATE ∨ (s.ports i).role = .BACKUP ∨
    (s.ports i).role = .DISABLED → (s.ports i).state = .DISCARDING
  best : ∀ i j, (s.ports i).role = .ROOT → (s.ports j).role = .ALTERNATE →
    (s.ports i).stored ≤ (s.ports j).stored
  better : ∀ i, (s.ports i).role = .ROOT → (s.ports i).root < s.ownRoot
  scheduled : ∀ i, Contends (s.ports i) → ∃ j, Contends (s.ports j) ∧
    s.upgradeTimer = some (s.ports j).nextUpgrade ∧ now ≤ (s.ports j).nextUpgrade ∧
    ∀ k, Contends (s.ports k) → (s.ports j).nextUpgrade ≤ (s.ports k).nextUpgrade

theorem due_eq_some {port : RstpInterfaceData} {t : ℕ} :
    due port = some t ↔ Contends port ∧ port.nextUpgrade = t := by
  unfold due waits Contends
  cases state : port.state <;> simp

theorem reached_coherent (reached : Reached Regular s now) : Coherent s now := by
  obtain ⟨rooted, timely⟩ := reached_keeps reached
  refine ⟨fun i j root root' => ?_, fun i root => (rooted.follows root).1, fun i idle => ?_,
    fun i j root alternate => ?_, fun i root => (rooted.follows root).2.1, fun i contends => ?_⟩
  · by_contra differ
    exact ((rooted.follows root').2.2 i differ).role root
  · have role : (s.ports i).role ≠ .ROOT := by
      intro root
      simp [root] at idle
    exact (rooted.follows_of_ne role).discarding idle
  · have differ : j ≠ i := by
      rintro rfl
      simp [root] at alternate
    exact ((rooted.follows root).2.2 j differ).worse alternate _ rfl
  · obtain ⟨first, timer, future, _, j, found⟩ := timely i _ (due_eq_some.mpr ⟨contends, rfl⟩)
    obtain ⟨contends', rfl⟩ := due_eq_some.mp found
    refine ⟨j, contends', timer, future, fun k other => ?_⟩
    obtain ⟨first', timer', _, le, _⟩ := timely k _ (due_eq_some.mpr ⟨other, rfl⟩)
    rw [timer] at timer'
    cases timer'
    exact le

/-! ### Runs that are played -/

/-- The state after some events and their times, if they can happen. -/
def play (s : Rstp n) (before : ℕ) : List (ℕ × Event n) → Option (Rstp n × ℕ)
  | [] => some (s, before)
  | (now, event) :: rest =>
    if before ≤ now ∧ ∀ time ∈ s.upgradeTimer, now ≤ time then
      match event, s.step now event with
      | .upgrade, .ok s' => if s.upgradeTimer = some now then play s' now rest else none
      | _, .ok s' => play s' now rest
      | _, .error _ => none
    else none

theorem play_reached {before now : ℕ} {events : List (ℕ × Event n)}
    (reached : Reached (fun _ _ _ => True) s before)
    (played : s.play before events = some (s', now)) : Reached (fun _ _ _ => True) s' now := by
  induction events generalizing s before with
  | nil =>
    cases played
    exact reached
  | cons head rest ih =>
    obtain ⟨time, event⟩ := head
    unfold play at played
    split at played
    · next possible =>
      have timer : ∀ t, s.upgradeTimer = some t → time ≤ t := fun t set => possible.2 t set
      cases returned : s.step time event with
      | error e =>
        rw [returned] at played
        cases event <;> cases played
      | ok t =>
        rw [returned] at played
        cases event with
        | upgrade =>
          change (if _ then _ else _) = _ at played
          split at played
          · next set =>
            exact ih (reached.step _ possible.1 timer (fun _ => set) trivial returned) played
          · cases played
        | _ =>
          exact ih (reached.step _ possible.1 timer (by simp) trivial returned) played
    · cases played

/-- A bridge with the priority 32768 and the address 10. -/
def bridge (n : ℕ) (edge : Fin n → Bool) : Rstp n where
  bridgePriority := 32768
  bridgeAddress := 10
  maxAge := 20
  forwardDelay := 6
  migrateTime := 3
  ports i :=
    { priority := 0
      linkCost := 1
      role := .NOTASSIGNED
      rootPriority := 0
      rootAddress := 0
      rootPathCost := 0
      bridgePriority := 0
      bridgeAddress := 0
      portPriority := 0
      portNum := 0
      maxAge := 0
      edge := edge i
      state := .FORWARDING
      age := 0
      lostBPDU := 0
      nextUpgrade := 0
      hasCarrier := true }
  upgradeTimer := none

/-- A BPDU of another bridge. -/
def announce (rootPriority rootAddress bridgeAddress : ℕ) : BpduCfg where
  rootPriority := rootPriority
  rootAddress := rootAddress
  rootPathCost := 0
  bridgePriority := 32768
  bridgeAddress := bridgeAddress
  portPriority := 0
  portNum := 0
  messageAge := 0
  maxAge := 20

/-- An event that happens at a port whose BPDUs the bridge receives. -/
def bpdu (rootPriority rootAddress bridgeAddress : ℕ) (i : Fin n) : Event n :=
  .bpdu bridgeAddress (announce rootPriority rootAddress bridgeAddress) i

theorem regular_bridge :
    ((bridge 2 fun _ => false).initPorts 0).Regular 1 (bpdu 32768 5 5 0) := by
  intro _
  rw [if_neg (by decide)]
  intro _ _
  have missing : ((bridge 2 fun _ => false).initPorts 0).getRootInterfaceId = none := rfl
  unfold RegularBetter
  rw [missing]
  refine ⟨by decide +kernel, fun t found => .inr ⟨1, by decide, 3, by decide +kernel, ?_⟩, ?_⟩
  · have first : ((bridge 2 fun _ => false).initPorts 0).dues 0 = some 3 := rfl
    rw [first] at found
    cases found
    exact le_refl 3
  · decide +kernel

theorem reached_coherent_bridge : ∃ s : Rstp 2,
    ((bridge 2 fun _ => false).initPorts 0).step 1 (bpdu 32768 5 5 0) = .ok s ∧ Coherent s 1 := by
  cases returned : ((bridge 2 fun _ => false).initPorts 0).step 1 (bpdu 32768 5 5 0) with
  | error e =>
    have : (((bridge 2 fun _ => false).initPorts 0).step 1 (bpdu 32768 5 5 0)).isOk = true := by
      decide +kernel
    rw [returned] at this
    cases this
  | ok s =>
    refine ⟨s, rfl, reached_coherent (.step _ (.start (bridge 2 fun _ => false) 0) (by decide) ?_
      (fun same => by cases same) regular_bridge returned)⟩
    have timer : ((bridge 2 fun _ => false).initPorts 0).upgradeTimer = some 3 := rfl
    rw [timer]
    rintro _ ⟨⟩
    decide

/-! ### Runs that lose coherence -/

/-- The events of a run lead to a state of the given kind. -/
theorem exists_reached (s : Rstp n) (events : List (ℕ × Event n)) (kind : Rstp n × ℕ → Bool)
    (played : ((s.initPorts 0).play 0 events).any kind = true) :
    ∃ s' now, Reached (fun _ _ _ => True) s' now ∧ kind (s', now) = true := by
  cases found : (s.initPorts 0).play 0 events with
  | none =>
    rw [found] at played
    cases played
  | some reached =>
    rw [found] at played
    exact ⟨reached.1, reached.2, play_reached (.start s 0) found, played⟩

/-- The runs of the lemmas below, and the states that they lead to. -/
theorem played :
    (((bridge 2 fun i => i = 0).initPorts 0).play 0
      [(1, bpdu 32768 5 5 0), (2, bpdu 4096 3 3 1)]).any
        (fun p => (p.1.ports 0).role = .ROOT ∧ (p.1.ports 1).role = .ROOT) = true ∧
    (((bridge 3 fun _ => false).initPorts 0).play 0
      [(1, bpdu 32768 5 5 1), (1, bpdu 32768 5 6 2), (1, .bpdu 10 (announce 32768 5 10) 1),
        (1, bpdu 32768 7 7 0)]).any
        (fun p => (p.1.ports 0).role = .ROOT ∧ (p.1.ports 2).role = .ALTERNATE ∧
          ¬ (p.1.ports 0).stored ≤ (p.1.ports 2).stored) = true ∧
    (((bridge 3 fun _ => false).initPorts 0).play 0
      [(1, bpdu 32768 5 5 1), (1, bpdu 32768 5 6 2), (1, bpdu 65535 99 6 2),
        (1, .bpdu 10 (announce 32768 5 10) 1), (1, bpdu 65535 50 6 2)]).any
        (fun p => (p.1.ports 2).role = .ROOT ∧ ¬ (p.1.ports 2).root < p.1.ownRoot) = true ∧
    (((bridge 2 fun _ => false).initPorts 0).play 0
      [(1, .carrier 0 false), (1, .carrier 0 true), (2, bpdu 32768 5 5 1)]).any
        (fun p => due (p.1.ports 0) = some (p.1.ports 0).nextUpgrade ∧
          due (p.1.ports 1) = none ∧ p.1.upgradeTimer ≠ some (p.1.ports 0).nextUpgrade) = true := by
  decide +kernel

/-- An edge port that has become the root port stays it when another port receives a better root. -/
theorem two_roots : ∃ (s : Rstp 2) (now : ℕ), Reached (fun _ _ _ => True) s now ∧
    (s.ports 0).role = .ROOT ∧ (s.ports 1).role = .ROOT := by
  obtain ⟨s, now, reached, kind⟩ := exists_reached _ _ _ played.1
  exact ⟨s, now, reached, by simpa using kind⟩

/-- The root port becomes a backup port, and a port that is worse than an alternate the root
port. -/
theorem worse_than_alternate : ∃ (s : Rstp 3) (now : ℕ), Reached (fun _ _ _ => True) s now ∧
    (s.ports 0).role = .ROOT ∧ (s.ports 2).role = .ALTERNATE ∧
      ¬ (s.ports 0).stored ≤ (s.ports 2).stored := by
  obtain ⟨s, now, reached, kind⟩ := exists_reached _ _ _ played.2.1
  exact ⟨s, now, reached, by simpa using kind⟩

/-- The root port becomes a backup port, and a port becomes the root port that knows no better root
than the bridge. -/
theorem worse_than_bridge : ∃ (s : Rstp 3) (now : ℕ), Reached (fun _ _ _ => True) s now ∧
    (s.ports 2).role = .ROOT ∧ ¬ (s.ports 2).root < s.ownRoot := by
  obtain ⟨s, now, reached, kind⟩ := exists_reached _ _ _ played.2.2.1
  exact ⟨s, now, reached, by simpa using kind⟩

/-- A port becomes the root port, and the upgrade timer stays set for the time at which it would have
been upgraded. -/
theorem timer_early : ∃ (s : Rstp 2) (now : ℕ), Reached (fun _ _ _ => True) s now ∧
    Contends (s.ports 0) ∧ ¬ Contends (s.ports 1) ∧
      s.upgradeTimer ≠ some (s.ports 0).nextUpgrade := by
  obtain ⟨s, now, reached, kind⟩ := exists_reached _ _ _ played.2.2.2
  obtain ⟨first, second, timer⟩ : due (s.ports 0) = some (s.ports 0).nextUpgrade ∧
      due (s.ports 1) = none ∧ s.upgradeTimer ≠ some (s.ports 0).nextUpgrade := by simpa using kind
  refine ⟨s, now, reached, (due_eq_some.mp first).1, fun contends => ?_, timer⟩
  have := due_eq_some.mpr ⟨contends, rfl⟩
  rw [second] at this
  cases this

/-- Not every state that a bridge reaches is coherent: there may be two root ports, a root port that
is worse than an alternate or than the bridge, and a timer that is set for none of the ports that
contend. -/
theorem reached_incoherent :
    (∃ (s : Rstp 2) (now : ℕ), Reached (fun _ _ _ => True) s now ∧
      (s.ports 0).role = .ROOT ∧ (s.ports 1).role = .ROOT) ∧
    (∃ (s : Rstp 3) (now : ℕ), Reached (fun _ _ _ => True) s now ∧
      (s.ports 0).role = .ROOT ∧ (s.ports 2).role = .ALTERNATE ∧
        ¬ (s.ports 0).stored ≤ (s.ports 2).stored) ∧
    (∃ (s : Rstp 3) (now : ℕ), Reached (fun _ _ _ => True) s now ∧
      (s.ports 2).role = .ROOT ∧ ¬ (s.ports 2).root < s.ownRoot) ∧
    ∃ (s : Rstp 2) (now : ℕ), Reached (fun _ _ _ => True) s now ∧
      Contends (s.ports 0) ∧ ¬ Contends (s.ports 1) ∧
        s.upgradeTimer ≠ some (s.ports 0).nextUpgrade :=
  ⟨two_roots, worse_than_alternate, worse_than_bridge, timer_early⟩

end Inet.Ieee8021d.Rstp
