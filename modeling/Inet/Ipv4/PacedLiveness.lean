import Inet.Ipv4.PacedSender
import Inet.Ipv4.Reassembly

/-!
# Liveness of the paced sender

A sender that is busy waits for its timer or for a link layer address. The exits that drop a
datagram do neither, and they do not end the busy state.
-/
namespace Inet.Ipv4

open Lib Packet

variable {F : Type} [Ipv4Fields F] {sharing : Sharing F}

/-- Some but not all of the current datagram is sent. -/
def Sender.PartlySent (sender : Sender F) : Prop :=
  ∃ p, sender.packet = .to p ∧ 0 < sender.offset ∧ sender.offset < sender.payloadLength

/-- A packet of the current datagram waits for a link layer address. -/
def Sender.Waits (sender : Sender F) : Prop :=
  ∃ p nextHop, sender.packet = .to p ∧ ∃ packet ∈ sender.pendingPackets nextHop, packet.id = p.id

/-- The sender goes on if there is something to send. -/
def Sender.Live (sender : Sender F) : Prop :=
  sender.queue ≠ [] ∨ sender.PartlySent → sender.endTxTimer = true ∨ sender.Waits

/-- Events of a sender without RDMA whose hooks queue nothing. -/
def Ordinary (_ : Sender F) : Event F → Prop
  | .reinjectQueuedDatagram _ _ => False
  | .rdma => False
  | _ => True

/-- A datagram that is not dropped. -/
structure Outgoing.Sendable (p : Outgoing F) : Prop where
  alive : 0 < p.datagram.header.timeToLive
  allowed : p.datagram.header.dontFragment = true → p.mtu = 0 ∨ getByteLength p.datagram.packet ≤ p.mtu

/-- Ordinary events that drop nothing. -/
def Unhindered (sender : Sender F) : Event F → Prop
  | .fragmentPostRouting p _ _ => p.Sendable
  | .arpResolutionTimedOut nextHop => sender.pendingPackets nextHop = []
  | event => Ordinary sender event

namespace Sender

variable {sender : Sender F} {p : Outgoing F}

/-- What a sender waits for. -/
inductive Phase (sender : Sender F) : Prop
  | idle (packet : sender.packet = .null) (queue : sender.queue = [])
      (timer : sender.endTxTimer = false) (pending : sender.pendingPackets = fun _ => [])
  | sending (p : Outgoing F) (packet : sender.packet = .to p)
      (current : sender.currentFragment = .to p) (sendable : p.Sendable)
      (timer : sender.endTxTimer = true) (pending : sender.pendingPackets = fun _ => [])
  | waiting (p : Outgoing F) (part : Handed F) (packet : sender.packet = .to p)
      (current : sender.currentFragment = .to p) (sendable : p.Sendable) (same : part.id = p.id)
      (timer : sender.endTxTimer = false)
      (pending : sender.pendingPackets = Function.update (fun _ => []) p.nextHop [part])

/-- A sender that waits for one thing at a time. -/
structure Paced (sender : Sender F) : Prop where
  phase : sender.Phase
  ordinary : sender.isRdma = false
  sendable : ∀ p ∈ sender.queue, p.Sendable

/-- A step that keeps the sender paced and does not schedule a timer twice. -/
def StaysPaced : Except SendError (Sender F) → Prop
  | .ok after => after.Paced
  | .error error => error ≠ .alreadyScheduled

omit [Ipv4Fields F] in
/-- What a sender waits for depends on few of its fields. -/
theorem Paced.of_same {after : Sender F} (paced : sender.Paced)
    (queue : after.queue = sender.queue) (packet : after.packet = sender.packet)
    (current : after.currentFragment = sender.currentFragment)
    (timer : after.endTxTimer = sender.endTxTimer)
    (pending : after.pendingPackets = sender.pendingPackets)
    (isRdma : after.isRdma = sender.isRdma) : after.Paced := by
  obtain ⟨phase, ordinary, sendable⟩ := paced
  refine ⟨?_, isRdma.trans ordinary, by rwa [queue]⟩
  cases phase with
  | idle h₁ h₂ h₃ h₄ =>
    exact .idle (packet.trans h₁) (queue.trans h₂) (timer.trans h₃) (pending.trans h₄)
  | sending p h₁ h₂ sendable h₃ h₄ =>
    exact .sending p (packet.trans h₁) (current.trans h₂) sendable (timer.trans h₃)
      (pending.trans h₄)
  | waiting p part h₁ h₂ sendable same h₃ h₄ =>
    exact .waiting p part (packet.trans h₁) (current.trans h₂) sendable same (timer.trans h₃)
      (pending.trans h₄)

omit [Ipv4Fields F] in
theorem Paced.live (paced : sender.Paced) : sender.Live := by
  intro busy
  cases paced.phase with
  | idle packet queue _ _ =>
    rcases busy with queued | ⟨p, partly, _⟩
    · exact absurd queue queued
    · rw [packet] at partly
      cases partly
  | sending _ _ _ _ timer _ => exact .inl timer
  | waiting p part packet _ _ same _ pending =>
    refine .inr ⟨p, p.nextHop, packet, part, ?_, same⟩
    rw [pending, Function.update_self]
    exact List.mem_singleton_self _

omit [Ipv4Fields F] in
/-- With nothing scheduled and nothing waiting, a packet is passed on or waits. -/
theorem sendDatagramToOutput_idle (resolution : Resolution) (nextHop : UInt32)
    (packet : Handed F) (timer : sender.endTxTimer = false)
    (pending : sender.pendingPackets = fun _ => []) :
    ∃ after, sender.sendDatagramToOutput resolution nextHop packet = .ok after ∧
      (after = { sender with handed := sender.handed ++ [packet], endTxTimer := true } ∨
        after = { sender with
          handed := sender.handed ++ [packet]
          pendingPackets := Function.update (fun _ => []) nextHop [packet] }) := by
  unfold sendDatagramToOutput
  cases resolution with
  | direct =>
    refine ⟨_, ?_, .inl rfl⟩
    simp [sendPacketToNIC, timer]
  | resolved =>
    refine ⟨_, ?_, .inl rfl⟩
    simp [sendPacketToNIC, timer, pending]
  | unresolved =>
    refine ⟨_, rfl, .inr ?_⟩
    simp [pending]

omit [Ipv4Fields F] in
/-- A part of the current datagram is sent or waits. -/
theorem sendDatagramToOutput_paced (sender : Sender F) (resolution : Resolution)
    (part : Handed F) (sendable : p.Sendable) (same : part.id = p.id)
    (packet : sender.packet = .to p) (current : sender.currentFragment = .to p)
    (timer : sender.endTxTimer = false) (pending : sender.pendingPackets = fun _ => [])
    (ordinary : sender.isRdma = false) (queue : ∀ p ∈ sender.queue, p.Sendable) :
    ∃ after, sender.sendDatagramToOutput resolution p.nextHop part = .ok after ∧
      after.isRdma = false ∧ ∀ offset, Paced { after with offset } := by
  obtain ⟨after, sent, rfl | rfl⟩ := sendDatagramToOutput_idle resolution p.nextHop part timer pending
  · exact ⟨_, sent, ordinary, fun _ =>
      ⟨.sending p packet current sendable rfl pending, ordinary, queue⟩⟩
  · exact ⟨_, sent, ordinary, fun _ =>
      ⟨.waiting p part packet current sendable same timer rfl, ordinary, queue⟩⟩

/-- A datagram that is not dropped is sent or waits. -/
theorem fragmentAndSend_paced (sharing : Sharing F) (sender : Sender F)
    (resolution : Resolution) (sendable : p.Sendable)
    (packet : sender.packet = .to p) (timer : sender.endTxTimer = false)
    (pending : sender.pendingPackets = fun _ => []) (ordinary : sender.isRdma = false)
    (queue : ∀ p ∈ sender.queue, p.Sendable) :
    StaysPaced (sender.fragmentAndSend sharing resolution p) := by
  have alive : ¬ p.datagram.header.timeToLive ≤ 0 := Int16.not_le.mpr sendable.alive
  unfold fragmentAndSend
  simp only
  rw [if_neg alive]
  by_cases whole : p.mtu = 0 ∨ getByteLength p.datagram.packet ≤ p.mtu
  · rw [if_pos whole]
    obtain ⟨after, sent, ordinary, paced⟩ := sendDatagramToOutput_paced
      { sender with currentFragment := .to p, mtu := p.mtu } resolution ⟨p.id, p.datagram⟩ sendable
      rfl packet rfl timer pending ordinary queue
    rw [sent, ok_bind, if_neg (by rw [ordinary]; decide)]
    exact paced after.offset
  · have fragmentable : ¬ p.datagram.header.dontFragment = true :=
      fun set => whole (sendable.allowed set)
    rw [if_neg whole, if_neg fragmentable]
    split
    next => exact nofun
    next =>
      rw [if_neg (by rw [ordinary]; decide)]
      unfold sendFragment
      cases made : fragmentAt sharing p.datagram (Ipv4.payloadLength p.datagram)
          (fragmentLength p.datagram p.mtu) sender.offset with
      | error => exact nofun
      | ok result =>
        obtain ⟨fragment, length⟩ := result
        obtain ⟨after, sent, _, paced⟩ := sendDatagramToOutput_paced
          { sender with
            currentFragment := .to p, mtu := p.mtu, payloadLength := Ipv4.payloadLength p.datagram }
          resolution ⟨p.id, fragment⟩ sendable rfl packet rfl timer pending ordinary queue
        simp only [Except.mapError]
        rw [ok_bind]
        simp only
        rw [sent, ok_bind]
        exact paced _

/-- The next datagram is sent, if there is one. -/
theorem sendNext_paced (sharing : Sharing F) (sender : Sender F) (resolution : Resolution)
    (packet : sender.packet = .null) (timer : sender.endTxTimer = false)
    (pending : sender.pendingPackets = fun _ => []) (ordinary : sender.isRdma = false)
    (queue : ∀ p ∈ sender.queue, p.Sendable) :
    StaysPaced (sender.sendNext sharing resolution) := by
  unfold sendNext
  split
  next empty => exact ⟨.idle packet empty timer pending, ordinary, queue⟩
  next p rest queue_eq =>
    rw [queue_eq] at queue
    obtain ⟨here, later⟩ := List.forall_mem_cons.mp queue
    exact fragmentAndSend_paced sharing _ resolution here rfl timer pending ordinary later

theorem fragmentPostRouting_paced (paced : sender.Paced)
    (resolution : Resolution) (answers : List Result) (sendable : p.Sendable) :
    StaysPaced (sender.fragmentPostRouting sharing resolution answers p) := by
  have kept := paced
  obtain ⟨phase, ordinary, queue⟩ := paced
  have queued : ∀ other ∈ sender.queue ++ [p], other.Sendable :=
    List.forall_mem_append.mpr ⟨queue, by simpa using sendable⟩
  unfold fragmentPostRouting
  simp only
  split
  next =>
    cases phase with
    | idle packet _ timer pending =>
      simp only [packet]
      exact sendNext_paced sharing _ resolution rfl timer pending ordinary queued
    | sending other packet current sendable timer pending =>
      simp only [packet]
      exact ⟨.sending other rfl current sendable timer pending, ordinary, queued⟩
    | waiting other part packet current sendable same timer pending =>
      simp only [packet]
      exact ⟨.waiting other part rfl current sendable same timer pending, ordinary, queued⟩
  next => exact kept.of_same rfl rfl rfl rfl rfl rfl
  next => exact kept.of_same rfl rfl rfl rfl rfl rfl

theorem handleEndTxPeriod_paced (paced : sender.Paced)
    (resolution : Resolution) (scheduled : sender.endTxTimer = true) :
    StaysPaced (sender.handleEndTxPeriod sharing resolution) := by
  obtain ⟨phase, ordinary, queue⟩ := paced
  cases phase with
  | idle _ _ timer _ =>
    rw [scheduled] at timer
    cases timer
  | waiting _ _ _ _ _ _ timer _ =>
    rw [scheduled] at timer
    cases timer
  | sending p packet current sendable _ pending =>
    have next := sendNext_paced sharing { sender with endTxTimer := false }.release resolution rfl rfl
      pending ordinary queue
    have again := fragmentAndSend_paced sharing { sender with endTxTimer := false } resolution
      sendable packet rfl pending ordinary queue
    simp only [current, packet] at again
    unfold handleEndTxPeriod
    simp only [current, packet, Pointer.deref]
    split
    next =>
      simp only [pure_bind, ok_bind]
      split
      next => exact again
      next => exact next
    next => exact next

omit [Ipv4Fields F] in
theorem arpResolutionCompleted_paced (paced : sender.Paced) (nextHop : UInt32) :
    StaysPaced (sender.arpResolutionCompleted nextHop) := by
  have kept := paced
  obtain ⟨phase, ordinary, queue⟩ := paced
  -- nothing waits for the next hop, or the one packet that waits does
  have none (absent : sender.pendingPackets nextHop = []) :
      StaysPaced (sender.arpResolutionCompleted nextHop) := by
    unfold arpResolutionCompleted
    rw [absent, sendPending, ok_bind]
    exact kept.of_same rfl rfl rfl rfl (Function.update_eq_self_iff.mpr absent.symm) rfl
  cases phase with
  | idle _ _ _ pending => exact none (by rw [pending])
  | sending _ _ _ _ _ pending => exact none (by rw [pending])
  | waiting p part packet current sendable same timer pending =>
    by_cases this : nextHop = p.nextHop
    · unfold arpResolutionCompleted
      rw [this, pending, Function.update_self]
      simp only [sendPending, sendPacketToNIC, timer]
      refine ⟨.sending p packet current sendable rfl ?_, ordinary, queue⟩
      simp only
      rw [pending, Function.update_idem]
      exact Function.update_eq_self_iff.mpr rfl
    · exact none (by rw [pending, Function.update_of_ne this])

end Sender

/-- An event that drops nothing keeps the sender paced. -/
theorem step_paced (sharing : Sharing F) {sender : Sender F} (paced : sender.Paced) {event : Event F}
    (enabled : event.Enabled sender) (allowed : Unhindered sender event) :
    Sender.StaysPaced (sender.step sharing event) := by
  cases event with
  | fragmentPostRouting p answers resolution =>
    exact Sender.fragmentPostRouting_paced paced resolution answers allowed
  | reinjectQueuedDatagram => exact allowed.elim
  | endTx resolution => exact Sender.handleEndTxPeriod_paced paced resolution enabled
  | arpResolutionCompleted nextHop => exact Sender.arpResolutionCompleted_paced paced nextHop
  | arpResolutionTimedOut nextHop =>
    exact paced.of_same rfl rfl rfl rfl (Function.update_eq_self_iff.mpr (Eq.symm allowed)) rfl
  | rdma => exact allowed.elim

/-- As long as nothing is dropped, the sender goes on and its timer is not scheduled twice. -/
theorem reached_live (sharing : Sharing F) (sender : Sender F)
    (reached : Reached sharing Unhindered sender) :
    sender.Live ∧ ∀ event : Event F, event.Enabled sender → Unhindered sender event →
      sender.step sharing event ≠ .error .alreadyScheduled := by
  have paced : sender.Paced := by
    induction reached with
    | start => exact ⟨.idle rfl rfl rfl rfl, rfl, by simp⟩
    | step event _ enabled allowed stepped ih =>
      have stays := step_paced sharing ih enabled allowed
      rw [stepped] at stays
      exact stays
  refine ⟨paced.live, fun event enabled allowed twice => ?_⟩
  have stays := step_paced sharing paced enabled allowed
  rw [twice] at stays
  exact stays rfl

/-! ### Examples -/

/-- Datagrams with 16 bytes of data on a link with an MTU of 1500 bytes. -/
def small (id : Nat) : Outgoing (Ipv4Header ⊕ List Bool) where
  id := id
  datagram := filled 16
  nextHop := 0x0a000002
  mtu := 1500

/-- A small datagram with an expired time to live. -/
def expired (id : Nat) : Outgoing (Ipv4Header ⊕ List Bool) where
  id := id
  datagram := { filled 16 with header := { plainHeader 16 with timeToLive := 0 } }
  nextHop := 0x0a000002
  mtu := 1500

theorem small_sendable (id : Nat) : (small id).Sendable :=
  ⟨(by decide : (0 : Int16) < 32), fun set => absurd set (by simp [small, filled, plainHeader])⟩

/-- The first datagram is sent at once. -/
theorem start_small : ({ payloadLength := 0, mtu := 0 } : Sender (Ipv4Header ⊕ List Bool)).step
      (.never _) (.fragmentPostRouting (small 1) [] .direct) =
    .ok { packet := .to (small 1), currentFragment := .to (small 1), payloadLength := 0, mtu := 1500
          endTxTimer := true, arrived := [small 1], handed := [⟨1, filled 16⟩] } := by
  have length_eq : getByteLength (filled 16).packet = 36 := by decide +kernel
  have alive : ¬ (plainHeader 16).timeToLive ≤ 0 := by decide
  have header_eq : (filled 16).header = plainHeader 16 := rfl
  simp [Sender.step, Sender.fragmentPostRouting, verdict, Sender.sendNext, Sender.fragmentAndSend,
    Sender.sendDatagramToOutput, Sender.sendPacketToNIC, small, length_eq, header_eq, alive]

/-- The second datagram waits for the timer. -/
theorem reached_live_small : ∃ sender : Sender (Ipv4Header ⊕ List Bool),
    sender.queue.map Outgoing.id = [2] ∧ sender.endTxTimer = true ∧ sender.Live :=
  ⟨_, rfl, rfl, (reached_live (.never _) _ (.step (.fragmentPostRouting (small 2) [] .direct)
    (.step (.fragmentPostRouting (small 1) [] .direct) (.start 0 0) (by simp [Event.Enabled])
      (small_sendable 1) start_small) (by simp [Event.Enabled, small]) (small_sendable 2) rfl)).1⟩

/-- Behind a datagram with an expired time to live, nothing is sent any more. -/
theorem reached_wedged : ¬ ∀ sender : Sender (Ipv4Header ⊕ List Bool),
    Reached (.never _) Ordinary sender →
      sender.Live ∧ ∀ event, event.Enabled sender → Ordinary sender event →
        sender.step (.never _) event ≠ .error .alreadyScheduled := by
  intro all
  have live := (all _ (.step (.fragmentPostRouting (small 2) [] .direct) (.step
    (.fragmentPostRouting (expired 1) [] .direct) (.start 0 0) (by simp [Event.Enabled]) trivial rfl)
      (by simp [Event.Enabled, small, expired, Sender.delete]) trivial rfl)).1
  rcases live (.inl (by simp)) with timer | ⟨p, _, packet, _⟩
  · cases timer
  · cases packet

end Inet.Ipv4
