import Inet.Tcp.Receiver

/-!
# The advertised receive window

`updateRcvWnd` computes the window of each segment that is sent. The peer shifts the value that
it finds in the header and adds it to the acknowledged sequence number.
-/
namespace Inet.Tcp

open Lib Lib.Serial ReceiveOutline

namespace TcpReceiver

section Code

variable (r : TcpReceiver)

/-- The silly window syndrome: less than one segment is not advertised. -/
def isSilly (win : BitVec 32) : Bool := win < r.maxRcvBuffer / 4 && win < r.snd_mss

/-- The upper limit on a connection. -/
def maxWin : BitVec 32 :=
  if r.ws_enabled && r.rcv_wnd_scale != 0 then 65535#32 <<< r.rcv_wnd_scale else 65535#32

/-- The window before it is scaled. -/
def unscaledWindow : BitVec 32 :=
  let win := r.freeRcvBuffer
  let win := if r.isSilly win then 0 else win
  let win := if win < r.rcv_adv - r.rcv_nxt then r.rcv_adv - r.rcv_nxt else win
  if r.maxWin < win then r.maxWin else win

def scaleWindow (win : BitVec 32) : Except String (BitVec 32) :=
  if r.ws_enabled && r.rcv_wnd_scale != 0 then do
    assert (r.rcv_wnd_scale ≤ 14) "state->rcv_wnd_scale <= 14"
    return win >>> r.rcv_wnd_scale
  else .ok win

/-- The value for the header comes with the receiver. -/
def updateRcvWnd : Except String (BitVec 16 × TcpReceiver) := do
  let r := r.updateRcvQueueVars
  let win := r.unscaledWindow
  let rcv_adv :=
    if 0 < win && seqGE (r.rcv_nxt + win) r.rcv_adv then r.rcv_nxt + win else r.rcv_adv
  let scaled_rcv_wnd ← r.scaleWindow win
  let returned := scaled_rcv_wnd.setWidth 16
  assert (scaled_rcv_wnd == returned.setWidth 32)
    "scaled_rcv_wnd == (unsigned short)scaled_rcv_wnd"
  return (returned, { r with rcv_adv, rcv_wnd := win })

/-- The text of a segment, if it is acceptable and there is room for it. -/
def receiveText (debug : Bool) (a : Arrival) : Except TcpError TcpReceiver :=
  if r.accepts a && a.payloadLength ≠ 0 then
    let r := r.updateRcvQueueVars
    if r.hasEnoughSpaceForSegmentInReceiveQueue a then r.insertText debug a else .ok r
  else .ok r

end Code

/-- A receiver behind the handshake. A window above 65535 is not advertised before the peer is known
to scale. -/
def established (startSeq : SeqNum) (advertisedWindow snd_mss : BitVec 32) (ws_enabled : Bool)
    (rcv_wnd_scale : Nat) (sack_enabled : Bool) : TcpReceiver :=
  let rcv_wnd := if 65535 < advertisedWindow then 65535 else advertisedWindow
  { rcv_nxt := startSeq
    rcv_adv := startSeq + rcv_wnd
    rcv_wnd, snd_mss
    maxRcvBuffer := advertisedWindow
    freeRcvBuffer := advertisedWindow
    usedRcvBuffer := 0
    ws_enabled, rcv_wnd_scale
    fin_rcvd := false
    rcv_fin_seq := 0
    sack_enabled
    snd_sack := false
    snd_dsack := false
    start_seqno := 0
    end_seqno := 0
    sacks_array := []
    receiveQueue := ReceiveOutline.init startSeq }

/-! ### What the peer makes of a window -/

variable (r : TcpReceiver)

/-- The peer shifts windows by the scale that it was told, if both sides scale. -/
def shift : Nat := if r.ws_enabled then r.rcv_wnd_scale else 0

/-- The offset of `rcv_nxt` in the stream. -/
def position : Nat :=
  r.receiveQueue.expectedOffset +
    (r.rcv_nxt - offsetToSeq r.receiveQueue.expectedOffset).toNat

/-- The free space of the receive buffer. -/
def free : Nat := (r.receiveQueue.getAmountOfFreeBytes r.maxRcvBuffer).toNat

/-- What is left of an earlier advertisement. -/
def open_ : Nat := if seqLE r.rcv_nxt r.rcv_adv then (r.rcv_adv - r.rcv_nxt).toNat else 0

/-- A window whose right edge is not before an earlier one, and for which there is space or that was
advertised before. -/
structure Advertises (r : TcpReceiver) (edge : Nat) (window : BitVec 16) : Prop where
  kept : edge ≤ r.position + window.toNat * 2 ^ r.shift
  covered : window.toNat * 2 ^ r.shift ≤ max r.free r.open_

instance (edge : Nat) (window : BitVec 16) : Decidable (r.Advertises edge window) :=
  decidable_of_iff (edge ≤ r.position + window.toNat * 2 ^ r.shift ∧
    window.toNat * 2 ^ r.shift ≤ max r.free r.open_)
    ⟨fun ⟨kept, covered⟩ => ⟨kept, covered⟩, fun ⟨kept, covered⟩ => ⟨kept, covered⟩⟩

/-- The window that is computed fits the header, and is honest after an earlier right edge. -/
def Honest (edge : Nat) : Prop :=
  ∃ window after, r.updateRcvWnd = .ok (window, after) ∧ r.Advertises edge window

/-- A number of bytes that the peer can be told. -/
def whole (bytes : Nat) : Nat := bytes / 2 ^ r.shift * 2 ^ r.shift

/-- `rcv_nxt` is not beyond what was advertised, and what is left of the edge that the peer knows
survives being rounded down. -/
structure Answerable (r : TcpReceiver) (edge : Nat) : Prop where
  reached : seqLE r.rcv_nxt r.rcv_adv = true ∨ 65535 * 2 ^ r.shift ≤ r.free
  near : edge ≤ r.position + 65535 * 2 ^ r.shift
  rounded : edge ≤ r.position + r.whole (r.rcv_adv - r.rcv_nxt).toNat ∨
    (r.isSilly (r.receiveQueue.getAmountOfFreeBytes r.maxRcvBuffer) = false ∧
      edge ≤ r.position + r.whole r.free)

/-! ### The window in numbers -/

variable {r} {edge : Nat}

theorem maxWin_toNat (scale : r.rcv_wnd_scale ≤ 14) : r.maxWin.toNat = 65535 * 2 ^ r.shift := by
  have small : 2 ^ r.rcv_wnd_scale ≤ 2 ^ 14 := Nat.pow_le_pow_right (by decide) scale
  unfold maxWin shift
  split
  next scaled =>
    rw [Bool.and_eq_true] at scaled
    rw [if_pos scaled.1, BitVec.toNat_shiftLeft, Nat.shiftLeft_eq, Nat.mod_eq_of_lt]
    · rfl
    · rw [BitVec.toNat_ofNat]
      omega
  next unscaled =>
    split
    next enabled =>
      rw [enabled, Bool.true_and, bne_iff_ne, not_ne_iff] at unscaled
      rw [unscaled]
      rfl
    · rfl

theorem unscaledWindow_toNat : r.unscaledWindow.toNat =
    min (max (if r.isSilly r.freeRcvBuffer then 0 else r.freeRcvBuffer.toNat)
      (r.rcv_adv - r.rcv_nxt).toNat) r.maxWin.toNat := by
  have zero : (0 : BitVec 32).toNat = 0 := rfl
  unfold unscaledWindow
  by_cases silly : r.isSilly r.freeRcvBuffer = true
  · simp only [silly, if_true, BitVec.lt_def]
    split
    next less => split <;> omega
    next less => split <;> omega
  · simp only [silly, Bool.false_eq_true, if_false, BitVec.lt_def]
    split
    next less => split <;> omega
    next less => split <;> omega

/-- The free space that is not suppressed. -/
def offered (r : TcpReceiver) : Nat :=
  if r.isSilly (r.receiveQueue.getAmountOfFreeBytes r.maxRcvBuffer) then 0 else r.free

/-- What the peer makes of the window. -/
def told (r : TcpReceiver) : Nat :=
  r.whole (min (max r.offered (r.rcv_adv - r.rcv_nxt).toNat) (65535 * 2 ^ r.shift))

theorem scaleWindow_eq (scale : r.rcv_wnd_scale ≤ 14) (win : BitVec 32) :
    r.scaleWindow win = .ok (win >>> r.shift) := by
  unfold scaleWindow shift
  split
  next scaled =>
    rw [Bool.and_eq_true] at scaled
    rw [if_pos scaled.1, decide_eq_true scale]
    rfl
  next unscaled =>
    split
    next enabled =>
      rw [enabled, Bool.true_and, bne_iff_ne, not_ne_iff] at unscaled
      rw [unscaled, BitVec.ushiftRight_zero]
    · rw [BitVec.ushiftRight_zero]

/-- The window always fits the header. -/
theorem updateRcvWnd_told (scale : r.rcv_wnd_scale ≤ 14) : ∃ window after,
    r.updateRcvWnd = .ok (window, after) ∧ window.toNat * 2 ^ r.shift = r.told ∧
      after.rcv_wnd_scale = r.rcv_wnd_scale := by
  have computed : r.updateRcvQueueVars.unscaledWindow.toNat =
      min (max r.offered (r.rcv_adv - r.rcv_nxt).toNat) (65535 * 2 ^ r.shift) := by
    rw [unscaledWindow_toNat, maxWin_toNat (r := r.updateRcvQueueVars) scale]
    rfl
  have scaled (win : BitVec 32) : r.updateRcvQueueVars.scaleWindow win = .ok (win >>> r.shift) :=
    scaleWindow_eq (r := r.updateRcvQueueVars) scale win
  have small : r.updateRcvQueueVars.unscaledWindow.toNat / 2 ^ r.shift < 2 ^ 16 := by
    rw [Nat.div_lt_iff_lt_mul (Nat.two_pow_pos _)]
    have positive : 0 < 2 ^ r.shift := Nat.two_pow_pos _
    omega
  have value : (r.updateRcvQueueVars.unscaledWindow >>> r.shift).toNat =
      r.updateRcvQueueVars.unscaledWindow.toNat / 2 ^ r.shift := by
    rw [BitVec.toNat_ushiftRight, Nat.shiftRight_eq_div_pow]
  have fits : (r.updateRcvQueueVars.unscaledWindow >>> r.shift ==
      ((r.updateRcvQueueVars.unscaledWindow >>> r.shift).setWidth 16).setWidth 32) = true := by
    rw [beq_iff_eq]
    apply BitVec.eq_of_toNat_eq
    rw [BitVec.toNat_setWidth, BitVec.toNat_setWidth, value]
    omega
  unfold updateRcvWnd
  simp only [scaled, ok_bind, fits]
  refine ⟨_, _, rfl, ?_, rfl⟩
  rw [BitVec.toNat_setWidth, value, Nat.mod_eq_of_lt small, computed]
  rfl

/-! ### When the window is honest -/

theorem whole_mono {m n : Nat} (le : m ≤ n) : r.whole m ≤ r.whole n :=
  Nat.mul_le_mul_right _ (Nat.div_le_div_right le)

theorem whole_le (n : Nat) : r.whole n ≤ n := Nat.div_mul_le_self _ _

theorem whole_mul (n : Nat) : r.whole (n * 2 ^ r.shift) = n * 2 ^ r.shift := by
  rw [whole, Nat.mul_div_cancel _ (Nat.two_pow_pos _)]

/-- The largest window is less than half of the sequence space. -/
theorem limit_lt (scale : r.rcv_wnd_scale ≤ 14) : 65535 * 2 ^ r.shift < 2 ^ 31 := by
  have small : 2 ^ r.shift ≤ 2 ^ 14 := by
    apply Nat.pow_le_pow_right (by decide)
    unfold shift
    split
    · exact scale
    · exact Nat.zero_le _
  omega

theorem told_eq : r.told =
    min (max (r.whole r.offered) (r.whole (r.rcv_adv - r.rcv_nxt).toNat)) (65535 * 2 ^ r.shift) := by
  have monotone : Monotone r.whole := fun _ _ le => whole_mono le
  rw [told, monotone.map_min, monotone.map_max, whole_mul]

/-- A difference that is no distance ahead counts as the largest window. -/
theorem told_of_beyond (scale : r.rcv_wnd_scale ≤ 14)
    (beyond : ¬ seqLE r.rcv_nxt r.rcv_adv = true) : r.told = 65535 * 2 ^ r.shift := by
  have limit := limit_lt scale
  rw [seqLE_iff, fwd] at beyond
  rw [told, min_eq_right (by omega), whole_mul]

theorem covered_iff (scale : r.rcv_wnd_scale ≤ 14) : r.told ≤ max r.free r.open_ ↔
    seqLE r.rcv_nxt r.rcv_adv = true ∨ 65535 * 2 ^ r.shift ≤ r.free := by
  unfold open_
  by_cases reached : seqLE r.rcv_nxt r.rcv_adv = true
  · have less : r.offered ≤ r.free := by
      unfold offered
      split
      · exact Nat.zero_le _
      · exact Nat.le_refl _
    have rounded := whole_le (r := r)
      (min (max r.offered (r.rcv_adv - r.rcv_nxt).toNat) (65535 * 2 ^ r.shift))
    simp only [reached, if_true, true_or, iff_true]
    rw [told]
    omega
  · rw [told_of_beyond scale reached, if_neg reached]
    simp [reached]

theorem kept_iff : edge ≤ r.position + r.told ↔ edge ≤ r.position + 65535 * 2 ^ r.shift ∧
    (edge ≤ r.position + r.whole (r.rcv_adv - r.rcv_nxt).toNat ∨
      (r.isSilly (r.receiveQueue.getAmountOfFreeBytes r.maxRcvBuffer) = false ∧
        edge ≤ r.position + r.whole r.free)) := by
  rw [told_eq]
  unfold offered
  split
  next silly =>
    have none : r.whole 0 = 0 := by rw [whole, Nat.zero_div, Nat.zero_mul]
    simp only [silly, none, Bool.true_eq_false, false_and, or_false]
    omega
  next taken =>
    rw [Bool.not_eq_true] at taken
    simp only [taken, true_and]
    omega

theorem honest_iff (scale : r.rcv_wnd_scale ≤ 14) : r.Honest edge ↔ r.Answerable edge := by
  obtain ⟨window, after, computed, told_eq, _⟩ := updateRcvWnd_told scale
  constructor
  · rintro ⟨window', after', computed', kept, covered⟩
    obtain ⟨rfl, rfl⟩ : window' = window ∧ after' = after := by
      rw [computed] at computed'
      injection computed' with same
      injection same with window_eq after_eq
      exact ⟨window_eq.symm, after_eq.symm⟩
    rw [told_eq] at kept covered
    obtain ⟨near, rounded⟩ := kept_iff.mp kept
    exact ⟨(covered_iff scale).mp covered, near, rounded⟩
  · rintro ⟨reached, near, rounded⟩
    refine ⟨window, after, computed, ?_, ?_⟩
    · rw [told_eq]
      exact kept_iff.mpr ⟨near, rounded⟩
    · rw [told_eq]
      exact (covered_iff scale).mpr reached

end TcpReceiver

/-! ### Runs -/

/-- What happens at a receiver, in any order. -/
inductive ReceiverEvent where
  | text (debug : Bool) (a : Arrival)
  | read
  | storedFin
  | fin (a : Arrival)
  | advertise

/-- A receiver with the furthest right edge that the peer knows. -/
structure Advertised where
  receiver : TcpReceiver
  edge : Nat

namespace Advertised

def step (s : Advertised) : ReceiverEvent → Except TcpError Advertised
  | .text debug a => do
    let receiver ← s.receiver.receiveText debug a
    return { s with receiver }
  | .read => do
    let receiver ← s.receiver.readAll
    return { s with receiver }
  | .storedFin => .ok { s with receiver := s.receiver.passStoredFin }
  | .fin a => .ok { s with receiver := s.receiver.processFin a }
  | .advertise => do
    let (window, receiver) ← s.receiver.updateRcvWnd.mapError .connection
    return ⟨receiver, max s.edge (s.receiver.position + window.toNat * 2 ^ s.receiver.shift)⟩

/-- Each window is honest with respect to all earlier ones. -/
def HonestAt (s : Advertised) : ReceiverEvent → Prop
  | .advertise => s.receiver.Honest s.edge
  | _ => True

def AnswerableAt (s : Advertised) : ReceiverEvent → Prop
  | .advertise => s.receiver.Answerable s.edge
  | _ => True

variable {s after : Advertised}

theorem receiveText_scale {r after : TcpReceiver} {debug : Bool} {a : Arrival}
    (received : r.receiveText debug a = .ok after) : after.rcv_wnd_scale = r.rcv_wnd_scale := by
  unfold TcpReceiver.receiveText at received
  split at received
  · simp only at received
    split at received
    · obtain ⟨_, _, returned⟩ := bind_eq_ok.mp received
      cases returned
      rfl
    · cases received
      rfl
  · cases received
    rfl

theorem readAll_scale {r after : TcpReceiver} (read : r.readAll = .ok after) :
    after.rcv_wnd_scale = r.rcv_wnd_scale := by
  obtain ⟨⟨data, _⟩, _, returned⟩ := bind_eq_ok.mp read
  cases data with
  | none =>
    cases returned
    rfl
  | some _ =>
    obtain ⟨_, _, returned⟩ := bind_eq_ok.mp returned
    cases returned
    rfl

/-- No event changes the scale. -/
theorem step_scale (scale : s.receiver.rcv_wnd_scale ≤ 14) {event : ReceiverEvent}
    (stepped : s.step event = .ok after) :
    after.receiver.rcv_wnd_scale = s.receiver.rcv_wnd_scale := by
  cases event with
  | text debug a =>
    obtain ⟨_, received, returned⟩ := bind_eq_ok.mp stepped
    cases returned
    exact receiveText_scale received
  | read =>
    obtain ⟨_, read, returned⟩ := bind_eq_ok.mp stepped
    cases returned
    exact readAll_scale read
  | storedFin =>
    cases stepped
    unfold TcpReceiver.passStoredFin
    split <;> rfl
  | fin a =>
    cases stepped
    unfold TcpReceiver.processFin
    split <;> rfl
  | advertise =>
    obtain ⟨window, told, computed, _, same⟩ := TcpReceiver.updateRcvWnd_told scale
    unfold step at stepped
    simp only [computed, Except.mapError, ok_bind] at stepped
    cases stepped
    exact same

/-- All windows of a run are honest exactly if all of them are computed where they can be. -/
theorem advertisements_honest_iff (scale : s.receiver.rcv_wnd_scale ≤ 14)
    (events : List ReceiverEvent) :
    HoldsAlong step HonestAt s events ↔ HoldsAlong step AnswerableAt s events := by
  refine HoldsAlong.iff_of_invariant (fun s => s.receiver.rcv_wnd_scale ≤ 14) ?_ ?_ scale events
  · intro s event scale
    cases event with
    | advertise => exact TcpReceiver.honest_iff scale
    | text debug a => exact Iff.rfl
    | read => exact Iff.rfl
    | storedFin => exact Iff.rfl
    | fin a => exact Iff.rfl
  · intro s event after scale _ stepped
    exact (step_scale scale stepped).trans_le scale

/-- Behind the handshake the peer knows the window that was sent without a scale. -/
def established (startSeq : SeqNum) (advertisedWindow snd_mss : BitVec 32) (ws_enabled : Bool)
    (rcv_wnd_scale : Nat) (sack_enabled : Bool) : Advertised :=
  let receiver :=
    TcpReceiver.established startSeq advertisedWindow snd_mss ws_enabled rcv_wnd_scale sack_enabled
  ⟨receiver, receiver.position + receiver.rcv_wnd.toNat⟩

/-- All of a window of ten bytes, and the end of the stream. -/
def tenBytes : Arrival where
  sequenceNo := 1
  payloadLength := 10
  finBit := true
  short := by decide

theorem full_window_honest : HoldsAlong step HonestAt (established 1 10 536 false 0 false)
    [.advertise, .text true tenBytes, .advertise] := by
  refine (advertisements_honest_iff (by decide) _).mpr ?_
  refine ⟨⟨by decide, by decide, by decide⟩, fun after stepped => ?_⟩
  cases stepped
  refine ⟨trivial, fun after stepped => ?_⟩
  cases stepped
  exact ⟨⟨by decide, by decide, by decide⟩, fun _ _ => trivial⟩

/-- Behind a FIN that ends a full window, the window is the largest one. -/
theorem not_honest : ¬ ∀ (startSeq : SeqNum) (advertisedWindow snd_mss : BitVec 32)
    (ws_enabled : Bool) (rcv_wnd_scale : Nat) (sack_enabled : Bool),
    0 < advertisedWindow → advertisedWindow ≤ 0x3fffffff → rcv_wnd_scale ≤ 14 →
    ∀ events : List ReceiverEvent, HoldsAlong step HonestAt
      (established startSeq advertisedWindow snd_mss ws_enabled rcv_wnd_scale sack_enabled)
      events := by
  intro all
  have run := all 1 10 536 false 0 false (by decide) (by decide) (by decide)
    [.text true tenBytes, .fin tenBytes, .advertise]
  obtain ⟨⟨window, after, computed, kept, covered⟩, _⟩ := (run.2 _ rfl).2 _ rfl
  cases computed
  exact absurd covered (by decide)

end Advertised
end Inet.Tcp
