import Inet.Ipv4.PacedLiveness

/-!
# Fragments of the paced sender

The offset of the sender belongs to the datagram that it sends. A datagram that a hook gives back is
sent in between and moves the offset as well.
-/
namespace Inet.Ipv4

open Lib Packet

variable {F : Type} [Ipv4Fields F] {sharing : Sharing F}

/-- A datagram that is sent in fragments. -/
structure Outgoing.Oversized (p : Outgoing F) : Prop where
  alive : 0 < p.datagram.header.timeToLive
  limited : p.mtu ≠ 0
  long : p.mtu < getByteLength p.datagram.packet
  allowed : p.datagram.header.dontFragment = false

/-- Fragments of a datagram that carry its payload from the front up to an offset, in bytes. -/
inductive Outgoing.CutTo (p : Outgoing F) (payload : List Bool) :
    List (Datagram Ipv4Header F) → Nat → Prop
  | nil : CutTo p payload [] 0
  | snoc {fragments : List (Datagram Ipv4Header F)} {first last : Nat}
      {fragment : Datagram Ipv4Header F} (front : CutTo p payload fragments first)
      (nonempty : first < last) (inside : 8 * last ≤ payload.length)
      (eighths : 8 * last = payload.length ∨ (last - first) % 8 = 0)
      (fits : (p.datagram.header.headerLength + (last - first : Nat) : Int) ≤ p.mtu)
      (cut : CutOf p.datagram payload first last fragment) :
      CutTo p payload (fragments ++ [fragment]) last

/-- The first fragment starts where the datagram does. -/
theorem Outgoing.CutTo.head {p : Outgoing F} {payload : List Bool}
    {fragments : List (Datagram Ipv4Header F)} {last : Nat} (cutTo : p.CutTo payload fragments last)
    {fragment : Datagram Ipv4Header F} (head : fragments.head? = some fragment) :
    fragment.header.fragmentOffset = p.datagram.header.fragmentOffset := by
  induction cutTo with
  | nil => cases head
  | @snoc fragments first last final front _ _ _ _ cut ih =>
    cases fragments with
    | cons other rest => exact ih head
    | nil =>
      have none : first = 0 := by
        generalize made : ([] : List (Datagram Ipv4Header F)) = fragments at front
        cases front with
        | nil => rfl
        | snoc => simp at made
      cases head
      have offset := cut.offset
      rw [none, Nat.add_zero] at offset
      exact UInt16.toNat_inj.mp offset

/-- A payload that ends where an offset of 16 bits can end. -/
structure Outgoing.Sound (p : Outgoing F) (payload : List Bool) : Prop where
  holds : Holds p.datagram payload
  fits : 8 * p.datagram.header.fragmentOffset.toNat + payload.length ≤ 8 * 65536

namespace Sender

/-- What is sent of a datagram so far. -/
def handedOf (sender : Sender F) (id : Nat) : List (Datagram Ipv4Header F) :=
  (sender.handed.filter (·.id = id)).map Handed.datagram

/-- Everything that is sent is a datagram or a fragment of the datagram that it is of, and the
fragments of a datagram are sent from the front on. -/
structure Tiled (sender : Sender F) : Prop where
  known : ∀ packet ∈ sender.handed, ∃ p ∈ sender.arrived, p.id = packet.id
  whole : ∀ p ∈ sender.arrived, ¬ p.Oversized → ∀ packet ∈ sender.handedOf p.id, packet = p.datagram
  cut : ∀ p ∈ sender.arrived, p.Oversized → ∃ payload, Holds p.datagram payload ∧
    ∃ last, p.CutTo payload (sender.handedOf p.id) last

end Sender

/-- Events that bring oversized datagrams only with a payload. -/
def Fitting (_ : Sender F) : Event F → Prop
  | .fragmentPostRouting p _ _ => p.Oversized → ∃ payload, p.Sound payload
  | _ => True

/-- Events that leave the offset to the datagram that is sent: what a hook gives back needs no
fragments, or RDMA sends all of them at once. -/
def Undisturbed (sender : Sender F) : Event F → Prop
  | .reinjectQueuedDatagram id _ => ∀ p ∈ sender.queuedDatagramsForHooks, p.id = id → p.Oversized →
    sender.isRdma = true ∧ sender.offset = 0
  | event => Fitting sender event

/-! ### Sending a datagram -/

omit [Ipv4Fields F] in
theorem Outgoing.Oversized.of_not {p : Outgoing F} (alive : ¬ p.datagram.header.timeToLive ≤ 0)
    (long : ¬ (p.mtu = 0 ∨ getByteLength p.datagram.packet ≤ p.mtu))
    (allowed : ¬ p.datagram.header.dontFragment = true) : p.Oversized := by
  rw [not_or] at long
  exact ⟨Int16.not_le.mp alive, long.1, Int.not_le.mp long.2, Bool.eq_false_iff.mpr allowed⟩

omit [Ipv4Fields F] in
theorem fragmentLength_mod (datagram : Datagram Ipv4Header F) (mtu : Int) :
    fragmentLength datagram mtu % 8 = 0 := by
  unfold fragmentLength
  omega

omit [Ipv4Fields F] in
/-- There is room for a fragment with its header. -/
theorem fragmentLength_le {datagram : Datagram Ipv4Header F} {mtu : Int}
    (positive : 0 < fragmentLength datagram mtu) :
    datagram.header.headerLength + fragmentLength datagram mtu ≤ mtu := by
  unfold fragmentLength at *
  obtain ⟨room, room_eq⟩ : ∃ room, room = mtu - (datagram.header.headerLength : Int) := ⟨_, rfl⟩
  rw [← room_eq] at positive ⊢
  rcases Int.le_total 0 room with nonneg | negative
  · rw [Int.tdiv_eq_ediv_of_nonneg nonneg] at positive ⊢
    omega
  · have := Int.tdiv_nonneg (a := -room) (b := 8) (by omega) (by omega)
    rw [Int.neg_tdiv] at this
    omega

namespace Sender

/-- Packets of one datagram are sent, and the rest is as before. -/
structure Sends (p : Outgoing F) (sender after : Sender F) : Prop where
  arrived : after.arrived = sender.arrived
  queue : after.queue = sender.queue
  hooks : after.queuedDatagramsForHooks = sender.queuedDatagramsForHooks
  isRdma : after.isRdma = sender.isRdma
  handed : ∃ sent : List (Handed F), after.handed = sender.handed ++ sent ∧
    ∀ packet ∈ sent, packet.id = p.id

omit [Ipv4Fields F] in
theorem Sends.refl (p : Outgoing F) (sender : Sender F) : Sends p sender sender :=
  ⟨rfl, rfl, rfl, rfl, [], by simp, by simp⟩

omit [Ipv4Fields F] in
theorem Sends.trans {p : Outgoing F} {sender middle after : Sender F}
    (first : Sends p sender middle) (second : Sends p middle after) : Sends p sender after := by
  obtain ⟨sent, handed, each⟩ := first.handed
  obtain ⟨more, handed_more, each_more⟩ := second.handed
  refine ⟨second.arrived.trans first.arrived, second.queue.trans first.queue,
    second.hooks.trans first.hooks, second.isRdma.trans first.isRdma,
    sent ++ more, ?_, List.forall_mem_append.mpr ⟨each, each_more⟩⟩
  rw [handed_more, handed, List.append_assoc]

omit [Ipv4Fields F] in
theorem sendPacketToNIC_eq {sender after : Sender F} (sent : sender.sendPacketToNIC = .ok after) :
    after = { sender with endTxTimer := true } := by
  unfold sendPacketToNIC at sent
  split at sent
  next => cases sent
  next =>
    cases sent
    rfl

omit [Ipv4Fields F] in
/-- A packet is passed on, or it waits. -/
theorem sendDatagramToOutput_cases {sender after : Sender F} {resolution : Resolution}
    {nextHop : UInt32} {packet : Handed F}
    (sent : sender.sendDatagramToOutput resolution nextHop packet = .ok after) :
    ∃ endTxTimer pendingPackets, after = { sender with
      handed := sender.handed ++ [packet], endTxTimer, pendingPackets } := by
  unfold sendDatagramToOutput at sent
  simp only at sent
  split at sent
  next => exact ⟨_, _, sendPacketToNIC_eq sent⟩
  next =>
    split at sent
    next => exact ⟨_, _, sendPacketToNIC_eq sent⟩
    next => cases sent
  next =>
    cases sent
    exact ⟨_, _, rfl⟩

omit [Ipv4Fields F] in
theorem handedOf_append {sender after : Sender F} {sent : List (Handed F)}
    (handed : after.handed = sender.handed ++ sent) (id : Nat) :
    after.handedOf id =
      sender.handedOf id ++ (sent.filter (·.id = id)).map Handed.datagram := by
  rw [handedOf, handed, List.filter_append, List.map_append, handedOf]

omit [Ipv4Fields F] in
/-- What is sent of other datagrams is as before. -/
theorem Sends.handedOf_other {p : Outgoing F} {sender after : Sender F}
    (sends : Sends p sender after) {id : Nat} (other : id ≠ p.id) :
    after.handedOf id = sender.handedOf id := by
  obtain ⟨sent, handed, each⟩ := sends.handed
  have none : sent.filter (·.id = id) = [] := by
    apply List.filter_eq_nil_iff.mpr
    intro packet member
    simp [each packet member, Ne.symm other]
  rw [handedOf_append handed, none, List.map_nil, List.append_nil]

/-- The fragments of a datagram are sent up to the offset, and it is known how long it is. -/
structure CutTo (p : Outgoing F) (payload : List Bool) (sender : Sender F) : Prop where
  sent : p.CutTo payload (sender.handedOf p.id) sender.offset
  length : sender.payloadLength = Ipv4.payloadLength p.datagram

/-- The next fragment is sent. -/
theorem sendFragment_cut {p : Outgoing F} {payload : List Bool} {sender after : Sender F}
    {resolution : Resolution} (sound : p.Sound payload) (cutTo : CutTo p payload sender)
    (positive : 0 < fragmentLength p.datagram p.mtu) (before : sender.offset < sender.payloadLength)
    (sent : sender.sendFragment sharing resolution p (fragmentLength p.datagram p.mtu) =
      .ok after) :
    Sends p sender after ∧ after.packet = sender.packet ∧ CutTo p payload after := by
  have long := sound.holds.payloadLength
  have eighths := fragmentLength_mod p.datagram p.mtu
  have room := fragmentLength_le positive
  obtain ⟨cut_before, length_eq⟩ := cutTo
  rw [length_eq] at before
  obtain ⟨fragment, made, cut⟩ := fragmentAt_cut sharing sound.holds sound.fits
    (fragmentLength p.datagram p.mtu) positive sender.offset before
  obtain ⟨this, this_eq⟩ := Int.eq_ofNat_of_zero_le
    (a := min (fragmentLength p.datagram p.mtu) (Ipv4.payloadLength p.datagram - sender.offset))
    (by omega)
  rw [this_eq] at made cut
  unfold sendFragment at sent
  rw [length_eq, made, Except.mapError, ok_bind] at sent
  obtain ⟨middle, output, returned⟩ := bind_eq_ok.mp sent
  obtain ⟨endTxTimer, pendingPackets, rfl⟩ := sendDatagramToOutput_cases output
  cases returned
  refine ⟨⟨rfl, rfl, rfl, rfl, [⟨p.id, fragment⟩], rfl, by simp⟩, rfl, ?_, length_eq⟩
  rw [handedOf_append rfl]
  have kept : ([(⟨p.id, fragment⟩ : Handed F)].filter (·.id = p.id)).map Handed.datagram =
      [fragment] := by simp
  have next : ((sender.offset : Int) + this).toNat = sender.offset + this := by omega
  simp only [kept, next]
  refine .snoc cut_before (by omega) (by omega) (by omega) (by omega) cut

/-- The remaining fragments are sent. -/
theorem sendFragments_cut {p : Outgoing F} {payload : List Bool} {sender after : Sender F}
    {resolution : Resolution} (sound : p.Sound payload) (cutTo : CutTo p payload sender)
    (positive : 0 < fragmentLength p.datagram p.mtu) {bound : Nat}
    (sent : sender.sendFragments sharing resolution p (fragmentLength p.datagram p.mtu) bound =
      .ok after) :
    Sends p sender after ∧ after.packet = sender.packet ∧ CutTo p payload after := by
  induction bound generalizing sender with
  | zero =>
    unfold sendFragments at sent
    split at sent
    next => cases sent
    next =>
      cases sent
      exact ⟨.refl p _, rfl, cutTo⟩
  | succ bound ih =>
    unfold sendFragments at sent
    split at sent
    next before =>
      obtain ⟨middle, first, rest⟩ := bind_eq_ok.mp sent
      obtain ⟨sends, packet, cut⟩ := sendFragment_cut sound cutTo positive before first
      obtain ⟨sends_rest, packet_rest, cut_rest⟩ := ih cut rest
      exact ⟨sends.trans sends_rest, packet_rest.trans packet, cut_rest⟩
    next =>
      cases sent
      exact ⟨.refl p _, rfl, cutTo⟩

omit [Ipv4Fields F] in
/-- Where nothing is sent. -/
theorem Sends.of_same {p : Outgoing F} {sender after : Sender F}
    (arrived : after.arrived = sender.arrived) (queue : after.queue = sender.queue)
    (hooks : after.queuedDatagramsForHooks = sender.queuedDatagramsForHooks)
    (isRdma : after.isRdma = sender.isRdma) (handed : after.handed = sender.handed) :
    Sends p sender after :=
  ⟨arrived, queue, hooks, isRdma, [], by simp [handed], by simp⟩

/-- What becomes of the current datagram when a datagram is sent that is not fragmented. -/
inductive Passed (p : Outgoing F) (sender after : Sender F) : Prop
  | same (packet : after.packet = sender.packet) (offset : after.offset = sender.offset)
      (payloadLength : after.payloadLength = sender.payloadLength)
  | released (packet : after.packet = .null) (offset : after.offset = 0)
  | deleted (other : Outgoing F) (packet : sender.packet = .to other) (this : other.id = p.id)
      (deleted : after.packet = .dangling) (offset : after.offset = sender.offset)

omit [Ipv4Fields F] in
theorem delete_passed (p : Outgoing F) (sender : Sender F) (currentFragment : Pointer (Outgoing F))
    (mtu : Int) :
    Sends p sender ({ sender with currentFragment, mtu }.delete p) ∧
      Passed p sender ({ sender with currentFragment, mtu }.delete p) := by
  refine ⟨.of_same rfl rfl rfl rfl rfl, ?_⟩
  rcases packet : sender.packet with _ | other | _
  · exact .same (by simp [delete, packet]) rfl rfl
  · by_cases this : other.id = p.id
    · exact .deleted other packet this (by simp [delete, this]) rfl
    · exact .same (by simp [delete, packet, this]) rfl rfl
  · exact .same (by simp [delete, packet]) rfl rfl

/-- A datagram that is not fragmented is dropped or sent as it is. -/
theorem fragmentAndSend_whole {p : Outgoing F} {sender after : Sender F} {resolution : Resolution}
    (small : ¬ p.Oversized) (sent : sender.fragmentAndSend sharing resolution p = .ok after) :
    Sends p sender after ∧ Passed p sender after ∧
      ∀ packet ∈ after.handedOf p.id, packet ∈ sender.handedOf p.id ∨ packet = p.datagram := by
  unfold fragmentAndSend at sent
  simp only at sent
  split at sent
  next =>
    cases sent
    obtain ⟨sends, passed⟩ := delete_passed p sender (.to p) sender.mtu
    exact ⟨sends, passed, fun packet member => .inl member⟩
  next alive =>
    split at sent
    next =>
      obtain ⟨middle, output, returned⟩ := bind_eq_ok.mp sent
      obtain ⟨endTxTimer, pendingPackets, rfl⟩ := sendDatagramToOutput_cases output
      have sends : ∀ packet currentFragment offset, Sends p sender { sender with
          packet, currentFragment, offset, mtu := p.mtu, endTxTimer, pendingPackets
          handed := sender.handed ++ [⟨p.id, p.datagram⟩] } := fun _ _ _ =>
        ⟨rfl, rfl, rfl, rfl, [⟨p.id, p.datagram⟩], rfl, by simp⟩
      have handed {after : Sender F} (handed : after.handed = sender.handed ++ [⟨p.id, p.datagram⟩]) :
          ∀ packet ∈ after.handedOf p.id, packet ∈ sender.handedOf p.id ∨ packet = p.datagram := by
        intro packet member
        rw [handedOf_append handed] at member
        simpa using member
      cases returned
      split
      next => exact ⟨sends _ _ _, .released rfl rfl, handed rfl⟩
      next => exact ⟨sends _ _ _, .same rfl rfl rfl, handed rfl⟩
    next long =>
      split at sent
      next =>
        cases sent
        obtain ⟨sends, passed⟩ := delete_passed p sender (.to p) p.mtu
        exact ⟨sends, passed, fun packet member => .inl member⟩
      next allowed => exact absurd (Outgoing.Oversized.of_not alive long allowed) small

/-- A datagram that starts at the front, or goes on where its last fragment ends. -/
structure Resumes (p : Outgoing F) (payload : List Bool) (sender : Sender F) : Prop where
  sound : p.Sound payload
  sent : p.CutTo payload (sender.handedOf p.id) sender.offset
  before : sender.offset = 0 ∨ sender.offset < Ipv4.payloadLength p.datagram

theorem Resumes.start {p : Outgoing F} {payload : List Bool} {sender : Sender F}
    (sound : p.Sound payload) (fresh : sender.handedOf p.id = []) (offset : sender.offset = 0) :
    Resumes p payload sender := by
  refine ⟨sound, ?_, .inl offset⟩
  rw [fresh, offset]
  exact .nil

/-- An oversized datagram that has room for fragments has a payload. -/
theorem payloadLength_pos {p : Outgoing F} {payload : List Bool} (oversized : p.Oversized)
    (holds : Holds p.datagram payload) (positive : 0 < fragmentLength p.datagram p.mtu) :
    0 < Ipv4.payloadLength p.datagram := by
  have room := fragmentLength_le positive
  have long := oversized.long
  have length_eq := holds.getDataLength
  have whole := holds.payloadLength
  unfold getByteLength at long
  omega

/-- An oversized datagram is sent in fragments, one or, with RDMA, all of them. -/
theorem fragmentAndSend_cut {p : Outgoing F} {payload : List Bool} {sender after : Sender F}
    {resolution : Resolution} (oversized : p.Oversized) (resumes : Resumes p payload sender)
    (sent : sender.fragmentAndSend sharing resolution p = .ok after) :
    Sends p sender after ∧ (∃ last, p.CutTo payload (after.handedOf p.id) last) ∧
      (sender.isRdma = false ∧ after.packet = sender.packet ∧ CutTo p payload after ∨
        sender.isRdma = true ∧ after.packet = .null ∧ after.offset = 0) := by
  obtain ⟨sound, cut, before⟩ := resumes
  unfold fragmentAndSend at sent
  simp only at sent
  rw [if_neg (Int16.not_le.mpr oversized.alive), if_neg (by
      rw [not_or]
      exact ⟨oversized.limited, Int.not_le.mpr oversized.long⟩),
    if_neg (by rw [oversized.allowed]; decide)] at sent
  split at sent
  next => cases sent
  next positive =>
    have positive := Int.not_le.mp positive
    have some_left := payloadLength_pos oversized sound.holds positive
    have here : CutTo p payload { sender with
      currentFragment := .to p, mtu := p.mtu, payloadLength := Ipv4.payloadLength p.datagram } :=
      ⟨cut, rfl⟩
    split at sent
    next rdma =>
      obtain ⟨middle, fragments, returned⟩ := bind_eq_ok.mp sent
      obtain ⟨sends, _, cut_after⟩ := sendFragments_cut sound here positive fragments
      cases returned
      exact ⟨⟨sends.arrived, sends.queue, sends.hooks, sends.isRdma, sends.handed⟩,
        ⟨_, cut_after.sent⟩, .inr ⟨rdma, rfl, rfl⟩⟩
    next ordinary =>
      obtain ⟨sends, packet, cut_after⟩ := sendFragment_cut sound here positive
        (by simp only; omega) sent
      exact ⟨⟨sends.arrived, sends.queue, sends.hooks, sends.isRdma, sends.handed⟩,
        ⟨_, cut_after.sent⟩, .inl ⟨Bool.eq_false_iff.mpr ordinary, packet, cut_after⟩⟩

/-! ### Invariant -/

/-- Datagrams that arrive have numbers of their own, and they are sent in order. -/
structure Recorded (sender : Sender F) : Prop where
  tiled : sender.Tiled
  distinct : ∀ p ∈ sender.arrived, ∀ other ∈ sender.arrived, p.id = other.id → p = other
  sound : ∀ p ∈ sender.arrived, p.Oversized → ∃ payload, p.Sound payload

/-- Datagrams of which nothing is sent. -/
structure Fresh (sender : Sender F) (unsent : List (Outgoing F)) : Prop where
  arrived : ∀ p ∈ unsent, p ∈ sender.arrived
  none : ∀ p ∈ unsent, sender.handedOf p.id = []
  separate : (unsent.map Outgoing.id).Nodup

/-- The offset belongs to the current datagram, which no longer waits. -/
structure Current (sender : Sender F) (unsent : List (Outgoing F)) : Prop where
  arrived : ∀ p, sender.packet = .to p → p ∈ sender.arrived
  taken : ∀ p, sender.packet = .to p → ∀ other ∈ unsent, other.id ≠ p.id
  cut : ∀ p, sender.packet = .to p → p.Oversized →
    ∃ payload, p.Sound payload ∧ CutTo p payload sender
  unmoved : (∀ p, sender.packet = .to p → ¬ p.Oversized) → sender.offset = 0

/-- Datagrams that are not sent yet. -/
def unsent (sender : Sender F) : List (Outgoing F) :=
  sender.queue ++ sender.queuedDatagramsForHooks

structure Orderly (sender : Sender F) : Prop where
  recorded : sender.Recorded
  fresh : sender.Fresh sender.unsent
  current : sender.Current sender.unsent

/-- One datagram is sent in order, and what is sent of others stays as it is. -/
theorem Recorded.sends {p : Outgoing F} {sender after : Sender F} (recorded : sender.Recorded)
    (sends : Sends p sender after) (arrived : p ∈ sender.arrived)
    (whole : ¬ p.Oversized → ∀ packet ∈ after.handedOf p.id, packet = p.datagram)
    (cut : p.Oversized → ∃ payload, Holds p.datagram payload ∧
      ∃ last, p.CutTo payload (after.handedOf p.id) last) : after.Recorded := by
  obtain ⟨⟨known, whole_before, cut_before⟩, distinct, sound⟩ := recorded
  refine ⟨⟨?_, ?_, ?_⟩, by rwa [sends.arrived], by rwa [sends.arrived]⟩
  · obtain ⟨sent, handed, each⟩ := sends.handed
    rw [handed, sends.arrived]
    refine List.forall_mem_append.mpr ⟨known, fun packet member => ⟨p, arrived, ?_⟩⟩
    exact (each packet member).symm
  · rw [sends.arrived]
    intro other member small
    by_cases this : other.id = p.id
    · cases distinct other member p arrived this
      exact whole small
    · rw [sends.handedOf_other this]
      exact whole_before other member small
  · rw [sends.arrived]
    intro other member oversized
    by_cases this : other.id = p.id
    · cases distinct other member p arrived this
      exact cut oversized
    · rw [sends.handedOf_other this]
      exact cut_before other member oversized

omit [Ipv4Fields F] in
theorem Fresh.sends {p : Outgoing F} {sender after : Sender F} {unsent : List (Outgoing F)}
    (fresh : sender.Fresh unsent) (sends : Sends p sender after)
    (taken : ∀ other ∈ unsent, other.id ≠ p.id) : after.Fresh unsent where
  arrived := by
    rw [sends.arrived]
    exact fresh.arrived
  none other member := by
    rw [sends.handedOf_other (taken other member)]
    exact fresh.none other member
  separate := fresh.separate

omit [Ipv4Fields F] in
theorem handedOf_same {sender after : Sender F} (handed : after.handed = sender.handed) :
    after.handedOf = sender.handedOf := by
  funext id
  rw [handedOf, handed, handedOf]

theorem Recorded.of_same {sender after : Sender F} (recorded : sender.Recorded)
    (arrived : after.arrived = sender.arrived) (handed : after.handed = sender.handed) :
    after.Recorded := by
  obtain ⟨⟨known, whole, cut⟩, distinct, sound⟩ := recorded
  refine ⟨⟨?_, ?_, ?_⟩, ?_, ?_⟩
  all_goals rw [arrived]
  · rwa [handed]
  · rwa [handedOf_same handed]
  · rwa [handedOf_same handed]
  · exact distinct
  · exact sound

omit [Ipv4Fields F] in
theorem Fresh.of_same {sender after : Sender F} {unsent : List (Outgoing F)}
    (fresh : sender.Fresh unsent) (arrived : after.arrived = sender.arrived)
    (handed : after.handed = sender.handed) : after.Fresh unsent := by
  refine ⟨?_, ?_, fresh.separate⟩
  · rw [arrived]
    exact fresh.arrived
  · rw [handedOf_same handed]
    exact fresh.none

omit [Ipv4Fields F] in
theorem Fresh.perm {sender : Sender F} {unsent others : List (Outgoing F)}
    (fresh : sender.Fresh unsent) (perm : unsent.Perm others) : sender.Fresh others where
  arrived p member := fresh.arrived p (perm.mem_iff.mpr member)
  none p member := fresh.none p (perm.mem_iff.mpr member)
  separate := (perm.map _).nodup_iff.mp fresh.separate

omit [Ipv4Fields F] in
theorem Fresh.sublist {sender : Sender F} {unsent others : List (Outgoing F)}
    (fresh : sender.Fresh unsent) (fewer : others.Sublist unsent) : sender.Fresh others where
  arrived p member := fresh.arrived p (fewer.subset member)
  none p member := fresh.none p (fewer.subset member)
  separate := (fewer.map _).nodup fresh.separate

theorem Current.mono {sender : Sender F} {unsent others : List (Outgoing F)}
    (current : sender.Current unsent) (among : others ⊆ unsent) : sender.Current others where
  arrived := current.arrived
  taken p packet other member := current.taken p packet other (among member)
  cut := current.cut
  unmoved := current.unmoved

theorem Current.of_same {sender after : Sender F} {unsent : List (Outgoing F)}
    (current : sender.Current unsent) (arrived : ∀ p ∈ sender.arrived, p ∈ after.arrived)
    (handed : after.handed = sender.handed) (packet : after.packet = sender.packet)
    (offset : after.offset = sender.offset)
    (payloadLength : after.payloadLength = sender.payloadLength) : after.Current unsent := by
  refine ⟨?_, ?_, ?_, ?_⟩
  all_goals rw [packet]
  · exact fun p this => arrived p (current.arrived p this)
  · exact current.taken
  · intro p this oversized
    obtain ⟨payload, sound, cut, length⟩ := current.cut p this oversized
    refine ⟨payload, sound, ?_, payloadLength.trans length⟩
    rw [handedOf_same handed, offset]
    exact cut
  · rw [offset]
    exact current.unmoved

theorem Current.ended {sender : Sender F} (unsent : List (Outgoing F))
    (packet : ∀ p, sender.packet ≠ .to p) (offset : sender.offset = 0) : sender.Current unsent :=
  ⟨fun p this => absurd this (packet p), fun p this => absurd this (packet p),
    fun p this => absurd this (packet p), fun _ => offset⟩

theorem Current.of_packet {p : Outgoing F} {sender : Sender F} {unsent : List (Outgoing F)}
    (packet : sender.packet = .to p) (arrived : p ∈ sender.arrived)
    (taken : ∀ other ∈ unsent, other.id ≠ p.id)
    (cut : p.Oversized → ∃ payload, p.Sound payload ∧ CutTo p payload sender)
    (unmoved : ¬ p.Oversized → sender.offset = 0) : sender.Current unsent := by
  have only : ∀ other, sender.packet = .to other → other = p := by
    intro other this
    rw [packet] at this
    cases this
    rfl
  refine ⟨?_, ?_, ?_, fun small => unmoved (small p packet)⟩
  · intro other this
    rw [only other this]
    exact arrived
  · intro other this
    rw [only other this]
    exact taken
  · intro other this
    rw [only other this]
    exact cut

/-- The current datagram is sent, or goes on. -/
theorem fragmentAndSend_current {p : Outgoing F} {sender after : Sender F}
    {unsent : List (Outgoing F)} {resolution : Resolution} (recorded : sender.Recorded)
    (packet : sender.packet = .to p) (arrived : p ∈ sender.arrived)
    (taken : ∀ other ∈ unsent, other.id ≠ p.id) (unmoved : ¬ p.Oversized → sender.offset = 0)
    (resumes : p.Oversized → ∃ payload, Resumes p payload sender)
    (sent : sender.fragmentAndSend sharing resolution p = .ok after) :
    Sends p sender after ∧ after.Recorded ∧ after.Current unsent := by
  by_cases oversized : p.Oversized
  · obtain ⟨payload, resumes⟩ := resumes oversized
    obtain ⟨sends, cut, current⟩ := fragmentAndSend_cut oversized resumes sent
    refine ⟨sends, recorded.sends sends arrived (fun small => absurd oversized small)
      (fun _ => ⟨payload, resumes.sound.holds, cut⟩), ?_⟩
    rw [← sends.arrived] at arrived
    rcases current with ⟨_, same, cutTo⟩ | ⟨_, null, offset⟩
    · exact .of_packet (same.trans packet) arrived taken (fun _ => ⟨payload, resumes.sound, cutTo⟩)
        (fun small => absurd oversized small)
    · exact .ended _ (by simp [null]) offset
  · obtain ⟨sends, passed, whole⟩ := fragmentAndSend_whole oversized sent
    have offset := unmoved oversized
    refine ⟨sends, recorded.sends sends arrived (fun _ part member => ?_)
      (fun other => absurd other oversized), ?_⟩
    · rcases whole part member with before | this
      · exact recorded.tiled.whole p arrived oversized part before
      · exact this
    · rw [← sends.arrived] at arrived
      cases passed with
      | same same offset_eq _ =>
        exact .of_packet (same.trans packet) arrived taken (fun other => absurd other oversized)
          (fun _ => offset_eq.trans offset)
      | released null offset => exact .ended _ (by simp [null]) offset
      | deleted other _ _ gone offset_eq =>
        exact .ended _ (by simp [gone]) (offset_eq.trans offset)

/-- Another datagram is sent in between. -/
theorem fragmentAndSend_between {p : Outgoing F} {sender after : Sender F}
    {unsent : List (Outgoing F)} {resolution : Resolution} (recorded : sender.Recorded)
    (current : sender.Current unsent) (arrived : p ∈ sender.arrived)
    (fresh : sender.handedOf p.id = [])
    (other : ∀ other, sender.packet = .to other → other.id ≠ p.id)
    (undisturbed : p.Oversized → sender.isRdma = true ∧ sender.offset = 0)
    (sent : sender.fragmentAndSend sharing resolution p = .ok after) :
    Sends p sender after ∧ after.Recorded ∧ after.Current unsent := by
  by_cases oversized : p.Oversized
  · obtain ⟨rdma, offset⟩ := undisturbed oversized
    obtain ⟨payload, sound⟩ := recorded.sound p arrived oversized
    obtain ⟨sends, cut, ⟨ordinary, _⟩ | ⟨_, null, offset⟩⟩ :=
      fragmentAndSend_cut oversized (.start sound fresh offset) sent
    · rw [rdma] at ordinary
      cases ordinary
    · exact ⟨sends, recorded.sends sends arrived (fun small => absurd oversized small)
        (fun _ => ⟨payload, sound.holds, cut⟩), .ended _ (by simp [null]) offset⟩
  · obtain ⟨sends, passed, whole⟩ := fragmentAndSend_whole oversized sent
    refine ⟨sends, recorded.sends sends arrived (fun _ part member => ?_)
      (fun other => absurd other oversized), ?_⟩
    · rcases whole part member with before | this
      · rw [fresh] at before
        cases before
      · exact this
    · cases passed with
      | same same offset length =>
        refine ⟨?_, ?_, ?_, ?_⟩
        · rw [same, sends.arrived]
          exact current.arrived
        · rw [same]
          exact current.taken
        · rw [same]
          intro cutting packet oversized
          obtain ⟨payload, sound, cut, long⟩ := current.cut cutting packet oversized
          refine ⟨payload, sound, ?_, length.trans long⟩
          rw [sends.handedOf_other (other cutting packet), offset]
          exact cut
        · rw [same, offset]
          exact current.unmoved
      | released null offset => exact .ended _ (by simp [null]) offset
      | deleted cutting packet this _ _ => exact absurd this (other cutting packet)

/-! ### Events -/

theorem Orderly.of_same {sender after : Sender F} (orderly : sender.Orderly)
    (arrived : after.arrived = sender.arrived) (handed : after.handed = sender.handed)
    (queue : after.queue = sender.queue)
    (hooks : after.queuedDatagramsForHooks = sender.queuedDatagramsForHooks)
    (packet : after.packet = sender.packet) (offset : after.offset = sender.offset)
    (payloadLength : after.payloadLength = sender.payloadLength) : after.Orderly := by
  obtain ⟨recorded, fresh, current⟩ := orderly
  have unsent_eq : after.unsent = sender.unsent := by rw [unsent, queue, hooks, unsent]
  rw [← unsent_eq] at fresh current
  refine ⟨recorded.of_same arrived handed, fresh.of_same arrived handed, ?_⟩
  refine current.of_same ?_ handed packet offset payloadLength
  rw [arrived]
  exact fun _ member => member

omit [Ipv4Fields F] in
theorem sendPending_same {packets : List (Handed F)} {sender after : Sender F}
    (sent : sender.sendPending packets = .ok after) :
    ∃ endTxTimer, after = { sender with endTxTimer } := by
  induction packets generalizing sender with
  | nil =>
    cases sent
    exact ⟨_, rfl⟩
  | cons packet rest ih =>
    obtain ⟨middle, first, later⟩ := bind_eq_ok.mp sent
    cases sendPacketToNIC_eq first
    obtain ⟨endTxTimer, rfl⟩ := ih later
    exact ⟨endTxTimer, rfl⟩

/-- The next datagram is taken from the queue. -/
theorem sendNext_orderly {sender after : Sender F} {resolution : Resolution}
    (recorded : sender.Recorded) (fresh : sender.Fresh sender.unsent)
    (idle : sender.packet = .null) (offset : sender.offset = 0)
    (sent : sender.sendNext sharing resolution = .ok after) : after.Orderly := by
  unfold sendNext at sent
  split at sent
  next =>
    cases sent
    exact ⟨recorded, fresh, .ended _ (by simp [idle]) offset⟩
  next p rest queue_eq =>
    have unsent_eq : sender.unsent = p :: (rest ++ sender.queuedDatagramsForHooks) := by
      rw [unsent, queue_eq, List.cons_append]
    rw [unsent_eq] at fresh
    have separate := fresh.separate
    rw [List.map_cons, List.nodup_cons] at separate
    have taken : ∀ other ∈ rest ++ sender.queuedDatagramsForHooks, other.id ≠ p.id := by
      intro other member same
      exact separate.1 (List.mem_map.mpr ⟨other, member, same⟩)
    have later := fresh.sublist (List.sublist_cons_self p _)
    have arrived := fresh.arrived p List.mem_cons_self
    let taking : Sender F := { sender with queue := rest, packet := .to p }
    have known : taking.Recorded := recorded.of_same rfl rfl
    obtain ⟨sends, known, current⟩ := fragmentAndSend_current known rfl arrived taken
      (fun _ => offset) (fun oversized => by
        obtain ⟨payload, sound⟩ := recorded.sound p arrived oversized
        exact ⟨payload, .start sound (fresh.none p List.mem_cons_self) offset⟩) sent
    have after_eq : after.unsent = rest ++ sender.queuedDatagramsForHooks := by
      rw [unsent, sends.queue, sends.hooks]
    rw [← after_eq] at later taken current
    have waiting : taking.Fresh after.unsent := later.of_same rfl rfl
    exact ⟨known, waiting.sends sends taken, current⟩

/-- A datagram arrives that nothing is known of. -/
theorem arrives {p : Outgoing F} {sender : Sender F} (orderly : sender.Orderly)
    (new : ∀ other ∈ sender.arrived, other.id ≠ p.id)
    (sound : p.Oversized → ∃ payload, p.Sound payload) (after : Sender F)
    (arrived : after.arrived = sender.arrived ++ [p]) (handed : after.handed = sender.handed) :
    after.Recorded ∧ after.Fresh (p :: sender.unsent) := by
  obtain ⟨⟨⟨known, whole, cut⟩, distinct, sounds⟩, fresh, _⟩ := orderly
  have none : sender.handedOf p.id = [] := by
    rw [handedOf, List.map_eq_nil_iff, List.filter_eq_nil_iff]
    intro packet member
    obtain ⟨other, other_arrived, same⟩ := known packet member
    simpa [← same] using new other other_arrived
  have before : ∀ {other}, other ∈ sender.arrived → other ∈ after.arrived := by
    intro other member
    rw [arrived]
    exact List.mem_append_left _ member
  have last : p ∈ after.arrived := by
    rw [arrived]
    exact List.mem_append_right _ (List.mem_singleton_self p)
  refine ⟨⟨⟨?_, ?_, ?_⟩, ?_, ?_⟩, ⟨?_, ?_, ?_⟩⟩
  · rw [handed]
    intro packet member
    obtain ⟨other, other_arrived, same⟩ := known packet member
    exact ⟨other, before other_arrived, same⟩
  · rw [arrived, handedOf_same handed]
    refine List.forall_mem_append.mpr ⟨whole, ?_⟩
    simp [none]
  · rw [arrived, handedOf_same handed]
    refine List.forall_mem_append.mpr ⟨cut, ?_⟩
    rw [List.forall_mem_singleton, none]
    intro oversized
    obtain ⟨payload, sound⟩ := sound oversized
    exact ⟨payload, sound.holds, 0, .nil⟩
  · rw [arrived]
    simp only [List.forall_mem_append, List.forall_mem_singleton]
    refine ⟨fun first member => ⟨distinct first member, ?_⟩, fun second member same => ?_, ?_⟩
    · exact fun same => absurd same (new first member)
    · exact absurd same.symm (new second member)
    · exact fun _ => trivial
  · rw [arrived]
    exact List.forall_mem_append.mpr ⟨sounds, by simpa using sound⟩
  · exact List.forall_mem_cons.mpr ⟨last, fun other member => before (fresh.arrived other member)⟩
  · rw [handedOf_same handed]
    exact List.forall_mem_cons.mpr ⟨none, fresh.none⟩
  · rw [List.map_cons, List.nodup_cons]
    refine ⟨?_, fresh.separate⟩
    intro member
    obtain ⟨other, waiting, same⟩ := List.mem_map.mp member
    exact new other (fresh.arrived other waiting) same

/-- The current datagram is not the one that arrives. -/
theorem Current.cons {sender : Sender F} {unsent : List (Outgoing F)} {p : Outgoing F}
    (current : sender.Current unsent) (new : ∀ other ∈ sender.arrived, other.id ≠ p.id) :
    sender.Current (p :: unsent) where
  arrived := current.arrived
  taken other packet := List.forall_mem_cons.mpr
    ⟨(new other (current.arrived other packet)).symm, current.taken other packet⟩
  cut := current.cut
  unmoved := current.unmoved

theorem fragmentPostRouting_orderly {sender after : Sender F} {resolution : Resolution}
    {answers : List Result} {p : Outgoing F} (orderly : sender.Orderly)
    (new : ∀ other ∈ sender.arrived, other.id ≠ p.id)
    (sound : p.Oversized → ∃ payload, p.Sound payload)
    (sent : sender.fragmentPostRouting sharing resolution answers p = .ok after) :
    after.Orderly := by
  have current := orderly.current
  have kept : ∀ other ∈ sender.arrived, other ∈ sender.arrived ++ [p] :=
    fun other member => List.mem_append_left _ member
  unfold fragmentPostRouting at sent
  simp only at sent
  split at sent
  next =>
    -- the datagram waits behind the others
    let queued : Sender F :=
      { sender with arrived := sender.arrived ++ [p], queue := sender.queue ++ [p] }
    have perm : (p :: sender.unsent).Perm queued.unsent := by
      simp only [queued, unsent, List.append_assoc, List.singleton_append]
      exact List.perm_middle.symm
    obtain ⟨recorded, fresh⟩ := arrives orderly new sound queued rfl rfl
    split at sent
    next packet =>
      exact sendNext_orderly recorded (fresh.perm perm) packet
        (current.unmoved (by simp [packet])) sent
    next =>
      cases sent
      refine ⟨recorded, fresh.perm perm, Current.mono ?_ perm.symm.subset⟩
      exact (current.cons new).of_same kept rfl rfl rfl rfl
  next =>
    cases sent
    have perm : (p :: sender.unsent).Perm
        (sender.queue ++ (sender.queuedDatagramsForHooks ++ [p])) := by
      rw [← List.append_assoc]
      exact (List.perm_append_singleton _ _).symm
    obtain ⟨recorded, fresh⟩ := arrives orderly new sound { sender with
      arrived := sender.arrived ++ [p]
      queuedDatagramsForHooks := sender.queuedDatagramsForHooks ++ [p] } rfl rfl
    refine ⟨recorded, fresh.perm perm, Current.mono ?_ perm.symm.subset⟩
    exact (current.cons new).of_same kept rfl rfl rfl rfl
  next =>
    cases sent
    obtain ⟨recorded, fresh⟩ := arrives orderly new sound
      { sender with arrived := sender.arrived ++ [p] } rfl rfl
    exact ⟨recorded, fresh.sublist (List.sublist_cons_self p _),
      current.of_same kept rfl rfl rfl rfl⟩

theorem reinjectQueuedDatagram_orderly {sender after : Sender F} {resolution : Resolution}
    {id : Nat} (orderly : sender.Orderly)
    (undisturbed : ∀ p ∈ sender.queuedDatagramsForHooks, p.id = id → p.Oversized →
      sender.isRdma = true ∧ sender.offset = 0)
    (sent : sender.reinjectQueuedDatagram sharing resolution id = .ok after) : after.Orderly := by
  have kept := orderly
  obtain ⟨recorded, fresh, current⟩ := orderly
  unfold reinjectQueuedDatagram at sent
  split at sent
  next =>
    cases sent
    exact kept
  next p found =>
    obtain ⟨middle, fragments, returned⟩ := bind_eq_ok.mp sent
    have queued := List.mem_of_find?_eq_some found
    have this : p.id = id := by simpa using List.find?_some found
    have waiting : p ∈ sender.unsent := List.mem_append_right _ queued
    obtain ⟨sends, recorded, current⟩ := fragmentAndSend_between recorded current
      (fresh.arrived p waiting) (fresh.none p waiting)
      (fun other packet => (current.taken other packet p waiting).symm) (undisturbed p queued this)
      fragments
    cases returned
    -- what still waits waited before, and it has another number
    have fewer : (sender.queue ++ sender.queuedDatagramsForHooks.filter (·.id ≠ id)).Sublist
        sender.unsent := List.filter_sublist.append_left _
    have taken : ∀ other ∈ sender.queue ++ sender.queuedDatagramsForHooks.filter (·.id ≠ id),
        other.id ≠ p.id := by
      have separate := fresh.separate
      rw [unsent, List.map_append, List.nodup_append] at separate
      refine List.forall_mem_append.mpr ⟨fun other member => ?_, fun other member => ?_⟩
      · exact separate.2.2 _ (List.mem_map_of_mem member) _ (List.mem_map_of_mem queued)
      · rw [this]
        simpa using (List.mem_filter.mp member).2
    have later := (fresh.sublist fewer).sends sends taken
    have less := current.mono fewer.subset
    rw [← sends.queue, ← sends.hooks] at later less
    exact ⟨recorded.of_same rfl rfl, later.of_same rfl rfl,
      less.of_same (fun _ member => member) rfl rfl rfl rfl⟩

theorem handleEndTxPeriod_orderly {sender after : Sender F} {resolution : Resolution}
    (orderly : sender.Orderly)
    (sent : sender.handleEndTxPeriod sharing resolution = .ok after) : after.Orderly := by
  obtain ⟨recorded, fresh, current⟩ := orderly
  -- the current datagram goes on, or it is finished and the next one is sent
  have goes_on (before : sender.offset < sender.payloadLength) (p : Outgoing F)
      (packet : sender.packet = .to p)
      (sent : { sender with endTxTimer := false }.fragmentAndSend sharing resolution p =
        .ok after) : after.Orderly := by
    let expired : Sender F := { sender with endTxTimer := false }
    have known : expired.Recorded := recorded.of_same rfl rfl
    have waiting : expired.Fresh sender.unsent := fresh.of_same rfl rfl
    have taken := current.taken p packet
    have unmoved : ¬ p.Oversized → sender.offset = 0 := by
      intro small
      refine current.unmoved fun other this => ?_
      rw [packet] at this
      cases this
      exact small
    obtain ⟨sends, known, now⟩ := fragmentAndSend_current known packet (current.arrived p packet)
      taken unmoved (fun oversized => by
        obtain ⟨payload, sound, cut, length⟩ := current.cut p packet oversized
        exact ⟨payload, sound, cut, .inr (by rw [← length]; exact before)⟩) sent
    have after_eq : after.unsent = sender.unsent := by
      rw [unsent, sends.queue, sends.hooks, unsent]
    rw [← after_eq] at waiting taken now
    exact ⟨known, waiting.sends sends taken, now⟩
  have ended (sent : { sender with endTxTimer := false }.release.sendNext sharing resolution =
      .ok after) : after.Orderly := by
    let released : Sender F := { sender with endTxTimer := false }.release
    have known : released.Recorded := recorded.of_same rfl rfl
    have waiting : released.Fresh released.unsent := fresh.of_same rfl rfl
    exact sendNext_orderly known waiting rfl rfl sent
  unfold handleEndTxPeriod at sent
  simp only at sent
  split at sent
  next before =>
    obtain ⟨currentFragment, _, sent⟩ := bind_eq_ok.mp sent
    rw [pure_bind] at sent
    split at sent
    next =>
      obtain ⟨p, pointer, sent⟩ := bind_eq_ok.mp sent
      have packet : sender.packet = .to p := by
        rcases packet : sender.packet with _ | other | _ <;>
        simp only [packet, Pointer.deref] at pointer <;> cases pointer
        rfl
      exact goes_on before p packet sent
    next => exact ended sent
  next =>
    rw [pure_bind, if_neg (by decide)] at sent
    exact ended sent

end Sender

/-- An event that leaves the offset alone keeps the order. -/
theorem step_orderly {sender after : Sender F} (orderly : sender.Orderly) {event : Event F}
    (enabled : event.Enabled sender) (undisturbed : Undisturbed sender event)
    (stepped : sender.step sharing event = .ok after) : after.Orderly := by
  cases event with
  | fragmentPostRouting p answers resolution =>
    exact Sender.fragmentPostRouting_orderly orderly enabled undisturbed stepped
  | reinjectQueuedDatagram id resolution =>
    exact Sender.reinjectQueuedDatagram_orderly orderly undisturbed stepped
  | endTx resolution => exact Sender.handleEndTxPeriod_orderly orderly stepped
  | arpResolutionCompleted nextHop =>
    obtain ⟨middle, sent, returned⟩ := bind_eq_ok.mp stepped
    obtain ⟨endTxTimer, rfl⟩ := Sender.sendPending_same sent
    cases returned
    exact orderly.of_same rfl rfl rfl rfl rfl rfl rfl
  | arpResolutionTimedOut nextHop =>
    cases stepped
    exact orderly.of_same rfl rfl rfl rfl rfl rfl rfl
  | rdma =>
    cases stepped
    exact orderly.of_same rfl rfl rfl rfl rfl rfl rfl

/-- As long as no oversized datagram is given back by a hook, except to RDMA while nothing is partly
sent, the fragments of each datagram are sent completely, once and in order. -/
theorem reached_tiled (sharing : Sharing F) (sender : Sender F)
    (reached : Reached sharing Undisturbed sender) : sender.Tiled := by
  have orderly : sender.Orderly := by
    induction reached with
    | start =>
      refine ⟨⟨⟨?_, ?_, ?_⟩, ?_, ?_⟩, ⟨?_, ?_, ?_⟩, .ended _ (by simp) rfl⟩ <;> simp [Sender.unsent]
    | step event _ enabled undisturbed stepped ih =>
      exact step_orderly ih enabled undisturbed stepped
  exact orderly.recorded.tiled

/-! ### Examples -/

/-- Datagrams with 16 bytes of data on a link with an MTU of 28 bytes. -/
def large (id : Nat) : Outgoing (Ipv4Header ⊕ List Bool) where
  id := id
  datagram := filled 16
  nextHop := 0x0a000002
  mtu := 28

theorem large_oversized (id : Nat) : (large id).Oversized :=
  ⟨(by decide : (0 : Int16) < 32), (by decide : (28 : Int) ≠ 0),
    (by decide +kernel : 28 < getByteLength (filled 16).packet), rfl⟩

theorem large_sound (id : Nat) : (large id).Sound (fillBits 16 '?'.toUInt8) :=
  ⟨filled_holds 16 (by decide), by
    rw [Chunk.length_fillBits]
    exact (by decide : 8 * 0 + 8 * 16 ≤ 8 * 65536)⟩

/-- Both fragments have 8 bytes of data. -/
theorem fragmentAndSend_large (id : Nat) (sender : Sender (Ipv4Header ⊕ List Bool))
    (resolution : Resolution) (offset : sender.offset = 0 ∨ sender.offset = 8)
    (ordinary : sender.isRdma = false) :
    ∃ fragment : Datagram Ipv4Header (Ipv4Header ⊕ List Bool),
      fragment.header.fragmentOffset.toNat = sender.offset ∧
      sender.fragmentAndSend (.never _) resolution (large id) = (do
        let after ← { sender with
          currentFragment := .to (large id), mtu := 28, payloadLength := 16 }.sendDatagramToOutput
            resolution (large id).nextHop ⟨id, fragment⟩
        return { after with offset := ((after.offset : Int) + 8).toNat }) := by
  have oversized := large_oversized id
  have payload_eq : Ipv4.payloadLength (large id).datagram = 16 := by
    simp only [large]
    decide +kernel
  have fragment_eq : fragmentLength (large id).datagram (large id).mtu = 8 := by
    simp only [large]
    decide +kernel
  obtain ⟨fragment, made, cut⟩ := fragmentAt_cut (.never _) (large_sound id).holds
    (large_sound id).fits 8 (by decide) sender.offset (by rw [payload_eq]; omega)
  have offset_eq := cut.offset
  have min_eq : min (8 : Int) (16 - sender.offset) = 8 := by omega
  rw [payload_eq, min_eq] at made
  refine ⟨fragment, by rw [offset_eq]; exact Nat.zero_add _, ?_⟩
  unfold Sender.fragmentAndSend
  simp only
  rw [if_neg (Int16.not_le.mpr oversized.alive), if_neg (by
      rw [not_or]
      exact ⟨oversized.limited, Int.not_le.mpr oversized.long⟩),
    if_neg (by rw [oversized.allowed]; decide), fragment_eq, payload_eq, if_neg (by decide),
    if_neg (by rw [ordinary]; decide)]
  unfold Sender.sendFragment
  simp only
  rw [made, Except.mapError, ok_bind]
  rfl

/-- The timer expires before the current datagram is finished. -/
theorem Sender.handleEndTxPeriod_unfinished (sharing : Sharing F) {sender : Sender F}
    {p : Outgoing F} (resolution : Resolution)
    (before : (sender.offset : Int) < sender.payloadLength)
    (current : sender.currentFragment = .to p) (packet : sender.packet = .to p)
    (long : sender.mtu < getByteLength p.datagram.packet) :
    sender.handleEndTxPeriod sharing resolution =
      { sender with endTxTimer := false }.fragmentAndSend sharing resolution p := by
  unfold handleEndTxPeriod
  simp only
  rw [if_pos before, current, Pointer.deref, ok_bind, pure_bind, if_pos (decide_eq_true long), packet,
    Pointer.deref, ok_bind]

/-- The sender behind the first fragment of a datagram. -/
def begun (first : Datagram Ipv4Header (Ipv4Header ⊕ List Bool)) (endTxTimer : Bool) :
    Sender (Ipv4Header ⊕ List Bool) where
  packet := .to (large 1)
  currentFragment := .to (large 1)
  offset := 8
  payloadLength := 16
  mtu := 28
  endTxTimer := endTxTimer
  arrived := [large 1]
  handed := [⟨1, first⟩]

theorem reached_begun : ∃ first, Reached (.never _) Undisturbed (begun first true) := by
  obtain ⟨first, _, sent⟩ := fragmentAndSend_large 1
    { payloadLength := 0, mtu := 0, packet := .to (large 1), arrived := [large 1] } .direct
    (.inl rfl) rfl
  exact ⟨first, .step (.fragmentPostRouting (large 1) [] .direct) (.start 0 0)
    (by simp [Event.Enabled]) (fun _ => ⟨_, large_sound 1⟩) sent⟩

/-- A datagram that is sent in two fragments. -/
theorem reached_tiled_large : ∃ sender : Sender (Ipv4Header ⊕ List Bool),
    sender.offset = 16 ∧ (sender.handedOf 1).length = 2 ∧ sender.Tiled := by
  obtain ⟨first, reached⟩ := reached_begun
  obtain ⟨second, _, sent⟩ := fragmentAndSend_large 1 (begun first false) .direct (.inr rfl) rfl
  have before : ((begun first true).offset : Int) < (begun first true).payloadLength := by
    simp only [begun]
    decide
  have long : (begun first true).mtu < getByteLength (large 1).datagram.packet :=
    (large_oversized 1).long
  have unfinished := Sender.handleEndTxPeriod_unfinished (.never _) .direct before rfl rfl long
  exact ⟨_, rfl, rfl, reached_tiled (.never _) _
    (.step (.endTx .direct) reached rfl trivial (unfinished.trans sent))⟩

/-- Behind the first fragment of a datagram, another one that a hook gives back is cut at the offset
of the first. -/
theorem reached_mingled : ¬ ∀ sender : Sender (Ipv4Header ⊕ List Bool),
    Reached (.never _) Fitting sender → sender.Tiled := by
  intro all
  obtain ⟨first, _, sent_first⟩ := fragmentAndSend_large 1
    { payloadLength := 0, mtu := 0, packet := .to (large 1), arrived := [large 1] } .direct
    (.inl rfl) rfl
  obtain ⟨fragment, offset, sent⟩ := fragmentAndSend_large 2 { begun first true with
    arrived := [large 1, large 2], queuedDatagramsForHooks := [large 2] } .unresolved (.inr rfl) rfl
  have reached := all _ (.step (.reinjectQueuedDatagram 2 .unresolved)
    (.step (.fragmentPostRouting (large 2) [.QUEUE] .direct)
      (.step (.fragmentPostRouting (large 1) [] .direct) (.start 0 0) (by simp [Event.Enabled])
        (fun _ => ⟨_, large_sound 1⟩) sent_first)
      (by simp [Event.Enabled]; decide) (fun _ => ⟨_, large_sound 2⟩) rfl) trivial trivial
      (bind_eq_ok.mpr ⟨_, sent, rfl⟩))
  obtain ⟨payload, _, last, cutTo⟩ := reached.cut (large 2) (by simp) (large_oversized 2)
  have same : fragment.header.fragmentOffset = (large 2).datagram.header.fragmentOffset :=
    cutTo.head rfl
  rw [same] at offset
  cases offset

end Inet.Ipv4
