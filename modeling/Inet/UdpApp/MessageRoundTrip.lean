import Inet.UdpApp.MyUdpBasicApp

/-!
# Fragmentation and reassembly of messages

The fragment buffer takes the application packet of a fragment for data, and it puts the first one
in front of the data once more.
-/
namespace Inet.UdpApp

open Lib Packet

variable {F : Type} [ApplicationFields F] {sharing : Sharing F} {unset : Int}

namespace MyUdpBasicApp

variable {app after : MyUdpBasicApp} {messageLength : Int}
  {packets : List (Datagram ApplicationPacket F)}

theorem packetOf_carries {header : ApplicationPacket} {packet : Datagram ApplicationPacket F}
    (returned : packetOf sharing header = .ok packet) :
    packet.header = header ∧ 0 < header.chunkLength ∧
      packet.packet.Carries (Fields.serialize (ApplicationFields.ofPacket header : F)) := by
  obtain ⟨inserted, inserted_eq, ⟨⟩⟩ := bind_eq_ok.mp returned
  have length_eq := ApplicationFields.length_serialize (F := F) header
  have headed : 0 < (Chunk.fields (ApplicationFields.ofPacket header : F)).getChunkLength := by
    by_contra none
    rw [Packet.insertAtFront, Packet.insertAt, if_pos (by omega)] at inserted_eq
    cases inserted_eq
  obtain ⟨_, carries⟩ := Packet.empty_carries.insertedAtFront Packet.empty_unpopped
    ⟨.fields _, headed, .fields _⟩ inserted_eq
  rw [List.append_nil] at carries
  rw [Chunk.getChunkLength] at headed
  exact ⟨rfl, by omega, carries⟩

/-- A fragment of a message, as the fragment buffer sees it. -/
structure FragmentOf (fragmentSize messageLength : Int)
    (fragment : Datagram ApplicationPacket F) : Prop where
  positive : 0 < fragment.header.chunkLength
  fits : fragment.header.chunkLength ≤ fragmentSize
  carries : fragment.packet.Carries
    (Fields.serialize (ApplicationFields.ofPacket fragment.header : F))
  last : fragment.header.moreFragments = false → (fragment.header.fragmentOffset.toNat : Int) =
    (messageLength - fragment.header.chunkLength) % 2 ^ 32

theorem fragmentAt_fragment {offset : Nat} {length : Int} {fragment : Datagram ApplicationPacket F}
    (before : offset < messageLength)
    (returned : app.fragmentAt sharing unset messageLength offset = .ok (fragment, length)) :
    FragmentOf app.fragmentSize messageLength fragment := by
  have size_positive := app.positive
  unfold fragmentAt at returned
  simp only at returned
  generalize this_eq : (if decide (messageLength ≤ offset + app.fragmentSize) = true then
    messageLength - (offset : Int) else app.fragmentSize) = this at returned
  obtain ⟨made, made_eq, ⟨⟩⟩ := bind_eq_ok.mp returned
  obtain ⟨header_eq, positive, carries⟩ := packetOf_carries made_eq
  rw [← header_eq] at positive carries
  refine ⟨positive, ?_, carries, ?_⟩
  · rw [header_eq]
    simp only
    split at this_eq
    next last =>
      have := of_decide_eq_true last
      omega
    next => omega
  · intro last
    rw [header_eq] at last ⊢
    simp only [UInt32.toNat_ofNat'] at last ⊢
    split at last
    next ends =>
      rw [if_pos ends] at this_eq
      omega
    next => cases last

theorem fragmentsFrom_fragments {bound offset : Nat}
    (returned : app.fragmentsFrom sharing unset messageLength bound offset = .ok packets) :
    (offset < messageLength → packets ≠ []) ∧
      ∀ packet ∈ packets, FragmentOf app.fragmentSize messageLength packet := by
  induction bound generalizing offset packets with
  | zero =>
    unfold fragmentsFrom at returned
    split at returned
    next => cases returned
    next ends =>
      cases returned
      exact ⟨fun before => absurd before ends, by simp⟩
  | succ bound ih =>
    unfold fragmentsFrom at returned
    split at returned
    next before =>
      obtain ⟨⟨fragment, length⟩, made, returned⟩ := bind_eq_ok.mp returned
      obtain ⟨rest, rest_eq, ⟨⟩⟩ := bind_eq_ok.mp returned
      exact ⟨by simp, List.forall_mem_cons.mpr ⟨fragmentAt_fragment before made, (ih rest_eq).2⟩⟩
    next ends =>
      cases returned
      exact ⟨fun before => absurd before ends, by simp⟩

/-- A packet that is a message of its own. -/
structure WholeMessage (messageLength : Int) (packet : Datagram ApplicationPacket F) : Prop where
  unfragmented : packet.header.fragmentOffset = 0 ∧ packet.header.moreFragments = false
  length : packet.packet.getDataLength = 8 * messageLength

/-- What is sent for a message: nothing if enough is sent, else the message or its fragments. -/
theorem sendPacket_cases (returned : app.sendPacket sharing unset messageLength =
      .ok (packets, after)) :
    app.packetsToSend ≤ app.numSent ∧ packets = [] ∧ after = app ∨
    app.numSent < app.packetsToSend ∧ after = { app with numSent := app.numSent + 1 } ∧
      (messageLength ≤ app.fragmentSize ∧
          (∃ packet, packets = [packet] ∧ WholeMessage messageLength packet) ∨
        app.fragmentSize < messageLength ∧ packets ≠ [] ∧
          ∀ packet ∈ packets, FragmentOf app.fragmentSize messageLength packet) := by
  have positive := app.positive
  unfold sendPacket at returned
  split at returned
  next more =>
    right
    obtain ⟨packet, packet_eq, returned⟩ := bind_eq_ok.mp returned
    obtain ⟨header_eq, headed, carries⟩ := packetOf_carries packet_eq
    split at returned
    next small =>
      cases returned
      refine ⟨more, rfl, .inl ⟨small, packet, rfl, ?_, ?_⟩⟩
      · rw [header_eq]
        exact ⟨rfl, rfl⟩
      · have length_eq : (app.payload messageLength).chunkLength = messageLength.toNat := rfl
        rw [carries.getDataLength, ApplicationFields.length_serialize]
        omega
    next large =>
      split at returned
      next => cases returned
      next =>
        obtain ⟨fragments, fragments_eq, ⟨⟩⟩ := bind_eq_ok.mp returned
        obtain ⟨some_sent, each⟩ := fragmentsFrom_fragments fragments_eq
        exact ⟨more, rfl, .inr ⟨by omega, some_sent (by omega), each⟩⟩
  next enough =>
    cases returned
    exact .inl ⟨by omega, rfl, rfl⟩

/-- The state of the application when a message is sent. -/
theorem sendPackets_getElem {lengths : List Int} {lists : List (List (Datagram ApplicationPacket F))}
    {k : Nat} (returned : app.sendPackets sharing unset lengths = .ok (lists, after))
    (found : lengths[k]? = some messageLength) :
    ∃ packets, lists[k]? = some packets ∧ ∃ numSent next,
      (numSent = app.numSent + k ∨ app.packetsToSend ≤ numSent ∧ numSent ≤ app.numSent + k) ∧
      ({ app with numSent } : MyUdpBasicApp).sendPacket sharing unset messageLength =
        .ok (packets, next) := by
  induction lengths generalizing app lists k with
  | nil => cases found
  | cons first rest ih =>
    obtain ⟨⟨packets, middle⟩, first_eq, returned⟩ := bind_eq_ok.mp returned
    obtain ⟨⟨others, last⟩, others_eq, ⟨⟩⟩ := bind_eq_ok.mp returned
    cases k with
    | zero =>
      cases found
      exact ⟨packets, rfl, app.numSent, middle, .inl (by simp), first_eq⟩
    | succ k =>
      obtain ⟨other, other_eq, numSent, next, count, sent⟩ := ih others_eq found
      obtain ⟨_, _, rfl⟩ | ⟨_, rfl, _⟩ := sendPacket_cases first_eq
      · exact ⟨other, other_eq, numSent, next, .inr (by omega), sent⟩
      · refine ⟨other, other_eq, numSent, next, ?_, sent⟩
        simp only at count
        omega

theorem sendPackets_length {lengths : List Int} {lists : List (List (Datagram ApplicationPacket F))}
    (returned : app.sendPackets sharing unset lengths = .ok (lists, after)) :
    lists.length = lengths.length := by
  induction lengths generalizing app lists with
  | nil =>
    cases returned
    rfl
  | cons first rest ih =>
    obtain ⟨⟨packets, middle⟩, _, returned⟩ := bind_eq_ok.mp returned
    obtain ⟨⟨others, last⟩, others_eq, ⟨⟩⟩ := bind_eq_ok.mp returned
    rw [List.length_cons, List.length_cons, ih others_eq]

end MyUdpBasicApp

/-! ### Several hosts and one receiver -/

/-- A packet that completes a message returns it, and any other one returns nothing. Packets are
given by their messages and their numbers. -/
inductive Returns {O D : Type} (packets : O → List D) (IsMessage : O → D → Prop) :
    List (O × Nat) → List (O × Nat) → List (Option D) → Prop
  | nil (arrived : List (O × Nat)) : Returns packets IsMessage arrived [] []
  | missing {arrived rest : List (O × Nat)} {results : List (Option D)} {origin : O} {i : Nat}
      (some_missing : ∃ j < (packets origin).length, (origin, j) ∉ (origin, i) :: arrived)
      (later : Returns packets IsMessage ((origin, i) :: arrived) rest results) :
      Returns packets IsMessage arrived ((origin, i) :: rest) (none :: results)
  | complete {arrived rest : List (O × Nat)} {results : List (Option D)} {origin : O} {i : Nat}
      {whole : D}
      (all_arrived : ∀ j < (packets origin).length, (origin, j) ∈ (origin, i) :: arrived)
      (message : IsMessage origin whole)
      (later : Returns packets IsMessage ((origin, i) :: arrived) rest results) :
      Returns packets IsMessage arrived ((origin, i) :: rest) (some whole :: results)

/-- A message is returned once all of its packets are delivered. -/
theorem Returns.completes {O D : Type} {packets : O → List D} {IsMessage : O → D → Prop}
    {arrived order : List (O × Nat)} {results : List (Option D)}
    (returns : Returns packets IsMessage arrived order results) (origin : O)
    (only : ∀ packet ∈ order, packet.1 = origin) (some_delivered : order ≠ [])
    (all : ∀ j < (packets origin).length, (origin, j) ∈ arrived ∨ (origin, j) ∈ order) :
    ∃ whole, IsMessage origin whole := by
  induction returns with
  | nil => exact absurd rfl some_delivered
  | @missing arrived rest results other i some_missing later ih =>
    obtain ⟨rfl, only⟩ := List.forall_mem_cons.mp only
    have all_later : ∀ j < (packets other).length,
        (other, j) ∈ (other, i) :: arrived ∨ (other, j) ∈ rest := by
      intro j inside
      rcases all j inside with before | now
      · exact .inl (List.mem_cons_of_mem _ before)
      · rcases List.mem_cons.mp now with first | behind
        · exact .inl (first ▸ List.mem_cons_self)
        · exact .inr behind
    apply ih only _ all_later
    rintro rfl
    obtain ⟨j, inside, missing⟩ := some_missing
    exact missing ((all_later j inside).resolve_right (by simp))
  | complete _ message _ =>
    obtain ⟨rfl, _⟩ := List.forall_mem_cons.mp only
    exact ⟨_, message⟩

/-- A host and the lengths of the messages that it sends. -/
structure Host where
  app : MyUdpBasicApp
  lengths : List Int

/-- The packets of the messages of a host. -/
def Host.sends (F : Type) [ApplicationFields F] (sharing : Sharing F) (unset : Int) (host : Host) :
    List (List (Datagram ApplicationPacket F)) :=
  match host.app.sendPackets sharing unset host.lengths with
  | .ok (lists, _) => lists
  | .error _ => []

/-- The packets of a message, which is given by its host and the number of messages before it. -/
def packetsOf (sharing : Sharing F) (unset : Int) (hosts : List Host) (origin : Nat × Nat) :
    List (Datagram ApplicationPacket F) :=
  match hosts[origin.1]? with
  | some host => (host.sends F sharing unset)[origin.2]?.getD []
  | none => []

/-- A packet that has the length of a message and is made of its packets only. -/
def IsMessage (sharing : Sharing F) (unset : Int) (hosts : List Host) (origin : Nat × Nat)
    (whole : Datagram ApplicationPacket F) : Prop :=
  ∃ host messageLength, hosts[origin.1]? = some host ∧ host.lengths[origin.2]? = some messageLength ∧
    whole.packet.getDataLength = 8 * messageLength ∧
    (whole ∈ packetsOf sharing unset hosts origin ∨ (UdpAppFragBuf.format F unset).MadeOf
      (fun fragment => fragment ∈ packetsOf sharing unset hosts origin) whole)

/-- In whatever order packets of the hosts arrive, each message is returned with its last one. -/
def RoundTrips (sharing : Sharing F) (unset : Int) (hosts : List Host) : Prop :=
  ∀ order : List ((Nat × Nat) × Nat), order.Nodup →
    (∀ packet ∈ order, packet.2 < (packetsOf sharing unset hosts packet.1).length) →
    ∃ results bufs, MyUdpBasicApp.processPackets sharing unset (fun _ => none)
        (order.filterMap fun packet => (packetsOf sharing unset hosts packet.1)[packet.2]?) =
          .ok (results, bufs) ∧
      Returns (packetsOf sharing unset hosts) (IsMessage sharing unset hosts) [] order results

/-- Every message that is sent fits into one packet. -/
def Unfragmented (host : Host) : Prop :=
  ∀ (k : Nat) (messageLength : Int), host.lengths[k]? = some messageLength →
    host.app.numSent + k < host.app.packetsToSend → messageLength ≤ host.app.fragmentSize

/-- What is returned of the fragments of a message is longer than the message. -/
theorem not_isMessage {app : MyUdpBasicApp} {messageLength : Int}
    {packets : List (Datagram ApplicationPacket F)} (large : app.fragmentSize < messageLength)
    (each : ∀ packet ∈ packets, MyUdpBasicApp.FragmentOf app.fragmentSize messageLength packet)
    {whole : Datagram ApplicationPacket F}
    (built : whole ∈ packets ∨
      (UdpAppFragBuf.format F unset).MadeOf (fun fragment => fragment ∈ packets) whole) :
    whole.packet.getDataLength ≠ 8 * messageLength := by
  intro length_eq
  rcases built with member | ⟨first, last, payload, among_first, among_last, no_more, payload_length,
    header_eq, carries, _⟩
  · have fragment := each whole member
    have fits := fragment.fits
    rw [fragment.carries.getDataLength, ApplicationFields.length_serialize] at length_eq
    omega
  · have first_fragment := each first among_first
    have last_fragment := each last among_last
    have positive := first_fragment.positive
    have fits := first_fragment.fits
    have bound := app.fits
    have last_positive := last_fragment.positive
    have ends := last_fragment.last no_more
    have stop_eq : (UdpAppFragBuf.format F unset).stop last =
        8 * last.header.fragmentOffset.toNat + 8 * last.header.chunkLength := by
      simp only [FragmentFormat.stop, FragmentFormat.start, FragmentFormat.length,
        UdpAppFragBuf.format, getByteLength]
      rw [last_fragment.carries.getDataLength, ApplicationFields.length_serialize]
      omega
    have whole_length : whole.header.chunkLength = first.header.chunkLength := by
      rw [header_eq]
      rfl
    have total := carries.getDataLength
    rw [List.length_append] at total
    change whole.packet.getDataLength = (((Fields.serialize
      (ApplicationFields.ofPacket whole.header : F)).length + payload.length : Nat) : Int) at total
    rw [ApplicationFields.length_serialize, whole_length] at total
    rw [UDP_MAX_MESSAGE_SIZE, UDP_HEADER_LENGTH] at bound
    omega

/-- Hosts all of whose messages are admitted. -/
def Admitted (F : Type) [ApplicationFields F] (sharing : Sharing F) (unset : Int)
    (hosts : List Host) : Prop :=
  ∀ host ∈ hosts, ∃ lists after,
    host.app.sendPackets (F := F) sharing unset host.lengths = .ok (lists, after)

variable {hosts : List Host}

/-- The packets of a message are what its host sends after the messages before it. -/
theorem packetsOf_sent (admitted : Admitted F sharing unset hosts)
    {origin : Nat × Nat} {host : Host} {messageLength : Int} (host_eq : hosts[origin.1]? = some host)
    (found : host.lengths[origin.2]? = some messageLength) :
    ∃ numSent next, (numSent = host.app.numSent + origin.2 ∨
        host.app.packetsToSend ≤ numSent ∧ numSent ≤ host.app.numSent + origin.2) ∧
      ({ host.app with numSent } : MyUdpBasicApp).sendPacket sharing unset messageLength =
        .ok (packetsOf (F := F) sharing unset hosts origin, next) := by
  obtain ⟨lists, after, returned⟩ := admitted host (List.mem_of_getElem? host_eq)
  obtain ⟨packets, packets_eq, sent⟩ := MyUdpBasicApp.sendPackets_getElem returned found
  have same : packetsOf sharing unset hosts origin = packets := by
    unfold packetsOf Host.sends
    rw [host_eq]
    simp only [returned, packets_eq, Option.getD_some]
  rw [same]
  exact sent

/-- Only messages have packets. -/
theorem exists_of_packetsOf (admitted : Admitted F sharing unset hosts)
    {origin : Nat × Nat} {i : Nat}
    (inside : i < (packetsOf (F := F) sharing unset hosts origin).length) :
    ∃ host messageLength, hosts[origin.1]? = some host ∧
      host.lengths[origin.2]? = some messageLength := by
  unfold packetsOf at inside
  split at inside
  next host host_eq =>
    obtain ⟨lists, after, returned⟩ := admitted host (List.mem_of_getElem? host_eq)
    have length_eq := MyUdpBasicApp.sendPackets_length returned
    have known : origin.2 < host.lengths.length := by
      by_contra beyond
      unfold Host.sends at inside
      rw [returned] at inside
      simp only at inside
      rw [List.getElem?_eq_none (by omega)] at inside
      exact absurd inside (Nat.not_lt_zero i)
    exact ⟨host, _, host_eq, List.getElem?_eq_getElem known⟩
  next => exact absurd inside (Nat.not_lt_zero i)

/-- If every message fits into one packet, each packet is received as it is. -/
theorem returns_of_unfragmented (admitted : Admitted F sharing unset hosts)
    (unfragmented : ∀ host ∈ hosts, Unfragmented host) {order : List ((Nat × Nat) × Nat)}
    (inside : ∀ packet ∈ order,
      packet.2 < (packetsOf (F := F) sharing unset hosts packet.1).length)
    (arrived : List ((Nat × Nat) × Nat)) (bufs : Buffers ApplicationPacket UdpAppFragBuf.Key F) :
    ∃ results bufs', MyUdpBasicApp.processPackets sharing unset bufs
        (order.filterMap fun packet => (packetsOf sharing unset hosts packet.1)[packet.2]?) =
          .ok (results, bufs') ∧
      Returns (packetsOf sharing unset hosts) (IsMessage sharing unset hosts) arrived order
        results := by
  induction order generalizing arrived with
  | nil => exact ⟨[], bufs, rfl, .nil arrived⟩
  | cons packet rest ih =>
    obtain ⟨origin, i⟩ := packet
    obtain ⟨here, later⟩ := List.forall_mem_cons.mp inside
    obtain ⟨results, bufs', rest_eq, returns⟩ := ih later ((origin, i) :: arrived)
    obtain ⟨host, messageLength, host_eq, found⟩ := exists_of_packetsOf admitted here
    obtain ⟨numSent, next, count, sent⟩ := packetsOf_sent admitted host_eq found
    have fits (more : host.app.numSent + origin.2 < host.app.packetsToSend) :=
      unfragmented host (List.mem_of_getElem? host_eq) origin.2 messageLength found more
    simp only at here
    obtain ⟨_, none_sent, _⟩ | ⟨more, _, ⟨_, only, only_eq, message⟩ | ⟨large, _⟩⟩ :=
      MyUdpBasicApp.sendPacket_cases sent
    · rw [none_sent] at here
      exact absurd here (Nat.not_lt_zero i)
    · rw [only_eq] at here
      obtain rfl : i = 0 := Nat.lt_one_iff.mp here
      obtain ⟨no_offset, no_more⟩ := message.unfragmented
      refine ⟨some only :: results, bufs', ?_, .complete ?_ ?_ returns⟩
      · simp only [List.filterMap_cons, only_eq, List.getElem?_cons_zero]
        rw [MyUdpBasicApp.processPackets, MyUdpBasicApp.processPacket,
          if_neg (by rw [no_offset, no_more]; decide), ok_bind]
        simp only
        rw [rest_eq]
        rfl
      · intro j inside_all
        rw [only_eq] at inside_all
        obtain rfl : j = 0 := Nat.lt_one_iff.mp inside_all
        exact List.mem_cons_self
      · exact ⟨host, messageLength, host_eq, found, message.length,
          .inl (by rw [only_eq]; exact List.mem_cons_self)⟩
    · simp only at large more count
      have := fits (by omega)
      omega

/-- A message that is fragmented is not returned as it was sent. -/
theorem RoundTrips.unfragmented (admitted : Admitted F sharing unset hosts)
    (roundTrips : RoundTrips (F := F) sharing unset hosts) :
    ∀ host ∈ hosts, Unfragmented host := by
  intro host member k messageLength found more
  by_contra large
  obtain ⟨h, inside, rfl⟩ := List.getElem_of_mem member
  have host_eq := List.getElem?_eq_getElem inside
  have host_eq' : hosts[(h, k).1]? = some hosts[h] := host_eq
  obtain ⟨numSent, next, count, sent⟩ := packetsOf_sent admitted host_eq' found
  obtain ⟨enough, _⟩ | ⟨_, _, ⟨fits, _⟩ | ⟨_, some_sent, each⟩⟩ :=
    MyUdpBasicApp.sendPacket_cases sent
  · simp only at enough count
    omega
  · exact large fits
  · -- the fragments of the message arrive in order, and nothing else does
    let packets := packetsOf (F := F) sharing unset hosts (h, k)
    obtain ⟨results, bufs, _, returns⟩ := roundTrips
      ((List.range packets.length).map fun i => ((h, k), i))
      (List.Pairwise.map _ (fun _ _ other same => other (Prod.mk.inj same).2) List.nodup_range)
      (by simp [packets])
    obtain ⟨whole, host, length, host_eq', found', length_eq, built⟩ :=
      returns.completes (h, k) (by simp) (by simpa [packets] using some_sent) (by simp [packets])
    rw [host_eq] at host_eq'
    cases host_eq'
    rw [found] at found'
    cases found'
    have large : hosts[h].app.fragmentSize < messageLength := by omega
    exact not_isMessage large each built length_eq

/-- Messages are returned as they are sent exactly if every one of them fits into one packet. -/
theorem messages_roundTrip_iff (sharing : Sharing F) (unset : Int) (hosts : List Host)
    (admitted : Admitted F sharing unset hosts) :
    RoundTrips (F := F) sharing unset hosts ↔ ∀ host ∈ hosts, Unfragmented host := by
  constructor
  · intro roundTrips
    exact roundTrips.unfragmented admitted
  · intro unfragmented order _ inside
    exact returns_of_unfragmented admitted unfragmented inside [] _

/-! ### Examples -/

/-- A host with fragments of 1000 bytes and one message. -/
def single (messageLength : Int) : Host where
  app := { moduleId := 5, fragmentSize := 1000, positive := by decide, fits := by decide }
  lengths := [messageLength]

theorem single_admitted (messageLength : Int)
    (sent : ((single messageLength).app.sendPackets (F := ApplicationPacket ⊕ List Bool) (.never _) 0
      [messageLength]).toOption.isSome = true) :
    Admitted (ApplicationPacket ⊕ List Bool) (.never _) 0 [single messageLength] := by
  intro host member
  obtain rfl := List.mem_singleton.mp member
  obtain ⟨⟨lists, after⟩, sent⟩ := Option.isSome_iff_exists.mp sent
  refine ⟨lists, after, ?_⟩
  cases returned : (single messageLength).app.sendPackets (F := ApplicationPacket ⊕ List Bool)
      (.never _) 0 [messageLength] with
  | ok result =>
    rw [returned] at sent
    cases sent
    exact returned
  | error _ =>
    rw [returned] at sent
    cases sent

/-- A message of 500 bytes is returned. -/
theorem roundTrips_small :
    RoundTrips (F := ApplicationPacket ⊕ List Bool) (.never _) 0 [single 500] := by
  apply (messages_roundTrip_iff (.never _) 0 [single 500] (single_admitted 500 (by decide +kernel))).mpr
  intro host member k messageLength found _
  obtain rfl := List.mem_singleton.mp member
  obtain rfl := List.mem_singleton.mp (List.mem_of_getElem? found)
  decide

/-- A message of 1500 bytes is returned with 2500 bytes. -/
theorem roundTrips_doubles_header :
    ¬ ∀ hosts : List Host, Admitted (ApplicationPacket ⊕ List Bool) (.never _) 0 hosts →
      RoundTrips (F := ApplicationPacket ⊕ List Bool) (.never _) 0 hosts := by
  intro all
  have admitted := single_admitted 1500 (by decide +kernel)
  have fits := (all _ admitted).unfragmented admitted _ List.mem_cons_self 0 1500 rfl (by decide)
  exact absurd fits (by decide)

end Inet.UdpApp
