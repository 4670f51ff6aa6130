import Mathlib
import Inet.Udp.Delivery

/-!
# Delivery of UDP datagrams is exact

From every table that commands lead to, a datagram becomes what it should unless there is a little
padding, nothing for the checksum to be verified over, or a socket on the port that was bound to another
address after it was created.
-/
namespace Inet.Udp.Tables

open Lib CrcMode

variable {A β : Type} {state : State A} {d : Datagram A β} {checks : Checks A β}
variable {sd : SockDesc A}

/-! ### Checksums -/

theorem peekDataAt_cases (correct : ¬d.hasIncorrectLength) :
    d.totalLengthField = UDP_HEADER_LENGTH ∧
      peekDataAt d.data (d.totalLengthField - UDP_HEADER_LENGTH).toNat =
        .error "Returning an empty chunk is not allowed according to the flags" ∨
    d.totalLengthField ≠ UDP_HEADER_LENGTH ∧
      peekDataAt d.data (d.totalLengthField - UDP_HEADER_LENGTH).toNat = .ok d.announced := by
  unfold Datagram.hasIncorrectLength at correct
  by_cases empty : d.totalLengthField = UDP_HEADER_LENGTH
  · exact .inl ⟨empty, if_pos (by omega)⟩
  · exact .inr ⟨empty, if_neg (by omega)⟩

/-- A checksum that verifies is verified, or there is nothing to verify it over. -/
theorem verifyCrc_spec (correct : ¬d.hasIncorrectLength) (verifies : d.verifies checks = true) :
    d.Checkable ∧ d.verifyCrc checks = .ok true ∨
      ¬d.Checkable ∧ ∃ text, d.verifyCrc checks = .error text := by
  unfold Datagram.verifies at verifies
  unfold Datagram.Checkable Datagram.verifyCrc
  cases mode : d.crcMode with
  | CRC_MODE_UNDEFINED => simp [mode] at verifies
  | CRC_DECLARED_INCORRECT => simp [mode] at verifies
  | CRC_DISABLED =>
    rw [mode] at verifies
    exact .inl ⟨fun _ => .inl rfl, congrArg _ verifies⟩
  | CRC_DECLARED_CORRECT =>
    rw [mode] at verifies
    rcases peekDataAt_cases correct with ⟨empty, peeked⟩ | ⟨some, peeked⟩
    · exact .inr ⟨by simp [empty], _, by rw [peeked]; rfl⟩
    · refine .inl ⟨fun empty => absurd empty some, ?_⟩
      rw [peeked, ok_bind]
      exact congrArg _ verifies
  | CRC_COMPUTED =>
    simp only [mode, Bool.or_eq_true, decide_eq_true_eq] at verifies
    by_cases zero : d.crc = 0
    · exact .inl ⟨fun _ => .inr ⟨rfl, zero⟩, if_pos zero⟩
    · have checked := verifies.resolve_left zero
      dsimp only
      rw [if_neg zero]
      rcases peekDataAt_cases correct with ⟨empty, peeked⟩ | ⟨some, peeked⟩
      · exact .inr ⟨by simp [empty, zero], _, by rw [peeked]; rfl⟩
      · refine .inl ⟨fun empty => absurd empty some, ?_⟩
        rw [peeked, ok_bind]
        exact congrArg _ checked

/-- The data that is sent up is what the header announces, unless there is a little padding. -/
theorem trimmed_eq_iff (correct : ¬d.hasIncorrectLength) :
    d.trimmed = d.announced ↔ d.Trimmable := by
  unfold Datagram.hasIncorrectLength at correct
  unfold Datagram.trimmed Datagram.Trimmable
  split
  · next longer => exact ⟨fun _ => .inr longer, fun _ => rfl⟩
  · next shorter =>
    constructor
    · intro same
      have lengths := congrArg List.length same
      rw [Datagram.announced, List.length_take] at lengths
      exact .inl (by omega)
    · intro padding
      exact (List.take_of_length_le (by omega)).symm

/-! ### The search -/

/-- The first accepted socket with an address is found, or else the last accepted one. -/
theorem searchUnicast_eq (accepts : SockDesc A → Bool) (list : List (SockDesc A))
    (anyAddress : Option (SockDesc A)) :
    searchUnicast accepts list anyAddress =
      (list.find? fun sd => accepts sd && sd.localAddr.isSome).or
        ((list.filter accepts).getLast?.or anyAddress) := by
  induction list generalizing anyAddress with
  | nil => rfl
  | cons sd rest ih =>
    simp only [searchUnicast, ih]
    cases accepted : accepts sd with
    | false => simp [accepted]
    | true =>
      cases address : sd.localAddr with
      | none =>
        simp only [accepted, address, Option.isNone_none, if_true, List.find?_cons,
          Option.isSome_none, Bool.and_false, List.filter_cons, List.getLast?_cons]
        cases (rest.filter accepts).getLast? <;> simp
      | some own => simp [accepted, address]

theorem mem_socketsAt_iff (sound : Sound state) {port : Int} :
    sd ∈ state.socketsAt port ↔ state.IsOpen sd ∧ sd.localPort = port := by
  simp only [State.socketsAt, List.mem_filterMap, State.IsOpen]
  constructor
  · rintro ⟨sockId, member, there⟩
    obtain ⟨sd', there', here⟩ := (sound.indexed.member port sockId).mp member
    cases there.symm.trans there'
    exact ⟨⟨sockId, there⟩, here⟩
  · rintro ⟨⟨sockId, there⟩, here⟩
    exact ⟨sockId, (sound.indexed.member port sockId).mpr ⟨sd, there, here⟩, there⟩

variable [DecidableEq A]

/-- A socket that is accepted matches, or is stale. -/
theorem accepts_iff (valid : sd.Valid) (port : sd.localPort = d.destinationPort) :
    sd.accepts d.destAddress d.srcAddress d.sourcePort = true ↔ sd.Matches d ∨ sd.Stale d := by
  simp only [SockDesc.accepts, Bool.or_eq_true, Bool.and_eq_true, decide_eq_true_eq,
    Option.isNone_iff_eq_none]
  constructor
  · rintro (marked | ⟨⟨remotePort, localAddr⟩, remoteAddr⟩)
    · have remote := valid.onlyLocal marked
      by_cases here : sd.localAddr ≠ none → sd.localAddr = d.destAddress
      · exact .inl ⟨port, here, fun some => absurd remote some, fun some =>
          absurd (valid.connected.mp remote) some⟩
      · push Not at here
        exact .inr ⟨marked, here⟩
    · exact .inl ⟨port, localAddr.resolve_left, remoteAddr.resolve_left, remotePort.resolve_left⟩
  · rintro (fits | stale)
    · exact .inr ⟨⟨or_iff_not_imp_left.mpr fits.remotePort, or_iff_not_imp_left.mpr fits.localAddr⟩,
        or_iff_not_imp_left.mpr fits.remoteAddr⟩
    · exact .inl stale.1

omit [DecidableEq A] in
theorem SockDesc.Stale.not_matches (stale : sd.Stale d) : ¬sd.Matches d :=
  fun fits => stale.2.2 (fits.localAddr stale.2.1)

/-- The search finds what it should exactly if no stale socket comes first. -/
theorem findSocketForUnicastPacket_iff (sound : Sound state) :
    (match findSocketForUnicastPacket d.destAddress d.destinationPort d.srcAddress d.sourcePort state with
      | none => ∀ sd, state.IsOpen sd → ¬sd.Matches d
      | some sd => Chosen state d sd) ↔ ¬StaleFirst state d := by
  have accepted {sd : SockDesc A} (member : sd ∈ state.socketsAt d.destinationPort) :
      sd.accepts d.destAddress d.srcAddress d.sourcePort = true ↔ sd.Matches d ∨ sd.Stale d := by
    obtain ⟨⟨sockId, there⟩, port⟩ := (mem_socketsAt_iff sound).mp member
    exact accepts_iff (sound.valid sockId sd there) port
  have listed {sd : SockDesc A} (isOpen : state.IsOpen sd) (fits : sd.Matches d) :
      sd ∈ state.socketsAt d.destinationPort := (mem_socketsAt_iff sound).mpr ⟨isOpen, fits.localPort⟩
  unfold findSocketForUnicastPacket
  rw [searchUnicast_eq, Option.or_none]
  constructor
  · -- A stale socket that comes first is found, or another one before it.
    rintro found ⟨before, sd, behind, split, stale, first⟩
    have wrong : ∃ other, (state.socketsAt d.destinationPort).reverse.find?
        (fun sd => sd.accepts d.destAddress d.srcAddress d.sourcePort && sd.localAddr.isSome) =
        some other ∧ ¬other.Matches d := by
      rw [split, List.reverse_append, List.reverse_cons, List.append_assoc, List.find?_append]
      cases earlier : behind.reverse.find? fun sd =>
          sd.accepts d.destAddress d.srcAddress d.sourcePort && sd.localAddr.isSome with
      | some other =>
        refine ⟨other, rfl, first other ?_ ?_⟩
        · exact List.mem_reverse.mp (List.mem_of_find?_eq_some earlier)
        · have tested := List.find?_some earlier
          simp only [Bool.and_eq_true] at tested
          exact Option.isSome_iff_ne_none.mp tested.2
      | none =>
        refine ⟨sd, ?_, stale.not_matches⟩
        rw [Option.none_or, List.singleton_append, List.find?_cons_of_pos]
        simp only [Bool.and_eq_true]
        exact ⟨(accepted (by simp [split])).mpr (.inr stale), Option.isSome_iff_ne_none.mpr stale.2.1⟩
    obtain ⟨other, taken, differs⟩ := wrong
    rw [taken] at found
    exact differs found.fits
  · intro fresh
    cases specified : (state.socketsAt d.destinationPort).reverse.find? fun sd =>
        sd.accepts d.destAddress d.srcAddress d.sourcePort && sd.localAddr.isSome with
    | some sd =>
      obtain ⟨tested, behind, before, split, others⟩ := List.find?_eq_some_iff_append.mp specified
      simp only [Bool.and_eq_true] at tested
      have own := Option.isSome_iff_ne_none.mp tested.2
      have place := List.reverse_eq_iff.mp split
      rw [List.reverse_append, List.reverse_cons, List.append_assoc, List.singleton_append] at place
      have member : sd ∈ state.socketsAt d.destinationPort := by simp [place]
      have fits : sd.Matches d := by
        refine ((accepted member).mp tested.1).resolve_right fun stale => fresh ?_
        refine ⟨before.reverse, sd, behind.reverse, place, stale, fun other among own fits => ?_⟩
        have rejected := others other (List.mem_reverse.mp among)
        rw [(accepted (by simp [place, List.mem_reverse.mp among])).mpr (.inl fits),
          Option.isSome_iff_ne_none.mpr own] at rejected
        cases rejected
      exact ⟨((mem_socketsAt_iff sound).mp member).1, fits, fun unspecified => absurd unspecified own⟩
    | none =>
      have unspecified {sd : SockDesc A} (member : sd ∈ state.socketsAt d.destinationPort)
          (taken : sd.accepts d.destAddress d.srcAddress d.sourcePort = true) :
          sd.localAddr = none := by
        have rejected := List.find?_eq_none.mp specified sd (List.mem_reverse.mpr member)
        simpa [taken] using rejected
      rw [Option.none_or]
      cases last : ((state.socketsAt d.destinationPort).reverse.filter
          (·.accepts d.destAddress d.srcAddress d.sourcePort)).getLast? with
      | none =>
        intro sd isOpen fits
        have member := listed isOpen fits
        have kept : sd ∈ (state.socketsAt d.destinationPort).reverse.filter
            (·.accepts d.destAddress d.srcAddress d.sourcePort) :=
          List.mem_filter.mpr ⟨List.mem_reverse.mpr member, (accepted member).mpr (.inl fits)⟩
        rw [List.getLast?_eq_none_iff.mp last] at kept
        cases kept
      | some sd =>
        obtain ⟨among, taken⟩ := List.mem_filter.mp (List.mem_of_getLast? last)
        have member := List.mem_reverse.mp among
        have fits := ((accepted member).mp taken).resolve_right fun stale =>
          stale.2.1 (unspecified member taken)
        exact ⟨((mem_socketsAt_iff sound).mp member).1, fits, fun _ other isOpen matching =>
          unspecified (listed isOpen matching)
            ((accepted (listed isOpen matching)).mpr (.inl matching))⟩

/-! ### Verdicts -/

theorem unicast_delivered_iff {kinds : AddressKinds A} (sound : Sound state)
    (correct : ¬d.hasIncorrectLength) (unicast : kinds.isUnicast d.destAddress = true) :
    Delivered kinds d state (dispatch kinds d state) ↔
      (Wanted kinds state d → d.Trimmable) ∧ ¬StaleFirst state d := by
  have exact := findSocketForUnicastPacket_iff (d := d) sound
  rw [← exact, ← trimmed_eq_iff correct]
  unfold dispatch Wanted
  rw [if_pos unicast]
  simp only [unicast, if_true]
  cases findSocketForUnicastPacket d.destAddress d.destinationPort d.srcAddress d.sourcePort
      state with
  | none =>
    dsimp only
    constructor
    · intro delivered
      have nowhere := (delivered.undeliverable unicast correct).mp rfl
      refine ⟨?_, nowhere⟩
      rintro ⟨sd, member, fits⟩
      exact absurd fits (nowhere sd ((mem_socketsAt_iff sound).mp member).1)
    · rintro ⟨-, nowhere⟩
      exact ⟨⟨fun same => (by cases same), fun wrong => absurd wrong correct⟩,
        fun _ _ same => (by cases same), fun _ _ _ same => (by cases same),
        fun _ _ => ⟨fun _ => nowhere, fun _ => rfl⟩⟩
  | some sd =>
    dsimp only
    constructor
    · intro delivered
      refine ⟨fun _ => delivered.data _ _ rfl, ?_⟩
      obtain ⟨_, ⟨⟩, chosen⟩ := delivered.single unicast _ _ rfl
      exact chosen
    · rintro ⟨trimmed, chosen⟩
      have same := trimmed
        ⟨sd, (mem_socketsAt_iff sound).mpr ⟨chosen.isOpen, chosen.fits.localPort⟩, chosen.fits⟩
      refine ⟨⟨fun same => (by cases same), fun wrong => absurd wrong correct⟩, ?_, ?_,
        fun _ _ => ⟨fun same => (by cases same), fun nowhere => ?_⟩⟩
      · rintro _ _ ⟨⟩
        exact same
      · rintro _ _ _ ⟨⟩
        exact ⟨sd, rfl, chosen⟩
      · exact absurd chosen.fits (nowhere sd chosen.isOpen)

theorem copies_delivered_iff {kinds : AddressKinds A} (state : State A)
    (correct : ¬d.hasIncorrectLength) (copies : kinds.isUnicast d.destAddress = false) :
    Delivered kinds d state (dispatch kinds d state) ↔
      (Wanted kinds state d → d.Trimmable) := by
  have never : kinds.isUnicast d.destAddress ≠ true := by simp [copies]
  rw [← trimmed_eq_iff correct]
  unfold dispatch Wanted findSocketsForMcastBcastPacket
  simp only [copies, Bool.false_eq_true, if_false]
  cases receivers : (state.socketsAt d.destinationPort).filter
      (·.acceptsCopy d.destAddress d.srcAddress d.sourcePort (kinds.isBroadcast d.destAddress)) with
  | nil =>
    refine ⟨fun _ ⟨sd, member, accepted⟩ => ?_, fun _ => ?_⟩
    · exact absurd accepted (List.filter_eq_nil_iff.mp receivers sd member)
    · exact ⟨⟨nofun, fun wrong => absurd wrong correct⟩, nofun,
        fun unicast => absurd unicast never, fun unicast => absurd unicast never⟩
  | cons sd sds =>
    refine ⟨fun delivered _ => delivered.data _ _ rfl, fun trimmed => ?_⟩
    have taken : sd ∈ (state.socketsAt d.destinationPort).filter (·.acceptsCopy d.destAddress
        d.srcAddress d.sourcePort (kinds.isBroadcast d.destAddress)) := by simp [receivers]
    refine ⟨⟨nofun, fun wrong => absurd wrong correct⟩, ?_,
      fun unicast => absurd unicast never, fun unicast => absurd unicast never⟩
    rintro _ _ ⟨⟩
    exact trimmed ⟨sd, List.mem_filter.mp taken⟩

/-- After any commands, a datagram whose checksum verifies becomes what it should exactly if its length
is wrong, or it can be checked, has no padding or enough of it where some socket is to have it, and no
stale socket comes first. -/
theorem datagram_delivered_iff (kinds : AddressKinds A) (checks : Checks A β) (d : Datagram A β)
    (state : State A) (reachable : Reachable (fun _ _ => True) state)
    (verifies : d.verifies checks = true) :
    (∃ verdict, processUDPPacket kinds checks d state = .ok verdict ∧
      Delivered kinds d state verdict) ↔
    d.hasIncorrectLength ∨
      d.Checkable ∧ (Wanted kinds state d → d.Trimmable) ∧
        (kinds.isUnicast d.destAddress = true → ¬StaleFirst state d) := by
  have sound := reachable_sound reachable
  unfold processUDPPacket
  by_cases wrong : d.hasIncorrectLength
  · rw [if_pos wrong]
    refine ⟨fun _ => .inl wrong, fun _ => ⟨_, rfl, ⟨fun _ => wrong, fun _ => rfl⟩, nofun,
      fun _ => nofun, fun _ correct => absurd wrong correct⟩⟩
  · rw [if_neg wrong, or_iff_right wrong]
    rcases verifyCrc_spec wrong verifies with ⟨checkable, verified⟩ | ⟨uncheckable, text, failed⟩
    · have returned : (do
          let verified ← d.verifyCrc checks
          return if verified then dispatch kinds d state else .dropped) =
          (.ok (dispatch kinds d state) : Except String (Verdict A β)) := by
        rw [verified, ok_bind]
        rfl
      rw [returned, and_iff_right checkable]
      have once : (∃ verdict, (.ok (dispatch kinds d state) : Except String (Verdict A β)) =
          .ok verdict ∧ Delivered kinds d state verdict) ↔
          Delivered kinds d state (dispatch kinds d state) :=
        ⟨fun ⟨_, same, delivered⟩ => Except.ok.inj same ▸ delivered, fun delivered => ⟨_, rfl, delivered⟩⟩
      rw [once]
      cases unicast : kinds.isUnicast d.destAddress with
      | true =>
        rw [unicast_delivered_iff sound wrong unicast]
        simp only [true_implies]
      | false =>
        rw [copies_delivered_iff state wrong unicast]
        simp only [Bool.false_eq_true, false_implies, and_true]
    · rw [failed]
      refine ⟨fun ⟨_, returned, _⟩ => ?_, fun ⟨checkable, _⟩ => absurd checkable uncheckable⟩
      cases returned

/-! ### Two datagrams -/

def onlyUnicast : AddressKinds Nat where
  isMulticast := fun _ => false
  isBroadcast := fun _ => false

def allCorrect : Checks Nat Nat where
  computeCrc := fun _ _ => 0xFFFF
  isCorrect := fun _ => true

/-- A datagram of one octet to port 53, with paddings. -/
def oneOctet (destAddress : Nat) (padding : List Nat) : Datagram Nat Nat where
  sourcePort := 80
  destinationPort := 53
  totalLengthField := 9
  srcAddress := some 9
  destAddress := some destAddress
  data := 65 :: padding

/-- An octet comes to the socket of its address. -/
theorem octet_delivered :
    ∃ (state : State Nat) (verdict : Verdict Nat Nat),
      processUDPPacket onlyUnicast allCorrect (oneOctet 7 []) state = .ok verdict ∧
      Delivered onlyUnicast (oneOctet 7 []) state verdict := by
  have bound : Reachable (fun _ _ => True) _ :=
    .after (A := Nat) (.bind 1 (some 7) 53) .initial trivial rfl
  have condition := datagram_delivered_iff onlyUnicast allCorrect (oneOctet 7 []) _ bound rfl
  obtain ⟨verdict, returned, exact⟩ := condition.mpr (.inr
    ⟨fun empty => absurd empty (by decide), fun _ => .inl rfl, fun _ => by
      rintro ⟨before, sd, behind, split, ⟨marked, -⟩, -⟩
      have member : sd ∈ before ++ sd :: behind := by simp
      rw [← split] at member
      cases member with
      | head => cases marked
      | tail _ more => cases more⟩)
  exact ⟨_, verdict, returned, exact⟩

/-- Three octets of padding are sent up with the octet that is announced, and an octet to another address
comes to a socket that was bound after it was created. -/
theorem wrongly_delivered :
    (∃ (state : State Nat) (receivers : List (SockDesc Nat)), Reachable (fun _ _ => True) state ∧
      processUDPPacket onlyUnicast allCorrect (oneOctet 7 [0, 0, 0]) state =
        .ok (.sentUp receivers [65, 0, 0, 0]) ∧
      ¬Delivered onlyUnicast (oneOctet 7 [0, 0, 0]) state (.sentUp receivers [65, 0, 0, 0])) ∧
    ∃ (state : State Nat) (sd : SockDesc Nat), Reachable (fun _ _ => True) state ∧
      sd.localAddr = some 7 ∧
      processUDPPacket onlyUnicast allCorrect (oneOctet 5 []) state = .ok (.sentUp [sd] [65]) ∧
      ¬Delivered onlyUnicast (oneOctet 5 []) state (.sentUp [sd] [65]) := by
  constructor
  · have bound : Reachable (fun _ _ => True) _ :=
      .after (A := Nat) (.bind 1 (some 7) 53) .initial trivial rfl
    refine ⟨_, _, bound, rfl, fun delivered => ?_⟩
    cases delivered.data _ _ rfl
  · have created : Reachable (fun _ _ => True) _ :=
      .after (A := Nat) (.setOption 1 .other) .initial trivial rfl
    have bound : Reachable (fun _ _ => True) _ :=
      .after (.bind 1 (some 7) 53) created trivial rfl
    refine ⟨_, _, bound, ?_, rfl, fun delivered => ?_⟩
    · rfl
    · obtain ⟨_, ⟨⟩, chosen⟩ := delivered.single rfl _ _ rfl
      cases chosen.fits.localAddr (by simp)

end Inet.Udp.Tables
