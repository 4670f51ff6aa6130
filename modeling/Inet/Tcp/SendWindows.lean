import Inet.Tcp.SendOutline
import Inet.Tcp.Senders

/-!
# Data is sent within the windows

`sendData` spends its budget as the outline of the sender says. The octets that segments are moved
over decide whether everything it sends is in the windows.
-/
namespace Inet.Tcp

open Lib Lib.Serial

variable {nxt sent : Nat} {congestionWindow effectiveMss left : BitVec 32} {snd_una : SeqNum}

namespace TcpSender

/-- What decides how the octets from `snd_una` on are sent. -/
def outline (s : TcpSender) : Outline where
  ending := fwd s.state.snd_una s.sendQueue.end_
  effectiveMss := (s.state.snd_mss - s.writeHeaderOptions.1).toNat
  room := s.state.snd_mss.toNat - s.laterOptions.toNat
  skip := s.skip
  nagle := s.nagle_enabled
  fin := s.send_fin

/-- There is data that is not acknowledged. -/
def outstanding (s : TcpSender) : Bool := s.state.snd_una != s.state.snd_max

/-- SACKs have been written. -/
def Quiet (s : TcpSender) : Prop :=
  s.writesOptions = true → s.state.sack_enabled = true → s.sacks = none

theorem Quiet.written (s : TcpSender) : s.writeHeaderOptions.2.Quiet := by
  intro writes enabled
  obtain ⟨sacks, same⟩ := s.writeHeaderOptions_snd
  rw [same] at writes enabled
  unfold writeHeaderOptions
  rw [if_pos (show s.writesOptions = true from writes)]
  dsimp only
  rw [if_pos (show s.state.sack_enabled = true from enabled)]

theorem Quiet.write {s : TcpSender} (quiet : s.Quiet) :
    s.writeHeaderOptions = (s.laterOptions, s) := by
  unfold writeHeaderOptions laterOptions
  by_cases writes : s.writesOptions = true
  · rw [if_pos writes, if_pos writes]
    by_cases enabled : s.state.sack_enabled = true
    · have empty := quiet writes enabled
      have same : ({ s with sacks := none } : TcpSender) = s := by
        rw [← empty]
      simp only [if_pos enabled, empty]
      cases s.state.ts_enabled <;> exact Prod.ext rfl same
    · simp only [if_neg enabled]
      cases s.state.ts_enabled <;> rfl
  · rw [if_neg writes, if_neg writes]

variable {s : TcpSender} {o : Outline} {p data : Nat}

/-- The sender is at a position of an outline. A FIN that is sent behind the data is not counted. -/
structure Follows (o : Outline) (snd_una : SeqNum) (s : TcpSender) (p : Nat) : Prop where
  placed : ∃ nxt sent, s.Placed nxt sent o.ending ∧ (nxt = p ∨ p = o.ending ∧ nxt = p + 1) ∧
    (s.afterRto = true ∨ nxt = sent)
  quiet : s.Quiet
  snd_una : s.state.snd_una = snd_una
  room : s.state.snd_mss.toNat - s.laterOptions.toNat = o.room
  skip : ∀ n, p ≤ n → n < o.ending → s.skip n = o.skip n
  nagle : s.nagle_enabled = o.nagle
  fin : s.send_fin = o.fin

/-- Behind everything that is sent nothing is skipped. -/
theorem Placed.skip_sent (placed : s.Placed nxt sent data) {n : Nat}
    (behind : sent ≤ n) : s.skip n = 0 := by
  have near := placed.sent_le
  have short := placed.short
  unfold TcpSender.skip
  split
  · next enabled =>
    obtain ⟨size, board, ends⟩ := placed.scoreboard enabled
    have bound := passed_le (flagsOf s.rexmitQueue.rexmitQueue) n
    rw [board.length_eq (by omega)] at bound
    omega
  · rfl

theorem Placed.start_eq (placed : s.Placed nxt sent data)
    (running : s.afterRto = true ∨ nxt = sent) : s.start nxt = nxt + s.skip nxt := by
  unfold TcpSender.start
  rcases running with running | rfl
  · rw [if_pos running]
  · rw [placed.skip_sent le_rfl]
    split <;> rfl

theorem Placed.outstanding_eq (placed : s.Placed nxt sent data) :
    s.outstanding = decide (0 < sent) := by
  have near := placed.sent_le
  have short := placed.short
  have same := seqOf_inj s.state.snd_una (a := 0) (b := sent) (by omega) (by omega)
  rw [seqOf_zero, ← placed.snd_max] at same
  unfold outstanding
  by_cases none : 0 = sent
  · rw [← same.mpr none, bne_self_eq_false, decide_eq_false (by omega)]
  · rw [bne_iff_ne.mpr (mt same.mp none), decide_eq_true (by omega)]

namespace Follows

variable {snd_una : SeqNum}

theorem room_eq (follows : Follows o snd_una s p) (fits : s.laterOptions < s.state.snd_mss) :
    (s.state.snd_mss - s.laterOptions).toNat = o.room := by
  rw [BitVec.lt_def] at fits
  rw [BitVec.toNat_sub_of_le (by rw [BitVec.le_def]; omega), follows.room]

/-- A segment that the outline has is sent. -/
theorem segment_some (follows : Follows o snd_una s p) {request : BitVec 32} {start length : Nat}
    (found : o.segment p request.toNat = some (start, length)) :
    ∃ fin s', s.sendSegment request =
        .ok (BitVec.ofNat 32 length, ⟨seqOf snd_una start, BitVec.ofNat 32 length, fin⟩, s') ∧
      Follows o snd_una s' (start + length) ∧ s'.outstanding = true := by
  obtain ⟨rfl, length_eq, positive⟩ := Outline.segment_eq_some.mp found
  obtain ⟨⟨nxt, sent, placed, here, running⟩, quiet, rfl, room, skip, nagle, fin⟩ := follows
  have here : nxt = p := by omega
  subst here
  have fits : s.laterOptions < s.state.snd_mss := by
    rw [BitVec.lt_def]
    omega
  have start : s.start nxt = nxt + o.skip nxt := by
    rw [placed.start_eq running, skip nxt le_rfl (by omega)]
  have taken : s.taken o.ending nxt request.toNat = length := by
    unfold TcpSender.taken
    rw [start, quiet.write, room_eq ⟨⟨nxt, sent, placed, .inl rfl, running⟩, quiet, rfl, room, skip,
      nagle, fin⟩ fits, length_eq]
  have sent_eq := placed.sendSegment_ok (by omega) request (by rw [quiet.write]; exact fits)
    (by rw [taken]; exact positive)
  dsimp only at sent_eq
  rw [taken, start] at sent_eq
  obtain ⟨q', returned, placed', kept⟩ := sent_eq
  have short := placed.short
  have stop_le : nxt + o.skip nxt + length ≤ o.ending := by omega
  refine ⟨_, _, returned, ⟨⟨_, _, placed', ?_, ?_⟩, ?_, rfl, ?_, ?_, ?_, ?_⟩, ?_⟩
  · split
    · next ends =>
      have last := eq_of_beq (Bool.and_eq_true_iff.mp ends).2
      exact .inr ⟨last, by rw [last]⟩
    · exact .inl rfl
  · by_cases before : s.afterRto = true ∧ nxt + o.skip nxt + length < sent
    · exact .inl (Bool.and_eq_true_iff.mpr ⟨before.1, decide_eq_true before.2⟩)
    · refine .inr (Nat.max_eq_right ?_).symm
      rcases running with running | rfl
      · have reached : ¬nxt + o.skip nxt + length < sent := fun less => before ⟨running, less⟩
        split <;> omega
      · split <;> omega
  · unfold TcpSender.advance
    rw [quiet.write]
    exact quiet
  · unfold TcpSender.advance
    rw [quiet.write]
    exact room
  · intro n behind inside
    rw [← skip n (by omega) inside]
    refine kept n ?_
    split
    · next ends =>
      have last := eq_of_beq (Bool.and_eq_true_iff.mp ends).2
      omega
    · exact behind
  · unfold TcpSender.advance
    rw [quiet.write]
    exact nagle
  · unfold TcpSender.advance
    rw [quiet.write]
    exact fin
  · rw [placed'.outstanding_eq, decide_eq_true_eq]
    refine Nat.lt_of_lt_of_le ?_ (Nat.le_max_right _ _)
    split <;> omega

/-- Where the outline has no segment, none is sent. -/
theorem segment_none (follows : Follows o snd_una s p) {request : BitVec 32}
    (missing : o.segment p request.toNat = none) : ∃ e, s.sendSegment request = .error e := by
  obtain ⟨⟨nxt, sent, placed, here, running⟩, quiet, rfl, room, skip, nagle, fin⟩ := follows
  refine placed.sendSegment_error request fun fits => ?_
  rw [quiet.write] at fits
  have start : nxt ≤ s.start nxt := by
    unfold TcpSender.start
    split <;> omega
  unfold TcpSender.taken
  rw [quiet.write, room_eq ⟨⟨nxt, sent, placed, here, running⟩, quiet, rfl, room, skip,
      nagle, fin⟩ fits]
  unfold Outline.segment at missing
  dsimp only at missing
  split at missing
  · next empty =>
    by_cases found : nxt < o.ending
    · have here : nxt = p := by omega
      subst here
      have moved : s.start nxt = nxt + o.skip nxt := by
        rw [placed.start_eq running, skip nxt le_rfl found]
      rw [moved]
      exact empty
    · omega
  · cases missing

theorem short (follows : Follows o snd_una s p) : o.ending + 1 < 2 ^ 31 := by
  obtain ⟨nxt, sent, placed, -, -⟩ := follows.placed
  exact placed.short

/-- The last segment is held as the outline says. -/
theorem delays_eq (follows : Follows o snd_una s p) (some : left.toNat ≠ 0)
    (near : left.toNat < 2 ^ 31) : s.delays left = o.held s.outstanding p left.toNat := by
  obtain ⟨⟨nxt, sent, placed, here, running⟩, quiet, rfl, room, skip, nagle, fin⟩ := follows
  have short := placed.short
  have near_nxt := placed.nxt_le
  have near_sent := placed.sent_le
  have contains : (s.send_fin && s.snd_nxt + left == s.snd_fin_seq) =
      (s.send_fin && p + left.toNat == o.ending) := by
    cases closed : s.send_fin with
    | false => rfl
    | true =>
      have same := seqOf_inj s.state.snd_una (a := nxt + left.toNat) (b := o.ending)
        (by omega) (by omega)
      rw [seqOf_add, BitVec.ofNat_toNat, BitVec.setWidth_eq] at same
      rw [placed.snd_nxt, placed.snd_fin_seq closed, placed.ends, Bool.eq_iff_iff, Bool.true_and,
        Bool.true_and, beq_iff_eq, beq_iff_eq, same]
      omega
  unfold delays Outline.held outstanding
  dsimp only
  rw [contains, fin, nagle]

end Follows

/-- The loop and what comes behind it. -/
def sendAll (effectiveMss : BitVec 32) (rounds : Nat) (bytesToSend : BitVec 32) (s : TcpSender) :
    Except String (List Segment × TcpSender) := do
  let (bytesToSend, whole, s) ← sendWhole effectiveMss rounds bytesToSend s
  let (rest, s) ← s.sendRest bytesToSend
  return (whole ++ rest, s)

theorem sendAll_large {sentBytes : BitVec 32} {segment : Segment} {s' : TcpSender}
    (large : effectiveMss ≤ left) (rounds : Nat)
    (returned : s.sendSegment effectiveMss = .ok (sentBytes, segment, s'))
    (less : sentBytes ≤ left) :
    sendAll effectiveMss (rounds + 1) left s =
      (sendAll effectiveMss rounds (left - sentBytes) s').map fun sent =>
        (segment :: sent.1, sent.2) := by
  unfold sendAll
  rw [sendWhole, if_pos large, returned, ok_bind]
  dsimp only
  rw [assert, if_pos (decide_eq_true less), ok_bind]
  cases sendWhole effectiveMss rounds (left - sentBytes) s' with
  | error e => rfl
  | ok whole =>
    obtain ⟨left', segments, s''⟩ := whole
    rw [ok_bind, ok_bind, pure_bind]
    dsimp only
    cases s''.sendRest left' with
    | error e => rfl
    | ok rest => rfl

theorem sendAll_small (small : ¬effectiveMss ≤ left) (rounds : Nat) :
    sendAll effectiveMss (rounds + 1) left s = s.sendRest left := by
  unfold sendAll
  rw [sendWhole, if_neg small, ok_bind]
  dsimp only
  cases s.sendRest left with
  | error e => rfl
  | ok rest => rfl

/-- A segment has the octets from a start on, of a length. -/
def Matches (snd_una : SeqNum) (segment : Segment) (octets : Nat × Nat) : Prop :=
  segment.sequenceNo = seqOf snd_una octets.1 ∧ segment.length = BitVec.ofNat 32 octets.2 ∧
    0 < octets.2 ∧ octets.1 + octets.2 < 2 ^ 31

/-- The segments that are sent are those of the outline. -/
theorem sendAll_spec (size : effectiveMss.toNat = o.effectiveMss) (rounds : Nat) (left : BitVec 32)
    (near : left.toNat < 2 ^ 31) (follows : Follows o snd_una s p) :
    match o.spend rounds s.outstanding p left.toNat with
    | none => ∃ e, sendAll effectiveMss rounds left s = .error e
    | some segments => ∃ sent s', sendAll effectiveMss rounds left s = .ok (sent, s') ∧
        List.Forall₂ (Matches snd_una) sent segments := by
  induction rounds generalizing s p left with
  | zero => exact ⟨_, rfl⟩
  | succ rounds ih =>
    have short := follows.short
    rw [Outline.spend]
    have order := BitVec.le_def (x := effectiveMss) (y := left)
    rw [size] at order
    by_cases large : effectiveMss ≤ left
    · rw [if_pos (order.mp large)]
      cases found : o.segment p o.effectiveMss with
      | none =>
        rw [← size] at found
        obtain ⟨e, failed⟩ := follows.segment_none found
        refine ⟨e, ?_⟩
        unfold sendAll
        rw [sendWhole, if_pos large, failed]
        rfl
      | some octets =>
        obtain ⟨start, length⟩ := octets
        have bounds := Outline.segment_eq_some.mp found
        rw [← size] at found
        obtain ⟨fin, s', returned, follows', outstanding⟩ := follows.segment_some found
        have counted : (BitVec.ofNat 32 length).toNat = length := by
          have := left.isLt
          have := order.mp large
          rw [BitVec.toNat_ofNat, Nat.mod_eq_of_lt (by omega)]
        have less : BitVec.ofNat 32 length ≤ left := by
          have := order.mp large
          rw [BitVec.le_def]
          omega
        have rest : (left - BitVec.ofNat 32 length).toNat = left.toNat - length := by
          rw [BitVec.toNat_sub_of_le less, counted]
        have later := ih (left - BitVec.ofNat 32 length) (by omega) follows'
        rw [outstanding, rest] at later
        rw [sendAll_large large rounds returned less, Option.bind_eq_bind, Option.bind_some]
        dsimp only
        cases spent : o.spend rounds true (start + length) (left.toNat - length) with
        | none =>
          rw [spent] at later
          obtain ⟨e, failed⟩ := later
          rw [failed]
          exact ⟨e, rfl⟩
        | some segments =>
          rw [spent] at later
          obtain ⟨sent, s'', sends, same⟩ := later
          rw [sends]
          exact ⟨_, s'', rfl, .cons ⟨rfl, rfl, bounds.2.2, by omega⟩ same⟩
    · rw [if_neg (mt order.mpr large), sendAll_small large]
      unfold sendRest
      by_cases nothing : left.toNat = 0
      · rw [if_pos (.inl nothing), if_neg (by rw [BitVec.lt_def, nothing]; exact Nat.lt_irrefl _)]
        exact ⟨[], s, rfl, .nil⟩
      · rw [if_pos (show 0 < left by rw [BitVec.lt_def]; exact Nat.pos_of_ne_zero nothing),
          follows.delays_eq nothing near]
        by_cases held : o.held s.outstanding p left.toNat = true
        · rw [if_pos (.inr held), if_pos held]
          exact ⟨[], s, rfl, .nil⟩
        · rw [if_neg (not_or.mpr ⟨nothing, held⟩), if_neg held]
          cases found : o.segment p left.toNat with
          | none =>
            obtain ⟨e, failed⟩ := follows.segment_none found
            rw [failed]
            exact ⟨e, rfl⟩
          | some octets =>
            obtain ⟨start, length⟩ := octets
            have bounds := Outline.segment_eq_some.mp found
            obtain ⟨fin, s', returned, -, -⟩ := follows.segment_some found
            rw [returned]
            exact ⟨_, s', rfl, .cons ⟨rfl, rfl, bounds.2.2, by omega⟩ .nil⟩

/-! ### All of `sendData` -/

/-- The octets of data of a segment are in a window. -/
def InWindow (snd_una : SeqNum) (window : Nat) (segment : Segment) : Prop :=
  ∀ k < segment.length.toNat, fwd snd_una (segment.sequenceNo + BitVec.ofNat 32 k) < window

theorem Matches.inWindow_iff {segment : Segment} {octets : Nat × Nat}
    (same : Matches snd_una segment octets) (window : Nat) :
    InWindow snd_una window segment ↔ octets.1 + octets.2 ≤ window := by
  obtain ⟨start, length, positive, near⟩ := same
  have counted : segment.length.toNat = octets.2 := by
    rw [length, BitVec.toNat_ofNat, Nat.mod_eq_of_lt (by omega)]
  have position {k : Nat} (inside : k < octets.2) :
      fwd snd_una (segment.sequenceNo + BitVec.ofNat 32 k) = octets.1 + k := by
    rw [start, ← seqOf_add]
    exact fwd_add _ _ (by omega)
  unfold InWindow
  rw [counted]
  constructor
  · intro inside
    have last := inside (octets.2 - 1) (by omega)
    rw [position (by omega)] at last
    omega
  · intro le k inside
    rw [position inside]
    omega

/-- `sendData` ends, after some number of rounds, without a failed assertion. Each segment has data
or a FIN, and all its octets of data are in both windows. -/
def SendsInWindows (s : TcpSender) (congestionWindow : BitVec 32) : Prop :=
  ∃ rounds sent segments after, s.sendData congestionWindow rounds = .ok (sent, segments, after) ∧
    ∀ segment ∈ segments, (0 < segment.length ∨ segment.fin = true) ∧
      InWindow s.state.snd_una (min s.state.snd_wnd.toNat congestionWindow.toNat) segment

/-- The octets that may be sent. -/
def allowed (s : TcpSender) (congestionWindow : BitVec 32) : Nat :=
  min s.outline.ending (s.maxWindow congestionWindow).toNat - fwd s.state.snd_una s.snd_nxt

/-- Nothing can be sent, or there is room for the options and the octets that are skipped are made
up for. Where the options of segments leave no room for data, everything has to be held. -/
def SkipsAffordably (s : TcpSender) (congestionWindow : BitVec 32) : Prop :=
  let start := fwd s.state.snd_una s.snd_nxt
  let left := s.allowed congestionWindow
  s.sendQueue.getBytesAvailable s.snd_nxt = 0 ∨ (s.maxWindow congestionWindow).toNat ≤ start ∨
    s.writeHeaderOptions.1 < s.state.snd_mss ∧
      if s.laterOptions < s.state.snd_mss then
        s.outline.Affordable (s.maxWindow congestionWindow).toNat s.outstanding start left
      else left < s.outline.effectiveMss ∧ s.outline.held s.outstanding start left = true

theorem Placed.atStart (placed : s.Placed nxt sent data) :
    ∃ nxt', s.atStart.Placed nxt' sent data ∧ (s.atStart.afterRto = true ∨ nxt' = sent) := by
  unfold TcpSender.atStart
  cases running : s.afterRto with
  | true => exact ⟨nxt, placed, .inl running⟩
  | false =>
    exact ⟨sent, ⟨placed.begins, placed.ends, placed.snd_max, placed.snd_max, le_rfl,
      placed.sent_le, placed.short, placed.snd_fin_seq, placed.scoreboard⟩, .inr rfl⟩

theorem Placed.ending_eq (placed : s.Placed nxt sent data) :
    s.outline.ending = data := by
  have short := placed.short
  have ends := fwd_seqOf s.state.snd_una (Nat.zero_le data) (by omega)
  rw [seqOf_zero] at ends
  change fwd _ _ = _
  rw [placed.ends, ends, Nat.sub_zero]

/-- After the options are written the sender is at the start of its outline. -/
theorem Placed.follows (placed : s.Placed nxt sent data)
    (running : s.afterRto = true ∨ nxt = sent) :
    Follows s.outline s.state.snd_una s.writeHeaderOptions.2 nxt := by
  have quiet := Quiet.written s
  have ending := placed.ending_eq
  obtain ⟨sacks, written⟩ := s.writeHeaderOptions_snd
  rw [written] at quiet ⊢
  exact ⟨⟨nxt, sent, ending ▸ ⟨placed.begins, placed.ends, placed.snd_nxt, placed.snd_max,
    placed.nxt_le, placed.sent_le, placed.short, placed.snd_fin_seq, placed.scoreboard⟩,
    .inl rfl, running⟩, quiet, rfl, rfl, fun _ _ _ => rfl, rfl, rfl⟩

theorem snd_nxt_eq (placed : s.Placed nxt sent data) :
    fwd s.state.snd_una s.snd_nxt = nxt := by
  have := placed.short
  have := placed.nxt_le
  have := placed.sent_le
  have distance := fwd_seqOf s.state.snd_una (Nat.zero_le nxt) (by omega)
  rwa [seqOf_zero, Nat.sub_zero, ← placed.snd_nxt] at distance

/-- The budget of `sendData`. -/
theorem budget_eq (placed : s.Placed nxt sent data)
    (open_ : nxt < (s.maxWindow congestionWindow).toNat) :
    (let buffered := BitVec.ofNat 32 (data - nxt)
      let window := BitVec.ofInt 32 ((s.maxWindow congestionWindow).toNat - nxt : Int)
      if window < buffered then window else buffered).toNat = s.allowed congestionWindow := by
  have short := placed.short
  have largest := (s.maxWindow congestionWindow).isLt
  have window : (BitVec.ofInt 32 ((s.maxWindow congestionWindow).toNat - nxt : Int)).toNat =
      (s.maxWindow congestionWindow).toNat - nxt := by
    rw [BitVec.toNat_ofInt, Int.emod_eq_of_lt (by omega) (by omega)]
    omega
  have buffered : (BitVec.ofNat 32 (data - nxt)).toNat = data - nxt := by
    rw [BitVec.toNat_ofNat, Nat.mod_eq_of_lt (by omega)]
  unfold allowed
  rw [placed.ending_eq, snd_nxt_eq placed]
  dsimp only
  split
  · next less =>
    rw [BitVec.lt_def] at less
    omega
  · next more =>
    rw [BitVec.lt_def] at more
    omega

/-- What `sendData` does when something may be sent. -/
theorem sendData_eq (placed : s.atStart.Placed nxt sent data)
    (available : nxt < data) (open_ : nxt < (s.atStart.maxWindow congestionWindow).toNat) :
    ∃ left : BitVec 32, left.toNat = s.atStart.allowed congestionWindow ∧ ∀ rounds,
      s.sendData congestionWindow rounds =
        if s.atStart.writeHeaderOptions.1 < s.atStart.state.snd_mss then
          (sendAll (s.atStart.state.snd_mss - s.atStart.writeHeaderOptions.1) rounds left
            s.atStart.writeHeaderOptions.2).map fun sent =>
              (s.atStart.snd_nxt != sent.2.snd_nxt, sent.1, sent.2)
        else .error "options_len < state->snd_mss" := by
  refine ⟨_, budget_eq placed open_, fun rounds => ?_⟩
  have short := placed.short
  have buffered := placed.available (n := nxt) (by omega)
  rw [← placed.snd_nxt] at buffered
  have some : BitVec.ofNat 32 (data - nxt) ≠ 0 := fun none => by
    have counted := congrArg BitVec.toNat none
    rw [BitVec.toNat_ofNat, Nat.mod_eq_of_lt (by omega)] at counted
    exact absurd counted (by simp; omega)
  have distance : (s.atStart.snd_nxt - s.atStart.state.snd_una).toNat = nxt := snd_nxt_eq placed
  unfold sendData
  dsimp only
  rw [buffered, if_neg some, distance, if_neg (by omega)]
  by_cases fits : s.atStart.writeHeaderOptions.1 < s.atStart.state.snd_mss
  · obtain ⟨sacks, written⟩ := s.atStart.writeHeaderOptions_snd
    have same : s.atStart.writeHeaderOptions.2.state = s.atStart.state := by rw [written]
    rw [if_pos fits, same, assert, if_pos (decide_eq_true fits), ok_bind]
    unfold sendAll
    cases sendWhole (s.atStart.state.snd_mss - s.atStart.writeHeaderOptions.1) rounds _
        s.atStart.writeHeaderOptions.2 with
    | error e => rfl
    | ok whole =>
      obtain ⟨left, segments, s'⟩ := whole
      rw [ok_bind, ok_bind]
      dsimp only
      cases s'.sendRest left with
      | error e => rfl
      | ok rest => rfl
  · obtain ⟨sacks, written⟩ := s.atStart.writeHeaderOptions_snd
    have same : s.atStart.writeHeaderOptions.2.state = s.atStart.state := by rw [written]
    rw [if_neg fits, same, assert, if_neg (by rw [decide_eq_true_iff]; exact fits)]
    rfl

theorem Matches.allInWindow_iff {segments : List Segment}
    {octets : List (Nat × Nat)} (same : List.Forall₂ (Matches snd_una) segments octets)
    (window : Nat) :
    (∀ segment ∈ segments, (0 < segment.length ∨ segment.fin = true) ∧
      InWindow snd_una window segment) ↔ ∀ segment ∈ octets, segment.1 + segment.2 ≤ window := by
  induction same with
  | nil => exact iff_of_true nofun nofun
  | @cons segment octet segments octets first rest ih =>
    have some : 0 < segment.length := by
      obtain ⟨-, length, positive, near⟩ := first
      rw [BitVec.lt_def, length, BitVec.toNat_ofNat, Nat.mod_eq_of_lt (by omega)]
      exact positive
    rw [List.forall_mem_cons, List.forall_mem_cons, ih, first.inWindow_iff,
      and_iff_right (.inl some : 0 < segment.length ∨ segment.fin = true)]

/-- Data is sent in the windows exactly when the outline spends the budget below them. -/
theorem sendsInWindows_iff_spends (placed : s.atStart.Placed nxt sent data)
    (running : s.atStart.afterRto = true ∨ nxt = sent)
    (available : nxt < data) (open_ : nxt < (s.atStart.maxWindow congestionWindow).toNat) :
    s.SendsInWindows congestionWindow ↔
      s.atStart.writeHeaderOptions.1 < s.atStart.state.snd_mss ∧
        s.atStart.outline.SpendsBelow (s.atStart.maxWindow congestionWindow).toNat
          s.atStart.outstanding nxt (s.atStart.allowed congestionWindow) := by
  have short := placed.short
  have ending := placed.ending_eq
  have bound : s.atStart.allowed congestionWindow < 2 ^ 31 := by
    unfold allowed
    omega
  have window : (s.atStart.maxWindow congestionWindow).toNat =
      min s.state.snd_wnd.toNat congestionWindow.toNat := by
    have same : s.atStart.state = s.state := by
      unfold TcpSender.atStart
      split <;> rfl
    unfold maxWindow
    rw [same]
    split
    · next less =>
      rw [BitVec.lt_def] at less
      omega
    · next more =>
      rw [BitVec.lt_def] at more
      omega
  have same_una : s.atStart.state.snd_una = s.state.snd_una := by
    unfold TcpSender.atStart
    split <;> rfl
  have quiet : s.atStart.writeHeaderOptions.2.outstanding = s.atStart.outstanding := by
    obtain ⟨sacks, written⟩ := s.atStart.writeHeaderOptions_snd
    rw [written]
    rfl
  obtain ⟨left, left_eq, sends⟩ := sendData_eq placed available open_
  have spec := fun rounds => sendAll_spec (o := s.atStart.outline) rfl rounds left (by omega)
    (placed.follows running)
  rw [left_eq, quiet, same_una] at spec
  unfold SendsInWindows Outline.SpendsBelow
  rw [← window]
  constructor
  · rintro ⟨rounds, sent, segments, after, returned, inside⟩
    rw [sends] at returned
    split at returned
    · next fits =>
      have spent := spec rounds
      split at spent
      · obtain ⟨e, failed⟩ := spent
        have failed : sendAll (s.atStart.state.snd_mss - s.atStart.writeHeaderOptions.1) rounds left
            s.atStart.writeHeaderOptions.2 = .error e := failed
        rw [failed] at returned
        cases returned
      · next octets found =>
        obtain ⟨sent', s', all, same⟩ := spent
        have all : sendAll (s.atStart.state.snd_mss - s.atStart.writeHeaderOptions.1) rounds left
            s.atStart.writeHeaderOptions.2 = .ok (sent', s') := all
        rw [all] at returned
        cases returned
        exact ⟨fits, rounds, octets, found, (Matches.allInWindow_iff same _).mp inside⟩
    · cases returned
  · rintro ⟨fits, rounds, octets, found, below⟩
    have spent := spec rounds
    rw [found] at spent
    obtain ⟨sent', s', all, same⟩ := spent
    refine ⟨rounds, s.atStart.snd_nxt != s'.snd_nxt, sent', s', ?_,
      (Matches.allInWindow_iff same _).mpr below⟩
    rw [sends, if_pos fits]
    exact congrArg (Except.map _) all

/-- Nothing happens without data. -/
theorem sendsInWindows_of_empty (empty : s.atStart.sendQueue.getBytesAvailable s.atStart.snd_nxt = 0)
    (congestionWindow : BitVec 32) : s.SendsInWindows congestionWindow := by
  refine ⟨0, false, [], s.atStart, ?_, nofun⟩
  unfold sendData
  dsimp only
  rw [if_pos empty]

theorem Placed.inWindows_iff (placed : s.Placed nxt sent data) (congestionWindow : BitVec 32) :
    s.SendsInWindows congestionWindow ↔ s.atStart.SkipsAffordably congestionWindow := by
  obtain ⟨nxt, placed, running⟩ := placed.atStart
  have short := placed.short
  have near := placed.nxt_le
  have near_sent := placed.sent_le
  have ending := placed.ending_eq
  have start := snd_nxt_eq placed
  have buffered := placed.available (n := nxt) (by omega)
  rw [← placed.snd_nxt] at buffered
  unfold SkipsAffordably
  dsimp only
  rw [start]
  by_cases available : nxt < data
  · have some : BitVec.ofNat 32 (data - nxt) ≠ 0 := fun none => by
      have counted := congrArg BitVec.toNat none
      rw [BitVec.toNat_ofNat, Nat.mod_eq_of_lt (by omega)] at counted
      exact absurd counted (by simp; omega)
    rw [buffered, or_iff_right some]
    by_cases open_ : nxt < (s.atStart.maxWindow congestionWindow).toNat
    · rw [or_iff_right (Nat.not_le.mpr open_),
        sendsInWindows_iff_spends placed running available open_]
      refine and_congr_right fun fits => ?_
      rw [BitVec.lt_def] at fits
      have positive : 0 < s.atStart.outline.effectiveMss := by
        change 0 < (s.atStart.state.snd_mss - s.atStart.writeHeaderOptions.1).toNat
        rw [BitVec.toNat_sub_of_le (by rw [BitVec.le_def]; omega)]
        omega
      have starts : nxt + s.atStart.allowed congestionWindow =
          min s.atStart.outline.ending (s.atStart.maxWindow congestionWindow).toNat := by
        unfold allowed
        rw [start]
        omega
      have room : s.atStart.outline.room =
          s.atStart.state.snd_mss.toNat - s.atStart.laterOptions.toNat := rfl
      split
      · next later =>
        rw [BitVec.lt_def] at later
        refine Outline.spendsBelow_iff ?_ starts
        unfold Outline.size
        omega
      · next full =>
        rw [BitVec.lt_def] at full
        rw [Outline.spendsBelow_noRoom (by omega), or_iff_right (by omega)]
    · refine iff_of_true ⟨0, false, [], s.atStart, ?_, nofun⟩ (.inl (Nat.not_lt.mp open_))
      have distance : (s.atStart.snd_nxt - s.atStart.state.snd_una).toNat = nxt := start
      unfold sendData
      dsimp only
      rw [buffered, if_neg some, distance, if_pos (by omega)]
  · have none : s.atStart.sendQueue.getBytesAvailable s.atStart.snd_nxt = 0 := by
      rw [buffered, Nat.sub_eq_zero_of_le (Nat.not_lt.mp available)]
      rfl
    exact iff_of_true (sendsInWindows_of_empty none congestionWindow) (.inl none)

end TcpSender
end Inet.Tcp
