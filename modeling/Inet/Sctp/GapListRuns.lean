import Inet.Sctp.GapListRefinement

/-!
# Runs of a gap list

A gap list covers what was received, forwarded and not removed. Forwarding must not end right before
a chunk that is covered, and no block that starts with the TSN 0 may be looked at.
-/
namespace Inet.Sctp

open Lib SpanList

/-- A gap list with the number of its cumulative TSN. -/
structure GapRun where
  list : SctpSimpleGapList
  cum : Nat

inductive GapCall where
  | updateGapList (t : Nat)
  | forwardCumAckTsn (c : Nat)
  | tryToAdvanceCumAckTsn
  | removeFromGapList (t : Nat)

namespace GapRun

/-- The number of a cumulative TSN that was moved forwards. -/
def moved (run : GapRun) (cTsnAck : Tsn) : Nat := run.cum + (cTsnAck - tsn run.cum).toNat

/-- A call with what it leaves, and the flag that it sets or returns. -/
def apply (run : GapRun) : GapCall → Except GapError (GapRun × Bool)
  | .updateGapList t => do
    let updated ← run.list.updateGapList (tsn t) (tsn run.cum)
    return (⟨updated.list, run.moved updated.cTsnAck⟩, updated.newChunkReceived)
  | .forwardCumAckTsn c => do
    let list ← run.list.forwardCumAckTsn (tsn c)
    return (⟨list, c⟩, false)
  | .tryToAdvanceCumAckTsn => do
    let (list, cTsnAck, progress) ← run.list.tryToAdvanceCumAckTsn (tsn run.cum)
    return (⟨list, run.moved cTsnAck⟩, progress)
  | .removeFromGapList t => do
    let list ← run.list.removeFromGapList (tsn t)
    return (⟨list, run.cum⟩, false)

end GapRun

/-- The chunks that are covered after a call. Chunks up to the cumulative TSN are not removed. -/
def coveredAfter (cum : Nat) (covered : Set Nat) : GapCall → Set Nat
  | .updateGapList t => {n | n = t ∨ n ∈ covered}
  | .forwardCumAckTsn c => {n | n ≤ c ∨ n ∈ covered}
  | .tryToAdvanceCumAckTsn => covered
  | .removeFromGapList t => {n | n ∈ covered ∧ (n = t → t ≤ cum)}

/-- The chunks of a call are close to the cumulative TSN, and forwarding does not go back. -/
def GapCall.Legal (cum : Nat) : GapCall → Prop
  | .updateGapList t => Near cum t
  | .forwardCumAckTsn c => cum ≤ c ∧ Near cum c
  | .tryToAdvanceCumAckTsn => True
  | .removeFromGapList t => InReach cum t

/-- Which calls keep to what is covered. -/
def GapCall.Keeps (cum : Nat) (covered : Set Nat) : GapCall → Prop
  | .updateGapList t => ∀ z, tsn z = 0 → cum < z → z ∈ covered → z - 1 ∉ covered →
      ∃ n ∈ covered, t ≤ n ∧ n < z
  | .forwardCumAckTsn c => c + 1 ∉ covered
  | .tryToAdvanceCumAckTsn => True
  | .removeFromGapList _ => True

/-- Runs from a cumulative TSN on, with fewer than `MAX_GAP_COUNT` blocks before each call. -/
inductive GapReached (initial : Nat) : GapRun → Set Nat → Prop where
  | init : GapReached initial ⟨.new, initial⟩ {n | n ≤ initial}
  | step {run next covered flag} (earlier : GapReached initial run covered) (call : GapCall)
      (room : run.list.NumGaps < MAX_GAP_COUNT) (legal : call.Legal run.cum)
      (keeps : call.Keeps run.cum covered) (returned : run.apply call = .ok (next, flag)) :
      GapReached initial next (coveredAfter run.cum covered call)

/-- The blocks of the arrays are sound and hold what is covered beyond the cumulative TSN. -/
def Refines (run : GapRun) (covered : Set Nat) : Prop :=
  ∃ blocks, Represents run.list blocks ∧ Sound run.cum blocks ∧
    ∀ n, n ∈ covered ↔ Covers run.cum blocks n

variable {run : GapRun} {covered : Set Nat}

theorem GapRun.moved_tsn {c : Nat} (le : run.cum ≤ c) (near : c < run.cum + 2 ^ 32) :
    run.moved (tsn c) = c := by
  rw [GapRun.moved, toNat_sub_tsn le near]
  omega

/-- What a call returns, if it keeps to what is covered. -/
def flagOf (covered : Set Nat) : GapCall → Prop
  | .updateGapList t => t ∉ covered
  | _ => False

theorem Refines.apply (refines : Refines run covered) {call : GapCall}
    (room : run.list.NumGaps < MAX_GAP_COUNT) (legal : call.Legal run.cum)
    (keeps : call.Keeps run.cum covered) :
    ∃ next flag, run.apply call = .ok (next, flag) ∧ (flag = true ↔ flagOf covered call) ∧
      Refines next (coveredAfter run.cum covered call) := by
  obtain ⟨blocks, represents, sound, covers⟩ := refines
  have fits : blocks.length < MAX_GAP_COUNT := represents.numGaps ▸ room
  cases call with
  | updateGapList t =>
    by_cases behind : t ≤ run.cum
    · have known : t ∈ covered := (covers t).mpr (.inl behind)
      have unchanged : run.moved (tsn run.cum) = run.cum :=
        GapRun.moved_tsn (Nat.le_refl _) (by omega)
      rw [GapRun.apply, update_behind run.list legal behind, ok_bind]
      refine ⟨_, false, rfl, by simp [flagOf, known], blocks, represents, ?_, fun n => ?_⟩
      · simpa only [unchanged] using sound
      · simp only [unchanged, coveredAfter, Set.mem_ofPred_eq, ← covers]
        constructor
        · rintro (rfl | old)
          · exact known
          · exact old
        · exact .inr
    · have beyond : run.cum < t := Nat.not_le.mp behind
      have passes : Passes t blocks := by
        intro s member zero
        have positive := sound.spaced.positive s member
        have sBeyond := sound.beyond s member
        have starts : s.start ∈ covered :=
          (covers _).mpr (.inr ⟨s, member, Nat.le_refl _, positive⟩)
        have gap : s.start - 1 ∉ covered := by
          rw [covers]
          rintro (low | held)
          · omega
          · exact not_holds_pred sound.spaced member (by omega) held
        obtain ⟨n, known, le, lt⟩ := keeps s.start zero (by omega) starts gap
        rcases (covers n).mp known with low | ⟨d, dMember, dStart, dStop⟩
        · omega
        · exact ⟨d, dMember, by omega, by omega⟩
      obtain ⟨next, new, updated, represents, isNew⟩ :=
        update_ok represents sound legal beyond passes
      obtain ⟨le, nextSound, only, all⟩ := sound.receive legal beyond
      have close : (receive t run.cum blocks).1 < run.cum + 2 ^ 32 := by
        rcases only _ (.inl (Nat.le_refl _)) with same | low | held
        · have := legal.1
          omega
        · omega
        · have := (sound.holds_beyond held).2
          omega
      have moved : run.moved (tsn (receive t run.cum blocks).1) = (receive t run.cum blocks).1 :=
        GapRun.moved_tsn le close
      rw [GapRun.apply, updated, ok_bind]
      refine ⟨_, new, rfl, ?_, _, represents, ?_, fun n => ?_⟩
      · rw [isNew fits, flagOf, covers, Covers, not_or]
        exact ⟨fun outside => ⟨by omega, outside⟩, fun outside => outside.2⟩
      · simpa only [moved] using nextSound
      · simp only [moved, coveredAfter, Set.mem_ofPred_eq, covers]
        exact ⟨all fits n, only n⟩
  | forwardCumAckTsn c =>
    obtain ⟨le, below, above⟩ := legal
    have near : ∀ s ∈ blocks, c < s.start + 2 ^ 31 ∧ s.start < c + 2 ^ 31 := by
      intro s member
      have := sound.spaced.positive s member
      have := sound.beyond s member
      have := sound.near s member
      omega
    have gap : ¬ Holds blocks (c + 1) := fun held => keeps ((covers _).mpr (.inr held))
    obtain ⟨next, forwarded, represents⟩ := forward_ok represents c near
    obtain ⟨nextSound, nextCovers⟩ := sound.dropBelow le gap
    rw [GapRun.apply, forwarded, ok_bind]
    refine ⟨_, false, rfl, by simp [flagOf], _, represents, nextSound, fun n => ?_⟩
    rw [nextCovers, ← covers]
    rfl
  | tryToAdvanceCumAckTsn =>
    have unchanged : run.moved (tsn run.cum) = run.cum :=
      GapRun.moved_tsn (Nat.le_refl _) (by omega)
    rw [GapRun.apply, tryToAdvance_ok represents sound, ok_bind]
    refine ⟨_, false, rfl, by simp [flagOf], blocks, represents, ?_, fun n => ?_⟩
    · simpa only [unchanged] using sound
    · rw [unchanged]
      exact covers n
  | removeFromGapList t =>
    obtain ⟨next, removed, represents⟩ := remove_ok represents sound legal (.inl fits)
    obtain ⟨nextSound, nextCovers⟩ := sound.erase (t := t)
    rw [List.take_of_length_le (length_erase_le.trans fits)] at represents
    rw [GapRun.apply, removed, ok_bind]
    refine ⟨_, false, rfl, by simp [flagOf], _, represents, nextSound, fun n => ?_⟩
    rw [nextCovers, ← covers]
    rfl

variable {initial : Nat}

theorem GapReached.refines (reached : GapReached initial run covered) : Refines run covered := by
  induction reached with
  | init =>
    refine ⟨[], .new, ⟨spaced_nil, nofun, nofun⟩, fun n => ?_⟩
    simp [Covers]
  | step earlier call room legal keeps returned ih =>
    obtain ⟨next, flag, applied, _, refines⟩ := ih.apply room legal keeps
    rw [applied] at returned
    cases returned
    exact refines

/-- As long as calls keep to what is covered, the checks of a gap list succeed, it covers what was
received, forwarded and not removed, and the next call returns. The flag of an update tells whether
the chunk was not covered before, and the next chunk never is, so that there is nothing to advance
to. -/
theorem gapList_refines (reached : GapReached initial run covered) :
    run.list.check (tsn run.cum) = .ok () ∧
      (∀ n, InReach run.cum n → (n ∈ covered ↔
        n ≤ run.cum ∨ run.list.tsnInGapList (tsn n) = .ok true)) ∧
      (∀ n, n ∈ covered → n < run.cum + 2 ^ 31) ∧
      run.cum + 1 ∉ covered ∧ run.apply .tryToAdvanceCumAckTsn = .ok (run, false) ∧
      ∀ call : GapCall, run.list.NumGaps < MAX_GAP_COUNT → call.Legal run.cum →
        call.Keeps run.cum covered →
        ∃ next flag, run.apply call = .ok (next, flag) ∧ (flag = true ↔ flagOf covered call) := by
  obtain ⟨blocks, represents, sound, covers⟩ := reached.refines
  refine ⟨check_ok represents sound, ?_, ?_, ?_, ?_, ?_⟩
  · intro n near
    rw [covers, tsnInGapList_ok represents sound near, Covers]
    simp
  · intro n known
    rcases (covers n).mp known with low | held
    · omega
    · exact (sound.holds_beyond held).2
  · rw [covers]
    rintro (low | held)
    · omega
    · exact Nat.lt_irrefl _ (sound.holds_beyond held).1
  · rw [GapRun.apply, tryToAdvance_ok represents sound, ok_bind]
    simp only [GapRun.moved_tsn (Nat.le_refl _) (Nat.lt_add_of_pos_right (by decide))]
    rfl
  · intro call room legal keeps
    obtain ⟨next, flag, applied, isNew, _⟩ := reached.refines.apply room legal keeps
    exact ⟨next, flag, applied, isNew⟩

/-- A chunk is received behind a gap. -/
theorem gapList_refines_gap : ∃ run : GapRun,
    GapReached 4294967290 run {n | n = 4294967297 ∨ n ∈ {n | n ≤ 4294967290}} ∧
      run.list.check (tsn run.cum) = .ok () := by
  have start : GapReached 4294967290 ⟨.new, 4294967290⟩ {n | n ≤ 4294967290} := .init
  have near : (GapCall.updateGapList 4294967297).Legal 4294967290 := ⟨by decide, by decide⟩
  have keeps : (GapCall.updateGapList 4294967297).Keeps 4294967290 {n | n ≤ 4294967290} :=
    fun z _ beyond known => absurd known (Nat.not_le.mpr beyond)
  obtain ⟨run, _, received, _⟩ :=
    start.refines.apply (by decide) near keeps
  have reached := start.step (.updateGapList 4294967297) (by decide) near keeps received
  exact ⟨run, reached, (gapList_refines reached).1⟩

/-- The chunk with the TSN 1 is received after the one with the TSN 0. -/
def behindZero : Except GapError (GapRun × Bool) := do
  let (run, _) ← GapRun.apply ⟨.new, 4294967290⟩ (.updateGapList 4294967296)
  run.apply (.updateGapList 4294967297)

theorem behindZero_lost : ∃ run : GapRun, behindZero = .ok (run, false) ∧
    run.cum = 4294967290 ∧ run.list.tsnInGapList (tsn 4294967297) = .ok false := by
  refine ⟨_, rfl, rfl, ?_⟩
  decide +kernel

end Inet.Sctp
