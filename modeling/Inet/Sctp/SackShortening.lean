import Inet.Sctp.SackTruth

/-!
# SACK chunks that are shortened

Without the smart handling the blocks that are removed are shared by both lists. With it the
revokable blocks come first, and others are reported as long as there is room.
-/
namespace Inet.Sctp.Sack

open Lib SpanList Double

section Shortening

variable {state : SctpStateVariables} {kinds : GapKinds} {allowed : Nat}

/-! ### The blocks that are kept -/

/-- The list whose blocks are reported as revokable ones if the SACK has to be shortened. -/
def keptType (state : SctpStateVariables) : GapType :=
  if state.totalGaps < state.numRevokable then .GT_Any else .GT_Revokable

def keptBlocks (state : SctpStateVariables) (kinds : GapKinds) (allowed : Nat) :
    List (Span Nat) :=
  (blocksOf kinds (keptType state)).take ((allowed - state.sackHeaderLength) / 4)

theorem length_keptBlocks (represents : RepresentsKinds state.gapList kinds) :
    (keptBlocks state kinds allowed).length = state.keptRevokable allowed := by
  rw [keptBlocks, List.length_take, ← getNumGaps_eq represents, SctpStateVariables.keptRevokable,
    keptType]
  split <;> rfl

theorem keptBlocks_sound (divides : Divides kinds) :
    Sound kinds.cum (keptBlocks state kinds allowed) :=
  (divides.sound _).take _

/-- Blocks of any list hold only chunks that were received. -/
theorem Divides.received {n : Nat} (divides : Divides kinds) (type : GapType) {count : Nat}
    (held : Holds ((blocksOf kinds type).take count) n) : Holds kinds.combined n := by
  have held := ((holds_take_iff (divides.sound type).spaced count).mp held).1
  cases type with
  | GT_Any => exact held
  | GT_Revokable => exact (divides.union n).mpr (.inl held)
  | GT_NonRevokable => exact (divides.union n).mpr (.inr held)

/-- First parts of any list and of the non-revokable one tell the truth. -/
theorem Divides.truthful (divides : Divides kinds) (type : GapType) (count countNR : Nat) :
    Truthful kinds false ((blocksOf kinds type).take count) (kinds.nonRevokable.take countNR)
      False := by
  refine ⟨fun n held => ?_, fun n held _ => ?_, nofun⟩
  · exact held.elim (divides.received type) (divides.received .GT_NonRevokable)
  · exact ((holds_take_iff divides.nonRevokable.spaced countNR).mp held).1

theorem sackHeaderLength_cases (state : SctpStateVariables) :
    state.sackHeaderLength = 16 ∨ state.sackHeaderLength = 20 := by
  rw [SctpStateVariables.sackHeaderLength]
  split
  · exact .inr rfl
  · exact .inl rfl

theorem keptRevokable_le (state : SctpStateVariables) (allowed : Nat) :
    state.keptRevokable allowed ≤ (allowed - state.sackHeaderLength) / 4 ∧
      state.keptRevokable allowed ≤ state.totalGaps ∧
      state.keptRevokable allowed ≤ state.numRevokable := by
  rw [SctpStateVariables.keptRevokable]
  split <;> omega

/-- The numbers of blocks are bounded. -/
theorem counts_le (represents : RepresentsKinds state.gapList kinds) :
    state.totalGaps ≤ 500 ∧ state.numRevokable ≤ 500 ∧ state.numNonRevokable ≤ 500 ∧
      state.reportedNonRevokable ≤ 500 :=
  ⟨(getNumGaps_eq represents .GT_Any).trans_le (length_blocksOf_le represents _),
    (getNumGaps_eq represents .GT_Revokable).trans_le (length_blocksOf_le represents _),
    (getNumGaps_eq represents .GT_NonRevokable).trans_le (length_blocksOf_le represents _),
    (reportedNonRevokable_eq represents).trans_le (length_reportedBlocks_le represents)⟩

/-- What is done after the revokable blocks are copied once more. -/
theorem shorten_eq (represents : RepresentsKinds state.gapList kinds) (divides : Divides kinds)
    (below : allowed < 2 ^ 32) (subtract : Bool) (revokable nonRevokable : List (Span Nat)) :
    shorten state allowed (filled state subtract revokable nonRevokable) =
      let draft := filled state false (keptBlocks state kinds allowed) nonRevokable
      let sackLength := draft.sackLength state.sackHeaderLength 0
      let length := state.lengthWith (state.keptRevokable allowed) 0
      if state.smartOverfullSACKHandling then
        if length < allowed then
          let fixed := kinds.nonRevokable.take ((allowed - length) / 4)
          .ok (draft.withNR fixed, (draft.withNR fixed).sackLength state.sackHeaderLength 0)
        else
          .ok ({ draft with nonRevokableGapsSpace := allowed - state.sackHeaderLength }.withR
            (kinds.combined.take (state.keptRevokable allowed)), sackLength)
      else if sackLength > allowed then do
        let draft ← shortenBoth state allowed sackLength draft
        return (draft, draft.sackLength state.sackHeaderLength 0)
      else .ok (draft, sackLength) := by
  have kept : (keptBlocks state kinds allowed).length = _ := length_keptBlocks represents
  have taken : (blocksOf kinds (keptType state)).take
      ((allowed - state.sackHeaderLength) / 4 % 2 ^ 32) = keptBlocks state kinds allowed := by
    rw [Nat.mod_eq_of_lt (by omega)]
    rfl
  have space : state.sackHeaderLength + 4 * (keptBlocks state kinds allowed).length =
      state.lengthWith (state.keptRevokable allowed) 0 := by
    rw [kept]
    rfl
  have few : state.keptRevokable allowed < 2 ^ 32 := by
    have := (keptRevokable_le state allowed).1
    omega
  have room : (allowed - state.lengthWith (state.keptRevokable allowed) 0) / 4 % 2 ^ 32 =
      (allowed - state.lengthWith (state.keptRevokable allowed) 0) / 4 :=
    Nat.mod_eq_of_lt (by omega)
  have whole : 4 * (keptBlocks state kinds allowed).length / 4 % 2 ^ 32 =
      state.keptRevokable allowed := by
    rw [Nat.mul_div_cancel_left _ (by decide), kept, Nat.mod_eq_of_lt few]
  have again : ({ filled state subtract revokable nonRevokable with
      chunk := { (filled state subtract revokable nonRevokable).chunk with
        nrSubtractRGaps := false } } : Draft).withR (keptBlocks state kinds allowed) =
      filled state false (keptBlocks state kinds allowed) nonRevokable := rfl
  have spaceEq : (filled state false (keptBlocks state kinds allowed)
      nonRevokable).revokableGapsSpace = 4 * (keptBlocks state kinds allowed).length := rfl
  rw [shorten]
  simp only [← keptType.eq_1, copyToRGaps_ok represents divides, taken, ok_bind, again]
  by_cases smart : state.smartOverfullSACKHandling = true
  · simp only [smart, if_true, Nat.sub_sub, spaceEq, space,
      copyToNRGaps_ok represents divides, room, ok_bind, whole]
    rfl
  · simp only [smart]
    rfl

/-! ### When the shortened SACK tells the truth -/

variable (state) in
/-- The length of a SACK that has to be shortened is more than what is allowed. -/
def IsCut (allowed : Nat) : Prop :=
  allowed < state.lengthWith (state.reportedRevokable + state.reportedNonRevokable) state.numDups %
    2 ^ 32

theorem smart_iff (represents : RepresentsKinds state.gapList kinds) (divides : Divides kinds)
    (below : allowed < 2 ^ 32) (large : 20 ≤ allowed) (cut : IsCut state allowed)
    (smart : state.smartOverfullSACKHandling = true) :
    FitsTruly state kinds allowed ↔ state.ShortensSmartly allowed := by
  have shortened := shorten_eq represents divides below (state.reported.2 = some .GT_Any)
    (blocksOf kinds state.reported.1) (reportedBlocks state kinds)
  have kept : (keptBlocks state kinds allowed).length = _ := length_keptBlocks represents
  have keptLe := keptRevokable_le state allowed
  have header := sackHeaderLength_cases state
  have counts := counts_le represents
  have total : kinds.combined.length = state.totalGaps := (getNumGaps_eq represents .GT_Any).symm
  have countNR := reportedNonRevokable_eq represents
  have fewKept : (keptBlocks state kinds allowed).length ≤ 500 := by omega
  simp only [smart, if_true] at shortened
  rw [SctpStateVariables.ShortensSmartly]
  by_cases room : state.lengthWith (state.keptRevokable allowed) 0 < allowed
  · rw [if_pos room]
    rw [if_pos room] at shortened
    have fixed : (kinds.nonRevokable.take ((allowed - state.lengthWith (state.keptRevokable allowed)
        0) / 4)).length = state.keptNonRevokable allowed := by
      rw [List.length_take, SctpStateVariables.keptNonRevokable]
      exact congrArg _ (getNumGaps_eq represents .GT_NonRevokable).symm
    have fixedLe : state.keptNonRevokable allowed ≤
        (allowed - state.lengthWith (state.keptRevokable allowed) 0) / 4 ∧
        state.keptNonRevokable allowed ≤ state.numNonRevokable :=
      ⟨Nat.min_le_left _ _, Nat.min_le_right _ _⟩
    have length : state.lengthWith (state.keptRevokable allowed + state.keptNonRevokable allowed) 0 ≤
        allowed := by
      simp only [SctpStateVariables.lengthWith] at room fixedLe ⊢
      omega
    rw [cut_iff represents divides cut shortened ⟨rfl, rfl, rfl⟩ (keptBlocks_sound divides)
      (divides.nonRevokable.take _) fewKept (by omega)]
    rw [show (filled state false (keptBlocks state kinds allowed) (reportedBlocks state kinds)).withNR
      (kinds.nonRevokable.take ((allowed - state.lengthWith (state.keptRevokable allowed) 0) / 4)) =
      filled state false (keptBlocks state kinds allowed) (kinds.nonRevokable.take
        ((allowed - state.lengthWith (state.keptRevokable allowed) 0) / 4)) from rfl,
      filled_sackLength, kept, fixed, Nat.mod_eq_of_lt (by omega)]
    exact ⟨fun held => held.2.1, fun within => ⟨length, within, rfl, divides.truthful _ _ _⟩⟩
  · rw [if_neg room]
    rw [if_neg room] at shortened
    have whole : (kinds.combined.take (state.keptRevokable allowed)).length =
        state.keptRevokable allowed := by
      rw [List.length_take, total, Nat.min_eq_left keptLe.2.1]
    have length : state.lengthWith (state.keptRevokable allowed) 0 ≤ allowed := by
      simp only [SctpStateVariables.lengthWith]
      omega
    have small : state.lengthWith (state.keptRevokable allowed + state.reportedNonRevokable) 0 <
        2 ^ 32 := by
      simp only [SctpStateVariables.lengthWith]
      omega
    rw [cut_iff represents divides cut shortened ⟨rfl, rfl, rfl⟩ (divides.combined.take _)
      (reportedBlocks_sound divides) (by omega) (length_reportedBlocks_le represents)]
    rw [filled_sackLength, kept, whole, ← countNR, Nat.mod_eq_of_lt small]
    constructor
    · rintro ⟨fits, within, _⟩
      have none : state.reportedNonRevokable = 0 := by
        simp only [SctpStateVariables.lengthWith] at fits room
        omega
      exact ⟨none, none ▸ within⟩
    · rintro ⟨none, within⟩
      have empty : reportedBlocks state kinds = [] := List.eq_nil_of_length_eq_zero (countNR ▸ none)
      rw [none, Nat.add_zero, empty]
      exact ⟨length, within, rfl, divides.truthful .GT_Any _ 0⟩

theorem shortenBoth_eq (represents : RepresentsKinds state.gapList kinds) (divides : Divides kinds)
    (sackLength : Nat) {revokable nonRevokable : List (Span Nat)} (few : revokable.length ≤ 500)
    (fewNR : nonRevokable.length ≤ 500) :
    shortenBoth state allowed sackLength (filled state false revokable nonRevokable) =
      let removed := shares ((sackLength - allowed) / 4) revokable.length nonRevokable.length
      .ok (filled state false (kinds.revokable.take (revokable.length - removed.1))
        (kinds.nonRevokable.take (nonRevokable.length - removed.2))) := by
  have counted : (filled state false revokable nonRevokable).numRevokableGaps =
      revokable.length ∧ (filled state false revokable nonRevokable).numNonRevokableGaps =
      nonRevokable.length := ⟨rfl, rfl⟩
  have taken {k r : Nat} (le : k ≤ 500) : 4 * (k - min r k) / 4 % 2 ^ 32 = k - r := by omega
  simp only [shortenBoth, counted, copyToRGaps_ok represents divides, ok_bind,
    copyToNRGaps_ok represents divides, taken few, taken fewNR]
  rfl

/-- A list of which more than the combined list has cannot have the same chunks. -/
theorem subtracting_false (represents : RepresentsKinds state.gapList kinds)
    (divides : Divides kinds) {revokable : List (Span Nat)}
    (subtracts : state.reported.2 = some .GT_Any) :
    ¬ Truthful kinds false revokable (reportedBlocks state kinds) False := by
  intro truth
  have fewer : state.totalGaps < state.numNonRevokable := by
    rcases reported_cases state with same | ⟨_, fewer⟩ | same | same
    · rw [same] at subtracts
      cases subtracts
    · exact fewer
    · rw [same] at subtracts
      cases subtracts
    · rw [same] at subtracts
      cases subtracts
  have reported : reportedBlocks state kinds = kinds.combined := by
    rw [reportedBlocks, subtracts]
    rfl
  have same : kinds.combined = kinds.nonRevokable :=
    eq_of_holds divides.combined.spaced divides.nonRevokable.spaced fun n =>
      ⟨fun held => truth.fixed n (reported ▸ held) fun same => (by cases same),
        fun held => (divides.union n).mpr (.inr held)⟩
  have total : state.totalGaps = kinds.combined.length := getNumGaps_eq represents .GT_Any
  have fixed : state.numNonRevokable = kinds.nonRevokable.length :=
    getNumGaps_eq represents .GT_NonRevokable
  rw [total, fixed, same] at fewer
  exact Nat.lt_irrefl _ fewer

/-- Not more than the non-revokable blocks are reported as such. -/
theorem reported_le (state : SctpStateVariables) :
    state.reportedNonRevokable ≤ state.numNonRevokable := by
  rw [SctpStateVariables.reportedNonRevokable]
  rcases reported_cases state with same | ⟨same, fewer⟩ | same | same <;> rw [same]
  · exact Nat.le_refl _
  · exact fewer.le
  · exact Nat.le_refl _
  · exact Nat.zero_le _

/-- Blocks from which nothing is to be subtracted are non-revokable ones. -/
theorem fixed_cases (regular : state.reported.2 ≠ some .GT_Any) :
    ∃ count, reportedBlocks state kinds = kinds.nonRevokable.take count := by
  rw [reportedBlocks]
  rcases reported_cases state with same | ⟨same, _⟩ | same | same
  · exact ⟨_, by rw [same, List.take_length]; rfl⟩
  · exact absurd (congrArg Prod.snd same) regular
  · exact ⟨_, by rw [same, List.take_length]; rfl⟩
  · exact ⟨0, by rw [same]; rfl⟩

/-- What is removed is enough if the length is a number of whole words, or if more is removed than
was asked for. -/
theorem removed_enough {H m A removed : Nat} (header : H = 16 ∨ H = 20) (long : A < H + 4 * m)
    (le : removed ≤ m) (enough : (H + 4 * m - A) / 4 ≤ removed) :
    H + 4 * (m - removed) ≤ A ↔ A % 4 = 0 ∨ (H + 4 * m - A) / 4 < removed := by
  omega

theorem both_iff (represents : RepresentsKinds state.gapList kinds) (divides : Divides kinds)
    (below : allowed < 2 ^ 32) (large : 20 < allowed) (cut : IsCut state allowed)
    (simple : ¬ state.smartOverfullSACKHandling = true) :
    FitsTruly state kinds allowed ↔ state.ShortensBoth allowed := by
  have shortened := shorten_eq represents divides below (state.reported.2 = some .GT_Any)
    (blocksOf kinds state.reported.1) (reportedBlocks state kinds)
  have kept : (keptBlocks state kinds allowed).length = _ := length_keptBlocks represents
  have keptLe := keptRevokable_le state allowed
  have header := sackHeaderLength_cases state
  have counts := counts_le represents
  have countNR := reportedNonRevokable_eq represents
  have fewKept : (keptBlocks state kinds allowed).length ≤ 500 := by omega
  have fewNR := length_reportedBlocks_le represents
  have small : state.lengthWith (state.keptRevokable allowed + state.reportedNonRevokable) 0 <
      2 ^ 32 := by
    simp only [SctpStateVariables.lengthWith]
    omega
  simp only [simple, Bool.false_eq_true, if_false, filled_sackLength, kept, ← countNR,
    Nat.mod_eq_of_lt small] at shortened
  rw [SctpStateVariables.ShortensBoth]
  by_cases fits : state.lengthWith (state.keptRevokable allowed + state.reportedNonRevokable) 0 ≤
      allowed
  · simp only [if_pos fits]
    rw [if_neg (Nat.not_lt.mpr fits)] at shortened
    rw [cut_iff represents divides cut shortened ⟨rfl, rfl, rfl⟩ (keptBlocks_sound divides)
      (reportedBlocks_sound divides) fewKept fewNR, kept, ← countNR]
    constructor
    · rintro ⟨_, within, _, truth⟩
      exact ⟨fun subtracts => subtracting_false represents divides subtracts truth, within⟩
    · rintro ⟨regular, within⟩
      refine ⟨fits, within, rfl, ?_⟩
      obtain ⟨count, same⟩ := @fixed_cases _ kinds regular
      rw [same]
      exact divides.truthful _ _ _
  · simp only [if_neg fits]
    rw [if_pos (Nat.not_le.mp fits), shortenBoth_eq represents divides _ fewKept fewNR,
      ok_bind, kept, ← countNR] at shortened
    have some : 0 < state.reportedNonRevokable := by
      simp only [SctpStateVariables.lengthWith] at fits
      omega
    have less : (state.lengthWith (state.keptRevokable allowed + state.reportedNonRevokable) 0 -
        allowed) / 4 < state.keptRevokable allowed + state.reportedNonRevokable := by
      simp only [SctpStateVariables.lengthWith]
      omega
    obtain ⟨enough, rMost, nMost⟩ := shares_spec (by omega) some less
    generalize shares ((state.lengthWith (state.keptRevokable allowed + state.reportedNonRevokable)
      0 - allowed) / 4) (state.keptRevokable allowed) state.reportedNonRevokable = removed at *
    have revokable : (kinds.revokable.take (state.keptRevokable allowed - removed.1)).length =
        state.keptRevokable allowed - removed.1 := by
      rw [List.length_take]
      have : state.numRevokable = kinds.revokable.length := getNumGaps_eq represents .GT_Revokable
      omega
    have nonRevokable : (kinds.nonRevokable.take
        (state.reportedNonRevokable - removed.2)).length =
          state.reportedNonRevokable - removed.2 := by
      rw [List.length_take]
      have : state.numNonRevokable = kinds.nonRevokable.length :=
        getNumGaps_eq represents .GT_NonRevokable
      have := reported_le state
      omega
    rw [cut_iff represents divides cut shortened ⟨rfl, rfl, rfl⟩ (divides.revokable.take _)
      (divides.nonRevokable.take _) (by omega) (by omega), filled_sackLength, revokable,
      nonRevokable]
    have together : state.keptRevokable allowed - removed.1 +
        (state.reportedNonRevokable - removed.2) = state.keptRevokable allowed +
          state.reportedNonRevokable - (removed.1 + removed.2) := by omega
    have whole : state.lengthWith (state.keptRevokable allowed + state.reportedNonRevokable -
        (removed.1 + removed.2)) 0 < 2 ^ 32 := by
      simp only [SctpStateVariables.lengthWith]
      omega
    rw [together, Nat.mod_eq_of_lt whole]
    have fitting : state.lengthWith (state.keptRevokable allowed + state.reportedNonRevokable -
        (removed.1 + removed.2)) 0 ≤ allowed ↔ allowed % 4 = 0 ∨
          (state.lengthWith (state.keptRevokable allowed + state.reportedNonRevokable) 0 -
            allowed) / 4 < removed.1 + removed.2 :=
      removed_enough header (Nat.not_le.mp fits) (by omega) enough
    rw [fitting]
    exact ⟨fun held => ⟨held.1, held.2.1⟩,
      fun held => ⟨held.1, held.2, rfl, divides.truthful .GT_Revokable _ _⟩⟩

end Shortening

/-- What is allowed is at least what a path MTU of 576 bytes leaves. -/
theorem allowedLength_large {mtu : BitVec 32} (large : 576 ≤ mtu.toNat)
    (remoteAddr : AddressType) : 508 ≤ allowedLength mtu remoteAddr := by
  have size : mtu.toNat < 2 ^ 32 := mtu.isLt
  cases remoteAddr with
  | IPv4 =>
    rw [allowedLength, BitVec.toNat_sub_of_le]
    · exact Nat.sub_le_sub_right large 48 |>.trans' (by decide)
    · exact BitVec.le_def.mpr (large.trans' (by decide))
  | IPv6 =>
    rw [allowedLength, BitVec.toNat_sub_of_le]
    · exact Nat.sub_le_sub_right large 68 |>.trans' (by decide)
    · exact BitVec.le_def.mpr (large.trans' (by decide))

/-- For lists that part the combined one, what matters is how the SACK is shortened. -/
theorem divided_iff {state : SctpStateVariables} {mtu : BitVec 32} {remoteAddr : AddressType}
    (divided : Divided state.gapList) (large : 576 ≤ mtu.toNat)
    (uncompressed : state.compression = false) :
    SacksTruly mtu remoteAddr state ↔ state.Shortens (allowedLength mtu remoteAddr) := by
  obtain ⟨kinds, represents, divides⟩ := divided
  have least := allowedLength_large large remoteAddr
  have below : allowedLength mtu remoteAddr < 2 ^ 32 := BitVec.isLt _
  rw [sacksTruly_iff represents divides uncompressed, SctpStateVariables.Shortens]
  by_cases uncut : state.lengthWith (state.reportedRevokable + state.reportedNonRevokable)
      state.numDups % 2 ^ 32 ≤ allowedLength mtu remoteAddr
  · rw [if_pos uncut, uncut_iff represents divides below uncut]
  · rw [if_neg uncut]
    have cut : IsCut state (allowedLength mtu remoteAddr) := Nat.not_le.mp uncut
    by_cases smart : state.smartOverfullSACKHandling = true
    · rw [if_pos smart, smart_iff represents divides below (by omega) cut smart]
    · rw [if_neg smart, both_iff represents divides below (by omega) cut smart]

/-- Nothing but a duplicate has arrived behind the cumulative TSN. -/
def duplicateOnly : SctpStateVariables where
  gapList := { SctpGapList.new with CumAckTsn := tsn 10 }
  dupList := [9]
  nrSack := true
  gapListOptimizationVariant := .GLOV_Optimized2
  smartOverfullSACKHandling := true
  gapReportLimit := 0xffffffff

/-- Two chunks are non-revokable, and the one between them is not. -/
def threeReceived : Except GapError SctpGapList := do
  let list ← SctpGapList.new.setInitialCumAckTsn (tsn 0)
  let list ← list.apply (.updateGapList 2 false)
  let list ← list.apply (.updateGapList 4 false)
  list.apply (.updateGapList 3 true)

/-- There are so many duplicates that the SACK has to be shortened. -/
def manyDuplicates (gapList : SctpGapList) : SctpStateVariables where
  gapList := gapList
  dupList := List.replicate 200 0
  nrSack := true
  gapListOptimizationVariant := .GLOV_Optimized2
  smartOverfullSACKHandling := false
  gapReportLimit := 0xffffffff

end Inet.Sctp.Sack
