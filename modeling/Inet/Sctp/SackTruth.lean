import Inet.Sctp.SackBlocks

/-!
# SACK chunks that fit and tell the truth

A SACK is right as long as it does not have to be shortened. Shortening makes it wrong, or an
assertion fail, for some settings and lengths, and the limit for the number of blocks is not counted
in its length.
-/
namespace Inet.Sctp.Sack

open Lib SpanList Double

/-! ### Statements -/

/-- The revokable and non-revokable list part the combined one. -/
structure Divides (kinds : GapKinds) : Prop where
  revokable : Sound kinds.cum kinds.revokable
  nonRevokable : Sound kinds.cum kinds.nonRevokable
  combined : Sound kinds.cum kinds.combined
  union : ∀ n, Holds kinds.combined n ↔ Holds kinds.revokable n ∨ Holds kinds.nonRevokable n
  disjoint : ∀ n, Holds kinds.revokable n → ¬ Holds kinds.nonRevokable n

def Divided (list : SctpGapList) : Prop := ∃ kinds, RepresentsKinds list kinds ∧ Divides kinds

theorem divided_of_reached {list : SctpGapList} {kinds : GapKinds} {initial : Nat}
    {fixed passed : Set Nat} (reached : KindsReached initial list kinds fixed passed) :
    Divided list := by
  obtain ⟨represents, parted⟩ := reached.parted
  exact ⟨kinds, represents, parted.revokable, parted.nonRevokable, parted.combined, parted.union,
    fun _ held both => parted.disjoint both held⟩

namespace SctpStateVariables

variable (state : SctpStateVariables)

/-- The types of the lists whose blocks are reported as revokable and as non-revokable ones. -/
def reported : GapType × Option GapType :=
  if state.reportsAll then (.GT_Any, some .GT_NonRevokable)
  else if state.subtracts then (.GT_Revokable, some .GT_Any)
  else if state.nrSack then (.GT_Revokable, some .GT_NonRevokable)
  else (.GT_Any, none)

/-- How many blocks are to be reported as revokable ones. -/
def reportedRevokable : Nat := getNumGaps state.gapList state.reported.1

def reportedNonRevokable : Nat :=
  match state.reported.2 with
  | some type => getNumGaps state.gapList type
  | none => 0

/-- The length of a SACK with some blocks and duplicates. -/
def lengthWith (blocks dups : Nat) : Nat := state.sackHeaderLength + 4 * (blocks + dups)

/-- The number of duplicates as a `uint32_t`. -/
def numDups : Nat := state.dupList.length % 2 ^ 32

/-- Everything that is to be reported fits. -/
def NothingCut (allowedLength : Nat) : Prop :=
  state.lengthWith (state.reportedRevokable + state.reportedNonRevokable) state.numDups ≤
    allowedLength

/-- The limit for the number of blocks is not reached. -/
def WithinLimit (revokable nonRevokable : Nat) : Prop :=
  1000000 ≤ state.gapReportLimit.toNat ∨
    (revokable ≤ state.gapReportLimit.toNat ∧ nonRevokable ≤ state.gapReportLimit.toNat)

end SctpStateVariables

/-- A chunk is short enough, its numbers of blocks are those that are written and counted, and a
receiver reads from it only TSNs that were received, and as non-revokable ones only those that are.
If nothing had to be cut, then it reads all of them. -/
structure TellsTruth (state : SctpStateVariables) (allowedLength : Nat) (chunk : SctpSackChunk) :
    Prop where
  fits : chunk.byteLength ≤ allowedLength
  gapsCounted : chunk.numGaps = chunk.gaps.length
  nrGapsCounted : chunk.numNrGaps = chunk.nrGaps.length
  lengthCounted : chunk.byteLength =
    state.lengthWith (chunk.numGaps + chunk.numNrGaps) chunk.dupTsns.length
  read : ∃ revokable nonRevokable, processSackArrived chunk = .ok (revokable, nonRevokable) ∧
    (∀ t, t ∈ revokable ∨ t ∈ nonRevokable → state.gapList.tsnInGapList t = .ok true) ∧
    (∀ t ∈ nonRevokable, state.gapList.tsnIsNonRevokable t = .ok true) ∧
    (state.NothingCut allowedLength → ∀ t, state.gapList.tsnInGapList t = .ok true →
      t ∈ revokable ∨ t ∈ nonRevokable)

/-- No assertion fails, and the chunk tells the truth. -/
def SacksTruly (mtu : BitVec 32) (remoteAddr : AddressType) (state : SctpStateVariables) : Prop :=
  ∃ chunk next, createSack mtu remoteAddr state = .ok (chunk, next) ∧
    TellsTruth state (allowedLength mtu remoteAddr) chunk

namespace SctpStateVariables

variable (state : SctpStateVariables) (allowedLength : Nat)

/-- How many blocks are reported as revokable ones if the SACK has to be shortened. -/
def keptRevokable : Nat :=
  min ((allowedLength - state.sackHeaderLength) / 4)
    (if state.totalGaps < state.numRevokable then state.totalGaps else state.numRevokable)

/-- How many non-revokable blocks have room behind them. -/
def keptNonRevokable : Nat :=
  min ((allowedLength - state.lengthWith (state.keptRevokable allowedLength) 0) / 4)
    state.numNonRevokable

/-- What the smart handling of a long SACK depends on: there is room behind the revokable blocks, or
no other block was to be reported. -/
def ShortensSmartly : Prop :=
  if state.lengthWith (state.keptRevokable allowedLength) 0 < allowedLength then
    state.WithinLimit (state.keptRevokable allowedLength) (state.keptNonRevokable allowedLength)
  else
    state.reportedNonRevokable = 0 ∧ state.WithinLimit (state.keptRevokable allowedLength) 0

/-- What the other handling depends on: nothing is subtracted any more, and the shares that are
rounded up make up for a part of a block. -/
def ShortensBoth : Prop :=
  let blocks := state.keptRevokable allowedLength + state.reportedNonRevokable
  if state.lengthWith blocks 0 ≤ allowedLength then
    state.reported.2 ≠ some .GT_Any ∧
      state.WithinLimit (state.keptRevokable allowedLength) state.reportedNonRevokable
  else
    let blocksBeRemoved := (state.lengthWith blocks 0 - allowedLength) / 4
    let removed :=
      shares blocksBeRemoved (state.keptRevokable allowedLength) state.reportedNonRevokable
    (allowedLength % 4 = 0 ∨ blocksBeRemoved < removed.1 + removed.2) ∧
      state.WithinLimit (state.keptRevokable allowedLength - removed.1)
        (state.reportedNonRevokable - removed.2)

/-- A SACK that fits as a `uint32_t` really fits, and one that does not is shortened well. -/
def Shortens : Prop :=
  let length :=
    state.lengthWith (state.reportedRevokable + state.reportedNonRevokable) state.numDups
  if length % 2 ^ 32 ≤ allowedLength then
    length ≤ allowedLength ∧ state.WithinLimit state.reportedRevokable state.reportedNonRevokable
  else if state.smartOverfullSACKHandling then state.ShortensSmartly allowedLength
  else state.ShortensBoth allowedLength

end SctpStateVariables

/-! ### The drafts -/

def blocksOf (kinds : GapKinds) : GapType → List (Span Nat)
  | .GT_Any => kinds.combined
  | .GT_Revokable => kinds.revokable
  | .GT_NonRevokable => kinds.nonRevokable

namespace Draft

variable (draft : Draft)

/-- Blocks are reported as revokable ones. -/
def withR (blocks : List (Span Nat)) : Draft :=
  { draft with
    chunk := { draft.chunk with gaps := blocks.map ends, numGaps := blocks.length }
    numRevokableGaps := blocks.length
    revokableGapsSpace := 4 * blocks.length }

def withNR (blocks : List (Span Nat)) : Draft :=
  { draft with
    chunk := { draft.chunk with nrGaps := blocks.map ends, numNrGaps := blocks.length }
    numNonRevokableGaps := blocks.length
    nonRevokableGapsSpace := 4 * blocks.length }

def subtracting (subtract : Bool) : Draft :=
  { draft with chunk := { draft.chunk with nrSubtractRGaps := subtract } }

end Draft

/-- A chunk with blocks of both kinds. -/
def filled (state : SctpStateVariables) (subtract : Bool) (revokable nonRevokable : List (Span Nat)) :
    Draft :=
  (((emptyDraft state).subtracting subtract).withR revokable).withNR nonRevokable

section Drafts

variable {state : SctpStateVariables} {kinds : GapKinds} {draft : Draft} {type : GapType}

theorem represents_blocksOf (represents : RepresentsKinds state.gapList kinds) (type : GapType) :
    Represents (gapsOf state.gapList type) (blocksOf kinds type) := by
  cases type with
  | GT_Any => exact represents.combined
  | GT_Revokable => exact represents.revokable
  | GT_NonRevokable => exact represents.nonRevokable

theorem Divides.sound (divides : Divides kinds) (type : GapType) :
    Sound kinds.cum (blocksOf kinds type) := by
  cases type with
  | GT_Any => exact divides.combined
  | GT_Revokable => exact divides.revokable
  | GT_NonRevokable => exact divides.nonRevokable

theorem getNumGaps_eq (represents : RepresentsKinds state.gapList kinds) (type : GapType) :
    getNumGaps state.gapList type = (blocksOf kinds type).length :=
  (represents_blocksOf represents type).numGaps

theorem length_blocksOf_le (represents : RepresentsKinds state.gapList kinds) (type : GapType) :
    (blocksOf kinds type).length ≤ 500 := (represents_blocksOf represents type).fits

theorem copyToRGaps_ok (represents : RepresentsKinds state.gapList kinds) (divides : Divides kinds)
    (type : GapType) (space : Nat) (draft : Draft) :
    copyToRGaps state.gapList type space draft =
      .ok (draft.withR ((blocksOf kinds type).take (space / 4 % 2 ^ 32))) := by
  have fits := length_blocksOf_le represents type
  have small : ((blocksOf kinds type).take (space / 4 % 2 ^ 32)).length % 2 ^ 16 =
      ((blocksOf kinds type).take (space / 4 % 2 ^ 32)).length := by
    rw [List.length_take]
    omega
  rw [copyToRGaps, copyGaps_ok represents.cum (represents_blocksOf represents type)
    (divides.sound type), ok_bind]
  simp only [List.length_map, SctpSackChunk.setNumGaps, small]
  rfl

theorem copyToNRGaps_ok (represents : RepresentsKinds state.gapList kinds) (divides : Divides kinds)
    (type : GapType) (space : Nat) (draft : Draft) :
    copyToNRGaps state.gapList type space draft =
      .ok (draft.withNR ((blocksOf kinds type).take (space / 4 % 2 ^ 32))) := by
  have fits := length_blocksOf_le represents type
  have small : ((blocksOf kinds type).take (space / 4 % 2 ^ 32)).length % 2 ^ 16 =
      ((blocksOf kinds type).take (space / 4 % 2 ^ 32)).length := by
    rw [List.length_take]
    omega
  rw [copyToNRGaps, copyGaps_ok represents.cum (represents_blocksOf represents type)
    (divides.sound type), ok_bind]
  simp only [List.length_map, SctpSackChunk.setNumNrGaps, small]
  rfl

/-- With unlimited space all blocks are copied. -/
theorem take_unlimited (represents : RepresentsKinds state.gapList kinds) (type : GapType) :
    (blocksOf kinds type).take (unlimited / 4 % 2 ^ 32) = blocksOf kinds type := by
  have fits := length_blocksOf_le represents type
  exact List.take_of_length_le (fits.trans (by decide))

/-- The blocks that are reported as non-revokable ones. -/
def reportedBlocks (state : SctpStateVariables) (kinds : GapKinds) : List (Span Nat) :=
  (state.reported.2.map (blocksOf kinds)).getD []

theorem reportedRevokable_eq (represents : RepresentsKinds state.gapList kinds) :
    state.reportedRevokable = (blocksOf kinds state.reported.1).length :=
  getNumGaps_eq represents _

theorem reportedNonRevokable_eq (represents : RepresentsKinds state.gapList kinds) :
    state.reportedNonRevokable = (reportedBlocks state kinds).length := by
  rw [SctpStateVariables.reportedNonRevokable, reportedBlocks]
  cases state.reported.2 with
  | none => rfl
  | some type => exact getNumGaps_eq represents type

/-- The assertions hold, and all blocks that are to be reported are copied. -/
theorem store_ok (represents : RepresentsKinds state.gapList kinds) (divides : Divides kinds) :
    store state = .ok (filled state (state.reported.2 = some .GT_Any)
      (blocksOf kinds state.reported.1) (reportedBlocks state kinds)) := by
  have copyR (type : GapType) (draft : Draft) :
      copyToRGaps state.gapList type unlimited draft = .ok (draft.withR (blocksOf kinds type)) := by
    rw [copyToRGaps_ok represents divides, take_unlimited represents]
  have copyNR (type : GapType) (draft : Draft) :
      copyToNRGaps state.gapList type unlimited draft =
        .ok (draft.withNR (blocksOf kinds type)) := by
    rw [copyToNRGaps_ok represents divides, take_unlimited represents]
  have total : state.totalGaps = kinds.combined.length := getNumGaps_eq represents .GT_Any
  rw [store, reportedBlocks, SctpStateVariables.reported]
  by_cases all : state.reportsAll = true
  · have fewer : kinds.combined.length < state.numRevokable := by
      have positive : 0 < state.optR := by
        obtain ⟨_, chosen⟩ := of_decide_eq_true all
        exact chosen.elim (fun first => first.1) fun second => second.1
      rw [SctpStateVariables.optR] at positive
      omega
    simp only [all, if_true, fewer, assert, decide_true, ok_bind, copyR, copyNR, Draft.withNR,
      Draft.withR, blocksOf, total]
    rfl
  simp only [all, Bool.false_eq_true, if_false]
  by_cases subtracts : state.subtracts = true
  · have fewer : kinds.combined.length < state.numNonRevokable := by
      have positive : 0 < state.optNR := (of_decide_eq_true subtracts).2.1
      rw [SctpStateVariables.optNR] at positive
      omega
    simp only [subtracts, if_true, fewer, assert, decide_true, ok_bind, copyR, copyNR,
      Draft.withNR, Draft.withR, blocksOf, total]
    rfl
  simp only [subtracts, Bool.false_eq_true, if_false]
  by_cases nrSack : state.nrSack = true
  · simp only [nrSack, if_true, copyR, ok_bind, copyNR]
    rfl
  · simp only [nrSack, Bool.false_eq_true, if_false, copyR, ok_bind]
    rfl

/-! ### The finished chunk -/

def finished (state : SctpStateVariables) (draft : Draft) (sackLength numDups : Nat) :
    SctpSackChunk :=
  let chunk := applyLimit state.gapReportLimit { draft with chunk := { draft.chunk with
    numDupTsns := numDups % 2 ^ 16
    byteLength := sackLength } }
  if 0 < numDups then { chunk with dupTsns := state.dupList.take numDups } else chunk

/-- The blocks that are to be reported are made to fit, and then the chunk tells the truth. -/
def FitsTruly (state : SctpStateVariables) (kinds : GapKinds) (allowed : Nat) : Prop :=
  ∃ draft sackLength numDups, fit state allowed (filled state (state.reported.2 = some .GT_Any)
      (blocksOf kinds state.reported.1) (reportedBlocks state kinds)) =
        .ok (draft, sackLength, numDups) ∧
    TellsTruth state allowed (finished state draft sackLength numDups)

theorem sacksTruly_iff {mtu : BitVec 32} {remoteAddr : AddressType}
    (represents : RepresentsKinds state.gapList kinds) (divides : Divides kinds)
    (uncompressed : state.compression = false) : SacksTruly mtu remoteAddr state ↔
      FitsTruly state kinds (allowedLength mtu remoteAddr) := by
  rw [SacksTruly, createSack, uncompressed, store_ok represents divides]
  simp only [Bool.false_eq_true, if_false, ok_bind]
  constructor
  · rintro ⟨chunk, next, created, truth⟩
    obtain ⟨⟨draft, sackLength, numDups⟩, fits, created⟩ := bind_eq_ok.mp created
    refine ⟨draft, sackLength, numDups, fits, ?_⟩
    rw [finished]
    split at created
    next dups =>
      cases created
      rwa [if_pos dups]
    next none =>
      cases created
      rwa [if_neg none]
  · rintro ⟨draft, sackLength, numDups, fits, truth⟩
    rw [fits, ok_bind]
    rw [finished] at truth
    split at truth
    next dups =>
      simp only [if_pos dups]
      exact ⟨_, _, rfl, truth⟩
    next none =>
      simp only [if_neg none]
      exact ⟨_, _, rfl, truth⟩

/-- The draft has blocks of both kinds, and their numbers. -/
structure Drafted (state : SctpStateVariables) (subtract : Bool)
    (revokable nonRevokable : List (Span Nat)) (draft : Draft) : Prop where
  chunk : draft.chunk = (filled state subtract revokable nonRevokable).chunk
  numRevokableGaps : draft.numRevokableGaps = revokable.length
  numNonRevokableGaps : draft.numNonRevokableGaps = nonRevokable.length

/-- The blocks that are reported tell the truth. -/
structure Truthful (kinds : GapKinds) (subtract : Bool) (revokable nonRevokable : List (Span Nat))
    (nothingCut : Prop) : Prop where
  received : ∀ n, Holds revokable n ∨ Holds nonRevokable n → Holds kinds.combined n
  fixed : ∀ n, Holds nonRevokable n → (subtract = true → ¬ Holds revokable n) →
    Holds kinds.nonRevokable n
  complete : nothingCut → ∀ n, Holds kinds.combined n → Holds revokable n ∨ Holds nonRevokable n

variable {subtract : Bool} {revokable nonRevokable : List (Span Nat)} {sackLength numDups : Nat}
  {allowed : Nat}

theorem tsn_eq {a b : List (Span Nat)} {cum n m : Nat} (soundA : Sound cum a) (heldA : Holds a n)
    (soundB : Sound cum b) (heldB : Holds b m) (same : tsn n = tsn m) : n = m := by
  have := soundA.holds_beyond heldA
  have := soundB.holds_beyond heldB
  exact (tsn_inj (by omega) (by omega)).mp same

/-- What a receiver reads from blocks that tell the truth. -/
theorem read_iff (represents : RepresentsKinds state.gapList kinds) (divides : Divides kinds)
    (soundR : Sound kinds.cum revokable) (soundNR : Sound kinds.cum nonRevokable)
    {chunk : SctpSackChunk} (cumTsnAck : chunk.cumTsnAck = state.gapList.CumAckTsn)
    (gaps : chunk.gaps.take chunk.numGaps = revokable.map ends)
    (nrGaps : chunk.nrGaps.take chunk.numNrGaps = nonRevokable.map ends)
    (subtracts : chunk.nrSubtractRGaps = subtract) (nothingCut : Prop) :
    (∃ revokable nonRevokable, processSackArrived chunk = .ok (revokable, nonRevokable) ∧
      (∀ t, t ∈ revokable ∨ t ∈ nonRevokable → state.gapList.tsnInGapList t = .ok true) ∧
      (∀ t ∈ nonRevokable, state.gapList.tsnIsNonRevokable t = .ok true) ∧
      (nothingCut → ∀ t, state.gapList.tsnInGapList t = .ok true →
        t ∈ revokable ∨ t ∈ nonRevokable)) ↔
      Truthful kinds subtract revokable nonRevokable nothingCut := by
  have readR := readBlocks_ok (List.nil_append revokable ▸ soundR) (.inl ⟨rfl, rfl⟩)
  have readNR := readBlocks_ok (List.nil_append nonRevokable ▸ soundNR) (.inl ⟨rfl, rfl⟩)
  rw [Nat.add_sub_cancel] at readR readNR
  have inList (t : Tsn) : state.gapList.tsnInGapList t = .ok true ↔
      ∃ n, tsn n = t ∧ Holds kinds.combined n :=
    found_iff represents.combined divides.combined
  have isFixed (t : Tsn) : state.gapList.tsnIsNonRevokable t = .ok true ↔
      ∃ n, tsn n = t ∧ Holds kinds.nonRevokable n :=
    found_iff represents.nonRevokable divides.nonRevokable
  -- the TSNs that are read as non-revokable ones
  obtain ⟨fixed, processed, mem_fixed⟩ : ∃ fixed, processSackArrived chunk =
      .ok (tsnsOf revokable, fixed) ∧ ∀ t, t ∈ fixed ↔
        t ∈ tsnsOf nonRevokable ∧ (subtract = true → t ∉ tsnsOf revokable) := by
    rw [processSackArrived, cumTsnAck, represents.cum, gaps, nrGaps, readR, ok_bind, readNR,
      ok_bind, subtracts]
    cases subtract with
    | true => exact ⟨_, rfl, fun t => by simp [List.mem_filter]⟩
    | false => exact ⟨_, rfl, fun t => by simp⟩
  have either (t : Tsn) : (t ∈ tsnsOf revokable ∨ t ∈ fixed) ↔
      t ∈ tsnsOf revokable ∨ t ∈ tsnsOf nonRevokable := by
    rw [mem_fixed]
    constructor
    · exact fun read => read.imp_right And.left
    · rintro (read | read)
      · exact .inl read
      · by_cases both : t ∈ tsnsOf revokable
        · exact .inl both
        · exact .inr ⟨read, fun _ => both⟩
  constructor
  · rintro ⟨_, _, same, received, fixed_, complete⟩
    rw [processed] at same
    cases same
    refine ⟨fun n held => ?_, fun n held apart => ?_, fun uncut n held => ?_⟩
    · have read : tsn n ∈ tsnsOf revokable ∨ tsn n ∈ tsnsOf nonRevokable :=
        held.imp (fun held => mem_tsnsOf.mpr ⟨n, rfl, held⟩)
          fun held => mem_tsnsOf.mpr ⟨n, rfl, held⟩
      obtain ⟨m, same, known⟩ := (inList _).mp (received _ ((either _).mpr read))
      rcases held with held | held
      · rwa [tsn_eq soundR held divides.combined known same.symm]
      · rwa [tsn_eq soundNR held divides.combined known same.symm]
    · have read : tsn n ∈ fixed := (mem_fixed _).mpr ⟨mem_tsnsOf.mpr ⟨n, rfl, held⟩,
        fun subtracts both => by
          obtain ⟨m, same, other⟩ := mem_tsnsOf.mp both
          refine apart subtracts ?_
          rwa [tsn_eq soundNR held soundR other same.symm]⟩
      obtain ⟨m, same, known⟩ := (isFixed _).mp (fixed_ _ read)
      rwa [tsn_eq soundNR held divides.nonRevokable known same.symm]
    · have read := (either _).mp (complete uncut _ ((inList _).mpr ⟨n, rfl, held⟩))
      refine read.imp (fun read => ?_) fun read => ?_
      · obtain ⟨m, same, other⟩ := mem_tsnsOf.mp read
        rwa [tsn_eq divides.combined held soundR other same.symm]
      · obtain ⟨m, same, other⟩ := mem_tsnsOf.mp read
        rwa [tsn_eq divides.combined held soundNR other same.symm]
  · intro truth
    refine ⟨_, _, processed, fun t read => ?_, fun t read => ?_, fun uncut t known => ?_⟩
    · refine (inList t).mpr ?_
      rcases (either t).mp read with read | read
      · obtain ⟨n, same, held⟩ := mem_tsnsOf.mp read
        exact ⟨n, same, truth.received n (.inl held)⟩
      · obtain ⟨n, same, held⟩ := mem_tsnsOf.mp read
        exact ⟨n, same, truth.received n (.inr held)⟩
    · obtain ⟨read, apart⟩ := (mem_fixed t).mp read
      obtain ⟨n, rfl, held⟩ := mem_tsnsOf.mp read
      exact (isFixed _).mpr ⟨n, rfl, truth.fixed n held fun subtracts both =>
        apart subtracts (mem_tsnsOf.mpr ⟨n, rfl, both⟩)⟩
    · obtain ⟨n, rfl, held⟩ := (inList t).mp known
      refine (either _).mpr ((truth.complete uncut n held).imp ?_ ?_)
      · exact fun held => mem_tsnsOf.mpr ⟨n, rfl, held⟩
      · exact fun held => mem_tsnsOf.mpr ⟨n, rfl, held⟩

/-- How many blocks the limit leaves. -/
def limited (state : SctpStateVariables) (number : Nat) : Nat :=
  if state.gapReportLimit.toNat < 1000000 then min number state.gapReportLimit.toNat else number

theorem limited_iff {a b : Nat} :
    limited state a = a ∧ limited state b = b ↔ state.WithinLimit a b := by
  rw [limited, limited, SctpStateVariables.WithinLimit]
  split <;> omega

/-- The fields of the finished chunk. -/
theorem finished_fields (drafted : Drafted state subtract revokable nonRevokable draft)
    (few : revokable.length ≤ 500) (fewNR : nonRevokable.length ≤ 500)
    (dups : numDups ≤ state.dupList.length) :
    let chunk := finished state draft sackLength numDups
    chunk.byteLength = sackLength ∧ chunk.cumTsnAck = state.gapList.CumAckTsn ∧
      chunk.gaps = revokable.map ends ∧ chunk.nrGaps = nonRevokable.map ends ∧
      chunk.nrSubtractRGaps = subtract ∧ chunk.dupTsns.length = numDups ∧
      chunk.numGaps = limited state revokable.length ∧
      chunk.numNrGaps = limited state nonRevokable.length := by
  have small : min revokable.length state.gapReportLimit.toNat % 2 ^ 16 =
      min revokable.length state.gapReportLimit.toNat := by omega
  have smallNR : min nonRevokable.length state.gapReportLimit.toNat % 2 ^ 16 =
      min nonRevokable.length state.gapReportLimit.toNat := by omega
  simp only [finished, applyLimit, limited, drafted.chunk, drafted.numRevokableGaps,
    drafted.numNonRevokableGaps, SctpSackChunk.setNumGaps, SctpSackChunk.setNumNrGaps, small,
    smallNR]
  by_cases some : 0 < numDups
  · by_cases limit : state.gapReportLimit.toNat < 1000000
    · simp only [if_pos some, if_pos limit]
      simp [filled, Draft.withR, Draft.withNR, Draft.subtracting, emptyDraft, dups]
    · simp only [if_pos some, if_neg limit]
      simp [filled, Draft.withR, Draft.withNR, Draft.subtracting, emptyDraft, dups]
  · obtain rfl : numDups = 0 := by omega
    by_cases limit : state.gapReportLimit.toNat < 1000000
    · simp only [if_neg some, if_pos limit]
      simp [filled, Draft.withR, Draft.withNR, Draft.subtracting, emptyDraft]
    · simp only [if_neg some, if_neg limit]
      simp [filled, Draft.withR, Draft.withNR, Draft.subtracting, emptyDraft]

theorem tellsTruth_iff (represents : RepresentsKinds state.gapList kinds) (divides : Divides kinds)
    (drafted : Drafted state subtract revokable nonRevokable draft)
    (soundR : Sound kinds.cum revokable) (soundNR : Sound kinds.cum nonRevokable)
    (few : revokable.length ≤ 500) (fewNR : nonRevokable.length ≤ 500)
    (dups : numDups ≤ state.dupList.length) :
    TellsTruth state allowed (finished state draft sackLength numDups) ↔
      sackLength ≤ allowed ∧ state.WithinLimit revokable.length nonRevokable.length ∧
        sackLength = state.lengthWith (revokable.length + nonRevokable.length) numDups ∧
        Truthful kinds subtract revokable nonRevokable (state.NothingCut allowed) := by
  obtain ⟨length, cumTsnAck, gaps, nrGaps, subtracts, numTaken, numGaps, numNrGaps⟩ :=
    @finished_fields _ _ _ _ _ sackLength _ drafted few fewNR dups
  generalize finished state draft sackLength numDups = chunk at *
  have lengths : chunk.gaps.length = revokable.length ∧
      chunk.nrGaps.length = nonRevokable.length := by simp [gaps, nrGaps]
  have reads (within : state.WithinLimit revokable.length nonRevokable.length) := by
    obtain ⟨whole, wholeNR⟩ := limited_iff.mpr within
    rw [whole, ← lengths.1] at numGaps
    rw [wholeNR, ← lengths.2] at numNrGaps
    exact read_iff represents divides soundR soundNR cumTsnAck
      (by rw [numGaps, List.take_length, gaps]) (by rw [numNrGaps, List.take_length, nrGaps])
      subtracts (state.NothingCut allowed)
  constructor
  · rintro ⟨fits, gapsCounted, nrGapsCounted, counted, read⟩
    have within : state.WithinLimit revokable.length nonRevokable.length := by
      refine limited_iff.mp ⟨?_, ?_⟩
      · rw [← numGaps, gapsCounted, lengths.1]
      · rw [← numNrGaps, nrGapsCounted, lengths.2]
    rw [length, gapsCounted, nrGapsCounted, lengths.1, lengths.2, numTaken] at counted
    exact ⟨length ▸ fits, within, counted, (reads within).mp read⟩
  · rintro ⟨fits, within, counted, truth⟩
    obtain ⟨whole, wholeNR⟩ := limited_iff.mpr within
    refine ⟨length ▸ fits, ?_, ?_, ?_, (reads within).mpr truth⟩
    · rw [numGaps, whole, lengths.1]
    · rw [numNrGaps, wholeNR, lengths.2]
    · rw [length, counted, numGaps, whole, numNrGaps, wholeNR, numTaken]

/-! ### Nothing is cut -/

theorem reported_cases (state : SctpStateVariables) :
    state.reported = (.GT_Any, some .GT_NonRevokable) ∨
      (state.reported = (.GT_Revokable, some .GT_Any) ∧ state.totalGaps < state.numNonRevokable) ∨
      state.reported = (.GT_Revokable, some .GT_NonRevokable) ∨
      state.reported = (.GT_Any, none) := by
  rw [SctpStateVariables.reported]
  by_cases all : state.reportsAll = true
  · exact .inl (if_pos all)
  rw [if_neg all]
  by_cases subtracts : state.subtracts = true
  · have positive : 0 < state.optNR := (of_decide_eq_true subtracts).2.1
    rw [SctpStateVariables.optNR] at positive
    exact .inr (.inl ⟨if_pos subtracts, by omega⟩)
  rw [if_neg subtracts]
  by_cases nrSack : state.nrSack = true
  · exact .inr (.inr (.inl (if_pos nrSack)))
  · exact .inr (.inr (.inr (if_neg nrSack)))

theorem reported_truthful (divides : Divides kinds) (nothingCut : Prop) :
    Truthful kinds (decide (state.reported.2 = some .GT_Any)) (blocksOf kinds state.reported.1)
      (reportedBlocks state kinds) nothingCut := by
  have union := divides.union
  rw [reportedBlocks]
  rcases reported_cases state with same | ⟨same, _⟩ | same | same <;> rw [same]
  · exact ⟨fun n held => held.elim id fun held => (union n).mpr (.inr held), fun n held _ => held,
      fun _ n held => .inl held⟩
  · exact ⟨fun n held => held.elim (fun held => (union n).mpr (.inl held)) id,
      fun n held apart => ((union n).mp held).resolve_left (apart rfl), fun _ n held => .inr held⟩
  · exact ⟨fun n held => (union n).mpr held, fun n held _ => held, fun _ n => (union n).mp⟩
  · exact ⟨fun n held => held.elim id fun held => absurd held holds_nil,
      fun n held => absurd held holds_nil, fun _ n held => .inl held⟩

theorem reportedBlocks_sound (divides : Divides kinds) :
    Sound kinds.cum (reportedBlocks state kinds) := by
  rw [reportedBlocks]
  cases state.reported.2 with
  | none => exact ⟨spaced_nil, nofun, nofun⟩
  | some type => exact divides.sound type

theorem length_reportedBlocks_le (represents : RepresentsKinds state.gapList kinds) :
    (reportedBlocks state kinds).length ≤ 500 := by
  rw [reportedBlocks]
  cases state.reported.2 with
  | none => exact Nat.zero_le _
  | some type => exact length_blocksOf_le represents type

theorem filled_drafted (state : SctpStateVariables) (subtract : Bool)
    (revokable nonRevokable : List (Span Nat)) :
    Drafted state subtract revokable nonRevokable (filled state subtract revokable nonRevokable) :=
  ⟨rfl, rfl, rfl⟩

theorem filled_sackLength (state : SctpStateVariables) (subtract : Bool)
    (revokable nonRevokable : List (Span Nat)) (numDups : Nat) :
    (filled state subtract revokable nonRevokable).sackLength state.sackHeaderLength numDups =
      state.lengthWith (revokable.length + nonRevokable.length) numDups % 2 ^ 32 := by
  have spaces : (filled state subtract revokable nonRevokable).revokableGapsSpace =
        4 * revokable.length ∧
      (filled state subtract revokable nonRevokable).nonRevokableGapsSpace =
        4 * nonRevokable.length := ⟨rfl, rfl⟩
  rw [Draft.sackLength, SctpStateVariables.lengthWith, spaces.1, spaces.2]
  congr 1
  omega

/-- The number of duplicates that are reported at first. -/
theorem numDups_le (state : SctpStateVariables) : state.numDups ≤ state.dupList.length :=
  Nat.mod_le _ _

/-- A SACK that fits as a `uint32_t` tells the truth if it really fits and the limit is not
reached. -/
theorem uncut_iff (represents : RepresentsKinds state.gapList kinds) (divides : Divides kinds)
    (below : allowed < 2 ^ 32)
    (uncut : state.lengthWith (state.reportedRevokable + state.reportedNonRevokable) state.numDups %
      2 ^ 32 ≤ allowed) :
    FitsTruly state kinds allowed ↔
    state.lengthWith (state.reportedRevokable + state.reportedNonRevokable) state.numDups ≤
        allowed ∧
      state.WithinLimit state.reportedRevokable state.reportedNonRevokable := by
  have counts := reportedRevokable_eq represents
  have countsNR := reportedNonRevokable_eq represents
  have fits : fit state allowed (filled state (state.reported.2 = some .GT_Any)
      (blocksOf kinds state.reported.1) (reportedBlocks state kinds)) =
      .ok (filled state (state.reported.2 = some .GT_Any) (blocksOf kinds state.reported.1)
        (reportedBlocks state kinds), state.lengthWith
          (state.reportedRevokable + state.reportedNonRevokable) state.numDups % 2 ^ 32,
        state.numDups) := by
    have dups : state.dupList.length % 2 ^ 32 = state.numDups := rfl
    rw [fit]
    simp only [filled_sackLength, dups, ← counts, ← countsNR]
    rw [if_neg (Nat.not_lt.mpr uncut)]
    rfl
  have truth (sackLength : Nat) := @tellsTruth_iff _ _ _ _ _ _ sackLength _ allowed represents
    divides (filled_drafted state (decide (state.reported.2 = some .GT_Any))
      (blocksOf kinds state.reported.1) (reportedBlocks state kinds)) (divides.sound _)
    (reportedBlocks_sound divides) (length_blocksOf_le represents _)
    (length_reportedBlocks_le represents) (numDups_le state)
  simp only [← counts, ← countsNR] at truth
  rw [FitsTruly, fits]
  constructor
  · rintro ⟨draft, sackLength, numDups, same, told⟩
    cases same
    obtain ⟨_, within, length, _⟩ := (truth _).mp told
    exact ⟨length ▸ uncut, within⟩
  · rintro ⟨fitting, within⟩
    refine ⟨_, _, _, rfl, (truth _).mpr ⟨uncut, within, ?_, reported_truthful divides _⟩⟩
    exact Nat.mod_eq_of_lt (by omega)

/-! ### Something is cut -/

/-- The numbers of blocks are written again after the SACK was shortened. -/
def Draft.renumbered (draft : Draft) : Draft :=
  { draft with chunk :=
    (draft.chunk.setNumGaps draft.numRevokableGaps).setNumNrGaps draft.numNonRevokableGaps }

theorem Drafted.renumbered (drafted : Drafted state subtract revokable nonRevokable draft)
    (few : revokable.length ≤ 500) (fewNR : nonRevokable.length ≤ 500) :
    Drafted state subtract revokable nonRevokable draft.renumbered := by
  refine ⟨?_, drafted.numRevokableGaps, drafted.numNonRevokableGaps⟩
  simp only [Draft.renumbered, drafted.chunk, drafted.numRevokableGaps, drafted.numNonRevokableGaps,
    SctpSackChunk.setNumGaps, SctpSackChunk.setNumNrGaps]
  rw [Nat.mod_eq_of_lt (by omega), Nat.mod_eq_of_lt (by omega)]
  rfl

/-- A SACK that is too long tells the truth if it is shortened to some blocks that do. -/
theorem cut_iff (represents : RepresentsKinds state.gapList kinds) (divides : Divides kinds)
    (cut : allowed < state.lengthWith (state.reportedRevokable + state.reportedNonRevokable)
      state.numDups % 2 ^ 32)
    (shortened : shorten state allowed (filled state (state.reported.2 = some .GT_Any)
      (blocksOf kinds state.reported.1) (reportedBlocks state kinds)) = .ok (draft, sackLength))
    (drafted : Drafted state false revokable nonRevokable draft)
    (soundR : Sound kinds.cum revokable) (soundNR : Sound kinds.cum nonRevokable)
    (few : revokable.length ≤ 500) (fewNR : nonRevokable.length ≤ 500) :
    FitsTruly state kinds allowed ↔
    sackLength ≤ allowed ∧ state.WithinLimit revokable.length nonRevokable.length ∧
      sackLength = state.lengthWith (revokable.length + nonRevokable.length) 0 ∧
      Truthful kinds false revokable nonRevokable False := by
  have counts := reportedRevokable_eq represents
  have countsNR := reportedNonRevokable_eq represents
  have dups : state.dupList.length % 2 ^ 32 = state.numDups := rfl
  have tooLong : ¬ state.NothingCut allowed := by
    rw [SctpStateVariables.NothingCut]
    exact Nat.not_le.mpr (cut.trans_le (Nat.mod_le _ _))
  have truth := @tellsTruth_iff _ _ _ _ _ _ sackLength _ allowed represents divides
    (drafted.renumbered few fewNR) soundR soundNR few fewNR (Nat.zero_le _)
  rw [eq_false tooLong] at truth
  rw [← truth, FitsTruly, fit]
  simp only [filled_sackLength, dups, ← counts, ← countsNR]
  rw [if_pos cut]
  simp only [Nat.mul_zero, Nat.sub_zero]
  rw [if_pos cut, shortened, ok_bind]
  constructor
  · rintro ⟨_, _, _, returned, told⟩
    obtain ⟨_, _, same⟩ := bind_eq_ok.mp returned
    cases same
    exact told
  · intro told
    have fits := (truth.mp told).1
    refine ⟨_, _, _, ?_, told⟩
    simp only [assert, fits, decide_true, if_true, ok_bind]
    rfl

end Drafts

end Inet.Sctp.Sack
