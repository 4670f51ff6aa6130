import Inet.Sctp.GapListRuns

/-!
# Revokable and non-revokable gap lists

The lists of revokable and of non-revokable TSNs part the combined list, as long as a chunk that was
non-revokable is not received as a revokable one and full lists lose the same chunks.
-/
namespace Inet.Sctp

open Lib SpanList

variable {n : Nat} {tsnIsRevokable : Bool}

inductive KindCall where
  | updateGapList (t : Nat) (tsnIsRevokable : Bool)
  | removeFromGapList (t : Nat)
  | forwardCumAckTsn (c : Nat)
  | tryToAdvanceCumAckTsn
  | resetGaps (newCumAck : Nat)

def SctpGapList.apply (list : SctpGapList) : KindCall → Except GapError SctpGapList
  | .updateGapList t tsnIsRevokable => do
    let updated ← list.updateGapList (tsn t) tsnIsRevokable
    return updated.list
  | .removeFromGapList t => list.removeFromGapList (tsn t)
  | .forwardCumAckTsn c => list.forwardCumAckTsn (tsn c)
  | .tryToAdvanceCumAckTsn => do
    let (list, _) ← list.tryToAdvanceCumAckTsn
    return list
  | .resetGaps newCumAck => .ok (SctpGapList.resetGaps (tsn newCumAck))

/-- The blocks of the three lists, and the number of the cumulative TSN. -/
structure GapKinds where
  cum : Nat
  revokable : List (Span Nat)
  nonRevokable : List (Span Nat)
  combined : List (Span Nat)

namespace GapKinds

variable (kinds : GapKinds)

/-- The cumulative TSN moves, and the lists of both kinds follow. -/
def settle (cum : Nat) : GapKinds :=
  { kinds with
    cum := cum
    revokable := dropBelow (cum + 1) kinds.revokable
    nonRevokable := dropBelow (cum + 1) kinds.nonRevokable }

/-- The lists of both kinds after an update. -/
def updateKind (t : Nat) (tsnIsRevokable : Bool) : GapKinds :=
  if tsnIsRevokable then
    { kinds with revokable := (receive t kinds.cum kinds.revokable).2 }
  else
    { kinds with
      revokable := (erase t kinds.revokable).take MAX_GAP_COUNT
      nonRevokable := (receive t kinds.cum kinds.nonRevokable).2 }

def update (t : Nat) (tsnIsRevokable : Bool) : GapKinds :=
  if t ≤ kinds.cum then kinds
  else
    let received := receive t kinds.cum kinds.combined
    let updated := kinds.updateKind t tsnIsRevokable
    let settled := if kinds.cum = received.1 then updated else updated.settle received.1
    { settled with combined := received.2 }

/-- What a call makes of the blocks. -/
def apply : KindCall → GapKinds
  | .updateGapList t tsnIsRevokable => kinds.update t tsnIsRevokable
  | .removeFromGapList t =>
    { kinds with
      revokable := (erase t kinds.revokable).take MAX_GAP_COUNT
      nonRevokable := (erase t kinds.nonRevokable).take MAX_GAP_COUNT
      combined := (erase t kinds.combined).take MAX_GAP_COUNT }
  | .forwardCumAckTsn c => { kinds.settle c with combined := dropBelow (c + 1) kinds.combined }
  | .tryToAdvanceCumAckTsn => kinds
  | .resetGaps newCumAck => ⟨newCumAck, [], [], []⟩

/-- The list that a chunk is put into. -/
def kind (tsnIsRevokable : Bool) : List (Span Nat) :=
  if tsnIsRevokable then kinds.revokable else kinds.nonRevokable

end GapKinds

/-- The chunk is lost because a list is full. -/
def Lost (blocks : List (Span Nat)) (n : Nat) : Prop := Holds (blocks.drop MAX_GAP_COUNT) n

/-- Which calls keep the lists apart. -/
def KindCall.Keeps (kinds : GapKinds) (fixed : Set Nat) : KindCall → Prop
  | .updateGapList t tsnIsRevokable =>
    Near kinds.cum t ∧
      (kinds.cum < t → Passes t (kinds.kind tsnIsRevokable) ∧ Passes t kinds.combined) ∧
      (kinds.cum + 1 < t →
        (tsnIsRevokable = true → t ∉ fixed) ∧
        (tsnIsRevokable = false → RoomToErase t kinds.revokable) ∧
        ∀ n, Lost (insert t kinds.combined) n ↔
          Lost (insert t (kinds.kind tsnIsRevokable)) n ∨
            tsnIsRevokable = false ∧ Lost (erase t kinds.revokable) n)
  | .removeFromGapList t =>
    InReach kinds.cum t ∧ RoomToErase t kinds.revokable ∧ RoomToErase t kinds.nonRevokable ∧
      RoomToErase t kinds.combined ∧
      ∀ n, Lost (erase t kinds.combined) n ↔
        Lost (erase t kinds.revokable) n ∨ Lost (erase t kinds.nonRevokable) n
  | .forwardCumAckTsn c =>
    (∀ n, Holds kinds.combined n → c < n + 2 ^ 31 ∧ n < c + 2 ^ 31) ∧
      (Holds kinds.combined (c + 1) → Holds kinds.combined c) ∧
      ∀ n, HoldsFrom kinds.combined c n ↔
        HoldsFrom kinds.revokable c n ∨ HoldsFrom kinds.nonRevokable c n
  | .tryToAdvanceCumAckTsn => True
  | .resetGaps _ => True

/-- The call takes the chunk out of the lists on purpose. -/
def KindCall.TakesOut (n : Nat) : KindCall → Prop
  | .removeFromGapList t => n = t
  | .resetGaps _ => True
  | _ => False

/-- The call passes the chunk to `updateGapList`. -/
def KindCall.Passes (n : Nat) : KindCall → Prop
  | .updateGapList t _ => n = t
  | _ => False

/-- Runs from a new list on, with the chunks that were non-revokable and not taken out since, and
the chunks that were passed to `updateGapList`. -/
inductive KindsReached (initial : Nat) : SctpGapList → GapKinds → Set Nat → Set Nat → Prop where
  | init {list} (returned : SctpGapList.new.setInitialCumAckTsn (tsn initial) = .ok list) :
      KindsReached initial list ⟨initial, [], [], []⟩ ∅ ∅
  | step {list next kinds fixed passed} (earlier : KindsReached initial list kinds fixed passed)
      (call : KindCall) (keeps : call.Keeps kinds fixed) (returned : list.apply call = .ok next) :
      KindsReached initial next (kinds.apply call)
        {n | (n ∈ fixed ∧ ¬ call.TakesOut n) ∨ Holds (kinds.apply call).nonRevokable n}
        {n | n ∈ passed ∨ call.Passes n}

/-! ### The arrays follow the blocks -/

structure RepresentsKinds (list : SctpGapList) (kinds : GapKinds) : Prop where
  cum : list.CumAckTsn = tsn kinds.cum
  revokable : Represents list.RevokableGapList kinds.revokable
  nonRevokable : Represents list.NonRevokableGapList kinds.nonRevokable
  combined : Represents list.CombinedGapList kinds.combined

/-- The lists are sound and part the combined one. Chunks that were non-revokable are not
revokable. -/
structure Parted (kinds : GapKinds) (fixed passed : Set Nat) : Prop where
  revokable : Sound kinds.cum kinds.revokable
  nonRevokable : Sound kinds.cum kinds.nonRevokable
  combined : Sound kinds.cum kinds.combined
  union : ∀ n, Holds kinds.combined n ↔ Holds kinds.revokable n ∨ Holds kinds.nonRevokable n
  becomesFixed : ∀ n, Holds kinds.nonRevokable n → n ∈ fixed
  staysFixed : ∀ n ∈ fixed, ¬ Holds kinds.revokable n
  wasPassed : ∀ n, Holds kinds.combined n → n ∈ passed

/-- The lists are sound, and the combined one holds what the others hold. -/
structure Contained (kinds : GapKinds) : Prop where
  revokable : Sound kinds.cum kinds.revokable
  nonRevokable : Sound kinds.cum kinds.nonRevokable
  combined : Sound kinds.cum kinds.combined
  inside : ∀ n, Holds kinds.revokable n ∨ Holds kinds.nonRevokable n → Holds kinds.combined n

variable {list : SctpGapList} {kinds : GapKinds} {fixed passed : Set Nat} {t c : Nat}
  {blocks : List (Span Nat)} {cum : Nat}

theorem Parted.contained (parted : Parted kinds fixed passed) : Contained kinds :=
  ⟨parted.revokable, parted.nonRevokable, parted.combined, fun n => (parted.union n).mpr⟩

theorem mem_advance {s : Span Nat} (member : s ∈ (advance cum blocks).2) : s ∈ blocks := by
  cases blocks with
  | nil => exact member
  | cons first rest =>
    rw [advance] at member
    split at member
    · exact .tail _ member
    · exact member

/-- Forwarding keeps what is behind the chunk, and behind the block that the chunk is in. -/
theorem Sound.forward (sound : Sound cum blocks) (near : ∀ n, Holds blocks n → n < c + 2 ^ 31)
    (within : Holds blocks (c + 1) → Holds blocks c) :
    Sound c (SpanList.dropBelow (c + 1) blocks) ∧
      ∀ n, Holds (SpanList.dropBelow (c + 1) blocks) n ↔
        c < n ∧ Holds blocks n ∧ ¬ HoldsFrom blocks c n := by
  have held (n : Nat) : Holds (SpanList.dropBelow (c + 1) blocks) n ↔
      c < n ∧ Holds blocks n ∧ ¬ HoldsFrom blocks c n := holds_dropBelow_succ sound.spaced
  refine ⟨.of_holds (spaced_dropBelow sound.spaced) fun n inside => ?_, held⟩
  obtain ⟨low, inside, apart⟩ := (held n).mp inside
  refine ⟨?_, near n inside⟩
  by_contra close
  obtain rfl : n = c + 1 := by omega
  refine apart fun m le behind => ?_
  rcases Nat.lt_or_eq_of_le behind with before | rfl
  · obtain rfl : m = c := by omega
    exact within inside
  · exact inside

/-- Forwarding to a chunk before a gap keeps what is behind it. -/
theorem Sound.forward_gap (sound : Sound cum blocks)
    (near : ∀ n, Holds blocks n → n < c + 2 ^ 31) (gap : ¬ Holds blocks (c + 1)) :
    Sound c (SpanList.dropBelow (c + 1) blocks) ∧
      ∀ n, Holds (SpanList.dropBelow (c + 1) blocks) n ↔ c < n ∧ Holds blocks n := by
  obtain ⟨nextSound, held⟩ := sound.forward near fun inside => absurd inside gap
  refine ⟨nextSound, fun n => ?_⟩
  rw [held]
  constructor
  · exact fun ⟨low, inside, _⟩ => ⟨low, inside⟩
  · exact fun ⟨low, inside⟩ =>
      ⟨low, inside, fun all => gap (all (c + 1) (Nat.le_succ c) low)⟩

/-- The starts of blocks compare with a chunk that their chunks compare with. -/
theorem Sound.comparable (sound : Sound cum blocks)
    (near : ∀ n, Holds blocks n → c < n + 2 ^ 31 ∧ n < c + 2 ^ 31) :
    ∀ s ∈ blocks, c < s.start + 2 ^ 31 ∧ s.start < c + 2 ^ 31 := fun s member =>
  near s.start ⟨s, member, Nat.le_refl _, sound.spaced.positive s member⟩

/-- Advancing goes no further than the chunks that are in reach. -/
theorem Sound.advance_near (sound : Sound cum blocks) :
    (Sctp.advance cum blocks).1 < cum + 2 ^ 31 := by
  obtain ⟨_, _, covers⟩ := sound.advance
  rcases (covers _).mp (.inl (Nat.le_refl _)) with same | low | held
  · omega
  · omega
  · exact (sound.holds_beyond held).2

/-- What advancing leaves in the blocks, and the gap that it ends before. -/
theorem Sound.holds_advance (sound : Sound cum blocks) :
    (∀ n, Holds (Sctp.advance cum blocks).2 n ↔ (Sctp.advance cum blocks).1 < n ∧ Holds blocks n) ∧
      ¬ Holds blocks ((Sctp.advance cum blocks).1 + 1) := by
  obtain ⟨more, nextSound, covers⟩ := sound.advance
  constructor
  · intro n
    constructor
    · intro held
      have beyond := (nextSound.holds_beyond held).1
      rcases (covers n).mp (.inr held) with same | low | old
      · omega
      · omega
      · exact ⟨by omega, old⟩
    · rintro ⟨beyond, old⟩
      exact ((covers n).mpr (.inr (.inr old))).resolve_left (by omega)
  · intro held
    rcases (covers _).mpr (.inr (.inr held)) with low | held
    · omega
    · exact Nat.lt_irrefl _ (nextSound.holds_beyond held).1

/-! ### Calls of the arrays -/

/-- An update of one of the lists returns, and the list follows what is received. -/
def Receives (simple : SctpSimpleGapList) (t cum : Nat) (blocks : List (Span Nat)) : Prop :=
  ∃ next new, simple.updateGapList (tsn t) (tsn cum) =
      .ok ⟨next, tsn (receive t cum blocks).1, new, true⟩ ∧
    Represents next (receive t cum blocks).2

theorem receives_of_passes {simple : SctpSimpleGapList} (represents : Represents simple blocks)
    (sound : Sound cum blocks) (near : Near cum t) (beyond : cum < t) (passes : Passes t blocks) :
    Receives simple t cum blocks := by
  obtain ⟨next, new, updated, follows, _⟩ := update_ok represents sound near beyond passes
  exact ⟨next, new, updated, follows⟩

/-- The list that a chunk is put into. -/
def SctpGapList.kind (list : SctpGapList) (tsnIsRevokable : Bool) : SctpSimpleGapList :=
  if tsnIsRevokable then list.RevokableGapList else list.NonRevokableGapList

theorem RepresentsKinds.kind (represents : RepresentsKinds list kinds) (tsnIsRevokable : Bool) :
    Represents (list.kind tsnIsRevokable) (kinds.kind tsnIsRevokable) := by
  cases tsnIsRevokable with
  | true => exact represents.revokable
  | false => exact represents.nonRevokable

theorem Contained.kind (contained : Contained kinds) (tsnIsRevokable : Bool) :
    Sound kinds.cum (kinds.kind tsnIsRevokable) := by
  cases tsnIsRevokable with
  | true => exact contained.revokable
  | false => exact contained.nonRevokable

theorem RepresentsKinds.updateKind (represents : RepresentsKinds list kinds)
    (contained : Contained kinds) (near : Near kinds.cum t)
    (receives : Receives (list.kind tsnIsRevokable) t kinds.cum (kinds.kind tsnIsRevokable))
    (room : tsnIsRevokable = false → RoomToErase t kinds.revokable) :
    ∃ revokable nonRevokable new,
      list.updateKind (tsn t) tsnIsRevokable = .ok (revokable, nonRevokable, new) ∧
        Represents revokable (kinds.updateKind t tsnIsRevokable).revokable ∧
        Represents nonRevokable (kinds.updateKind t tsnIsRevokable).nonRevokable := by
  obtain ⟨next, new, updated, follows⟩ := receives
  rw [SctpGapList.updateKind, GapKinds.updateKind, represents.cum]
  cases tsnIsRevokable with
  | true =>
    simp only [SctpGapList.kind, GapKinds.kind, if_true] at updated follows
    simp only [if_true, updated, ok_bind]
    exact ⟨_, _, _, rfl, follows, represents.nonRevokable⟩
  | false =>
    simp only [SctpGapList.kind, GapKinds.kind, Bool.false_eq_true, if_false] at updated follows
    obtain ⟨revokable, removed, erased⟩ :=
      remove_ok represents.revokable contained.revokable near.inReach (room rfl)
    simp only [Bool.false_eq_true, if_false, updated, ok_bind, if_true, removed]
    exact ⟨_, _, _, rfl, erased, follows⟩

/-- Blocks with chunks of the combined list follow a cumulative TSN that advances. -/
theorem RepresentsKinds.follow {simple : SctpSimpleGapList} (follows : Represents simple blocks)
    (contained : Contained kinds)
    (inside : ∀ s ∈ blocks, ∃ n, s.start = n ∧ Holds kinds.combined n) :
    ∃ next, simple.forwardCumAckTsn (tsn (advance kinds.cum kinds.combined).1) = .ok next ∧
      Represents next (dropBelow ((advance kinds.cum kinds.combined).1 + 1) blocks) := by
  have close := contained.combined.advance_near
  have more := contained.combined.advance.1
  refine forward_ok follows _ fun s member => ?_
  obtain ⟨_, rfl, held⟩ := inside s member
  have := contained.combined.holds_beyond held
  omega

theorem Sound.start_holds (sound : Sound cum blocks) {s : Span Nat} (member : s ∈ blocks) :
    Holds blocks s.start :=
  ⟨s, member, Nat.le_refl _, sound.spaced.positive s member⟩

/-- The next chunk changes the blocks of neither kind but for those right behind it. -/
theorem Contained.mem_updateKind (contained : Contained kinds) (tsnIsRevokable : Bool) :
    (∀ s ∈ (kinds.updateKind (kinds.cum + 1) tsnIsRevokable).revokable, s ∈ kinds.revokable) ∧
      ∀ s ∈ (kinds.updateKind (kinds.cum + 1) tsnIsRevokable).nonRevokable,
        s ∈ kinds.nonRevokable := by
  rw [GapKinds.updateKind]
  cases tsnIsRevokable with
  | true =>
    simp only [if_true, receive]
    exact ⟨fun s => mem_advance, fun s => id⟩
  | false =>
    have outside : ¬ Holds kinds.revokable (kinds.cum + 1) := fun held =>
      Nat.lt_irrefl _ (contained.revokable.holds_beyond held).1
    simp only [Bool.false_eq_true, if_false, receive, if_true, erase_of_not_holds outside]
    exact ⟨fun s => List.mem_of_mem_take, fun s => mem_advance⟩

/-- A chunk up to the cumulative TSN changes no list. -/
theorem RepresentsKinds.updateBehind (represents : RepresentsKinds list kinds)
    (near : Near kinds.cum t) (behind : t ≤ kinds.cum) (tsnIsRevokable : Bool) :
    list.updateGapList (tsn t) tsnIsRevokable = .ok ⟨list, false, false⟩ := by
  have unchanged : list.updateKind (tsn t) tsnIsRevokable =
      .ok (list.RevokableGapList, list.NonRevokableGapList, false) := by
    rw [SctpGapList.updateKind, represents.cum]
    cases tsnIsRevokable <;> simp only [Bool.false_eq_true, if_true, if_false,
      update_behind _ near behind, ok_bind] <;> rfl
  rw [SctpGapList.updateGapList, unchanged, ok_bind, represents.cum]
  simp only [update_behind _ near behind, ok_bind, ne_eq, not_true_eq_false, if_false]
  rw [← represents.cum]
  rfl

/-- The next chunk is received in two of the lists, and all of them follow the cumulative TSN. -/
theorem RepresentsKinds.updateNext (represents : RepresentsKinds list kinds)
    (contained : Contained kinds) (tsnIsRevokable : Bool)
    (receives : Receives (list.kind tsnIsRevokable) (kinds.cum + 1) kinds.cum
      (kinds.kind tsnIsRevokable))
    (receivesCombined : Receives list.CombinedGapList (kinds.cum + 1) kinds.cum kinds.combined) :
    ∃ updated, list.updateGapList (tsn (kinds.cum + 1)) tsnIsRevokable = .ok updated ∧
      RepresentsKinds updated.list (kinds.update (kinds.cum + 1) tsnIsRevokable) := by
  have near : Near kinds.cum (kinds.cum + 1) := ⟨by omega, by omega⟩
  have room : RoomToErase (kinds.cum + 1) kinds.revokable := by
    refine .inr fun member => ?_
    have := contained.revokable.beyond _ member
    exact Nat.lt_irrefl _ this
  obtain ⟨revokable, nonRevokable, new, updated, revokableFollows, nonRevokableFollows⟩ :=
    represents.updateKind contained near receives fun _ => room
  obtain ⟨combined, newCombined, combinedUpdated, combinedFollows⟩ := receivesCombined
  have advances : receive (kinds.cum + 1) kinds.cum kinds.combined =
      advance kinds.cum kinds.combined := if_pos rfl
  have more := contained.combined.advance.1
  have close := contained.combined.advance_near
  obtain ⟨revokableOld, nonRevokableOld⟩ := contained.mem_updateKind tsnIsRevokable
  obtain ⟨revokable, revokableForwarded, revokableFollows⟩ :=
    RepresentsKinds.follow revokableFollows contained fun s member => ⟨_, rfl,
      contained.inside _ (.inl (contained.revokable.start_holds (revokableOld s member)))⟩
  obtain ⟨nonRevokable, nonRevokableForwarded, nonRevokableFollows⟩ :=
    RepresentsKinds.follow nonRevokableFollows contained fun s member => ⟨_, rfl,
      contained.inside _ (.inr (contained.nonRevokable.start_holds (nonRevokableOld s member)))⟩
  rw [advances] at combinedUpdated combinedFollows
  rw [SctpGapList.updateGapList, GapKinds.update, if_neg (by omega), updated, ok_bind,
    represents.cum]
  simp only [combinedUpdated, ok_bind, advances]
  rw [if_pos (by rw [ne_eq, tsn_inj (by omega) (by omega)]; omega), if_neg (by omega),
    revokableForwarded, ok_bind, nonRevokableForwarded, ok_bind]
  exact ⟨_, rfl, rfl, revokableFollows, nonRevokableFollows, combinedFollows⟩

theorem RepresentsKinds.updateGapList (represents : RepresentsKinds list kinds)
    (parted : Parted kinds fixed passed)
    (keeps : (KindCall.updateGapList t tsnIsRevokable).Keeps kinds fixed) :
    ∃ next, list.apply (.updateGapList t tsnIsRevokable) = .ok next ∧
      RepresentsKinds next (kinds.update t tsnIsRevokable) := by
  obtain ⟨near, passes, apart⟩ := keeps
  have contained := parted.contained
  rw [SctpGapList.apply]
  by_cases behind : t ≤ kinds.cum
  · rw [represents.updateBehind near behind, ok_bind, GapKinds.update, if_pos behind]
    exact ⟨list, rfl, represents⟩
  have beyond : kinds.cum < t := Nat.not_le.mp behind
  obtain ⟨kindPasses, combinedPasses⟩ := passes beyond
  have receives := receives_of_passes (represents.kind tsnIsRevokable)
    (contained.kind tsnIsRevokable) near beyond kindPasses
  have receivesCombined :=
    receives_of_passes represents.combined contained.combined near beyond combinedPasses
  by_cases next : t = kinds.cum + 1
  · subst next
    obtain ⟨updated, updatedOk, follows⟩ :=
      represents.updateNext contained tsnIsRevokable receives receivesCombined
    rw [updatedOk, ok_bind]
    exact ⟨_, rfl, follows⟩
  · obtain ⟨revokable, nonRevokable, new, updated, revokableFollows, nonRevokableFollows⟩ :=
      represents.updateKind contained near receives (apart (by omega)).2.1
    obtain ⟨combined, newCombined, combinedUpdated, combinedFollows⟩ := receivesCombined
    have stays : (receive t kinds.cum kinds.combined).1 = kinds.cum := by
      rw [receive, if_neg next]
    have cum : (kinds.updateKind t tsnIsRevokable).cum = kinds.cum := by
      rw [GapKinds.updateKind]
      split <;> rfl
    rw [SctpGapList.updateGapList, GapKinds.update, if_neg behind, updated, ok_bind,
      represents.cum]
    simp only [combinedUpdated, ok_bind, stays]
    rw [if_neg (by simp), if_pos trivial]
    exact ⟨_, rfl, by rw [cum], revokableFollows, nonRevokableFollows, combinedFollows⟩

/-- There is never a block right behind the cumulative TSN. -/
theorem RepresentsKinds.tryToAdvance (represents : RepresentsKinds list kinds)
    (combined : Sound kinds.cum kinds.combined) : list.tryToAdvanceCumAckTsn = .ok (list, false) := by
  rw [SctpGapList.tryToAdvanceCumAckTsn, represents.cum,
    tryToAdvance_ok represents.combined combined, ok_bind]
  simp only [Bool.false_eq_true, if_false, ← represents.cum]
  rfl

/-- Each call returns, and the arrays follow the blocks. -/
theorem RepresentsKinds.apply (represents : RepresentsKinds list kinds)
    (parted : Parted kinds fixed passed) {call : KindCall} (keeps : call.Keeps kinds fixed) :
    ∃ next, list.apply call = .ok next ∧ RepresentsKinds next (kinds.apply call) := by
  cases call with
  | updateGapList t tsnIsRevokable => exact represents.updateGapList parted keeps
  | removeFromGapList t =>
    obtain ⟨near, revokableRoom, nonRevokableRoom, combinedRoom, _⟩ := keeps
    obtain ⟨revokable, revokableRemoved, revokableFollows⟩ :=
      remove_ok represents.revokable parted.revokable near revokableRoom
    obtain ⟨nonRevokable, nonRevokableRemoved, nonRevokableFollows⟩ :=
      remove_ok represents.nonRevokable parted.nonRevokable near nonRevokableRoom
    obtain ⟨combined, combinedRemoved, combinedFollows⟩ :=
      remove_ok represents.combined parted.combined near combinedRoom
    rw [SctpGapList.apply, SctpGapList.removeFromGapList, revokableRemoved, ok_bind,
      nonRevokableRemoved, ok_bind, combinedRemoved, ok_bind]
    exact ⟨_, rfl, represents.cum, revokableFollows, nonRevokableFollows, combinedFollows⟩
  | forwardCumAckTsn c =>
    have near := keeps.1
    obtain ⟨combined, combinedForwarded, combinedFollows⟩ :=
      forward_ok represents.combined c (parted.combined.comparable near)
    obtain ⟨revokable, revokableForwarded, revokableFollows⟩ :=
      forward_ok represents.revokable c (parted.revokable.comparable fun n held =>
        near n ((parted.union n).mpr (.inl held)))
    obtain ⟨nonRevokable, nonRevokableForwarded, nonRevokableFollows⟩ :=
      forward_ok represents.nonRevokable c (parted.nonRevokable.comparable fun n held =>
        near n ((parted.union n).mpr (.inr held)))
    rw [SctpGapList.apply, SctpGapList.forwardCumAckTsn, combinedForwarded, ok_bind,
      revokableForwarded, ok_bind, nonRevokableForwarded, ok_bind]
    exact ⟨_, rfl, rfl, revokableFollows, nonRevokableFollows, combinedFollows⟩
  | tryToAdvanceCumAckTsn =>
    rw [SctpGapList.apply, represents.tryToAdvance parted.combined, ok_bind]
    exact ⟨list, rfl, represents⟩
  | resetGaps newCumAck => exact ⟨_, rfl, rfl, .new, .new, .new⟩

/-! ### The lists stay apart -/

/-- What was non-revokable after a call that takes some chunks out. -/
def fixedAfter (fixed : Set Nat) (takesOut : Nat → Prop) (kinds : GapKinds) : Set Nat :=
  {n | (n ∈ fixed ∧ ¬ takesOut n) ∨ Holds kinds.nonRevokable n}

variable {next : GapKinds} {takesOut : Nat → Prop} {passes : Nat → Prop}

/-- All lists lose the same chunks. -/
theorem Parted.restrict (parted : Parted kinds fixed passed) (stays : Nat → Prop)
    (revokable : Sound next.cum next.revokable) (nonRevokable : Sound next.cum next.nonRevokable)
    (combined : Sound next.cum next.combined)
    (revokableHeld : ∀ n, Holds next.revokable n ↔ stays n ∧ Holds kinds.revokable n)
    (nonRevokableHeld : ∀ n, Holds next.nonRevokable n ↔ stays n ∧ Holds kinds.nonRevokable n)
    (combinedHeld : ∀ n, Holds next.combined n ↔ stays n ∧ Holds kinds.combined n) :
    Parted next (fixedAfter fixed takesOut next) {n | n ∈ passed ∨ passes n} where
  revokable := revokable
  nonRevokable := nonRevokable
  combined := combined
  union n := by
    rw [combinedHeld, revokableHeld, nonRevokableHeld, parted.union, and_or_left]
  becomesFixed n held := .inr held
  staysFixed n known held := by
    have old := ((revokableHeld n).mp held).2
    rcases known with ⟨known, _⟩ | both
    · exact parted.staysFixed n known old
    · exact parted.staysFixed n (parted.becomesFixed n ((nonRevokableHeld n).mp both).2) old
  wasPassed n held := .inl (parted.wasPassed n ((combinedHeld n).mp held).2)

theorem Parted.disjoint (parted : Parted kinds fixed passed)
    (held : Holds kinds.nonRevokable n) : ¬ Holds kinds.revokable n :=
  parted.staysFixed n (parted.becomesFixed n held)

theorem Parted.unchanged (parted : Parted kinds fixed passed) :
    Parted kinds (fixedAfter fixed takesOut kinds) {n | n ∈ passed ∨ passes n} :=
  parted.restrict (fun _ => True) parted.revokable parted.nonRevokable parted.combined
    (fun n => by simp only [true_and]) (fun n => by simp only [true_and])
    fun n => by simp only [true_and]

theorem Parted.forwardCumAckTsn (parted : Parted kinds fixed passed)
    (keeps : (KindCall.forwardCumAckTsn c).Keeps kinds fixed) :
    Parted (kinds.apply (.forwardCumAckTsn c))
      (fixedAfter fixed takesOut (kinds.apply (.forwardCumAckTsn c)))
      {n | n ∈ passed ∨ passes n} := by
  obtain ⟨near, within, parts⟩ := keeps
  have combinedWithin (n : Nat) (held : Holds kinds.combined n) := (near n held).2
  -- the next chunk is in a block that is dropped, and in the same block as the chunk itself
  have kindWithin (blocks others : List (Span Nat))
      (inside : ∀ n, Holds blocks n → Holds kinds.combined n ∧ ¬ Holds others n)
      (parts : ∀ n, HoldsFrom kinds.combined c n →
        HoldsFrom blocks c n ∨ HoldsFrom others c n)
      (next : Holds blocks (c + 1)) : Holds blocks c := by
    obtain ⟨held, apart⟩ := inside _ next
    have both : HoldsFrom kinds.combined c (c + 1) := by
      intro m le behind
      rcases Nat.lt_or_eq_of_le behind with before | rfl
      · obtain rfl : m = c := by omega
        exact within held
      · exact held
    rcases parts _ both with here | there
    · exact here c (Nat.le_refl c) (Nat.le_succ c)
    · exact absurd (there _ (Nat.le_succ c) (Nat.le_refl _)) apart
  have revokableInside (n : Nat) (held : Holds kinds.revokable n) :
      Holds kinds.combined n ∧ ¬ Holds kinds.nonRevokable n :=
    ⟨(parted.union n).mpr (.inl held), fun both => parted.disjoint both held⟩
  have nonRevokableInside (n : Nat) (held : Holds kinds.nonRevokable n) :
      Holds kinds.combined n ∧ ¬ Holds kinds.revokable n :=
    ⟨(parted.union n).mpr (.inr held), parted.disjoint held⟩
  obtain ⟨combined, combinedHeld⟩ := parted.combined.forward combinedWithin within
  obtain ⟨revokable, revokableHeld⟩ := parted.revokable.forward
    (fun n held => combinedWithin n (revokableInside n held).1)
    (kindWithin _ _ revokableInside fun n => (parts n).mp)
  obtain ⟨nonRevokable, nonRevokableHeld⟩ := parted.nonRevokable.forward
    (fun n held => combinedWithin n (nonRevokableInside n held).1)
    (kindWithin _ _ nonRevokableInside fun n all => ((parts n).mp all).symm)
  refine parted.restrict (fun n => c < n ∧ ¬ HoldsFrom kinds.combined c n) revokable nonRevokable
    combined (fun n => ?_) (fun n => ?_) fun n => ?_
  · refine (revokableHeld n).trans ?_
    rw [parts]
    constructor
    · rintro ⟨low, held, apart⟩
      refine ⟨⟨low, fun all => all.elim apart fun all => ?_⟩, held⟩
      exact (revokableInside n held).2 (all n (Nat.le_of_lt low) (Nat.le_refl n))
    · exact fun ⟨⟨low, apart⟩, held⟩ => ⟨low, held, fun all => apart (.inl all)⟩
  · refine (nonRevokableHeld n).trans ?_
    rw [parts]
    constructor
    · rintro ⟨low, held, apart⟩
      refine ⟨⟨low, fun all => all.elim (fun all => ?_) apart⟩, held⟩
      exact (nonRevokableInside n held).2 (all n (Nat.le_of_lt low) (Nat.le_refl n))
    · exact fun ⟨⟨low, apart⟩, held⟩ => ⟨low, held, fun all => apart (.inr all)⟩
  · refine (combinedHeld n).trans ?_
    constructor
    · exact fun ⟨low, held, apart⟩ => ⟨⟨low, apart⟩, held⟩
    · exact fun ⟨⟨low, apart⟩, held⟩ => ⟨low, held, apart⟩

/-- A list of one kind is forwarded to where the combined list advances to, whether it advanced
itself or not. -/
theorem Sound.settle {all : List (Span Nat)} (combined : Sound cum all) (sound : Sound cum blocks)
    (inside : ∀ n, Holds blocks n → Holds all n) {updated : List (Span Nat)}
    (update : updated = (Sctp.advance cum blocks).2 ∨ updated = blocks) :
    Sound (Sctp.advance cum all).1
        (SpanList.dropBelow ((Sctp.advance cum all).1 + 1) updated) ∧
      ∀ n, Holds (SpanList.dropBelow ((Sctp.advance cum all).1 + 1) updated) n ↔
        (Sctp.advance cum all).1 < n ∧ Holds blocks n := by
  obtain ⟨more, _, covers⟩ := combined.advance
  obtain ⟨held, gap⟩ := combined.holds_advance
  obtain ⟨_, blocksSound, blocksCovers⟩ := sound.advance
  obtain ⟨blocksHeld, blocksGap⟩ := sound.holds_advance
  have near (n : Nat) (old : Holds blocks n) : n < (Sctp.advance cum all).1 + 2 ^ 31 := by
    have := (sound.holds_beyond old).2
    omega
  rcases update with rfl | rfl
  · -- the list of the kind cannot advance past the gap of the combined one
    have le : (Sctp.advance cum blocks).1 ≤ (Sctp.advance cum all).1 := by
      by_contra further
      rcases (blocksCovers ((Sctp.advance cum all).1 + 1)).mp (.inl (by omega)) with
        same | low | old
      · omega
      · omega
      · exact gap (inside _ old)
    obtain ⟨forwarded, forwardedHeld⟩ := blocksSound.forward_gap
      (fun n left => near n ((blocksHeld n).mp left).2)
      fun left => gap (inside _ ((blocksHeld _).mp left).2)
    refine ⟨forwarded, fun n => ?_⟩
    rw [forwardedHeld, blocksHeld]
    constructor
    · exact fun ⟨beyond, _, old⟩ => ⟨beyond, old⟩
    · exact fun ⟨beyond, old⟩ => ⟨beyond, by omega, old⟩
  · exact sound.forward_gap near fun old => gap (inside _ old)

theorem updateKind_next (represents : RepresentsKinds list kinds)
    (contained : Contained kinds) (tsnIsRevokable : Bool) :
    ((kinds.updateKind (kinds.cum + 1) tsnIsRevokable).revokable =
          (advance kinds.cum kinds.revokable).2 ∨
        (kinds.updateKind (kinds.cum + 1) tsnIsRevokable).revokable = kinds.revokable) ∧
      ((kinds.updateKind (kinds.cum + 1) tsnIsRevokable).nonRevokable =
          (advance kinds.cum kinds.nonRevokable).2 ∨
        (kinds.updateKind (kinds.cum + 1) tsnIsRevokable).nonRevokable = kinds.nonRevokable) := by
  rw [GapKinds.updateKind]
  cases tsnIsRevokable with
  | true =>
    simp only [if_true, receive, true_or, or_true, and_self]
  | false =>
    have outside : ¬ Holds kinds.revokable (kinds.cum + 1) := fun held =>
      Nat.lt_irrefl _ (contained.revokable.holds_beyond held).1
    simp only [Bool.false_eq_true, if_false, receive, if_true, erase_of_not_holds outside,
      List.take_of_length_le represents.revokable.fits, true_or, or_true, and_self]

/-- After the next chunk all lists are those parts of the lists before that are behind the new
cumulative TSN. -/
theorem Contained.updateNext (represents : RepresentsKinds list kinds)
    (contained : Contained kinds) (tsnIsRevokable : Bool)
    {next : GapKinds} (updated : next = kinds.update (kinds.cum + 1) tsnIsRevokable) :
    kinds.cum < next.cum ∧ Contained next ∧
      (∀ n, Holds next.revokable n ↔ next.cum < n ∧ Holds kinds.revokable n) ∧
      (∀ n, Holds next.nonRevokable n ↔ next.cum < n ∧ Holds kinds.nonRevokable n) ∧
      (∀ n, Holds next.combined n ↔ next.cum < n ∧ Holds kinds.combined n) ∧
      ∀ n, n ≤ next.cum → n ≤ kinds.cum + 1 ∨ Holds kinds.combined n := by
  have advances : receive (kinds.cum + 1) kinds.cum kinds.combined =
      advance kinds.cum kinds.combined := if_pos rfl
  obtain ⟨more, combined, covers⟩ := contained.combined.advance
  obtain ⟨combinedHeld, _⟩ := contained.combined.holds_advance
  obtain ⟨revokableNext, nonRevokableNext⟩ := updateKind_next represents contained tsnIsRevokable
  obtain ⟨revokable, revokableHeld⟩ := contained.combined.settle contained.revokable
    (fun n held => contained.inside n (.inl held)) revokableNext
  obtain ⟨nonRevokable, nonRevokableHeld⟩ := contained.combined.settle contained.nonRevokable
    (fun n held => contained.inside n (.inr held)) nonRevokableNext
  have settled : next = { (kinds.updateKind (kinds.cum + 1) tsnIsRevokable).settle
      (advance kinds.cum kinds.combined).1 with
        combined := (advance kinds.cum kinds.combined).2 } := by
    rw [updated, GapKinds.update, if_neg (by omega)]
    simp only [advances]
    rw [if_neg (by omega)]
  subst settled
  refine ⟨more, ⟨revokable, nonRevokable, combined, fun n held => ?_⟩, revokableHeld,
    nonRevokableHeld, combinedHeld, fun n behind => ?_⟩
  · refine (combinedHeld n).mpr ?_
    rcases held with held | held
    · obtain ⟨beyond, old⟩ := (revokableHeld n).mp held
      exact ⟨beyond, contained.inside n (.inl old)⟩
    · obtain ⟨beyond, old⟩ := (nonRevokableHeld n).mp held
      exact ⟨beyond, contained.inside n (.inr old)⟩
  · rcases (covers n).mp (.inl behind) with same | low | old
    · exact .inl (Nat.le_of_eq same)
    · exact .inl (Nat.le_succ_of_le low)
    · exact .inr old

theorem Parted.updateNext (represents : RepresentsKinds list kinds)
    (parted : Parted kinds fixed passed) (tsnIsRevokable : Bool) :
    Parted (kinds.update (kinds.cum + 1) tsnIsRevokable)
      (fixedAfter fixed takesOut (kinds.update (kinds.cum + 1) tsnIsRevokable))
      {n | n ∈ passed ∨ passes n} := by
  obtain ⟨_, next, revokableHeld, nonRevokableHeld, combinedHeld, _⟩ :=
    parted.contained.updateNext represents tsnIsRevokable rfl
  exact parted.restrict _ next.revokable next.nonRevokable next.combined revokableHeld
    nonRevokableHeld combinedHeld

/-- What a full list keeps of a chunk that is put in. -/
theorem holds_insert_take (sound : Sound cum blocks) :
    Holds ((SpanList.insert t blocks).take MAX_GAP_COUNT) n ↔
      (n = t ∨ Holds blocks n) ∧ ¬ Lost (SpanList.insert t blocks) n := by
  rw [holds_take_iff (spaced_insert sound.spaced), holds_insert sound.spaced]
  rfl

theorem holds_erase_take (sound : Sound cum blocks) :
    Holds ((erase t blocks).take MAX_GAP_COUNT) n ↔
      (n ≠ t ∧ Holds blocks n) ∧ ¬ Lost (erase t blocks) n := by
  rw [holds_take_iff (spaced_erase sound.spaced), holds_erase sound.spaced]
  rfl

theorem lost_holds (lost : Lost blocks n) : Holds blocks n := by
  obtain ⟨s, member, inside⟩ := lost
  exact ⟨s, List.mem_of_mem_drop member, inside⟩

theorem Sound.insert_take (sound : Sound cum blocks) (near : Near cum t) (beyond : cum + 1 < t) :
    Sound cum ((SpanList.insert t blocks).take MAX_GAP_COUNT) := by
  refine .of_holds (spaced_take (spaced_insert sound.spaced) _) fun n held => ?_
  rcases ((holds_insert_take sound).mp held).1 with rfl | old
  · exact ⟨beyond, near.1⟩
  · exact sound.holds_beyond old

theorem Sound.erase_take (sound : Sound cum blocks) :
    Sound cum ((SpanList.erase t blocks).take MAX_GAP_COUNT) :=
  .of_holds (spaced_take (spaced_erase sound.spaced) _) fun _ held =>
    sound.holds_beyond ((holds_erase_take sound).mp held).1.2

theorem Parted.removeFromGapList (parted : Parted kinds fixed passed)
    (keeps : (KindCall.removeFromGapList t).Keeps kinds fixed) :
    Parted (kinds.apply (.removeFromGapList t))
      (fixedAfter fixed takesOut (kinds.apply (.removeFromGapList t)))
      {n | n ∈ passed ∨ passes n} := by
  obtain ⟨_, _, _, _, lost⟩ := keeps
  have revokable (n : Nat) := holds_erase_take (t := t) parted.revokable (n := n)
  have nonRevokable (n : Nat) := holds_erase_take (t := t) parted.nonRevokable (n := n)
  have combined (n : Nat) := holds_erase_take (t := t) parted.combined (n := n)
  have revokableLost (n : Nat) (gone : Lost (erase t kinds.revokable) n) :=
    ((holds_erase parted.revokable.spaced).mp (lost_holds gone)).2
  have nonRevokableLost (n : Nat) (gone : Lost (erase t kinds.nonRevokable) n) :=
    ((holds_erase parted.nonRevokable.spaced).mp (lost_holds gone)).2
  refine ⟨parted.revokable.erase_take, parted.nonRevokable.erase_take,
    parted.combined.erase_take, fun n => ?_, fun n => .inr, fun n known held => ?_,
    fun n held => .inl (parted.wasPassed n ((combined n).mp held).1.2)⟩
  · have union := parted.union n
    have disjoint := parted.disjoint (n := n)
    have same := lost n
    have revokableLost := revokableLost n
    have nonRevokableLost := nonRevokableLost n
    simp only [GapKinds.apply, revokable, nonRevokable, combined, same, union]
    constructor
    · rintro ⟨⟨other, old | old⟩, kept⟩
      · exact .inl ⟨⟨other, old⟩, fun gone => kept (.inl gone)⟩
      · exact .inr ⟨⟨other, old⟩, fun gone => kept (.inr gone)⟩
    · rintro (⟨⟨other, old⟩, kept⟩ | ⟨⟨other, old⟩, kept⟩)
      · refine ⟨⟨other, .inl old⟩, fun gone => gone.elim kept fun gone => ?_⟩
        exact disjoint (nonRevokableLost gone) old
      · refine ⟨⟨other, .inr old⟩, fun gone => gone.elim (fun gone => ?_) kept⟩
        exact disjoint old (revokableLost gone)
  · have old := ((revokable n).mp held).1.2
    rcases known with ⟨known, _⟩ | both
    · exact parted.staysFixed n known old
    · exact parted.disjoint ((nonRevokable n).mp both).1.2 old

/-- A chunk behind a gap is put into the combined list and into one of the others. -/
theorem Parted.receive (parted : Parted kinds fixed passed)
    (keeps : (KindCall.updateGapList t tsnIsRevokable).Keeps kinds fixed)
    (beyond : kinds.cum + 1 < t) (takesOut : Nat → Prop) :
    Parted (kinds.update t tsnIsRevokable)
      (fixedAfter fixed takesOut (kinds.update t tsnIsRevokable))
      {n | n ∈ passed ∨ n = t} := by
  obtain ⟨near, _, apart⟩ := keeps
  obtain ⟨notFixed, _, lost⟩ := apart beyond
  have received (blocks : List (Span Nat)) : Sctp.receive t kinds.cum blocks =
      (kinds.cum, (SpanList.insert t blocks).take MAX_GAP_COUNT) := if_neg (by omega)
  have combined (n : Nat) := holds_insert_take (t := t) parted.combined (n := n)
  have updated : kinds.update t tsnIsRevokable = { kinds.updateKind t tsnIsRevokable with
      combined := (SpanList.insert t kinds.combined).take MAX_GAP_COUNT } := by
    rw [GapKinds.update, if_neg (by omega)]
    simp only [received, if_true]
  have wasPassed (n : Nat)
      (held : Holds ((SpanList.insert t kinds.combined).take MAX_GAP_COUNT) n) :
      n ∈ passed ∨ n = t := by
    rcases ((combined n).mp held).1 with same | old
    · exact .inr same
    · exact .inl (parted.wasPassed n old)
  rw [updated, GapKinds.updateKind]
  cases tsnIsRevokable with
  | true =>
    have notFixed := notFixed rfl
    simp only [GapKinds.kind, if_true, reduceCtorEq, false_and, or_false] at lost
    simp only [if_true, received]
    have revokable (n : Nat) := holds_insert_take (t := t) parted.revokable (n := n)
    have revokableLost (n : Nat) (gone : Lost (SpanList.insert t kinds.revokable) n) :=
      (holds_insert parted.revokable.spaced).mp (lost_holds gone)
    refine ⟨parted.revokable.insert_take near beyond, parted.nonRevokable,
      parted.combined.insert_take near beyond, fun n => ?_, fun n => .inr, fun n known held => ?_,
      wasPassed⟩
    · have union := parted.union n
      have disjoint := parted.disjoint (n := n)
      have revokableLost := revokableLost n
      have other (held : Holds kinds.nonRevokable n) : n ≠ t := by
        rintro rfl
        exact notFixed (parted.becomesFixed n held)
      simp only [revokable, combined, lost, union]
      constructor
      · rintro ⟨same | old | old, kept⟩
        · exact .inl ⟨.inl same, kept⟩
        · exact .inl ⟨.inr old, kept⟩
        · exact .inr old
      · rintro (⟨here, kept⟩ | old)
        · exact ⟨here.imp_right .inl, kept⟩
        · refine ⟨.inr (.inr old), fun gone => ?_⟩
          exact disjoint old ((revokableLost gone).resolve_left (other old))
    · have wasFixed : n ∈ fixed := known.elim (fun known => known.1) (parted.becomesFixed n)
      rcases ((revokable n).mp held).1 with rfl | old
      · exact notFixed wasFixed
      · exact parted.staysFixed n wasFixed old
  | false =>
    simp only [GapKinds.kind, Bool.false_eq_true, if_false, true_and] at lost
    simp only [Bool.false_eq_true, if_false, received]
    have nonRevokable (n : Nat) := holds_insert_take (t := t) parted.nonRevokable (n := n)
    have revokable (n : Nat) := holds_erase_take (t := t) parted.revokable (n := n)
    have nonRevokableLost (n : Nat) (gone : Lost (SpanList.insert t kinds.nonRevokable) n) :=
      (holds_insert parted.nonRevokable.spaced).mp (lost_holds gone)
    have revokableLost (n : Nat) (gone : Lost (erase t kinds.revokable) n) :=
      (holds_erase parted.revokable.spaced).mp (lost_holds gone)
    refine ⟨parted.revokable.erase_take, parted.nonRevokable.insert_take near beyond,
      parted.combined.insert_take near beyond, fun n => ?_, fun n => .inr, fun n known held => ?_,
      wasPassed⟩
    · have union := parted.union n
      have disjoint := parted.disjoint (n := n)
      have revokableLost := revokableLost n
      have nonRevokableLost := nonRevokableLost n
      simp only [revokable, nonRevokable, combined, lost, union]
      -- what one list loses is in no other list
      constructor
      · rintro ⟨same | old | old, kept⟩
        · exact .inr ⟨.inl same, fun gone => kept (.inl gone)⟩
        · by_cases same : n = t
          · exact .inr ⟨.inl same, fun gone => kept (.inl gone)⟩
          · exact .inl ⟨⟨same, old⟩, fun gone => kept (.inr gone)⟩
        · exact .inr ⟨.inr old, fun gone => kept (.inl gone)⟩
      · rintro (⟨⟨other, old⟩, kept⟩ | ⟨here, kept⟩)
        · refine ⟨.inr (.inl old), fun gone => gone.elim (fun gone => ?_) kept⟩
          exact disjoint ((nonRevokableLost gone).resolve_left other) old
        · refine ⟨here.imp_right .inr, fun gone => gone.elim kept fun gone => ?_⟩
          obtain ⟨other, old⟩ := revokableLost gone
          exact disjoint (here.resolve_left other) old
    · obtain ⟨other, old⟩ := ((revokable n).mp held).1
      rcases known with ⟨known, _⟩ | both
      · exact parted.staysFixed n known old
      · exact parted.disjoint ((((nonRevokable n).mp both).1).resolve_left other) old

/-- Each call keeps the lists apart. -/
theorem Parted.apply (represents : RepresentsKinds list kinds) (parted : Parted kinds fixed passed)
    {call : KindCall} (keeps : call.Keeps kinds fixed) :
    Parted (kinds.apply call) (fixedAfter fixed (fun n => call.TakesOut n) (kinds.apply call))
      {n | n ∈ passed ∨ call.Passes n} := by
  cases call with
  | updateGapList t tsnIsRevokable =>
    rcases Nat.lt_trichotomy t (kinds.cum + 1) with behind | rfl | beyond
    · have unchanged : kinds.apply (.updateGapList t tsnIsRevokable) = kinds :=
        if_pos (Nat.le_of_lt_succ behind)
      rw [unchanged]
      exact parted.unchanged
    · exact parted.updateNext represents tsnIsRevokable
    · exact parted.receive keeps beyond _
  | removeFromGapList t => exact parted.removeFromGapList keeps
  | forwardCumAckTsn c => exact parted.forwardCumAckTsn keeps
  | tryToAdvanceCumAckTsn => exact parted.unchanged
  | resetGaps newCumAck =>
    have empty : Sound newCumAck [] := ⟨spaced_nil, nofun, nofun⟩
    exact parted.restrict (fun _ => False) empty empty empty
      (fun n => by simp [GapKinds.apply]) (fun n => by simp [GapKinds.apply])
      fun n => by simp [GapKinds.apply]

variable {initial : Nat}

theorem KindsReached.parted (reached : KindsReached initial list kinds fixed passed) :
    RepresentsKinds list kinds ∧ Parted kinds fixed passed := by
  induction reached with
  | init returned =>
    obtain ⟨_, _, returned⟩ := bind_eq_ok.mp returned
    cases returned
    have empty : Sound initial [] := ⟨spaced_nil, nofun, nofun⟩
    exact ⟨⟨rfl, .new, .new, .new⟩, empty, empty, empty, by simp, by simp, by simp, by simp⟩
  | step earlier call keeps returned ih =>
    obtain ⟨represents, parted⟩ := ih
    obtain ⟨next, applied, follows⟩ := represents.apply parted keeps
    rw [applied] at returned
    cases returned
    exact ⟨follows, parted.apply represents keeps⟩

/-- As long as calls keep the lists apart, the checks of all lists succeed, a chunk is found in the
combined list if and only if it is found in one of the two others, and in only one of them. What is
found lies beyond the cumulative TSN and was passed to `updateGapList`, and what was non-revokable
is not revokable again. The next call returns. -/
theorem kinds_part (reached : KindsReached initial list kinds fixed passed) :
    list.check = .ok () ∧ list.CumAckTsn = tsn kinds.cum ∧
      (∀ n, InReach kinds.cum n → ∃ revokable nonRevokable : Bool,
        list.tsnIsRevokable (tsn n) = .ok revokable ∧
        list.tsnIsNonRevokable (tsn n) = .ok nonRevokable ∧
        list.tsnInGapList (tsn n) = .ok (revokable || nonRevokable) ∧
        (revokable && nonRevokable) = false ∧
        ((revokable || nonRevokable) = true → kinds.cum < n ∧ n ∈ passed) ∧
        (n ∈ fixed → revokable = false)) ∧
      ∀ call : KindCall, call.Keeps kinds fixed → ∃ next, list.apply call = .ok next := by
  obtain ⟨represents, parted⟩ := reached.parted
  refine ⟨?_, represents.cum, fun n near => ?_, ?_⟩
  · rw [SctpGapList.check, represents.cum, check_ok represents.combined parted.combined, ok_bind,
      check_ok represents.revokable parted.revokable, ok_bind,
      check_ok represents.nonRevokable parted.nonRevokable]
  · refine ⟨decide (Holds kinds.revokable n), decide (Holds kinds.nonRevokable n),
      tsnInGapList_ok represents.revokable parted.revokable near,
      tsnInGapList_ok represents.nonRevokable parted.nonRevokable near, ?_, ?_, fun held => ?_, ?_⟩
    · rw [SctpGapList.tsnInGapList, tsnInGapList_ok represents.combined parted.combined near]
      simp [parted.union]
    · have disjoint := parted.disjoint (n := n)
      simpa [imp_not_comm] using disjoint
    · have held : Holds kinds.combined n := (parted.union n).mpr (by simpa using held)
      have beyond := (parted.combined.holds_beyond held).1
      exact ⟨by omega, parted.wasPassed n held⟩
    · intro known
      simpa using parted.staysFixed n known
  · intro call keeps
    obtain ⟨next, applied, _⟩ := represents.apply parted keeps
    exact ⟨next, applied⟩

/-- A chunk is received as a revokable one. -/
theorem kinds_part_revokable : ∃ list kinds passed, KindsReached 10 list kinds ∅ passed ∧
    list.check = .ok () := by
  have start : KindsReached 10 { SctpGapList.new with CumAckTsn := tsn 10 } ⟨10, [], [], []⟩ ∅ ∅ :=
    .init rfl
  have small (n : Nat) : ¬ Lost [⟨12, 13⟩] n := by simp [Lost, MAX_GAP_COUNT]
  have keeps : (KindCall.updateGapList 12 true).Keeps ⟨10, [], [], []⟩ ∅ :=
    ⟨⟨by decide, by decide⟩, fun _ => ⟨nofun, nofun⟩, fun _ =>
      ⟨fun _ => Set.notMem_empty 12, nofun, fun n => by
        simp [GapKinds.kind, SpanList.insert, small]⟩⟩
  obtain ⟨next, applied, _⟩ := start.parted.1.apply start.parted.2 keeps
  have reached := start.step _ keeps applied
  have none : {n | (n ∈ (∅ : Set Nat) ∧ ¬ (KindCall.updateGapList 12 true).TakesOut n) ∨
      Holds ((GapKinds.mk 10 [] [] []).apply (.updateGapList 12 true)).nonRevokable n} = ∅ := by
    ext n
    simp [GapKinds.apply, GapKinds.update, GapKinds.updateKind, receive]
  rw [none] at reached
  exact ⟨next, _, _, reached, (kinds_part reached).1⟩

/-- The chunk is received as a non-revokable one, and then as a revokable one. -/
def revokedAgain : Except GapError SctpGapList := do
  let list ← SctpGapList.new.setInitialCumAckTsn (tsn 10)
  let list ← list.apply (.updateGapList 12 false)
  list.apply (.updateGapList 12 true)

theorem revokedAgain_both : ∃ list, revokedAgain = .ok list ∧
    list.tsnIsRevokable (tsn 12) = .ok true ∧ list.tsnIsNonRevokable (tsn 12) = .ok true := by
  refine ⟨_, rfl, ?_, ?_⟩ <;> decide +kernel

end Inet.Sctp
