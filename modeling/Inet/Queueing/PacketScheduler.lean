import Mathlib.Order.Fin.Basic
import Inet.Lib.Except
import Inet.Lib.FirstMatch

/-!
# Packet schedulers

A scheduler says which packet it would give next, and gives one. What it would give is found in the
same way for every scheduler; what it gives is chosen by each kind of scheduler on its own.
-/
namespace Inet

open Lib

/-- The packets that wait at the inputs of a scheduler, each at one of them. -/
structure Inputs (P : Type) (n : Nat) where
  packets : Fin n → List P
  apart : ∀ {i j p}, p ∈ packets i → p ∈ packets j → i = j

namespace Inputs

variable {P : Type} {n : Nat}

def canPullSomePacket (inputs : Inputs P n) (i : Fin n) : Bool := !(inputs.packets i).isEmpty

def canPullPacket (inputs : Inputs P n) (i : Fin n) : Option P := (inputs.packets i).head?

def removeFirst (i : Fin n) (inputs : Inputs P n) : Inputs P n where
  packets j := if j = i then (inputs.packets j).tail else inputs.packets j
  apart {j k p} first second := by
    have member {l : Fin n} (there : p ∈ if l = i then (inputs.packets l).tail else
        inputs.packets l) : p ∈ inputs.packets l := by
      split at there
      · exact List.mem_of_mem_tail there
      · exact there
    exact inputs.apart (member first) (member second)

def pullPacket (i : Fin n) (inputs : Inputs P n) : Except String (P × Inputs P n) :=
  match inputs.canPullPacket i with
  | none => throw "check_and_cast(): Cannot cast nullptr to type 'inet::Packet *'"
  | some packet => return (packet, inputs.removeFirst i)

/-- A packet that is not at an input arrives at one. -/
def insert [DecidableEq P] (i : Fin n) (position : Nat) (packet : P) (inputs : Inputs P n) :
    Inputs P n :=
  if fresh : ∀ j, packet ∉ inputs.packets j then
    { packets j := if j = i then
        (inputs.packets j).take position ++ packet :: (inputs.packets j).drop position
        else inputs.packets j
      apart {j k p} first second := by
        have member {l : Fin n} (there : p ∈ if l = i then
            (inputs.packets l).take position ++ packet :: (inputs.packets l).drop position
            else inputs.packets l) : p ∈ inputs.packets l ∨ p = packet ∧ l = i := by
          split at there
          · next here =>
            rcases List.mem_append.mp there with before | there
            · exact .inl (List.mem_of_mem_take before)
            · rcases List.mem_cons.mp there with same | after
              · exact .inr ⟨same, here⟩
              · exact .inl (List.mem_of_mem_drop after)
          · exact .inl there
        rcases member first with first | ⟨same, here⟩ <;>
          rcases member second with second | ⟨same', here'⟩
        · exact inputs.apart first second
        · exact absurd (same' ▸ first) (fresh j)
        · exact absurd (same ▸ second) (fresh k)
        · rw [here, here'] }
  else inputs

end Inputs

/-- What all schedulers have, and the state of a kind of scheduler. -/
structure PacketSchedulerBase (S P : Type) (n : Nat) where
  reverseOrder : Bool
  inputs : Inputs P n
  inProgressStreamId : Int := -1
  inProgressGateIndex : Int := -1
  state : S

namespace PacketSchedulerBase

variable {S P : Type} {n : Nat}

def getInputGateIndex (scheduler : PacketSchedulerBase S P n) (i : Fin n) : Fin n :=
  if scheduler.reverseOrder then i.rev else i

variable (schedulePacket : PacketSchedulerBase S P n → Int × S)

def callSchedulePacket (scheduler : PacketSchedulerBase S P n) :
    Except String (Fin n × PacketSchedulerBase S P n) :=
  let (index, state) := schedulePacket scheduler
  if valid : 0 ≤ index ∧ index < n then
    return (⟨index.toNat, by omega⟩, { scheduler with state })
  else throw s!"Scheduled packet from invalid input gate: {index}"

/-- Another packet must not be on its way. -/
def checkPacketStreaming (scheduler : PacketSchedulerBase S P n) : Except String Unit :=
  if scheduler.inProgressStreamId ≠ -1 then
    throw "Another packet streaming operation is already in progress"
  else return

def canPullSomePacket (scheduler : PacketSchedulerBase S P n) : Bool :=
  (List.finRange n).any scheduler.inputs.canPullSomePacket

def canPullPacket (scheduler : PacketSchedulerBase S P n) : Option P :=
  (List.finRange n).findSome? scheduler.inputs.canPullPacket

def pullPacket (scheduler : PacketSchedulerBase S P n) :
    Except String (P × PacketSchedulerBase S P n) := do
  scheduler.checkPacketStreaming
  let (index, scheduler) ← scheduler.callSchedulePacket schedulePacket
  let (packet, inputs) ← scheduler.inputs.pullPacket index
  return (packet, { scheduler with inputs })

/-- What is asked of a scheduler, and the packets that arrive. -/
inductive Call (P : Type) (n : Nat)
  | canPullSomePacket
  | canPullPacket
  | pullPacket
  | arrive (i : Fin n) (position : Nat) (packet : P)

inductive Answer (P : Type)
  | none
  | some (can : Bool)
  | packet (packet : Option P)

def handle [DecidableEq P] (scheduler : PacketSchedulerBase S P n) :
    Call P n → Except String (Answer P × PacketSchedulerBase S P n)
  | .canPullSomePacket => return (.some scheduler.canPullSomePacket, scheduler)
  | .canPullPacket => return (.packet scheduler.canPullPacket, scheduler)
  | .pullPacket => do
    let (packet, scheduler) ← scheduler.pullPacket schedulePacket
    return (.packet (some packet), scheduler)
  | .arrive i position packet =>
    return (.none, { scheduler with inputs := scheduler.inputs.insert i position packet })

/-- A scheduler gives the packet that it says it would give. -/
def Delivers (scheduler : PacketSchedulerBase S P n) : Prop :=
  ∀ packet, scheduler.canPullPacket = some packet →
    ∃ next, scheduler.pullPacket schedulePacket = .ok (packet, next)

/-- No packet is on its way. -/
structure Idle (scheduler : PacketSchedulerBase S P n) : Prop where
  stream : scheduler.inProgressStreamId = -1
  gate : scheduler.inProgressGateIndex = -1

end PacketSchedulerBase

/-! ### Kinds of schedulers -/

namespace PriorityScheduler

variable {P : Type} {n : Nat}

def schedulePacket (scheduler : PacketSchedulerBase Unit P n) : Int × Unit :=
  let scheduled := ((List.finRange n).map scheduler.getInputGateIndex).find?
    fun (inputIndex : Fin n) => (inputIndex : Int) = scheduler.inProgressGateIndex ||
      scheduler.inputs.canPullSomePacket inputIndex
  (scheduled.elim (-1) fun inputIndex => (inputIndex : Int), ())

/-- Inputs are in order of their indices, or packets wait at one of them only. -/
def Ordered (scheduler : PacketSchedulerBase Unit P n) : Prop :=
  scheduler.reverseOrder = false ∨ ∀ i j, scheduler.inputs.canPullSomePacket i = true →
    scheduler.inputs.canPullSomePacket j = true → i = j

end PriorityScheduler

/-- The weights and the tokens in the bucket of each input. -/
structure WrrScheduler (n : Nat) where
  weights : Fin n → Int
  buckets : Fin n → Int

namespace WrrScheduler

variable {P : Type} {n : Nat}

def schedulePacket (scheduler : PacketSchedulerBase (WrrScheduler n) P n) :
    Int × WrrScheduler n :=
  let { weights, buckets } := scheduler.state
  match (List.finRange n).find? fun i =>
    scheduler.inputs.canPullSomePacket i && 0 < buckets i with
  | some i => (i, { weights, buckets j := if j = i then buckets j - 1 else buckets j })
  | none =>
    let isEmpty := (List.finRange n).all fun i => !scheduler.inputs.canPullSomePacket i
    if isEmpty then (-1, { weights, buckets })
    else
      let result := (List.finRange n).find? fun i =>
        0 < weights i && scheduler.inputs.canPullSomePacket i
      (result.elim (-1) fun i => (i : Int),
        { weights, buckets j := if result = some j then weights j - 1 else weights j })

/-- The first input at which packets wait has tokens in its bucket, or it has a weight and no input
at which packets wait has tokens. -/
def Served (scheduler : PacketSchedulerBase (WrrScheduler n) P n) : Prop :=
  ∀ i, scheduler.inputs.canPullSomePacket i = true →
    (∀ j < i, scheduler.inputs.canPullSomePacket j = false) →
      0 < scheduler.state.buckets i ∨
      0 < scheduler.state.weights i ∧ ∀ j, scheduler.inputs.canPullSomePacket j = true →
        scheduler.state.buckets j ≤ 0

end WrrScheduler

/-! ### What is given -/

namespace Inputs

variable {P : Type} {n : Nat} {inputs : Inputs P n} {i : Fin n}
variable {packet : P}

theorem canPullPacket_isSome : (inputs.canPullPacket i).isSome = inputs.canPullSomePacket i := by
  unfold canPullPacket canPullSomePacket
  cases inputs.packets i <;> rfl

theorem exists_canPullPacket (some : inputs.canPullSomePacket i = true) :
    ∃ packet, inputs.canPullPacket i = .some packet :=
  Option.isSome_iff_exists.mp (canPullPacket_isSome.trans some)

/-- The first packets of two inputs differ. -/
theorem canPullPacket_inj {j : Fin n} (first : inputs.canPullPacket i = .some packet)
    (second : inputs.canPullPacket j = .some packet) : i = j :=
  inputs.apart (List.mem_of_head? first) (List.mem_of_head? second)

theorem pullPacket_eq (first : inputs.canPullPacket i = .some packet) :
    inputs.pullPacket i = .ok (packet, inputs.removeFirst i) := by
  unfold pullPacket
  rw [first]
  rfl

theorem canPullPacket_of_pullPacket {next : Inputs P n}
    (pulled : inputs.pullPacket i = .ok (packet, next)) :
    inputs.canPullPacket i = some packet ∧ next = inputs.removeFirst i := by
  unfold pullPacket at pulled
  split at pulled
  · cases pulled
  · next first =>
    cases pulled
    exact ⟨first, rfl⟩

end Inputs

namespace PacketSchedulerBase

variable {S P : Type} {n : Nat} {scheduler : PacketSchedulerBase S P n}
  {schedulePacket : PacketSchedulerBase S P n → Int × S}
variable {i : Fin n}

/-- The first input at which packets wait. -/
def FirstInput (scheduler : PacketSchedulerBase S P n) (i : Fin n) : Prop :=
  scheduler.inputs.canPullSomePacket i = true ∧
    ∀ j < i, scheduler.inputs.canPullSomePacket j = false

theorem exists_firstInput (some : ∃ i, scheduler.inputs.canPullSomePacket i = true) :
    ∃ i, scheduler.FirstInput i :=
  exists_first_finRange some

/-- A scheduler says that it would give the first packet of the first input. -/
theorem canPullPacket_eq_some {packet : P} : scheduler.canPullPacket = some packet ↔
    ∃ i, scheduler.FirstInput i ∧ scheduler.inputs.canPullPacket i = some packet := by
  unfold canPullPacket
  rw [findSome?_eq_bind, Option.bind_eq_some_iff]
  simp only [Inputs.canPullPacket_isSome, find?_finRange_eq_some, FirstInput]

theorem canPullPacket_eq_none :
    scheduler.canPullPacket = none ↔ scheduler.canPullSomePacket = false := by
  unfold canPullPacket canPullSomePacket
  rw [List.findSome?_eq_none_iff, List.any_eq_false]
  refine forall₂_congr fun i _ => ?_
  rw [← Inputs.canPullPacket_isSome]
  cases scheduler.inputs.canPullPacket i <;> simp

theorem callSchedulePacket_eq (scheduled : (schedulePacket scheduler).1 = i) :
    scheduler.callSchedulePacket schedulePacket =
      .ok (i, { scheduler with state := (schedulePacket scheduler).2 }) := by
  unfold callSchedulePacket
  dsimp only
  rw [dif_pos (by omega)]
  congr
  omega

theorem callSchedulePacket_eq_ok {next : PacketSchedulerBase S P n}
    (returned : scheduler.callSchedulePacket schedulePacket = .ok (i, next)) :
    (schedulePacket scheduler).1 = i ∧
      next = { scheduler with state := (schedulePacket scheduler).2 } := by
  unfold callSchedulePacket at returned
  dsimp only at returned
  split at returned
  · next valid =>
    cases returned
    exact ⟨(Int.toNat_of_nonneg valid.1).symm, rfl⟩
  · cases returned

/-- A scheduler gives the first packet of the input that is chosen. -/
theorem pullPacket_eq_ok (idle : scheduler.Idle) {packet : P} {next : PacketSchedulerBase S P n} :
    scheduler.pullPacket schedulePacket = .ok (packet, next) ↔
      ∃ i : Fin n, (schedulePacket scheduler).1 = i ∧
        scheduler.inputs.canPullPacket i = some packet ∧ next = { scheduler with
          inputs := scheduler.inputs.removeFirst i, state := (schedulePacket scheduler).2 } := by
  have streaming : scheduler.checkPacketStreaming = .ok () :=
    if_neg (not_not.mpr idle.stream)
  unfold pullPacket
  rw [streaming, ok_bind, bind_eq_ok]
  constructor
  · rintro ⟨⟨i, _⟩, chosen, pulled⟩
    obtain ⟨scheduled, rfl⟩ := callSchedulePacket_eq_ok chosen
    obtain ⟨⟨_, _⟩, taken, same⟩ := bind_eq_ok.mp pulled
    cases same
    obtain ⟨first, rfl⟩ := Inputs.canPullPacket_of_pullPacket taken
    exact ⟨i, scheduled, first, rfl⟩
  · rintro ⟨i, scheduled, first, rfl⟩
    exact ⟨_, callSchedulePacket_eq scheduled,
      bind_eq_ok.mpr ⟨_, Inputs.pullPacket_eq first, rfl⟩⟩

/-- A scheduler gives what it says it would give if it chooses the first input. -/
theorem delivers_iff (idle : scheduler.Idle) : scheduler.Delivers schedulePacket ↔
    ∀ i, scheduler.FirstInput i → (schedulePacket scheduler).1 = i := by
  constructor
  · intro delivers i first
    obtain ⟨packet, waiting⟩ := Inputs.exists_canPullPacket first.1
    obtain ⟨next, pulled⟩ := delivers packet (canPullPacket_eq_some.mpr ⟨i, first, waiting⟩)
    obtain ⟨j, scheduled, waiting', _⟩ := (pullPacket_eq_ok idle).mp pulled
    rw [Inputs.canPullPacket_inj waiting waiting', scheduled]
  · intro chooses packet announced
    obtain ⟨i, first, waiting⟩ := canPullPacket_eq_some.mp announced
    exact ⟨_, (pullPacket_eq_ok idle).mpr ⟨i, chooses i first, waiting, rfl⟩⟩

end PacketSchedulerBase

/-! ### What is chosen -/

theorem elim_eq_index {n : Nat} {index : Option (Fin n)} {i : Fin n} :
    (index.elim (-1) fun j => (j : Int)) = i ↔ index = some i := by
  cases index with
  | none => exact ⟨fun negative => absurd negative (by simp only [Option.elim_none]; omega), nofun⟩
  | some j =>
    rw [Option.elim_some, Option.some_inj]
    exact ⟨fun same => Fin.ext (by omega), fun same => by rw [same]⟩

namespace PriorityScheduler

variable {P : Type} {n : Nat} {scheduler : PacketSchedulerBase Unit P n}
variable {i : Fin n}

theorem schedulePacket_eq (idle : scheduler.Idle) :
    (schedulePacket scheduler).1 = i ↔
      ((List.finRange n).map scheduler.getInputGateIndex).find?
        scheduler.inputs.canPullSomePacket = some i := by
  have same : (fun inputIndex : Fin n => decide ((inputIndex : Int) = scheduler.inProgressGateIndex) ||
      scheduler.inputs.canPullSomePacket inputIndex) = scheduler.inputs.canPullSomePacket := by
    funext inputIndex
    rw [idle.gate, decide_eq_false (by omega), Bool.false_or]
  unfold schedulePacket
  dsimp only
  rw [same, elim_eq_index]

theorem schedulePacket_inOrder (idle : scheduler.Idle) (inOrder : scheduler.reverseOrder = false)
    : (schedulePacket scheduler).1 = i ↔ scheduler.FirstInput i := by
  have same : scheduler.getInputGateIndex = id := by
    funext i
    unfold PacketSchedulerBase.getInputGateIndex
    rw [inOrder]
    rfl
  rw [schedulePacket_eq idle, same, List.map_id, find?_finRange_eq_some]
  rfl

/-- In reverse order the last input is chosen at which packets wait. -/
theorem schedulePacket_reverse (idle : scheduler.Idle) (reverse : scheduler.reverseOrder = true)
    : (schedulePacket scheduler).1 = i ↔
      scheduler.inputs.canPullSomePacket i = true ∧
        ∀ j, i < j → scheduler.inputs.canPullSomePacket j = false := by
  have same : scheduler.getInputGateIndex = Fin.rev := by
    funext i
    unfold PacketSchedulerBase.getInputGateIndex
    rw [reverse]
    rfl
  rw [schedulePacket_eq idle, same, List.find?_map, Option.map_eq_some_iff]
  constructor
  · rintro ⟨k, found, rfl⟩
    obtain ⟨waits, before⟩ := find?_finRange_eq_some.mp found
    refine ⟨waits, fun j less => ?_⟩
    have none := before j.rev (Fin.rev_lt_iff.mpr less)
    rwa [Function.comp_apply, Fin.rev_rev] at none
  · rintro ⟨waits, after⟩
    refine ⟨i.rev, find?_finRange_eq_some.mpr ⟨?_, fun j less => ?_⟩, Fin.rev_rev i⟩
    · rwa [Function.comp_apply, Fin.rev_rev]
    · exact after j.rev (Fin.lt_rev_iff.mpr less)

theorem delivers_iff (idle : scheduler.Idle) :
    scheduler.Delivers schedulePacket ↔ Ordered scheduler := by
  rw [PacketSchedulerBase.delivers_iff idle]
  cases order : scheduler.reverseOrder with
  | false =>
    exact ⟨fun _ => .inl order, fun _ i first => (schedulePacket_inOrder idle order).mpr first⟩
  | true =>
    constructor
    · -- The first input at which packets wait is the last one, too.
      intro chooses
      refine .inr fun i j waits waits' => ?_
      obtain ⟨k, first⟩ := PacketSchedulerBase.exists_firstInput ⟨i, waits⟩
      obtain ⟨_, last⟩ := (schedulePacket_reverse idle order).mp (chooses k first)
      have only {l : Fin n} (waits : scheduler.inputs.canPullSomePacket l = true) : l = k := by
        rcases lt_trichotomy l k with less | same | greater
        · exact absurd waits (Bool.eq_false_iff.mp (first.2 l less))
        · exact same
        · exact absurd waits (Bool.eq_false_iff.mp (last l greater))
      rw [only waits, only waits']
    · rintro (inOrder | only) i first
      · exact absurd (order.symm.trans inOrder) nofun
      · refine (schedulePacket_reverse idle order).mpr ⟨first.1, fun j greater => ?_⟩
        rw [← Bool.not_eq_true]
        exact fun waits => absurd (only i j first.1 waits) (ne_of_lt greater)

end PriorityScheduler

namespace WrrScheduler

variable {P : Type} {n : Nat} {scheduler : PacketSchedulerBase (WrrScheduler n) P n} {i : Fin n}

/-- While there are tokens, the first input is chosen that has some. -/
theorem schedulePacket_token
    (waits : scheduler.inputs.canPullSomePacket i = true) (token : 0 < scheduler.state.buckets i)
    (before : ∀ j < i, scheduler.inputs.canPullSomePacket j = true →
      scheduler.state.buckets j ≤ 0) : (schedulePacket scheduler).1 = i := by
  have found : ((List.finRange n).find? fun j =>
      scheduler.inputs.canPullSomePacket j && 0 < scheduler.state.buckets j) = some i := by
    refine find?_finRange_eq_some.mpr ⟨?_, fun j less => ?_⟩
    · rw [waits, Bool.true_and, decide_eq_true token]
    · cases waits' : scheduler.inputs.canPullSomePacket j with
      | false => rfl
      | true =>
        rw [Bool.true_and]
        exact decide_eq_false (not_lt.mpr (before j less waits'))
  unfold schedulePacket
  dsimp only
  rw [found]

/-- Without tokens, the first input is chosen that has a weight. -/
theorem schedulePacket_weight (some : ∃ j, scheduler.inputs.canPullSomePacket j = true)
    (spent : ∀ j, scheduler.inputs.canPullSomePacket j = true → scheduler.state.buckets j ≤ 0) :
    (schedulePacket scheduler).1 = i ↔
      (0 < scheduler.state.weights i ∧ scheduler.inputs.canPullSomePacket i = true) ∧
        ∀ j < i, scheduler.inputs.canPullSomePacket j = true → scheduler.state.weights j ≤ 0 := by
  have none : ((List.finRange n).find? fun j =>
      scheduler.inputs.canPullSomePacket j && 0 < scheduler.state.buckets j) = none := by
    refine find?_finRange_eq_none.mpr fun j => ?_
    cases waits : scheduler.inputs.canPullSomePacket j with
    | false => rfl
    | true =>
      rw [Bool.true_and]
      exact decide_eq_false (not_lt.mpr (spent j waits))
  have nonempty : ((List.finRange n).all fun j => !scheduler.inputs.canPullSomePacket j) =
      false := by
    obtain ⟨j, waits⟩ := some
    exact List.all_eq_false.mpr ⟨j, List.mem_finRange j, by rw [waits]; decide⟩
  unfold schedulePacket
  dsimp only
  rw [none]
  dsimp only
  rw [nonempty, if_neg nofun, elim_eq_index, find?_finRange_eq_some]
  refine and_congr (by rw [Bool.and_eq_true, decide_eq_true_iff]) (forall₂_congr fun j _ => ?_)
  rw [Bool.and_eq_false_iff, decide_eq_false_iff_not, not_lt, ← Bool.not_eq_true,
    or_iff_not_imp_right, not_not]

/-- A token at the first input, or at no input while the first one has a weight. -/
theorem delivers_iff (idle : scheduler.Idle) :
    scheduler.Delivers schedulePacket ↔ Served scheduler := by
  rw [PacketSchedulerBase.delivers_iff idle]
  constructor
  · intro chooses i waits before
    have chosen := chooses i ⟨waits, before⟩
    by_cases token : ∃ j, (scheduler.inputs.canPullSomePacket j &&
        decide (0 < scheduler.state.buckets j)) = true
    · obtain ⟨k, holds, none⟩ := exists_first_finRange token
      obtain ⟨waits', token⟩ := Bool.and_eq_true_iff.mp holds
      have chosen' := schedulePacket_token waits' (of_decide_eq_true token) fun j less waits => by
        have fails := none j less
        rw [waits, Bool.true_and, decide_eq_false_iff_not] at fails
        exact not_lt.mp fails
      obtain rfl : i = k := Fin.ext (by omega)
      exact .inl (of_decide_eq_true token)
    · have spent (j : Fin n) (waits : scheduler.inputs.canPullSomePacket j = true) :
          scheduler.state.buckets j ≤ 0 := by
        by_contra some
        exact token ⟨j, by rw [waits, Bool.true_and, decide_eq_true (not_le.mp some)]⟩
      exact .inr ⟨((schedulePacket_weight ⟨i, waits⟩ spent).mp chosen).1.1, spent⟩
  · intro served i first
    rcases served i first.1 first.2 with token | ⟨weight, spent⟩
    · exact schedulePacket_token first.1 token fun j less waits =>
        absurd waits (Bool.eq_false_iff.mp (first.2 j less))
    · exact (schedulePacket_weight ⟨i, first.1⟩ spent).mpr ⟨⟨weight, first.1⟩,
        fun j less waits => absurd waits (Bool.eq_false_iff.mp (first.2 j less))⟩

end WrrScheduler

end Inet
