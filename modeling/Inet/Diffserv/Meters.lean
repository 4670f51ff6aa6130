import Mathlib.Data.Rat.Floor
import Inet.Lib.TokenBucket

/-!
# Meters

The three color meters of differentiated services. Buckets are in bits, rates in bits per second.
-/
namespace Inet.Diffserv

open Lib TokenBucket

inductive Color
  | GREEN | YELLOW | RED
deriving DecidableEq

open Color

structure Packet where
  arrivalTime : ℚ
  bitLength : ℕ
  /-- The color that another meter has given it. -/
  color : Option Color

/-- The tokens of some time, without a fraction. -/
def numTokens (rate elapsedTime : ℚ) : ℤ := ⌊elapsedTime * rate⌋

def refill (tokens numTokens size : ℤ) : ℤ :=
  if tokens + numTokens ≤ size then tokens + numTokens else size

/-- The rank of the old color, below that of green if there is none. -/
def oldColor (colorAwareMode : Bool) (packet : Packet) : ℤ :=
  if colorAwareMode then
    match packet.color with
    | none => -1
    | some GREEN => 0
    | some YELLOW => 1
    | some RED => 2
  else -1

/-- A meter updates its buckets, and then colors the packet. -/
structure Meter (σ : Type) where
  lastUpdateTime : σ → ℚ
  updateTokenBuckets : σ → ℚ → σ
  updateMeterState : σ → Packet → Color × σ

/-- The bits of a packet that gets one of some colors. -/
def bitsOf (colors : List Color) (color : Color) (packet : Packet) : ℕ :=
  if color ∈ colors then packet.bitLength else 0

namespace Meter

variable {σ : Type} (meter : Meter σ)

def meterPacket (state : σ) (packet : Packet) : Color × σ :=
  meter.updateMeterState (meter.updateTokenBuckets state packet.arrivalTime) packet

def machine : Machine σ Packet :=
  ⟨fun state packet => (meter.meterPacket state packet).2, Packet.arrivalTime, meter.lastUpdateTime⟩

/-- The meter after some packets. -/
def run (state : σ) (packets : List Packet) : σ := packets.foldl meter.machine.step state

/-- The bits that get one of some colors in a run. -/
def passing (colors : List Color) : σ → List Packet → ℚ :=
  meter.machine.total fun state packet => bitsOf colors (meter.meterPacket state packet).1 packet

/-- All packets of a run get a color. -/
def AllGet (color : Color) : σ → List Packet → Prop :=
  meter.machine.AllPass fun state packet => (meter.meterPacket state packet).1 = color

/-- Levels stay within their buckets. -/
structure Keeps (holds : σ → Prop) : Prop where
  update : ∀ state now, holds state → meter.lastUpdateTime state ≤ now →
    holds (meter.updateTokenBuckets state now) ∧
      meter.lastUpdateTime (meter.updateTokenBuckets state now) = now
  mark : ∀ state packet, holds state → holds (meter.updateMeterState state packet).2 ∧
    meter.lastUpdateTime (meter.updateMeterState state packet).2 = meter.lastUpdateTime state

/-- Tokens fill a level, and bits of some colors are paid from it. -/
structure Bucket (holds : σ → Prop) (colors : List Color) (level : σ → ℤ) (size : ℤ) (rate : ℚ) :
    Prop where
  nonneg : ∀ state, holds state → 0 ≤ level state
  le_size : ∀ state, holds state → level state ≤ size
  filled : ∀ state now,
    level (meter.updateTokenBuckets state now) ≤
      level state + numTokens rate (now - meter.lastUpdateTime state)
  paid : ∀ state packet, bitsOf colors (meter.updateMeterState state packet).1 packet +
    level (meter.updateMeterState state packet).2 ≤ level state

variable {meter} {holds : σ → Prop} {colors : List Color} {level : σ → ℤ} {size : ℤ} {rate : ℚ}

theorem Keeps.machine (keeps : meter.Keeps holds) : meter.machine.Keeps holds := by
  intro state packet held later
  obtain ⟨updated, now⟩ := keeps.update state packet.arrivalTime held later
  obtain ⟨marked, same⟩ := keeps.mark _ packet updated
  exact ⟨marked, same.trans now⟩

/-- The bits that are paid from a bucket in a stretch of a run. -/
theorem Bucket.stretch_le (bucket : meter.Bucket holds colors level size rate)
    (keeps : meter.Keeps holds) {state : σ} (kept : holds state) {before rest : List Packet}
    {packet : Packet}
    (ordered : Ordered Packet.arrivalTime (meter.lastUpdateTime state) (before ++ packet :: rest)) :
    meter.passing colors (meter.run state before) (packet :: rest) ≤
      size + rate * (finish Packet.arrivalTime packet.arrivalTime rest - packet.arrivalTime) := by
  have pays : meter.machine.Pays
      (fun state packet => bitsOf colors (meter.meterPacket state packet).1 packet) holds
      (fun state => level state) size rate := by
    refine ⟨fun state held => Int.cast_nonneg (bucket.nonneg state held), ?_, ?_⟩
    · intro state packet held later
      have updated := (keeps.update state packet.arrivalTime held later).1
      exact_mod_cast (bucket.paid _ packet).trans (bucket.le_size _ updated)
    · intro state packet held later
      have paid := (bucket.paid _ packet).trans (bucket.filled state packet.arrivalTime)
      have whole : (numTokens rate (packet.arrivalTime - meter.lastUpdateTime state) : ℚ) ≤
        (packet.arrivalTime - meter.lastUpdateTime state) * rate := Int.floor_le _
      have cast := (Int.cast_le (R := ℚ)).mpr paid
      push_cast at cast
      rw [mul_comm] at whole
      exact cast.trans (add_le_add le_rfl whole)
  exact pays.stretch_le keeps.machine kept ordered

end Meter

theorem refill_le {tokens more size : ℤ} :
    refill tokens more size ≤ size ∧ refill tokens more size ≤ tokens + more := by
  unfold refill
  split <;> omega

theorem refill_nonneg {tokens more size : ℤ} (level : 0 ≤ tokens) (room : tokens ≤ size)
    (nonneg : 0 ≤ more) : 0 ≤ refill tokens more size := by
  unfold refill
  split <;> omega

theorem numTokens_nonneg {rate elapsedTime : ℚ} (nonneg : 0 ≤ rate) (later : 0 ≤ elapsedTime) :
    0 ≤ numTokens rate elapsedTime :=
  Int.floor_nonneg.mpr (mul_nonneg later nonneg)

/-! ### Single rate -/

structure SingleRateThreeColorMeter where
  CIR : ℚ
  CBS : ℤ
  EBS : ℤ
  colorAwareMode : Bool

namespace SingleRateThreeColorMeter

structure State where
  Tc : ℤ
  Te : ℤ
  lastUpdateTime : ℚ

variable (params : SingleRateThreeColorMeter)

def initial (now : ℚ) : State := ⟨params.CBS, params.EBS, now⟩

def updateTokenBuckets (state : State) (currentTime : ℚ) : State :=
  let numTokens := numTokens params.CIR (currentTime - state.lastUpdateTime)
  if state.Tc + numTokens ≤ params.CBS then ⟨state.Tc + numTokens, state.Te, currentTime⟩
  else
    -- what the committed burst does not take goes to the excess burst
    let excessTokens := state.Tc + numTokens - params.CBS
    ⟨params.CBS, refill state.Te excessTokens params.EBS, currentTime⟩

def updateMeterState (state : State) (packet : Packet) : Color × State :=
  let oldColor := oldColor params.colorAwareMode packet
  if oldColor ≤ 0 ∧ state.Tc - packet.bitLength ≥ 0 then
    (GREEN, { state with Tc := state.Tc - packet.bitLength })
  else if oldColor ≤ 1 ∧ state.Te - packet.bitLength ≥ 0 then
    (YELLOW, { state with Te := state.Te - packet.bitLength })
  else (RED, state)

def meter : Meter State :=
  ⟨State.lastUpdateTime, params.updateTokenBuckets, params.updateMeterState⟩

/-- The levels lie within their buckets. -/
structure Levels (state : State) : Prop where
  Tc_nonneg : 0 ≤ state.Tc
  Tc_le : state.Tc ≤ params.CBS
  Te_nonneg : 0 ≤ state.Te
  Te_le : state.Te ≤ params.EBS

variable {params}

theorem updateMeterState_cases (state : State) (packet : Packet) :
    (0 ≤ state.Tc - packet.bitLength ∧
      params.updateMeterState state packet =
        (GREEN, { state with Tc := state.Tc - packet.bitLength })) ∨
    (0 ≤ state.Te - packet.bitLength ∧
      params.updateMeterState state packet =
        (YELLOW, { state with Te := state.Te - packet.bitLength })) ∨
    params.updateMeterState state packet = (RED, state) := by
  unfold updateMeterState
  dsimp only
  split
  next green => exact .inl ⟨green.2, rfl⟩
  split
  next yellow => exact .inr (.inl ⟨yellow.2, rfl⟩)
  exact .inr (.inr rfl)

theorem keeps_levels (nonneg : 0 ≤ params.CIR) : params.meter.Keeps params.Levels where
  update state now levels later := by
    obtain ⟨Tc_nonneg, Tc_le, Te_nonneg, Te_le⟩ := levels
    have more := numTokens_nonneg nonneg (sub_nonneg.mpr later)
    dsimp only [meter, updateTokenBuckets] at more ⊢
    split
    · exact ⟨⟨by dsimp only; omega, by dsimp only; omega, Te_nonneg, Te_le⟩, rfl⟩
    · exact ⟨⟨by dsimp only; omega, le_rfl, refill_nonneg Te_nonneg Te_le (by omega), refill_le.1⟩, rfl⟩
  mark state packet levels := by
    obtain ⟨Tc_nonneg, Tc_le, Te_nonneg, Te_le⟩ := levels
    dsimp only [meter]
    obtain ⟨enough, eq⟩ | ⟨enough, eq⟩ | eq := @updateMeterState_cases params state packet
    · rw [eq]
      exact ⟨⟨enough, by dsimp only; omega, Te_nonneg, Te_le⟩, rfl⟩
    · rw [eq]
      exact ⟨⟨Tc_nonneg, Tc_le, enough, by dsimp only; omega⟩, rfl⟩
    · rw [eq]
      exact ⟨⟨Tc_nonneg, Tc_le, Te_nonneg, Te_le⟩, rfl⟩

/-- Green bits are paid from the committed bucket. -/
theorem committed : params.meter.Bucket params.Levels [GREEN] State.Tc params.CBS params.CIR where
  nonneg _ levels := levels.Tc_nonneg
  le_size _ levels := levels.Tc_le
  filled state now := by
    dsimp only [meter, updateTokenBuckets]
    split
    · exact le_rfl
    · dsimp only
      omega
  paid state packet := by
    dsimp only [meter, bitsOf]
    obtain ⟨_, eq⟩ | ⟨_, eq⟩ | eq := @updateMeterState_cases params state packet <;> simp [eq]

/-- Yellow bits are paid from the excess bucket, which gets the tokens that the other one leaves. -/
theorem excess : params.meter.Bucket params.Levels [GREEN, YELLOW] (fun state => state.Tc + state.Te)
    (params.CBS + params.EBS) params.CIR where
  nonneg _ levels := add_nonneg levels.Tc_nonneg levels.Te_nonneg
  le_size _ levels := add_le_add levels.Tc_le levels.Te_le
  filled state now := by
    dsimp only [meter, updateTokenBuckets]
    split
    · dsimp only
      omega
    · have left := @refill_le state.Te
        (state.Tc + numTokens params.CIR (now - state.lastUpdateTime) - params.CBS) params.EBS
      dsimp only
      omega
  paid state packet := by
    dsimp only [meter, bitsOf]
    obtain ⟨_, eq⟩ | ⟨_, eq⟩ | eq := @updateMeterState_cases params state packet
    all_goals
      simp [eq]
    all_goals omega

/-- With each packet less than one token is lost, since fractions are dropped. -/
theorem serves_green (nonneg : 0 ≤ params.CIR) (blind : params.colorAwareMode = false) :
    params.meter.machine.Serves (fun state packet => (params.meter.meterPacket state packet).1 = GREEN)
      (fun packet => packet.bitLength) params.Levels (fun state => state.Tc) params.CBS params.CIR
      1 := by
  intro state packet levels later
  change state.lastUpdateTime ≤ packet.arrivalTime at later
  have more := numTokens_nonneg nonneg (sub_nonneg.mpr later)
  have Tc_le := levels.Tc_le
  refine ⟨(params.updateTokenBuckets state packet.arrivalTime).Tc, ?_, fun enough => ?_⟩
  · change _ ∨ _ ∧ (state.Tc : ℚ) + params.CIR * (packet.arrivalTime - state.lastUpdateTime) - 1 ≤ _
    have whole := Int.sub_one_lt_floor ((packet.arrivalTime - state.lastUpdateTime) * params.CIR)
    dsimp only [updateTokenBuckets]
    split
    · by_cases full : state.Tc = params.CBS
      · refine .inl (congrArg _ ?_)
        dsimp only
        omega
      · refine .inr ⟨fun same => full (Int.cast_injective same), ?_⟩
        push_cast [numTokens]
        linarith [mul_comm params.CIR (packet.arrivalTime - state.lastUpdateTime)]
    · exact .inl rfl
  · have enough : (packet.bitLength : ℚ) ≤ (params.updateTokenBuckets state packet.arrivalTime).Tc :=
      enough
    have green : (params.updateTokenBuckets state packet.arrivalTime).Tc - packet.bitLength ≥ 0 :=
      sub_nonneg.mpr (by exact_mod_cast enough)
    dsimp only [Meter.machine, Meter.meterPacket, meter]
    rw [updateMeterState, oldColor, blind, if_neg Bool.false_ne_true, if_pos ⟨by decide, green⟩]
    exact ⟨rfl, Int.cast_sub _ _⟩

end SingleRateThreeColorMeter

/-! ### Two rates -/

structure TwoRateThreeColorMeter where
  PIR : ℚ
  PBS : ℤ
  CIR : ℚ
  CBS : ℤ
  colorAwareMode : Bool

namespace TwoRateThreeColorMeter

structure State where
  Tp : ℤ
  Tc : ℤ
  lastUpdateTime : ℚ

variable (params : TwoRateThreeColorMeter)

def initial (now : ℚ) : State := ⟨params.PBS, params.CBS, now⟩

def updateTokenBuckets (state : State) (currentTime : ℚ) : State :=
  let elapsedTime := currentTime - state.lastUpdateTime
  ⟨refill state.Tp (numTokens params.PIR elapsedTime) params.PBS,
    refill state.Tc (numTokens params.CIR elapsedTime) params.CBS, currentTime⟩

def updateMeterState (state : State) (packet : Packet) : Color × State :=
  let oldColor := oldColor params.colorAwareMode packet
  -- whole bytes, unlike the single rate
  let packetSizeInBits : ℤ := (8 * ((packet.bitLength + 7) / 8) : ℕ)
  if oldColor = 2 ∨ state.Tp - packetSizeInBits < 0 then (RED, state)
  else if oldColor = 1 ∨ state.Tc - packetSizeInBits < 0 then
    (YELLOW, { state with Tp := state.Tp - packetSizeInBits })
  else (GREEN, { state with Tp := state.Tp - packetSizeInBits, Tc := state.Tc - packetSizeInBits })

def meter : Meter State :=
  ⟨State.lastUpdateTime, params.updateTokenBuckets, params.updateMeterState⟩

/-- The levels lie within their buckets. -/
structure Levels (state : State) : Prop where
  Tp_nonneg : 0 ≤ state.Tp
  Tp_le : state.Tp ≤ params.PBS
  Tc_nonneg : 0 ≤ state.Tc
  Tc_le : state.Tc ≤ params.CBS

variable {params}

theorem keeps_levels (nonneg : 0 ≤ params.PIR ∧ 0 ≤ params.CIR) : params.meter.Keeps params.Levels where
  update state now levels later := by
    have peak := numTokens_nonneg nonneg.1 (sub_nonneg.mpr later)
    have committed := numTokens_nonneg nonneg.2 (sub_nonneg.mpr later)
    exact ⟨⟨refill_nonneg levels.Tp_nonneg levels.Tp_le peak, refill_le.1,
      refill_nonneg levels.Tc_nonneg levels.Tc_le committed, refill_le.1⟩, rfl⟩
  mark state packet levels := by
    obtain ⟨Tp_nonneg, Tp_le, Tc_nonneg, Tc_le⟩ := levels
    dsimp only [meter, updateMeterState]
    split
    · exact ⟨⟨Tp_nonneg, Tp_le, Tc_nonneg, Tc_le⟩, rfl⟩
    · split
      · exact ⟨⟨by dsimp only; omega, by dsimp only; omega, Tc_nonneg, Tc_le⟩, rfl⟩
      · refine ⟨⟨?_, ?_, ?_, ?_⟩, rfl⟩
        all_goals
          dsimp only
          omega

theorem updateMeterState_paid (state : State) (packet : Packet) :
    bitsOf [GREEN] (params.updateMeterState state packet).1 packet +
      (params.updateMeterState state packet).2.Tc ≤ state.Tc ∧
    bitsOf [GREEN, YELLOW] (params.updateMeterState state packet).1 packet +
      (params.updateMeterState state packet).2.Tp ≤ state.Tp := by
  unfold bitsOf updateMeterState
  dsimp only
  split
  · simp
  · split
    all_goals
      simp
      omega

/-- Green bits are paid from the committed bucket, and green and yellow ones from the peak bucket. -/
theorem committed : params.meter.Bucket params.Levels [GREEN] State.Tc params.CBS params.CIR :=
  ⟨fun _ => Levels.Tc_nonneg, fun _ => Levels.Tc_le, fun _ _ => refill_le.2,
    fun state packet => (updateMeterState_paid state packet).1⟩

theorem peak : params.meter.Bucket params.Levels [GREEN, YELLOW] State.Tp params.PBS params.PIR :=
  ⟨fun _ => Levels.Tp_nonneg, fun _ => Levels.Tp_le, fun _ _ => refill_le.2,
    fun state packet => (updateMeterState_paid state packet).2⟩

end TwoRateThreeColorMeter

end Inet.Diffserv
