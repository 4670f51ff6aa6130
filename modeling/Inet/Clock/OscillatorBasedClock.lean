import Inet.Lib.Ticks

/-!
# The clock of an oscillator

An oscillator with a constant drift ticks; a clock counts its ticks. The drift and the phase of the
oscillator may be changed at any time. Times are exact rationals.
-/
namespace Inet

open Lib

variable {newDriftRate newTickOffset t : ℚ}

/-- Division that drops the fraction. -/
def truncate (q : ℚ) : ℤ := if 0 ≤ q then ⌊q⌋ else ⌈q⌉

def fmod (a b : ℚ) : ℚ := a - b * truncate (a / b)

structure ConstantDriftOscillator where
  nominalTickLength : ℚ
  relativeSpeed : ℚ
  driftRate : ℚ
  /-- The time from which intervals are measured. -/
  origin : ℚ
  /-- The interval from the origin to the next tick. -/
  nextTickFromOrigin : ℚ
  deriving DecidableEq

namespace ConstantDriftOscillator

def getCurrentTickLength (oscillator : ConstantDriftOscillator) : ℚ :=
  oscillator.nominalTickLength / (1 + oscillator.driftRate)

/-- The parameter `driftRate` is in parts per million; `resolution` is the shortest time. -/
def initialState (resolution simTime nominalTickLength driftRate tickOffset : ℚ) :
    Except String ConstantDriftOscillator :=
  let nominalTickLength := if nominalTickLength = 0 then resolution else nominalTickLength
  let driftRate := driftRate / 1000000
  let currentTickLength := nominalTickLength / (1 + driftRate)
  if tickOffset < 0 ∨ currentTickLength ≤ tickOffset then
    throw "First tick offset must be in the range [0, currentTickLength)"
  else return {
    nominalTickLength, relativeSpeed := 1 + driftRate, driftRate, origin := simTime
    nextTickFromOrigin := if tickOffset = 0 then 0 else currentTickLength - tickOffset }

/-- What has passed of the current tick. -/
def elapsedTickTime (currentSimTime : ℚ) (oscillator : ConstantDriftOscillator) : ℚ :=
  let currentTickLength := oscillator.getCurrentTickLength
  let baseTickTime := oscillator.origin + oscillator.nextTickFromOrigin - currentTickLength
  fmod (currentSimTime - baseTickTime) currentTickLength

/-- The part of `setDriftRate` between the signals. -/
def withDriftRate (currentSimTime newDriftRate : ℚ) (oscillator : ConstantDriftOscillator) :
    ConstantDriftOscillator :=
  let currentTickLength := oscillator.getCurrentTickLength
  let elapsedTickTime := oscillator.elapsedTickTime currentSimTime
  { oscillator with
    nextTickFromOrigin := if elapsedTickTime = 0 then 0 else
      (currentTickLength - elapsedTickTime) * (1 + oscillator.driftRate) / (1 + newDriftRate)
    driftRate := newDriftRate, relativeSpeed := 1 + newDriftRate, origin := currentSimTime }

/-- The part of `setTickOffset` between the signals. -/
def withTickOffset (currentSimTime newTickOffset : ℚ) (oscillator : ConstantDriftOscillator) :
    ConstantDriftOscillator :=
  { oscillator with
    origin := currentSimTime
    nextTickFromOrigin :=
      if newTickOffset = 0 then 0 else oscillator.getCurrentTickLength - newTickOffset }

def computeTicksForInterval (timeInterval : ℚ) (oscillator : ConstantDriftOscillator) : ℤ :=
  ⌊(timeInterval + oscillator.nextTickFromOrigin) / oscillator.nominalTickLength *
    oscillator.relativeSpeed⌋

def computeIntervalForTicks (numTicks : ℤ) (oscillator : ConstantDriftOscillator) : ℚ :=
  if numTicks = 0 then 0
  else if oscillator.nextTickFromOrigin = 0 then
    oscillator.nominalTickLength * numTicks / oscillator.relativeSpeed
  else oscillator.nominalTickLength * ((numTicks - 1 : ℤ) : ℚ) / oscillator.relativeSpeed +
    oscillator.nextTickFromOrigin

end ConstantDriftOscillator

/-- The clock, with its oscillator and the time of the simulation. -/
structure OscillatorBasedClock where
  simTime : ℚ
  oscillator : ConstantDriftOscillator
  originClockTick : ℤ
  deriving DecidableEq

namespace OscillatorBasedClock

def initialState (simTime initialClockTime : ℚ) (oscillator : ConstantDriftOscillator) :
    Except String OscillatorBasedClock :=
  let numTicks := initialClockTime / oscillator.nominalTickLength
  if (truncate numTicks : ℚ) ≠ numTicks then
    throw "Initial clock time must be a multiple of the oscillator nominal tick length"
  else return { simTime, oscillator, originClockTick := truncate numTicks }

def computeClockTimeFromSimTime (t : ℚ) (clock : OscillatorBasedClock) : ℚ :=
  ((clock.originClockTick +
    clock.oscillator.computeTicksForInterval (t - clock.oscillator.origin) : ℤ) : ℚ) *
      clock.oscillator.nominalTickLength

def getClockTime (clock : OscillatorBasedClock) : ℚ :=
  clock.computeClockTimeFromSimTime clock.simTime

def computeSimTimeFromClockTime (t : ℚ) (clock : OscillatorBasedClock) : ℚ :=
  let numTicks := truncate (t / clock.oscillator.nominalTickLength)
  clock.oscillator.origin +
    clock.oscillator.computeIntervalForTicks (numTicks - clock.originClockTick)

/-- The clock receives the signal before the state of the oscillator changes. -/
def preOscillatorStateChanged (clock : OscillatorBasedClock) : OscillatorBasedClock :=
  { clock with originClockTick := clock.originClockTick +
      clock.oscillator.computeTicksForInterval (clock.simTime - clock.oscillator.origin) }

def setDriftRate (newDriftRate : ℚ) (clock : OscillatorBasedClock) : OscillatorBasedClock :=
  if newDriftRate ≠ clock.oscillator.driftRate then
    { clock.preOscillatorStateChanged with
      oscillator := clock.oscillator.withDriftRate clock.simTime newDriftRate }
  else clock

def setTickOffset (newTickOffset : ℚ) (clock : OscillatorBasedClock) : OscillatorBasedClock :=
  let oldTickOffset := clock.oscillator.elapsedTickTime clock.simTime
  if newTickOffset ≠ oldTickOffset then
    { clock.preOscillatorStateChanged with
      oscillator := clock.oscillator.withTickOffset clock.simTime newTickOffset }
  else clock

/-- What happens to a clock. -/
inductive Event
  | pass (delay : ℚ)
  | setDriftRate (newDriftRate : ℚ)
  | setTickOffset (newTickOffset : ℚ)

def handle (clock : OscillatorBasedClock) : Event → OscillatorBasedClock
  | .pass delay => { clock with simTime := clock.simTime + delay }
  | .setDriftRate newDriftRate => clock.setDriftRate newDriftRate
  | .setTickOffset newTickOffset => clock.setTickOffset newTickOffset

/-- Ticks keep a positive length, and the offset is within a tick. -/
def Allowed (clock : OscillatorBasedClock) : Event → Prop
  | .pass delay => 0 ≤ delay
  | .setDriftRate newDriftRate => -1 < newDriftRate
  | .setTickOffset newTickOffset =>
    0 ≤ newTickOffset ∧ newTickOffset < clock.oscillator.getCurrentTickLength

/-- The clocks that some parameters give. -/
inductive Initial : OscillatorBasedClock → Prop
  | mk {resolution simTime nominalTickLength driftRate tickOffset initialClockTime : ℚ}
    {oscillator : ConstantDriftOscillator} {clock : OscillatorBasedClock}
    (positive : 0 < resolution) (nonneg : 0 ≤ nominalTickLength)
    (oscillates : ConstantDriftOscillator.initialState resolution simTime nominalTickLength
      driftRate tickOffset = .ok oscillator)
    (returned : initialState simTime initialClockTime oscillator = .ok clock) : Initial clock

inductive Reachable (starts : OscillatorBasedClock → Prop)
    (allowed : OscillatorBasedClock → Event → Prop) : OscillatorBasedClock → Prop
  | start {clock : OscillatorBasedClock} (initial : Initial clock) (started : starts clock) :
    Reachable starts allowed clock
  | step {clock : OscillatorBasedClock} (event : Event) (before : Reachable starts allowed clock)
    (allows : allowed clock event) : Reachable starts allowed (clock.handle event)

/-! ### What the clock is for -/

/-- The clock shows the next tick when the oscillator ticks, and only then. -/
def TicksInTime (clock : OscillatorBasedClock) : Prop :=
  ∀ t, clock.oscillator.origin < t →
    (StepsUpAt (fun u => clock.computeClockTimeFromSimTime u) clock.oscillator.nominalTickLength
        clock.oscillator.origin t ↔
      ∃ k : ℕ, t = clock.oscillator.origin + clock.oscillator.nextTickFromOrigin +
        k * clock.oscillator.getCurrentTickLength) ∧
    ((¬∃ k : ℕ, t = clock.oscillator.origin + clock.oscillator.nextTickFromOrigin +
        k * clock.oscillator.getCurrentTickLength) →
      StepsUpAt (fun u => clock.computeClockTimeFromSimTime u) 0 clock.oscillator.origin t)

/-- The time computed for a later clock time is the first one at which the clock shows it. -/
def Inverts (clock : OscillatorBasedClock) : Prop :=
  ∀ m : ℤ, clock.getClockTime < m * clock.oscillator.nominalTickLength →
    IsLeast {t | clock.simTime ≤ t ∧
        clock.computeClockTimeFromSimTime t = m * clock.oscillator.nominalTickLength}
      (clock.computeSimTimeFromClockTime (m * clock.oscillator.nominalTickLength))

/-- The origin is at a tick or half way between two ticks. -/
def Aligned (clock : OscillatorBasedClock) : Prop :=
  clock.oscillator.nextTickFromOrigin = 0 ∨
    2 * clock.oscillator.nextTickFromOrigin = clock.oscillator.getCurrentTickLength

/-- The oscillator changes at a tick or half way between two ticks, and its offset to that. -/
def AllowedAligned (clock : OscillatorBasedClock) (event : Event) : Prop :=
  clock.Allowed event ∧ match event with
    | .pass _ => True
    | .setDriftRate newDriftRate => newDriftRate = clock.oscillator.driftRate ∨
      clock.oscillator.elapsedTickTime clock.simTime = 0 ∨
      2 * clock.oscillator.elapsedTickTime clock.simTime = clock.oscillator.getCurrentTickLength
    | .setTickOffset newTickOffset =>
      newTickOffset = clock.oscillator.elapsedTickTime clock.simTime ∨ newTickOffset = 0 ∨
      2 * newTickOffset = clock.oscillator.getCurrentTickLength

/-! ### Oscillators -/

end OscillatorBasedClock

namespace ConstantDriftOscillator

variable {oscillator : ConstantDriftOscillator} {now : ℚ}

/-- Ticks have a positive length, and the next tick is less than a tick away from the origin. -/
structure Valid (oscillator : ConstantDriftOscillator) : Prop where
  nominal : 0 < oscillator.nominalTickLength
  speed : oscillator.relativeSpeed = 1 + oscillator.driftRate
  positive : 0 < 1 + oscillator.driftRate
  nonneg : 0 ≤ oscillator.nextTickFromOrigin
  less : oscillator.nextTickFromOrigin < oscillator.getCurrentTickLength

namespace Valid

theorem tickLength (valid : oscillator.Valid) : 0 < oscillator.getCurrentTickLength :=
  div_pos valid.nominal valid.positive

theorem computeTicksForInterval_eq (valid : oscillator.Valid) (timeInterval : ℚ) :
    oscillator.computeTicksForInterval timeInterval =
      ticks oscillator.getCurrentTickLength oscillator.nextTickFromOrigin timeInterval := by
  unfold computeTicksForInterval ticks getCurrentTickLength
  rw [valid.speed, div_div_eq_mul_div, div_mul_eq_mul_div]

theorem computeTicksForInterval_zero (valid : oscillator.Valid) :
    oscillator.computeTicksForInterval 0 = 0 := by
  rw [valid.computeTicksForInterval_eq, ticks_zero valid.tickLength valid.nonneg valid.less]

/-- The elapsed part of a tick is less than a tick. -/
theorem elapsedTickTime_bounds (valid : oscillator.Valid) (later : oscillator.origin ≤ now) :
    0 ≤ oscillator.elapsedTickTime now ∧
      oscillator.elapsedTickTime now < oscillator.getCurrentTickLength := by
  have positive := valid.tickLength
  unfold elapsedTickTime fmod
  dsimp only
  generalize from_base : now - (oscillator.origin + oscillator.nextTickFromOrigin -
    oscillator.getCurrentTickLength) = a
  have nonneg : 0 ≤ a := by linarith [valid.less]
  rw [truncate, if_pos (div_nonneg nonneg positive.le)]
  have below := Int.floor_le (a / oscillator.getCurrentTickLength)
  have above := Int.lt_floor_add_one (a / oscillator.getCurrentTickLength)
  rw [le_div_iff₀ positive] at below
  rw [div_lt_iff₀ positive] at above
  constructor <;> linarith

/-- What has passed of a tick is a part of a tick of the new length as well. -/
theorem withDriftRate (valid : oscillator.Valid) (later : oscillator.origin ≤ now)
    (rate : -1 < newDriftRate) :
    (oscillator.withDriftRate now newDriftRate).Valid := by
  obtain ⟨nonneg, less⟩ := valid.elapsedTickTime_bounds later
  have positive : 0 < 1 + newDriftRate := by linarith
  have length : 0 < oscillator.nominalTickLength / (1 + newDriftRate) :=
    div_pos valid.nominal positive
  refine ⟨valid.nominal, rfl, positive, ?_, ?_⟩ <;>
    dsimp only [ConstantDriftOscillator.withDriftRate, getCurrentTickLength]
  · split
    · exact le_refl _
    · exact div_nonneg (mul_nonneg (sub_nonneg.mpr less.le) valid.positive.le) positive.le
  · split
    · exact length
    · next elapsed =>
      have some : 0 < oscillator.elapsedTickTime now := lt_of_le_of_ne nonneg (Ne.symm elapsed)
      rw [div_lt_div_iff_of_pos_right positive, sub_mul, div_mul_cancel₀ _ valid.positive.ne']
      linarith [mul_pos some valid.positive]

theorem withTickOffset (valid : oscillator.Valid) (nonneg : 0 ≤ newTickOffset)
    (less : newTickOffset < oscillator.getCurrentTickLength) :
    (oscillator.withTickOffset now newTickOffset).Valid := by
  refine ⟨valid.nominal, valid.speed, valid.positive, ?_, ?_⟩ <;>
    dsimp only [ConstantDriftOscillator.withTickOffset]
  · split
    · exact le_refl _
    · exact sub_nonneg.mpr less.le
  · change _ < oscillator.getCurrentTickLength
    split
    · exact valid.tickLength
    · next offset =>
      have some : 0 < newTickOffset := lt_of_le_of_ne nonneg (Ne.symm offset)
      linarith

/-- Where the next tick is zero or half a tick away, the interval to the tick `n` is as long as
until `n` ticks are counted. -/
theorem computeIntervalForTicks_eq (valid : oscillator.Valid)
    (aligned : oscillator.nextTickFromOrigin = 0 ∨
      2 * oscillator.nextTickFromOrigin = oscillator.getCurrentTickLength)
    {n : ℤ} (some : n ≠ 0) :
    oscillator.computeIntervalForTicks n =
      n * oscillator.getCurrentTickLength - oscillator.nextTickFromOrigin := by
  have length (k : ℤ) : oscillator.nominalTickLength * k / oscillator.relativeSpeed =
      k * oscillator.getCurrentTickLength := by
    rw [valid.speed, getCurrentTickLength]
    ring
  unfold computeIntervalForTicks
  rw [if_neg some, length, length]
  split
  · next zero => rw [zero, sub_zero]
  · next nonzero =>
    have half := aligned.resolve_left nonzero
    rw [← half]
    push_cast
    ring

end Valid

end ConstantDriftOscillator

variable {event : Event}

namespace OscillatorBasedClock

variable {clock : OscillatorBasedClock}

structure Valid (clock : OscillatorBasedClock) : Prop where
  oscillator : clock.oscillator.Valid
  later : clock.oscillator.origin ≤ clock.simTime

/-! ### Changes -/

theorem Initial.valid (initial : Initial clock) : clock.Valid := by
  cases initial with
  | @mk resolution _ nominalTickLength _ _ _ _ _ positive nonneg oscillates returned =>
  unfold ConstantDriftOscillator.initialState at oscillates
  unfold initialState at returned
  dsimp only at oscillates returned
  generalize chosen : (if nominalTickLength = 0 then resolution else nominalTickLength) = L
    at oscillates
  have nominal : 0 < L := by
    rw [← chosen]
    split
    · exact positive
    · next nonzero => exact lt_of_le_of_ne nonneg (Ne.symm nonzero)
  split at oscillates
  · cases oscillates
  next inside =>
  split at returned
  · cases returned
  cases oscillates
  cases returned
  rw [not_or, not_lt, not_le] at inside
  obtain ⟨offset, less⟩ := inside
  have tick := lt_of_le_of_lt offset less
  have rate := (div_pos_iff_of_pos_left nominal).mp tick
  refine ⟨⟨nominal, rfl, rate, ?_, ?_⟩, le_refl _⟩ <;> dsimp only
  · split
    · exact le_refl _
    · exact sub_nonneg.mpr less.le
  · change _ < L / _
    split
    · exact tick
    · next offset' =>
      have some := lt_of_le_of_ne offset (Ne.symm offset')
      linarith

namespace Valid

theorem setDriftRate (valid : clock.Valid) (rate : -1 < newDriftRate) :
    (clock.setDriftRate newDriftRate).Valid := by
  unfold OscillatorBasedClock.setDriftRate
  split
  · exact ⟨valid.oscillator.withDriftRate valid.later rate, le_refl _⟩
  · exact valid

theorem setTickOffset (valid : clock.Valid) (nonneg : 0 ≤ newTickOffset)
    (less : newTickOffset < clock.oscillator.getCurrentTickLength) :
    (clock.setTickOffset newTickOffset).Valid := by
  unfold OscillatorBasedClock.setTickOffset
  dsimp only
  split
  · exact ⟨valid.oscillator.withTickOffset nonneg less, le_refl _⟩
  · exact valid

theorem handle (valid : clock.Valid) (allowed : clock.Allowed event) :
    (clock.handle event).Valid := by
  cases event with
  | pass delay => exact ⟨valid.oscillator, le_trans valid.later (le_add_of_nonneg_right allowed)⟩
  | setDriftRate newDriftRate => exact valid.setDriftRate allowed
  | setTickOffset newTickOffset => exact valid.setTickOffset allowed.1 allowed.2

theorem monotone (valid : clock.Valid) :
    Monotone fun t => clock.computeClockTimeFromSimTime t := by
  intro t u le
  dsimp only [computeClockTimeFromSimTime]
  rw [valid.oscillator.computeTicksForInterval_eq, valid.oscillator.computeTicksForInterval_eq]
  have ticks := ticks_mono (d := clock.oscillator.nextTickFromOrigin) valid.oscillator.tickLength
    (sub_le_sub_right le clock.oscillator.origin)
  refine mul_le_mul_of_nonneg_right ?_ valid.oscillator.nominal.le
  exact_mod_cast Int.add_le_add_left ticks _

/-- After a change the clock shows the ticks that have been counted at it. -/
theorem getClockTime_changed {oscillator : ConstantDriftOscillator}
    (changed : oscillator.Valid) (origin : oscillator.origin = clock.simTime)
    (nominal : oscillator.nominalTickLength = clock.oscillator.nominalTickLength) :
    getClockTime { clock.preOscillatorStateChanged with oscillator } = clock.getClockTime := by
  unfold getClockTime computeClockTimeFromSimTime preOscillatorStateChanged
  dsimp only
  rw [origin, sub_self, changed.computeTicksForInterval_zero, add_zero, nominal]

theorem getClockTime_setDriftRate (valid : clock.Valid) (rate : -1 < newDriftRate) :
    (clock.setDriftRate newDriftRate).getClockTime = clock.getClockTime := by
  unfold OscillatorBasedClock.setDriftRate
  split
  · exact getClockTime_changed (valid.oscillator.withDriftRate valid.later rate) rfl rfl
  · rfl

theorem getClockTime_setTickOffset (valid : clock.Valid)
    (nonneg : 0 ≤ newTickOffset) (less : newTickOffset < clock.oscillator.getCurrentTickLength) :
    (clock.setTickOffset newTickOffset).getClockTime = clock.getClockTime := by
  unfold OscillatorBasedClock.setTickOffset
  dsimp only
  split
  · exact getClockTime_changed (valid.oscillator.withTickOffset nonneg less) rfl rfl
  · rfl

theorem getClockTime_le (valid : clock.Valid) (allowed : clock.Allowed event) :
    clock.getClockTime ≤ (clock.handle event).getClockTime := by
  cases event with
  | pass delay => exact valid.monotone (le_add_of_nonneg_right allowed)
  | setDriftRate newDriftRate => exact (valid.getClockTime_setDriftRate allowed).ge
  | setTickOffset newTickOffset =>
    exact (valid.getClockTime_setTickOffset allowed.1 allowed.2).ge

/-! ### Ticks of the clock -/

/-- The clock shows the next tick where the ticks that are counted step up. -/
theorem stepsUpAt (valid : clock.Valid) {δ : ℚ}
    (up : StepsUpAt (fun x => (ticks clock.oscillator.getCurrentTickLength
      clock.oscillator.nextTickFromOrigin x : ℚ)) δ 0 (t - clock.oscillator.origin)) :
    StepsUpAt (fun u => clock.computeClockTimeFromSimTime u)
      (δ * clock.oscillator.nominalTickLength) clock.oscillator.origin t := by
  have shifted := up.comp clock.oscillator.nominalTickLength (clock.originClockTick : ℚ)
  refine Eq.mp ?_ shifted
  congr 1
  funext u
  unfold computeClockTimeFromSimTime
  rw [valid.oscillator.computeTicksForInterval_eq]
  push_cast
  rfl

/-- The clock shows the next tick an interval to the next tick before a tick of the oscillator. -/
theorem stepsUpAt_iff (valid : clock.Valid) (after : clock.oscillator.origin < t) :
    StepsUpAt (fun u => clock.computeClockTimeFromSimTime u) clock.oscillator.nominalTickLength
        clock.oscillator.origin t ↔
      ∃ n : ℤ, t - clock.oscillator.origin + clock.oscillator.nextTickFromOrigin =
        n * clock.oscillator.getCurrentTickLength := by
  have positive := valid.oscillator.tickLength
  refine ⟨fun up => ?_, fun ⟨n, whole⟩ => ?_⟩
  · by_contra apart
    have steady := valid.stepsUpAt (ticks_steadyAt positive (not_exists.mp apart))
    rw [zero_mul] at steady
    exact valid.oscillator.nominal.ne' (up.unique after steady)
  · have up := valid.stepsUpAt (ticks_stepsUpAt positive whole)
    rwa [one_mul] at up

end Valid

theorem Aligned.exists_eq (aligned : clock.Aligned) : ∃ j : ℕ,
    2 * clock.oscillator.nextTickFromOrigin = j * clock.oscillator.getCurrentTickLength := by
  rcases aligned with zero | half
  · exact ⟨0, by rw [zero, Nat.cast_zero, mul_zero, zero_mul]⟩
  · exact ⟨1, by rw [half, Nat.cast_one, one_mul]⟩

namespace Valid

/-- Where twice the interval to the next tick is a number of ticks, there is no difference between
that interval before a tick and after one. -/
theorem whole_iff (valid : clock.Valid) (aligned : clock.Aligned)
    (after : clock.oscillator.origin < t) :
    (∃ n : ℤ, t - clock.oscillator.origin + clock.oscillator.nextTickFromOrigin =
        n * clock.oscillator.getCurrentTickLength) ↔
      ∃ k : ℕ, t = clock.oscillator.origin + clock.oscillator.nextTickFromOrigin +
        k * clock.oscillator.getCurrentTickLength := by
  have positive := valid.oscillator.tickLength
  have less := valid.oscillator.less
  obtain ⟨j, twice⟩ := aligned.exists_eq
  generalize clock.oscillator.getCurrentTickLength = L at *
  constructor
  · rintro ⟨n, whole⟩
    have later : (0 : ℚ) < ((n - j + 1 : ℤ) : ℚ) * L := by
      push_cast
      linarith
    have nonneg : 0 < n - j + 1 := by
      exact_mod_cast (pos_iff_pos_of_mul_pos later).mpr positive
    obtain ⟨k, same⟩ := Int.eq_ofNat_of_zero_le (show 0 ≤ n - j by omega)
    have same : (k : ℚ) = n - j := by exact_mod_cast same.symm
    refine ⟨k, ?_⟩
    rw [same]
    linarith
  · rintro ⟨k, rfl⟩
    refine ⟨k + j, ?_⟩
    push_cast
    linarith

theorem ticksInTime (valid : clock.Valid) (aligned : clock.Aligned) : clock.TicksInTime := by
  intro t after
  have whole := valid.whole_iff aligned after
  refine ⟨(valid.stepsUpAt_iff after).trans whole, fun apart => ?_⟩
  rw [← whole] at apart
  have steady := valid.stepsUpAt (ticks_steadyAt valid.oscillator.tickLength (not_exists.mp apart))
  rwa [zero_mul] at steady

/-- A clock that ticks at the first tick after the origin is aligned. -/
theorem aligned (valid : clock.Valid) (inTime : clock.TicksInTime) : clock.Aligned := by
  have positive := valid.oscillator.tickLength
  have less := valid.oscillator.less
  by_contra apart
  obtain ⟨nonzero, unequal⟩ := not_or.mp apart
  have some := lt_of_le_of_ne valid.oscillator.nonneg (Ne.symm nonzero)
  have after : clock.oscillator.origin <
      clock.oscillator.origin + clock.oscillator.nextTickFromOrigin := by linarith
  have up := (inTime _ after).1.mpr ⟨0, by rw [Nat.cast_zero, zero_mul, add_zero]⟩
  obtain ⟨n, whole⟩ := (valid.stepsUpAt_iff after).mp up
  generalize clock.oscillator.getCurrentTickLength = L at *
  generalize clock.oscillator.nextTickFromOrigin = d at *
  have two : 2 * d = n * L := by linarith
  -- Twice the interval is between no ticks and two of them.
  have above : 0 < n := by
    have : (0 : ℚ) < n * L := by linarith
    exact_mod_cast (pos_iff_pos_of_mul_pos this).mpr positive
  have below : 0 < 2 - n := by
    have : (0 : ℚ) < ((2 - n : ℤ) : ℚ) * L := by
      push_cast
      linarith
    exact_mod_cast (pos_iff_pos_of_mul_pos this).mpr positive
  obtain rfl : n = 1 := by omega
  exact unequal (by rw [two, Int.cast_one, one_mul])

/-! ### Times of the clock -/

theorem truncate_intCast (m : ℤ) : truncate m = m := by
  unfold truncate
  rw [Int.floor_intCast, Int.ceil_intCast, ite_self]

theorem computeClockTimeFromSimTime_eq (valid : clock.Valid) {m : ℤ} :
    clock.computeClockTimeFromSimTime t = m * clock.oscillator.nominalTickLength ↔
      clock.originClockTick + ticks clock.oscillator.getCurrentTickLength
        clock.oscillator.nextTickFromOrigin (t - clock.oscillator.origin) = m := by
  unfold computeClockTimeFromSimTime
  rw [valid.oscillator.computeTicksForInterval_eq,
    mul_left_inj' valid.oscillator.nominal.ne', Int.cast_inj]

/-- The time at which a later clock time is shown first. -/
theorem inverts (valid : clock.Valid) (aligned : clock.Aligned) : clock.Inverts := by
  intro m later
  have positive := valid.oscillator.tickLength
  have nominal := valid.oscillator.nominal
  unfold getClockTime computeClockTimeFromSimTime at later
  rw [valid.oscillator.computeTicksForInterval_eq, mul_lt_mul_iff_left₀ nominal,
    Int.cast_lt] at later
  have counted : 0 ≤ ticks clock.oscillator.getCurrentTickLength
      clock.oscillator.nextTickFromOrigin (clock.simTime - clock.oscillator.origin) := by
    rw [le_ticks_iff positive, Int.cast_zero, zero_mul]
    linarith [valid.oscillator.nonneg, valid.later]
  have computed : clock.computeSimTimeFromClockTime (m * clock.oscillator.nominalTickLength) =
      clock.oscillator.origin + (((m - clock.originClockTick : ℤ) : ℚ) *
        clock.oscillator.getCurrentTickLength - clock.oscillator.nextTickFromOrigin) := by
    unfold computeSimTimeFromClockTime
    dsimp only
    rw [mul_div_cancel_right₀ _ nominal.ne', truncate_intCast,
      valid.oscillator.computeIntervalForTicks_eq aligned (by omega)]
  rw [computed]
  refine ⟨⟨?_, ?_⟩, ?_⟩
  · have fewer : ticks clock.oscillator.getCurrentTickLength clock.oscillator.nextTickFromOrigin
        (clock.simTime - clock.oscillator.origin) < m - clock.originClockTick := by omega
    linarith [(ticks_lt_iff positive).mp fewer]
  · rw [valid.computeClockTimeFromSimTime_eq, add_sub_cancel_left, ticks_first positive]
    ring
  · rintro t ⟨_, shown⟩
    rw [valid.computeClockTimeFromSimTime_eq] at shown
    have reached : m - clock.originClockTick ≤ ticks clock.oscillator.getCurrentTickLength
        clock.oscillator.nextTickFromOrigin (t - clock.oscillator.origin) := by omega
    linarith [(le_ticks_iff positive).mp reached]

end Valid

/-! ### Runs -/

theorem Aligned.withDriftRate (valid : clock.Valid) (rate : -1 < newDriftRate)
    (elapsed : clock.oscillator.elapsedTickTime clock.simTime = 0 ∨
      2 * clock.oscillator.elapsedTickTime clock.simTime =
        clock.oscillator.getCurrentTickLength) :
    Aligned { clock.preOscillatorStateChanged with
      oscillator := clock.oscillator.withDriftRate clock.simTime newDriftRate } := by
  have positive := valid.oscillator.positive
  have rate : 0 < 1 + newDriftRate := by linarith
  unfold Aligned ConstantDriftOscillator.withDriftRate
  dsimp only [ConstantDriftOscillator.getCurrentTickLength] at elapsed ⊢
  generalize clock.oscillator.elapsedTickTime clock.simTime = e at elapsed
  split
  · exact .inl rfl
  · next nonzero =>
    have half := elapsed.resolve_left nonzero
    refine .inr ?_
    rw [← half, two_mul e, add_sub_cancel_right, ← mul_div_assoc, ← mul_assoc, half,
      div_mul_cancel₀ _ positive.ne']

theorem Aligned.withTickOffset
    (offset : newTickOffset = 0 ∨ 2 * newTickOffset = clock.oscillator.getCurrentTickLength) :
    Aligned { clock.preOscillatorStateChanged with
      oscillator := clock.oscillator.withTickOffset clock.simTime newTickOffset } := by
  unfold Aligned ConstantDriftOscillator.withTickOffset
  dsimp only
  split
  · exact .inl rfl
  · next nonzero =>
    have half := offset.resolve_left nonzero
    refine .inr ?_
    change 2 * (clock.oscillator.getCurrentTickLength - newTickOffset) =
      clock.oscillator.getCurrentTickLength
    rw [← half]
    ring

theorem Aligned.handle (aligned : clock.Aligned) (valid : clock.Valid)
    (allowed : clock.AllowedAligned event) : (clock.handle event).Aligned := by
  obtain ⟨allowed, phase⟩ := allowed
  cases event with
  | pass delay => exact aligned
  | setDriftRate newDriftRate =>
    dsimp only [OscillatorBasedClock.handle, setDriftRate]
    split
    · next changes => exact .withDriftRate valid allowed (phase.resolve_left changes)
    · exact aligned
  | setTickOffset newTickOffset =>
    dsimp only [OscillatorBasedClock.handle, setTickOffset]
    split
    · next changes => exact .withTickOffset (phase.resolve_left changes)
    · exact aligned

theorem Reachable.valid {starts : OscillatorBasedClock → Prop}
    {allowed : OscillatorBasedClock → Event → Prop}
    (allows : ∀ clock event, allowed clock event → clock.Allowed event)
    (reachable : Reachable starts allowed clock) : clock.Valid := by
  induction reachable with
  | start initial _ => exact initial.valid
  | step event _ now valid => exact valid.handle (allows _ _ now)

theorem Reachable.aligned (reachable : Reachable Aligned AllowedAligned clock) :
    clock.Aligned := by
  induction reachable with
  | start _ aligned => exact aligned
  | step event before allowed aligned =>
    exact aligned.handle (before.valid fun _ _ allowed => allowed.1) allowed

/-- The clock of a run never decreases and does not change with its oscillator. It shows the ticks
of the oscillator, and inverts its time, if and only if it is aligned, as it is in runs that keep it
so. -/
theorem reachable_aligned_iff (clock : OscillatorBasedClock) :
    (Reachable (fun _ => True) Allowed clock →
      (Monotone fun t => clock.computeClockTimeFromSimTime t) ∧
      (∀ event, clock.Allowed event → clock.getClockTime ≤ (clock.handle event).getClockTime) ∧
      (∀ newDriftRate, clock.Allowed (.setDriftRate newDriftRate) →
        (clock.setDriftRate newDriftRate).getClockTime = clock.getClockTime) ∧
      (∀ newTickOffset, clock.Allowed (.setTickOffset newTickOffset) →
        (clock.setTickOffset newTickOffset).getClockTime = clock.getClockTime) ∧
      (clock.TicksInTime ∧ clock.Inverts ↔ clock.Aligned)) ∧
    (Reachable Aligned AllowedAligned clock → clock.TicksInTime ∧ clock.Inverts) := by
  constructor
  · intro reachable
    have valid := reachable.valid fun _ _ allowed => allowed
    refine ⟨valid.monotone, fun event => valid.getClockTime_le,
      fun newDriftRate => valid.getClockTime_setDriftRate,
      fun newTickOffset allowed => valid.getClockTime_setTickOffset allowed.1 allowed.2,
      fun holds => valid.aligned holds.1, fun aligned => ?_⟩
    exact ⟨valid.ticksInTime aligned, valid.inverts aligned⟩
  · intro reachable
    have valid := reachable.valid fun _ _ allowed => allowed.1
    exact ⟨valid.ticksInTime reachable.aligned, valid.inverts reachable.aligned⟩

/-- An oscillator with ticks of length one that begins in the middle of one. -/
def halfTick : OscillatorBasedClock where
  simTime := 0
  oscillator := {
    nominalTickLength := 1, relativeSpeed := 1, driftRate := 0
    origin := 0, nextTickFromOrigin := 1 / 2 }
  originClockTick := 0

/-- The same with a quarter of a tick gone. -/
def quarterTick : OscillatorBasedClock :=
  { halfTick with oscillator := { halfTick.oscillator with nextTickFromOrigin := 3 / 4 } }

/-- The parameters give the two clocks, and the first one is halfway through a tick. -/
theorem initialized :
    (ConstantDriftOscillator.initialState 1 0 1 0 (1 / 2) = .ok halfTick.oscillator ∧
      initialState 0 0 halfTick.oscillator = .ok halfTick) ∧
    (2 * halfTick.oscillator.nextTickFromOrigin = halfTick.oscillator.getCurrentTickLength ∧
      2 * halfTick.oscillator.elapsedTickTime halfTick.simTime =
        halfTick.oscillator.getCurrentTickLength) ∧
    (ConstantDriftOscillator.initialState 1 0 1 0 (1 / 4) = .ok quarterTick.oscillator ∧
      initialState 0 0 quarterTick.oscillator = .ok quarterTick) ∧
    quarterTick.getClockTime < (1 : ℤ) * quarterTick.oscillator.nominalTickLength ∧
    (quarterTick.simTime ≤ 1 / 4 ∧ quarterTick.computeClockTimeFromSimTime (1 / 4) =
      (1 : ℤ) * quarterTick.oscillator.nominalTickLength) ∧
    ¬ quarterTick.computeSimTimeFromClockTime
      ((1 : ℤ) * quarterTick.oscillator.nominalTickLength) ≤ 1 / 4 := by
  decide +kernel

theorem halfTick_initial : Initial halfTick :=
  .mk one_pos zero_le_one initialized.1.1 initialized.1.2

theorem halfTick_inverts : (halfTick.TicksInTime ∧ halfTick.Inverts) ∧
    (halfTick.handle (.setDriftRate 1)).TicksInTime ∧ (halfTick.handle (.setDriftRate 1)).Inverts :=
  ⟨((reachable_aligned_iff halfTick).1 (.start halfTick_initial trivial)).2.2.2.2.mpr
      (.inr initialized.2.1.1),
    (reachable_aligned_iff _).2 (.step (.setDriftRate 1)
      (.start halfTick_initial (.inr initialized.2.1.1))
      ⟨show (-1 : ℚ) < 1 by decide, .inr (.inr initialized.2.1.2)⟩)⟩

/-- One second is shown a quarter of a second after the start, not three quarters after it. -/
theorem quarterTick_late : ¬∀ clock, Reachable (fun _ => True) Allowed clock →
    clock.TicksInTime ∧ clock.Inverts := by
  intro all
  obtain ⟨_, _, made, shown, early, late⟩ := initialized
  obtain ⟨_, inverts⟩ := all quarterTick
    (.start (.mk one_pos zero_le_one made.1 made.2) trivial)
  exact late ((inverts 1 shown).2 early)

end OscillatorBasedClock

end Inet
