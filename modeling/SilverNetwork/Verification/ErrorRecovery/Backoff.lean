import Mathlib.Data.List.DropRight
import SilverNetwork.Model.ErrorRecovery

/-! An exponential backoff over its calls. Its delay before the jitter doubles with every attempt
up to the maximum, whatever saturates on the way, and the jitter of the source is nothing exactly
for the delays below ten milliseconds. -/

namespace SilverNetwork

namespace ErrorRecovery

variable {b b' : ExponentialBackoff} {initialMs maxMs : UInt64} {j : UInt64 → UInt64} {k : ℕ}

/-! ## Attempts -/

namespace BackoffEvent

def isNextBackoff : BackoffEvent → Bool
  | .nextBackoff _ _ => true
  | _ => false

def isReset : BackoffEvent → Bool
  | .reset => true
  | _ => false

end BackoffEvent

/-- How many delays have been asked for since the last reset. -/
def attempts (calls : List BackoffCall) : ℕ :=
  (calls.rtakeWhile fun c => !c.event.isReset).countP fun c => c.event.isNextBackoff

@[simp] theorem attempts_nil : attempts [] = 0 := rfl

theorem attempts_concat (calls : List BackoffCall) (c : BackoffCall) :
    attempts (calls ++ [c]) =
      if c.event.isReset then 0
      else attempts calls + if c.event.isNextBackoff then 1 else 0 := by
  unfold attempts
  by_cases hreset : c.event.isReset
  · simp [hreset]
  · simp [hreset, List.countP_append, List.countP_singleton]

/-- The backoff has its configuration and counts so many attempts, as far as it can. -/
structure ExponentialBackoff.Follows (initialMs maxMs : UInt64) (k : ℕ)
    (b : ExponentialBackoff) : Prop where
  initial : b.initialDelayMs = initialMs
  maximum : b.maxDelayMs = maxMs
  attempt : b.attempt.toNat = min (2 ^ 32 - 1) k

namespace ExponentialBackoff

theorem follows_new (initialMs maxMs : UInt64) : (new initialMs maxMs).Follows initialMs maxMs 0 :=
  ⟨rfl, rfl, rfl⟩

theorem Follows.reset (h : b.Follows initialMs maxMs k) : b.reset.Follows initialMs maxMs 0 :=
  ⟨h.initial, h.maximum, rfl⟩

/-- What an attempt leaves: the count goes up, and the reading of the clock is kept. -/
theorem Follows.advance (h : b.Follows initialMs maxMs k) (last : Option Instant) :
    Follows initialMs maxMs (k + 1)
      { b with attempt := Saturating.add32 b.attempt 1, lastBackoff := last } := by
  refine ⟨h.initial, h.maximum, ?_⟩
  simp only [Saturating.toNat_add32, h.attempt, UInt32.toNat_one]
  omega

end ExponentialBackoff

theorem nextBackoffBy_eq_some {wall : SystemTime} {now : Instant} {duration : Duration}
    (h : b.nextBackoffBy j wall now = some (duration, b')) :
    ∃ delay, ExponentialBackoff.jitteredDelayBy j b.delayMs wall = some delay ∧
      duration = delay.toNat * millisecond ∧
      b' = { b with attempt := Saturating.add32 b.attempt 1, lastBackoff := some now } := by
  obtain ⟨delay, hdelay, hpair⟩ := Option.map_eq_some_iff.mp h
  obtain ⟨hduration, hb'⟩ := Prod.mk.inj hpair
  exact ⟨delay, hdelay, hduration.symm, hb'.symm⟩

theorem backoffStep_follows {e : BackoffEvent} {r : BackoffResult}
    (h : backoffStep j b e = some (r, b')) (hb : b.Follows initialMs maxMs k) :
    b'.Follows initialMs maxMs
      (if e.isReset then 0 else k + if e.isNextBackoff then 1 else 0) := by
  cases e with
  | nextBackoff wall now =>
      obtain ⟨⟨duration, next⟩, hnext, hpair⟩ := Option.map_eq_some_iff.mp h
      obtain ⟨_, rfl⟩ := Prod.mk.inj hpair
      obtain ⟨_, _, _, hnext⟩ := nextBackoffBy_eq_some hnext
      rw [id, hnext]
      exact hb.advance (some now)
  | reset =>
      obtain ⟨_, rfl⟩ := Prod.mk.inj (Option.some.inj h)
      exact hb.reset
  | attemptCount | isReadyToRetry now =>
      obtain ⟨_, rfl⟩ := Prod.mk.inj (Option.some.inj h)
      exact hb

theorem run_follows {calls : List BackoffCall}
    (h : (backoffMachine j).Run (.new initialMs maxMs) calls b) :
    b.Follows initialMs maxMs (attempts calls) := by
  induction h with
  | start => exact ExponentialBackoff.follows_new initialMs maxMs
  | call c _ hmakes ih =>
      rw [attempts_concat]
      exact backoffStep_follows hmakes ih

/-! ## Delays before the jitter -/

/-- The delay of attempt `k` in milliseconds, as the exponential law has it. -/
def nominal (initialMs maxMs : UInt64) (k : ℕ) : ℕ := min maxMs.toNat (initialMs.toNat * 2 ^ k)

theorem nominal_le (initialMs maxMs : UInt64) (k : ℕ) : nominal initialMs maxMs k ≤ maxMs.toNat :=
  Nat.min_le_left _ _

theorem nominal_lt (initialMs maxMs : UInt64) (k : ℕ) : nominal initialMs maxMs k < 2 ^ 64 :=
  Nat.lt_of_le_of_lt (nominal_le initialMs maxMs k) maxMs.toNat_lt

theorem nominal_of_lt (h : nominal initialMs maxMs k < maxMs.toNat) :
    nominal initialMs maxMs k = initialMs.toNat * 2 ^ k := by
  unfold nominal at *
  omega

theorem nominal_succ (h : nominal initialMs maxMs k < maxMs.toNat) :
    nominal initialMs maxMs (k + 1) = min maxMs.toNat (2 * nominal initialMs maxMs k) := by
  rw [nominal_of_lt h, nominal, Nat.pow_succ, ← Nat.mul_assoc, Nat.mul_comm 2]

/-- A factor beyond the range may as well be the greatest of the range. -/
theorem min_mul_min (a m p : ℕ) (hm : m < 2 ^ 64) :
    min (min (2 ^ 64 - 1) (a * min (2 ^ 64 - 1) p)) m = min m (a * p) := by
  cases a with
  | zero => simp
  | succ a =>
      by_cases hp : p ≤ 2 ^ 64 - 1
      · rw [Nat.min_eq_right hp]
        omega
      · have hbeyond : 2 ^ 64 - 1 ≤ p := by omega
        have hcapped : 2 ^ 64 - 1 ≤ (a + 1) * (2 ^ 64 - 1) :=
          Nat.le_mul_of_pos_left _ (Nat.succ_pos a)
        have hexact : p ≤ (a + 1) * p := Nat.le_mul_of_pos_left p (Nat.succ_pos a)
        rw [Nat.min_eq_left hbeyond]
        omega

theorem nominal_of_large {k k' : ℕ} (h : 64 ≤ k) (h' : 64 ≤ k') :
    nominal initialMs maxMs k = nominal initialMs maxMs k' := by
  have hmax := maxMs.toNat_lt
  have hlarge : ∀ {i : ℕ}, 64 ≤ i → min maxMs.toNat (initialMs.toNat * 2 ^ i) =
      min maxMs.toNat (initialMs.toNat * (2 ^ 64 - 1)) := by
    intro i hi
    have hpow : 2 ^ 64 ≤ 2 ^ i := Nat.pow_le_pow_right (by decide) hi
    have hcapped : min (2 ^ 64 - 1) (2 ^ i) = 2 ^ 64 - 1 := Nat.min_eq_left (by omega)
    rw [← min_mul_min _ _ (2 ^ i) hmax, hcapped]
    omega
  rw [nominal, hlarge h, nominal, hlarge h']

/-- The delay before the jitter follows the exponential law, although the count, the power and
the product all saturate. -/
theorem ExponentialBackoff.Follows.toNat_delayMs (h : b.Follows initialMs maxMs k) :
    b.delayMs.toNat = nominal initialMs maxMs k := by
  have hcounted : b.delayMs.toNat = nominal initialMs maxMs b.attempt.toNat := by
    simp only [delayMs, h.initial, h.maximum, UInt64.toNat_min, Saturating.toNat_mul64,
      Saturating.toNat_pow64, UInt64.reduceToNat]
    exact min_mul_min _ _ _ maxMs.toNat_lt
  rw [hcounted, h.attempt]
  by_cases hk : k ≤ 2 ^ 32 - 1
  · rw [Nat.min_eq_right hk]
  · exact nominal_of_large (by omega) (by omega)

/-! ## The jitter -/

/-- A tenth of a number, as the floats have it. -/
def floatTenth (n : ℕ) : ℕ := Binary64.truncMul 3602879701896397 55 n

theorem floatTenth_le (n : ℕ) : floatTenth n ≤ n := Binary64.truncMul_le n (by decide)

theorem toNat_jitter (delay : UInt64) :
    (ExponentialBackoff.jitter delay).toNat = floatTenth delay.toNat := by
  have hle := floatTenth_le delay.toNat
  have hlt := delay.toNat_lt
  rw [ExponentialBackoff.jitter, UInt64.toNat_ofNat']
  exact Nat.mod_eq_of_lt (Nat.lt_of_le_of_lt hle hlt)

theorem floatTenth_eq_zero_iff (n : ℕ) : floatTenth n = 0 ↔ n < 10 := by
  by_cases hn : n < 10
  · have htenths : ∀ n < 10, floatTenth n = 0 := by decide
    simp [hn, htenths n hn]
  · have hround : 10 ≤ Binary64.round n := by
      by_cases hsmall : n < 16
      · rw [Binary64.round_of_lt (by omega)]
        exact Nat.le_of_not_lt hn
      · have hpow : 2 ^ 4 ≤ Binary64.round n := Binary64.pow_le_round (Nat.le_of_not_lt hsmall)
        omega
    have hpos : 0 < floatTenth n := Binary64.truncMul_pos (by omega)
    omega

/-- There is a delay exactly where there is a tenth to take the remainder by. -/
theorem jitteredDelay_isSome_iff (delayMs : UInt64) (wall : SystemTime) :
    (ExponentialBackoff.jitteredDelay delayMs wall).isSome ↔ 10 ≤ delayMs.toNat := by
  have hzero : ExponentialBackoff.jitter delayMs = 0 ↔ delayMs.toNat < 10 := by
    rw [← UInt64.toNat_inj, toNat_jitter, UInt64.toNat_zero, floatTenth_eq_zero_iff]
  unfold ExponentialBackoff.jitteredDelay
  by_cases hsmall : delayMs.toNat < 10
  · simp [hzero.mpr hsmall, Nat.not_le.mpr hsmall]
  · simp [mt hzero.mp hsmall, Nat.le_of_not_lt hsmall]

/-- A tenth, rounded down. -/
def wholeTenth (delayMs : UInt64) : UInt64 := delayMs / 10

/-- Up to a delay of thousands of years the floats make no difference. -/
theorem floatTenth_of_lt {n : ℕ} (h : n < 2 ^ 50) : floatTenth n = n / 10 := by
  have hsize : n * 3602879701896397 < 2 ^ (49 + 53) := by omega
  have hunit := Binary64.unitAt_dvd_pow hsize
  have hlow : n / 10 * 2 ^ 55 ≤ Binary64.round (n * 3602879701896397) := by
    apply Binary64.le_roundTo
    · exact Nat.dvd_trans hunit (Nat.dvd_trans (by decide) (Nat.dvd_mul_left _ _))
    · omega
  have hhigh : Binary64.round (n * 3602879701896397) < (n / 10 + 1) * 2 ^ 55 := by
    have hround := Binary64.roundTo_le (Binary64.unitAt (n * 3602879701896397))
      (n * 3602879701896397)
    have hunit_le := Nat.le_of_dvd (by decide) hunit
    unfold Binary64.round
    omega
  have hexact : Binary64.round n = n := Binary64.round_of_lt (by omega)
  rw [floatTenth, Binary64.truncMul, hexact]
  omega

theorem jitter_eq_wholeTenth {delayMs : UInt64} (h : delayMs.toNat < 2 ^ 50) :
    ExponentialBackoff.jitter delayMs = wholeTenth delayMs := by
  rw [← UInt64.toNat_inj, toNat_jitter, floatTenth_of_lt h, wholeTenth, UInt64.toNat_div]
  rfl

/-- With such a maximum, a delay is what it is with the tenth rounded down. -/
theorem nextBackoff_eq_wholeTenth (h : b.maxDelayMs.toNat < 2 ^ 50) (wall : SystemTime)
    (now : Instant) : b.nextBackoff wall now = b.nextBackoffBy wholeTenth wall now := by
  have hdelay : b.delayMs.toNat < 2 ^ 50 := by
    rw [ExponentialBackoff.delayMs, UInt64.toNat_min]
    exact Nat.lt_of_le_of_lt (Nat.min_le_right _ _) h
  rw [ExponentialBackoff.nextBackoff_eq, ExponentialBackoff.nextBackoffBy,
    ExponentialBackoff.nextBackoffBy, ExponentialBackoff.jitteredDelayBy,
    ExponentialBackoff.jitteredDelayBy, jitter_eq_wholeTenth hdelay]

/-! ## Delays -/

/-- The nanoseconds of the clock, cut to 64 bits. -/
def nanos (wall : SystemTime) : ℕ := wall.sinceEpoch % 2 ^ 64

/-- What a delay comes to. -/
theorem jitteredDelayBy_eq_some_iff {delayMs delay : UInt64} {wall : SystemTime} :
    ExponentialBackoff.jitteredDelayBy j delayMs wall = some delay ↔ (j delayMs).toNat ≠ 0 ∧
      delay.toNat = min (2 ^ 64 - 1)
        (delayMs.toNat - (j delayMs).toNat / 2 + nanos wall % (j delayMs).toNat) := by
  have hvalue : (Saturating.add64 (Saturating.sub64 delayMs (j delayMs / 2))
      (UInt64.ofNat wall.sinceEpoch % j delayMs)).toNat =
      min (2 ^ 64 - 1)
        (delayMs.toNat - (j delayMs).toNat / 2 + nanos wall % (j delayMs).toNat) := by
    simp [nanos]
  unfold ExponentialBackoff.jitteredDelayBy
  by_cases hzero : j delayMs = 0
  · simp [hzero]
  · have hpositive : (j delayMs).toNat ≠ 0 := fun h => hzero (UInt64.toNat_inj.mp h)
    rw [if_neg hzero, Option.some.injEq, ← UInt64.toNat_inj, hvalue]
    simp [hpositive, eq_comm]

end ErrorRecovery

end SilverNetwork
